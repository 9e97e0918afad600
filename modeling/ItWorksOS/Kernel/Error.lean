import Mathlib.Tactic

/-!
# Kernel error codes

Functions return `KERR_OK` or a negated error code; pointer-valued functions encode the error in
the last page of the address space.
-/

namespace ItWorksOS

/-- The non-zero members of `enum kerror`. -/
inductive KError where
  | inval
  | range
  | nomem
  | noent
  /-- `KERR_EXISTS`. -/
  | existing
  | busy
  | nospc
  | nosup
  | nodev
  deriving DecidableEq, Repr

/-- Numeric value of an error code in `enum kerror`. -/
def KError.code : KError → ℕ
  | .inval => 1
  | .range => 2
  | .nomem => 3
  | .noent => 4
  | .existing => 5
  | .busy => 6
  | .nospc => 7
  | .nosup => 8
  | .nodev => 9

/-- An `int32_t` kernel status: `KERR_OK` or a negated error code. -/
abbrev Status := Except KError Unit

/-- `KERR_PTR(-err)`: the error code as a 32-bit pointer. -/
def kerrPtr (error : KError) : ℕ := 2 ^ 32 - error.code

/-- `KERR_PTR_IS_ERR`: the pointer lies in the last `KERR_MAX_ERRNO` bytes. -/
def kerrPtrIsErr (pointer : ℕ) : Bool := decide (2 ^ 32 - 4096 ≤ pointer)

/-- `KERR_TRY`: return the error of a failed call, and continue after a successful one. -/
def kerrTry {State : Type*} (result : Status × State) (next : State → Status × State) :
    Status × State :=
  match result with
  | (.error error, state) => (.error error, state)
  | (.ok (), state) => next state

/-- What the call establishes and the continuation keeps holds after both. -/
theorem kerrTry_invariant {State : Type*} (P : State → Prop) {result : Status × State}
    {next : State → Status × State} (first : P result.2)
    (second : ∀ state, P state → P (next state).2) : P (kerrTry result next).2 := by
  obtain ⟨status, state⟩ := result
  cases status with
  | error error => exact first
  | ok => exact second state first

@[simp] theorem kerrTry_ok {State : Type*} (state : State) (next : State → Status × State) :
    kerrTry (.ok (), state) next = next state := rfl

/-- A sequence succeeds only when both calls do. -/
theorem kerrTry_eq_ok {State : Type*} {result : Status × State} {next : State → Status × State}
    {final : State} (passed : kerrTry result next = (.ok (), final)) :
    ∃ state, result = (.ok (), state) ∧ next state = (.ok (), final) := by
  obtain ⟨status, state⟩ := result
  cases status with
  | error error => cases passed
  | ok => exact ⟨state, rfl, passed⟩

@[simp] theorem kerrPtrIsErr_kerrPtr (error : KError) : kerrPtrIsErr (kerrPtr error) = true := by
  cases error <;> decide

end ItWorksOS
