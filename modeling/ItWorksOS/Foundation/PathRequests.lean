import Mathlib.Tactic
import Mathlib.Data.List.Dedup

/-!
# Requests for paths

A sequence of requests builds a hierarchy of directories and files. A request is served when its
path is missing and its parent is a directory, and otherwise changes nothing. When every request is
preceded by one for its parent, the hierarchy can be read off the requests: the first request for a
path decides what it is, and a path exists if all paths before it are first requested as
directories.
-/

/-- A request to create a path as a file or as a directory. -/
structure PathRequest (α : Type*) where
  path : List α
  isFile : Bool
  deriving DecidableEq

/-- What lies at each path: nothing, a directory, or a file. -/
abbrev PathView (α : Type*) := List α → Option Bool

variable {α : Type*}

/-- A request for a path below a directory. -/
def PathRequest.under (part : α) (request : PathRequest α) : PathRequest α :=
  ⟨part :: request.path, request.isFile⟩

/-- The requests for the directories of a path, outermost first, followed by requests below the last
of them. -/
def PathRequest.through (below : List (PathRequest α)) : List α → List (PathRequest α)
  | [] => below
  | part :: parts => ⟨[part], false⟩ :: (through below parts).map (PathRequest.under part)

theorem PathRequest.through_nonempty {below : List (PathRequest α)}
    (nonempty : ∀ request ∈ below, request.path ≠ []) (parts : List α) :
    ∀ request ∈ through below parts, request.path ≠ [] := by
  cases parts with
  | nil => exact nonempty
  | cons part parts =>
      rw [through, List.forall_mem_cons, List.forall_mem_map]
      exact ⟨List.cons_ne_nil _ _, fun _ _ => List.cons_ne_nil _ _⟩

/-- The components of the requested paths. -/
theorem PathRequest.mem_through {below : List (PathRequest α)} {parts : List α}
    {request : PathRequest α} (listed : request ∈ through below parts) {part : α}
    (member : part ∈ request.path) : part ∈ parts ∨ ∃ other ∈ below, part ∈ other.path := by
  induction parts generalizing request with
  | nil => exact .inr ⟨request, listed, member⟩
  | cons first parts induction =>
      rw [through, List.mem_cons, List.mem_map] at listed
      rcases listed with rfl | ⟨inner, inner_listed, rfl⟩
      · rw [List.mem_singleton.mp member]
        exact .inl (List.mem_cons_self ..)
      · rcases List.mem_cons.mp member with rfl | later
        · exact .inl (List.mem_cons_self ..)
        · exact (induction inner_listed later).imp_left (List.mem_cons_of_mem _)

/-- Every request is preceded by one for its parent. -/
def RequestsOrdered (requests : List (PathRequest α)) : Prop :=
  ∀ before request after, requests = before ++ request :: after → request.path ≠ [] ∧
    (request.path.dropLast ≠ [] → request.path.dropLast ∈ before.map PathRequest.path)

section

variable [DecidableEq α]

/-- The hierarchy with nothing below its root. -/
def PathView.root : PathView α := fun path => if path = [] then some false else none

/-- Serve a request. -/
def PathView.serve (view : PathView α) (request : PathRequest α) : PathView α := fun path =>
  if path = request.path ∧ view path = none ∧ view path.dropLast = some false then
    some request.isFile
  else view path

/-- Serve requests one after the other. -/
def PathView.serveAll (view : PathView α) (requests : List (PathRequest α)) : PathView α :=
  requests.foldl PathView.serve view

/-- What the first request for a path asks for. -/
def firstRequest (requests : List (PathRequest α)) (path : List α) : Option Bool :=
  (requests.find? fun request => request.path = path).map PathRequest.isFile

/-- The requested paths whose proper prefixes are all first requested as directories. -/
def createdPaths (requests : List (PathRequest α)) : List (List α) :=
  (requests.map PathRequest.path).dedup.filter fun path =>
    ∀ n < path.length, 0 < n → firstRequest requests (path.take n) = some false

end

namespace PathView

variable [DecidableEq α] {view : PathView α} {requests : List (PathRequest α)}
  {request : PathRequest α} {path : List α} {isFile : Bool}

/-- Two views agree when they agree below one name and beside it. -/
theorem ext_cons {left right : PathView α} (part : α) (root : left [] = right [])
    (below : (fun path => left (part :: path)) = fun path => right (part :: path))
    (aside : ∀ other path, other ≠ part → left (other :: path) = right (other :: path)) :
    left = right := by
  funext path
  cases path with
  | nil => exact root
  | cons other path =>
      by_cases same : other = part
      · subst same
        exact congrFun below path
      · exact aside other path same

/-! ## Serving requests -/

theorem serve_of_some (found : view path = some isFile) :
    view.serve request path = some isFile := by
  rw [serve, if_neg fun served => ?_, found]
  rw [found] at served
  cases served.2.1

/-- What exists stays as it is. -/
theorem serveAll_of_some (found : view path = some isFile) :
    view.serveAll requests path = some isFile := by
  induction requests generalizing view with
  | nil => exact found
  | cons request requests induction => exact induction (serve_of_some found)

@[simp] theorem serveAll_nil : view.serveAll [] = view := rfl

@[simp] theorem serveAll_cons :
    view.serveAll (request :: requests) = (view.serve request).serveAll requests := rfl

theorem serveAll_append (more : List (PathRequest α)) :
    view.serveAll (requests ++ more) = (view.serveAll requests).serveAll more :=
  List.foldl_append

/-- Requests below a directory act on what lies below it. -/
theorem serveAll_under (part : α) (nonempty : ∀ request ∈ requests, request.path ≠ []) :
    (fun path => view.serveAll (requests.map (PathRequest.under part)) (part :: path)) =
        PathView.serveAll (fun path => view (part :: path)) requests ∧
      ∀ other path, other ≠ part →
        view.serveAll (requests.map (PathRequest.under part)) (other :: path) =
          view (other :: path) := by
  induction requests generalizing view with
  | nil => exact ⟨rfl, fun _ _ _ => rfl⟩
  | cons request requests induction =>
      rw [List.forall_mem_cons] at nonempty
      obtain ⟨below, aside⟩ := @induction (view.serve (request.under part)) nonempty.2
      have step : (fun path => view.serve (request.under part) (part :: path)) =
          PathView.serve (fun path => view (part :: path)) request := by
        funext path
        rw [serve, serve]
        by_cases same : path = request.path
        · have parent : (part :: path).dropLast = part :: path.dropLast :=
            List.dropLast_cons_of_ne_nil (same ▸ nonempty.1)
          simp only [PathRequest.under, same, true_and]
          rw [← same, parent]
        · simp [PathRequest.under, same]
      rw [List.map_cons, serveAll_cons, serveAll_cons, ← step]
      refine ⟨below, fun other path differ => (aside other path differ).trans ?_⟩
      rw [serve, if_neg fun served => differ (List.cons.inj served.1).1]

/-- The root itself is never requested. -/
theorem serveAll_root (nonempty : ∀ request ∈ requests, request.path ≠ []) :
    view.serveAll requests [] = view [] := by
  induction requests generalizing view with
  | nil => rfl
  | cons request requests induction =>
      rw [List.forall_mem_cons] at nonempty
      rw [serveAll_cons, induction nonempty.2, serve,
        if_neg fun served => nonempty.1 served.1.symm]

/-- Nothing is created below a file or below what is missing. -/
theorem serveAll_of_closed (nonempty : ∀ request ∈ requests, request.path ≠ [])
    (closed : ∀ path, view path ≠ some false) : view.serveAll requests = view := by
  induction requests with
  | nil => rfl
  | cons request requests induction =>
      rw [List.forall_mem_cons] at nonempty
      have step : view.serve request = view := by
        funext path
        rw [serve, if_neg fun served => closed _ served.2.2]
      rw [serveAll_cons, step, induction nonempty.2]

/-! ## The hierarchy of all requests -/

theorem firstRequest_append (more : List (PathRequest α)) :
    firstRequest (requests ++ more) path =
      (firstRequest requests path).or (firstRequest more path) := by
  rw [firstRequest, List.find?_append, Option.map_or, firstRequest, firstRequest]

theorem firstRequest_singleton : firstRequest [request] path =
    if request.path = path then some request.isFile else none := by
  rw [firstRequest, List.find?_singleton]
  by_cases same : request.path = path <;> simp [same]

theorem firstRequest_isSome_iff :
    (firstRequest requests path).isSome ↔ path ∈ requests.map PathRequest.path := by
  rw [firstRequest, Option.isSome_map, List.find?_isSome, List.mem_map]
  simp

/-- The paths before a created path are created. -/
theorem take_mem_createdPaths {n : ℕ} (created : path ∈ createdPaths requests) (positive : 0 < n)
    (inside : n ≤ path.length) : path.take n ∈ createdPaths requests := by
  rcases Nat.lt_or_eq_of_le inside with shorter | whole
  · rw [createdPaths, List.mem_filter, decide_eq_true_iff] at created ⊢
    obtain ⟨-, prefixes⟩ := created
    refine ⟨?_, fun m small above => ?_⟩
    · rw [List.mem_dedup, ← firstRequest_isSome_iff, prefixes n shorter positive]
      rfl
    · rw [List.length_take] at small
      rw [List.take_take, Nat.min_eq_left (by omega)]
      exact prefixes m (by omega) above
  · rwa [whole, List.take_length]

end PathView

namespace RequestsOrdered

variable {requests more : List (PathRequest α)} {request : PathRequest α} {path : List α}

theorem parent (ordered : RequestsOrdered requests)
    (requested : path ∈ requests.map PathRequest.path) :
    path ≠ [] ∧ (path.dropLast ≠ [] → path.dropLast ∈ requests.map PathRequest.path) := by
  obtain ⟨request, member, rfl⟩ := List.mem_map.mp requested
  obtain ⟨before, after, split⟩ := List.append_of_mem member
  obtain ⟨nonempty, earlier⟩ := ordered before request after split
  refine ⟨nonempty, fun inner => ?_⟩
  rw [split, List.map_append]
  exact List.mem_append_left _ (earlier inner)

theorem nonempty (ordered : RequestsOrdered requests) : ∀ request ∈ requests, request.path ≠ [] :=
  fun _ member => (ordered.parent (List.mem_map_of_mem member)).1

theorem nil : RequestsOrdered ([] : List (PathRequest α)) := by
  intro before request after split
  cases before <;> cases split

theorem append (first : RequestsOrdered requests) (second : RequestsOrdered more) :
    RequestsOrdered (requests ++ more) := by
  intro before request after split
  rcases List.append_eq_append_iff.mp split with ⟨rest, rfl, tail_eq⟩ | ⟨rest, rfl, tail_eq⟩
  · obtain ⟨nonempty, earlier⟩ := second rest request after tail_eq
    refine ⟨nonempty, fun inner => ?_⟩
    rw [List.map_append]
    exact List.mem_append_right _ (earlier inner)
  · cases rest with
    | nil =>
        obtain ⟨nonempty, earlier⟩ := second [] request after tail_eq.symm
        refine ⟨nonempty, fun inner => ?_⟩
        cases earlier inner
    | cons head rest =>
        obtain ⟨rfl, -⟩ := List.cons.inj tail_eq
        exact first before request rest rfl

theorem flatMap {β : Type*} {items : List β} {each : β → List (PathRequest α)}
    (ordered : ∀ item, RequestsOrdered (each item)) : RequestsOrdered (items.flatMap each) := by
  induction items with
  | nil => exact nil
  | cons item items induction => exact (ordered item).append induction

/-- The directories of a path come before what lies below them. -/
theorem through (ordered : RequestsOrdered requests) (parts : List α) :
    RequestsOrdered (PathRequest.through requests parts) := by
  induction parts with
  | nil => exact ordered
  | cons part parts induction =>
      intro before request after split
      rw [PathRequest.through] at split
      cases before with
      | nil =>
          obtain ⟨rfl, -⟩ := List.cons.inj split
          exact ⟨List.cons_ne_nil _ _, fun inner => absurd rfl inner⟩
      | cons head before =>
          obtain ⟨rfl, mapped⟩ := List.cons.inj split
          obtain ⟨left, right, inner_eq, rfl, right_eq⟩ := List.map_eq_append_iff.mp mapped
          obtain ⟨below, rest, rfl, rfl, -⟩ := List.map_eq_cons_iff.mp right_eq
          obtain ⟨nonempty, earlier⟩ := induction left below rest inner_eq
          refine ⟨List.cons_ne_nil _ _, fun _ => ?_⟩
          rw [PathRequest.under, List.dropLast_cons_of_ne_nil nonempty, List.map_cons]
          by_cases inner : below.path.dropLast = []
          · rw [inner]
            exact List.mem_cons_self ..
          · obtain ⟨first, member, same⟩ := List.mem_map.mp (earlier inner)
            refine List.mem_cons_of_mem _ (List.mem_map.mpr ⟨first.under part, ?_, ?_⟩)
            · exact List.mem_map_of_mem member
            · rw [PathRequest.under, same]

theorem initial (ordered : RequestsOrdered (requests ++ more)) : RequestsOrdered requests := by
  intro before request after split
  exact ordered before request (after ++ more) (by rw [split]; simp)

theorem single (part : α) (isFile : Bool) : RequestsOrdered [⟨[part], isFile⟩] := by
  intro before request after split
  cases before with
  | nil =>
      obtain ⟨rfl, -⟩ := List.cons.inj split
      exact ⟨List.cons_ne_nil _ _, fun inner => absurd rfl inner⟩
  | cons head before => simp at split

variable [DecidableEq α]

theorem firstRequest_root (ordered : RequestsOrdered requests) :
    firstRequest requests [] = none := by
  rw [← Option.not_isSome_iff_eq_none, PathView.firstRequest_isSome_iff]
  exact fun requested => (ordered.parent requested).1 rfl

/-- Below a directory lies what is requested first, and below anything else lies nothing. -/
theorem serveAll_eq (ordered : RequestsOrdered requests) (path_ne : path ≠ []) :
    PathView.root.serveAll requests path =
      if PathView.root.serveAll requests path.dropLast = some false then
        firstRequest requests path
      else none := by
  induction requests using List.reverseRecOn generalizing path with
  | nil => simp [PathView.root, path_ne, firstRequest]
  | append_singleton requests last induction =>
      have initial := ordered.initial
      obtain ⟨last_ne, last_parent⟩ := ordered requests last [] rfl
      have own := induction initial path_ne
      rw [PathView.serveAll_append, PathView.serveAll_cons, PathView.serveAll_nil,
        PathView.firstRequest_append, PathView.firstRequest_singleton]
      generalize view_eq : PathView.root.serveAll requests = view at own ⊢
      by_cases same : path = last.path
      · subst same
        have shorter : last.path.dropLast ≠ last.path := by
          intro equal
          have lengths := congrArg List.length equal
          rw [List.length_dropLast] at lengths
          have := List.length_pos_of_ne_nil last_ne
          omega
        have parent : view.serve last last.path.dropLast = view last.path.dropLast := by
          rw [PathView.serve, if_neg fun served => shorter served.1]
        rw [parent, if_pos rfl, PathView.serve]
        by_cases directory : view last.path.dropLast = some false
        · rw [if_pos directory] at own ⊢
          cases found : firstRequest requests last.path with
          | none => rw [own, found, if_pos ⟨rfl, rfl, directory⟩, Option.none_or]
          | some isFile => rw [own, found, if_neg (by simp), Option.some_or]
        · rw [if_neg directory] at own ⊢
          rw [if_neg fun served => directory served.2.2, own]
      · rw [PathView.serve, if_neg fun served => same served.1, if_neg (Ne.symm same),
          Option.or_none, own]
        by_cases created : path.dropLast = last.path ∧ view path.dropLast = none ∧
            view path.dropLast.dropLast = some false
        · -- a path is not requested before its parent exists
          have unrequested : firstRequest requests path = none := by
            rw [← Option.not_isSome_iff_eq_none, PathView.firstRequest_isSome_iff]
            intro requested
            have earlier := (initial.parent requested).2 (created.1 ▸ last_ne)
            have parent := induction initial (created.1 ▸ last_ne : path.dropLast ≠ [])
            rw [view_eq, if_pos created.2.2, created.2.1] at parent
            rw [← PathView.firstRequest_isSome_iff, ← parent] at earlier
            cases earlier
          rw [unrequested, ite_self, ite_self]
        · rw [PathView.serve, if_neg created]

/-- What serving all requests creates. -/
theorem serveAll_eq_some_iff (ordered : RequestsOrdered requests) {isFile : Bool}
    (path_ne : path ≠ []) : PathView.root.serveAll requests path = some isFile ↔
      path ∈ createdPaths requests ∧ firstRequest requests path = some isFile := by
  have closed (path : List α) (isFile : Bool) (path_ne : path ≠ []) :
      PathView.root.serveAll requests path = some isFile ↔
        firstRequest requests path = some isFile ∧
          ∀ n < path.length, 0 < n → firstRequest requests (path.take n) = some false := by
    induction path using List.reverseRecOn generalizing isFile with
    | nil => exact absurd rfl path_ne
    | append_singleton path last induction =>
        have root : PathView.root.serveAll requests [] = some false :=
          PathView.serveAll_root ordered.nonempty
        have prefixes : (∀ n < (path ++ [last]).length, 0 < n →
            firstRequest requests ((path ++ [last]).take n) = some false) ↔
              PathView.root.serveAll requests path = some false := by
          have cut (n : ℕ) (small : n ≤ path.length) :
              (path ++ [last]).take n = path.take n := List.take_append_of_le_length small
          simp only [List.length_append, List.length_singleton]
          by_cases empty : path = []
          · subst empty
            rw [root]
            refine iff_of_true (fun n small positive => ?_) rfl
            simp only [List.length_nil] at small
            omega
          · rw [induction false empty]
            have positive := List.length_pos_of_ne_nil empty
            constructor
            · intro all
              refine ⟨?_, fun n small above => cut n small.le ▸ all n (by omega) above⟩
              have whole := all path.length (by omega) positive
              rwa [cut path.length le_rfl, List.take_length] at whole
            · rintro ⟨own, all⟩ n small above
              rw [cut n (by omega)]
              by_cases last_n : n = path.length
              · rwa [last_n, List.take_length]
              · exact all n (by omega) above
        rw [ordered.serveAll_eq path_ne, List.dropLast_concat, prefixes]
        split_ifs with directory
        · simp [directory]
        · simp [directory]
  rw [closed path isFile path_ne, createdPaths, List.mem_filter, List.mem_dedup,
    decide_eq_true_iff]
  constructor
  · rintro ⟨first, all⟩
    refine ⟨⟨?_, all⟩, first⟩
    rw [← PathView.firstRequest_isSome_iff, first]
    rfl
  · rintro ⟨⟨-, all⟩, first⟩
    exact ⟨first, all⟩

theorem mem_createdPaths_iff (ordered : RequestsOrdered requests) :
    path ∈ createdPaths requests ↔
      path ≠ [] ∧ (PathView.root.serveAll requests path).isSome := by
  by_cases path_ne : path = []
  · subst path_ne
    simp only [ne_eq, not_true_eq_false, false_and, iff_false]
    intro created
    rw [createdPaths, List.mem_filter, List.mem_dedup] at created
    exact (ordered.parent created.1).1 rfl
  · simp only [ne_eq, path_ne, not_false_eq_true, true_and]
    rw [Option.isSome_iff_exists]
    simp only [ordered.serveAll_eq_some_iff path_ne]
    refine ⟨fun created => ?_, fun ⟨_, created, _⟩ => created⟩
    have requested := List.mem_dedup.mp (List.mem_filter.mp created).1
    obtain ⟨isFile, first⟩ :=
      Option.isSome_iff_exists.mp (PathView.firstRequest_isSome_iff.mpr requested)
    exact ⟨isFile, created, first⟩

end RequestsOrdered
