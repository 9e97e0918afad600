import ItWorksOS.Mm.Vmm

/-!
# The list of virtual memory areas

The searches of `mm/vmm.c` stop early and its insertion point is where its loop stopped, so each of
them relies on the list being sorted and disjoint, and each update must keep it so. This holds for
every heap and every architecture layer.
-/

namespace ItWorksOS

/-- The list is sorted, and its areas are disjoint, non-empty, page-aligned and inside the user
half. -/
structure VmasOk (vmas : List Vma) : Prop where
  sorted : vmas.Pairwise fun left right => left.stop ≤ right.start
  bounds : ∀ vma ∈ vmas, vma.start < vma.stop ∧ vma.start % 4096 = 0 ∧ vma.stop % 4096 = 0 ∧
    vma.stop ≤ vmUserEnd

namespace VmasOk

variable {vma : Vma} {vmas vmas' before after : List Vma} {virt newEnd : ℕ}

theorem nil : VmasOk [] := ⟨List.Pairwise.nil, by simp⟩

theorem of_sublist (ok : VmasOk vmas) (sub : vmas'.Sublist vmas) : VmasOk vmas' :=
  ⟨ok.sorted.sublist sub, fun vma member => ok.bounds vma (sub.subset member)⟩

theorem tail (ok : VmasOk (vma :: vmas)) : VmasOk vmas := ok.of_sublist (List.sublist_cons_self _ _)

/-- Only the bounds of the areas matter. -/
theorem of_bounds (ok : VmasOk vmas)
    (same : vmas'.map (fun vma => (vma.start, vma.stop)) =
      vmas.map fun vma => (vma.start, vma.stop)) : VmasOk vmas' := by
  constructor
  · have sorted := ok.sorted
    have mapped (areas : List Vma) : areas.Pairwise (fun left right => left.stop ≤ right.start) ↔
        (areas.map fun vma => (vma.start, vma.stop)).Pairwise
          fun left right => left.2 ≤ right.1 := by
      rw [List.pairwise_map]
    rw [mapped] at sorted ⊢
    rwa [same]
  · intro vma member
    have pair_mem : (vma.start, vma.stop) ∈ vmas.map fun vma => (vma.start, vma.stop) := by
      rw [← same]
      exact List.mem_map_of_mem member
    obtain ⟨other, other_mem, pair_eq⟩ := List.mem_map.mp pair_mem
    obtain ⟨start_eq, stop_eq⟩ := Prod.mk.inj pair_eq
    have bounds := ok.bounds other other_mem
    rwa [start_eq, stop_eq] at bounds

/-- Inserting a range between the areas before and after it. -/
theorem insert (ok : VmasOk (before ++ after)) (before_le : ∀ left ∈ before, left.stop ≤ vma.start)
    (after_ge : ∀ right ∈ after, vma.stop ≤ right.start)
    (bounds : vma.start < vma.stop ∧ vma.start % 4096 = 0 ∧ vma.stop % 4096 = 0 ∧
      vma.stop ≤ vmUserEnd) : VmasOk (before ++ vma :: after) := by
  obtain ⟨sorted, old_bounds⟩ := ok
  rw [List.pairwise_append] at sorted
  obtain ⟨before_sorted, after_sorted, across⟩ := sorted
  constructor
  · rw [List.pairwise_append, List.pairwise_cons]
    refine ⟨before_sorted, ⟨after_ge, after_sorted⟩, ?_⟩
    intro left left_mem right right_mem
    rcases List.mem_cons.mp right_mem with rfl | right_mem
    · exact before_le left left_mem
    · exact across left left_mem right right_mem
  · intro other member
    simp only [List.mem_append, List.mem_cons] at member
    rcases member with member | rfl | member
    · exact old_bounds other (by simp [member])
    · exact bounds
    · exact old_bounds other (by simp [member])

/-- Two areas that contain one address are the same. -/
theorem unique (ok : VmasOk vmas) {left right : Vma} (left_mem : left ∈ vmas)
    (right_mem : right ∈ vmas) (left_in : left.start ≤ virt ∧ virt < left.stop)
    (right_in : right.start ≤ virt ∧ virt < right.stop) : left = right := by
  by_contra distinct
  have apart : left.stop ≤ right.start ∨ right.stop ≤ left.start := by
    have symm : Std.Symm fun left right : Vma => left.stop ≤ right.start ∨
        right.stop ≤ left.start :=
      ⟨fun _ _ apart => apart.symm⟩
    have pairwise : vmas.Pairwise fun left right =>
        left.stop ≤ right.start ∨ right.stop ≤ left.start := ok.sorted.imp Or.inl
    exact pairwise.forall left_mem right_mem distinct
  omega

/-- The areas around one of them lie apart from it. -/
theorem apart (ok : VmasOk (before ++ vma :: after)) {other : Vma}
    (member : other ∈ before ++ after) : other.stop ≤ vma.start ∨ vma.stop ≤ other.start := by
  have sorted := ok.sorted
  rw [List.pairwise_append, List.pairwise_cons] at sorted
  obtain ⟨_, ⟨later, _⟩, earlier⟩ := sorted
  rcases List.mem_append.mp member with member | member
  · exact Or.inl (earlier other member vma (List.mem_cons_self ..))
  · exact Or.inr (later other member)

/-- Removing or replacing an area acts where it stands in the list. -/
theorem split (ok : VmasOk vmas) (member : vma ∈ vmas) :
    ∃ before after, vmas = before ++ vma :: after ∧ vmas.erase vma = before ++ after ∧
      ∀ other, vmas.replace vma other = before ++ other :: after := by
  obtain ⟨before, after, rfl⟩ := List.append_of_mem member
  have not_before : vma ∉ before := by
    intro before_mem
    have bounds := ok.bounds vma member
    have := ok.apart (List.mem_append_left after before_mem)
    omega
  refine ⟨before, after, rfl, ?_, fun other => ?_⟩
  · rw [List.erase_append_right _ not_before, List.erase_cons_head]
  · rw [List.replace_append_right not_before, List.replace_cons_self]

end VmasOk

/-! ## Searches -/

section Search

variable {virt size newEnd : ℕ} {found : Vma → Bool} {vma : Vma} {vmas before after : List Vma}

theorem mem_of_vmSearch (search : vmSearch virt found vmas = some vma) :
    vma ∈ vmas ∧ vma.start ≤ virt ∧ found vma = true := by
  induction vmas with
  | nil => simp [vmSearch] at search
  | cons first vmas induction =>
      rw [vmSearch] at search
      split at search
      · simp at search
      split at search
      · rename_i accepted
        obtain rfl := Option.some.inj search
        simp only [Bool.and_eq_true, decide_eq_true_eq] at accepted
        exact ⟨by simp, accepted⟩
      · obtain ⟨member, rest⟩ := induction search
        exact ⟨by simp [member], rest⟩

/-- On a sorted list, the early exit of the search loses nothing. -/
theorem vmSearch_eq_some_iff (ok : VmasOk vmas)
    (covers : ∀ vma ∈ vmas, found vma = true → virt < vma.stop) :
    vmSearch virt found vmas = some vma ↔ vma ∈ vmas ∧ vma.start ≤ virt ∧ found vma = true := by
  refine ⟨mem_of_vmSearch, ?_⟩
  induction vmas with
  | nil => simp
  | cons first vmas induction =>
      rintro ⟨member, start_le, accepted⟩
      have first_bounds := ok.bounds first (by simp)
      have sorted := (List.pairwise_cons.mp ok.sorted).1
      rw [vmSearch]
      rcases List.mem_cons.mp member with rfl | member
      · rw [if_neg (by omega), if_pos (by simp [start_le, accepted])]
      · have later := sorted vma member
        rw [if_neg (by omega), if_neg]
        · exact induction ok.tail (fun other other_mem => covers other (by simp [other_mem]))
            ⟨member, start_le, accepted⟩
        · simp only [Bool.and_eq_true, decide_eq_true_eq, not_and]
          intro _ first_accepted
          have := covers first (by simp) first_accepted
          omega

theorem vmFindVma_eq_some_iff {vm : VmSpace} (ok : VmasOk vm.vmas) :
    vmFindVma vm virt = some vma ↔ vma ∈ vm.vmas ∧ vma.start ≤ virt ∧ virt < vma.stop := by
  unfold vmFindVma
  split
  · rename_i outside
    simp only [reduceCtorEq, false_iff]
    rintro ⟨member, _, inside⟩
    have := ok.bounds vma member
    omega
  · rw [vmSearch_eq_some_iff ok (by simp)]
    simp

theorem vmFindVmaRange_eq_some_iff {vm : VmSpace} (ok : VmasOk vm.vmas)
    (fits : virt + size < 2 ^ 32) :
    vmFindVmaRange vm virt size = some vma ↔
      vma ∈ vm.vmas ∧ 0 < size ∧ vma.start ≤ virt ∧ virt + size ≤ vma.stop := by
  have end_eq : (virt + size) % 2 ^ 32 = virt + size := Nat.mod_eq_of_lt fits
  unfold vmFindVmaRange
  rw [end_eq]
  by_cases valid : vmUserRangeValid virt size = true
  · obtain ⟨size_pos, _⟩ := vmUserRangeValid_iff.mp valid
    simp only [valid, Bool.not_true, Bool.false_eq_true, if_false]
    rw [vmSearch_eq_some_iff ok (by simp only [decide_eq_true_eq]; omega)]
    simp [size_pos]
  · rw [if_pos (by simpa using valid)]
    simp only [reduceCtorEq, false_iff]
    rintro ⟨member, size_pos, start_le, stop_ge⟩
    have bounds := ok.bounds vma member
    exact valid (vmUserRangeValid_iff.mpr ⟨size_pos, by omega, Or.inl (by omega)⟩)

/-- The insertion point splits the list around the new range. -/
theorem vmAddPosition_eq_some (ok : VmasOk vmas)
    (position : vmAddPosition virt newEnd vmas = some (before, after)) :
    vmas = before ++ after ∧ (∀ left ∈ before, left.stop ≤ virt) ∧
      ∀ right ∈ after, newEnd ≤ right.start := by
  induction vmas generalizing before with
  | nil =>
      simp only [vmAddPosition, Option.some.injEq, Prod.mk.injEq] at position
      obtain ⟨rfl, rfl⟩ := position
      simp
  | cons first vmas induction =>
      rw [vmAddPosition] at position
      split at position
      · rename_i earlier
        obtain ⟨⟨before', after'⟩, rest, pair_eq⟩ := Option.map_eq_some_iff.mp position
        obtain ⟨rfl, rfl⟩ := Prod.mk.inj pair_eq
        obtain ⟨rfl, before_le, after_ge⟩ := induction ok.tail rest
        refine ⟨rfl, ?_, after_ge⟩
        intro left member
        rcases List.mem_cons.mp member with rfl | member
        · exact earlier
        · exact before_le left member
      split at position
      · rename_i later
        simp only [Option.some.injEq, Prod.mk.injEq] at position
        obtain ⟨rfl, rfl⟩ := position
        refine ⟨rfl, by simp, ?_⟩
        intro right member
        rcases List.mem_cons.mp member with rfl | member
        · exact later
        · have := (List.pairwise_cons.mp ok.sorted).1 right member
          have := ok.bounds first (by simp)
          omega
      · simp at position

/-- There is no insertion point exactly when some area overlaps the new range. -/
theorem vmAddPosition_eq_none_iff (ok : VmasOk vmas) :
    vmAddPosition virt newEnd vmas = none ↔
      ∃ vma ∈ vmas, virt < vma.stop ∧ vma.start < newEnd := by
  induction vmas with
  | nil => simp [vmAddPosition]
  | cons first vmas induction =>
      have bounds := ok.bounds first (by simp)
      have sorted := (List.pairwise_cons.mp ok.sorted).1
      rw [vmAddPosition]
      split
      · rename_i earlier
        rw [Option.map_eq_none_iff, induction ok.tail]
        simp only [List.mem_cons, exists_eq_or_imp]
        constructor
        · exact Or.inr
        · rintro (⟨overlap, _⟩ | later)
          · omega
          · exact later
      split
      · rename_i later
        simp only [reduceCtorEq, false_iff]
        rintro ⟨vma, member, overlap, below⟩
        rcases List.mem_cons.mp member with rfl | member
        · omega
        · have := sorted vma member
          omega
      · rename_i not_before not_after
        simp only [true_iff]
        exact ⟨first, by simp, by omega, by omega⟩

end Search

/-! ## Calls -/

/-- The argument checks of `vm_map`. -/
structure VmMapArgs (virt phys size : ℕ) : Prop where
  virt_mod : virt % 4096 = 0
  phys_mod : phys % 4096 = 0
  size_mod : size % 4096 = 0
  user : vmUserRangeValid virt size = true
  physical : vmPhysRangeValid phys size = true

theorem alignTest_iff {value : ℕ} : alignTest value archVmPageSize = true ↔ value % 4096 = 0 :=
  decide_eq_true_iff

section Calls

variable {State : Type*} (env : VmEnv State) (vm : VmSpace) (virt phys size flags : ℕ)
  (state : State)

private theorem vmAddVma_of_args {virt phys size : ℕ} (args : VmMapArgs virt phys size) :
    vmAddVma env vm virt size flags state =
      match vmAddPosition virt ((virt + size) % 2 ^ 32) vm.vmas with
      | none => (.error .existing, vm, state)
      | some (before, after) =>
          if kerrPtrIsErr (env.kmalloc state vmaSize).1 then
            (.error .nomem, vm, (env.kmalloc state vmaSize).2)
          else
            (.ok (), { vm with vmas := before ++ ⟨virt, (virt + size) % 2 ^ 32, flags,
              (env.kmalloc state vmaSize).1⟩ :: after }, (env.kmalloc state vmaSize).2) := by
  have size_ne : size ≠ 0 := Nat.ne_of_gt (vmUserRangeValid_iff.mp args.user).1
  have aligned : ¬ (!alignTest virt archVmPageSize || !alignTest size archVmPageSize) = true := by
    simp [alignTest_iff.mpr args.virt_mod, alignTest_iff.mpr args.size_mod]
  rewrite [vmAddVma, if_neg size_ne, if_neg aligned, if_neg (by simp [args.user])]
  rfl

/-- Everything one call of `vm_map` can do. -/
theorem vmMap_cases :
    (¬ VmMapArgs virt phys size ∧
        vmMap env vm virt phys size flags state = (.error .inval, vm, state)) ∨
      VmMapArgs virt phys size ∧
        ((vmAddPosition virt ((virt + size) % 2 ^ 32) vm.vmas = none ∧
            vmMap env vm virt phys size flags state = (.error .existing, vm, state)) ∨
          ∃ before after ptr middle,
            vmAddPosition virt ((virt + size) % 2 ^ 32) vm.vmas = some (before, after) ∧
            env.kmalloc state vmaSize = (ptr, middle) ∧
            ((kerrPtrIsErr ptr = true ∧
                vmMap env vm virt phys size flags state = (.error .nomem, vm, middle)) ∨
              kerrPtrIsErr ptr = false ∧ ∃ state',
                ((env.archVmMap middle vm.arch virt phys size flags = (.ok (), state') ∧
                    vmMap env vm virt phys size flags state =
                      (.ok (), { vm with vmas := before ++
                        ⟨virt, (virt + size) % 2 ^ 32, flags, ptr⟩ :: after }, state')) ∨
                  ∃ error, env.archVmMap middle vm.arch virt phys size flags =
                      (.error error, state') ∧
                    vmMap env vm virt phys size flags state =
                      (.error error, (vmRemoveVma env { vm with vmas := before ++
                        ⟨virt, (virt + size) % 2 ^ 32, flags, ptr⟩ :: after } virt
                          state').2)))) := by
  by_cases args : VmMapArgs virt phys size
  · right
    refine ⟨args, ?_⟩
    have size_ne : size ≠ 0 := Nat.ne_of_gt (vmUserRangeValid_iff.mp args.user).1
    have aligned : ¬ (!alignTest virt archVmPageSize || !alignTest phys archVmPageSize ||
        !alignTest size archVmPageSize) = true := by
      simp [alignTest_iff.mpr args.virt_mod, alignTest_iff.mpr args.phys_mod,
        alignTest_iff.mpr args.size_mod]
    rw [vmMap, if_neg size_ne, if_neg aligned, if_neg (by simp [args.user]),
      if_neg (by simp [args.physical]), vmAddVma_of_args env vm flags state args]
    cases position : vmAddPosition virt ((virt + size) % 2 ^ 32) vm.vmas with
    | none => exact Or.inl ⟨rfl, rfl⟩
    | some split =>
        obtain ⟨before, after⟩ := split
        obtain ⟨⟨ptr, middle⟩, allocated⟩ : ∃ result, env.kmalloc state vmaSize = result :=
          ⟨_, rfl⟩
        right
        refine ⟨before, after, ptr, middle, rfl, allocated, ?_⟩
        simp only [allocated]
        cases failed : kerrPtrIsErr ptr with
        | true => exact Or.inl ⟨rfl, rfl⟩
        | false =>
            right
            obtain ⟨⟨status, state'⟩, mapped⟩ : ∃ result,
                env.archVmMap middle vm.arch virt phys size flags = result := ⟨_, rfl⟩
            refine ⟨rfl, state', ?_⟩
            simp only [mapped, Bool.false_eq_true, if_false]
            cases status with
            | ok => exact Or.inl ⟨rfl, rfl⟩
            | error error => exact Or.inr ⟨error, rfl, rfl⟩
  · left
    refine ⟨args, ?_⟩
    unfold vmMap
    split
    · rfl
    split
    · rfl
    split
    · rfl
    split
    · rfl
    · rename_i _ aligned user physical
      simp only [Bool.or_eq_true, Bool.not_eq_true', not_or, Bool.not_eq_false, alignTest_iff]
        at aligned user physical
      exact absurd ⟨aligned.1.1, aligned.1.2, aligned.2, user, physical⟩ args

variable {env vm virt phys size flags state} in
/-- What a successful `vm_map` has done. -/
theorem vmMap_eq_ok {vm' : VmSpace} {state' : State}
    (call : vmMap env vm virt phys size flags state = (.ok (), vm', state')) :
    VmMapArgs virt phys size ∧ ∃ before after ptr middle,
      vmAddPosition virt ((virt + size) % 2 ^ 32) vm.vmas = some (before, after) ∧
      env.kmalloc state vmaSize = (ptr, middle) ∧ kerrPtrIsErr ptr = false ∧
      env.archVmMap middle vm.arch virt phys size flags = (.ok (), state') ∧
      vm' = { vm with vmas := before ++ ⟨virt, (virt + size) % 2 ^ 32, flags, ptr⟩ :: after } := by
  rcases vmMap_cases env vm virt phys size flags state with
    ⟨_, failed⟩ | ⟨args, ⟨_, failed⟩ | ⟨before, after, ptr, middle, position, allocated, outcome⟩⟩
  · rw [failed] at call
    cases call
  · rw [failed] at call
    cases call
  rcases outcome with ⟨_, failed⟩ | ⟨pointer, last, ⟨mapped, result⟩ | ⟨_, _, failed⟩⟩
  · rw [failed] at call
    cases call
  · rw [result] at call
    cases call
    exact ⟨args, before, after, ptr, middle, position, allocated, pointer, mapped, rfl⟩
  · rw [failed] at call
    cases call

variable {env vm virt phys size flags state} in
/-- `vm_map` succeeds only for valid arguments. -/
theorem vmMap_args {vm' : VmSpace} {state' : State}
    (call : vmMap env vm virt phys size flags state = (.ok (), vm', state')) :
    VmMapArgs virt phys size := (vmMap_eq_ok call).1

variable {env vm virt phys size flags state} in
/-- What `vm_map` returns once its checks, the insertion point and `kmalloc` have succeeded. -/
theorem vmMap_eq {before after : List Vma} {ptr : ℕ} {middle state' : State}
    (args : VmMapArgs virt phys size)
    (position : vmAddPosition virt ((virt + size) % 2 ^ 32) vm.vmas = some (before, after))
    (allocated : env.kmalloc state vmaSize = (ptr, middle)) (pointer : kerrPtrIsErr ptr = false) :
    (env.archVmMap middle vm.arch virt phys size flags = (.ok (), state') →
        vmMap env vm virt phys size flags state = (.ok (), { vm with
          vmas := before ++ ⟨virt, (virt + size) % 2 ^ 32, flags, ptr⟩ :: after }, state')) ∧
      ∀ error, env.archVmMap middle vm.arch virt phys size flags = (.error error, state') →
        vmMap env vm virt phys size flags state =
          (.error error, (vmRemoveVma env { vm with
            vmas := before ++ ⟨virt, (virt + size) % 2 ^ 32, flags, ptr⟩ :: after } virt
              state').2) := by
  rcases vmMap_cases env vm virt phys size flags state with
    ⟨invalid, _⟩ | ⟨_, ⟨overlap, _⟩ | ⟨before', after', ptr', middle', position', allocated',
      outcome⟩⟩
  · exact absurd args invalid
  · rw [position] at overlap
    cases overlap
  · rw [position] at position'
    rw [allocated] at allocated'
    cases position'
    cases allocated'
    rcases outcome with ⟨failed, _⟩ | ⟨_, last, ⟨passed, result⟩ | ⟨error, failed, result⟩⟩
    · rw [pointer] at failed
      cases failed
    · constructor
      · intro mapped
        rw [passed] at mapped
        cases mapped
        exact result
      · intro error failed
        rw [passed] at failed
        cases failed
    · constructor
      · intro mapped
        rw [failed] at mapped
        cases mapped
      · intro error' failed'
        rw [failed] at failed'
        cases failed'
        exact result

variable {vm virt size} in
/-- The checks of `vm_unmap` and `vm_protect` yield an area with exactly the given bounds. -/
theorem vmWholeVma_eq_ok {vma : Vma} (whole : vmWholeVma vm virt size = .ok vma) :
    virt % 4096 = 0 ∧ size % 4096 = 0 ∧ vmUserRangeValid virt size = true ∧ vma ∈ vm.vmas ∧
      vma.start = virt ∧ vma.stop = (virt + size) % 2 ^ 32 := by
  unfold vmWholeVma at whole
  split at whole
  · cases whole
  split at whole
  · cases whole
  split at whole
  · cases whole
  split at whole
  · cases whole
  split at whole
  · cases whole
  · rename_i aligned valid _ found search same
    obtain rfl := Except.ok.inj whole
    simp only [Bool.or_eq_true, Bool.not_eq_true', not_or, Bool.not_eq_false, alignTest_iff]
      at aligned valid
    rw [not_or, not_not, not_not] at same
    have member : found ∈ vm.vmas := by
      unfold vmFindVmaRange at search
      split at search
      · cases search
      · exact (mem_of_vmSearch search).1
    exact ⟨aligned.1, aligned.2, valid, member, same.1, same.2⟩

/-- Everything one call of `vm_unmap` can do. -/
theorem vmUnmap_cases :
    (∃ error, vmWholeVma vm virt size = .error error ∧
        vmUnmap env vm virt size state = (.error error, vm, state)) ∨
      ∃ vma state', vmWholeVma vm virt size = .ok vma ∧
        ((env.archVmUnmap state vm.arch virt size = (.ok (), state') ∧
            vmUnmap env vm virt size state =
              (.ok (), { vm with vmas := vm.vmas.erase vma }, (env.kfree state' vma.ptr).2)) ∨
          ∃ error, env.archVmUnmap state vm.arch virt size = (.error error, state') ∧
            vmUnmap env vm virt size state = (.error error, vm, state')) := by
  cases whole : vmWholeVma vm virt size with
  | error error => exact Or.inl ⟨error, rfl, by rw [vmUnmap, whole]⟩
  | ok vma =>
      obtain ⟨⟨status, state'⟩, unmapped⟩ : ∃ result,
          env.archVmUnmap state vm.arch virt size = result := ⟨_, rfl⟩
      refine Or.inr ⟨vma, state', rfl, ?_⟩
      rw [vmUnmap, whole]
      simp only [unmapped]
      cases status with
      | ok => exact Or.inl ⟨rfl, rfl⟩
      | error error => exact Or.inr ⟨error, rfl, rfl⟩

/-- Everything one call of `vm_protect` can do. -/
theorem vmProtect_cases :
    (∃ error, vmWholeVma vm virt size = .error error ∧
        vmProtect env vm virt size flags state = (.error error, vm, state)) ∨
      ∃ vma state', vmWholeVma vm virt size = .ok vma ∧
        ((env.archVmProtect state vm.arch virt size flags = (.ok (), state') ∧
            vmProtect env vm virt size flags state =
              (.ok (), { vm with vmas := vm.vmas.replace vma { vma with flags := flags } },
                state')) ∨
          ∃ error, env.archVmProtect state vm.arch virt size flags = (.error error, state') ∧
            vmProtect env vm virt size flags state = (.error error, vm, state')) := by
  cases whole : vmWholeVma vm virt size with
  | error error => exact Or.inl ⟨error, rfl, by rw [vmProtect, whole]⟩
  | ok vma =>
      obtain ⟨⟨status, state'⟩, protected'⟩ : ∃ result,
          env.archVmProtect state vm.arch virt size flags = result := ⟨_, rfl⟩
      refine Or.inr ⟨vma, state', rfl, ?_⟩
      rw [vmProtect, whole]
      simp only [protected']
      cases status with
      | ok => exact Or.inl ⟨rfl, rfl⟩
      | error error => exact Or.inr ⟨error, rfl, rfl⟩

variable {env vm virt size state} in
/-- What a successful `vm_unmap` has done. -/
theorem vmUnmap_eq_ok {vm' : VmSpace} {state' : State}
    (call : vmUnmap env vm virt size state = (.ok (), vm', state')) :
    ∃ vma middle, vmWholeVma vm virt size = .ok vma ∧
      env.archVmUnmap state vm.arch virt size = (.ok (), middle) ∧
      vm' = { vm with vmas := vm.vmas.erase vma } ∧ state' = (env.kfree middle vma.ptr).2 := by
  rcases vmUnmap_cases env vm virt size state with
    ⟨_, _, failed⟩ | ⟨vma, middle, whole, ⟨unmapped, result⟩ | ⟨_, _, failed⟩⟩
  · rw [failed] at call
    cases call
  · rw [result] at call
    cases call
    exact ⟨vma, middle, whole, unmapped, rfl, rfl⟩
  · rw [failed] at call
    cases call

variable {env vm virt size flags state} in
/-- What a successful `vm_protect` has done. -/
theorem vmProtect_eq_ok {vm' : VmSpace} {state' : State}
    (call : vmProtect env vm virt size flags state = (.ok (), vm', state')) :
    ∃ vma, vmWholeVma vm virt size = .ok vma ∧
      env.archVmProtect state vm.arch virt size flags = (.ok (), state') ∧
      vm' = { vm with vmas := vm.vmas.replace vma { vma with flags := flags } } := by
  rcases vmProtect_cases env vm virt size flags state with
    ⟨_, _, failed⟩ | ⟨vma, middle, whole, ⟨changed, result⟩ | ⟨_, _, failed⟩⟩
  · rw [failed] at call
    cases call
  · rw [result] at call
    cases call
    exact ⟨vma, whole, changed, rfl⟩
  · rw [failed] at call
    cases call

end Calls

/-! ## Runs -/

section Runs

variable {State : Type*} {env : VmEnv State} {vm vm' : VmSpace} {state state' : State}
  {virt phys size : ℕ} {before after : List Vma}

/-- A range that passes the user check without wrapping becomes a well-formed area. -/
theorem vmasOk_insert (ok : VmasOk vm.vmas) (args : VmMapArgs virt phys size)
    (fits : virt + size < 2 ^ 32) (flags ptr : ℕ)
    (position : vmAddPosition virt ((virt + size) % 2 ^ 32) vm.vmas = some (before, after)) :
    vm.vmas = before ++ after ∧
      VmasOk (before ++ ⟨virt, (virt + size) % 2 ^ 32, flags, ptr⟩ :: after) := by
  obtain ⟨size_pos, virt_lt, end_le⟩ := vmUserRangeValid_iff.mp args.user
  have virt_mod := args.virt_mod
  have size_mod := args.size_mod
  rw [Nat.mod_eq_of_lt fits] at position ⊢
  obtain ⟨split, before_le, after_ge⟩ := vmAddPosition_eq_some ok position
  refine ⟨split, (split ▸ ok).insert before_le after_ge ?_⟩
  exact ⟨by simp only; omega, virt_mod, by simp only; omega, by simp only; omega⟩

/-- The rollback of `vm_map` finds the area that was just inserted and removes it. -/
theorem vmRemoveVma_inserted (env : VmEnv State) (vm : VmSpace) {vma : Vma}
    (ok : VmasOk (before ++ vma :: after)) (state : State) :
    vmRemoveVma env { vm with vmas := before ++ vma :: after } vma.start state =
      (.ok (), { vm with vmas := before ++ after }, (env.kfree state vma.ptr).2) := by
  have bounds := ok.bounds vma (by simp)
  have found : vmFindVma { vm with vmas := before ++ vma :: after } vma.start = some vma :=
    (vmFindVma_eq_some_iff ok).mpr ⟨by simp, Nat.le_refl _, bounds.1⟩
  have not_before : vma ∉ before := by
    intro member
    have := ok.apart (List.mem_append_left after member)
    omega
  rw [vmRemoveVma, found]
  simp only [List.erase_append_right _ not_before, List.erase_cons_head]

/-- A failing `vm_map` leaves the list as it was, and a successful one inserts one area. -/
theorem vmMap_vmas (ok : VmasOk vm.vmas) (fits : virt + size < 2 ^ 32) (phys flags : ℕ)
    (state : State) :
    (∃ error state', vmMap env vm virt phys size flags state = (.error error, vm, state')) ∨
      ∃ before after ptr state', vm.vmas = before ++ after ∧
        VmasOk (before ++ ⟨virt, virt + size, flags, ptr⟩ :: after) ∧
        vmMap env vm virt phys size flags state =
          (.ok (), { vm with vmas := before ++ ⟨virt, virt + size, flags, ptr⟩ :: after },
            state') := by
  have end_eq : (virt + size) % 2 ^ 32 = virt + size := Nat.mod_eq_of_lt fits
  rcases vmMap_cases env vm virt phys size flags state with
    ⟨_, rejected⟩ | ⟨args, ⟨_, rejected⟩ | ⟨before, after, ptr, middle, position, _, outcome⟩⟩
  · exact Or.inl ⟨_, _, rejected⟩
  · exact Or.inl ⟨_, _, rejected⟩
  · obtain ⟨split, inserted⟩ := vmasOk_insert ok args fits flags ptr position
    rcases outcome with ⟨_, rejected⟩ | ⟨_, state', ⟨_, mapped⟩ | ⟨error, _, rolled_back⟩⟩
    · exact Or.inl ⟨_, _, rejected⟩
    · rw [end_eq] at mapped inserted
      exact Or.inr ⟨before, after, ptr, state', split, inserted, mapped⟩
    · left
      refine ⟨error, (env.kfree state' ptr).2, ?_⟩
      have removed := vmRemoveVma_inserted env vm inserted state'
      rw [rolled_back, removed, ← split]

theorem replace_bounds {vmas : List Vma} (vma : Vma) (flags : ℕ) :
    (vmas.replace vma { vma with flags := flags }).map (fun vma => (vma.start, vma.stop)) =
      vmas.map fun vma => (vma.start, vma.stop) := by
  induction vmas with
  | nil => rfl
  | cons first vmas induction =>
      rw [List.replace_cons]
      split
      · rename_i same
        obtain rfl : vma = first := by simpa using same
        rfl
      · rw [List.map_cons, List.map_cons, induction]

/-- Every call that does not wrap keeps the list well formed. -/
theorem vmCall_vmasOk (ok : VmasOk vm.vmas) {op : VmOp} (fits : op.rangeEnd < 2 ^ 32)
    (state : State) : VmasOk (vmCall env op vm state).2.1.vmas := by
  cases op with
  | map virt phys size flags =>
      rcases vmMap_vmas ok fits phys flags state with
        ⟨error, state', failed⟩ | ⟨before, after, ptr, state', _, inserted, mapped⟩
      · rw [vmCall, failed]
        exact ok
      · rw [vmCall, mapped]
        exact inserted
  | unmap virt size =>
      rcases vmUnmap_cases env vm virt size state with
        ⟨error, _, failed⟩ | ⟨vma, state', _, ⟨_, unmapped⟩ | ⟨error, _, failed⟩⟩
      · rw [vmCall, failed]
        exact ok
      · rw [vmCall, unmapped]
        exact ok.of_sublist List.erase_sublist
      · rw [vmCall, failed]
        exact ok
  | protect virt size flags =>
      rcases vmProtect_cases env vm virt size flags state with
        ⟨error, _, failed⟩ | ⟨vma, state', _, ⟨_, changed⟩ | ⟨error, _, failed⟩⟩
      · rw [vmCall, failed]
        exact ok
      · rw [vmCall, changed]
        exact ok.of_bounds (replace_bounds vma flags)
      · rw [vmCall, failed]
        exact ok

theorem vmCalls_vmasOk (ok : VmasOk vm.vmas) {ops : List VmOp}
    (fits : ∀ op ∈ ops, op.rangeEnd < 2 ^ 32) (state : State) :
    VmasOk (vmCalls env ops vm state).1.vmas := by
  induction ops generalizing vm state with
  | nil => exact ok
  | cons op ops induction =>
      rw [vmCalls]
      exact induction (vmCall_vmasOk ok (fits op (by simp)) state)
        (fun other member => fits other (by simp [member])) _

end Runs

/-- Along every run on a fresh address space, the areas stay strictly sorted, disjoint, non-empty,
page-aligned and inside the user half, a failed `vm_map` changes nothing in the list, and both
searches are exact, for every heap and every architecture layer. -/
theorem vmaList_of_run {State : Type*} (env : VmEnv State) {start state : State} {vm : VmSpace}
    (init : vmSpaceInit env start = (.ok vm, state)) (ops : List VmOp)
    (fits : ∀ op ∈ ops, op.rangeEnd < 2 ^ 32) :
    let result := vmCalls env ops vm state
    (result.1.vmas.Pairwise fun left right => left.start < right.start ∧
        left.stop ≤ right.start) ∧
      (∀ vma ∈ result.1.vmas, vma.start < vma.stop ∧ vma.start % 4096 = 0 ∧
        vma.stop % 4096 = 0 ∧ vma.stop ≤ 0xC0000000) ∧
      (∀ virt phys size flags, virt + size < 2 ^ 32 → ∀ error,
        (vmMap env result.1 virt phys size flags result.2).1 = .error error →
          (vmMap env result.1 virt phys size flags result.2).2.1.vmas = result.1.vmas) ∧
      (∀ virt vma, vmFindVma result.1 virt = some vma ↔
        vma ∈ result.1.vmas ∧ vma.start ≤ virt ∧ virt < vma.stop) ∧
      ∀ virt size, virt + size < 2 ^ 32 → ∀ vma, vmFindVmaRange result.1 virt size = some vma ↔
        vma ∈ result.1.vmas ∧ 0 < size ∧ vma.start ≤ virt ∧ virt + size ≤ vma.stop := by
  have empty : vm.vmas = [] := by
    unfold vmSpaceInit at init
    split at init
    · cases init
    split at init
    · cases init
    · obtain ⟨vm_eq, _⟩ := Prod.mk.inj init
      obtain rfl := Except.ok.inj vm_eq
      rfl
  have ok : VmasOk (vmCalls env ops vm state).1.vmas :=
    vmCalls_vmasOk (empty ▸ VmasOk.nil) fits state
  refine ⟨?_, ok.bounds, ?_, fun virt vma => vmFindVma_eq_some_iff ok,
    fun virt size fits vma => vmFindVmaRange_eq_some_iff ok fits⟩
  · refine List.Pairwise.imp_of_mem ?_ ok.sorted
    intro left right left_mem _ apart
    have := ok.bounds left left_mem
    exact ⟨by omega, apart⟩
  · intro virt phys size flags fits error failed
    rcases vmMap_vmas ok fits phys flags (vmCalls env ops vm state).2 with
      ⟨other, state', rejected⟩ | ⟨_, _, _, _, _, _, mapped⟩
    · rw [rejected]
    · rw [mapped] at failed
      cases failed

/-- A heap that only grows over an architecture layer that cannot map above `2 ^ 32`. -/
def bumpEnv : VmEnv ℕ where
  kmalloc := fun next size => (next, next + size)
  kfree := fun next _ => (.ok (), next)
  archVmMap := fun next _ _ phys _ _ =>
    (if phys < 2 ^ 32 then .ok () else .error .nomem, next)
  archVmUnmap := fun next _ _ _ => (.ok (), next)
  archVmProtect := fun next _ _ _ _ => (.ok (), next)
  archVmSpaceInit := fun next => (.ok ⟨4096⟩, next)
  archVmSpaceDestroy := fun next arch => (.ok (), arch, next)
  vmKernAttach := fun next _ => (.ok (), next)

/-- A run with a rejected overlap, a rolled back mapping and an unmapped area. -/
def bumpOps : List VmOp :=
  [.map 0x5000 0x1000 0x2000 7, .map 0x1000 0x8000 0x1000 5, .map 0x6000 0 0x2000 7,
    .map 0x8000 0x100000000 0x1000 7, .protect 0x5000 0x2000 4, .unmap 0x1000 0x1000,
    .map 0x3000 0 0x1000 6]

theorem vmaList_of_run_bump :
    (vmCalls bumpEnv bumpOps ⟨[], ⟨4096⟩⟩ 8192).1.vmas.map Vma.start = [0x3000, 0x5000] ∧
      ∀ virt vma, vmFindVma (vmCalls bumpEnv bumpOps ⟨[], ⟨4096⟩⟩ 8192).1 virt = some vma ↔
        vma ∈ (vmCalls bumpEnv bumpOps ⟨[], ⟨4096⟩⟩ 8192).1.vmas ∧ vma.start ≤ virt ∧
          virt < vma.stop :=
  ⟨by decide +kernel, (vmaList_of_run bumpEnv rfl bumpOps (by decide)).2.2.2.1⟩

end ItWorksOS
