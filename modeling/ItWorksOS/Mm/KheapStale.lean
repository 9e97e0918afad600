import ItWorksOS.Mm.KheapRun

/-!
# Double frees

Once a block is released, coalescing may leave its header as stale bytes inside a larger free
block. As long as nothing is allocated, no merge, footer or link reaches the stale flags, so a
second `kfree` of the same pointer still finds them clear.
-/

namespace ItWorksOS

/-- A successful `kfree` of a live pointer, or one client store into a live payload. -/
inductive KheapReleaseStep : KheapRun → KheapRun → Prop
  | kfree {run : KheapRun} {allocation : KheapAllocation} {heap' : Kheap}
      (live : allocation ∈ run.live) (call : kfree run.heap allocation.ptr = (.ok (), heap')) :
      KheapReleaseStep run { run with heap := heap', live := run.live.erase allocation }
  | store {run : KheapRun} {allocation : KheapAllocation} {addr : ℕ} {byte : UInt8}
      (live : allocation ∈ run.live) (lower : allocation.ptr ≤ addr)
      (upper : addr < run.payloadEnd allocation.ptr) :
      KheapReleaseStep run
        { run with
          heap := { run.heap with mem := run.heap.mem.write8 addr byte }
          written := Function.update run.written addr (some byte) }

theorem KheapReleaseStep.step {run run' : KheapRun} (release : KheapReleaseStep run run') :
    KheapStep run run' := by
  cases release with
  | kfree live call => exact .kfree live call
  | store live lower upper => exact .store live lower upper

/-- A successful `kfree` makes the header of the released block stale and keeps older ones. -/
theorem stale_of_kfree {heap heap' : Kheap} {blocks : List KheapBlock} {free : List ℕ}
    {block : KheapBlock} (inv : KheapInv heap blocks free) (member : block ∈ blocks)
    (allocated : block.free = false) (call : kfree heap (block.addr + 16) = (.ok (), heap')) :
    ∃ blocks' free', KheapInv heap' blocks' free' ∧
      ∀ hdr, hdr = block.addr ∨ Stale heap.mem blocks hdr → Stale heap'.mem blocks' hdr := by
  rcases kfree_cases inv member allocated with rejected | released
  · rw [rejected] at call
    cases call
  · rw [released, Prod.mk.injEq] at call
    obtain ⟨-, rfl⟩ := call
    obtain ⟨before, after, rfl⟩ := List.append_of_mem member
    obtain ⟨blocks', free', inv', _, _, stale⟩ := kfreeBlock_cases inv allocated
    exact ⟨blocks', free', inv', stale⟩

namespace KheapRun

variable {run run' : KheapRun} {blocks : List KheapBlock} {free : List ℕ} {hdr : ℕ}

/-- Releases and client stores keep stale headers. -/
theorem Inv.release (inv : run.Inv blocks free) (release : KheapReleaseStep run run')
    (stale : Stale run.heap.mem blocks hdr) :
    ∃ blocks' free', run'.Inv blocks' free' ∧ Stale run'.heap.mem blocks' hdr := by
  obtain ⟨blocks', free', inv'⟩ := inv.step release.step
  refine ⟨blocks', free', inv', ?_⟩
  cases release with
  | @kfree allocation heap' live call =>
      obtain ⟨block, member, allocated, ptr_eq, _⟩ := inv.owned allocation live
      rw [ptr_eq] at call
      obtain ⟨_, _, heap_inv, kept⟩ := stale_of_kfree inv.heap member allocated call
      obtain rfl := heap_inv.blocks_unique inv'.heap
      exact kept hdr (Or.inr stale)
  | @store allocation addr byte live lower upper =>
      obtain ⟨block, member, allocated, ptr_eq, _⟩ := inv.owned allocation live
      rw [ptr_eq] at lower upper
      rw [payloadEnd_eq _ inv.heap member] at upper
      obtain rfl := (inv.heap.store member lower upper).blocks_unique inv'.heap
      exact stale.write8 inv.heap.tags member allocated lower upper

/-- Stale headers survive every sequence of releases and client stores. -/
theorem Inv.releases (inv : run.Inv blocks free)
    (releases : Relation.ReflTransGen KheapReleaseStep run run')
    (stale : Stale run.heap.mem blocks hdr) :
    ∃ blocks' free', run'.Inv blocks' free' ∧ Stale run'.heap.mem blocks' hdr := by
  induction releases with
  | refl => exact ⟨blocks, free, inv, stale⟩
  | tail _ step induction =>
      obtain ⟨blocks', free', inv', stale'⟩ := induction
      exact inv'.release step stale'

end KheapRun

/-- In every reachable state, once `kfree` has released a live pointer, it rejects that pointer
without effect after any further releases of live pointers and stores into live payloads. -/
theorem kfree_twice_of_run {mem : ByteMemory} {freeList : ℕ} {pmm pmm' : Pmm}
    {heap heap' : Kheap} {run run' : KheapRun} {allocation : KheapAllocation}
    (reserved : ReservedData pmm freeList 8)
    (init : kheapInit mem freeList pmm = (.ok heap, pmm'))
    (steps : Relation.ReflTransGen KheapStep (KheapRun.initial heap) run)
    (live : allocation ∈ run.live) (call : kfree run.heap allocation.ptr = (.ok (), heap'))
    (releases : Relation.ReflTransGen KheapReleaseStep
      { run with heap := heap', live := run.live.erase allocation } run') :
    kfree run'.heap allocation.ptr = (.error .inval, run'.heap) := by
  obtain ⟨blocks, free, inv⟩ :=
    (KheapRun.initial_inv (kheapInit_inv init reserved) (by simp)).steps steps
  obtain ⟨block, member, allocated, ptr_eq, _⟩ := inv.owned allocation live
  obtain ⟨blocks', free', released⟩ := inv.step (.kfree live call)
  rw [ptr_eq] at call ⊢
  obtain ⟨_, _, heap_inv, stale⟩ := stale_of_kfree inv.heap member allocated call
  obtain rfl := heap_inv.blocks_unique released.heap
  obtain ⟨_, _, _, stale'⟩ := released.releases releases (stale block.addr (Or.inl rfl))
  exact stale'.kfree_eq

/-- Two neighbouring payloads are released, the second one first. Its header is then stale inside
the block that the release of the first one forms. -/
theorem kfree_twice_of_run_absorbed :
    ∃ heap run heap' run', kheapInit (fun _ => 0) 0xC0008000 smallPmm =
        (.ok heap, pmmMark smallPmm 256 256) ∧
      Relation.ReflTransGen KheapStep (KheapRun.initial heap) run ∧
      run.live = [⟨0xC010002C, 8⟩, ⟨0xC0100010, 8⟩] ∧
      kfree run.heap 0xC010002C = (.ok (), heap') ∧
      Relation.ReflTransGen KheapReleaseStep
        { run with heap := heap', live := [⟨0xC0100010, 8⟩] } run' ∧ run'.live = [] ∧
      kfree run'.heap 0xC010002C = (.error .inval, run'.heap) := by
  obtain ⟨heap, init⟩ := smallPmm_kheapInit
  have returned : (kheapInit (fun _ => 0) 0xC0008000 smallPmm).1.toOption.bind
      (fun heap => (kmalloc heap 8).bind fun first => (kmalloc first.2 8).map fun second =>
        (first.1, second.1, (kfree second.2 0xC010002C).1.toOption,
          (kfree (kfree second.2 0xC010002C).2 0xC0100010).1.toOption)) =
        some (0xC0100010, 0xC010002C, some (), some ()) := by
    decide +kernel
  have accepted {result : Status × Kheap} (ok : result.1.toOption = some ()) :
      result = (.ok (), result.2) := by
    obtain ⟨status, heap⟩ := result
    cases status with
    | error error => cases ok
    | ok => rfl
  rw [init] at returned
  simp only [Except.toOption, Option.bind_some, Option.bind_eq_some_iff, Option.map_eq_some_iff,
    Prod.mk.injEq] at returned
  obtain ⟨⟨ptr, middle⟩, firstCall, ⟨ptr', last⟩, secondCall, rfl, rfl, freed, freed'⟩ := returned
  obtain ⟨before, beforeStep, rfl, beforeLive⟩ : ∃ run, KheapStep (.initial heap) run ∧
      run.heap = middle ∧ run.live = [⟨0xC0100010, 8⟩] :=
    ⟨_, .kmalloc (by unfold KmallocFits; decide) firstCall (by decide), rfl, rfl⟩
  obtain ⟨run, step, rfl, live⟩ : ∃ run, KheapStep before run ∧ run.heap = last ∧
      run.live = ⟨0xC010002C, 8⟩ :: before.live :=
    ⟨_, .kmalloc (by unfold KmallocFits; decide) secondCall (by decide), rfl, rfl⟩
  rw [beforeLive] at live
  have call := accepted freed
  have steps := (Relation.ReflTransGen.single beforeStep).tail step
  have other : (⟨0xC0100010, 8⟩ : KheapAllocation) ∈ run.live.erase ⟨0xC010002C, 8⟩ := by
    simp [live]
  have releases : Relation.ReflTransGen KheapReleaseStep
      { run with
        heap := (kfree run.heap 0xC010002C).2
        live := run.live.erase ⟨0xC010002C, 8⟩ } _ :=
    .single (.kfree other (accepted freed'))
  have rejected := kfree_twice_of_run smallPmm_reserved init steps (by simp [live]) call releases
  simp only [live, List.erase_cons_head] at releases
  exact ⟨heap, run, _, _, init, steps, live, call, releases, by simp, rejected⟩

end ItWorksOS
