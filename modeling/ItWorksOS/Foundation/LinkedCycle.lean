import Mathlib.Tactic
import Mathlib.Data.List.Chain

/-!
# Circular doubly linked lists

A node store interprets `next` and `prev` links in an arbitrary memory. Two nodes are apart when
writing a link of one cannot disturb a link of the other. A cycle is a closed chain of mutually
inverse links through pairwise apart nodes; every list operation rewrites one short arc of it.
-/

/-- Access to the two links of a node, with the frame laws of a memory that holds them. -/
structure NodeStore (Store Node : Type*) where
  /-- Successor link. -/
  next : Store → Node → Node
  /-- Predecessor link. -/
  prev : Store → Node → Node
  /-- Overwrite a successor link. -/
  setNext : Store → Node → Node → Store
  /-- Overwrite a predecessor link. -/
  setPrev : Store → Node → Node → Store
  /-- Footprints of two nodes do not meet. -/
  Apart : Node → Node → Prop
  /-- The node is representable as a link value. -/
  Valid : Node → Prop
  apart_symm : ∀ {left right}, Apart left right → Apart right left
  apart_irrefl : ∀ node, ¬ Apart node node
  next_setNext : ∀ {store node value}, Valid value → next (setNext store node value) node = value
  prev_setPrev : ∀ {store node value}, Valid value → prev (setPrev store node value) node = value
  next_setNext_apart : ∀ {store node value other}, Apart other node →
    next (setNext store node value) other = next store other
  prev_setPrev_apart : ∀ {store node value other}, Apart other node →
    prev (setPrev store node value) other = prev store other
  next_setPrev : ∀ {store node value other}, other = node ∨ Apart other node →
    next (setPrev store node value) other = next store other
  prev_setNext : ∀ {store node value other}, other = node ∨ Apart other node →
    prev (setNext store node value) other = prev store other

namespace NodeStore

variable {Store Node : Type*} (nodes : NodeStore Store Node)

/-- The two nodes point at each other. -/
def Link (store : Store) (left right : Node) : Prop :=
  nodes.next store left = right ∧ nodes.prev store right = left

/-- A circular doubly linked list with a sentinel and its elements in order. -/
structure Cycle (store : Store) (head : Node) (elements : List Node) : Prop where
  chain : (head :: (elements ++ [head])).IsChain (nodes.Link store)
  apart : (head :: elements).Pairwise nodes.Apart
  valid : ∀ node ∈ head :: elements, nodes.Valid node

variable {nodes} {store store' : Store} {head node left right : Node} {elements : List Node}

/-- The same links read in the other direction. -/
def mirror (nodes : NodeStore Store Node) : NodeStore Store Node where
  next := nodes.prev
  prev := nodes.next
  setNext := nodes.setPrev
  setPrev := nodes.setNext
  Apart := nodes.Apart
  Valid := nodes.Valid
  apart_symm := nodes.apart_symm
  apart_irrefl := nodes.apart_irrefl
  next_setNext := nodes.prev_setPrev
  prev_setPrev := nodes.next_setNext
  next_setNext_apart := nodes.prev_setPrev_apart
  prev_setPrev_apart := nodes.next_setNext_apart
  next_setPrev := nodes.prev_setNext
  prev_setNext := nodes.next_setPrev

/-- A chain is walked backwards in the other direction. -/
theorem isChain_mirror {path : List Node} :
    path.reverse.IsChain (nodes.mirror.Link store) ↔ path.IsChain (nodes.Link store) := by
  rw [List.isChain_reverse]
  constructor
  · exact fun chain => chain.imp fun _ _ link => ⟨link.2, link.1⟩
  · exact fun chain => chain.imp fun _ _ link => ⟨link.2, link.1⟩

/-- A chain reads the successor of all but its last node and the predecessor of all but its
first. -/
theorem chain_congr {path : List Node} (chain : path.IsChain (nodes.Link store))
    (nexts : ∀ node ∈ path.dropLast, nodes.next store' node = nodes.next store node)
    (prevs : ∀ node ∈ path.tail, nodes.prev store' node = nodes.prev store node) :
    path.IsChain (nodes.Link store') := by
  induction path with
  | nil => exact List.isChain_nil
  | cons first rest induction =>
      cases rest with
      | nil => exact List.isChain_singleton _
      | cons second rest =>
          rw [List.isChain_cons_cons] at chain ⊢
          obtain ⟨⟨next_eq, prev_eq⟩, tail_chain⟩ := chain
          refine ⟨⟨?_, ?_⟩, ?_⟩
          · rw [nexts first (by simp), next_eq]
          · rw [prevs second (by simp), prev_eq]
          · apply induction tail_chain
            · intro node member
              exact nexts node (by simp [member])
            · intro node member
              exact prevs node (by simpa using Or.inr member)

namespace Cycle

/-- Two nodes of one cycle are equal or apart. -/
theorem eq_or_apart (cycle : nodes.Cycle store head elements)
    (left_mem : left ∈ head :: elements) (right_mem : right ∈ head :: elements) :
    left = right ∨ nodes.Apart left right := by
  by_cases equal : left = right
  · exact Or.inl equal
  · have : Std.Symm nodes.Apart := ⟨fun _ _ => nodes.apart_symm⟩
    exact Or.inr (cycle.apart.forall left_mem right_mem equal)

theorem nodup (cycle : nodes.Cycle store head elements) : (head :: elements).Nodup := by
  apply cycle.apart.imp
  intro left right apart equal
  exact nodes.apart_irrefl right (equal ▸ apart)

/-- A cycle only depends on the links of its own nodes. -/
theorem congr (cycle : nodes.Cycle store head elements)
    (nexts : ∀ node ∈ head :: elements, nodes.next store' node = nodes.next store node)
    (prevs : ∀ node ∈ head :: elements, nodes.prev store' node = nodes.prev store node) :
    nodes.Cycle store' head elements := by
  refine ⟨chain_congr cycle.chain ?_ ?_, cycle.apart, cycle.valid⟩
  · intro node member
    apply nexts
    rw [← List.cons_append, List.dropLast_concat] at member
    exact member
  · intro node member
    apply prevs
    simpa [or_comm] using member

private theorem cycle_shape {before after front back : List Node}
    (front_eq : head :: before = front ++ [left]) (back_eq : after ++ [head] = right :: back)
    (middle : List Node) :
    head :: (before ++ middle ++ after ++ [head]) =
      front ++ left :: (middle ++ right :: back) := by
  rw [List.append_assoc (before ++ middle), back_eq, List.append_assoc,
    ← List.cons_append, front_eq]
  simp

/-- The arc between two nodes of a cycle is itself a chain. -/
theorem arc_chain {before arc after front back : List Node}
    (cycle : nodes.Cycle store head (before ++ arc ++ after))
    (front_eq : head :: before = front ++ [left]) (back_eq : after ++ [head] = right :: back) :
    (left :: (arc ++ [right])).IsChain (nodes.Link store) := by
  have chain := cycle.chain
  rw [cycle_shape front_eq back_eq, List.isChain_split] at chain
  have rest_chain := chain.2
  rw [← List.cons_append, List.isChain_split] at rest_chain
  simpa using rest_chain.1

/-- The successor of an element is the first one behind it, or the sentinel. -/
theorem next_eq {before after : List Node} {node : Node}
    (cycle : nodes.Cycle store head (before ++ node :: after)) :
    nodes.next store node = after.headD head := by
  have chain := cycle.chain
  have shape : head :: (before ++ node :: after ++ [head]) =
      (head :: before) ++ node :: (after ++ [head]) := by simp
  rw [shape, List.isChain_split] at chain
  cases after with
  | nil => exact (List.isChain_pair.mp chain.2).1
  | cons next after => exact (List.isChain_cons_cons.mp chain.2).1.1

/-- The part of a cycle up to a node keeps its links where only the successor of that node and the
predecessor of a later one may have changed. -/
private theorem front_congr {before after front back : List Node}
    (nodup : (head :: (before ++ after)).Nodup) (front_eq : head :: before = front ++ [left])
    (back_eq : after ++ [head] = right :: back)
    (nexts : ∀ node ∈ head :: (before ++ after), node ≠ left →
      nodes.next store' node = nodes.next store node)
    (prevs : ∀ node ∈ head :: (before ++ after), node ≠ right →
      nodes.prev store' node = nodes.prev store node)
    (chain : (front ++ [left]).IsChain (nodes.Link store)) :
    (front ++ [left]).IsChain (nodes.Link store') := by
  apply chain_congr chain
  · intro node member
    rw [List.dropLast_concat] at member
    have front_nodup : (front ++ [left]).Nodup := by
      rw [← front_eq]
      exact nodup.sublist (List.Sublist.cons_cons head (by simp))
    apply nexts
    · have : node ∈ head :: before := by
        rw [front_eq]
        simp [member]
      simp only [List.mem_cons, List.mem_append] at this ⊢
      tauto
    · rintro rfl
      simp only [List.nodup_append, List.mem_singleton] at front_nodup
      exact front_nodup.2.2 node member node rfl rfl
  · intro node member
    rw [← front_eq, List.tail_cons] at member
    apply prevs
    · simp [member]
    · rintro rfl
      have right_mem : node ∈ after ++ [head] := by simp [back_eq]
      simp only [List.nodup_cons, List.mem_append, List.nodup_append] at nodup
      simp only [List.mem_append, List.mem_singleton] at right_mem
      rcases right_mem with right_mem | rfl
      · exact nodup.2.2.2 node member node right_mem rfl
      · exact nodup.1 (Or.inl member)

/-- The part from a node on is the part up to it in the other direction. -/
private theorem back_congr {before after front back : List Node}
    (nodup : (head :: (before ++ after)).Nodup) (front_eq : head :: before = front ++ [left])
    (back_eq : after ++ [head] = right :: back)
    (nexts : ∀ node ∈ head :: (before ++ after), node ≠ left →
      nodes.next store' node = nodes.next store node)
    (prevs : ∀ node ∈ head :: (before ++ after), node ≠ right →
      nodes.prev store' node = nodes.prev store node)
    (chain : (right :: back).IsChain (nodes.Link store)) :
    (right :: back).IsChain (nodes.Link store') := by
  have front_eq' : head :: after.reverse = back.reverse ++ [right] := by
    simpa using congrArg List.reverse back_eq
  have back_eq' : before.reverse ++ [head] = left :: front.reverse := by
    simpa using congrArg List.reverse front_eq
  have perm : (after.reverse ++ before.reverse).Perm (before ++ after) :=
    List.perm_append_comm.trans ((List.reverse_perm before).append (List.reverse_perm after))
  have member {node : Node} (member : node ∈ head :: (after.reverse ++ before.reverse)) :
      node ∈ head :: (before ++ after) := (perm.cons head).mem_iff.mp member
  rw [← isChain_mirror, List.reverse_cons] at chain ⊢
  exact front_congr ((perm.cons head).nodup_iff.mpr nodup) front_eq' back_eq'
    (fun node node_mem => prevs node (member node_mem))
    (fun node node_mem => nexts node (member node_mem)) chain

/-- Replace one arc of a cycle. Outside the arc only the successor of its left end and the
predecessor of its right end may have changed. -/
theorem splice {before arc arc' after front back : List Node}
    (cycle : nodes.Cycle store head (before ++ arc ++ after))
    (front_eq : head :: before = front ++ [left]) (back_eq : after ++ [head] = right :: back)
    (nexts : ∀ node ∈ head :: (before ++ after), node ≠ left →
      nodes.next store' node = nodes.next store node)
    (prevs : ∀ node ∈ head :: (before ++ after), node ≠ right →
      nodes.prev store' node = nodes.prev store node)
    (arc_chain : (left :: (arc' ++ [right])).IsChain (nodes.Link store'))
    (apart : (head :: (before ++ arc' ++ after)).Pairwise nodes.Apart)
    (valid : ∀ node ∈ arc', nodes.Valid node) :
    nodes.Cycle store' head (before ++ arc' ++ after) := by
  have nodup : (head :: (before ++ after)).Nodup := by
    refine cycle.nodup.sublist (List.Sublist.cons_cons head ?_)
    simp
  have chain := cycle.chain
  rw [cycle_shape front_eq back_eq, List.isChain_split] at chain
  obtain ⟨front_chain, rest_chain⟩ := chain
  rw [← List.cons_append, List.isChain_split] at rest_chain
  have front_chain' := front_congr nodup front_eq back_eq nexts prevs front_chain
  have back_chain' := back_congr nodup front_eq back_eq nexts prevs rest_chain.2
  refine ⟨?_, apart, ?_⟩
  · rw [cycle_shape front_eq back_eq, List.isChain_split]
    refine ⟨front_chain', ?_⟩
    rw [← List.cons_append, List.isChain_split]
    exact ⟨by simpa using arc_chain, back_chain'⟩
  · intro node member
    simp only [List.mem_cons, List.mem_append] at member
    rcases member with rfl | (member | member) | member
    · exact cycle.valid node (by simp)
    · exact cycle.valid node (by simp [member])
    · exact valid node member
    · exact cycle.valid node (by simp [member])

end Cycle

variable (nodes) in
/-- Stores obtained by rewriting links of the selected nodes only. -/
inductive Rewrites (touched : Set Node) (store : Store) : Store → Prop
  | refl : Rewrites touched store store
  | setNext {current : Store} {node value : Node} :
      Rewrites touched store current → node ∈ touched →
        Rewrites touched store (nodes.setNext current node value)
  | setPrev {current : Store} {node value : Node} :
      Rewrites touched store current → node ∈ touched →
        Rewrites touched store (nodes.setPrev current node value)

namespace Rewrites

theorem mono {touched touched' : Set Node} (rewrites : nodes.Rewrites touched store store')
    (subset : touched ⊆ touched') : nodes.Rewrites touched' store store' := by
  induction rewrites with
  | refl => exact .refl
  | setNext _ member induction => exact .setNext induction (subset member)
  | setPrev _ member induction => exact .setPrev induction (subset member)

theorem next_eq {touched : Set Node} (rewrites : nodes.Rewrites touched store store')
    (apart : ∀ other ∈ touched, nodes.Apart node other) :
    nodes.next store' node = nodes.next store node := by
  induction rewrites with
  | refl => rfl
  | setNext _ member induction => rw [nodes.next_setNext_apart (apart _ member), induction]
  | setPrev _ member induction => rw [nodes.next_setPrev (Or.inr (apart _ member)), induction]

theorem prev_eq {touched : Set Node} (rewrites : nodes.Rewrites touched store store')
    (apart : ∀ other ∈ touched, nodes.Apart node other) :
    nodes.prev store' node = nodes.prev store node := by
  induction rewrites with
  | refl => rfl
  | setNext _ member induction => rw [nodes.prev_setNext (Or.inr (apart _ member)), induction]
  | setPrev _ member induction => rw [nodes.prev_setPrev_apart (apart _ member), induction]

end Rewrites

/-! ## Both directions -/

/-- A cycle has the reverse order in the other direction. -/
theorem Cycle.mirror (cycle : nodes.Cycle store head elements) :
    nodes.mirror.Cycle store head elements.reverse := by
  have order : head :: (elements.reverse ++ [head]) = (head :: (elements ++ [head])).reverse := by
    simp
  refine ⟨?_, ?_, ?_⟩
  · rw [order, isChain_mirror]
    exact cycle.chain
  · exact cycle.apart.perm ((List.reverse_perm elements).symm.cons head) nodes.apart_symm
  · intro node member
    exact cycle.valid node (by simpa using member)

theorem Rewrites.mirror {touched : Set Node} (rewrites : nodes.Rewrites touched store store') :
    nodes.mirror.Rewrites touched store store' := by
  induction rewrites with
  | refl => exact .refl
  | setNext _ member induction => exact .setPrev induction member
  | setPrev _ member induction => exact .setNext induction member

section Follow

variable [DecidableEq Node]

/-- Follow links from a node until the end is reached, at most `fuel` nodes. -/
def follow (link : Node → Node) (stop : Node) : ℕ → Node → Option (List Node)
  | 0, _ => none
  | fuel + 1, node =>
      if node = stop then some [] else (follow link stop fuel (link node)).map (node :: ·)

/-- The successors along a chain are its nodes. -/
theorem follow_chain {stop : Node} {rest : List Node}
    (chain : (left :: (rest ++ [stop])).IsChain (nodes.Link store)) (inner : stop ∉ rest)
    {fuel : ℕ} (enough : rest.length < fuel) :
    follow (nodes.next store) stop fuel (nodes.next store left) = some rest := by
  induction rest generalizing left fuel with
  | nil =>
      obtain ⟨fuel, rfl⟩ := Nat.exists_eq_add_of_lt enough
      rw [List.nil_append, List.isChain_pair] at chain
      rw [chain.1, follow, if_pos rfl]
  | cons node rest induction =>
      obtain ⟨fuel, rfl⟩ := Nat.exists_eq_add_of_lt enough
      rw [List.mem_cons, not_or] at inner
      rw [List.cons_append, List.isChain_cons_cons] at chain
      rw [chain.1.1, follow, if_neg (Ne.symm inner.1),
        induction chain.2 inner.2 (by rw [List.length_cons]; omega), Option.map_some]

/-- Following successors from the sentinel yields the elements. -/
theorem Cycle.follow_next (cycle : nodes.Cycle store head elements) {fuel : ℕ}
    (enough : elements.length < fuel) :
    follow (nodes.next store) head fuel (nodes.next store head) = some elements :=
  follow_chain cycle.chain (List.nodup_cons.mp cycle.nodup).1 enough

/-- Following predecessors yields them backwards. -/
theorem Cycle.follow_prev (cycle : nodes.Cycle store head elements) {fuel : ℕ}
    (enough : elements.length < fuel) :
    follow (nodes.prev store) head fuel (nodes.prev store head) = some elements.reverse :=
  cycle.mirror.follow_next (by rwa [List.length_reverse])

end Follow

end NodeStore
