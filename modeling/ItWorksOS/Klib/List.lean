import ItWorksOS.Foundation.ByteMemory
import ItWorksOS.Foundation.LinkedCycle

/-!
# Intrusive lists of `klib/list.h`

The list operations are written over an arbitrary node store, so that the same code runs on raw
kernel memory and on any typed view of it. `wordNodes` is the layout of `struct list_node` in
memory: the successor in the first word and the predecessor in the second.
-/

namespace ItWorksOS

/-- `struct list_node` in byte memory: `next` at offset 0 and `prev` at offset 4. -/
def wordNodes : NodeStore ByteMemory ℕ where
  next memory node := memory.read32 node
  prev memory node := memory.read32 (node + 4)
  setNext memory node value := memory.write32 node value
  setPrev memory node value := memory.write32 (node + 4) value
  Apart left right := left + 8 ≤ right ∨ right + 8 ≤ left
  Valid node := node < 2 ^ 32
  apart_symm apart := apart.symm
  apart_irrefl node apart := by omega
  next_setNext valid := ByteMemory.read32_write32_of_lt _ _ valid
  prev_setPrev valid := ByteMemory.read32_write32_of_lt _ _ valid
  next_setNext_apart apart := ByteMemory.read32_write32_of_disjoint (by omega)
  prev_setPrev_apart apart := ByteMemory.read32_write32_of_disjoint (by omega)
  next_setPrev apart := ByteMemory.read32_write32_of_disjoint (by omega)
  prev_setNext apart := ByteMemory.read32_write32_of_disjoint (by omega)

section Operations

variable {Store Node : Type*} (nodes : NodeStore Store Node)

/-- `list_init`: the sentinel points at itself. -/
def listInit (store : Store) (head : Node) : Store :=
  let store := nodes.setNext store head head
  nodes.setPrev store head head

/-- `list_insert_after`. -/
def listInsertAfter (store : Store) (node new : Node) : Store :=
  let store := nodes.setPrev store new node
  let store := nodes.setNext store new (nodes.next store node)
  let store := nodes.setPrev store (nodes.next store node) new
  nodes.setNext store node new

/-- `list_insert_before`. -/
def listInsertBefore (store : Store) (node new : Node) : Store :=
  let store := nodes.setNext store new node
  let store := nodes.setPrev store new (nodes.prev store node)
  let store := nodes.setNext store (nodes.prev store node) new
  nodes.setPrev store node new

/-- `list_insert_front`. -/
def listInsertFront (store : Store) (head node : Node) : Store :=
  listInsertAfter nodes store head node

/-- `list_insert_back`. -/
def listInsertBack (store : Store) (head node : Node) : Store :=
  listInsertBefore nodes store head node

/-- `list_remove`, which leaves both links of the removed node at `null`. -/
def listRemove (null : Node) (store : Store) (node : Node) : Store :=
  let store := nodes.setNext store (nodes.prev store node) (nodes.next store node)
  let store := nodes.setPrev store (nodes.next store node) (nodes.prev store node)
  let store := nodes.setNext store node null
  nodes.setPrev store node null

/-- `list_replace`, which leaves both links of the replaced node at `null`. -/
def listReplace (null : Node) (store : Store) (old new : Node) : Store :=
  let store := nodes.setPrev store new (nodes.prev store old)
  let store := nodes.setNext store new (nodes.next store old)
  let store := nodes.setNext store (nodes.prev store old) new
  let store := nodes.setPrev store (nodes.next store old) new
  let store := nodes.setNext store old null
  nodes.setPrev store old null

section Pop

variable [DecidableEq Node]

/-- `list_empty`. -/
def listEmpty (store : Store) (head : Node) : Bool := nodes.next store head = head

/-- `list_pop_front`. -/
def listPopFront (null : Node) (store : Store) (head : Node) : Node × Store :=
  if listEmpty nodes store head then (null, store)
  else (nodes.next store head, listRemove nodes null store (nodes.next store head))

/-- `list_pop_back`. -/
def listPopBack (null : Node) (store : Store) (head : Node) : Node × Store :=
  if listEmpty nodes store head then (null, store)
  else (nodes.prev store head, listRemove nodes null store (nodes.prev store head))

end Pop

variable {nodes} {store : Store} {head node new null : Node} {elements before after : List Node}

private theorem exists_left_end (head : Node) (before : List Node) :
    ∃ front left, head :: before = front ++ [left] := by
  obtain empty | ⟨front, left, equal⟩ := List.eq_nil_or_concat (head :: before)
  · simp at empty
  · exact ⟨front, left, by simpa using equal⟩

private theorem exists_right_end (after : List Node) (head : Node) :
    ∃ right back, after ++ [head] = right :: back := by
  cases after with
  | nil => exact ⟨head, [], rfl⟩
  | cons right rest => exact ⟨right, rest ++ [head], rfl⟩

/-- Initialisation yields the empty cycle. -/
theorem listInit_cycle (valid : nodes.Valid head) :
    nodes.Cycle (listInit nodes store head) head [] := by
  refine ⟨?_, by simp, by simpa using valid⟩
  simp only [List.nil_append, List.isChain_pair, NodeStore.Link, listInit]
  exact ⟨by rw [nodes.next_setPrev (Or.inl rfl), nodes.next_setNext valid],
    nodes.prev_setPrev valid⟩

theorem listInit_rewrites : nodes.Rewrites {head} store (listInit nodes store head) :=
  .setPrev (.setNext .refl rfl) rfl

section Insert

variable {front : List Node}

private theorem pairwise_insert (cycle : nodes.Cycle store head (before ++ after))
    (apart : ∀ other ∈ head :: (before ++ after), nodes.Apart new other) :
    (head :: (before ++ [new] ++ after)).Pairwise nodes.Apart := by
  have reordered : (new :: head :: (before ++ after)).Pairwise nodes.Apart :=
    List.pairwise_cons.mpr ⟨apart, cycle.apart⟩
  refine reordered.perm ?_ nodes.apart_symm
  refine (List.Perm.swap head new _).trans (List.Perm.cons head ?_)
  simp only [List.append_assoc, List.singleton_append]
  exact List.perm_middle.symm

/-- On a cycle, insertion is four link writes around the successor of the selected node. -/
private theorem listInsertAfter_eq (cycle : nodes.Cycle store head (before ++ after))
    (front_eq : head :: before = front ++ [node])
    (apart : ∀ other ∈ head :: (before ++ after), nodes.Apart new other) :
    ∃ right back, after ++ [head] = right :: back ∧ node ∈ head :: (before ++ after) ∧
      right ∈ head :: (before ++ after) ∧
      listInsertAfter nodes store node new =
        nodes.setNext (nodes.setPrev (nodes.setNext (nodes.setPrev store new node) new right)
          right new) node new := by
  obtain ⟨right, back, back_eq⟩ := exists_right_end after head
  have spliced : nodes.Cycle store head (before ++ [] ++ after) := by simpa using cycle
  have link : nodes.Link store node right := by
    simpa using spliced.arc_chain front_eq back_eq
  have node_mem : node ∈ head :: (before ++ after) := by
    have : node ∈ head :: before := by simp [front_eq]
    simp only [List.mem_cons, List.mem_append] at this ⊢
    tauto
  have right_mem : right ∈ head :: (before ++ after) := by
    have : right ∈ after ++ [head] := by simp [back_eq]
    simp only [List.mem_cons, List.mem_append] at this ⊢
    tauto
  have node_new := nodes.apart_symm (apart node node_mem)
  have next_first : nodes.next (nodes.setPrev store new node) node = right := by
    rw [nodes.next_setPrev (Or.inr node_new), link.1]
  have next_second :
      nodes.next (nodes.setNext (nodes.setPrev store new node) new right) node = right := by
    rw [nodes.next_setNext_apart node_new, next_first]
  refine ⟨right, back, back_eq, node_mem, right_mem, ?_⟩
  simp only [listInsertAfter, next_first, next_second]

/-- Insertion puts the new node right after the selected one. -/
theorem listInsertAfter_cycle (cycle : nodes.Cycle store head (before ++ after))
    (front_eq : head :: before = front ++ [node])
    (apart : ∀ other ∈ head :: (before ++ after), nodes.Apart new other)
    (valid : nodes.Valid new) :
    nodes.Cycle (listInsertAfter nodes store node new) head (before ++ new :: after) := by
  obtain ⟨right, back, back_eq, node_mem, right_mem, written⟩ :=
    listInsertAfter_eq cycle front_eq apart
  have spliced : nodes.Cycle store head (before ++ [] ++ after) := by simpa using cycle
  have new_node := apart node node_mem
  have new_right := apart right right_mem
  rw [written, show before ++ new :: after = before ++ [new] ++ after by simp]
  apply spliced.splice front_eq back_eq
  · intro other member distinct
    have other_node := (cycle.eq_or_apart member node_mem).resolve_left distinct
    rw [nodes.next_setNext_apart other_node,
      nodes.next_setPrev (cycle.eq_or_apart member right_mem),
      nodes.next_setNext_apart (nodes.apart_symm (apart other member)),
      nodes.next_setPrev (Or.inr (nodes.apart_symm (apart other member)))]
  · intro other member distinct
    have other_right := (cycle.eq_or_apart member right_mem).resolve_left distinct
    rw [nodes.prev_setNext (cycle.eq_or_apart member node_mem),
      nodes.prev_setPrev_apart other_right,
      nodes.prev_setNext (Or.inr (nodes.apart_symm (apart other member))),
      nodes.prev_setPrev_apart (nodes.apart_symm (apart other member))]
  · simp only [List.singleton_append, List.isChain_cons_cons, List.isChain_singleton, and_true,
      NodeStore.Link]
    refine ⟨⟨nodes.next_setNext valid, ?_⟩, ?_, ?_⟩
    · rw [nodes.prev_setNext (Or.inr new_node), nodes.prev_setPrev_apart new_right,
        nodes.prev_setNext (Or.inl rfl), nodes.prev_setPrev (cycle.valid node node_mem)]
    · rw [nodes.next_setNext_apart new_node, nodes.next_setPrev (Or.inr new_right),
        nodes.next_setNext (cycle.valid right right_mem)]
    · rw [nodes.prev_setNext (cycle.eq_or_apart right_mem node_mem), nodes.prev_setPrev valid]
  · exact pairwise_insert cycle apart
  · simpa using valid

/-- Insertion rewrites links of the cycle and of the new node only. -/
theorem listInsertAfter_rewrites (cycle : nodes.Cycle store head (before ++ after))
    (front_eq : head :: before = front ++ [node])
    (apart : ∀ other ∈ head :: (before ++ after), nodes.Apart new other) :
    nodes.Rewrites {other | other = new ∨ other ∈ head :: (before ++ after)} store
      (listInsertAfter nodes store node new) := by
  obtain ⟨right, back, _, node_mem, right_mem, written⟩ :=
    listInsertAfter_eq cycle front_eq apart
  rw [written]
  exact .setNext (.setPrev (.setNext (.setPrev .refl (Or.inl rfl)) (Or.inl rfl))
    (Or.inr right_mem)) (Or.inr node_mem)

theorem listInsertFront_cycle (cycle : nodes.Cycle store head elements)
    (apart : ∀ other ∈ head :: elements, nodes.Apart new other) (valid : nodes.Valid new) :
    nodes.Cycle (listInsertFront nodes store head new) head (new :: elements) :=
  listInsertAfter_cycle (show nodes.Cycle store head ([] ++ elements) from cycle)
    (List.nil_append [head]).symm apart valid

theorem listInsertFront_rewrites (cycle : nodes.Cycle store head elements)
    (apart : ∀ other ∈ head :: elements, nodes.Apart new other) :
    nodes.Rewrites {other | other = new ∨ other ∈ head :: elements} store
      (listInsertFront nodes store head new) :=
  listInsertAfter_rewrites (show nodes.Cycle store head ([] ++ elements) from cycle)
    (List.nil_append [head]).symm apart

private theorem mirror_ends {back : List Node} (cycle : nodes.Cycle store head (before ++ after))
    (back_eq : after ++ [head] = node :: back) :
    nodes.mirror.Cycle store head (after.reverse ++ before.reverse) ∧
      head :: after.reverse = back.reverse ++ [node] := by
  constructor
  · rw [← List.reverse_append]
    exact cycle.mirror
  · rw [← List.reverse_concat, back_eq, List.reverse_cons]

/-- Insertion before a node is insertion after it in the other direction. -/
theorem listInsertBefore_cycle {back : List Node}
    (cycle : nodes.Cycle store head (before ++ after))
    (back_eq : after ++ [head] = node :: back)
    (apart : ∀ other ∈ head :: (before ++ after), nodes.Apart new other)
    (valid : nodes.Valid new) :
    nodes.Cycle (listInsertBefore nodes store node new) head (before ++ new :: after) := by
  obtain ⟨mirrored, front_eq⟩ := mirror_ends cycle back_eq
  have inserted : nodes.mirror.Cycle (listInsertBefore nodes store node new) head
      (after.reverse ++ new :: before.reverse) :=
    listInsertAfter_cycle mirrored front_eq
      (fun other member => apart other (by simpa [or_comm] using member)) valid
  have restored : nodes.Cycle (listInsertBefore nodes store node new) head
      (after.reverse ++ new :: before.reverse).reverse := inserted.mirror
  simpa using restored

theorem listInsertBefore_rewrites {back : List Node}
    (cycle : nodes.Cycle store head (before ++ after))
    (back_eq : after ++ [head] = node :: back)
    (apart : ∀ other ∈ head :: (before ++ after), nodes.Apart new other) :
    nodes.Rewrites {other | other = new ∨ other ∈ head :: (before ++ after)} store
      (listInsertBefore nodes store node new) := by
  obtain ⟨mirrored, front_eq⟩ := mirror_ends cycle back_eq
  have rewrites : nodes.mirror.Rewrites
      {other | other = new ∨ other ∈ head :: (after.reverse ++ before.reverse)} store
      (listInsertBefore nodes store node new) :=
    listInsertAfter_rewrites mirrored front_eq
      fun other member => apart other (by simpa [or_comm] using member)
  refine rewrites.mirror.mono fun other touched => touched.imp id fun member => ?_
  simpa [or_comm] using member

end Insert

section Unlink

/-- The neighbours of an element of a cycle, with the facts every unlinking step needs. -/
private theorem exists_neighbours (cycle : nodes.Cycle store head (before ++ node :: after)) :
    ∃ front left right back, head :: before = front ++ [left] ∧
      after ++ [head] = right :: back ∧ nodes.Link store left node ∧
      nodes.Link store node right ∧ left ∈ head :: (before ++ after) ∧
      right ∈ head :: (before ++ after) ∧
      (∀ other ∈ head :: (before ++ after), nodes.Apart node other) := by
  obtain ⟨front, left, front_eq⟩ := exists_left_end head before
  obtain ⟨right, back, back_eq⟩ := exists_right_end after head
  have spliced : nodes.Cycle store head (before ++ [node] ++ after) := by simpa using cycle
  have arc := spliced.arc_chain front_eq back_eq
  simp only [List.singleton_append, List.isChain_cons_cons, List.isChain_singleton,
    and_true] at arc
  refine ⟨front, left, right, back, front_eq, back_eq, arc.1, arc.2, ?_, ?_, ?_⟩
  · have : left ∈ head :: before := by simp [front_eq]
    simp only [List.mem_cons, List.mem_append] at this ⊢
    tauto
  · have : right ∈ after ++ [head] := by simp [back_eq]
    simp only [List.mem_cons, List.mem_append] at this ⊢
    tauto
  · have reordered : (node :: head :: (before ++ after)).Pairwise nodes.Apart := by
      refine cycle.apart.perm ?_ nodes.apart_symm
      exact (List.Perm.cons head List.perm_middle).trans (List.Perm.swap node head _)
    exact (List.pairwise_cons.mp reordered).1

/-- On a cycle, removal is four link writes around the neighbours of the node. -/
private theorem listRemove_eq {left right : Node} (left_link : nodes.Link store left node)
    (right_link : nodes.Link store node right) (node_left : nodes.Apart node left) :
    listRemove nodes null store node =
      nodes.setPrev (nodes.setNext (nodes.setPrev (nodes.setNext store left right) right left)
        node null) node null := by
  have next_first : nodes.next (nodes.setNext store left right) node = right := by
    rw [nodes.next_setNext_apart node_left, right_link.1]
  have prev_first : nodes.prev (nodes.setNext store left right) node = left := by
    rw [nodes.prev_setNext (Or.inr node_left), left_link.2]
  simp only [listRemove, left_link.2, right_link.1, next_first, prev_first]

private theorem mem_of_without {other : Node} (member : other ∈ head :: (before ++ after)) :
    other ∈ head :: (before ++ node :: after) := by
  simp only [List.mem_cons, List.mem_append] at member ⊢
  tauto

/-- Removal closes the cycle over the removed node. -/
theorem listRemove_cycle (cycle : nodes.Cycle store head (before ++ node :: after)) :
    nodes.Cycle (listRemove nodes null store node) head (before ++ after) := by
  obtain ⟨front, left, right, back, front_eq, back_eq, left_link, right_link, left_mem,
    right_mem, apart⟩ := exists_neighbours cycle
  have spliced : nodes.Cycle store head (before ++ [node] ++ after) := by simpa using cycle
  have left_kept : left ∈ head :: (before ++ node :: after) := mem_of_without left_mem
  have right_kept : right ∈ head :: (before ++ node :: after) := mem_of_without right_mem
  rw [listRemove_eq left_link right_link (apart left left_mem),
    show before ++ after = before ++ [] ++ after by simp]
  apply spliced.splice front_eq back_eq
  · intro other member distinct
    have other_node := nodes.apart_symm (apart other member)
    have other_left := (cycle.eq_or_apart (mem_of_without member) left_kept).resolve_left distinct
    rw [nodes.next_setPrev (Or.inr other_node), nodes.next_setNext_apart other_node,
      nodes.next_setPrev (cycle.eq_or_apart (mem_of_without member) right_kept),
      nodes.next_setNext_apart other_left]
  · intro other member distinct
    have other_node := nodes.apart_symm (apart other member)
    have other_right := (cycle.eq_or_apart (mem_of_without member) right_kept).resolve_left distinct
    rw [nodes.prev_setPrev_apart other_node, nodes.prev_setNext (Or.inr other_node),
      nodes.prev_setPrev_apart other_right,
      nodes.prev_setNext (cycle.eq_or_apart (mem_of_without member) left_kept)]
  · have left_node := nodes.apart_symm (apart left left_mem)
    have right_node := nodes.apart_symm (apart right right_mem)
    simp only [List.nil_append, List.isChain_pair, NodeStore.Link]
    constructor
    · rw [nodes.next_setPrev (Or.inr left_node), nodes.next_setNext_apart left_node,
        nodes.next_setPrev (cycle.eq_or_apart left_kept right_kept),
        nodes.next_setNext (cycle.valid right right_kept)]
    · rw [nodes.prev_setPrev_apart right_node, nodes.prev_setNext (Or.inr right_node),
        nodes.prev_setPrev (cycle.valid left left_kept)]
  · exact cycle.apart.sublist (List.Sublist.cons_cons head (by simp))
  · simp

/-- Removal rewrites links of the cycle only. -/
theorem listRemove_rewrites (cycle : nodes.Cycle store head (before ++ node :: after)) :
    nodes.Rewrites {other | other ∈ head :: (before ++ node :: after)} store
      (listRemove nodes null store node) := by
  obtain ⟨front, left, right, back, front_eq, back_eq, left_link, right_link, left_mem,
    right_mem, apart⟩ := exists_neighbours cycle
  have node_mem : node ∈ head :: (before ++ node :: after) := by simp
  rw [listRemove_eq left_link right_link (apart left left_mem)]
  exact .setPrev (.setNext (.setPrev (.setNext .refl (mem_of_without left_mem))
    (mem_of_without right_mem)) node_mem) node_mem

/-- Both links of the removed node are at `null`. -/
theorem listRemove_null (valid : nodes.Valid null) (store : Store) (node : Node) :
    nodes.next (listRemove nodes null store node) node = null ∧
      nodes.prev (listRemove nodes null store node) node = null := by
  rw [listRemove]
  exact ⟨by rw [nodes.next_setPrev (Or.inl rfl), nodes.next_setNext valid],
    nodes.prev_setPrev valid⟩

/-- On a cycle, replacement is six link writes around the neighbours of the old node. -/
private theorem listReplace_eq {left right : Node} (left_link : nodes.Link store left node)
    (right_link : nodes.Link store node right) (node_left : nodes.Apart node left)
    (node_new : nodes.Apart node new) :
    listReplace nodes null store node new =
      nodes.setPrev (nodes.setNext (nodes.setPrev (nodes.setNext
        (nodes.setNext (nodes.setPrev store new left) new right) left new) right new)
        node null) node null := by
  have next_first : nodes.next (nodes.setPrev store new left) node = right := by
    rw [nodes.next_setPrev (Or.inr node_new), right_link.1]
  have prev_second :
      nodes.prev (nodes.setNext (nodes.setPrev store new left) new right) node = left := by
    rw [nodes.prev_setNext (Or.inr node_new), nodes.prev_setPrev_apart node_new, left_link.2]
  have next_third : nodes.next (nodes.setNext
      (nodes.setNext (nodes.setPrev store new left) new right) left new) node = right := by
    rw [nodes.next_setNext_apart node_left, nodes.next_setNext_apart node_new, next_first]
  simp only [listReplace, left_link.2, next_first, prev_second, next_third]

/-- Replacement puts the new node at the position of the old one. -/
theorem listReplace_cycle (cycle : nodes.Cycle store head (before ++ node :: after))
    (fresh : ∀ other ∈ head :: (before ++ node :: after), nodes.Apart new other)
    (valid : nodes.Valid new) :
    nodes.Cycle (listReplace nodes null store node new) head (before ++ new :: after) := by
  obtain ⟨front, left, right, back, front_eq, back_eq, left_link, right_link, left_mem,
    right_mem, apart⟩ := exists_neighbours cycle
  have spliced : nodes.Cycle store head (before ++ [node] ++ after) := by simpa using cycle
  have left_kept : left ∈ head :: (before ++ node :: after) := mem_of_without left_mem
  have right_kept : right ∈ head :: (before ++ node :: after) := mem_of_without right_mem
  have new_node := fresh node (by simp)
  rw [listReplace_eq left_link right_link (apart left left_mem) (nodes.apart_symm new_node),
    show before ++ new :: after = before ++ [new] ++ after by simp]
  apply spliced.splice front_eq back_eq
  · intro other member distinct
    have other_node := nodes.apart_symm (apart other member)
    have other_new := nodes.apart_symm (fresh other (mem_of_without member))
    have other_left := (cycle.eq_or_apart (mem_of_without member) left_kept).resolve_left distinct
    rw [nodes.next_setPrev (Or.inr other_node), nodes.next_setNext_apart other_node,
      nodes.next_setPrev (cycle.eq_or_apart (mem_of_without member) right_kept),
      nodes.next_setNext_apart other_left, nodes.next_setNext_apart other_new,
      nodes.next_setPrev (Or.inr other_new)]
  · intro other member distinct
    have other_node := nodes.apart_symm (apart other member)
    have other_new := nodes.apart_symm (fresh other (mem_of_without member))
    have other_right := (cycle.eq_or_apart (mem_of_without member) right_kept).resolve_left distinct
    rw [nodes.prev_setPrev_apart other_node, nodes.prev_setNext (Or.inr other_node),
      nodes.prev_setPrev_apart other_right,
      nodes.prev_setNext (cycle.eq_or_apart (mem_of_without member) left_kept),
      nodes.prev_setNext (Or.inr other_new), nodes.prev_setPrev_apart other_new]
  · have left_node := nodes.apart_symm (apart left left_mem)
    have right_node := nodes.apart_symm (apart right right_mem)
    have new_left := fresh left left_kept
    have new_right := fresh right right_kept
    simp only [List.singleton_append, List.isChain_cons_cons, List.isChain_singleton, and_true,
      NodeStore.Link]
    refine ⟨⟨?_, ?_⟩, ?_, ?_⟩
    · rw [nodes.next_setPrev (Or.inr left_node), nodes.next_setNext_apart left_node,
        nodes.next_setPrev (cycle.eq_or_apart left_kept right_kept), nodes.next_setNext valid]
    · rw [nodes.prev_setPrev_apart new_node, nodes.prev_setNext (Or.inr new_node),
        nodes.prev_setPrev_apart new_right, nodes.prev_setNext (Or.inr new_left),
        nodes.prev_setNext (Or.inl rfl), nodes.prev_setPrev (cycle.valid left left_kept)]
    · rw [nodes.next_setPrev (Or.inr new_node), nodes.next_setNext_apart new_node,
        nodes.next_setPrev (Or.inr new_right), nodes.next_setNext_apart new_left,
        nodes.next_setNext (cycle.valid right right_kept)]
    · rw [nodes.prev_setPrev_apart right_node, nodes.prev_setNext (Or.inr right_node),
        nodes.prev_setPrev valid]
  · have removed : nodes.Cycle (listRemove nodes node store node) head (before ++ after) :=
      listRemove_cycle cycle
    exact pairwise_insert removed fun other member => fresh other (mem_of_without member)
  · simpa using valid

/-- Replacement rewrites links of the cycle and of the new node only. -/
theorem listReplace_rewrites (cycle : nodes.Cycle store head (before ++ node :: after))
    (fresh : ∀ other ∈ head :: (before ++ node :: after), nodes.Apart new other) :
    nodes.Rewrites {other | other = new ∨ other ∈ head :: (before ++ node :: after)} store
      (listReplace nodes null store node new) := by
  obtain ⟨front, left, right, back, front_eq, back_eq, left_link, right_link, left_mem,
    right_mem, apart⟩ := exists_neighbours cycle
  have node_mem : node ∈ head :: (before ++ node :: after) := by simp
  rw [listReplace_eq left_link right_link (apart left left_mem)
    (nodes.apart_symm (fresh node node_mem))]
  exact .setPrev (.setNext (.setPrev (.setNext (.setNext (.setPrev .refl (Or.inl rfl))
    (Or.inl rfl)) (Or.inr (mem_of_without left_mem))) (Or.inr (mem_of_without right_mem)))
    (Or.inr node_mem)) (Or.inr node_mem)

/-- Both links of the replaced node are at `null`. -/
theorem listReplace_null (valid : nodes.Valid null) (store : Store) (old new : Node) :
    nodes.next (listReplace nodes null store old new) old = null ∧
      nodes.prev (listReplace nodes null store old new) old = null := by
  rw [listReplace]
  exact ⟨by rw [nodes.next_setPrev (Or.inl rfl), nodes.next_setNext valid],
    nodes.prev_setPrev valid⟩

end Unlink

section Pop

variable [DecidableEq Node]

theorem listEmpty_iff (cycle : nodes.Cycle store head elements) :
    listEmpty nodes store head = true ↔ elements = [] := by
  have chain := cycle.chain
  rw [listEmpty, decide_eq_true_iff]
  cases elements with
  | nil => exact ⟨fun _ => rfl, fun _ => (List.isChain_pair.mp chain).1⟩
  | cons node elements =>
      rw [List.cons_append, List.isChain_cons_cons] at chain
      rw [chain.1.1]
      refine ⟨fun same => ?_, fun empty => absurd empty (List.cons_ne_nil _ _)⟩
      exact absurd (same ▸ List.mem_cons_self) (List.nodup_cons.mp cycle.nodup).1

theorem listPopFront_nil (cycle : nodes.Cycle store head []) :
    listPopFront nodes null store head = (null, store) :=
  if_pos ((listEmpty_iff cycle).mpr rfl)

/-- The first element is the successor of the sentinel. -/
theorem listPopFront_cons (cycle : nodes.Cycle store head (node :: elements)) :
    listPopFront nodes null store head = (node, listRemove nodes null store node) := by
  have chain := cycle.chain
  rw [List.cons_append, List.isChain_cons_cons] at chain
  rw [listPopFront, if_neg (mt (listEmpty_iff cycle).mp (List.cons_ne_nil _ _)), chain.1.1]

theorem listPopBack_nil (cycle : nodes.Cycle store head []) :
    listPopBack nodes null store head = (null, store) :=
  if_pos ((listEmpty_iff cycle).mpr rfl)

/-- The last element is the predecessor of the sentinel. -/
theorem listPopBack_concat (cycle : nodes.Cycle store head (elements ++ [node])) :
    listPopBack nodes null store head = (node, listRemove nodes null store node) := by
  have chain := cycle.mirror.chain
  rw [List.reverse_concat, List.cons_append, List.isChain_cons_cons] at chain
  have last : nodes.prev store head = node := chain.1.1
  rw [listPopBack, if_neg (mt (listEmpty_iff cycle).mp (by simp)), last]

end Pop

end Operations
end ItWorksOS
