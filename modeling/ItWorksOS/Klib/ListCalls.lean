import ItWorksOS.Klib.List

/-!
# The sequences behind intrusive lists

Any number of lists share one memory. Every call of `klib/list.h` changes the sequence of one of
them, and writes links of that list and of the inserted node only.
-/

namespace ItWorksOS

/-- The calls that change a list. -/
inductive ListCall (Node : Type*)
  | init (list : Node)
  | insertAfter (node new : Node)
  | insertBefore (node new : Node)
  | insertFront (list node : Node)
  | insertBack (list node : Node)
  | remove (node : Node)
  | replace (old new : Node)
  | popFront (list : Node)
  | popBack (list : Node)

variable {Store Node : Type*}

private theorem insertIdx_append (before rest : List Node) (index : ℕ) (new : Node) :
    (before ++ rest).insertIdx (before.length + index) new =
      before ++ rest.insertIdx index new := by
  induction before with
  | nil => rw [List.length_nil, Nat.zero_add, List.nil_append, List.nil_append]
  | cons node before induction =>
      rw [List.length_cons, Nat.succ_add, List.cons_append, List.insertIdx_succ_cons, induction,
        List.cons_append]

/-- An element of a list, with its position. -/
private theorem exists_position {nodes : NodeStore Store Node} {store : Store} {head node : Node}
    {elements : List Node} (cycle : nodes.Cycle store head elements) (member : node ∈ elements) :
    ∃ before after, elements = before ++ node :: after ∧ node ∉ before ∧ node ≠ head := by
  obtain ⟨before, after, rfl⟩ := List.append_of_mem member
  have nodup := cycle.nodup
  rw [List.nodup_cons, List.nodup_append] at nodup
  refine ⟨before, after, rfl, fun earlier => ?_, fun same => nodup.1 (same ▸ member)⟩
  exact nodup.2.2.2 node earlier node List.mem_cons_self rfl

namespace ListCall

/-- The pointer that a call returns. -/
def returned (null : Node) (elements : List Node) : ListCall Node → Option Node
  | .popFront _ => some (elements.head?.getD null)
  | .popBack _ => some (elements.getLast?.getD null)
  | _ => none

/-- The node that a call inserts. -/
def inserted : ListCall Node → Option Node
  | .insertAfter _ new | .insertBefore _ new | .replace _ new => some new
  | .insertFront _ node | .insertBack _ node => some node
  | _ => none

/-- The node that a call removes or replaces. -/
def taken (elements : List Node) : ListCall Node → Option Node
  | .remove node | .replace node _ => some node
  | .popFront _ => elements.head?
  | .popBack _ => elements.getLast?
  | _ => none

/-- The call concerns the list `head`: the node that it names is linked there. -/
def On (head : Node) (elements : List Node) : ListCall Node → Prop
  | .insertAfter node _ | .insertBefore node _ => node ∈ head :: elements
  | .remove node | .replace node _ => node ∈ elements
  | .init list | .insertFront list _ | .insertBack list _ | .popFront list | .popBack list =>
      list = head

end ListCall

/-! ## Lists in memory -/

section Held

variable (nodes : NodeStore Store Node)

/-- Circular lists with their sequences, no two of which share memory. -/
structure ListsHeld (store : Store) (lists : Node → Option (List Node)) : Prop where
  cycle : ∀ {head elements}, lists head = some elements → nodes.Cycle store head elements
  disjoint : ∀ {head elements other others}, lists head = some elements →
    lists other = some others → head ≠ other →
      ∀ node ∈ head :: elements, ∀ node' ∈ other :: others, nodes.Apart node node'

/-- A node that belongs to no list. -/
structure Unlinked (lists : Node → Option (List Node)) (node : Node) : Prop where
  valid : nodes.Valid node
  apart : ∀ {head elements}, lists head = some elements →
    ∀ other ∈ head :: elements, nodes.Apart node other

/-- The documented preconditions of a call on the list `head`, which `list_init` may create. -/
structure ListCall.Allowed (lists : Node → Option (List Node)) (head : Node)
    (elements : List Node) (call : ListCall Node) : Prop where
  on : call.On head elements
  listed : lists head = some elements ∨
    call = .init head ∧ elements = [] ∧ Unlinked nodes lists head
  unlinked : ∀ new ∈ call.inserted, Unlinked nodes lists new

variable {nodes} {store : Store} {lists : Node → Option (List Node)}
  {head : Node} {elements : List Node} {call : ListCall Node}

theorem Unlinked.update [DecidableEq Node] {node : Node} (unlinked : Unlinked nodes lists node)
    (apart : ∀ other ∈ head :: elements, nodes.Apart node other) :
    Unlinked nodes (Function.update lists head (some elements)) node := by
  refine ⟨unlinked.valid, fun {other others} listed => ?_⟩
  by_cases same : other = head
  · subst same
    rw [Function.update_self, Option.some.injEq] at listed
    exact listed ▸ apart
  · rw [Function.update_of_ne same] at listed
    exact unlinked.apart listed

/-- A call touches no node of another list. -/
theorem ListCall.Allowed.apart (allowed : call.Allowed nodes lists head elements)
    (held : ListsHeld nodes store lists) {other : Node} {others : List Node}
    (listed : lists other = some others) (distinct : other ≠ head) {node touched : Node}
    (member : node ∈ other :: others)
    (touched_mem : touched ∈ call.inserted ∨ touched ∈ head :: elements) :
    nodes.Apart node touched := by
  rcases touched_mem with inserted | linked
  · exact nodes.apart_symm ((allowed.unlinked touched inserted).apart listed node member)
  · rcases allowed.listed with listed' | ⟨_, rfl, unlinked⟩
    · exact held.disjoint listed listed' distinct node member touched linked
    · obtain rfl := List.mem_singleton.mp linked
      exact nodes.apart_symm (unlinked.apart listed node member)

end Held

/-! ## Calls -/

variable [DecidableEq Node]

private theorem insertIdx_idxOf {before after : List Node} {node : Node} (absent : node ∉ before)
    (index : ℕ) (new : Node) :
    (before ++ node :: after).insertIdx ((before ++ node :: after).idxOf node + index) new =
      before ++ (node :: after).insertIdx index new := by
  have position : (before ++ node :: after).idxOf node = before.length := by
    rw [List.idxOf_append_of_notMem absent, List.idxOf_cons_self, Nat.add_zero]
  rw [position, insertIdx_append]

/-- One call, with the pointer that it returns. -/
def listCall (nodes : NodeStore Store Node) (null : Node) (store : Store) :
    ListCall Node → Option Node × Store
  | .init list => (none, listInit nodes store list)
  | .insertAfter node new => (none, listInsertAfter nodes store node new)
  | .insertBefore node new => (none, listInsertBefore nodes store node new)
  | .insertFront list node => (none, listInsertFront nodes store list node)
  | .insertBack list node => (none, listInsertBack nodes store list node)
  | .remove node => (none, listRemove nodes null store node)
  | .replace old new => (none, listReplace nodes null store old new)
  | .popFront list => (listPopFront nodes null store list).map some id
  | .popBack list => (listPopBack nodes null store list).map some id

/-- The sequence after a call on the list `head`. -/
def ListCall.seq (head : Node) (elements : List Node) : ListCall Node → List Node
  | .init _ => []
  | .insertAfter node new =>
      if node = head then new :: elements
      else elements.insertIdx (elements.idxOf node + 1) new
  | .insertBefore node new =>
      if node = head then elements ++ [new] else elements.insertIdx (elements.idxOf node) new
  | .insertFront _ node => node :: elements
  | .insertBack _ node => elements ++ [node]
  | .remove node => elements.erase node
  | .replace old new => elements.replace old new
  | .popFront _ => elements.tail
  | .popBack _ => elements.dropLast

/-- The effect of a call on its list: the sequence, the links that were written, the pointer that
was returned, and the links of the node that was taken out. -/
structure ListCall.Effect (nodes : NodeStore Store Node) (null head : Node) (elements : List Node)
    (store : Store) (result : Option Node × Store) (call : ListCall Node) : Prop where
  cycle : nodes.Cycle result.2 head (call.seq head elements)
  members : ∀ node ∈ call.seq head elements, node ∈ elements ∨ node ∈ call.inserted
  rewrites : nodes.Rewrites {node | node ∈ call.inserted ∨ node ∈ head :: elements} store result.2
  returned : result.1 = call.returned null elements
  taken : ∀ node ∈ call.taken elements,
    nodes.next result.2 node = null ∧ nodes.prev result.2 node = null

section Effect

variable {nodes : NodeStore Store Node} {store store' : Store} {head node new null : Node}
  {elements : List Node} {call : ListCall Node}

private theorem effect_of_inserted (before after : List Node) (inserted : call.inserted = some new)
    (seq_eq : call.seq head (before ++ after) = before ++ new :: after)
    (returned : call.returned null (before ++ after) = none)
    (taken : call.taken (before ++ after) = none)
    (cycle : nodes.Cycle store' head (before ++ new :: after))
    (rewrites : nodes.Rewrites {other | other = new ∨ other ∈ head :: (before ++ after)} store
      store') :
    call.Effect nodes null head (before ++ after) store (none, store') := by
  refine ⟨?_, fun other member => ?_, rewrites.mono fun other touched => ?_, returned.symm, ?_⟩
  · rw [seq_eq]
    exact cycle
  · rw [seq_eq, List.mem_append, List.mem_cons] at member
    rw [List.mem_append, inserted, Option.mem_some]
    rcases member with earlier | same | later
    · exact .inl (.inl earlier)
    · exact .inr same.symm
    · exact .inl (.inr later)
  · refine touched.imp (fun same => ?_) id
    rw [inserted, Option.mem_some]
    exact same.symm
  · rw [taken]
    exact fun other member => by cases member

private theorem effect_of_removed (before after : List Node) {result : Option Node}
    (valid : nodes.Valid null)
    (seq_eq : call.seq head (before ++ node :: after) = before ++ after)
    (returned : call.returned null (before ++ node :: after) = result)
    (taken : call.taken (before ++ node :: after) = some node)
    (cycle : nodes.Cycle store head (before ++ node :: after)) :
    call.Effect nodes null head (before ++ node :: after) store
      (result, listRemove nodes null store node) := by
  refine ⟨?_, fun other member => .inl ?_, ?_, returned.symm, ?_⟩
  · rw [seq_eq]
    exact listRemove_cycle cycle
  · rw [seq_eq, List.mem_append] at member
    rw [List.mem_append, List.mem_cons]
    exact member.imp id .inr
  · exact (listRemove_rewrites cycle).mono fun other touched => .inr touched
  · rw [taken]
    intro other member
    obtain rfl := Option.mem_some.mp member
    exact listRemove_null valid store node

theorem listInit_effect (valid : nodes.Valid head) :
    (ListCall.init head).Effect nodes null head elements store
      (none, listInit nodes store head) := by
  refine ⟨listInit_cycle valid, fun other member => ?_, ?_, rfl, fun other member => ?_⟩
  · exact absurd member List.not_mem_nil
  · exact listInit_rewrites.mono fun other same => .inr (same ▸ List.mem_cons_self)
  · cases member

theorem listInsertAfter_effect (valid : nodes.Valid new)
    (cycle : nodes.Cycle store head elements) (linked : node ∈ head :: elements)
    (apart : ∀ other ∈ head :: elements, nodes.Apart new other) :
    (ListCall.insertAfter node new).Effect nodes null head elements store
      (none, listInsertAfter nodes store node new) := by
  rcases List.mem_cons.mp linked with rfl | member
  · have front_eq : node :: [] = [] ++ [node] := rfl
    have cycle : nodes.Cycle store node ([] ++ elements) := cycle
    exact effect_of_inserted [] elements rfl (if_pos rfl) rfl rfl
      (listInsertAfter_cycle cycle front_eq apart valid)
      (listInsertAfter_rewrites cycle front_eq apart)
  · obtain ⟨before, after, rfl, absent, distinct⟩ := exists_position cycle member
    have front_eq : head :: (before ++ [node]) = (head :: before) ++ [node] := rfl
    have shape : before ++ node :: after = (before ++ [node]) ++ after := by simp
    have seq_eq : (ListCall.insertAfter node new).seq head (before ++ node :: after) =
        (before ++ [node]) ++ new :: after := by
      rw [ListCall.seq, if_neg distinct, insertIdx_idxOf absent, List.insertIdx_succ_cons,
        List.insertIdx_zero, List.append_assoc, List.singleton_append]
    rw [shape] at cycle apart seq_eq ⊢
    exact effect_of_inserted (before ++ [node]) after rfl seq_eq rfl rfl
      (listInsertAfter_cycle cycle front_eq apart valid)
      (listInsertAfter_rewrites cycle front_eq apart)

theorem listInsertBefore_effect (valid : nodes.Valid new)
    (cycle : nodes.Cycle store head elements) (linked : node ∈ head :: elements)
    (apart : ∀ other ∈ head :: elements, nodes.Apart new other) :
    (ListCall.insertBefore node new).Effect nodes null head elements store
      (none, listInsertBefore nodes store node new) := by
  rcases List.mem_cons.mp linked with rfl | member
  · rw [← List.append_nil elements] at cycle apart ⊢
    have seq_eq : (ListCall.insertBefore node new).seq node (elements ++ []) =
        elements ++ new :: [] := by
      rw [ListCall.seq, if_pos rfl, List.append_nil]
    exact effect_of_inserted elements [] rfl seq_eq rfl rfl
      (listInsertBefore_cycle cycle rfl apart valid) (listInsertBefore_rewrites cycle rfl apart)
  · obtain ⟨before, after, rfl, absent, distinct⟩ := exists_position cycle member
    have seq_eq : (ListCall.insertBefore node new).seq head (before ++ node :: after) =
        before ++ new :: (node :: after) := by
      rw [ListCall.seq, if_neg distinct]
      exact insertIdx_idxOf absent 0 new
    exact effect_of_inserted before (node :: after) rfl seq_eq rfl rfl
      (listInsertBefore_cycle cycle rfl apart valid) (listInsertBefore_rewrites cycle rfl apart)

theorem listReplace_effect (valid : nodes.Valid new) (null_valid : nodes.Valid null)
    (cycle : nodes.Cycle store head elements) (linked : node ∈ elements)
    (apart : ∀ other ∈ head :: elements, nodes.Apart new other) :
    (ListCall.replace node new).Effect nodes null head elements store
      (none, listReplace nodes null store node new) := by
  obtain ⟨before, after, rfl, absent, distinct⟩ := exists_position cycle linked
  have seq_eq : (ListCall.replace node new).seq head (before ++ node :: after) =
      before ++ new :: after := by
    rw [ListCall.seq, List.replace_append_right absent, List.replace_cons_self]
  refine ⟨?_, fun other member => ?_, ?_, rfl, fun other member => ?_⟩
  · rw [seq_eq]
    exact listReplace_cycle cycle apart valid
  · rw [seq_eq, List.mem_append, List.mem_cons] at member
    rw [List.mem_append, List.mem_cons]
    rcases member with earlier | same | later
    · exact .inl (.inl earlier)
    · exact .inr (congrArg some same.symm)
    · exact .inl (.inr (.inr later))
  · refine (listReplace_rewrites cycle apart).mono fun other touched => ?_
    exact touched.imp (fun same => congrArg some same.symm) id
  · obtain rfl := Option.mem_some.mp member
    exact listReplace_null null_valid store node new

/-- Every call but `list_init` has its effect on the list of the node that it names. -/
theorem listCall_effect (null_valid : nodes.Valid null) (on : call.On head elements)
    (cycle : nodes.Cycle store head elements)
    (fresh : ∀ new ∈ call.inserted, nodes.Valid new ∧
      ∀ other ∈ head :: elements, nodes.Apart new other) :
    call.Effect nodes null head elements store (listCall nodes null store call) := by
  cases call with
  | init list =>
      obtain rfl := on
      exact listInit_effect (cycle.valid list List.mem_cons_self)
  | insertAfter node new =>
      obtain ⟨valid, apart⟩ := fresh new rfl
      exact listInsertAfter_effect valid cycle on apart
  | insertBefore node new =>
      obtain ⟨valid, apart⟩ := fresh new rfl
      exact listInsertBefore_effect valid cycle on apart
  | insertFront list node =>
      obtain rfl := on
      obtain ⟨valid, apart⟩ := fresh node rfl
      exact effect_of_inserted [] elements rfl rfl rfl rfl
        (listInsertFront_cycle cycle apart valid) (listInsertFront_rewrites cycle apart)
  | insertBack list node =>
      obtain rfl := on
      obtain ⟨valid, apart⟩ := fresh node rfl
      rw [← List.append_nil elements] at cycle apart ⊢
      have seq_eq : (ListCall.insertBack list node).seq list (elements ++ []) =
          elements ++ node :: [] := by
        rw [ListCall.seq, List.append_nil]
      exact effect_of_inserted elements [] rfl seq_eq rfl rfl
        (listInsertBefore_cycle cycle rfl apart valid)
        (listInsertBefore_rewrites cycle rfl apart)
  | remove node =>
      obtain ⟨before, after, rfl, absent, distinct⟩ := exists_position cycle on
      have seq_eq : (ListCall.remove node).seq head (before ++ node :: after) =
          before ++ after := by
        rw [ListCall.seq, List.erase_append_right _ absent, List.erase_cons_head]
      exact effect_of_removed before after null_valid seq_eq rfl rfl cycle
  | replace old new =>
      obtain ⟨valid, apart⟩ := fresh new rfl
      exact listReplace_effect valid null_valid cycle on apart
  | popFront list =>
      obtain rfl := on
      cases elements with
      | nil =>
          rw [listCall, listPopFront_nil cycle]
          exact ⟨cycle, fun other member => .inl member, .refl, rfl,
            fun other member => by cases member⟩
      | cons node elements =>
          rw [listCall, listPopFront_cons cycle]
          exact effect_of_removed [] elements null_valid rfl rfl rfl cycle
  | popBack list =>
      obtain rfl := on
      rcases List.eq_nil_or_concat' elements with rfl | ⟨front, node, rfl⟩
      · rw [listCall, listPopBack_nil cycle]
        exact ⟨cycle, fun other member => .inl member, .refl, rfl,
          fun other member => by cases member⟩
      · rw [listCall, listPopBack_concat cycle]
        have seq_eq : (ListCall.popBack list).seq list (front ++ [node]) = front ++ [] := by
          rw [ListCall.seq, List.dropLast_concat, List.append_nil]
        refine effect_of_removed front [] null_valid seq_eq ?_ ?_ cycle
        · rw [ListCall.returned, List.getLast?_concat]
          rfl
        · rw [ListCall.taken, List.getLast?_concat]

end Effect

/-! ## Runs -/

/-- A memory and the sequences that its lists stand for. -/
structure ListSystem (Store Node : Type*) where
  store : Store
  lists : Node → Option (List Node)

/-- A call that respects its preconditions, in memory and on the sequence of its list. -/
inductive ListStep (nodes : NodeStore Store Node) (null : Node) :
    ListSystem Store Node → ListSystem Store Node → Prop
  | call {system : ListSystem Store Node} {head : Node} {elements : List Node}
      {call : ListCall Node} (allowed : call.Allowed nodes system.lists head elements) :
      ListStep nodes null system
        { store := (listCall nodes null system.store call).2
          lists := Function.update system.lists head (some (call.seq head elements)) }

section Runs

variable {nodes : NodeStore Store Node} {store : Store} {lists : Node → Option (List Node)}
  {head null : Node} {elements : List Node} {call : ListCall Node}

theorem ListCall.Allowed.effect (allowed : call.Allowed nodes lists head elements)
    (held : ListsHeld nodes store lists) (null_valid : nodes.Valid null) :
    call.Effect nodes null head elements store (listCall nodes null store call) := by
  rcases allowed.listed with listed | ⟨rfl, rfl, unlinked⟩
  · refine listCall_effect null_valid allowed.on (held.cycle listed) fun new member => ?_
    have unlinked := allowed.unlinked new member
    exact ⟨unlinked.valid, unlinked.apart listed⟩
  · exact listInit_effect unlinked.valid

/-- The links of the nodes of another list stay as they are. -/
theorem ListCall.Allowed.untouched (allowed : call.Allowed nodes lists head elements)
    (held : ListsHeld nodes store lists) (null_valid : nodes.Valid null) {other : Node}
    {others : List Node} (listed : lists other = some others) (distinct : other ≠ head)
    {node : Node} (member : node ∈ other :: others) :
    nodes.next (listCall nodes null store call).2 node = nodes.next store node ∧
      nodes.prev (listCall nodes null store call).2 node = nodes.prev store node := by
  have rewrites := (allowed.effect held null_valid).rewrites
  have apart : ∀ touched, (touched ∈ call.inserted ∨ touched ∈ head :: elements) →
      nodes.Apart node touched :=
    fun touched touched_mem => allowed.apart held listed distinct member touched_mem
  exact ⟨rewrites.next_eq apart, rewrites.prev_eq apart⟩

/-- A call keeps the lists disjoint and circular, with the new sequence of its list. -/
theorem ListCall.Allowed.held (allowed : call.Allowed nodes lists head elements)
    (held : ListsHeld nodes store lists) (null_valid : nodes.Valid null) :
    ListsHeld nodes (listCall nodes null store call).2
      (Function.update lists head (some (call.seq head elements))) := by
  have effect := allowed.effect held null_valid
  have touched {node : Node} (member : node ∈ head :: call.seq head elements) :
      node ∈ call.inserted ∨ node ∈ head :: elements := by
    rcases List.mem_cons.mp member with rfl | member
    · exact .inr List.mem_cons_self
    · exact (effect.members node member).symm.imp id (List.mem_cons_of_mem head)
  constructor
  · intro other others listed
    by_cases same : other = head
    · subst same
      rw [Function.update_self, Option.some.injEq] at listed
      exact listed ▸ effect.cycle
    · rw [Function.update_of_ne same] at listed
      exact (held.cycle listed).congr
        (fun node member => (allowed.untouched held null_valid listed same member).1)
        fun node member => (allowed.untouched held null_valid listed same member).2
  · intro left lefts right rights left_listed right_listed distinct node member node' member'
    by_cases left_eq : left = head
    · subst left_eq
      rw [Function.update_self, Option.some.injEq] at left_listed
      rw [Function.update_of_ne (Ne.symm distinct)] at right_listed
      exact nodes.apart_symm (allowed.apart held right_listed (Ne.symm distinct) member'
        (touched (left_listed ▸ member)))
    · rw [Function.update_of_ne left_eq] at left_listed
      by_cases right_eq : right = head
      · subst right_eq
        rw [Function.update_self, Option.some.injEq] at right_listed
        exact allowed.apart held left_listed left_eq member (touched (right_listed ▸ member'))
      · rw [Function.update_of_ne right_eq] at right_listed
        exact held.disjoint left_listed right_listed distinct node member node' member'

/-- In every run the lists are held. -/
theorem ListsHeld.run {system system' : ListSystem Store Node}
    (held : ListsHeld nodes system.store system.lists) (null_valid : nodes.Valid null)
    (steps : Relation.ReflTransGen (ListStep nodes null) system system') :
    ListsHeld nodes system'.store system'.lists := by
  induction steps with
  | refl => exact held
  | tail _ step induction =>
      obtain ⟨allowed⟩ := step
      exact allowed.held induction null_valid

end Runs

/-! ## Traversal -/

section Traversal

variable (nodes : NodeStore Store Node)

/-- The nodes that `list_for_each` visits. -/
def listForEach (fuel : ℕ) (store : Store) (list : Node) : Option (List Node) :=
  NodeStore.follow (nodes.next store) list fuel (nodes.next store list)

/-- `list_for_each_safe` with `node` and `next` set: the nodes visited, and the memory behind it. -/
def listForEachSafeFrom (body : Store → Node → Store) (list : Node) :
    ℕ → Store → Node → Node → Option (List Node × Store)
  | 0, _, _, _ => none
  | fuel + 1, store, node, next =>
      if node = list then some ([], store)
      else
        (listForEachSafeFrom body list fuel (body store node) next
          (nodes.next (body store node) next)).map fun result => (node :: result.1, result.2)

/-- `list_for_each_safe`. -/
def listForEachSafe (body : Store → Node → Store) (fuel : ℕ) (store : Store) (list : Node) :
    Option (List Node × Store) :=
  listForEachSafeFrom nodes body list fuel store (nodes.next store list)
    (nodes.next store (nodes.next store list))

/-- A loop body that removes the current node or not, as it chooses. -/
def bodyRemoving (null : Node) (chosen : Store → Node → Bool) (store : Store) (node : Node) :
    Store :=
  if chosen store node then listRemove nodes null store node else store

/-- A loop body that may change the lists within an invariant, but removes at most the current node
from the list of the loop. -/
structure SafeBody (list : Node) (Kept : Store → (Node → Option (List Node)) → Prop)
    (body : Store → Node → Store) : Prop where
  held : ∀ {store lists}, Kept store lists → ListsHeld nodes store lists
  keeps : ∀ {store lists elements node}, Kept store lists → lists list = some elements →
    node ∈ elements → ∃ lists', Kept (body store node) lists' ∧
      (lists' list = some elements ∨ lists' list = some (elements.erase node))

variable {nodes} {list : Node} {Kept : Store → (Node → Option (List Node)) → Prop}
  {body : Store → Node → Store}

/-- From a position on, the loop visits the elements that were behind it. -/
theorem listForEachSafeFrom_visits (safe : SafeBody nodes list Kept body) {passed rest : List Node}
    {fuel : ℕ} {store : Store} {lists : Node → Option (List Node)} (kept : Kept store lists)
    (listed : lists list = some (passed ++ rest)) (enough : rest.length < fuel) :
    ∃ store' lists', Kept store' lists' ∧
      listForEachSafeFrom nodes body list fuel store (rest.headD list)
        (nodes.next store (rest.headD list)) = some (rest, store') := by
  induction rest generalizing passed fuel store lists with
  | nil =>
      obtain ⟨fuel, rfl⟩ := Nat.exists_eq_add_of_lt enough
      exact ⟨store, lists, kept, if_pos rfl⟩
  | cons node rest induction =>
      obtain ⟨fuel, rfl⟩ := Nat.exists_eq_add_of_lt enough
      have cycle := (safe.held kept).cycle listed
      have nodup := cycle.nodup
      have distinct : node ≠ list := by
        rintro rfl
        simp at nodup
      have absent : node ∉ passed := by
        intro earlier
        rw [List.nodup_cons, List.nodup_append] at nodup
        exact nodup.2.2.2 node earlier node List.mem_cons_self rfl
      have member : node ∈ passed ++ node :: rest := by simp
      have fueled : rest.length < (node :: rest).length + fuel := by
        rw [List.length_cons]
        omega
      have next_eq := cycle.next_eq
      obtain ⟨lists', kept', removed⟩ := safe.keeps kept listed member
      have later : ∃ passed', lists' list = some (passed' ++ rest) := by
        rcases removed with same | removed
        · exact ⟨passed ++ [node], by rw [same]; simp⟩
        · refine ⟨passed, ?_⟩
          rw [removed, List.erase_append_right _ absent, List.erase_cons_head]
      obtain ⟨passed', listed'⟩ := later
      obtain ⟨store', lists', kept', visited⟩ := induction kept' listed' fueled
      refine ⟨store', lists', kept', ?_⟩
      rw [List.headD_cons, listForEachSafeFrom, if_neg distinct, next_eq, visited, Option.map_some]

/-- The loop visits the elements that are present at the start, each once. -/
theorem listForEachSafe_visits (safe : SafeBody nodes list Kept body) {elements : List Node}
    {store : Store} {lists : Node → Option (List Node)} (kept : Kept store lists)
    (listed : lists list = some elements) {fuel : ℕ} (enough : elements.length < fuel) :
    ∃ store', listForEachSafe nodes body fuel store list = some (elements, store') := by
  have first : nodes.next store list = elements.headD list := by
    have chain := ((safe.held kept).cycle listed).chain
    cases elements with
    | nil => exact (List.isChain_pair.mp chain).1
    | cons node elements => exact (List.isChain_cons_cons.mp chain).1.1
  have listed' : lists list = some ([] ++ elements) := listed
  obtain ⟨store', _, _, visited⟩ := listForEachSafeFrom_visits safe kept listed' enough
  rw [listForEachSafe, first]
  exact ⟨store', visited⟩

theorem safeBody_removing {null : Node} (null_valid : nodes.Valid null)
    (chosen : Store → Node → Bool) :
    SafeBody nodes list (fun store lists => ListsHeld nodes store lists ∧ (lists list).isSome)
      (bodyRemoving nodes null chosen) := by
  refine ⟨And.left, fun {store lists elements node} kept listed member => ?_⟩
  obtain ⟨held, present⟩ := kept
  by_cases choice : chosen store node = true
  · have allowed : (ListCall.remove node).Allowed nodes lists list elements :=
      ⟨member, .inl listed, fun new inserted => by cases inserted⟩
    have removed := allowed.held held null_valid
    refine ⟨Function.update lists list (some (elements.erase node)), ⟨?_, ?_⟩,
      .inr (Function.update_self ..)⟩
    · rw [bodyRemoving, if_pos choice]
      exact removed
    · rw [Function.update_self]
      rfl
  · rw [bodyRemoving, if_neg choice]
    exact ⟨lists, ⟨held, present⟩, .inl listed⟩

/-- What a list shows to its users: its sequence from both ends, and to a loop that may remove the
current node, whether the body only does that or has an invariant of its own. -/
structure ListShown (nodes : NodeStore Store Node) (null : Node) (system : ListSystem Store Node)
    (head : Node) (elements : List Node) : Prop where
  nodup : (head :: elements).Nodup
  forward : ∀ fuel, elements.length < fuel →
    listForEach nodes fuel system.store head = some elements
  backward : ∀ fuel, elements.length < fuel →
    NodeStore.follow (nodes.prev system.store) head fuel (nodes.prev system.store head) =
      some elements.reverse
  removing : ∀ chosen fuel, elements.length < fuel →
    ∃ store', listForEachSafe nodes (bodyRemoving nodes null chosen) fuel system.store head =
      some (elements, store')
  safe : ∀ Kept body, SafeBody nodes head Kept body → Kept system.store system.lists →
    ∀ fuel, elements.length < fuel →
      ∃ store', listForEachSafe nodes body fuel system.store head = some (elements, store')

/-- What a call does besides changing the sequence of its list. -/
structure ListCall.Refines (nodes : NodeStore Store Node) (null : Node)
    (system : ListSystem Store Node) (head : Node) (elements : List Node) (call : ListCall Node) :
    Prop where
  returned : (listCall nodes null system.store call).1 = call.returned null elements
  untouched : ∀ other others, system.lists other = some others → other ≠ head →
    ∀ node ∈ other :: others,
      nodes.next (listCall nodes null system.store call).2 node = nodes.next system.store node ∧
        nodes.prev (listCall nodes null system.store call).2 node = nodes.prev system.store node
  taken : ∀ node ∈ call.taken elements,
    nodes.next (listCall nodes null system.store call).2 node = null ∧
      nodes.prev (listCall nodes null system.store call).2 node = null

theorem ListsHeld.shown {system : ListSystem Store Node}
    (held : ListsHeld nodes system.store system.lists) {null : Node} (null_valid : nodes.Valid null)
    {head : Node} {elements : List Node} (listed : system.lists head = some elements) :
    ListShown nodes null system head elements where
  nodup := (held.cycle listed).nodup
  forward _ enough := (held.cycle listed).follow_next enough
  backward _ enough := (held.cycle listed).follow_prev enough
  removing chosen _ enough :=
    listForEachSafe_visits (safeBody_removing null_valid chosen)
      ⟨held, listed ▸ rfl⟩ listed enough
  safe _ _ safe kept _ enough := listForEachSafe_visits safe kept listed enough

end Traversal

/-- In every run of calls on disjoint lists, each list shows its sequence, and each call returns
what it returns on the sequence, leaves the other lists alone and unlinks the node it takes out. -/
theorem listCalls_refine_of_run {memory : ByteMemory} {lists : ℕ → Option (List ℕ)}
    (held : ListsHeld wordNodes memory lists) {system : ListSystem ByteMemory ℕ}
    (steps : Relation.ReflTransGen (ListStep wordNodes 0) ⟨memory, lists⟩ system) :
    (∀ head elements, system.lists head = some elements →
      ListShown wordNodes 0 system head elements) ∧
    ∀ call head elements, ListCall.Allowed wordNodes system.lists head elements call →
      call.Refines wordNodes 0 system head elements := by
  have null_valid : wordNodes.Valid 0 := Nat.two_pow_pos 32
  have held' : ListsHeld wordNodes system.store system.lists := held.run null_valid steps
  constructor
  · exact fun head elements listed => held'.shown null_valid listed
  · intro call head elements allowed
    have effect := allowed.effect held' null_valid
    exact ⟨effect.returned, fun other others listed distinct node member =>
      allowed.untouched held' null_valid listed distinct member, effect.taken⟩

/-- Two lists grow in one memory. Taking the first node from one of them leaves the other alone. -/
theorem listCalls_refine_of_run_two :
    ∃ system, Relation.ReflTransGen (ListStep wordNodes 0) ⟨fun _ => 0, fun _ => none⟩ system ∧
      ListShown wordNodes 0 system 4096 [4112, 4128] ∧ ListShown wordNodes 0 system 8192 [8208] ∧
      (ListCall.popFront 4096).Refines wordNodes 0 system 4096 [4112, 4128] := by
  have held : ListsHeld wordNodes (fun _ => 0) fun _ => none :=
    ⟨fun listed => (by cases listed), fun listed => (by cases listed)⟩
  have unlinked {node : ℕ} (valid : node < 2 ^ 32) : Unlinked wordNodes (fun _ => none) node :=
    ⟨valid, fun listed => (by cases listed)⟩
  have unlinked_update {lists : ℕ → Option (List ℕ)} {node head : ℕ} {elements : List ℕ}
      (unlinked : Unlinked wordNodes lists node)
      (apart : ∀ other ∈ head :: elements, node + 8 ≤ other ∨ other + 8 ≤ node) :
      Unlinked wordNodes (Function.update lists head (some elements)) node := unlinked.update apart
  have init {system : ListSystem ByteMemory ℕ} {head : ℕ}
      (unlinked : Unlinked wordNodes system.lists head) : ∃ next, ListStep wordNodes 0 system next ∧
        next.lists = Function.update system.lists head (some []) :=
    ⟨_, .call (show (ListCall.init head).Allowed wordNodes system.lists head [] from
      ⟨rfl, .inr ⟨rfl, rfl, unlinked⟩, nofun⟩), rfl⟩
  have insertBack {system : ListSystem ByteMemory ℕ} {head node : ℕ} {elements : List ℕ}
      (listed : system.lists head = some elements)
      (unlinked : Unlinked wordNodes system.lists node) :
      ∃ next, ListStep wordNodes 0 system next ∧
        next.lists = Function.update system.lists head (some (elements ++ [node])) :=
    ⟨_, .call
      (show (ListCall.insertBack head node).Allowed wordNodes system.lists head elements from
        ⟨rfl, .inl listed, fun new member => Option.mem_some.mp member ▸ unlinked⟩), rfl⟩
  obtain ⟨one, step₁, lists₁⟩ := @init ⟨fun _ => 0, fun _ => none⟩ 4096 (unlinked (by decide))
  obtain ⟨two, step₂, lists₂⟩ := @init one 8192
    (lists₁ ▸ unlinked_update (unlinked (by decide)) (by decide))
  rw [lists₁] at lists₂
  obtain ⟨three, step₃, lists₃⟩ := @insertBack two 4096 4112 [] (by rw [lists₂]; rfl)
    (lists₂ ▸ unlinked_update (unlinked_update (unlinked (by decide)) (by decide)) (by decide))
  rw [lists₂] at lists₃
  obtain ⟨four, step₄, lists₄⟩ := @insertBack three 8192 8208 [] (by rw [lists₃]; rfl)
    (lists₃ ▸ unlinked_update (unlinked_update (unlinked_update (unlinked (by decide))
      (by decide)) (by decide)) (by decide))
  rw [lists₃] at lists₄
  obtain ⟨five, step₅, lists₅⟩ := @insertBack four 4096 4128 [4112] (by rw [lists₄]; rfl)
    (lists₄ ▸ unlinked_update (unlinked_update (unlinked_update (unlinked_update
      (unlinked (by decide)) (by decide)) (by decide)) (by decide)) (by decide))
  rw [lists₄] at lists₅
  have steps := ((((Relation.ReflTransGen.single step₁).tail step₂).tail step₃).tail step₄).tail
    step₅
  have first : five.lists 4096 = some [4112, 4128] := by rw [lists₅]; rfl
  have second : five.lists 8192 = some [8208] := by rw [lists₅]; rfl
  obtain ⟨shown, refines⟩ := listCalls_refine_of_run held steps
  exact ⟨five, steps, shown 4096 _ first, shown 8192 _ second,
    refines (.popFront 4096) 4096 _ ⟨rfl, .inl first, nofun⟩⟩

end ItWorksOS
