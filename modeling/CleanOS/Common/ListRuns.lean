import CleanOS.Common.List
import CleanOS.Lib.Calls
import CleanOS.Lib.FieldMemory

/-!
# Any number of intrusive lists

`init_list` makes the lists, and the operations of `common/lib/list.c` are called on them in any
order.  `remove` unlinks a node by its own pointers also where it did not find it in the list.
-/

namespace CleanOS.Common

open CleanOS.Lib

/-- What list pointers point to: the two sentinels of a list, or a node that is queued. -/
inductive Cell (ι ν : Type) where
  | head (list : ι)
  | tail (list : ι)
  | node (node : ν)
  deriving DecidableEq

/-- The memory of all cells, and the size fields of the lists. -/
structure Lists (ι ν : Type) where
  memory : FieldMemory (Cell ι ν)
  size : ι → Int

/-- What an operation returns. -/
inductive ListAnswer (ι ν : Type) where
  | nothing
  | node (found : Option (Cell ι ν))
  | position (index : Int)

/-- The operations, each on one of the lists. -/
inductive ListOp (ι ν : Type) where
  | pushl (list : ι) (node : ν)
  | pushr (list : ι) (node : ν)
  | add (list : ι) (index : Int) (node : ν)
  | popl (list : ι)
  | popr (list : ι)
  | removeAt (list : ι) (index : Int)
  | remove (list : ι) (node : ν)

variable {ι ν : Type}

namespace ListOp

def list : ListOp ι ν → ι
  | .pushl list _ | .pushr list _ | .add list _ _ | .popl list | .popr list => list
  | .removeAt list _ | .remove list _ => list

def inserted : ListOp ι ν → Option ν
  | .pushl _ node | .pushr _ node | .add _ _ node => some node
  | .popl _ | .popr _ | .removeAt _ _ | .remove _ _ => none

variable [DecidableEq ν]

def apply (nodes : List ν) : ListOp ι ν → List ν
  | .pushl _ node => node :: nodes
  | .pushr _ node => nodes ++ [node]
  | .add _ index node => nodes.take index.toNat ++ node :: nodes.drop index.toNat
  | .popl _ => nodes.tail
  | .popr _ => nodes.dropLast
  | .removeAt _ index => if index < 0 then nodes else nodes.eraseIdx index.toNat
  | .remove _ node => nodes.erase node

def answer (nodes : List ν) : ListOp ι ν → ListAnswer ι ν
  | .pushl _ _ | .pushr _ _ | .remove _ _ => .nothing
  | .add _ index _ => .position (min index.toNat nodes.length : Nat)
  | .popl _ => .node (nodes.head?.map .node)
  | .popr _ => .node (nodes.getLast?.map .node)
  | .removeAt _ index => .node (if index < 0 then none else nodes[index.toNat]?.map .node)

variable {op : ListOp ι ν} {nodes : List ν}

theorem mem_apply {member : ν} (among : member ∈ op.apply nodes) :
    op.inserted = some member ∨ member ∈ nodes := by
  cases op with
  | pushl list node =>
      rcases List.mem_cons.mp among with rfl | later
      · exact .inl rfl
      · exact .inr later
  | pushr list node =>
      rcases List.mem_append.mp among with earlier | isNode
      · exact .inr earlier
      · rw [List.mem_singleton.mp isNode]
        exact .inl rfl
  | add list index node =>
      rcases List.mem_append.mp among with earlier | later
      · exact .inr (List.mem_of_mem_take earlier)
      · rcases List.mem_cons.mp later with rfl | later
        · exact .inl rfl
        · exact .inr (List.mem_of_mem_drop later)
  | popl list => exact .inr (List.mem_of_mem_tail among)
  | popr list => exact .inr (List.dropLast_subset _ among)
  | removeAt list index =>
      rw [apply] at among
      split at among
      · exact .inr among
      · exact .inr (List.mem_of_mem_eraseIdx among)
  | remove list node => exact .inr (List.mem_of_mem_erase among)

theorem length_apply : (op.apply nodes).length ≤ nodes.length + 1 := by
  cases op with
  | pushl list node => exact Nat.le_refl _
  | pushr list node => rw [apply, List.length_append, List.length_singleton]
  | add list index node =>
      rw [apply, List.length_append, List.length_cons, List.length_take, List.length_drop]
      omega
  | popl list =>
      rw [apply, List.length_tail]
      omega
  | popr list =>
      rw [apply, List.length_dropLast]
      omega
  | removeAt list index =>
      rw [apply]
      split
      · exact Nat.le_succ _
      · have shorter := (List.eraseIdx_sublist nodes index.toNat).length_le
        omega
  | remove list node =>
      have shorter := (List.erase_sublist (a := node) (l := nodes)).length_le
      exact Nat.le_succ_of_le shorter

variable [DecidableEq ι]

def call (fuel : Nat) (memory : FieldMemory (Cell ι ν)) (l : KernelList (Cell ι ν)) :
    ListOp ι ν → Option (ListAnswer ι ν × FieldMemory (Cell ι ν) × KernelList (Cell ι ν))
  | .pushl _ node => (l.pushl memory (.node node)).map fun after => (.nothing, after)
  | .pushr _ node => (l.pushr memory (.node node)).map fun after => (.nothing, after)
  | .add _ index node => (l.add memory index (.node node)).map fun (memory, l, index) =>
      (.position index, memory, l)
  | .popl _ => (l.popl memory).map fun (memory, l, node) => (.node node, memory, l)
  | .popr _ => (l.popr memory).map fun (memory, l, node) => (.node node, memory, l)
  | .removeAt _ index => (l.removeAt memory index).map fun (memory, l, node) =>
      (.node node, memory, l)
  | .remove _ node => (l.remove fuel memory (.node node)).map fun after => (.nothing, after)

end ListOp

namespace Lists

variable [DecidableEq ι] [DecidableEq ν]

def list (lists : Lists ι ν) (list : ι) : KernelList (Cell ι ν) where
  head := .head list
  tail := .tail list
  size := lists.size list

def update (lists : Lists ι ν) (list : ι) (memory : FieldMemory (Cell ι ν))
    (l : KernelList (Cell ι ν)) : Lists ι ν where
  memory := memory
  size := Function.update lists.size list l.size

/-- `init_list` on one of the lists. -/
def init (lists : Lists ι ν) (list : ι) : Lists ι ν :=
  let (memory, l) := (lists.list list).initList lists.memory
  lists.update list memory l

end Lists

/-- The lists, and beside them the sequences that they are meant to be. -/
structure ListRun (ι ν : Type) where
  lists : Lists ι ν
  contents : ι → List ν

namespace ListRun

variable [DecidableEq ι] [DecidableEq ν]

def call (fuel : Nat) (run : ListRun ι ν) (op : ListOp ι ν) :
    Option (ListAnswer ι ν × ListRun ι ν) := do
  let (answer, memory, l) ← op.call fuel run.lists.memory (run.lists.list op.list)
  let contents := Function.update run.contents op.list (op.apply (run.contents op.list))
  return (answer, ⟨run.lists.update op.list memory l, contents⟩)

def Faithful (run : ListRun ι ν) : Prop :=
  ∀ list, (run.lists.list list).Holds run.lists.memory ((run.contents list).map .node)

def Answers (run : ListRun ι ν) (op : ListOp ι ν) (answer : ListAnswer ι ν) (_ : ListRun ι ν) :
    Prop :=
  answer = op.answer (run.contents op.list)

def Fresh (run : ListRun ι ν) (op : ListOp ι ν) : Prop :=
  ∀ node ∈ op.inserted, ∀ list, node ∉ run.contents list

/-- The pointers of a node are null, or the lists do not change where its neighbours are linked
to each other. -/
def Harmless (run : ListRun ι ν) (node : ν) : Prop :=
  ∀ before after, run.lists.memory.pre (.node node) = some before →
    run.lists.memory.next (.node node) = some after →
    ∀ list, (before ∈ .head list :: (run.contents list).map .node →
        run.lists.memory.next before = some after) ∧
      (after ∈ (run.contents list).map .node ++ [.tail list] →
        run.lists.memory.pre after = some before)

def RemovesMember (run : ListRun ι ν) : ListOp ι ν → Prop
  | .remove list node => node ∈ run.contents list ∨ run.Harmless node
  | _ => True

def Disjoint (run : ListRun ι ν) : Prop :=
  ∀ list other, list ≠ other → ∀ node ∈ run.contents list, node ∉ run.contents other

def Outside (run : ListRun ι ν) (list : ι) (cell : Cell ι ν) : Prop :=
  ∀ other, other ≠ list →
    cell ∉ (run.lists.list other).span ((run.contents other).map .node)

variable {run : ListRun ι ν} {op : ListOp ι ν} {list : ι} {node : ν} {nodes : List ν}
  {fuel : Nat}

omit [DecidableEq ι] [DecidableEq ν] in
theorem node_mem_map : Cell.node node ∈ nodes.map (Cell.node : ν → Cell ι ν) ↔ node ∈ nodes :=
  List.mem_map_of_injective fun _ _ same => Cell.node.inj same

omit [DecidableEq ι] [DecidableEq ν] in
theorem outside_of_touches
    (apart : ∀ member, member = node ∨ member ∈ nodes →
      ∀ other, other ≠ list → member ∉ run.contents other)
    (cell : Cell ι ν)
    (touched : (run.lists.list list).Touches (nodes.map .node) (.node node) cell) :
    run.Outside list cell := by
  intro other different member
  rw [KernelList.mem_span] at member
  have notNode : ∀ named, named = node ∨ named ∈ nodes → cell ≠ .node named := by
    rintro named among rfl
    rcases member with isHead | inOther | isTail
    · cases isHead
    · exact apart named among other different (node_mem_map.mp inOther)
    · cases isTail
  rcases touched with isNode | inSpan
  · exact notNode node (.inl rfl) isNode
  rw [KernelList.mem_span] at inSpan
  rcases inSpan with rfl | inList | rfl
  · rcases member with isHead | inOther | isTail
    · exact different (Cell.head.inj isHead).symm
    · obtain ⟨_, _, isHead⟩ := List.mem_map.mp inOther
      cases isHead
    · cases isTail
  · obtain ⟨named, among, isNode⟩ := List.mem_map.mp inList
    exact notNode named (.inr among) isNode.symm
  · rcases member with isHead | inOther | isTail
    · cases isHead
    · obtain ⟨_, _, isTail⟩ := List.mem_map.mp inOther
      cases isTail
    · exact different (Cell.tail.inj isTail).symm

theorem Faithful.update (faithful : run.Faithful) {memory : FieldMemory (Cell ι ν)} {size : Int}
    (holds : KernelList.Holds memory { run.lists.list list with size } (nodes.map .node))
    (writes : LinkMemory.Writes (run.Outside list) run.lists.memory memory) :
    Faithful ⟨run.lists.update list memory { run.lists.list list with size },
      Function.update run.contents list nodes⟩ := by
  intro other
  show KernelList.Holds memory ⟨.head other, .tail other,
    Function.update run.lists.size list size other⟩
    ((Function.update run.contents list nodes other).map .node)
  by_cases same : other = list
  · subst same
    rw [Function.update_self, Function.update_self]
    exact holds
  · rw [Function.update_of_ne same, Function.update_of_ne same]
    refine (faithful other).frame writes ?_
    intro cell member written isOutside equal
    subst equal
    exact isOutside other same member

theorem Disjoint.call (disjoint : run.Disjoint) (fresh : run.Fresh op) {lists : Lists ι ν} :
    Disjoint ⟨lists, Function.update run.contents op.list (op.apply (run.contents op.list))⟩ := by
  have apart : ∀ member ∈ op.apply (run.contents op.list), ∀ other, other ≠ op.list →
      member ∉ run.contents other := by
    intro member among other different
    rcases ListOp.mem_apply among with isInserted | inList
    · exact fresh member isInserted other
    · exact disjoint op.list other (Ne.symm different) member inList
  intro first second different member inFirst inSecond
  dsimp only at inFirst inSecond
  by_cases isFirst : first = op.list
  · subst isFirst
    rw [Function.update_self] at inFirst
    rw [Function.update_of_ne (Ne.symm different)] at inSecond
    exact apart member inFirst second (Ne.symm different) inSecond
  · rw [Function.update_of_ne isFirst] at inFirst
    by_cases isSecond : second = op.list
    · subst isSecond
      rw [Function.update_self] at inSecond
      exact apart member inSecond first isFirst inFirst
    · rw [Function.update_of_ne isSecond] at inSecond
      exact disjoint first second different member inFirst inSecond

omit [DecidableEq ι] [DecidableEq ν] in
theorem Disjoint.apart (disjoint : run.Disjoint) (fresh : ∀ list, node ∉ run.contents list) :
    ∀ member, member = node ∨ member ∈ run.contents list →
      ∀ other, other ≠ list → member ∉ run.contents other := by
  rintro member (rfl | inList) other different
  · exact fresh other
  · exact disjoint list other (Ne.symm different) member inList

theorem fresh_span (outside : node ∉ nodes) :
    ∀ other ∈ (run.lists.list list).span (nodes.map .node),
      LinkMemory.Apart (FieldMemory (Cell ι ν)) (.node node) other := by
  rintro other member rfl
  rw [KernelList.mem_span] at member
  rcases member with isHead | inList | isTail
  · cases isHead
  · exact outside (node_mem_map.mp inList)
  · cases isTail

theorem call_eq {answer : ListAnswer ι ν} {memory : FieldMemory (Cell ι ν)}
    {l : KernelList (Cell ι ν)}
    (called : op.call fuel run.lists.memory (run.lists.list op.list) = some (answer, memory, l)) :
    run.call fuel op = some (answer, ⟨run.lists.update op.list memory l,
      Function.update run.contents op.list (op.apply (run.contents op.list))⟩) := by
  rw [ListRun.call, called]
  rfl

def CallRight (fuel : Nat) (run : ListRun ι ν) (op : ListOp ι ν) : Prop :=
  ∃ answer after, run.call fuel op = some (answer, after) ∧ run.Answers op answer after ∧
    after.Faithful

theorem pushl_right (faithful : run.Faithful) (disjoint : run.Disjoint)
    (fresh : ∀ list, node ∉ run.contents list) : run.CallRight fuel (.pushl list node) := by
  obtain ⟨memory, pushed, holds, writes⟩ :=
    KernelList.pushl_holds (faithful list) (fresh_span (fresh list))
  refine ⟨_, _, call_eq (congrArg (Option.map _) pushed), rfl, ?_⟩
  exact faithful.update holds (writes.mono (outside_of_touches (disjoint.apart fresh)))

theorem pushr_right (faithful : run.Faithful) (disjoint : run.Disjoint)
    (fresh : ∀ list, node ∉ run.contents list) : run.CallRight fuel (.pushr list node) := by
  obtain ⟨memory, pushed, holds, writes⟩ :=
    KernelList.pushr_holds (faithful list) (fresh_span (fresh list))
  have isMap : (run.contents list).map .node ++ [.node node] =
      (run.contents list ++ [node]).map (Cell.node : ν → Cell ι ν) := by
    rw [List.map_append, List.map_singleton]
  rw [isMap] at holds
  refine ⟨_, _, call_eq (congrArg (Option.map _) pushed), rfl, ?_⟩
  exact faithful.update holds (writes.mono (outside_of_touches (disjoint.apart fresh)))

theorem add_right (faithful : run.Faithful) (disjoint : run.Disjoint) {index : Int}
    (fresh : ∀ list, node ∉ run.contents list) : run.CallRight fuel (.add list index node) := by
  obtain ⟨memory, added, holds, writes⟩ :=
    KernelList.add_holds (faithful list) index (fresh_span (fresh list))
  rw [← List.map_take, ← List.map_drop, ← List.map_cons, ← List.map_append] at holds
  rw [List.length_map] at added
  refine ⟨_, _, call_eq (congrArg (Option.map _) added), rfl, ?_⟩
  exact faithful.update holds (writes.mono (outside_of_touches (disjoint.apart fresh)))

theorem Disjoint.removal (disjoint : run.Disjoint) {memory after : FieldMemory (Cell ι ν)}
    (split : ∀ member, member = node ∨ member ∈ nodes → member ∈ run.contents list)
    (writes : LinkMemory.Writes
      ((run.lists.list list).Touches (nodes.map .node) (.node node)) memory after) :
    LinkMemory.Writes (run.Outside list) memory after := by
  refine writes.mono (outside_of_touches ?_)
  intro member among other different
  exact disjoint list other (Ne.symm different) member (split member among)

theorem popl_right (faithful : run.Faithful) (disjoint : run.Disjoint) :
    run.CallRight fuel (.popl list) := by
  have holds := faithful list
  cases split : run.contents list with
  | nil =>
      rw [split] at holds
      have called := KernelList.popl_empty holds
      have isAnswer : ListOp.answer (run.contents list) (.popl list) = .node none := by
        rw [split]
        rfl
      refine ⟨_, _, call_eq (congrArg (Option.map _) called), isAnswer.symm,
        faithful.update ?_ (.refl _)⟩
      show KernelList.Holds _ _ ((run.contents list).tail.map Cell.node)
      rw [split]
      exact holds
  | cons first rest =>
      rw [split, List.map_cons] at holds
      obtain ⟨memory, called, holds, writes, -⟩ := KernelList.popl_holds holds
      have isAnswer : ListOp.answer (run.contents list) (.popl list) =
          .node (some (.node first)) := by
        rw [split]
        rfl
      have members : ∀ member, member = first ∨ member ∈ rest → member ∈ run.contents list := by
        intro member among
        rw [split]
        exact List.mem_cons.mpr among
      refine ⟨_, _, call_eq (congrArg (Option.map _) called), isAnswer.symm,
        faithful.update ?_ (disjoint.removal members writes)⟩
      show KernelList.Holds _ _ ((run.contents list).tail.map Cell.node)
      rw [split]
      exact holds

theorem popr_right (faithful : run.Faithful) (disjoint : run.Disjoint) :
    run.CallRight fuel (.popr list) := by
  have holds := faithful list
  rcases List.eq_nil_or_concat' (run.contents list) with split | ⟨front, last, split⟩
  · rw [split] at holds
    have called := KernelList.popr_empty holds
    have isAnswer : ListOp.answer (run.contents list) (.popr list) = .node none := by
      rw [split]
      rfl
    refine ⟨_, _, call_eq (congrArg (Option.map _) called), isAnswer.symm,
      faithful.update ?_ (.refl _)⟩
    show KernelList.Holds _ _ ((run.contents list).dropLast.map Cell.node)
    rw [split]
    exact holds
  · rw [split, List.map_append, List.map_singleton] at holds
    obtain ⟨memory, called, holds, writes⟩ := KernelList.popr_holds holds
    have isAnswer : ListOp.answer (run.contents list) (.popr list) =
        .node (some (.node last)) := by
      rw [split, ListOp.answer, List.getLast?_concat]
      rfl
    have members : ∀ member, member = last ∨ member ∈ front → member ∈ run.contents list := by
      intro member among
      rw [split, List.mem_append, List.mem_singleton]
      exact among.symm
    refine ⟨_, _, call_eq (congrArg (Option.map _) called), isAnswer.symm,
      faithful.update ?_ (disjoint.removal members writes)⟩
    show KernelList.Holds _ _ ((run.contents list).dropLast.map Cell.node)
    rw [split, List.dropLast_concat]
    exact holds

theorem removeAt_right (faithful : run.Faithful) (disjoint : run.Disjoint) (index : Int) :
    run.CallRight fuel (.removeAt list index) := by
  have holds := faithful list
  by_cases outside : index < 0 ∨ ((run.contents list).length : Int) ≤ index
  · have called : KernelList.removeAt run.lists.memory (run.lists.list list) index = _ :=
      KernelList.removeAt_outside holds (by rwa [List.length_map])
    have isAnswer : ListOp.answer (run.contents list) (.removeAt list index) = .node none := by
      rw [ListOp.answer]
      split
      · rfl
      · rw [List.getElem?_eq_none (by omega)]
        rfl
    have isSame : ListOp.apply (run.contents list) (.removeAt list index) =
        run.contents list := by
      rw [ListOp.apply]
      split
      · rfl
      · exact List.eraseIdx_of_length_le (by omega)
    refine ⟨_, _, call_eq (congrArg (Option.map _) called), isAnswer.symm,
      faithful.update ?_ (.refl _)⟩
    show KernelList.Holds _ _ ((ListOp.apply (run.contents list) (.removeAt list index)).map _)
    rw [isSame]
    exact holds
  · have inside : index.toNat < (run.contents list).length := by omega
    have notNegative : ¬ index < 0 := by omega
    obtain ⟨node, isNode⟩ : ∃ node, (run.contents list)[index.toNat] = node := ⟨_, rfl⟩
    have split : (run.contents list).take index.toNat ++ node ::
        (run.contents list).drop (index.toNat + 1) = run.contents list := by
      rw [← isNode, ← List.drop_eq_getElem_cons inside, List.take_append_drop]
    have length : (((run.contents list).take index.toNat).map (Cell.node : ν → Cell ι ν)).length =
        index.toNat := by
      rw [List.length_map, List.length_take]
      omega
    have isIndex : (index.toNat : Int) = index := by omega
    rw [← split, List.map_append, List.map_cons] at holds
    obtain ⟨memory, called, holds, writes⟩ := KernelList.removeAt_holds holds
    rw [length, isIndex] at called
    rw [← List.map_append] at holds writes
    have isAnswer : ListOp.answer (run.contents list) (.removeAt list index) =
        .node (some (.node node)) := by
      rw [ListOp.answer, if_neg notNegative, List.getElem?_eq_getElem inside, isNode]
      rfl
    have isRest : ListOp.apply (run.contents list) (.removeAt list index) =
        (run.contents list).take index.toNat ++ (run.contents list).drop (index.toNat + 1) := by
      rw [ListOp.apply, if_neg notNegative, List.eraseIdx_eq_take_drop_succ]
    have members : ∀ member, member = node ∨ member ∈ (run.contents list).take index.toNat ++
        (run.contents list).drop (index.toNat + 1) → member ∈ run.contents list := by
      rintro member (rfl | among)
      · rw [← isNode]
        exact List.getElem_mem inside
      · rcases List.mem_append.mp among with earlier | later
        · exact List.mem_of_mem_take earlier
        · exact List.mem_of_mem_drop later
    refine ⟨_, _, call_eq (congrArg (Option.map _) called), isAnswer.symm,
      faithful.update ?_ (disjoint.removal members writes)⟩
    show KernelList.Holds _ _ ((ListOp.apply (run.contents list) (.removeAt list index)).map _)
    rw [isRest]
    exact holds

theorem remove_right (faithful : run.Faithful) (disjoint : run.Disjoint)
    (enough : (run.contents list).length < fuel) (member : node ∈ run.contents list) :
    run.CallRight fuel (.remove list node) := by
  have holds := faithful list
  obtain ⟨front, back, split, notNode⟩ := List.eq_append_cons_of_mem member
  rw [split, List.map_append, List.map_cons] at holds
  obtain ⟨memory, called, holds, writes⟩ := KernelList.remove_holds holds
  rw [← List.map_append] at holds writes
  have isCalled := called fuel (by
    rw [split, List.length_append] at enough
    rw [List.length_map]
    omega)
  have isRest : ListOp.apply (run.contents list) (.remove list node) = front ++ back := by
    rw [ListOp.apply, split, List.erase_append_right _ notNode, List.erase_cons_head]
  have members : ∀ other, other = node ∨ other ∈ front ++ back → other ∈ run.contents list := by
    intro other among
    rw [split]
    simp only [List.mem_append, List.mem_cons] at among ⊢
    tauto
  refine ⟨_, _, call_eq (congrArg (Option.map _) isCalled), rfl,
    faithful.update ?_ (disjoint.removal members (writes.mono fun _ => .inr))⟩
  show KernelList.Holds _ _ ((ListOp.apply (run.contents list) (.remove list node)).map _)
  rw [isRest]
  exact holds

def linked (memory : FieldMemory (Cell ι ν)) (node : ν) : FieldMemory (Cell ι ν) :=
  match LinkMemory.pre memory (.node node), LinkMemory.next memory (.node node) with
  | some before, some after =>
      LinkMemory.setPre (LinkMemory.setNext memory before (some after)) after (some before)
  | _, _ => memory

theorem remove_outside (faithful : run.Faithful)
    (enough : (run.contents list).length < fuel) (outside : node ∉ run.contents list) :
    KernelList.remove fuel run.lists.memory (run.lists.list list) (.node node) =
      some (linked run.lists.memory node, run.lists.list list) := by
  have index := KernelList.index_not_mem (faithful list)
    (fun member => outside (node_mem_map.mp member)) (by rwa [List.length_map])
  rw [KernelList.remove, index, linked, Option.bind_eq_bind, Option.bind_some,
    if_neg (by decide)]
  cases isPre : LinkMemory.pre run.lists.memory (Cell.node node) with
  | none => rfl
  | some before =>
      cases LinkMemory.next run.lists.memory (Cell.node node) with
      | none => rfl
      | some after =>
          have kept : LinkMemory.pre (LinkMemory.setNext run.lists.memory before (some after))
            (Cell.node node) = some before := isPre
          dsimp only
          rw [kept]
          rfl

theorem Faithful.holds_iff (faithful : run.Faithful) (memory : FieldMemory (Cell ι ν)) (list : ι) :
    (run.lists.list list).Holds memory ((run.contents list).map .node) ↔
      (∀ cell ∈ .head list :: (run.contents list).map .node,
        memory.next cell = run.lists.memory.next cell) ∧
      ∀ cell ∈ (run.contents list).map .node ++ [.tail list],
        memory.pre cell = run.lists.memory.pre cell := by
  obtain ⟨⟨chain, apart⟩, size⟩ := faithful list
  have changed := @LinkMemory.chain_congr_iff _ _ _ run.lists.memory memory _ chain
  rw [KernelList.span, ← List.cons_append, List.dropLast_concat] at changed
  constructor
  · intro holds
    exact changed.mp holds.linked.chain
  · intro same
    exact ⟨⟨changed.mpr same, apart⟩, size⟩

theorem next_linked_iff {memory : FieldMemory (Cell ι ν)} {before after cell : Cell ι ν} :
    (LinkMemory.setPre (LinkMemory.setNext memory before (some after)) after
      (some before)).next cell = memory.next cell ↔
      (cell = before → memory.next before = some after) := by
  show Function.update memory.next before (some after) cell = _ ↔ _
  by_cases same : cell = before
  · subst same
    rw [Function.update_self]
    exact ⟨fun equal _ => equal.symm, fun equal => (equal rfl).symm⟩
  · rw [Function.update_of_ne same]
    exact ⟨fun _ equal => absurd equal same, fun _ => rfl⟩

theorem pre_linked_iff {memory : FieldMemory (Cell ι ν)} {before after cell : Cell ι ν} :
    (LinkMemory.setPre (LinkMemory.setNext memory before (some after)) after
      (some before)).pre cell = memory.pre cell ↔
      (cell = after → memory.pre after = some before) := by
  show Function.update memory.pre after (some before) cell = _ ↔ _
  by_cases same : cell = after
  · subst same
    rw [Function.update_self]
    exact ⟨fun equal _ => equal.symm, fun equal => (equal rfl).symm⟩
  · rw [Function.update_of_ne same]
    exact ⟨fun _ equal => absurd equal same, fun _ => rfl⟩

omit [DecidableEq ι] [DecidableEq ν] in
theorem harmless_iff {before after : Cell ι ν}
    (isPre : run.lists.memory.pre (.node node) = some before)
    (isNext : run.lists.memory.next (.node node) = some after) :
    run.Harmless node ↔ ∀ list,
      (before ∈ .head list :: (run.contents list).map .node →
        run.lists.memory.next before = some after) ∧
      (after ∈ (run.contents list).map .node ++ [.tail list] →
        run.lists.memory.pre after = some before) := by
  constructor
  · intro harmless
    exact harmless before after isPre isNext
  · intro agree named other isNamed isOther
    cases isPre.symm.trans isNamed
    cases isNext.symm.trans isOther
    exact agree

theorem linked_holds_iff (faithful : run.Faithful) :
    (∀ list, (run.lists.list list).Holds (linked run.lists.memory node)
      ((run.contents list).map .node)) ↔ run.Harmless node := by
  cases isPre : LinkMemory.pre run.lists.memory (Cell.node node) with
  | none =>
      rw [linked, isPre]
      refine ⟨fun _ before after named => ?_, fun _ => faithful⟩
      cases isPre.symm.trans named
  | some before =>
      cases isNext : LinkMemory.next run.lists.memory (Cell.node node) with
      | none =>
          rw [linked, isPre, isNext]
          refine ⟨fun _ before after _ named => ?_, fun _ => faithful⟩
          cases isNext.symm.trans named
      | some after =>
          rw [harmless_iff isPre isNext, linked, isPre, isNext]
          refine forall_congr' fun list => ?_
          rw [faithful.holds_iff]
          refine and_congr ?_ ?_
          · constructor
            · intro same among
              exact next_linked_iff.mp (same before among) rfl
            · intro agrees cell among
              exact next_linked_iff.mpr fun isBefore => agrees (isBefore ▸ among)
          · constructor
            · intro same among
              exact pre_linked_iff.mp (same after among) rfl
            · intro agrees cell among
              exact pre_linked_iff.mpr fun isAfter => agrees (isAfter ▸ among)

theorem remove_outside_iff (faithful : run.Faithful)
    (enough : (run.contents list).length < fuel) (outside : node ∉ run.contents list) :
    ∃ after, run.call fuel (.remove list node) = some (.nothing, after) ∧
      (after.Faithful ↔ run.Harmless node) := by
  have called := remove_outside faithful enough outside
  refine ⟨_, call_eq (congrArg (Option.map _) called), ?_⟩
  rw [← linked_holds_iff faithful]
  refine forall_congr' fun other => ?_
  have isSame : ListOp.apply (run.contents list) (.remove list node) = run.contents list :=
    List.erase_of_not_mem outside
  show KernelList.Holds _ ⟨Cell.head other, Cell.tail other,
    Function.update run.lists.size list (run.lists.size list) other⟩
    ((Function.update run.contents list
      (ListOp.apply (run.contents list) (.remove list node)) other).map Cell.node) ↔ _
  rw [isSame, Function.update_eq_self, Function.update_eq_self]
  exact Iff.rfl

theorem call_spec (faithful : run.Faithful) (disjoint : run.Disjoint) (fresh : run.Fresh op)
    (enough : ∀ list, (run.contents list).length < fuel) :
    ∃ answer after, run.call fuel op = some (answer, after) ∧ run.Answers op answer after ∧
      (after.Faithful ↔ run.RemovesMember op) := by
  have right : run.CallRight fuel op → run.RemovesMember op →
      ∃ answer after, run.call fuel op = some (answer, after) ∧ run.Answers op answer after ∧
        (after.Faithful ↔ run.RemovesMember op) := by
    rintro ⟨answer, after, called, answers, faithful⟩ removes
    exact ⟨answer, after, called, answers, ⟨fun _ => removes, fun _ => faithful⟩⟩
  cases op with
  | pushl list node => exact right (pushl_right faithful disjoint (fresh node rfl)) trivial
  | pushr list node => exact right (pushr_right faithful disjoint (fresh node rfl)) trivial
  | add list index node => exact right (add_right faithful disjoint (fresh node rfl)) trivial
  | popl list => exact right (popl_right faithful disjoint) trivial
  | popr list => exact right (popr_right faithful disjoint) trivial
  | removeAt list index => exact right (removeAt_right faithful disjoint index) trivial
  | remove list node =>
      by_cases member : node ∈ run.contents list
      · exact right (remove_right faithful disjoint (enough list) member) (.inl member)
      · obtain ⟨after, called, iff⟩ := remove_outside_iff faithful (enough list) member
        refine ⟨.nothing, after, called, rfl, iff.trans ?_⟩
        exact ⟨.inr, fun removes => removes.resolve_left member⟩

theorem call_contents {answer : ListAnswer ι ν} {after : ListRun ι ν}
    (called : run.call fuel op = some (answer, after)) :
    after.contents = Function.update run.contents op.list (op.apply (run.contents op.list)) := by
  obtain ⟨⟨_, _, _⟩, -, same⟩ := Option.bind_eq_some_iff.mp called
  cases same
  rfl

theorem Disjoint.of_call (disjoint : run.Disjoint) (fresh : run.Fresh op)
    {answer : ListAnswer ι ν} {after : ListRun ι ν}
    (called : run.call fuel op = some (answer, after)) : after.Disjoint := by
  have kept : Disjoint ⟨after.lists, _⟩ := disjoint.call fresh
  rw [← call_contents called] at kept
  exact kept

theorem allGuarded_length (ops : List (ListOp ι ν))
    (bound : ∀ list, (run.contents list).length + ops.length < fuel) :
    AllGuarded (call fuel) (fun run _ => ∀ list, (run.contents list).length < fuel) run ops := by
  induction ops generalizing run with
  | nil => trivial
  | cons op ops ih =>
      constructor
      · intro list
        exact Nat.lt_of_le_of_lt (Nat.le_add_right _ _) (bound list)
      · intro answer after called
        refine ih fun list => ?_
        have isBound := bound list
        rw [List.length_cons] at isBound
        rw [call_contents called]
        by_cases same : list = op.list
        · subst same
          rw [Function.update_self]
          have longer := @ListOp.length_apply ι ν _ op (run.contents op.list)
          omega
        · rw [Function.update_of_ne same]
          omega

theorem init_holds {lists : Lists ι ν} {list other : ι}
    (holds : other = list ∨ (lists.list other).Holds lists.memory []) :
    ((lists.init list).list other).Holds (lists.init list).memory [] := by
  by_cases same : other = list
  · subst same
    have made := @KernelList.initList_holds _ _ _ _ lists.memory (lists.list other)
      (by rintro ⟨⟩)
    have size : (lists.init other).size other = 0 := Function.update_self ..
    exact ⟨made.linked, size⟩
  · have kept := holds.resolve_left same
    have size : (lists.init list).size other = lists.size other := Function.update_of_ne same ..
    have writes : LinkMemory.Writes (fun cell => cell = .head list ∨ cell = .tail list)
        lists.memory (lists.init list).memory :=
      .setNext _ (.setPre _ (.setNext _ (.setPre _ (.refl _) (.inl rfl)) (.inl rfl)) (.inr rfl))
        (.inr rfl)
    refine ⟨kept.linked.frame writes ?_, size.trans kept.size⟩
    rintro cell member written isWritten rfl
    rw [KernelList.mem_span] at member
    rcases isWritten with rfl | rfl
    · rcases member with isHead | inNone | isTail
      · exact same (Cell.head.inj isHead).symm
      · exact absurd inNone List.not_mem_nil
      · cases isTail
    · rcases member with isHead | inNone | isTail
      · cases isHead
      · exact absurd inNone List.not_mem_nil
      · exact same (Cell.tail.inj isTail).symm

def start (lists : Lists ι ν) (made : List ι) : ListRun ι ν where
  lists := made.foldl Lists.init lists
  contents := fun _ => []

theorem start_faithful {lists : Lists ι ν} {made : List ι} (all : ∀ list, list ∈ made) :
    (start lists made).Faithful := by
  have holds : ∀ (made : List ι) (lists : Lists ι ν) (list : ι),
      list ∈ made ∨ (lists.list list).Holds lists.memory [] →
      ((made.foldl Lists.init lists).list list).Holds (made.foldl Lists.init lists).memory [] := by
    intro made
    induction made with
    | nil =>
        intro lists list holds
        exact holds.resolve_left List.not_mem_nil
    | cons first rest ih =>
        intro lists list holds
        apply ih
        rcases holds with member | holds
        · rcases List.mem_cons.mp member with rfl | later
          · exact .inr (init_holds (.inl rfl))
          · exact .inl later
        · exact .inr (init_holds (.inr holds))
  intro list
  exact holds made lists list (.inl (all list))

/-- From lists that `init_list` made on, the operations return what they return on sequences and
the lists stay those sequences if and only if every node that `remove` takes is in the list, or
its removal is harmless. -/
theorem lists_iff (lists : Lists ι ν) (made : List ι) (all : ∀ list, list ∈ made)
    (ops : List (ListOp ι ν)) (enough : ops.length < fuel)
    (fresh : AllGuarded (call fuel) Fresh (start lists made) ops) :
    AllRight (call fuel) Faithful Answers (start lists made) ops ↔
      AllGuarded (call fuel) RemovesMember (start lists made) ops := by
  have bounded : AllGuarded (call fuel) (fun run _ => ∀ list, (run.contents list).length < fuel)
      (start lists made) ops := by
    refine allGuarded_length ops fun list => ?_
    rw [start, List.length_nil, Nat.zero_add]
    exact enough
  refine allRight_iff_allGuarded_within Disjoint ?_ ?_ ops ?_ (start_faithful all)
    (fresh.and ops bounded)
  · rintro run op disjoint faithful ⟨fresh, bound⟩ removes
    obtain ⟨answer, after, called, answers, iff⟩ := call_spec faithful disjoint fresh bound
    exact ⟨answer, after, called, answers, iff.mpr removes, disjoint.of_call fresh called⟩
  · rintro run op answer after disjoint faithful ⟨fresh, bound⟩ called - afterFaithful
    obtain ⟨_, _, again, -, iff⟩ := call_spec faithful disjoint fresh bound
    cases called.symm.trans again
    exact iff.mp afterFaithful
  · intro list other _ node member
    exact absurd member List.not_mem_nil

/-- One list is filled, and its node is removed from another one. -/
theorem lists_iff_twoLists :
    AllRight (call 3) Faithful Answers
        (@start Bool Nat _ _ ⟨⟨fun _ => none, fun _ => none⟩, fun _ => 7⟩ [true, false])
        [.pushl true 1, .remove false 2] ↔
      AllGuarded (call 3) RemovesMember
        (start ⟨⟨fun _ => none, fun _ => none⟩, fun _ => 7⟩ [true, false])
        [.pushl true 1, .remove false 2] := by
  refine lists_iff _ _ (by decide) _ (by decide) ⟨?_, fun _ _ _ => ⟨?_, fun _ _ _ => trivial⟩⟩
  · intro node _ list
    exact List.not_mem_nil
  · rintro node ⟨⟩

/-- A node is removed from a list that it is not in: the list that it is in loses it and keeps
its size. -/
theorem remove_unlinks_elsewhere :
    AllGuarded (call 3) Fresh
        (@start Bool Nat _ _ ⟨⟨fun _ => none, fun _ => none⟩, fun _ => 7⟩ [true, false])
        [.pushl true 1, .remove false 1] ∧
      ¬ AllRight (call 3) Faithful Answers
        (start ⟨⟨fun _ => none, fun _ => none⟩, fun _ => 7⟩ [true, false])
        [.pushl true 1, .remove false 1] := by
  constructor
  · refine ⟨?_, fun _ _ _ => ⟨?_, fun _ _ _ => trivial⟩⟩
    · intro node _ list
      exact List.not_mem_nil
    · rintro node ⟨⟩
  · intro allRight
    have faithful := (allRight.tail rfl).tail rfl
    have chain := (faithful true).linked.chain
    have isNext := (List.isChain_cons_cons.mp chain).1.1
    cases isNext

end ListRun

end CleanOS.Common
