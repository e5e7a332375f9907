import CleanOS.Lib.LinkMemory

/-!
# The kernel's intrusive list

`common/lib/list.c` keeps a list as two sentinel nodes and a size field; the
nodes in between are embedded in the records that are queued.  The operations
below follow the source statement by statement over an arbitrary link memory.
`none` as a result of an operation means that it dereferenced a null pointer,
or that the fuel bounding a traversal ran out.

`Holds` relates a list header to the sequence of nodes it stands for, and every
operation has one specification lemma in its terms.
-/

namespace CleanOS.Common

open CleanOS.Lib LinkMemory

/-- `list`: the addresses of the two sentinels and the size field. -/
structure KernelList (α : Type) where
  head : α
  tail : α
  size : Int
  deriving DecidableEq, Repr

namespace KernelList

variable {σ α : Type} [LinkMemory σ α]

/-- `init_list`. -/
def initList (memory : σ) (l : KernelList α) : σ × KernelList α :=
  let memory := setPre memory l.head none
  let memory := setNext memory l.head (some l.tail)
  let memory := setPre memory l.tail (some l.head)
  let memory := setNext memory l.tail none
  (memory, { l with size := 0 })

/-- `pushl`. -/
def pushl (memory : σ) (l : KernelList α) (node : α) :
    Option (σ × KernelList α) := do
  let memory := setPre memory node (some l.head)
  let memory := setNext memory node (next memory l.head)
  let first ← next memory l.head
  let memory := setPre memory first (some node)
  let memory := setNext memory l.head (some node)
  return (memory, { l with size := l.size + 1 })

/-- `popl`.  The removed node, if there is one, has both fields cleared. -/
def popl (memory : σ) (l : KernelList α) :
    Option (σ × KernelList α × Option α) :=
  if l.size ≤ 0 then
    some (memory, l, none)
  else do
    let node ← next memory l.head
    let memory := setNext memory l.head (next memory node)
    let after ← next memory node
    let memory := setPre memory after (some l.head)
    let memory := setPre memory node none
    let memory := setNext memory node none
    return (memory, { l with size := l.size - 1 }, some node)

/-- `pushr`. -/
def pushr (memory : σ) (l : KernelList α) (node : α) :
    Option (σ × KernelList α) := do
  let memory := setPre memory node (pre memory l.tail)
  let memory := setNext memory node (some l.tail)
  let last ← pre memory l.tail
  let memory := setNext memory last (some node)
  let memory := setPre memory l.tail (some node)
  return (memory, { l with size := l.size + 1 })

/-- `popr`.  The removed node, if there is one, has both fields cleared. -/
def popr (memory : σ) (l : KernelList α) :
    Option (σ × KernelList α × Option α) :=
  if l.size ≤ 0 then
    some (memory, l, none)
  else do
    let node ← pre memory l.tail
    let memory := setPre memory l.tail (pre memory node)
    let before ← pre memory node
    let memory := setNext memory before (some l.tail)
    let memory := setPre memory node none
    let memory := setNext memory node none
    return (memory, { l with size := l.size - 1 }, some node)

/-- The loop of `add` and of `at`: so many times to the next node. -/
def walk (memory : σ) : Nat → Option α → Option (Option α)
  | 0, cursor => some cursor
  | steps + 1, cursor => do
      let node ← cursor
      walk memory steps (next memory node)

/-- `add`, which returns the position of the node. -/
def add (memory : σ) (l : KernelList α) (index : Int) (node : α) :
    Option (σ × KernelList α × Int) :=
  if index ≤ 0 then do
    let (memory, l) ← pushl memory l node
    return (memory, l, 0)
  else if l.size ≤ index then do
    let (memory, l) ← pushr memory l node
    return (memory, l, l.size - 1)
  else do
    let p ← (← walk memory index.toNat (next memory l.head))
    let memory := setNext memory node (some p)
    let memory := setPre memory node (pre memory p)
    let before ← pre memory p
    let memory := setNext memory before (some node)
    let memory := setPre memory p (some node)
    return (memory, { l with size := l.size + 1 }, index)

/-- `at`. -/
def nodeAt (memory : σ) (l : KernelList α) (index : Int) : Option (Option α) :=
  if index < 0 ∨ l.size ≤ index then some none
  else walk memory index.toNat (next memory l.head)

/-- `remove_at`.  The removed node, if there is one, has both fields cleared. -/
def removeAt (memory : σ) (l : KernelList α) (index : Int) :
    Option (σ × KernelList α × Option α) := do
  match ← nodeAt memory l index with
  | none => return (memory, l, none)
  | some p =>
      let before ← pre memory p
      let memory := setNext memory before (next memory p)
      let after ← next memory p
      let memory := setPre memory after (pre memory p)
      let memory := setPre memory p none
      let memory := setNext memory p none
      return (memory, { l with size := l.size - 1 }, some p)

variable [DecidableEq α]

/-- The loop of `index`, standing at `cursor` after `position + 1` nodes. -/
def indexLoop (memory : σ) (tail node : α) :
    Nat → Option α → Int → Option Int
  | 0, _, _ => none
  | _ + 1, none, _ => some (-1)
  | fuel + 1, some cursor, position =>
      if cursor = tail then some (-1)
      else if cursor = node then some (position + 1)
      else indexLoop memory tail node fuel (next memory cursor) (position + 1)

/-- `index`. -/
def index (fuel : Nat) (memory : σ) (l : KernelList α) (node : α) :
    Option Int :=
  indexLoop memory l.tail node fuel (next memory l.head) (-1)

/-- `remove`.  The fields of the removed node keep their values. -/
def remove (fuel : Nat) (memory : σ) (l : KernelList α) (node : α) :
    Option (σ × KernelList α) := do
  let idx ← index fuel memory l node
  let l := if 0 ≤ idx then { l with size := l.size - 1 } else l
  match pre memory node, next memory node with
  | some before, some after =>
      let memory := setNext memory before (some after)
      let memory := setPre memory after (pre memory node)
      return (memory, l)
  | _, _ => return (memory, l)

/-- The loop of `foreach` for a visitor that stops at the first match. -/
def findLoop (memory : σ) (tail : α) (found : α → Bool) :
    Nat → Option α → Option (Option α)
  | 0, _ => none
  | _ + 1, none => some none
  | fuel + 1, some cursor =>
      if cursor = tail then some none
      else if found cursor then some (some cursor)
      else findLoop memory tail found fuel (next memory cursor)

/-- `foreach` with a visitor that records the first match. -/
def find (fuel : Nat) (memory : σ) (l : KernelList α) (found : α → Bool) :
    Option (Option α) :=
  findLoop memory l.tail found fuel (next memory l.head)

def span (l : KernelList α) (nodes : List α) : List α :=
  l.head :: (nodes ++ [l.tail])

omit [DecidableEq α] in
@[simp] theorem mem_span {l : KernelList α} {nodes : List α} {node : α} :
    node ∈ l.span nodes ↔ node = l.head ∨ node ∈ nodes ∨ node = l.tail := by
  simp [span]

/-- The header stands for this sequence of nodes. -/
structure Holds (memory : σ) (l : KernelList α) (nodes : List α) : Prop where
  linked : Linked memory (l.span nodes)
  size : l.size = nodes.length

namespace Holds

omit [DecidableEq α]

variable [Lawful σ] {memory : σ} {l : KernelList α} {nodes : List α}

theorem nodup (holds : Holds memory l nodes) : nodes.Nodup := by
  have spanNodup := holds.linked.nodup
  simp only [span, List.nodup_cons, List.nodup_append] at spanNodup
  exact spanNodup.2.1

theorem tail_not_mem (holds : Holds memory l nodes) : l.tail ∉ nodes := by
  have spanNodup := holds.linked.nodup
  simp only [span, List.nodup_cons, List.nodup_append] at spanNodup
  intro member
  exact spanNodup.2.2.2 _ member _ (by simp) rfl

theorem frame {touched : α → Prop} {after : σ}
    (holds : Holds memory l nodes) (writes : Writes touched memory after)
    (outside : ∀ node ∈ l.span nodes, ∀ other, touched other →
      Apart σ node other) :
    Holds after l nodes :=
  ⟨holds.linked.frame writes outside, holds.size⟩

end Holds

def Touches (l : KernelList α) (nodes : List α) (node : α) : α → Prop :=
  fun other => other = node ∨ other ∈ l.span nodes

section Specifications

variable [Lawful σ] {memory : σ} {l : KernelList α} {nodes : List α}
  {node : α}

omit [DecidableEq α] in
theorem initList_holds (apart : Apart σ l.head l.tail) :
    Holds (initList memory l).1 (initList memory l).2 [] := by
  refine ⟨⟨?_, ?_⟩, rfl⟩
  · simp [span, initList, Adjacent, apart]
  · simpa [span, initList] using apart

structure Gap (memory : σ) (l : KernelList α) (front back : List α) (left right : α) : Prop where
  isLeft : ∃ before, l.head :: front = before ++ [left]
  isRight : ∃ behind, back ++ [l.tail] = right :: behind
  adjacent : Adjacent memory left right
  apart : Apart σ left right

omit [DecidableEq α] [Lawful σ] in
private theorem span_append {before behind front back middle : List α} {left right : α}
    (isLeft : l.head :: front = before ++ [left]) (isRight : back ++ [l.tail] = right :: behind) :
    l.span (front ++ (middle ++ back)) = before ++ left :: (middle ++ right :: behind) := by
  rw [span, List.append_assoc, List.append_assoc, isRight, ← List.cons_append, isLeft,
    List.append_assoc, List.singleton_append]

omit [DecidableEq α] [Lawful σ] in
private theorem exists_ends (l : KernelList α) (front back : List α) :
    ∃ before left right behind, l.head :: front = before ++ [left] ∧
      back ++ [l.tail] = right :: behind := by
  obtain ⟨right, behind, isRight⟩ := List.exists_cons_of_ne_nil
    (List.append_ne_nil_of_right_ne_nil back (List.cons_ne_nil l.tail []))
  exact ⟨_, _, right, behind,
    (List.dropLast_append_getLast (List.cons_ne_nil l.head front)).symm, isRight⟩

namespace Holds

variable {front back : List α} {left right : α} {after : σ}

omit [DecidableEq α] [Lawful σ] in
theorem gap (holds : Holds memory l (front ++ back)) :
    ∃ left right, Gap memory l front back left right := by
  obtain ⟨before, left, right, behind, isLeft, isRight⟩ := exists_ends l front back
  have spanEq := @span_append α l before behind front back [] left right isLeft isRight
  have linked := holds.linked
  rw [List.nil_append, List.nil_append] at spanEq
  rw [spanEq] at linked
  refine ⟨left, right, ⟨before, isLeft⟩, ⟨behind, isRight⟩,
    (List.isChain_cons_cons.mp (List.isChain_split.mp linked.chain).2).1, ?_⟩
  exact (List.pairwise_cons.mp (List.pairwise_append.mp linked.apart).2.1).1 right
    List.mem_cons_self

omit [DecidableEq α] [Lawful σ] in
theorem gap_mem (gap : Gap memory l front back left right) :
    left ∈ l.span (front ++ back) ∧ right ∈ l.span (front ++ back) := by
  obtain ⟨before, isLeft⟩ := gap.isLeft
  obtain ⟨behind, isRight⟩ := gap.isRight
  have spanEq := @span_append α l before behind front back [] left right isLeft isRight
  rw [List.nil_append, List.nil_append] at spanEq
  rw [spanEq]
  simp

omit [DecidableEq α] in
theorem insert (holds : Holds memory l (front ++ back))
    (gap : Gap memory l front back left right)
    (fresh : ∀ other ∈ l.span (front ++ back), Apart σ node other)
    (toNode : Adjacent after left node) (fromNode : Adjacent after node right)
    (leftPre : pre after left = pre memory left)
    (rightNext : next after right = next memory right)
    (untouched : ∀ other, Apart σ other left → Apart σ other node → Apart σ other right →
      pre after other = pre memory other ∧ next after other = next memory other) :
    Holds after { l with size := l.size + 1 } (front ++ node :: back) := by
  obtain ⟨before, isLeft⟩ := gap.isLeft
  obtain ⟨behind, isRight⟩ := gap.isRight
  have spanEq := @span_append α l before behind front back [] left right isLeft isRight
  have grownEq := @span_append α l before behind front back [node] left right isLeft isRight
  have linked := holds.linked
  rw [List.nil_append, List.nil_append] at spanEq
  rw [spanEq] at linked fresh
  constructor
  · have inserted := linked.insert after fresh toNode fromNode leftPre rightNext untouched
    rw [List.singleton_append, List.singleton_append] at grownEq
    exact grownEq ▸ inserted
  · show l.size + 1 = _
    rw [holds.size]
    simp only [List.length_append, List.length_cons]
    omega

omit [DecidableEq α] [Lawful σ] in
theorem between (holds : Holds memory l (front ++ node :: back)) :
    ∃ left right, Gap memory l front (node :: back) left node ∧
      Gap memory l (front ++ [node]) back node right ∧ Apart σ left right := by
  obtain ⟨before, left, right, behind, isLeft, isRight⟩ := exists_ends l front back
  have spanEq := @span_append α l before behind front back [node] left right isLeft isRight
  have linked := holds.linked
  rw [List.singleton_append, List.singleton_append] at spanEq
  rw [spanEq] at linked
  have chain := (List.isChain_split.mp linked.chain).2
  rw [List.isChain_cons_cons, List.isChain_cons_cons] at chain
  obtain ⟨toNode, fromNode, -⟩ := chain
  have apart := (List.pairwise_append.mp linked.apart).2.1
  simp only [List.pairwise_cons, List.mem_cons, forall_eq_or_imp] at apart
  obtain ⟨⟨leftNode, leftRight, -⟩, ⟨nodeRight, -⟩, -⟩ := apart
  refine ⟨left, right, ⟨⟨before, isLeft⟩, ⟨back ++ [l.tail], rfl⟩, toNode, leftNode⟩,
    ⟨⟨l.head :: front, rfl⟩, ⟨behind, isRight⟩, fromNode, nodeRight⟩, leftRight⟩

omit [DecidableEq α] in
theorem unlink (holds : Holds memory l (front ++ node :: back))
    (toNode : Gap memory l front (node :: back) left node)
    (fromNode : Gap memory l (front ++ [node]) back node right)
    (closed : Adjacent after left right)
    (leftPre : pre after left = pre memory left)
    (rightNext : next after right = next memory right)
    (untouched : ∀ other, Apart σ other left → Apart σ other node → Apart σ other right →
      pre after other = pre memory other ∧ next after other = next memory other) :
    Holds after { l with size := l.size - 1 } (front ++ back) ∧
      left ∈ l.span (front ++ back) ∧ right ∈ l.span (front ++ back) := by
  obtain ⟨before, isLeft⟩ := toNode.isLeft
  obtain ⟨behind, isRight⟩ := fromNode.isRight
  have spanEq := @span_append α l before behind front back [node] left right isLeft isRight
  have shrunkEq := @span_append α l before behind front back [] left right isLeft isRight
  have linked := holds.linked
  rw [List.singleton_append, List.singleton_append] at spanEq
  rw [List.nil_append, List.nil_append] at shrunkEq
  rw [spanEq] at linked
  refine ⟨⟨?_, ?_⟩, by rw [shrunkEq]; simp, by rw [shrunkEq]; simp⟩
  · have removed := linked.unlink after closed leftPre rightNext untouched
    exact shrunkEq ▸ removed
  · show l.size - 1 = _
    rw [holds.size]
    simp only [List.length_append, List.length_cons]
    omega

end Holds

omit [DecidableEq α] in
theorem pushl_holds (holds : Holds memory l nodes)
    (fresh : ∀ other ∈ l.span nodes, Apart σ node other) :
    ∃ after, pushl memory l node = some (after, { l with size := l.size + 1 }) ∧
      Holds after { l with size := l.size + 1 } (node :: nodes) ∧
      Writes (l.Touches nodes node) memory after := by
  obtain ⟨left, first, gap⟩ := @Holds.gap σ α _ memory l [] nodes holds
  obtain ⟨-, firstMem⟩ := Holds.gap_mem gap
  obtain ⟨before, isLeft⟩ := gap.isLeft
  obtain rfl : l.head = left := by
    cases before <;> simp_all
  have nodeHead : Apart σ node l.head := fresh _ (by simp)
  have nodeFirst := fresh first firstMem
  have headFirst := gap.apart
  have headNode := Lawful.apart_symm nodeHead
  have firstNode := Lawful.apart_symm nodeFirst
  have firstHead := Lawful.apart_symm headFirst
  refine ⟨_, by simp [pushl, headNode, gap.adjacent.1]; rfl, holds.insert gap fresh
    ⟨by simp, by simp [nodeHead, nodeFirst]⟩
    ⟨by simp [nodeHead, nodeFirst], by simp [firstHead]⟩
    (by simp [headFirst, headNode]) (by simp [firstHead, firstNode])
    (by intro other otherHead otherNode otherFirst
        simp [otherHead, otherNode, otherFirst]), ?_⟩
  exact .setNext _ (.setPre _ (.setNext _ (.setPre _ (.refl _)
    (.inl rfl)) (.inl rfl)) (.inr firstMem)) (.inr (by simp))

omit [DecidableEq α] in
theorem pushr_holds (holds : Holds memory l nodes)
    (fresh : ∀ other ∈ l.span nodes, Apart σ node other) :
    ∃ after, pushr memory l node = some (after, { l with size := l.size + 1 }) ∧
      Holds after { l with size := l.size + 1 } (nodes ++ [node]) ∧
      Writes (l.Touches nodes node) memory after := by
  rw [← List.append_nil nodes] at holds fresh
  obtain ⟨last, right, gap⟩ := holds.gap
  obtain ⟨lastMem, -⟩ := Holds.gap_mem gap
  obtain ⟨behind, isRight⟩ := gap.isRight
  obtain ⟨rfl, -⟩ := List.cons.inj isRight
  have nodeLast := fresh last lastMem
  have nodeTail : Apart σ node l.tail := fresh _ (by simp)
  have lastTail := gap.apart
  have tailNode := Lawful.apart_symm nodeTail
  have lastNode := Lawful.apart_symm nodeLast
  have tailLast := Lawful.apart_symm lastTail
  refine ⟨_, by simp [pushr, tailNode, gap.adjacent.2]; rfl, holds.insert gap fresh
    ⟨by simp [lastTail], by simp [nodeLast, nodeTail]⟩
    ⟨by simp [nodeLast, nodeTail], by simp⟩
    (by simp [lastTail, lastNode]) (by simp [tailLast, tailNode])
    (by intro other otherLast otherNode otherTail
        simp [otherLast, otherNode, otherTail]), ?_⟩
  rw [List.append_nil] at lastMem
  exact .setPre _ (.setNext _ (.setNext _ (.setPre _ (.refl _)
    (.inl rfl)) (.inl rfl)) (.inr lastMem)) (.inr (by simp))

omit [DecidableEq α] [Lawful σ] in
theorem popl_empty (holds : Holds memory l []) :
    popl memory l = some (memory, l, none) := by
  have size : l.size = 0 := by simpa using holds.size
  simp [popl, size]

omit [DecidableEq α] in
theorem popl_holds (holds : Holds memory l (node :: nodes)) :
    ∃ after, popl memory l =
        some (after, { l with size := l.size - 1 }, some node) ∧
      Holds after { l with size := l.size - 1 } nodes ∧
      Writes (l.Touches nodes node) memory after ∧
      pre after node = none ∧ next after node = none := by
  obtain ⟨left, right, toNode, fromNode, leftRight⟩ :=
    @Holds.between σ α _ memory l node [] nodes holds
  obtain ⟨before, isLeft⟩ := toNode.isLeft
  obtain rfl : l.head = left := by
    cases before <;> simp_all
  have headNode := toNode.apart
  have nodeRight := fromNode.apart
  have nodeHead := Lawful.apart_symm headNode
  have rightHead := Lawful.apart_symm leftRight
  have rightNode := Lawful.apart_symm nodeRight
  have positive : ¬ l.size ≤ 0 := by
    rw [holds.size]
    simp only [List.length_cons]
    omega
  obtain ⟨shrunk, -, rightMem⟩ := @Holds.unlink σ α _ _ memory l node [] nodes l.head right
    (setNext (setPre (setPre (setNext memory l.head (some right))
      right (some l.head)) node none) node none) holds toNode fromNode
    ⟨by simp [headNode, leftRight], by simp [rightNode]⟩
    (by simp [headNode, leftRight]) (by simp [rightNode, rightHead])
    (by intro other otherHead otherNode otherRight
        simp [otherHead, otherNode, otherRight])
  refine ⟨_, by simp [popl, positive, toNode.adjacent.1, fromNode.adjacent.1, nodeHead],
    shrunk, ?_, by simp, by simp⟩
  exact .setNext _ (.setPre _ (.setPre _ (.setNext _ (.refl _)
    (.inr (by simp))) (.inr rightMem)) (.inl rfl)) (.inl rfl)

omit [Lawful σ] in
private theorem indexLoop_chain {fuel : Nat} {position : Int}
    (chain : List.IsChain (Adjacent memory) (nodes ++ [l.tail])) (notTail : l.tail ∉ nodes)
    (enough : nodes.idxOf node < fuel) :
    indexLoop memory l.tail node fuel (nodes ++ [l.tail]).head? position =
      some (if node ∈ nodes then position + 1 + nodes.idxOf node else -1) := by
  obtain ⟨fuel, rfl⟩ := Nat.exists_eq_succ_of_ne_zero (by omega : fuel ≠ 0)
  induction nodes generalizing fuel position with
  | nil => simp [indexLoop]
  | cons first rest ih =>
      have isFirst := List.ne_of_not_mem_cons notTail
      have outside := List.not_mem_of_not_mem_cons notTail
      obtain ⟨isNext, later⟩ := chain_next (List.cons_ne_nil _ _) chain
      rw [List.cons_append, List.head?_cons, indexLoop, if_neg (Ne.symm isFirst)]
      by_cases same : first = node
      · simp [same]
      · rw [List.idxOf_cons_ne _ same] at enough ⊢
        obtain ⟨fuel, rfl⟩ := Nat.exists_eq_succ_of_ne_zero (by omega : fuel ≠ 0)
        rw [if_neg same, isNext, ih later outside _ (by omega)]
        simp only [List.mem_cons, Ne.symm same, false_or]
        congr 1
        split <;> omega

theorem index_mem {front back : List α}
    (holds : Holds memory l (front ++ node :: back)) {fuel : Nat}
    (enough : front.length < fuel) :
    index fuel memory l node = some front.length := by
  have notNode : node ∉ front := fun member =>
    (List.nodup_append.mp holds.nodup).2.2 node member node List.mem_cons_self rfl
  have place : (front ++ node :: back).idxOf node = front.length := by
    rw [List.idxOf_append_of_notMem notNode, List.idxOf_cons_self, Nat.add_zero]
  obtain ⟨isNext, later⟩ := chain_next (List.cons_ne_nil _ _) holds.linked.chain
  rw [index, isNext, indexLoop_chain later holds.tail_not_mem (by omega), place]
  simp

theorem index_not_mem (holds : Holds memory l nodes) {fuel : Nat}
    (outside : node ∉ nodes) (enough : nodes.length < fuel) :
    index fuel memory l node = some (-1) := by
  obtain ⟨isNext, later⟩ := chain_next (List.cons_ne_nil _ _) holds.linked.chain
  rw [index, isNext, indexLoop_chain later holds.tail_not_mem
    (by rw [List.idxOf_eq_length outside]; exact enough), if_neg outside]

theorem remove_holds {front back : List α}
    (holds : Holds memory l (front ++ node :: back)) :
    ∃ after, (∀ fuel, front.length < fuel → remove fuel memory l node =
        some (after, { l with size := l.size - 1 })) ∧
      Holds after { l with size := l.size - 1 } (front ++ back) ∧
      Writes (fun other => other ∈ l.span (front ++ back)) memory after := by
  obtain ⟨left, right, toNode, fromNode, leftRight⟩ := holds.between
  have nodeLeft := Lawful.apart_symm toNode.apart
  have rightLeft := Lawful.apart_symm leftRight
  obtain ⟨shrunk, leftMem, rightMem⟩ := @Holds.unlink σ α _ _ memory l node front back left right
    (setPre (setNext memory left (some right)) right (some left)) holds toNode fromNode
    ⟨by simp [leftRight], by simp⟩ (by simp [leftRight]) (by simp [rightLeft])
    (by intro other otherLeft otherNode otherRight
        simp [otherLeft, otherRight])
  refine ⟨_, fun fuel enough => ?_, shrunk, .setPre _ (.setNext _ (.refl _) leftMem) rightMem⟩
  simp [remove, index_mem holds enough, toNode.adjacent.2, fromNode.adjacent.1, nodeLeft]

theorem remove_not_mem (holds : Holds memory l nodes) {fuel : Nat}
    (outside : node ∉ nodes) (enough : nodes.length < fuel)
    (cleared : pre memory node = none) :
    remove fuel memory l node = some (memory, l) := by
  simp [remove, index_not_mem holds outside enough, cleared]

omit [Lawful σ] in
private theorem findLoop_chain {fuel : Nat} {found : α → Bool}
    (chain : List.IsChain (Adjacent memory) (nodes ++ [l.tail]))
    (notTail : l.tail ∉ nodes) (enough : nodes.length < fuel) :
    findLoop memory l.tail found fuel (nodes ++ [l.tail]).head? = some (nodes.find? found) := by
  obtain ⟨fuel, rfl⟩ := Nat.exists_eq_succ_of_ne_zero (by omega : fuel ≠ 0)
  induction nodes generalizing fuel with
  | nil => simp [findLoop]
  | cons first rest ih =>
      have isFirst := List.ne_of_not_mem_cons notTail
      have outside := List.not_mem_of_not_mem_cons notTail
      obtain ⟨isNext, later⟩ := chain_next (List.cons_ne_nil _ _) chain
      rw [List.length_cons] at enough
      obtain ⟨fuel, rfl⟩ := Nat.exists_eq_succ_of_ne_zero (by omega : fuel ≠ 0)
      rw [List.cons_append, List.head?_cons, findLoop, if_neg (Ne.symm isFirst)]
      by_cases matched : found first = true
      · simp [matched]
      · rw [if_neg matched, isNext, ih later outside _ (by omega)]
        simp [matched]

theorem find_holds (holds : Holds memory l nodes) {fuel : Nat}
    (enough : nodes.length < fuel) (found : α → Bool) :
    find fuel memory l found = some (nodes.find? found) := by
  obtain ⟨isNext, later⟩ := chain_next (List.cons_ne_nil _ _) holds.linked.chain
  rw [find, isNext]
  exact findLoop_chain later holds.tail_not_mem enough

omit [DecidableEq α] [Lawful σ] in
theorem popr_empty (holds : Holds memory l []) :
    popr memory l = some (memory, l, none) := by
  have size : l.size = 0 := by simpa using holds.size
  simp [popr, size]

omit [DecidableEq α] in
theorem popr_holds (holds : Holds memory l (nodes ++ [node])) :
    ∃ after, popr memory l =
        some (after, { l with size := l.size - 1 }, some node) ∧
      Holds after { l with size := l.size - 1 } nodes ∧
      Writes (l.Touches nodes node) memory after := by
  obtain ⟨left, right, toNode, fromNode, leftRight⟩ := holds.between
  obtain ⟨behind, isRight⟩ := fromNode.isRight
  obtain ⟨rfl, -⟩ := List.cons.inj isRight
  have leftNode := toNode.apart
  have nodeRight := fromNode.apart
  have rightLeft := Lawful.apart_symm leftRight
  have rightNode := Lawful.apart_symm nodeRight
  have positive : ¬ l.size ≤ 0 := by
    rw [holds.size, List.length_append, List.length_singleton]
    omega
  obtain ⟨shrunk, leftMem, -⟩ := @Holds.unlink σ α _ _ memory l node nodes [] left l.tail
    (setNext (setPre (setNext (setPre memory l.tail (some left)) left (some l.tail))
      node none) node none) holds toNode fromNode
    ⟨by simp [leftNode], by simp [rightLeft, rightNode]⟩
    (by simp [leftNode, leftRight]) (by simp [rightNode, rightLeft])
    (by intro other otherLeft otherNode otherRight
        simp [otherLeft, otherNode, otherRight])
  rw [List.append_nil] at shrunk leftMem
  refine ⟨_, by simp [popr, positive, toNode.adjacent.2, fromNode.adjacent.2, nodeRight],
    shrunk, ?_⟩
  exact .setNext _ (.setPre _ (.setNext _ (.setPre _ (.refl _) (.inr (by simp)))
    (.inr leftMem)) (.inl rfl)) (.inl rfl)

omit [DecidableEq α] [Lawful σ] in
private theorem walk_chain {front back : List α}
    (chain : List.IsChain (Adjacent memory) (front ++ node :: back)) :
    walk memory front.length (front ++ node :: back).head? = some (some node) := by
  induction front with
  | nil => rfl
  | cons first rest ih =>
      obtain ⟨isNext, later⟩ := chain_next (List.cons_ne_nil _ _) chain
      rw [List.length_cons, List.cons_append, List.head?_cons, walk, Option.bind_eq_bind,
        Option.bind_some, isNext]
      exact ih later

omit [DecidableEq α] [Lawful σ] in
theorem walk_holds {front back : List α} (holds : Holds memory l (front ++ node :: back)) :
    walk memory front.length (next memory l.head) = some (some node) := by
  have chain := holds.linked.chain
  rw [span, List.append_assoc] at chain
  obtain ⟨isNext, later⟩ := chain_next (List.cons_ne_nil _ _) chain
  rw [isNext]
  exact walk_chain later

omit [DecidableEq α] [Lawful σ] in
theorem nodeAt_holds {front back : List α} (holds : Holds memory l (front ++ node :: back)) :
    nodeAt memory l front.length = some (some node) := by
  have inside : ¬ ((front.length : Int) < 0 ∨ l.size ≤ front.length) := by
    rw [holds.size, List.length_append, List.length_cons]
    omega
  rw [nodeAt, if_neg inside]
  exact walk_holds holds

omit [DecidableEq α] [Lawful σ] in
theorem nodeAt_outside (holds : Holds memory l nodes) {index : Int}
    (outside : index < 0 ∨ (nodes.length : Int) ≤ index) : nodeAt memory l index = some none := by
  rw [← holds.size] at outside
  rw [nodeAt, if_pos outside]

omit [DecidableEq α] [Lawful σ] in
theorem removeAt_outside (holds : Holds memory l nodes) {index : Int}
    (outside : index < 0 ∨ (nodes.length : Int) ≤ index) :
    removeAt memory l index = some (memory, l, none) := by
  rw [removeAt, nodeAt_outside holds outside]
  rfl

omit [DecidableEq α] in
theorem removeAt_holds {front back : List α} (holds : Holds memory l (front ++ node :: back)) :
    ∃ after, removeAt memory l front.length =
        some (after, { l with size := l.size - 1 }, some node) ∧
      Holds after { l with size := l.size - 1 } (front ++ back) ∧
      Writes (l.Touches (front ++ back) node) memory after := by
  obtain ⟨left, right, toNode, fromNode, leftRight⟩ := holds.between
  have leftNode := toNode.apart
  have nodeLeft := Lawful.apart_symm leftNode
  have rightLeft := Lawful.apart_symm leftRight
  have rightNode := Lawful.apart_symm fromNode.apart
  obtain ⟨shrunk, leftMem, rightMem⟩ := @Holds.unlink σ α _ _ memory l node front back left right
    (setNext (setPre (setPre (setNext memory left (some right)) right (some left))
      node none) node none) holds toNode fromNode
    ⟨by simp [leftNode, leftRight], by simp [rightNode]⟩
    (by simp [leftNode, leftRight]) (by simp [rightNode, rightLeft])
    (by intro other otherLeft otherNode otherRight
        simp [otherLeft, otherNode, otherRight])
  refine ⟨_, ?_, shrunk, .setNext _ (.setPre _ (.setPre _ (.setNext _ (.refl _) (.inr leftMem))
    (.inr rightMem)) (.inl rfl)) (.inl rfl)⟩
  rw [removeAt, nodeAt_holds holds]
  simp [toNode.adjacent.2, fromNode.adjacent.1, nodeLeft]

omit [DecidableEq α] in
private theorem add_before {front back : List α} {p : α}
    (holds : Holds memory l (front ++ p :: back)) (inside : 0 < front.length)
    (fresh : ∀ other ∈ l.span (front ++ p :: back), Apart σ node other) :
    ∃ after, add memory l front.length node =
        some (after, { l with size := l.size + 1 }, (front.length : Int)) ∧
      Holds after { l with size := l.size + 1 } (front ++ node :: p :: back) ∧
      Writes (l.Touches (front ++ p :: back) node) memory after := by
  obtain ⟨left, right, gap⟩ := holds.gap
  obtain ⟨leftMem, rightMem⟩ := Holds.gap_mem gap
  obtain ⟨behind, isRight⟩ := gap.isRight
  obtain ⟨rfl, -⟩ := List.cons.inj isRight
  have nodeLeft := fresh left leftMem
  have nodeP := fresh p rightMem
  have leftP := gap.apart
  have leftNode := Lawful.apart_symm nodeLeft
  have pNode := Lawful.apart_symm nodeP
  have pLeft := Lawful.apart_symm leftP
  have notFirst : ¬ (front.length : Int) ≤ 0 := by omega
  have notLast : ¬ l.size ≤ front.length := by
    rw [holds.size, List.length_append, List.length_cons]
    omega
  refine ⟨setPre (setNext (setPre (setNext memory node (some p)) node (some left)) left
    (some node)) p (some node), ?_, holds.insert gap fresh
    ⟨by simp [leftP], by simp [nodeLeft, nodeP]⟩
    ⟨by simp [nodeLeft, nodeP], by simp⟩
    (by simp [leftP, leftNode]) (by simp [pLeft, pNode])
    (by intro other otherLeft otherNode otherP
        simp [otherLeft, otherNode, otherP]), ?_⟩
  · rw [add, if_neg notFirst, if_neg notLast, Int.toNat_natCast, walk_holds holds]
    simp [gap.adjacent.2, pNode]
  · exact .setPre _ (.setNext _ (.setPre _ (.setNext _ (.refl _) (.inl rfl)) (.inl rfl))
      (.inr leftMem)) (.inr rightMem)

omit [DecidableEq α] in
theorem add_holds (holds : Holds memory l nodes) (index : Int)
    (fresh : ∀ other ∈ l.span nodes, Apart σ node other) :
    ∃ after, add memory l index node =
        some (after, { l with size := l.size + 1 }, ((min index.toNat nodes.length : Nat) : Int)) ∧
      Holds after { l with size := l.size + 1 }
        (nodes.take index.toNat ++ node :: nodes.drop index.toNat) ∧
      Writes (l.Touches nodes node) memory after := by
  by_cases first : index ≤ 0
  · obtain ⟨after, pushed, grown, writes⟩ := pushl_holds holds fresh
    have zero : index.toNat = 0 := Int.toNat_of_nonpos first
    refine ⟨after, ?_, ?_, writes⟩
    · rw [add, if_pos first, pushed, zero, Nat.zero_min]
      rfl
    · rw [zero]
      exact grown
  by_cases last : l.size ≤ index
  · obtain ⟨after, pushed, grown, writes⟩ := pushr_holds holds fresh
    have size := holds.size
    have beyond : nodes.length ≤ index.toNat := by omega
    refine ⟨after, ?_, ?_, writes⟩
    · rw [add, if_neg first, if_pos last, pushed, Nat.min_eq_right beyond, ← size]
      simp
    · rw [List.take_of_length_le beyond, List.drop_of_length_le beyond]
      exact grown
  · have size := holds.size
    have below : index.toNat < nodes.length := by omega
    have length : (nodes.take index.toNat).length = index.toNat := by
      rw [List.length_take]
      omega
    have isIndex : ((nodes.take index.toNat).length : Int) = index := by
      rw [length]
      omega
    have split : nodes.take index.toNat ++ nodes[index.toNat] :: nodes.drop (index.toNat + 1) =
        nodes := by
      rw [← List.drop_eq_getElem_cons below, List.take_append_drop]
    obtain ⟨after, added, grown, writes⟩ :=
      add_before (split ▸ holds) (by omega) (split ▸ fresh)
    rw [split] at writes
    rw [isIndex] at added
    refine ⟨after, ?_, ?_, writes⟩
    · rw [added, Nat.min_eq_left (Nat.le_of_lt below), ← length, isIndex]
    · rw [List.drop_eq_getElem_cons below]
      exact grown

end Specifications

end KernelList

end CleanOS.Common
