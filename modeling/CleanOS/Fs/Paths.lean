import Mathlib.Data.List.Basic
import Mathlib.Data.List.TakeWhile

/-!
# Paths

The components of a path, and `path_next_child` of `kernel/fs/file.h`.  A path is the bytes
before the end of its string.
-/

namespace CleanOS.Fs

def components (path : List UInt8) : List (List UInt8) :=
  (path.splitOn 0x2f).filter (· ≠ [])

def IsAbsolute (path : List UInt8) : Prop :=
  ∀ char ∈ path.head?, char = 0x2f

/-- The components of one path begin those of another. -/
structure ComponentPrefix (front path : List UInt8) : Prop where
  absolute : IsAbsolute front ↔ IsAbsolute path
  components : components front <+: components path

def skipSlash : List UInt8 → List UInt8
  | [] => []
  | char :: path => if char = 0x2f then path else char :: path

/-- `path_next_child`. -/
def pathNextChild (path : List UInt8) : List UInt8 :=
  skipSlash ((skipSlash path).dropWhile (· ≠ 0x2f))

/-- How many components `path_next_child` takes away, where there are so many. -/
def skippedComponents (path : List UInt8) : Nat :=
  if path.take 2 = [0x2f, 0x2f] then 0 else 1

def AtBoundary (front path : List UInt8) : Prop :=
  path.length = front.length ∨ path[front.length]? = some 0x2f ∨ front.getLast? = some 0x2f

instance (front path : List UInt8) : Decidable (AtBoundary front path) :=
  inferInstanceAs (Decidable (_ ∨ _ ∨ _))

variable {front path name rest : List UInt8} {char : UInt8}

@[simp]
theorem components_nil : components [] = [] :=
  rfl

theorem components_append_slash :
    components (front ++ 0x2f :: path) = components front ++ components path := by
  unfold components
  rw [List.splitOn_append_cons_self, List.filter_append]

theorem components_slash : components (0x2f :: path) = components path :=
  @components_append_slash [] path

theorem components_name (noSlash : 0x2f ∉ name) (nonempty : name ≠ []) :
    components name = [name] := by
  unfold components
  rw [List.splitOn_eq_singleton noSlash]
  simp [nonempty]

@[simp]
theorem skipSlash_slash : skipSlash (0x2f :: path) = path :=
  rfl

theorem skipSlash_cons (noSlash : char ≠ 0x2f) : skipSlash (char :: path) = char :: path :=
  if_neg noSlash

theorem components_skipSlash : components (skipSlash path) = components path := by
  cases path with
  | nil => rfl
  | cons char path =>
      by_cases isSlash : char = 0x2f
      · rw [isSlash, skipSlash_slash, components_slash]
      · rw [skipSlash_cons isSlash]

theorem components_dropSlashes : components (path.dropWhile (· = 0x2f)) = components path := by
  induction path with
  | nil => rfl
  | cons char path ih =>
      by_cases isSlash : char = 0x2f
      · rw [List.dropWhile_cons_of_pos (by simp [isSlash]), isSlash, components_slash, ih]
      · rw [List.dropWhile_cons_of_neg (by simp [isSlash])]

theorem notMem_takeWhile : 0x2f ∉ path.takeWhile (· ≠ 0x2f) := by
  intro member
  have before := List.mem_takeWhile_imp member
  exact of_decide_eq_true before rfl

theorem components_cons (noSlash : char ≠ 0x2f) :
    components (char :: path) = (char :: path.takeWhile (· ≠ 0x2f)) ::
      components (skipSlash (path.dropWhile (· ≠ 0x2f))) := by
  obtain ⟨first, isFirst⟩ : ∃ first, first = char :: path.takeWhile (· ≠ 0x2f) := ⟨_, rfl⟩
  have firstNoSlash : 0x2f ∉ first := by
    rw [isFirst]
    intro member
    rcases List.mem_cons.mp member with same | later
    · exact noSlash same.symm
    · exact notMem_takeWhile later
  have nonempty : first ≠ [] := by
    rw [isFirst]
    exact List.cons_ne_nil _ _
  have split : char :: path = first ++ path.dropWhile (· ≠ 0x2f) := by
    rw [isFirst, List.cons_append, List.takeWhile_append_dropWhile]
  rw [← isFirst, split]
  cases later : path.dropWhile (· ≠ 0x2f) with
  | nil => rw [List.append_nil, components_name firstNoSlash nonempty]; rfl
  | cons next rest =>
      have isSlash : next = 0x2f := by
        have stops := List.head?_dropWhile_not (fun char : UInt8 => decide (char ≠ 0x2f)) path
        rw [later] at stops
        simpa using stops
      rw [isSlash, components_append_slash, components_name firstNoSlash nonempty]
      rfl

theorem components_eq_nil (noNames : components path = []) : ∀ char ∈ path, char = 0x2f := by
  induction path with
  | nil => exact fun char member => nomatch member
  | cons first path ih =>
      by_cases isSlash : first = 0x2f
      · rw [isSlash, components_slash] at noNames
        rw [isSlash]
        intro char member
        rcases List.mem_cons.mp member with same | later
        · exact same
        · exact ih noNames char later
      · rw [components_cons isSlash] at noNames
        cases noNames

theorem components_pathNextChild :
    components (pathNextChild path) = (components path).drop (skippedComponents path) := by
  unfold pathNextChild
  rw [← @components_skipSlash path]
  cases skipped : skipSlash path with
  | nil => simp [skipSlash]
  | cons char rest =>
      by_cases isSlash : char = 0x2f
      · subst isSlash
        have doubled : path.take 2 = [0x2f, 0x2f] := by
          cases path with
          | nil => cases skipped
          | cons first path =>
              by_cases isFirst : first = 0x2f
              · rw [isFirst, skipSlash_slash] at skipped
                rw [isFirst, skipped]
                rfl
              · rw [skipSlash_cons isFirst] at skipped
                exact absurd (List.cons.inj skipped).1 isFirst
        simp [skippedComponents, doubled, skipSlash, components_slash]
      · have single : path.take 2 ≠ [0x2f, 0x2f] := by
          intro doubled
          cases path with
          | nil => cases doubled
          | cons first path =>
              have isFirst : first = 0x2f := (List.cons.inj doubled).1
              rw [isFirst, skipSlash_slash] at skipped
              rw [skipped] at doubled
              simp only [List.take_succ_cons, List.take_zero, List.cons.injEq, and_true] at doubled
              exact isSlash doubled.2
        rw [components_cons isSlash]
        simp [skippedComponents, single, isSlash]

theorem AtBoundary.components (isPrefix : front <+: path) (boundary : AtBoundary front path) :
    components front <+: components path := by
  obtain ⟨tail, rfl⟩ := isPrefix
  rcases boundary with whole | next | last
  · have empty : tail = [] := by
      rw [List.length_append] at whole
      exact List.length_eq_zero_iff.mp (by omega)
    exact ⟨[], by rw [empty, List.append_nil, List.append_nil]⟩
  · cases tail with
    | nil => simp at next
    | cons char tail =>
        have isSlash : char = 0x2f := by simpa using next
        rw [isSlash, components_append_slash]
        exact List.prefix_append _ _
  · obtain ⟨before, rfl⟩ := List.getLast?_eq_some_iff.mp last
    rw [List.append_assoc, List.singleton_append, components_append_slash,
      components_append_slash, components_nil, List.append_nil]
    exact List.prefix_append _ _

theorem components_append_name (noSlash : 0x2f ∉ name) (nonempty : name ≠ [])
    (notSlash : char ≠ 0x2f) :
    ∃ more later, components (name ++ char :: rest) = (name ++ char :: more) :: later := by
  cases name with
  | nil => exact absurd rfl nonempty
  | cons first name =>
      have isName : first ≠ 0x2f ∧ 0x2f ∉ name := by
        constructor
        · exact fun same => noSlash (same ▸ List.mem_cons_self)
        · exact fun member => noSlash (List.mem_cons_of_mem _ member)
      have before : ∀ other ∈ name, decide (other ≠ 0x2f) = true := by
        intro other member
        exact decide_eq_true fun same => isName.2 (same ▸ member)
      refine ⟨rest.takeWhile (· ≠ 0x2f), components (skipSlash
        ((name ++ char :: rest).dropWhile (· ≠ 0x2f))), ?_⟩
      rw [List.cons_append, components_cons isName.1, List.takeWhile_append_of_pos before,
        List.takeWhile_cons_of_pos (by simpa using notSlash)]
      rfl

theorem exists_last_name (nonempty : path ≠ []) (noSlash : path.getLast? ≠ some 0x2f) :
    ∃ front name, path = front ++ name ∧ 0x2f ∉ name ∧ name ≠ [] ∧
      ∀ rest, components (front ++ rest) = components front ++ components rest := by
  by_cases member : 0x2f ∈ path.reverse
  · obtain ⟨behind, before, split, notBehind⟩ := List.eq_append_cons_of_mem member
    have isPath : path = (before.reverse ++ [0x2f]) ++ behind.reverse := by
      rw [← List.reverse_reverse path, split]
      simp
    refine ⟨before.reverse ++ [0x2f], behind.reverse, isPath, ?_, ?_, ?_⟩
    · rw [List.mem_reverse]
      exact notBehind
    · intro empty
      rw [isPath, empty, List.append_nil, List.getLast?_append_of_ne_nil _ (List.cons_ne_nil _ _)]
        at noSlash
      exact noSlash rfl
    · intro rest
      rw [List.append_assoc, List.singleton_append, components_append_slash,
        components_append_slash, components_nil, List.append_nil]
  · refine ⟨[], path, rfl, ?_, nonempty, fun _ => rfl⟩
    intro inside
    exact member (List.mem_reverse.mpr inside)

theorem atBoundary_iff (isPrefix : front <+: path) :
    AtBoundary front path ↔ ComponentPrefix front path := by
  constructor
  · intro boundary
    refine ⟨?_, boundary.components isPrefix⟩
    obtain ⟨tail, rfl⟩ := isPrefix
    cases front with
    | nil =>
        refine iff_of_true (fun char isHead => nomatch isHead) ?_
        intro char isHead
        cases tail with
        | nil => cases isHead
        | cons first tail =>
            cases isHead
            rcases boundary with whole | next | last
            · cases whole
            · exact Option.some.inj next
            · cases last
    | cons first front => exact Iff.rfl
  · intro ⟨absolute, inComponents⟩
    obtain ⟨tail, rfl⟩ := isPrefix
    cases tail with
    | nil => exact .inl (by rw [List.append_nil])
    | cons char tail =>
        by_cases isSlash : char = 0x2f
        · exact .inr (.inl (by simp [isSlash]))
        by_cases last : front.getLast? = some 0x2f
        · exact .inr (.inr last)
        exfalso
        by_cases empty : front = []
        · subst empty
          exact isSlash (absolute.mp (fun char isHead => nomatch isHead) char rfl)
        · obtain ⟨before, name, rfl, noSlash, nonempty, splits⟩ := exists_last_name empty last
          obtain ⟨more, later, first⟩ :=
            @components_append_name name tail char noSlash nonempty isSlash
          rw [List.append_assoc, splits, splits, components_name noSlash nonempty, first,
            List.prefix_append_right_inj, List.cons_prefix_cons] at inComponents
          have lengths := congrArg List.length inComponents.1
          simp at lengths

theorem skipSlash_suffix : skipSlash path <:+ path := by
  cases path with
  | nil => exact List.suffix_refl _
  | cons char path =>
      by_cases isSlash : char = 0x2f
      · rw [isSlash, skipSlash_slash]
        exact List.suffix_cons _ _
      · exact (skipSlash_cons isSlash).symm ▸ List.suffix_refl _

theorem pathNextChild_suffix : pathNextChild path <:+ path := by
  unfold pathNextChild
  exact skipSlash_suffix.trans ((List.dropWhile_suffix _).trans skipSlash_suffix)

/-- `path_next_child` leaves what comes after a prefix exactly when that has as many components
as it takes away. -/
theorem pathNextChild_rest (inComponents : components front <+: components path) :
    components path = components front ++ components (pathNextChild path) ↔
      (components front).length = min (skippedComponents path) (components path).length := by
  rw [components_pathNextChild]
  have shorter := inComponents.length_le
  constructor
  · intro split
    have lengths := congrArg List.length split
    rw [List.length_append, List.length_drop] at lengths
    omega
  · intro sameLength
    have isTake : components front = (components path).take (skippedComponents path) := by
      rw [List.prefix_iff_eq_take.mp inComponents, sameLength, ← List.take_take,
        List.take_length]
    rw [isTake, List.take_append_drop]

end CleanOS.Fs
