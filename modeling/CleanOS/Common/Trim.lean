import CleanOS.Common.CString

/-!
# Cutting blanks off strings

`trim_strlen`, `replace_all` and `trim` of `common/lib/string.c`.
-/

namespace CleanOS.Common

/-- `trim_strlen` of the memory from a pointer to the last address.  The pointer that comes after
it is zero, and ends the loop as well. -/
def trimStrlen (str : List UInt8) : Nat :=
  str.findIdx fun c => c = 0x20 ∨ c = 0

/-- The loop of `replace_all`, which asks for the length anew in every pass, with a bound on the
passes that are left. -/
def replaceAllLoop (new old : UInt8) :
    Nat → List UInt8 → (i count : Nat) → Option (List UInt8 × Nat)
  | 0, str, _, count => some (str, count)
  | left + 1, str, i, count => do
      if i < (← strlen str 0) then
        if str[i]? = some old then replaceAllLoop new old left (str.set i new) (i + 1) (count + 1)
        else replaceAllLoop new old left str (i + 1) count
      else some (str, count)

/-- `replace_all`: the memory and the count. -/
def replaceAll (str : List UInt8) (new old : UInt8) : Option (List UInt8 × Nat) :=
  replaceAllLoop new old str.length str 0 0

/-- `trim`. -/
def trim (str : List UInt8) : Option (List UInt8 × Nat) :=
  replaceAll str 0 0x20

def stringAt (mem : List UInt8) : Option (List UInt8) :=
  (strlen mem 0).map mem.take

variable {text back : List UInt8} {new old c : UInt8}

theorem strlen_start (noNul : 0 ∉ text) : strlen (text ++ 0 :: back) 0 = some text.length :=
  @strlen_text [] back text noNul

theorem stringAt_text (noNul : 0 ∉ text) : stringAt (text ++ 0 :: back) = some text := by
  rw [stringAt, strlen_start noNul, Option.map_some, List.take_left]

theorem trimStrlen_text (plain : ∀ d ∈ text, d ≠ 0x20 ∧ d ≠ 0) (stops : c = 0x20 ∨ c = 0) :
    trimStrlen (text ++ c :: back) = text.length := by
  apply findIdx_stop
  · intro d member
    apply decide_eq_false
    rintro (blank | zero)
    · exact (plain d member).1 blank
    · exact (plain d member).2 zero
  · exact decide_eq_true stops

theorem replaceAllLoop_text (noNul : 0 ∉ text) (noOld : old ∉ text) :
    ∀ {left i : Nat} {count : Nat}, i ≤ text.length →
      replaceAllLoop new old left (text ++ 0 :: back) i count =
        some (text ++ 0 :: back, count) := by
  intro left
  induction left with
  | zero =>
      intro i count _
      rfl
  | succ left ih =>
      intro i count inside
      rw [replaceAllLoop, strlen_start noNul]
      by_cases more : i < text.length
      · have other : (text ++ 0 :: back)[i]? ≠ some old := by
          rw [List.getElem?_append_left more]
          intro found
          exact noOld (List.mem_of_getElem? found)
        simp only [Option.bind_eq_bind, Option.bind_some, if_pos more, if_neg other]
        exact ih more
      · simp only [Option.bind_eq_bind, Option.bind_some, if_neg more]

theorem replaceAllLoop_front {size left : Nat} (noOld : old ∉ text)
    (isSize : strlen (text ++ old :: back) 0 = some size) (longer : text.length < size) :
    ∀ {rest i : Nat} {count : Nat}, text.length = i + rest →
      replaceAllLoop new old (rest + left) (text ++ old :: back) i count =
        replaceAllLoop new old left (text ++ old :: back) text.length count := by
  intro rest
  induction rest with
  | zero =>
      intro i count isLength
      rw [Nat.zero_add, isLength, Nat.add_zero]
  | succ rest ih =>
      intro i count isLength
      have more : i < text.length := by omega
      have other : (text ++ old :: back)[i]? ≠ some old := by
        rw [List.getElem?_append_left more]
        intro found
        exact noOld (List.mem_of_getElem? found)
      rw [Nat.add_right_comm, replaceAllLoop, isSize]
      simp only [Option.bind_eq_bind, Option.bind_some, if_pos (Nat.lt_trans more longer),
        if_neg other]
      apply ih
      omega

theorem trim_text (noNul : 0 ∉ text) (noBlank : 0x20 ∉ text) :
    trim (text ++ 0 :: back) = some (text ++ 0 :: back, 0) :=
  replaceAllLoop_text noNul noBlank (Nat.zero_le _)

/-- `trim` ends a string at its first blank.  What follows is not trimmed, since the string has
become shorter. -/
theorem trim_blank (noNul : 0 ∉ text) (noBlank : 0x20 ∉ text) (ends : 0 ∈ back) :
    trim (text ++ 0x20 :: back) = some (text ++ 0 :: back, 1) := by
  obtain ⟨middle, later, rfl, noMiddle⟩ := List.eq_append_cons_of_mem ends
  have noFront : 0 ∉ text ++ 0x20 :: middle := by
    intro member
    rcases List.mem_append.mp member with front | back
    · exact noNul front
    · rcases List.mem_cons.mp back with blank | inside
      · exact absurd blank (by decide)
      · exact noMiddle inside
  have isSize : strlen (text ++ 0x20 :: (middle ++ 0 :: later)) 0 =
      some (text ++ 0x20 :: middle).length := by
    have found := @strlen_start _ later noFront
    rwa [List.append_assoc, List.cons_append] at found
  have longer : text.length < (text ++ 0x20 :: middle).length := by
    rw [List.length_append, List.length_cons]
    omega
  have passes : (text ++ 0x20 :: (middle ++ 0 :: later)).length =
      text.length + (middle.length + later.length + 1 + 1) := by
    simp only [List.length_append, List.length_cons]
    omega
  rw [trim, replaceAll, passes, replaceAllLoop_front noBlank isSize longer (Nat.zero_add _).symm,
    replaceAllLoop, isSize]
  have isBlank : (text ++ 0x20 :: (middle ++ 0 :: later))[text.length]? = some 0x20 := by
    rw [List.getElem?_append_right (Nat.le_refl _), Nat.sub_self]
    rfl
  simp only [Option.bind_eq_bind, Option.bind_some, if_pos longer, if_pos isBlank]
  have ended : (text ++ 0x20 :: (middle ++ 0 :: later)).set text.length 0 =
      text ++ 0 :: (middle ++ 0 :: later) := by
    rw [List.set_append_right _ _ (Nat.le_refl _), Nat.sub_self]
    rfl
  rw [ended, replaceAllLoop, strlen_start noNul]
  exact if_neg (Nat.not_lt_of_le (Nat.le_succ _))

def blankTail (blanks zeros : Nat) : List UInt8 :=
  List.replicate blanks 0x20 ++ List.replicate zeros 0

variable {blanks zeros : Nat}

theorem drop_blankTail (size : Nat) :
    (blankTail blanks zeros).drop size = blankTail (blanks - size) (zeros - (size - blanks)) := by
  rw [blankTail, List.drop_append, List.drop_replicate, List.drop_replicate,
    List.length_replicate]
  rfl

theorem replicate_blankTail (more : Nat) :
    List.replicate more 0x20 ++ blankTail blanks zeros = blankTail (more + blanks) zeros := by
  rw [blankTail, ← List.append_assoc, List.replicate_append_replicate]
  rfl

theorem zero_notMem_plain (plain : ∀ d ∈ text, d ≠ 0x20 ∧ d ≠ 0) : 0 ∉ text := by
  intro member
  exact (plain 0 member).2 rfl

theorem blank_notMem_plain (plain : ∀ d ∈ text, d ≠ 0x20 ∧ d ≠ 0) : 0x20 ∉ text := by
  intro member
  exact (plain 0x20 member).1 rfl

theorem trimStrlen_blankTail (plain : ∀ d ∈ text, d ≠ 0x20 ∧ d ≠ 0) (some : 0 < zeros) :
    trimStrlen (text ++ blankTail blanks zeros) = text.length := by
  obtain ⟨zeros, rfl⟩ := Nat.exists_eq_succ_of_ne_zero (Nat.ne_of_gt some)
  cases blanks with
  | zero => exact trimStrlen_text plain (.inr rfl)
  | succ blanks => exact trimStrlen_text plain (.inl rfl)

theorem trim_blankTail (plain : ∀ d ∈ text, d ≠ 0x20 ∧ d ≠ 0) (some : 0 < zeros) :
    ((trim (text ++ blankTail blanks zeros)).bind fun result => stringAt result.1) =
      .some text := by
  have noNul := zero_notMem_plain plain
  have noBlank := blank_notMem_plain plain
  obtain ⟨zeros, rfl⟩ := Nat.exists_eq_succ_of_ne_zero (Nat.ne_of_gt some)
  cases blanks with
  | zero =>
      change ((trim (text ++ 0 :: List.replicate zeros 0)).bind _) = _
      rw [trim_text noNul noBlank]
      exact stringAt_text noNul
  | succ blanks =>
      change ((trim (text ++ 0x20 :: (blankTail blanks (zeros + 1)))).bind _) = _
      have ends : 0 ∈ blankTail blanks (zeros + 1) :=
        List.mem_append_right _ List.mem_cons_self
      rw [trim_blank noNul noBlank ends]
      exact stringAt_text noNul

theorem memcpy_behind {tail src : List UInt8} (room : src.length ≤ tail.length) :
    memcpy (text ++ tail) text.length src = some (text ++ src ++ tail.drop src.length) := by
  rw [memcpy_isSome (by rw [List.length_append]; omega), List.take_left, ← List.drop_drop,
    List.drop_left]

end CleanOS.Common
