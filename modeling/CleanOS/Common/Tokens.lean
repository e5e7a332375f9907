import CleanOS.Common.Trim
import Mathlib.Data.List.TakeWhile

/-!
# Tokens

`strtok_r` of `common/lib/string.c` gives the runs of a text between delimiters one after the
other, and ends each of them with a zero in the memory.
-/

namespace CleanOS.Common

def runs (delim text : List UInt8) : List (List UInt8) :=
  (text.splitOnP (· ∈ delim)).filter (· ≠ [])

def fields (sep : UInt8) (text : List UInt8) : List (List UInt8) :=
  (text.splitOn sep).filter (· ≠ [])

variable {sep c : UInt8} {delim text seps name stop rest rest' front back : List UInt8}

theorem fields_eq_runs : fields sep text = runs [sep] text := by
  have same : (fun c => decide (c ∈ [sep])) = fun c => c == sep := by
    funext c
    exact decide_eq_decide.mpr List.mem_singleton
  rw [runs, same]
  rfl

theorem runs_append_delim (isDelim : c ∈ delim) :
    runs delim (front ++ c :: rest) = runs delim front ++ runs delim rest := by
  unfold runs
  rw [@List.splitOnP_append_cons _ (· ∈ delim) _ _ c (decide_eq_true isDelim),
    List.filter_append]

theorem runs_run (noDelim : ∀ d ∈ name, d ∉ delim) (nonempty : name ≠ []) :
    runs delim name = [name] := by
  unfold runs
  rw [List.splitOnP_eq_singleton fun d member => decide_eq_false (noDelim d member)]
  simp [nonempty]

theorem runs_cases (delim text : List UInt8) :
    (runs delim text = [] ∧ ∀ c ∈ text, c ∈ delim) ∨
    ∃ seps name, (∀ c ∈ seps, c ∈ delim) ∧ name ≠ [] ∧ (∀ c ∈ name, c ∉ delim) ∧
      (text = seps ++ name ∧ runs delim text = [name] ∨
        ∃ sep rest, sep ∈ delim ∧ text = seps ++ name ++ sep :: rest ∧
          runs delim text = name :: runs delim rest) := by
  induction text with
  | nil => exact .inl ⟨rfl, fun _ member => absurd member List.not_mem_nil⟩
  | cons c text ih =>
      by_cases isDelim : c ∈ delim
      · have skipped : runs delim (c :: text) = runs delim text :=
          @runs_append_delim c delim text [] isDelim
        rw [skipped]
        rcases ih with ⟨none, all⟩ | ⟨seps, name, isSeps, nonempty, noDelim, split⟩
        · refine .inl ⟨none, fun d member => ?_⟩
          exact (List.mem_cons.mp member).elim (fun same => same ▸ isDelim) (all d)
        · refine .inr ⟨c :: seps, name, fun d member => ?_, nonempty, noDelim, ?_⟩
          · exact (List.mem_cons.mp member).elim (fun same => same ▸ isDelim) (isSeps d)
          · rcases split with ⟨rfl, only⟩ | ⟨sep, rest, isSep, rfl, more⟩
            · exact .inl ⟨rfl, only⟩
            · exact .inr ⟨sep, rest, isSep, rfl, more⟩
      · obtain ⟨name, isName⟩ : ∃ name, c :: text.takeWhile (· ∉ delim) = name := ⟨_, rfl⟩
        have split : c :: text = name ++ text.dropWhile (· ∉ delim) := by
          rw [← isName, List.cons_append, List.takeWhile_append_dropWhile]
        have nonempty : name ≠ [] := isName ▸ List.cons_ne_nil _ _
        have noDelim : ∀ d ∈ name, d ∉ delim := by
          rw [← isName]
          intro d member
          rcases List.mem_cons.mp member with same | later
          · exact same ▸ isDelim
          · have before := List.mem_takeWhile_imp later
            exact of_decide_eq_true before
        refine .inr ⟨[], name, fun _ member => absurd member List.not_mem_nil, nonempty, noDelim, ?_⟩
        cases tail : text.dropWhile (· ∉ delim) with
        | nil =>
            rw [tail, List.append_nil] at split
            rw [split]
            exact .inl ⟨rfl, runs_run noDelim nonempty⟩
        | cons sep rest =>
            have isSep : sep ∈ delim := by
              have stops := List.head?_dropWhile_not (fun d : UInt8 => decide (d ∉ delim)) text
              rw [tail] at stops
              simpa using stops
            rw [tail] at split
            refine .inr ⟨sep, rest, isSep, split, ?_⟩
            rw [split, runs_append_delim isSep, runs_run noDelim nonempty]
            rfl

def FieldEnds (stop rest : List UInt8) : Prop :=
  stop = [] ∧ rest = [] ∨ stop = [0]

theorem FieldEnds.resize (ends : FieldEnds stop rest)
    (size : rest'.length = rest.length) : FieldEnds stop rest' := by
  rcases ends with ⟨noStop, noRest⟩ | isStop
  · rw [noRest] at size
    exact .inl ⟨noStop, List.eq_nil_of_length_eq_zero size⟩
  · exact .inr isStop

theorem FieldEnds.zero (ends : FieldEnds stop rest) (back : List UInt8) :
    ∃ tail, ∀ before : List UInt8,
      before ++ stop ++ rest ++ 0 :: back = before ++ 0 :: tail := by
  rcases ends with ⟨noStop, noRest⟩ | isStop
  · refine ⟨back, fun before => ?_⟩
    rw [noStop, noRest, List.append_nil, List.append_nil]
  · refine ⟨rest ++ 0 :: back, fun before => ?_⟩
    rw [isStop]
    simp

/-- The next run of a text: it starts behind delimiters, and the memory holds it from there on up
to a zero. -/
structure NextRun (delim text seps name stop rest : List UInt8) : Prop where
  nonempty : name ≠ []
  plain : ∀ d ∈ name, d ≠ 0 ∧ d ∉ delim
  runs_eq : runs delim text = name :: runs delim rest
  noNul : 0 ∉ rest
  length_eq : seps.length + name.length + stop.length + rest.length = text.length
  ends : FieldEnds stop rest

/-- The next token of a text: it starts behind delimiters, and the memory holds it from there
on up to a zero. -/
structure Token (sep : UInt8) (text seps name stop rest : List UInt8) : Prop where
  nonempty : name ≠ []
  plain : ∀ d ∈ name, d ≠ 0 ∧ d ≠ sep
  fields_eq : fields sep text = name :: fields sep rest
  noNul : 0 ∉ rest
  length_eq : seps.length + name.length + stop.length + rest.length = text.length
  ends : FieldEnds stop rest

theorem NextRun.token (run : NextRun [sep] text seps name stop rest) :
    Token sep text seps name stop rest where
  nonempty := run.nonempty
  plain := fun d member => ⟨(run.plain d member).1, fun isSep =>
    (run.plain d member).2 (isSep ▸ List.mem_singleton_self sep)⟩
  fields_eq := by
    rw [fields_eq_runs, fields_eq_runs]
    exact run.runs_eq
  noNul := run.noNul
  length_eq := run.length_eq
  ends := run.ends

def HoldsText (mem : List UInt8) (pos : Nat) (text : List UInt8) : Prop :=
  stringAt (mem.drop pos) = some text

theorem HoldsText.intro (noNul : 0 ∉ text) :
    HoldsText (front ++ text ++ 0 :: back) front.length text := by
  unfold HoldsText
  rw [List.append_assoc, List.drop_left]
  exact stringAt_text noNul

theorem FieldEnds.holdsText (ends : FieldEnds stop rest) (noNul : 0 ∉ name)
    (size : rest'.length = rest.length) :
    HoldsText (front ++ seps ++ name ++ stop ++ rest' ++ 0 :: back) (front ++ seps).length
      name := by
  obtain ⟨tail, split⟩ := (ends.resize size).zero back
  rw [split]
  exact HoldsText.intro noNul

theorem Token.holdsText (token : Token sep text seps name stop rest)
    (size : rest'.length = rest.length) :
    HoldsText (front ++ seps ++ name ++ stop ++ rest' ++ 0 :: back) (front ++ seps).length
      name :=
  token.ends.holdsText (fun member => (token.plain 0 member).1 rfl) size

theorem strtok_run {str : Option Nat} {savePtr : Nat} (noNul : 0 ∉ text)
    (start : str.getD savePtr = front.length) :
    (runs delim text = [] ∧ strtok (front ++ text ++ 0 :: back) str delim savePtr =
      some (none, (front ++ text).length, front ++ text ++ 0 :: back)) ∨
    ∃ seps name stop rest, NextRun delim text seps name stop rest ∧
      strtok (front ++ text ++ 0 :: back) str delim savePtr =
        some (some (front ++ seps).length, (front ++ seps ++ name ++ stop).length,
          front ++ seps ++ name ++ stop ++ rest ++ 0 :: back) := by
  have inText : ∀ {part : List UInt8}, (∀ d ∈ part, d ∈ text) → ∀ d ∈ part, d ≠ 0 := by
    intro part within d member isNul
    exact noNul (isNul ▸ within d member)
  rcases runs_cases delim text with
    ⟨none, all⟩ | ⟨seps, name, isSeps, nonempty, noDelim, split⟩
  · refine .inl ⟨none, ?_⟩
    rw [strtok_skip start (fun d member => ⟨inText (fun _ => id) d member, all d member⟩)
      (.inl rfl), ← List.length_append, strtok]
    simp only [Option.getD_some, getElem?_behind, Option.bind_eq_bind, Option.bind_some, if_true]
  · have within : ∀ d ∈ seps ++ name, d ∈ text := by
      intro d member
      rcases split with ⟨rfl, -⟩ | ⟨sep, rest, -, rfl, -⟩
      · exact member
      · exact List.mem_append_left _ member
    have plain : ∀ d ∈ name, d ≠ 0 ∧ d ∉ delim := by
      intro d member
      exact ⟨inText within d (List.mem_append_right seps member), noDelim d member⟩
    have passes : ∀ d ∈ seps, d ≠ 0 ∧ d ∈ delim := by
      intro d member
      exact ⟨inText within d (List.mem_append_left name member), isSeps d member⟩
    obtain ⟨first, others, isName⟩ := List.exists_cons_of_ne_nil nonempty
    have firstStops : first ∉ delim := noDelim first (isName ▸ List.mem_cons_self)
    have skip : ∀ tail : List UInt8, strtok (front ++ seps ++ name ++ tail) str delim savePtr =
        strtok (front ++ seps ++ name ++ tail) (some (front ++ seps).length) delim savePtr := by
      intro tail
      rw [isName, List.append_assoc, List.cons_append, List.length_append]
      exact strtok_skip start passes (.inr firstStops)
    refine .inr ?_
    rcases split with ⟨isText, only⟩ | ⟨sep, rest, isSep, isText, more⟩
    · refine ⟨seps, name, [], [],
        ⟨nonempty, plain, only, List.not_mem_nil, ?_, .inl ⟨rfl, rfl⟩⟩, ?_⟩
      · rw [isText, List.length_append]
        rfl
      · rw [isText, ← List.append_assoc, skip, strtok_last rfl nonempty plain,
          List.append_nil, List.append_nil, @List.length_append _ _ name]
    · have inRest : ∀ d ∈ sep :: rest, d ≠ 0 := by
        apply inText
        intro d member
        exact isText ▸ List.mem_append_right _ member
      refine ⟨seps, name, [0], rest, ⟨nonempty, plain, more, ?_, ?_, .inr rfl⟩, ?_⟩
      · intro member
        exact inRest 0 (List.mem_cons_of_mem sep member) rfl
      · rw [isText]
        simp only [List.length_append, List.length_cons, List.length_nil]
        omega
      · have mem : front ++ text ++ 0 :: back =
            front ++ seps ++ name ++ sep :: (rest ++ 0 :: back) := by
          rw [isText]
          simp
        rw [mem, skip, strtok_field rfl nonempty plain isSep (inRest sep List.mem_cons_self)]
        simp [Nat.add_assoc]

theorem strtok_token {str : Option Nat} {savePtr : Nat} (noNul : 0 ∉ text)
    (start : str.getD savePtr = front.length) :
    (fields sep text = [] ∧ strtok (front ++ text ++ 0 :: back) str [sep] savePtr =
      some (none, (front ++ text).length, front ++ text ++ 0 :: back)) ∨
    ∃ seps name stop rest, Token sep text seps name stop rest ∧
      strtok (front ++ text ++ 0 :: back) str [sep] savePtr =
        some (some (front ++ seps).length, (front ++ seps ++ name ++ stop).length,
          front ++ seps ++ name ++ stop ++ rest ++ 0 :: back) := by
  rw [fields_eq_runs]
  rcases strtok_run noNul start with ends | ⟨seps, name, stop, rest, run, next⟩
  · exact .inl ends
  · exact .inr ⟨seps, name, stop, rest, run.token, next⟩

end CleanOS.Common
