import CleanOS.Common.Tokens
import Mathlib.Data.List.Forall2
import Mathlib.Logic.Function.Basic

/-!
# Interleaved tokenisations

Calls of `strtok_r` on two strings of one memory, in any order.  Each string has a save pointer
and delimiters of its own, and a call comes with the addresses that it reads and writes.
-/

namespace CleanOS.Common

/-- `strchr` of the memory from a pointer on: the distance of the character, where it is found. -/
def strchr (ch : UInt8) : List UInt8 → Option (Option Nat)
  | [] => none
  | c :: str =>
      if c = 0 then some none
      else if c = ch then some (some 0)
      else (strchr ch str).map fun found => found.map (· + 1)

/-- The loop of `strspn` and of `strcspn`, which leave it at a character that `strchr` does not
find, or finds: the value of `p - s`, and the addresses that are read. -/
def spanLoop (delim : List UInt8) (leavesAt : Bool) : List UInt8 → Nat → Option (Nat × List Nat)
  | [], _ => none
  | c :: rest, p =>
      if c = 0 then some (0, [p])
      else do
        let found ← strchr c delim
        if found.isSome = leavesAt then some (0, [p])
        else
          let (size, reads) ← spanLoop delim leavesAt rest (p + 1)
          some (size + 1, p :: reads)

/-- What a call of `strtok_r` returns and leaves behind. -/
structure Call where
  token : Option Nat
  savePtr : Nat
  mem : List UInt8
  touched : List Nat

/-- `strtok_r`, with the addresses of the string that are read or written. -/
def strtokR (mem : List UInt8) (str : Option Nat) (delim : List UInt8) (savePtr : Nat) :
    Option Call := do
  let str := str.getD savePtr
  if (← mem[str]?) = 0 then some ⟨none, str, mem, [str]⟩
  else
    let (skipped, leading) ← spanLoop delim false (mem.drop str) str
    let first := str + skipped
    if (← mem[first]?) = 0 then some ⟨none, first, mem, str :: leading ++ [first]⟩
    else
      let (size, within) ← spanLoop delim true (mem.drop first) first
      let stop := first + size
      let touched := str :: leading ++ first :: within ++ [stop]
      if (← mem[stop]?) = 0 then some ⟨some first, stop, mem, touched⟩
      else some ⟨some first, stop + 1, mem.set stop 0, touched⟩

section Calls

variable {mem mem' delim behind text : List UInt8} {str token : Option Nat}
  {savePtr saved pos size : Nat}

theorem strchr_text (ch : UInt8) (noNul : 0 ∉ delim) :
    ∃ found, strchr ch (delim ++ 0 :: behind) = some found ∧
      (found.isSome = true ↔ ch ∈ delim) := by
  induction delim with
  | nil =>
      refine ⟨none, rfl, ?_⟩
      constructor
      · intro found
        cases found
      · intro member
        cases member
  | cons c delim ih =>
      have notNul : c ≠ 0 := fun isNul => noNul (isNul ▸ List.mem_cons_self)
      rw [List.cons_append, strchr, if_neg notNul]
      by_cases same : c = ch
      · rw [if_pos same]
        exact ⟨some 0, rfl, fun _ => same ▸ List.mem_cons_self, fun _ => rfl⟩
      · obtain ⟨found, searched, isFound⟩ := ih fun member => noNul (List.mem_cons_of_mem c member)
        rw [if_neg same, searched]
        refine ⟨_, rfl, ?_⟩
        rw [Option.isSome_map, isFound, List.mem_cons]
        constructor
        · exact .inr
        · exact fun member => member.resolve_left (Ne.symm same)

theorem spanLoop_findIdx {leavesAt : Bool} (noNul : 0 ∉ delim)
    (isSize : mem.findIdx (fun c => c = 0 ∨ decide (c ∈ delim) = leavesAt) = size)
    (inside : size < mem.length) :
    spanLoop (delim ++ 0 :: behind) leavesAt mem pos =
      some (size, List.range' pos (size + 1)) := by
  induction mem generalizing size pos with
  | nil => exact absurd inside (Nat.not_lt_zero _)
  | cons c mem ih =>
      obtain ⟨found, searched, isFound⟩ := @strchr_text delim behind c noNul
      have isSome : found.isSome = decide (c ∈ delim) := by
        rw [Bool.eq_iff_iff, isFound, decide_eq_true_iff]
      rw [List.findIdx_cons] at isSize
      rw [spanLoop]
      by_cases isNul : c = 0
      · simp only [isNul, true_or, decide_true, cond_true] at isSize
        rw [if_pos isNul, ← isSize]
        rfl
      · rw [if_neg isNul]
        simp only [searched, isSome, Option.bind_eq_bind, Option.bind_some]
        by_cases leaves : decide (c ∈ delim) = leavesAt
        · simp only [leaves, or_true, decide_true, cond_true] at isSize
          rw [if_pos leaves, ← isSize]
          rfl
        · simp only [isNul, leaves, or_false, decide_false, cond_false] at isSize
          obtain ⟨size, rfl⟩ : ∃ size', size = size' + 1 := ⟨_, isSize.symm⟩
          rw [if_neg leaves, ih (Nat.succ_inj.mp isSize) (Nat.lt_of_succ_lt_succ inside)]
          rfl

theorem spanLoop_span {leavesAt : Bool} {p : UInt8 → Bool} (noNul : 0 ∉ delim)
    (leaves : ∀ c, p c = decide (c = 0 ∨ decide (c ∈ delim) = leavesAt))
    (spans : (if pos + (mem.drop pos).findIdx p < mem.length then
      some ((mem.drop pos).findIdx p) else none) = some size) :
    spanLoop (delim ++ 0 :: behind) leavesAt (mem.drop pos) pos =
      some (size, List.range' pos (size + 1)) := by
  split at spans
  · next inside =>
      have isSize := Option.some.inj spans
      rw [isSize] at inside
      apply spanLoop_findIdx noNul
      · rw [← isSize]
        exact congrArg (mem.drop pos).findIdx (funext fun c => (leaves c).symm)
      · rw [List.length_drop]
        omega
  · cases spans

theorem spanLoop_strspn (noNul : 0 ∉ delim) (spans : strspn mem pos delim = some size) :
    spanLoop (delim ++ 0 :: behind) false (mem.drop pos) pos =
      some (size, List.range' pos (size + 1)) :=
  spanLoop_span noNul (fun c => by simp) spans

theorem spanLoop_strcspn (noNul : 0 ∉ delim) (spans : strcspn mem pos delim = some size) :
    spanLoop (delim ++ 0 :: behind) true (mem.drop pos) pos =
      some (size, List.range' pos (size + 1)) :=
  spanLoop_span noNul (fun c => by simp) spans

theorem strtokR_of_strtok (noNul : 0 ∉ delim)
    (called : strtok mem str delim savePtr = some (token, saved, mem')) :
    ∃ touched, strtokR mem str (delim ++ 0 :: behind) savePtr =
        some ⟨token, saved, mem', touched⟩ ∧
      ∀ pos ∈ touched, str.getD savePtr ≤ pos ∧ pos ≤ saved := by
  rw [strtok] at called
  simp only [Option.bind_eq_bind, Option.bind_eq_some_iff] at called
  obtain ⟨c, atStart, called⟩ := called
  rw [strtokR, atStart]
  simp only [Option.bind_eq_bind, Option.bind_some]
  split at called
  · next isNul =>
      cases called
      rw [if_pos isNul]
      refine ⟨_, rfl, fun pos member => ?_⟩
      rw [List.mem_singleton.mp member]
      exact ⟨Nat.le_refl _, Nat.le_refl _⟩
  · next notNul =>
      simp only [Option.bind_eq_some_iff] at called
      obtain ⟨skipped, skips, c, atFirst, called⟩ := called
      rw [if_neg notNul, spanLoop_strspn noNul skips]
      simp only [Option.bind_some, atFirst]
      split at called
      · next isNul =>
          cases called
          rw [if_pos isNul]
          refine ⟨_, rfl, fun pos member => ?_⟩
          simp only [List.mem_append, List.mem_cons, List.mem_range'_1, List.not_mem_nil,
            or_false] at member
          omega
      · next notNul =>
          simp only [Option.bind_eq_some_iff] at called
          obtain ⟨size, spans, c, atStop, called⟩ := called
          rw [if_neg notNul, spanLoop_strcspn noNul spans]
          simp only [Option.bind_some, atStop]
          split at called
          · next isNul =>
              cases called
              rw [if_pos isNul]
              refine ⟨_, rfl, fun pos member => ?_⟩
              simp only [List.mem_append, List.mem_cons, List.mem_range'_1, List.not_mem_nil,
                or_false] at member
              omega
          · next isDelim =>
              cases called
              rw [if_neg isDelim]
              refine ⟨_, rfl, fun pos member => ?_⟩
              simp only [List.mem_append, List.mem_cons, List.mem_range'_1, List.not_mem_nil,
                or_false] at member
              omega

/-- A call passes a part of a text, and gives its first run, which stays where it is whatever
the rest becomes. -/
structure Passes (delim text part rest : List UInt8) (start : Nat) (token : Option Nat) :
    Prop where
  noNul : 0 ∉ rest
  length_eq : part.length + rest.length = text.length
  runs_eq : runs delim rest = (runs delim text).tail
  holds : ∀ front rest' back : List UInt8, front.length = start → rest'.length = rest.length →
    Option.Rel (HoldsText (front ++ part ++ rest' ++ 0 :: back)) token (runs delim text).head?

theorem strtokR_passes {front back : List UInt8} (noNulDelim : 0 ∉ delim) (noNul : 0 ∉ text)
    (start : str.getD savePtr = front.length) :
    ∃ token touched part rest, Passes delim text part rest front.length token ∧
      strtokR (front ++ text ++ 0 :: back) str (delim ++ 0 :: behind) savePtr =
        some ⟨token, (front ++ part).length, front ++ (part ++ rest) ++ 0 :: back, touched⟩ ∧
      ∀ pos ∈ touched, front.length ≤ pos ∧ pos ≤ (front ++ text).length := by
  rcases @strtok_run delim text front back str savePtr noNul start with
    ⟨noRuns, ends⟩ | ⟨seps, name, stop, rest, run, next⟩
  · obtain ⟨touched, calls, bounds⟩ := @strtokR_of_strtok _ _ _ behind _ _ _ _ noNulDelim ends
    rw [start] at bounds
    refine ⟨none, touched, text, [], ⟨List.not_mem_nil, rfl, ?_, ?_⟩, ?_, bounds⟩
    · rw [noRuns]
      rfl
    · intro front rest' back _ _
      rw [noRuns]
      exact .none
    · rw [List.append_nil]
      exact calls
  · obtain ⟨touched, calls, bounds⟩ := @strtokR_of_strtok _ _ _ behind _ _ _ _ noNulDelim next
    have length_eq := run.length_eq
    rw [start] at bounds
    refine ⟨some (front ++ seps).length, touched, seps ++ name ++ stop, rest,
      ⟨run.noNul, ?_, ?_, ?_⟩, ?_, ?_⟩
    · simp only [List.length_append]
      omega
    · rw [run.runs_eq]
      rfl
    · intro front' rest' back' isStart size
      have noNulName : 0 ∉ name := fun member => (run.plain 0 member).1 rfl
      have holds := @FieldEnds.holdsText seps name stop rest rest' front' back' run.ends noNulName
        size
      rw [run.runs_eq, List.length_append, ← isStart, ← List.length_append]
      apply Option.Rel.some
      simp only [List.append_assoc] at holds ⊢
      exact holds
    · simp only [List.append_assoc] at calls ⊢
      exact calls
    · intro pos member
      have within := bounds pos member
      simp only [List.length_append] at within ⊢
      omega

end Calls

/-- The memory, the save pointers, and which tokenisations have begun. -/
structure Tokenisers where
  mem : List UInt8
  savePtr : Bool → Nat
  begun : Bool → Bool

/-- A call of a tokenisation: the pointer that it returned, and the addresses that it touched. -/
structure Answer where
  who : Bool
  token : Option Nat
  touched : List Nat

/-- The first call of a tokenisation passes its string, and the others pass `NULL`. -/
def Tokenisers.str (starts : Bool → Nat) (state : Tokenisers) (who : Bool) : Option Nat :=
  if state.begun who then none else some (starts who)

def Tokenisers.call (starts : Bool → Nat) (delims : Bool → List UInt8) (state : Tokenisers)
    (who : Bool) : Option (Answer × Tokenisers) := do
  let call ← strtokR state.mem (state.str starts who) (delims who) (state.savePtr who)
  some (⟨who, call.token, call.touched⟩,
    ⟨call.mem, Function.update state.savePtr who call.savePtr,
      Function.update state.begun who true⟩)

def Tokenisers.calls (starts : Bool → Nat) (delims : Bool → List UInt8) :
    List Bool → Tokenisers → Option (List Answer × Tokenisers)
  | [], state => some ([], state)
  | who :: whos, state => do
      let (answer, state) ← state.call starts delims who
      let (answers, state) ← Tokenisers.calls starts delims whos state
      some (answer :: answers, state)

/-- What lies before, between and behind two strings of a memory. -/
structure Layout where
  front : List UInt8
  middle : List UInt8
  back : List UInt8

namespace Layout

variable (around : Layout) (bodies : Bool → List UInt8) (size : Bool → Nat)

def mem : List UInt8 :=
  around.front ++ bodies false ++ 0 :: (around.middle ++ bodies true ++ 0 :: around.back)

def starts : Bool → Nat
  | false => around.front.length
  | true => around.front.length + size false + 1 + around.middle.length

def before : Bool → List UInt8
  | false => around.front
  | true => around.front ++ bodies false ++ 0 :: around.middle

def behind : Bool → List UInt8
  | false => around.middle ++ bodies true ++ 0 :: around.back
  | true => around.back

variable {around bodies size}

theorem mem_update (who : Bool) (body : List UInt8) :
    around.mem (Function.update bodies who body) =
      around.before bodies who ++ body ++ 0 :: around.behind bodies who := by
  cases who with
  | false => rfl
  | true => simp [mem, before, behind]

theorem mem_eq (who : Bool) :
    around.mem bodies =
      around.before bodies who ++ bodies who ++ 0 :: around.behind bodies who := by
  rw [← mem_update, Function.update_eq_self]

theorem length_before (sizes : ∀ who, (bodies who).length = size who) (who : Bool) :
    (around.before bodies who).length = around.starts size who := by
  cases who with
  | false => rfl
  | true =>
      rw [before, starts, ← sizes false]
      simp only [List.length_append, List.length_cons]
      omega

end Layout

structure Progress (around : Layout) (size : Bool → Nat) (state : Tokenisers)
    (done rest : Bool → List UInt8) : Prop where
  mem_eq : state.mem = around.mem fun who => done who ++ rest who
  sizes : ∀ who, (done who ++ rest who).length = size who
  noNul : ∀ who, 0 ∉ rest who
  cursor : ∀ who, (state.str (around.starts size) who).getD (state.savePtr who) =
    around.starts size who + (done who).length

def GiveRuns (mem : List UInt8) (ahead : List (List UInt8)) (tokens : List (Option Nat))
    (count : Nat) : Prop :=
  List.Forall₂ (Option.Rel (HoldsText mem)) tokens ((List.range count).map (ahead[·]?))

def tokensOf (who : Bool) (answers : List Answer) : List (Option Nat) :=
  (answers.filter (·.who = who)).map (·.token)

section Runs

variable {around : Layout} {size : Bool → Nat} {state : Tokenisers}
  {done rest : Bool → List UInt8} {delims : Bool → CText} {behind : Bool → List UInt8}

theorem GiveRuns.cons {mem : List UInt8} {ahead : List (List UInt8)} {token : Option Nat}
    {tokens : List (Option Nat)} {count : Nat} (first : Option.Rel (HoldsText mem) token ahead.head?)
    (later : GiveRuns mem ahead.tail tokens count) :
    GiveRuns mem ahead (token :: tokens) (count + 1) := by
  unfold GiveRuns
  rw [List.range_succ_eq_map, List.map_cons, List.map_map]
  apply List.Forall₂.cons
  · rw [← List.head?_eq_getElem?]
    exact first
  · unfold GiveRuns at later
    simp only [List.getElem?_tail] at later
    exact later

theorem Progress.call (progress : Progress around size state done rest) (who : Bool) :
    ∃ token touched after part left,
      state.call (around.starts size) (fun who => (delims who).chars ++ 0 :: behind who) who =
        some (⟨who, token, touched⟩, after) ∧
      Passes (delims who).chars (rest who) part left (around.starts size who + (done who).length)
        token ∧
      Progress around size after (Function.update done who (done who ++ part))
        (Function.update rest who left) ∧
      ∀ pos ∈ touched, around.starts size who ≤ pos ∧
        pos ≤ around.starts size who + size who := by
  obtain ⟨bodies, isBodies⟩ : ∃ bodies, (fun who => done who ++ rest who) = bodies := ⟨_, rfl⟩
  have atWho : bodies who = done who ++ rest who := isBodies ▸ rfl
  have sizes : ∀ w, (bodies w).length = size w := isBodies ▸ progress.sizes
  have begins := @Layout.length_before around bodies size sizes who
  have start : (around.before bodies who ++ done who).length =
      around.starts size who + (done who).length := by
    rw [List.length_append, begins]
  obtain ⟨token, touched, part, left, passes, calls, bounds⟩ :=
    @strtokR_passes (delims who).chars (behind who) (rest who)
      (state.str (around.starts size) who) (state.savePtr who)
      (around.before bodies who ++ done who) (around.behind bodies who) (delims who).noNul
      (progress.noNul who) ((progress.cursor who).trans start.symm)
  have isMem : state.mem =
      around.before bodies who ++ done who ++ rest who ++ 0 :: around.behind bodies who := by
    rw [progress.mem_eq, isBodies, Layout.mem_eq who, atWho, ← List.append_assoc]
  refine ⟨token, touched,
    ⟨around.before bodies who ++ done who ++ (part ++ left) ++ 0 :: around.behind bodies who,
      Function.update state.savePtr who (around.before bodies who ++ done who ++ part).length,
      Function.update state.begun who true⟩, part, left, ?_, start ▸ passes, ?_, ?_⟩
  · rw [Tokenisers.call, isMem, calls]
    rfl
  · have isUpdate : (fun w => Function.update done who (done who ++ part) w ++
        Function.update rest who left w) = Function.update bodies who (done who ++ part ++ left) := by
      rw [← isBodies]
      exact funext (Function.apply_update₂ (fun _ => List.append) done rest who _ _)
    constructor
    · rw [isUpdate, Layout.mem_update]
      simp only [List.append_assoc]
    · have whole : (done who ++ part ++ left).length = size who := by
        have isLength := passes.length_eq
        rw [← sizes who, atWho]
        simp only [List.length_append]
        omega
      intro w
      rw [congrFun isUpdate w]
      exact (Function.forall_update_iff bodies fun w body => body.length = size w).mpr
        ⟨whole, fun w _ => sizes w⟩ w
    · exact (Function.forall_update_iff rest fun _ chars => 0 ∉ chars).mpr
        ⟨passes.noNul, fun w _ => progress.noNul w⟩
    · intro w
      by_cases same : w = who
      · subst same
        simp only [Tokenisers.str, Function.update_self, if_true, Option.getD_none,
          List.length_append, begins]
        omega
      · simp only [Tokenisers.str, Function.update_of_ne same]
        exact progress.cursor w
  · intro pos member
    have within := bounds pos member
    have whole := progress.sizes who
    simp only [List.length_append, begins] at within whole
    omega

theorem tokensOf_cons {who : Bool} {answer : Answer} {answers : List Answer} :
    tokensOf who (answer :: answers) =
      if answer.who = who then answer.token :: tokensOf who answers else tokensOf who answers := by
  unfold tokensOf
  rw [List.filter_cons]
  by_cases same : answer.who = who
  · simp only [same, decide_true, if_true, List.map_cons]
  · simp only [same, decide_false, if_false, Bool.false_eq_true]

theorem Progress.calls (whos : List Bool) :
    ∀ {state done rest}, Progress around size state done rest →
    ∃ (answers : List Answer) (after : Tokenisers) (left : Bool → List UInt8),
      Tokenisers.calls (around.starts size) (fun who => (delims who).chars ++ 0 :: behind who) whos
        state = some (answers, after) ∧
      answers.map (·.who) = whos ∧
      (∀ who, (left who).length = (rest who).length) ∧
      (after.mem = around.mem fun who => done who ++ left who) ∧
      (∀ who, GiveRuns after.mem (runs (delims who).chars (rest who)) (tokensOf who answers)
        (whos.count who)) ∧
      ∀ answer ∈ answers, ∀ pos ∈ answer.touched, around.starts size answer.who ≤ pos ∧
        pos ≤ around.starts size answer.who + size answer.who := by
  induction whos with
  | nil =>
      intro state done rest progress
      refine ⟨[], state, rest, rfl, rfl, fun _ => rfl, progress.mem_eq, fun _ => ?_, ?_⟩
      · exact .nil
      · intro answer member
        exact absurd member List.not_mem_nil
  | cons who whos ih =>
      intro state done rest progress
      obtain ⟨token, touched, next, part, left, called, passes, progress', bounds⟩ :=
        @Progress.call around size state done rest delims behind progress who
      obtain ⟨answers, after, left', calls, isWhos, lengths, isMem, gives, within⟩ := ih progress'
      have keeps : (fun w => Function.update done who (done who ++ part) w ++ left' w) =
          fun w => done w ++ Function.update left' who (part ++ left' who) w := by
        funext w
        by_cases same : w = who
        · subst same
          simp only [Function.update_self, List.append_assoc]
        · simp only [Function.update_of_ne same]
      refine ⟨⟨who, token, touched⟩ :: answers, after, Function.update left' who (part ++ left' who),
        ?_, congrArg (who :: ·) isWhos, ?_, keeps ▸ isMem, ?_, ?_⟩
      · rw [Tokenisers.calls, called]
        simp only [Option.bind_eq_bind, Option.bind_some, calls]
      · intro w
        by_cases same : w = who
        · subst same
          have isLeft := lengths w
          rw [Function.update_self] at isLeft ⊢
          rw [List.length_append, isLeft, passes.length_eq]
        · rw [Function.update_of_ne same, lengths w, Function.update_of_ne same]
      · intro w
        have later := gives w
        rw [tokensOf_cons]
        by_cases same : w = who
        · subst same
          rw [Function.update_self, passes.runs_eq] at later
          rw [if_pos rfl, List.count_cons_self]
          apply GiveRuns.cons _ later
          have isPart := lengths w
          have sizes : ∀ v, (Function.update done w (done w ++ part) v ++ left' v).length =
              size v := by
            intro v
            rw [List.length_append, lengths v, ← List.length_append]
            exact progress'.sizes v
          rw [Function.update_self] at isPart
          rw [isMem, Layout.mem_eq w, Function.update_self, ← List.append_assoc,
            ← List.append_assoc]
          apply passes.holds _ _ _ _ isPart
          rw [List.length_append]
          exact congrArg (· + (done w).length) (Layout.length_before sizes w)
        · rw [Function.update_of_ne same] at later
          rw [if_neg (Ne.symm same), List.count_cons_of_ne (Ne.symm same)]
          exact later
      · intro answer member
        rcases List.mem_cons.mp member with rfl | later
        · exact bounds
        · exact within answer later

/-- Whatever the order of the calls, each tokenisation gives the runs of its own string, one a
call and `NULL` from then on, and touches nothing but this string and its end. -/
theorem tokenisations_interleaved (around : Layout) (texts delims : Bool → CText)
    (behind : Bool → List UInt8) (savePtr : Bool → Nat) (whos : List Bool) :
    ∃ (answers : List Answer) (after : Tokenisers) (left : Bool → List UInt8),
      Tokenisers.calls (around.starts fun who => (texts who).chars.length)
        (fun who => (delims who).chars ++ 0 :: behind who) whos
        ⟨around.mem fun who => (texts who).chars, savePtr, fun _ => false⟩ =
          some (answers, after) ∧
      answers.map (·.who) = whos ∧
      (∀ who, (left who).length = (texts who).chars.length) ∧
      after.mem = around.mem left ∧
      (∀ who, GiveRuns after.mem (runs (delims who).chars (texts who).chars)
        (tokensOf who answers) (whos.count who)) ∧
      ∀ answer ∈ answers, ∀ pos ∈ answer.touched,
        around.starts (fun who => (texts who).chars.length) answer.who ≤ pos ∧
          pos ≤ around.starts (fun who => (texts who).chars.length) answer.who +
            (texts answer.who).chars.length := by
  have begins : Progress around (fun who => (texts who).chars.length)
      ⟨around.mem fun who => (texts who).chars, savePtr, fun _ => false⟩ (fun _ => [])
      (fun who => (texts who).chars) := by
    constructor
    · rfl
    · intro who
      rfl
    · intro who
      exact (texts who).noNul
    · intro who
      rfl
  exact Progress.calls whos begins

end Runs

end CleanOS.Common
