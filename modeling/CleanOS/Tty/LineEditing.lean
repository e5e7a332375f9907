import CleanOS.Tty.Keyboard

/-!
# Editing lines

`tty_read` of `kernel/device/tty/tty.c` with the flags of a terminal.  What is typed lies in the
queue of the keyboard, as pointers to the characters of the keys, or comes while the reader
waits for the queue.
-/

namespace CleanOS.Tty

open CleanOS.Common

/-- `backspace`. -/
def backspace : UInt8 := 0x08

/-- `TTY_IN_BACKSPACE`. -/
def ttyInBackspace : Nat := 1 <<< 2

/-- `TTY_OUT_ECHO`. -/
def ttyOutEcho : Nat := 1 <<< 11

/-- `TTY_OUT_LINE`. -/
def ttyOutLine : Nat := 1 <<< 12

/-- The flags of `tty_t`. -/
structure TtyFlags where
  inFlags : Nat
  outFlags : Nat

/-- A read: the keyboard's queue and characters, the length and the buffer, and what was stored
in the buffer and what was given to `tty_write`, in order. -/
structure LineRead where
  kbdBuf : BlockQueue Nat
  chars : Nat → UInt8
  len : Nat
  buf : Nat → UInt8
  stored : List UInt8
  echoed : List UInt8

/-- What a pass of the loop of `tty_read` comes to. -/
inductive ReadPass
  | waits (read : LineRead)
  | goesOn (read : LineRead)
  | ends (read : LineRead)

def takeChar (flags : TtyFlags) (read : LineRead) (slot : Nat) : ReadPass :=
  let chars :=
    if read.chars slot = enter ∧ flags.outFlags &&& ttyOutRN ≠ 0 then
      Function.update read.chars slot newline
    else read.chars
  let value := chars slot
  let echoed :=
    if flags.outFlags &&& ttyOutEcho ≠ 0 then read.echoed ++ [value] else read.echoed
  let read := { read with chars, echoed }
  if value = backspace ∧ 0 < read.len ∧ flags.inFlags &&& ttyInBackspace = 0 then
    .goesOn { read with len := read.len - 1 }
  else
    let read := { read with
      buf := Function.update read.buf read.len value
      len := read.len + 1
      stored := read.stored ++ [value] }
    if value = newline ∧ flags.outFlags &&& ttyOutLine ≠ 0 then .ends read else .goesOn read

def readPass (readerPid : Nat) (flags : TtyFlags) (read : LineRead) : ReadPass :=
  let (value, kbdBuf) := read.kbdBuf.queueGet readerPid
  let read := { read with kbdBuf }
  match value with
  | none => .waits read
  | some none => .goesOn read
  | some (some slot) => takeChar flags read slot

def LineRead.press (handlerPid : Nat) (read : LineRead) (slot : Nat) (ch : UInt8) : LineRead :=
  { read with
    chars := Function.update read.chars slot ch
    kbdBuf := (read.kbdBuf.queuePut handlerPid slot).2 }

/-- The loop of `tty_read`, with the keys that are pressed while it waits, one each time.  The
result says whether the call returned, and what was not typed yet. -/
def ttyReadLoop (handlerPid readerPid : Nat) (flags : TtyFlags) (size : Nat) :
    (fuel : Nat) → (later : List (Nat × UInt8)) → LineRead →
      Option (Bool × List (Nat × UInt8) × LineRead)
  | 0, _, _ => none
  | fuel + 1, later, read =>
      if size ≤ read.len then some (true, later, read)
      else
        match readPass readerPid flags read with
        | .ends read => some (true, later, read)
        | .goesOn read => ttyReadLoop handlerPid readerPid flags size fuel later read
        | .waits read =>
            match later with
            | [] => some (false, [], read)
            | (slot, ch) :: later =>
                ttyReadLoop handlerPid readerPid flags size fuel later
                  (read.press handlerPid slot ch)

/-- `tty_read`, from the start of a line.  There is a pass for every character in the queue, and
two for one that comes later. -/
def ttyRead (handlerPid readerPid : Nat) (flags : TtyFlags) (size : Nat)
    (later : List (Nat × UInt8)) (kbdBuf : BlockQueue Nat) (chars buf : Nat → UInt8) :
    Option (Bool × List (Nat × UInt8) × LineRead) :=
  ttyReadLoop handlerPid readerPid flags size (kbdBuf.queueLen + 2 * later.length + 1) later
    ⟨kbdBuf, chars, 0, buf, [], []⟩

/-- A line that was edited: whether it is complete, the line, and what was typed behind it. -/
structure Edited where
  complete : Bool
  line : List UInt8
  rest : List UInt8

def IsEnter (ch : UInt8) : Prop := ch = enter ∨ ch = newline

instance : DecidablePred IsEnter := fun ch => inferInstanceAs (Decidable (ch = enter ∨ _))

/-- Editing a line of at most `size` characters. -/
def editLine (size : Nat) : (line typed : List UInt8) → Edited
  | line, [] => ⟨decide (size ≤ line.length), line, []⟩
  | line, ch :: typed =>
      if size ≤ line.length then ⟨true, line, ch :: typed⟩
      else if ch = backspace then editLine size line.dropLast typed
      else if IsEnter ch then ⟨true, line ++ [newline], typed⟩
      else editLine size (line ++ [ch]) typed

def ErasesEmpty (size : Nat) : (line typed : List UInt8) → Prop
  | _, [] => False
  | line, ch :: typed =>
      line.length < size ∧
        if ch = backspace then line = [] ∨ ErasesEmpty size line.dropLast typed
        else if IsEnter ch then False
        else ErasesEmpty size (line ++ [ch]) typed

def lineChar (ch : UInt8) : UInt8 := if ch = enter then newline else ch

/-- Line mode. -/
structure LineMode (flags : TtyFlags) : Prop where
  line : flags.outFlags &&& ttyOutLine ≠ 0
  returns : flags.outFlags &&& ttyOutRN ≠ 0
  erases : flags.inFlags &&& ttyInBackspace = 0

/-- A read gives the edited line, stores no backspace, and leaves what was typed behind the line
in the queue or to be typed. -/
structure ReadsLine (edited : Edited) (returned : Bool) (later : List (Nat × UInt8))
    (read : LineRead) : Prop where
  returned_eq : returned = edited.complete
  line : (List.range read.len).map read.buf = edited.line
  stored : backspace ∉ read.stored
  rest : ∃ slots, read.kbdBuf.Stores slots ∧
    (slots.map read.chars ++ later.map Prod.snd).map lineChar = edited.rest.map lineChar

variable {handlerPid readerPid size fuel slot : Nat} {flags : TtyFlags} {read : LineRead}
  {line typed other : List UInt8} {slots : List Nat} {later : List (Nat × UInt8)}

theorem not_isEnter_backspace : ¬ IsEnter backspace := by decide

theorem takeChar_erase (mode : LineMode flags) (isErase : read.chars slot = backspace)
    (hasChar : 0 < read.len) :
    ∃ echoed, takeChar flags read slot =
      .goesOn { read with echoed := echoed, len := read.len - 1 } := by
  have notEnter : ¬ (read.chars slot = enter ∧ flags.outFlags &&& ttyOutRN ≠ 0) := by
    rw [isErase]
    rintro ⟨isEnter, -⟩
    exact absurd isEnter (by decide)
  simp only [takeChar, if_neg notEnter]
  exact ⟨_, if_pos ⟨isErase, hasChar, mode.erases⟩⟩

theorem takeChar_store (notEnter : ¬ IsEnter (read.chars slot))
    (notErase : ¬ (read.chars slot = backspace ∧ 0 < read.len)) :
    ∃ echoed, takeChar flags read slot =
      .goesOn { read with
        echoed := echoed
        buf := Function.update read.buf read.len (read.chars slot)
        len := read.len + 1
        stored := read.stored ++ [read.chars slot] } := by
  have kept : ¬ (read.chars slot = enter ∧ flags.outFlags &&& ttyOutRN ≠ 0) :=
    fun both => notEnter (Or.inl both.1)
  have notErased : ¬ (read.chars slot = backspace ∧ 0 < read.len ∧
      flags.inFlags &&& ttyInBackspace = 0) := fun all => notErase ⟨all.1, all.2.1⟩
  have goesOn : ¬ (read.chars slot = newline ∧ flags.outFlags &&& ttyOutLine ≠ 0) :=
    fun both => notEnter (Or.inr both.1)
  simp only [takeChar, if_neg kept, if_neg notErased, if_neg goesOn]
  exact ⟨_, rfl⟩

theorem takeChar_enter (mode : LineMode flags) (isEnter : IsEnter (read.chars slot)) :
    ∃ chars echoed, (∀ place, lineChar (chars place) = lineChar (read.chars place)) ∧
      takeChar flags read slot =
        .ends { read with
          chars := chars
          echoed := echoed
          buf := Function.update read.buf read.len newline
          len := read.len + 1
          stored := read.stored ++ [newline] } := by
  obtain ⟨chars, isChars⟩ : ∃ chars, chars =
      if read.chars slot = enter ∧ flags.outFlags &&& ttyOutRN ≠ 0 then
        Function.update read.chars slot newline
      else read.chars := ⟨_, rfl⟩
  have value : chars slot = newline := by
    rw [isChars]
    by_cases isReturn : read.chars slot = enter
    · rw [if_pos ⟨isReturn, mode.returns⟩, Function.update_self]
    · rw [if_neg fun both => isReturn both.1]
      exact isEnter.resolve_left isReturn
  have alike : ∀ place, lineChar (chars place) = lineChar (read.chars place) := by
    intro place
    rw [isChars]
    split
    · rename_i isReturn
      by_cases here : place = slot
      · rw [here, Function.update_self, isReturn.1]
        rfl
      · rw [Function.update_of_ne here]
    · rfl
  have notErased : ¬ (newline = backspace ∧ 0 < read.len ∧
      flags.inFlags &&& ttyInBackspace = 0) := fun all => absurd all.1 (by decide)
  simp only [takeChar, ← isChars, value, if_neg notErased, if_pos (And.intro trivial mode.line)]
  exact ⟨chars, _, alike, rfl⟩

def stillTyped (slots : List Nat) (chars : Nat → UInt8) (later : List (Nat × UInt8)) :
    List UInt8 :=
  slots.map chars ++ later.map Prod.snd

structure Reading (line : List UInt8) (slots : List Nat) (read : LineRead) : Prop where
  stores : read.kbdBuf.Stores slots
  waits : read.kbdBuf.wait = true
  holds : (List.range read.len).map read.buf = line

theorem Reading.length (reading : Reading line slots read) : line.length = read.len := by
  rw [← reading.holds, List.length_map, List.length_range]

/-- What the loop comes to: the edited line where no backspace comes at the start of a line, and
a stored backspace otherwise. -/
structure Follows (size : Nat) (line typed : List UInt8) (read : LineRead) (returned : Bool)
    (later : List (Nat × UInt8)) (after : LineRead) : Prop where
  erasesEmpty : ErasesEmpty size line typed → backspace ∈ after.stored
  keeps : backspace ∈ read.stored → backspace ∈ after.stored
  edits : ¬ ErasesEmpty size line typed → backspace ∉ read.stored →
    ReadsLine (editLine size line typed) returned later after

theorem range_map_update {len : Nat} {buf : Nat → UInt8} (value : UInt8) :
    (List.range (len + 1)).map (Function.update buf len value) =
      (List.range len).map buf ++ [value] := by
  rw [List.range_succ, List.map_append, List.map_singleton, Function.update_self]
  congr 1
  apply List.map_congr_left
  intro place isPlace
  exact Function.update_of_ne (Nat.ne_of_lt (List.mem_range.mp isPlace)) _ _

theorem Reading.store (reading : Reading line slots read) (value : UInt8)
    (chars : Nat → UInt8) (echoed : List UInt8) :
    Reading (line ++ [value]) slots { read with
      chars := chars
      echoed := echoed
      buf := Function.update read.buf read.len value
      len := read.len + 1
      stored := read.stored ++ [value] } := by
  refine ⟨reading.stores, reading.waits, ?_⟩
  rw [range_map_update, reading.holds]

theorem Reading.erase (reading : Reading line slots read) (hasChar : 0 < read.len)
    (echoed : List UInt8) :
    Reading line.dropLast slots { read with echoed := echoed, len := read.len - 1 } := by
  refine ⟨reading.stores, reading.waits, ?_⟩
  obtain ⟨len, isLen⟩ := Nat.exists_eq_succ_of_ne_zero (Nat.ne_of_gt hasChar)
  have holds := reading.holds
  rw [isLen, List.range_succ, List.map_append, List.map_singleton] at holds
  rw [← holds, List.dropLast_concat, isLen]
  rfl

theorem readPass_cons (reading : Reading line (slot :: slots) read) :
    ∃ kbdBuf, Reading line slots { read with kbdBuf := kbdBuf } ∧
      readPass readerPid flags read = takeChar flags { read with kbdBuf := kbdBuf } slot := by
  have got := reading.stores.get readerPid
  refine ⟨(read.kbdBuf.queueGet readerPid).2, ⟨got.2, ?_, reading.holds⟩, ?_⟩
  · rw [BlockQueue.queueGet_wait]
    exact reading.waits
  · simp only [readPass, got.1]

theorem readPass_nil (reading : Reading line [] read) :
    ∃ kbdBuf, Reading line [] { read with kbdBuf := kbdBuf } ∧
      readPass readerPid flags read = .waits { read with kbdBuf := kbdBuf } := by
  have waits := reading.stores.get_nil reading.waits readerPid
  refine ⟨{ read.kbdBuf with consumer := readerPid }, ⟨?_, reading.waits, reading.holds⟩, ?_⟩
  · exact ⟨reading.stores.holds, reading.stores.length_lt, reading.stores.head_eq⟩
  · simp only [readPass, waits]

theorem Reading.press (reading : Reading line [] read) (slot : Nat) (ch : UInt8) :
    Reading line [slot] (read.press handlerPid slot ch) := by
  have notFull : read.kbdBuf.queueFull = false := by
    rw [← Bool.not_eq_true, reading.stores.queueFull_iff]
    decide
  refine ⟨(reading.stores.put notFull handlerPid slot).2, ?_, reading.holds⟩
  change (read.kbdBuf.queuePut handlerPid slot).2.wait = true
  rw [BlockQueue.queuePut_wait]
  exact reading.waits

namespace Follows

variable {before after : LineRead} {returned : Bool} {rest : List (Nat × UInt8)} {ch : UInt8}

theorem full (reading : Reading line slots read) (full : size ≤ line.length) :
    Follows size line (stillTyped slots read.chars later) read true later read := by
  have edited : editLine size line (stillTyped slots read.chars later) =
      ⟨true, line, stillTyped slots read.chars later⟩ := by
    cases stillTyped slots read.chars later with
    | nil =>
        rw [editLine, decide_eq_true full]
    | cons _ _ => exact if_pos full
  refine ⟨fun empty => ?_, fun member => member, fun _ clean => ?_⟩
  · cases isTyped : stillTyped slots read.chars later with
    | nil =>
        rw [isTyped] at empty
        exact empty.elim
    | cons _ _ =>
        rw [isTyped] at empty
        exact absurd empty.1 (Nat.not_lt.mpr full)
  · rw [edited]
    exact ⟨rfl, reading.holds, clean, slots, reading.stores, rfl⟩

theorem waiting (reading : Reading line [] after) (short : line.length < size)
    (same : after.stored = read.stored) : Follows size line [] read false [] after := by
  refine ⟨fun empty => empty.elim, fun member => by rwa [same], fun _ clean => ?_⟩
  rw [← same] at clean
  refine ⟨?_, reading.holds, clean, [], reading.stores, rfl⟩
  exact (decide_eq_false (Nat.not_le.mpr short)).symm

theorem of_stored (follows : Follows size line typed before returned rest after)
    (same : before.stored = read.stored) : Follows size line typed read returned rest after := by
  refine ⟨follows.erasesEmpty, fun member => ?_, fun notEmpty clean => ?_⟩
  · rw [← same] at member
    exact follows.keeps member
  · rw [← same] at clean
    exact follows.edits notEmpty clean

theorem erase (short : line.length < size) (hasChar : line ≠ [])
    (follows : Follows size line.dropLast typed before returned rest after)
    (same : before.stored = read.stored) :
    Follows size line (backspace :: typed) read returned rest after := by
  refine ⟨?_, (follows.of_stored same).keeps, fun notEmpty clean => ?_⟩
  · rintro ⟨-, empty⟩
    rw [if_pos rfl] at empty
    exact follows.erasesEmpty (empty.resolve_left hasChar)
  · rw [editLine, if_neg (Nat.not_le.mpr short), if_pos rfl]
    apply (follows.of_stored same).edits _ clean
    intro empty
    apply notEmpty
    refine ⟨short, ?_⟩
    rw [if_pos rfl]
    exact Or.inr empty

theorem eraseEmpty (short : 0 < size) (stored : backspace ∈ before.stored) {other : List UInt8}
    (follows : Follows size other typed before returned rest after) :
    Follows size [] (backspace :: typed) read returned rest after := by
  refine ⟨fun _ => follows.keeps stored, fun _ => follows.keeps stored, fun notEmpty => ?_⟩
  refine absurd ⟨short, ?_⟩ notEmpty
  rw [if_pos rfl]
  exact Or.inl rfl

theorem store (short : line.length < size) (notErase : ch ≠ backspace) (notEnter : ¬ IsEnter ch)
    (follows : Follows size (line ++ [ch]) typed before returned rest after)
    (same : before.stored = read.stored ++ [ch]) :
    Follows size line (ch :: typed) read returned rest after := by
  have stored_iff : backspace ∈ before.stored ↔ backspace ∈ read.stored := by
    rw [same, List.mem_append, List.mem_singleton]
    exact or_iff_left (Ne.symm notErase)
  refine ⟨?_, fun member => follows.keeps (stored_iff.mpr member), fun notEmpty clean => ?_⟩
  · rintro ⟨-, empty⟩
    rw [if_neg notErase, if_neg notEnter] at empty
    exact follows.erasesEmpty empty
  · rw [editLine, if_neg (Nat.not_le.mpr short), if_neg notErase, if_neg notEnter]
    apply follows.edits _ fun member => clean (stored_iff.mp member)
    intro empty
    apply notEmpty
    refine ⟨short, ?_⟩
    rw [if_neg notErase, if_neg notEnter]
    exact empty

theorem enter {chars : Nat → UInt8} (short : line.length < size) (isEnter : IsEnter ch)
    (reading : Reading (line ++ [newline]) slots after)
    (alike : ∀ place, lineChar (after.chars place) = lineChar (chars place))
    (same : after.stored = read.stored ++ [newline]) :
    Follows size line (ch :: stillTyped slots chars later) read true later after := by
  have notErase : ch ≠ backspace := by
    rintro rfl
    exact not_isEnter_backspace isEnter
  refine ⟨?_, fun member => ?_, fun _ clean => ?_⟩
  · rintro ⟨-, empty⟩
    rw [if_neg notErase, if_pos isEnter] at empty
    exact empty.elim
  · rw [same]
    exact List.mem_append_left _ member
  · rw [editLine, if_neg (Nat.not_le.mpr short), if_neg notErase, if_pos isEnter]
    refine ⟨rfl, reading.holds, ?_, slots, reading.stores, ?_⟩
    · rw [same, List.mem_append, List.mem_singleton]
      rintro (member | isNewline)
      · exact clean member
      · exact absurd isNewline (by decide)
    · simp only [stillTyped, List.map_append, List.map_map]
      congr 1
      apply List.map_congr_left
      intro place _
      exact alike place

end Follows

def Loops (handlerPid readerPid : Nat) (flags : TtyFlags) (size fuel : Nat)
    (later : List (Nat × UInt8)) (line : List UInt8) (slots : List Nat) (read : LineRead) : Prop :=
  ∃ returned rest after,
    ttyReadLoop handlerPid readerPid flags size fuel later read = some (returned, rest, after) ∧
      Follows size line (stillTyped slots read.chars later) read returned rest after

theorem loops_nil (reading : Reading line [] read) (short : line.length < size)
    (next : ∀ slot ch later' read', later = (slot, ch) :: later' → Reading line [slot] read' →
      Loops handlerPid readerPid flags size fuel later' line [slot] read') :
    Loops handlerPid readerPid flags size (fuel + 1) later line [] read := by
  obtain ⟨kbdBuf, waiting, passed⟩ := @readPass_nil readerPid flags read line reading
  have notFull : ¬ size ≤ read.len := by
    rw [← reading.length]
    exact Nat.not_le.mpr short
  unfold Loops
  rw [ttyReadLoop, if_neg notFull, passed]
  cases later with
  | nil => exact ⟨false, [], _, rfl, .waiting waiting short rfl⟩
  | cons press later =>
      have pressed := @Reading.press handlerPid _ _ waiting press.1 press.2
      obtain ⟨returned, rest, after, loops, follows⟩ := next _ _ _ _ rfl pressed
      refine ⟨returned, rest, after, loops, ?_⟩
      have typed : stillTyped [press.1] (LineRead.press handlerPid
          { read with kbdBuf := kbdBuf } press.1 press.2).chars later =
          stillTyped [] read.chars (press :: later) := by
        change [Function.update read.chars press.1 press.2 press.1] ++ _ = _
        rw [Function.update_self]
        rfl
      rw [typed] at follows
      exact follows.of_stored rfl

theorem loops_cons (mode : LineMode flags) (reading : Reading line (slot :: slots) read)
    (short : line.length < size)
    (next : ∀ line' read', Reading line' slots read' →
      Loops handlerPid readerPid flags size fuel later line' slots read') :
    Loops handlerPid readerPid flags size (fuel + 1) later line (slot :: slots) read := by
  obtain ⟨kbdBuf, popped, passed⟩ := @readPass_cons readerPid slot flags read line slots reading
  have notFull : ¬ size ≤ read.len := by
    rw [← reading.length]
    exact Nat.not_le.mpr short
  unfold Loops
  rw [ttyReadLoop, if_neg notFull, passed]
  change ∃ returned rest after, _ ∧ Follows size line
    (read.chars slot :: stillTyped slots read.chars later) read returned rest after
  by_cases isEnter : IsEnter (read.chars slot)
  · obtain ⟨chars, echoed, alike, taken⟩ :=
      @takeChar_enter slot flags { read with kbdBuf := kbdBuf } mode isEnter
    rw [taken]
    refine ⟨true, later, _, rfl, .enter short isEnter ?_ alike rfl⟩
    exact popped.store newline chars echoed
  · by_cases isErase : read.chars slot = backspace
    · by_cases hasChar : 0 < read.len
      · obtain ⟨echoed, taken⟩ :=
          @takeChar_erase slot flags { read with kbdBuf := kbdBuf } mode isErase hasChar
        rw [taken, isErase]
        obtain ⟨returned, rest, after, loops, follows⟩ :=
          next _ _ (popped.erase hasChar echoed)
        refine ⟨returned, rest, after, loops, .erase short ?_ follows rfl⟩
        rw [← List.length_pos_iff, reading.length]
        exact hasChar
      · obtain ⟨echoed, taken⟩ := @takeChar_store slot flags
          { read with kbdBuf := kbdBuf } isEnter fun both => hasChar both.2
        rw [taken, isErase]
        obtain ⟨returned, rest, after, loops, follows⟩ :=
          next _ _ (popped.store backspace read.chars echoed)
        have isEmpty : line = [] := by
          apply List.length_eq_zero_iff.mp
          rw [reading.length]
          exact Nat.eq_zero_of_not_pos hasChar
        subst isEmpty
        refine ⟨returned, rest, after, loops, .eraseEmpty short ?_ follows⟩
        exact List.mem_append_right _ (List.mem_singleton_self _)
    · obtain ⟨echoed, taken⟩ := @takeChar_store slot flags
        { read with kbdBuf := kbdBuf } isEnter fun both => isErase both.1
      rw [taken]
      obtain ⟨returned, rest, after, loops, follows⟩ :=
        next _ _ (popped.store (read.chars slot) read.chars echoed)
      exact ⟨returned, rest, after, loops, .store short isErase isEnter follows rfl⟩

theorem ttyReadLoop_follows (mode : LineMode flags) (reading : Reading line slots read)
    (enough : slots.length + 2 * later.length < fuel) :
    Loops handlerPid readerPid flags size fuel later line slots read := by
  induction fuel generalizing line slots later read with
  | zero => exact absurd enough (Nat.not_lt_zero _)
  | succ fuel ih =>
      by_cases full : size ≤ line.length
      · have isFull := full
        rw [reading.length] at isFull
        refine ⟨true, later, read, ?_, .full reading full⟩
        rw [ttyReadLoop, if_pos isFull]
      · have short := Nat.lt_of_not_le full
        cases slots with
        | nil =>
            apply loops_nil reading short
            intro slot ch later' read' isLater pressed
            apply ih pressed
            rw [isLater, List.length_cons] at enough
            simp only [List.length_cons, List.length_nil] at enough ⊢
            omega
        | cons slot slots =>
            apply loops_cons mode reading short
            intro line' read' reading'
            apply ih reading'
            rw [List.length_cons] at enough
            omega

/-- A read in line mode gives the edited line, stores no backspace and leaves the rest for the
next read, exactly when no backspace comes at the start of the line. -/
theorem ttyRead_line_iff (handlerPid readerPid : Nat) (flags : TtyFlags) (size : Nat)
    (later : List (Nat × UInt8)) (kbdBuf : BlockQueue Nat) (slots : List Nat)
    (chars buf : Nat → UInt8) (mode : LineMode flags) (stores : kbdBuf.Stores slots)
    (waits : kbdBuf.wait = true) :
    (∃ returned rest after,
        ttyRead handlerPid readerPid flags size later kbdBuf chars buf =
          some (returned, rest, after) ∧
        ReadsLine (editLine size [] (slots.map chars ++ later.map Prod.snd)) returned rest
          after) ↔
      ¬ ErasesEmpty size [] (slots.map chars ++ later.map Prod.snd) := by
  have reading : Reading [] slots ⟨kbdBuf, chars, 0, buf, [], []⟩ := ⟨stores, waits, rfl⟩
  have enough : slots.length + 2 * later.length <
      kbdBuf.queueLen + 2 * later.length + 1 := by
    rw [stores.queueLen_eq]
    exact Nat.lt_succ_self _
  obtain ⟨returned, rest, after, loops, follows⟩ :=
    @ttyReadLoop_follows handlerPid readerPid size _ _ _ _ _ _ mode reading enough
  constructor
  · rintro ⟨otherReturned, otherRest, otherAfter, again, readsLine⟩ empty
    cases loops.symm.trans again
    exact readsLine.stored (follows.erasesEmpty empty)
  · intro notEmpty
    exact ⟨returned, rest, after, loops, follows.edits notEmpty List.not_mem_nil⟩

def lineFlags : TtyFlags := ⟨0, ttyOutRN ||| ttyOutEcho ||| ttyOutLine⟩

theorem lineFlags_mode : LineMode lineFlags := ⟨by decide, by decide, by decide⟩

theorem stores_kbdBuf : initKeyboard.kbdBuf.Stores [] :=
  BlockQueue.stores_initQueue _ _ _

/-- Two characters, a backspace and enter. -/
theorem ttyRead_line_erased :
    ∃ returned rest after,
      ttyRead 1 2 lineFlags 80 [(30, 0x61), (48, 0x62), (14, backspace), (28, enter)]
          initKeyboard.kbdBuf initKeyboard.buf (fun _ => 0) = some (returned, rest, after) ∧
        ReadsLine (editLine 80 [] [0x61, 0x62, backspace, enter]) returned rest after :=
  (ttyRead_line_iff 1 2 lineFlags 80 [(30, 0x61), (48, 0x62), (14, backspace), (28, enter)]
    initKeyboard.kbdBuf [] initKeyboard.buf (fun _ => 0) lineFlags_mode stores_kbdBuf
    rfl).mpr (by simp [ErasesEmpty, IsEnter, backspace, enter, newline])

/-- A backspace at the start of the line is stored. -/
theorem ttyRead_line_stored :
    editLine 80 [] [backspace, enter] = ⟨true, [newline], []⟩ ∧
      ¬ ∃ returned rest after,
        ttyRead 1 2 lineFlags 80 [(14, backspace), (28, enter)] initKeyboard.kbdBuf
            initKeyboard.buf (fun _ => 0) = some (returned, rest, after) ∧
          ReadsLine (editLine 80 [] [backspace, enter]) returned rest after := by
  refine ⟨rfl, ?_⟩
  rintro ⟨returned, rest, after, reads, readsLine⟩
  have reading : Reading [] [] ⟨initKeyboard.kbdBuf, initKeyboard.buf, 0, fun _ => 0, [], []⟩ :=
    ⟨stores_kbdBuf, rfl, rfl⟩
  obtain ⟨otherReturned, otherRest, otherAfter, loops, follows⟩ :=
    @ttyReadLoop_follows 1 2 80 5 lineFlags _ _ _ [(14, backspace), (28, enter)] lineFlags_mode
      reading (by decide)
  cases loops.symm.trans reads
  exact readsLine.stored (follows.erasesEmpty ⟨by decide, Or.inl rfl⟩)

end CleanOS.Tty
