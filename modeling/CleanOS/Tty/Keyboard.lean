import CleanOS.Common.BlockQueue
import CleanOS.Lib.Calls

/-!
# The keyboard and its reader

`kernel/device/tty/keyboard.c` and the loop of `tty_read` in `kernel/device/tty/tty.c`.  The
queue carries pointers into `buf`, and the handler writes a character to the place that its
scan code selects.  A pointer into `buf` is its offset.
-/

namespace CleanOS.Tty

open CleanOS.Common CleanOS.Lib

/-- `enter`. -/
def enter : UInt8 := 0x0d

/-- `newline`. -/
def newline : UInt8 := 0x0a

/-- `keymap`. -/
def keymap : List (Char × Char) :=
  [('\x00', '\x00'), ('\x1b', '\x1b'), ('1', '!'), ('2', '@'), ('3', '#'), ('4', '$'),
   ('5', '%'), ('6', '^'), ('7', '&'), ('8', '*'), ('9', '('), ('0', ')'), ('-', '_'),
   ('=', '+'), ('\x08', '\x08'), ('\x09', '\x09'), ('q', 'Q'), ('w', 'W'), ('e', 'E'),
   ('r', 'R'), ('t', 'T'), ('y', 'Y'), ('u', 'U'), ('i', 'I'), ('o', 'O'), ('p', 'P'),
   ('\x5b', '\x7b'), ('\x5d', '\x7d'), ('\x0d', '\x0d'), ('\x00', '\x00'), ('a', 'A'),
   ('s', 'S'), ('d', 'D'), ('f', 'F'), ('g', 'G'), ('h', 'H'), ('j', 'J'), ('k', 'K'),
   ('l', 'L'), (';', ':'), ('\x27', '\x22'), ('\x60', '~'), ('\x00', '\x00'), ('\x5c', '|'),
   ('z', 'Z'), ('x', 'X'), ('c', 'C'), ('v', 'V'), ('b', 'B'), ('n', 'N'), ('m', 'M'),
   (',', '<'), ('.', '>'), ('/', '?'), ('\x00', '\x00'), ('*', '*'), ('\x00', '\x00'),
   (' ', ' '), ('\x00', '\x00')]

/-- `keymap[idx][shift]`. -/
def keymapAt (idx : Nat) (shift : Bool) : UInt8 :=
  match keymap[idx]? with
  | some (plain, shifted) => if shift then shifted.toUInt8 else plain.toUInt8
  | none => 0

def ctrlLMake : Nat := 0x1d

def ctrlRMake : Nat := 0xe01d

def shiftLMake : Nat := 0x2a

def shiftRMake : Nat := 0x36

def altLMake : Nat := 0x38

def altRMake : Nat := 0xe038

def capsLockMake : Nat := 0x3a

/-- The variables of `keyboard.c`. -/
structure Keyboard where
  extScancode : Bool
  ctrlDown : Bool
  shiftDown : Bool
  altDown : Bool
  capsLockDown : Bool
  kbdBuf : BlockQueue Nat
  buf : Nat → UInt8

/-- `init_keyboard` after the variables are cleared. -/
def initKeyboard : Keyboard where
  extScancode := false
  ctrlDown := false
  shiftDown := false
  altDown := false
  capsLockDown := false
  kbdBuf := .initQueue (fun _ => 0) true true
  buf := fun _ => 0

namespace Keyboard

def release (keyboard : Keyboard) (makeCode : Nat) : Keyboard :=
  if makeCode = ctrlLMake ∨ makeCode = ctrlRMake then { keyboard with ctrlDown := false }
  else if makeCode = shiftLMake ∨ makeCode = shiftRMake then { keyboard with shiftDown := false }
  else if makeCode = altLMake ∨ makeCode = altRMake then { keyboard with altDown := false }
  else keyboard

def modifier (keyboard : Keyboard) (scanCode : Nat) : Keyboard :=
  if scanCode = ctrlLMake ∨ scanCode = ctrlRMake then { keyboard with ctrlDown := true }
  else if scanCode = shiftLMake ∨ scanCode = shiftRMake then { keyboard with shiftDown := true }
  else if scanCode = altLMake ∨ scanCode = altRMake then { keyboard with altDown := true }
  else if scanCode = capsLockMake then { keyboard with capsLockDown := !keyboard.capsLockDown }
  else keyboard

def scanCode (keyboard : Keyboard) (code : UInt8) : Nat :=
  if keyboard.extScancode then 0xe000 ||| code.toNat else code.toNat

/-- The test of a pressed key for an entry of `keymap` or a modifier on the right. -/
def Mapped (scanCode : Nat) : Prop :=
  (0 < scanCode ∧ scanCode < 0x3b) ∨ scanCode = altRMake ∨ scanCode = ctrlRMake

instance (scanCode : Nat) : Decidable (Mapped scanCode) :=
  inferInstanceAs (Decidable (_ ∨ _))

/-- `keyboard_hander` for a byte of the data port: the character of the pressed key, if it has
one, and nothing when the handler has to wait for room in the queue. -/
def keyboardHander (pid : Nat) (keyboard : Keyboard) (code : UInt8) :
    Option (Option UInt8 × Keyboard) :=
  if code = 0xe0 then some (none, { keyboard with extScancode := true })
  else
    let scanCode := keyboard.scanCode code
    let keyboard := { keyboard with extScancode := false }
    if scanCode &&& 0x0080 ≠ 0 then some (none, keyboard.release (scanCode &&& 0xff7f))
    else if Mapped scanCode then
      let idx := scanCode &&& 0x00ff
      let ch := keymapAt idx keyboard.shiftDown
      if ch ≠ 0 then
        match keyboard.kbdBuf.queuePut pid idx with
        | (false, _) => none
        | (true, kbdBuf) =>
            some (some ch,
              { keyboard with buf := Function.update keyboard.buf idx ch, kbdBuf := kbdBuf })
      else some (none, keyboard.modifier idx)
    else some (none, keyboard)

def typed (keyboard : Keyboard) (code : UInt8) : Option (Nat × UInt8) :=
  let scanCode := keyboard.scanCode code
  let idx := scanCode &&& 0x00ff
  let ch := keymapAt idx keyboard.shiftDown
  if code ≠ 0xe0 ∧ scanCode &&& 0x0080 = 0 ∧ Mapped scanCode ∧ ch ≠ 0 then some (idx, ch)
  else none

end Keyboard

/-- What the reader does with the last pointer from the queue. -/
inductive Reader where
  | idle
  | fetched (slot : Nat)
  | replacing (slot : Nat)
  deriving DecidableEq, Repr

def Reader.slots : Reader → List Nat
  | .fetched slot => [slot]
  | _ => []

/-- The keyboard with a reader, the characters that it got, and those of the keys pressed. -/
structure Session where
  keyboard : Keyboard
  reader : Reader
  delivered : List UInt8
  pressed : List UInt8

inductive Event where
  /-- The handler runs for a byte of the data port. -/
  | scan (code : UInt8)
  /-- The reader makes a pass of `queue_get`. -/
  | get
  /-- The reader reads the character behind the pointer. -/
  | load
  /-- The reader writes `newline` in place of `enter`. -/
  | replace
  deriving DecidableEq, Repr

/-- `TTY_OUT_R_N`. -/
def ttyOutRN : Nat := 1 <<< 10

namespace Session

def start : Session where
  keyboard := initKeyboard
  reader := .idle
  delivered := []
  pressed := []

/-- One event, for the threads that the handler interrupts and that reads, and the flags of
the terminal. -/
def step (handlerPid readerPid outFlags : Nat) (session : Session) :
    Event → Option (Unit × Session)
  | .scan code =>
      match session.keyboard.keyboardHander handlerPid code with
      | none => none
      | some (ch, keyboard) =>
          some ((), { session with
            keyboard := keyboard
            pressed := session.pressed ++ ch.toList })
  | .get =>
      if session.reader = .idle then
        let (value, kbdBuf) := session.keyboard.kbdBuf.queueGet readerPid
        let keyboard := { session.keyboard with kbdBuf := kbdBuf }
        match value with
        | some (some slot) =>
            some ((), { session with keyboard := keyboard, reader := .fetched slot })
        | _ => some ((), { session with keyboard := keyboard })
      else none
  | .load =>
      match session.reader with
      | .fetched slot =>
          let ch := session.keyboard.buf slot
          some ((), { session with
            reader := if ch = enter ∧ outFlags &&& ttyOutRN ≠ 0 then .replacing slot else .idle
            delivered := session.delivered ++ [ch] })
      | _ => none
  | .replace =>
      match session.reader with
      | .replacing slot =>
          some ((), { session with
            keyboard := { session.keyboard with
              buf := Function.update session.keyboard.buf slot newline }
            reader := .idle })
      | _ => none

def waitingSlots (session : Session) : List Nat :=
  session.reader.slots ++ session.keyboard.kbdBuf.contents

/-- What the reader got, followed by what it will find in the waiting places, are the
characters of the keys pressed. -/
structure Faithful (session : Session) : Prop where
  isPrefix : session.delivered <+: session.pressed
  unchanged : session.delivered ++ session.waitingSlots.map session.keyboard.buf =
    session.pressed

def LeavesWaiting (session : Session) : Event → Prop
  | .scan code => ∀ idx ch, session.keyboard.typed code = some (idx, ch) →
      session.keyboard.kbdBuf.queueFull = false → idx ∈ session.waitingSlots →
        session.keyboard.buf idx = ch
  | .replace => ∀ slot, session.reader = .replacing slot → slot ∉ session.waitingSlots
  | _ => True

end Session

theorem keymapAt_ne_newline (idx : Nat) (shift : Bool) : keymapAt idx shift ≠ newline := by
  have entries : ∀ entry ∈ keymap,
      entry.1.toUInt8 ≠ newline ∧ entry.2.toUInt8 ≠ newline := by decide
  unfold keymapAt
  cases found : keymap[idx]? with
  | none => exact (by decide : (0 : UInt8) ≠ newline)
  | some entry =>
      have both := entries entry (List.mem_of_getElem? found)
      cases shift with
      | false => exact both.1
      | true => exact both.2

namespace Keyboard

theorem release_buf (keyboard : Keyboard) (makeCode : Nat) :
    (keyboard.release makeCode).buf = keyboard.buf ∧
      (keyboard.release makeCode).kbdBuf = keyboard.kbdBuf := by
  unfold release
  split_ifs <;> exact ⟨rfl, rfl⟩

theorem modifier_buf (keyboard : Keyboard) (scanCode : Nat) :
    (keyboard.modifier scanCode).buf = keyboard.buf ∧
      (keyboard.modifier scanCode).kbdBuf = keyboard.kbdBuf := by
  unfold modifier
  split_ifs <;> exact ⟨rfl, rfl⟩

theorem typed_ne_newline {keyboard : Keyboard} {code : UInt8} {idx : Nat} {ch : UInt8}
    (isTyped : keyboard.typed code = some (idx, ch)) : ch ≠ newline := by
  unfold typed at isTyped
  dsimp only at isTyped
  split at isTyped
  next => cases isTyped; exact keymapAt_ne_newline _ _
  next => cases isTyped

theorem keyboardHander_cases {pid : Nat} {keyboard after : Keyboard} {code : UInt8}
    {pressed : Option UInt8}
    (handled : keyboard.keyboardHander pid code = some (pressed, after)) :
    (keyboard.typed code = none ∧ pressed = none ∧ after.buf = keyboard.buf ∧
      after.kbdBuf = keyboard.kbdBuf) ∨
    ∃ idx ch, keyboard.typed code = some (idx, ch) ∧ pressed = some ch ∧
      after.buf = Function.update keyboard.buf idx ch ∧
      keyboard.kbdBuf.queuePut pid idx = (true, after.kbdBuf) := by
  unfold keyboardHander at handled
  unfold typed
  dsimp only at handled ⊢
  split at handled
  next isPrefix =>
    cases handled
    exact .inl ⟨if_neg fun holds => holds.1 isPrefix, rfl, rfl, rfl⟩
  next notPrefix =>
    split at handled
    next isBreak =>
      cases handled
      exact .inl ⟨if_neg fun holds => isBreak holds.2.1, rfl, release_buf _ _⟩
    next isMake =>
      split at handled
      next isMapped =>
        split at handled
        next hasChar =>
          split at handled
          next => cases handled
          next stored =>
            cases handled
            exact .inr ⟨_, _, if_pos ⟨notPrefix, not_ne_iff.mp isMake, isMapped, hasChar⟩, rfl,
              rfl, stored⟩
        next noChar =>
          cases handled
          exact .inl ⟨if_neg fun holds => noChar holds.2.2.2, rfl, modifier_buf _ _⟩
      next notMapped =>
        cases handled
        exact .inl ⟨if_neg fun holds => notMapped holds.2.2.1, rfl, rfl, rfl⟩

theorem queueFull_of_keyboardHander_eq_none {pid : Nat} {keyboard : Keyboard} {code : UInt8}
    (waits : keyboard.keyboardHander pid code = none) :
    keyboard.kbdBuf.queueFull = true := by
  unfold keyboardHander at waits
  dsimp only at waits
  split_ifs at waits
  rw [BlockQueue.queuePut] at waits
  cases isFull : keyboard.kbdBuf.queueFull with
  | true => rfl
  | false =>
      rw [isFull, Bool.false_and, if_neg Bool.false_ne_true] at waits
      cases waits

end Keyboard

theorem map_update_eq_iff {α β : Type} [DecidableEq α] (value : α → β) (place : α) (stored : β)
    (places : List α) :
    places.map (Function.update value place stored) = places.map value ↔
      (place ∈ places → value place = stored) := by
  rw [List.map_inj_left]
  constructor
  · intro same inside
    rw [← same place inside, Function.update_self]
  · intro kept other inside
    rcases eq_or_ne other place with rfl | different
    · rw [Function.update_self, kept inside]
    · rw [Function.update_of_ne different]

namespace Session

structure Ordered (session : Session) : Prop where
  stores : ∃ slots, session.keyboard.kbdBuf.Stores slots
  waits : session.keyboard.kbdBuf.wait = true
  noNewline : newline ∉ session.pressed

theorem faithful_iff (session : Session) : session.Faithful ↔
    session.delivered ++ session.waitingSlots.map session.keyboard.buf = session.pressed :=
  ⟨Faithful.unchanged, fun same => ⟨⟨_, same⟩, same⟩⟩

theorem ordered_start : start.Ordered where
  stores := ⟨[], BlockQueue.stores_initQueue _ _ _⟩
  waits := rfl
  noNewline := List.not_mem_nil

theorem faithful_start : start.Faithful :=
  (faithful_iff start).mpr rfl

variable {handlerPid readerPid outFlags : Nat} {session after : Session}

theorem step_scan {code : UInt8} (ordered : session.Ordered)
    (stepped : session.step handlerPid readerPid outFlags (.scan code) = some ((), after)) :
    after.Ordered ∧
      (session.Faithful → (after.Faithful ↔ session.LeavesWaiting (.scan code))) := by
  obtain ⟨slots, stores⟩ := ordered.stores
  dsimp only [step] at stepped
  split at stepped
  next => cases stepped
  next pressed keyboard handled =>
    cases stepped
    rcases Keyboard.keyboardHander_cases handled with
      ⟨noKey, rfl, sameBuf, sameQueue⟩ | ⟨idx, ch, isTyped, rfl, newBuf, put⟩
    · refine ⟨⟨⟨slots, ?_⟩, ?_, ?_⟩, ?_⟩
      · exact sameQueue ▸ stores
      · exact sameQueue ▸ ordered.waits
      · rw [Option.toList_none, List.append_nil]
        exact ordered.noNewline
      · intro faithful
        rw [faithful_iff, waitingSlots, sameBuf, sameQueue, Option.toList_none, List.append_nil]
        refine iff_of_true faithful.unchanged ?_
        intro idx ch isTyped
        rw [noKey] at isTyped
        cases isTyped
    · have room : session.keyboard.kbdBuf.queueFull = false := by
        rw [BlockQueue.queuePut, ordered.waits, Bool.and_true] at put
        split at put
        next => cases put
        next notFull => exact Bool.not_eq_true _ ▸ notFull
      have stored := (stores.put room handlerPid idx).2
      rw [put] at stored
      have waits := session.keyboard.kbdBuf.queuePut_wait handlerPid idx
      rw [put, ordered.waits] at waits
      refine ⟨⟨⟨_, stored⟩, waits, ?_⟩, ?_⟩
      · intro inside
        rcases List.mem_append.mp inside with old | new
        · exact ordered.noNewline old
        · exact Keyboard.typed_ne_newline isTyped (List.mem_singleton.mp new).symm
      · intro faithful
        have behind : ({ session with
            keyboard := keyboard
            pressed := session.pressed ++ [ch] } : Session).waitingSlots =
            session.waitingSlots ++ [idx] := by
          rw [waitingSlots, waitingSlots, stored.contents_eq, stores.contents_eq,
            List.append_assoc]
        rw [faithful_iff, Option.toList_some, behind, newBuf, List.map_append,
          List.map_singleton, Function.update_self, ← List.append_assoc, ← faithful.unchanged,
          List.append_cancel_right_eq, List.append_cancel_left_eq, map_update_eq_iff]
        constructor
        · intro kept other otherCh otherTyped _ inside
          rw [isTyped] at otherTyped
          cases otherTyped
          exact kept inside
        · intro leaves inside
          exact leaves idx ch isTyped room inside

theorem step_get (ordered : session.Ordered)
    (stepped : session.step handlerPid readerPid outFlags .get = some ((), after)) :
    after.Ordered ∧ (session.Faithful → after.Faithful) := by
  obtain ⟨slots, stores⟩ := ordered.stores
  dsimp only [step] at stepped
  split at stepped
  next isIdle =>
    cases slots with
    | nil =>
        rw [stores.get_nil ordered.waits] at stepped
        cases stepped
        refine ⟨⟨⟨[], ⟨stores.holds, stores.length_lt, stores.head_eq⟩⟩, ordered.waits,
          ordered.noNewline⟩, ?_⟩
        exact fun faithful => ⟨faithful.isPrefix, faithful.unchanged⟩
    | cons slot slots =>
        have taken := stores.get readerPid
        rw [taken.1] at stepped
        cases stepped
        have waits := session.keyboard.kbdBuf.queueGet_wait readerPid
        rw [ordered.waits] at waits
        refine ⟨⟨⟨slots, taken.2⟩, waits, ordered.noNewline⟩, fun faithful => ?_⟩
        rw [faithful_iff]
        have before := faithful.unchanged
        rw [waitingSlots, isIdle, stores.contents_eq] at before
        rw [waitingSlots, taken.2.contents_eq]
        exact before
  next => cases stepped

theorem step_load (ordered : session.Ordered)
    (stepped : session.step handlerPid readerPid outFlags .load = some ((), after)) :
    after.Ordered ∧ (session.Faithful → after.Faithful) := by
  dsimp only [step] at stepped
  split at stepped
  next slot isFetched =>
    cases stepped
    refine ⟨⟨ordered.stores, ordered.waits, ordered.noNewline⟩, fun faithful => ?_⟩
    have before := faithful.unchanged
    rw [waitingSlots, isFetched, Reader.slots, List.singleton_append, List.map_cons,
      List.append_cons] at before
    rw [faithful_iff, waitingSlots]
    split_ifs
    · exact before
    · exact before
  next => cases stepped

theorem step_replace (ordered : session.Ordered)
    (stepped : session.step handlerPid readerPid outFlags .replace = some ((), after)) :
    after.Ordered ∧
      (session.Faithful → (after.Faithful ↔ session.LeavesWaiting .replace)) := by
  dsimp only [step] at stepped
  split at stepped
  next slot isReplacing =>
    cases stepped
    refine ⟨⟨ordered.stores, ordered.waits, ordered.noNewline⟩, fun faithful => ?_⟩
    have before := faithful.unchanged
    have places : session.waitingSlots = session.keyboard.kbdBuf.contents := by
      rw [waitingSlots, isReplacing]
      rfl
    have notNewline : slot ∈ session.waitingSlots →
        session.keyboard.buf slot ≠ newline := by
      intro inside same
      apply ordered.noNewline
      rw [← before, ← same]
      exact List.mem_append_right _ (List.mem_map_of_mem inside)
    rw [faithful_iff, ← before]
    show session.delivered ++ List.map _ session.keyboard.kbdBuf.contents = _ ↔ _
    rw [← places, List.append_cancel_left_eq, map_update_eq_iff]
    constructor
    · intro kept other isOther inside
      rw [isReplacing] at isOther
      cases isOther
      exact notNewline inside (kept inside)
    · intro leaves inside
      exact absurd inside (leaves slot isReplacing)
  next => cases stepped

theorem step_spec {event : Event} (ordered : session.Ordered)
    (stepped : session.step handlerPid readerPid outFlags event = some ((), after)) :
    after.Ordered ∧ (session.Faithful → (after.Faithful ↔ session.LeavesWaiting event)) := by
  cases event with
  | scan code => exact step_scan ordered stepped
  | get =>
      have got := step_get ordered stepped
      exact ⟨got.1, fun faithful => iff_of_true (got.2 faithful) trivial⟩
  | load =>
      have loaded := step_load ordered stepped
      exact ⟨loaded.1, fun faithful => iff_of_true (loaded.2 faithful) trivial⟩
  | replace => exact step_replace ordered stepped

/-- Over every sequence of scan codes and steps of the reader: the reader gets the characters
of the keys pressed, and those that wait are not changed, exactly if nothing is written to a
place where another character waits. -/
theorem faithful_iff_leavesWaiting (events : List Event) :
    AllGood (step handlerPid readerPid outFlags) Faithful start events ↔
      AllGuarded (step handlerPid readerPid outFlags) LeavesWaiting start events := by
  refine allGood_iff_allGuarded Ordered ?_ ?_ ?_ events ordered_start faithful_start
  · intro session event _ after ordered stepped
    exact (step_spec ordered stepped).1
  · intro session event _ after ordered faithful stepped
    exact (step_spec ordered stepped).2 faithful
  · intro session event stopped
    cases event with
    | scan code =>
        dsimp only [step] at stopped
        split at stopped
        next waits =>
          intro idx ch _ room
          rw [Keyboard.queueFull_of_keyboardHander_eq_none waits] at room
          cases room
        next => cases stopped
    | get => trivial
    | load => trivial
    | replace =>
        intro slot isReplacing
        dsimp only [step] at stopped
        rw [isReplacing] at stopped
        cases stopped

set_option maxRecDepth 8192 in
/-- The key `a` before and after shift is pressed: the reader gets `A` for the first of them. -/
theorem shift_changes_waiting :
    ∃ session, runAll (step 1 2 ttyOutRN) start
        [.scan 0x1e, .scan 0x2a, .scan 0x1e, .get, .load] = some session ∧
      session.pressed = [0x61, 0x41] ∧ session.delivered = [0x41] ∧
      ¬ session.delivered <+: session.pressed :=
  ⟨_, rfl, by decide, by decide, by decide⟩

end Session

end CleanOS.Tty
