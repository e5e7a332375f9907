import CleanOS.Tty.Isolation

/-!
# The state of a console

The cursor stays on the screen after every byte, and the escape parser uses only the parameters
that there are, unless a sequence goes on after the place for its parameters is used up.
-/

namespace CleanOS.Tty

open CleanOS.Lib

/-- The cursor is on a screen of 25 rows of 80 cells, and the parser is in one of its states. -/
structure Console.OnScreen (console : Console) : Prop where
  cols : console.displayCols = 80
  rows : console.displayRows = 25
  col_lt : console.cursorCol < 80
  row_lt : console.cursorRow < 25
  state : console.writeState = .normal ∨ console.writeState = .esc ∨
    console.writeState = .square

/-- The indices at which `putchar_esc_square` reads or writes `esc_params`: a digit changes the
current parameter, `m` reads all parameters and `J` reads the last one. -/
def squareIndices (console : Console) (ch : UInt8) : List Nat :=
  if 0x30 ≤ ch ∧ ch ≤ 0x39 then [console.curEscParam]
  else if ch = 0x3b ∧ console.curEscParam < escParamsMax then []
  else if ch = 0x6d then List.range (console.curEscParam + 1)
  else if ch = 0x4a then [console.curEscParam + 1 - 1]
  else []

/-- The indices into `esc_params` that a byte leads to. -/
def escIndices (console : Console) (ch : UInt8) : List Nat :=
  match console.writeState with
  | .square => squareIndices console ch
  | _ => []

def ParamsLeft (console : Console) (ch : UInt8) : Prop :=
  console.writeState = .square → escParamsMax ≤ console.curEscParam →
    ¬ (0x30 ≤ ch ∧ ch ≤ 0x39) ∧ ch ≠ 0x6d ∧ ch ≠ 0x4a

theorem Console.OnScreen.ready {console : Console} (onScreen : console.OnScreen) :
    console.Ready console.displayBase :=
  ⟨onScreen.cols, onScreen.rows, rfl, onScreen.col_lt, onScreen.row_lt⟩

theorem Console.Ready.onScreen {console : Console} {base : Nat} (ready : console.Ready base) :
    console.OnScreen := by
  refine ⟨ready.cols, ready.rows, ready.col_lt, ready.row_lt, ?_⟩
  cases console.writeState with
  | normal => exact Or.inl rfl
  | esc => exact Or.inr (Or.inl rfl)
  | square => exact Or.inr (Or.inr rfl)

theorem squareIndices_lt_iff (console : Console) (ch : UInt8) :
    (∀ index ∈ squareIndices console ch, index < escParamsMax) ↔
      (escParamsMax ≤ console.curEscParam →
        ¬ (0x30 ≤ ch ∧ ch ≤ 0x39) ∧ ch ≠ 0x6d ∧ ch ≠ 0x4a) := by
  unfold squareIndices
  by_cases isDigit : 0x30 ≤ ch ∧ ch ≤ 0x39
  · rw [if_pos isDigit]
    constructor
    · intro inside full
      have small := inside _ (List.mem_singleton_self _)
      exact absurd small (Nat.not_lt.mpr full)
    · intro left index member
      rw [List.mem_singleton.mp member]
      exact Nat.lt_of_not_le fun full => (left full).1 isDigit
  rw [if_neg isDigit]
  by_cases isSeparator : ch = 0x3b ∧ console.curEscParam < escParamsMax
  · rw [if_pos isSeparator]
    refine iff_of_true (fun index member => ?_) (fun full => ?_)
    · cases member
    · exact absurd isSeparator.2 (Nat.not_lt.mpr full)
  rw [if_neg isSeparator]
  by_cases isColor : ch = 0x6d
  · rw [if_pos isColor]
    constructor
    · intro inside full
      have last := inside console.curEscParam (List.mem_range.mpr (Nat.lt_succ_self _))
      exact absurd last (Nat.not_lt.mpr full)
    · intro left index member
      have small : console.curEscParam < escParamsMax :=
        Nat.lt_of_not_le fun full => (left full).2.1 isColor
      exact Nat.lt_of_le_of_lt (Nat.le_of_lt_succ (List.mem_range.mp member)) small
  rw [if_neg isColor]
  by_cases isErase : ch = 0x4a
  · rw [if_pos isErase, Nat.add_sub_cancel]
    constructor
    · intro inside full
      have small := inside _ (List.mem_singleton_self _)
      exact absurd small (Nat.not_lt.mpr full)
    · intro left index member
      rw [List.mem_singleton.mp member]
      exact Nat.lt_of_not_le fun full => (left full).2.2 isErase
  rw [if_neg isErase]
  refine iff_of_true (fun index member => ?_) (fun _ => ⟨isDigit, isColor, isErase⟩)
  cases member

theorem escIndices_lt_iff (console : Console) (ch : UInt8) :
    (∀ index ∈ escIndices console ch, index < escParamsMax) ↔ ParamsLeft console ch := by
  unfold escIndices ParamsLeft
  cases state : console.writeState with
  | normal =>
      refine iff_of_true (fun index member => ?_) (fun isSquare => ?_)
      · cases member
      · cases isSquare
  | esc =>
      refine iff_of_true (fun index member => ?_) (fun isSquare => ?_)
      · cases member
      · cases isSquare
  | square =>
      rw [squareIndices_lt_iff]
      exact ⟨fun left _ => left, fun left => left rfl⟩

namespace Screens

variable {screens : Screens} {idx : Nat} {ch : UInt8}

theorem consolePutchar_onScreen (isConsole : idx < consoleCnt)
    (onScreen : (screens.consoles idx).OnScreen) (left : ParamsLeft (screens.consoles idx) ch) :
    ∃ result after, consolePutchar idx screens ch = some (result, after) ∧
      (after.consoles idx).OnScreen := by
  have hasParam : (screens.consoles idx).writeState = .square →
      Screen.HasParam (screens.consoles idx) ch := by
    intro isSquare isDigit
    exact Nat.lt_of_not_le fun full => (left isSquare full).1 isDigit
  obtain ⟨result, screen, put, writes⟩ :=
    consolePutchar_spec isConsole onScreen.ready hasParam
  refine ⟨result, _, put, ?_⟩
  dsimp only [Screens.put]
  rw [Function.update_self]
  exact writes.ready.onScreen

/-- Every byte of a stream is put, leaves the cursor on the screen and uses parameters inside
the array, exactly when every byte comes while there are parameters left for it. -/
theorem consoleState_iff (idx : Nat) (screens : Screens) (bytes : List UInt8)
    (isConsole : idx < consoleCnt) (onScreen : (screens.consoles idx).OnScreen) :
    AllRight (consolePutchar idx) (fun screens => (screens.consoles idx).OnScreen)
        (fun screens ch _ _ => ∀ index ∈ escIndices (screens.consoles idx) ch,
          index < escParamsMax) screens bytes ↔
      AllGuarded (consolePutchar idx) (fun screens ch => ParamsLeft (screens.consoles idx) ch)
        screens bytes := by
  apply allRight_iff_allGuarded (fun _ => True)
  · intro state byte _ good left
    obtain ⟨result, after, put, afterGood⟩ := consolePutchar_onScreen isConsole good left
    exact ⟨result, after, put, (escIndices_lt_iff _ _).mpr left, afterGood, trivial⟩
  · intro state byte _ _ _ _ _ inside _
    exact (escIndices_lt_iff _ _).mp inside
  · trivial
  · exact onScreen

theorem twoConsoles_onScreen : ((twoConsoles 0).consoles 0).OnScreen :=
  ((initialised_twoConsoles (by decide)) 0 List.mem_cons_self).2.onScreen

/-- A sequence that sets a colour. -/
theorem consoleState_color :
    AllRight (consolePutchar 0) (fun screens => (screens.consoles 0).OnScreen)
      (fun screens ch _ _ => ∀ index ∈ escIndices (screens.consoles 0) ch,
        index < escParamsMax) (twoConsoles 0) [0x1b, 0x5b, 0x33, 0x6d] := by
  apply (consoleState_iff 0 (twoConsoles 0) [0x1b, 0x5b, 0x33, 0x6d] (by decide)
    twoConsoles_onScreen).mpr
  refine AllGuarded.cons rfl (fun isSquare => nomatch isSquare) ?_
  refine AllGuarded.cons rfl (fun isSquare => nomatch isSquare) ?_
  refine AllGuarded.cons rfl (fun _ full => absurd full (by decide)) ?_
  refine AllGuarded.cons rfl (fun _ full => absurd full (by decide)) trivial

/-- A digit after ten semicolons is stored behind the array. -/
theorem consoleState_eleventh :
    ((twoConsoles 0).consoles 0).OnScreen ∧
      ¬ AllRight (consolePutchar 0) (fun screens => (screens.consoles 0).OnScreen)
        (fun screens ch _ _ => ∀ index ∈ escIndices (screens.consoles 0) ch,
          index < escParamsMax) (twoConsoles 0)
        [0x1b, 0x5b, 0x3b, 0x3b, 0x3b, 0x3b, 0x3b, 0x3b, 0x3b, 0x3b, 0x3b, 0x3b, 0x31] := by
  refine ⟨twoConsoles_onScreen, fun allRight => ?_⟩
  have esc := allRight.tail rfl
  have square := esc.tail rfl
  have one := square.tail rfl
  have two := one.tail rfl
  have three := two.tail rfl
  have four := three.tail rfl
  have five := four.tail rfl
  have six := five.tail rfl
  have seven := six.tail rfl
  have eight := seven.tail rfl
  have nine := eight.tail rfl
  have ten := nine.tail rfl
  obtain ⟨-, _, _, -, inside, -⟩ := ten
  exact absurd (inside 10 List.mem_cons_self) (by decide)

end Screens

end CleanOS.Tty
