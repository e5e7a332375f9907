import CleanOS.Tty.Console

/-!
# What a console writes

The windows of neighbouring consoles overlap, since their distance counts cells where it
should count bytes.  A byte written to a console leaves the other consoles alone as long as
the cells that it writes lie in no other window.
-/

namespace CleanOS.Tty

open CleanOS.Lib

/-- The size of the windows, the place of this one, and a cursor inside the screen. -/
structure Console.Ready (console : Console) (base : Nat) : Prop where
  cols : console.displayCols = 80
  rows : console.displayRows = 25
  base_eq : console.displayBase = base
  col_lt : console.cursorCol < 80
  row_lt : console.cursorRow < 25

def Console.position (console : Console) : Nat :=
  console.cursorCol + console.cursorRow * 80

structure Writes (base first last : Nat) (before after : Screen) : Prop where
  ready : after.console.Ready base
  outside : ∀ address, address < base + 2 * first ∨ base + 2 * last ≤ address →
    after.video address = before.video address

namespace Writes

variable {base first last : Nat} {before between after : Screen}

theorem widen {wideFirst wideLast : Nat} (writes : Writes base first last before after)
    (wider : first < last → wideFirst ≤ first ∧ last ≤ wideLast) :
    Writes base wideFirst wideLast before after where
  ready := writes.ready
  outside := by
    intro address apart
    apply writes.outside
    omega

theorem trans (front : Writes base first last before between)
    (back : Writes base first last between after) : Writes base first last before after where
  ready := back.ready
  outside := fun address apart =>
    (back.outside address apart).trans (front.outside address apart)

theorem nothing (ready : after.console.Ready base) (same : after.video = before.video) :
    Writes base first last before after where
  ready := ready
  outside := fun address _ => congrFun same address

end Writes

theorem clearCells_outside (count : Nat) {start address : Nat} (video : Nat → UInt8)
    (apart : address < start ∨ start + 2 * count ≤ address) :
    clearCells count start video address = video address := by
  induction count generalizing start video with
  | zero => rfl
  | succ count ih =>
      rw [clearCells, ih _ (by omega), Function.update_of_ne (by omega)]

theorem copyBytes_outside (size : Nat) {dst src address : Nat} (video : Nat → UInt8)
    (apart : address < dst ∨ dst + size ≤ address) :
    copyBytes size dst src video address = video address := by
  induction size generalizing dst src video with
  | zero => rfl
  | succ size ih =>
      rw [copyBytes, ih _ (by omega), Function.update_of_ne (by omega)]

theorem storeCell_outside {video : Nat → UInt8} {display address : Nat} {ch fg bg : UInt8}
    (apart : address < display ∨ display + 2 ≤ address) :
    storeCell video display ch fg bg address = video address := by
  rw [storeCell, Function.update_of_ne (by omega), Function.update_of_ne (by omega)]

namespace Screen

variable {screen : Screen} {base : Nat}

theorem clear_outside (cols : screen.console.displayCols = 80) (rowStart rowEnd colStart colEnd : Nat)
    (address : Nat)
    (apart : address < screen.console.displayBase + 2 * (80 * rowStart + colStart) ∨
      screen.console.displayBase + 2 * (80 * rowEnd + colEnd) ≤ address) :
    (screen.clear rowStart rowEnd colStart colEnd).video address = screen.video address := by
  rw [clear, cols]
  apply clearCells_outside
  omega

theorem writes_clear (ready : screen.console.Ready base) (rowStart rowEnd colStart colEnd : Nat) :
    Writes base (80 * rowStart + colStart) (80 * rowEnd + colEnd) screen
      (screen.clear rowStart rowEnd colStart colEnd) where
  ready := ready
  outside := by
    intro address apart
    rw [← ready.base_eq] at apart
    exact clear_outside ready.cols rowStart rowEnd colStart colEnd address apart

theorem writes_scrollUp (screen : Screen) (cols : screen.console.displayCols = 80)
    (rows : screen.console.displayRows = 25) (base_eq : screen.console.displayBase = base)
    (col_lt : screen.console.cursorCol < 80) (row_eq : screen.console.cursorRow = 25) :
    Writes base 0 2000 screen (screen.scrollUp 1) where
  ready := by
    refine ⟨cols, rows, base_eq, col_lt, ?_⟩
    show screen.console.cursorRow - 1 < 25
    omega
  outside := by
    intro address apart
    dsimp only [scrollUp, clearRow]
    refine (clear_outside ?_ _ _ _ _ address ?_).trans (copyBytes_outside _ _ ?_)
    · exact cols
    · dsimp only
      omega
    · rw [rows, cols]
      omega

theorem forwardOne_last (ready : screen.console.Ready base)
    (last : screen.console.position = 1999) :
    Writes base 0 2000 screen screen.forwardOne ∧
      screen.forwardOne.console.position = 1920 := by
  obtain ⟨cols, rows, base_eq, col_lt, row_lt⟩ := ready
  rw [Console.position] at last
  have atEdge : screen.console.displayCols ≤ screen.console.cursorCol + 1 := by omega
  have below : screen.console.displayRows ≤ screen.console.cursorRow + 1 := by omega
  have row_eq : screen.console.cursorRow + 1 = 25 := by omega
  dsimp only [forwardOne]
  rw [if_pos atEdge, if_pos below]
  constructor
  · have scrolled := writes_scrollUp { screen with console := { screen.console with
        cursorCol := 0, cursorRow := screen.console.cursorRow + 1 } }
      cols rows base_eq (Nat.zero_lt_succ 79) row_eq
    exact ⟨scrolled.ready, scrolled.outside⟩
  · dsimp only [scrollUp, Console.position]
    omega

theorem forwardOne_inside (ready : screen.console.Ready base)
    (inside : screen.console.position < 1999) :
    screen.forwardOne.console.Ready base ∧ screen.forwardOne.video = screen.video ∧
      screen.forwardOne.console.position = screen.console.position + 1 := by
  obtain ⟨cols, rows, base_eq, col_lt, row_lt⟩ := ready
  rw [Console.position] at inside
  dsimp only [forwardOne, Console.position]
  split
  next atEdge =>
    rw [if_neg (by omega)]
    refine ⟨⟨cols, rows, base_eq, by dsimp only; omega, by dsimp only; omega⟩, rfl, ?_⟩
    dsimp only
    omega
  next notEdge =>
    refine ⟨⟨cols, rows, base_eq, by dsimp only; omega, row_lt⟩, rfl, ?_⟩
    dsimp only
    omega

theorem position_lt (ready : screen.console.Ready base) : screen.console.position < 2000 := by
  obtain ⟨cols, rows, base_eq, col_lt, row_lt⟩ := ready
  rw [Console.position]
  omega

theorem cursorForward_inside (count : Nat) (ready : screen.console.Ready base)
    (inside : screen.console.position + count < 2000) :
    (cursorForward count screen).console.Ready base ∧
      (cursorForward count screen).video = screen.video ∧
      (cursorForward count screen).console.position = screen.console.position + count := by
  induction count generalizing screen with
  | zero => exact ⟨ready, rfl, rfl⟩
  | succ count ih =>
      obtain ⟨oneReady, oneVideo, onePosition⟩ := forwardOne_inside ready (by omega)
      obtain ⟨moved, sameVideo, position⟩ := ih oneReady (by omega)
      exact ⟨moved, sameVideo.trans oneVideo, by rw [cursorForward, position]; omega⟩

theorem writes_cursorForward (count : Nat) (ready : screen.console.Ready base) :
    Writes base 0 2000 screen (cursorForward count screen) := by
  induction count generalizing screen with
  | zero => exact .nothing ready rfl
  | succ count ih =>
      rcases Nat.lt_or_ge screen.console.position 1999 with inside | last
      · obtain ⟨oneReady, oneVideo, _⟩ := forwardOne_inside ready inside
        exact .trans (.nothing oneReady oneVideo) (ih oneReady)
      · have below := position_lt ready
        have one := forwardOne_last ready (by omega)
        exact .trans one.1 (ih one.1.ready)

theorem backwardOne_spec (ready : screen.console.Ready base) :
    screen.backwardOne.console.Ready base ∧ screen.backwardOne.video = screen.video ∧
      screen.backwardOne.console.position = screen.console.position - 1 := by
  obtain ⟨cols, rows, base_eq, col_lt, row_lt⟩ := ready
  dsimp only [backwardOne, Console.position]
  split
  next right =>
    refine ⟨⟨cols, rows, base_eq, by dsimp only; omega, row_lt⟩, rfl, ?_⟩
    dsimp only
    omega
  next leftmost =>
    split
    next below =>
      refine ⟨⟨cols, rows, base_eq, by dsimp only; omega, by dsimp only; omega⟩, rfl, ?_⟩
      dsimp only
      omega
    next top => exact ⟨⟨cols, rows, base_eq, col_lt, row_lt⟩, rfl, by omega⟩

theorem writes_downOne (ready : screen.console.Ready base) :
    Writes base 0 (if screen.console.cursorRow = 24 then 2000 else 0) screen
      screen.downOne := by
  obtain ⟨cols, rows, base_eq, col_lt, row_lt⟩ := ready
  have within : screen.console.cursorRow ≤ screen.console.displayRows := by omega
  unfold downOne
  dsimp only
  rw [if_pos within]
  by_cases last : screen.console.cursorRow = 24
  · have row_eq : screen.console.cursorRow + 1 = 25 := by omega
    have below : screen.console.displayRows ≤ screen.console.cursorRow + 1 := by omega
    rw [if_pos below, if_pos last]
    have scrolled := writes_scrollUp { screen with console := { screen.console with
        cursorRow := screen.console.cursorRow + 1 } } cols rows base_eq col_lt row_eq
    exact ⟨scrolled.ready, scrolled.outside⟩
  · have above : ¬ screen.console.displayRows ≤ screen.console.cursorRow + 1 := by omega
    rw [if_neg above]
    refine .nothing ⟨cols, rows, base_eq, col_lt, ?_⟩ rfl
    dsimp only
    omega

theorem writes_putcharColor (ready : screen.console.Ready base) (ch fg bg : UInt8) :
    Writes base (if screen.console.position = 1999 then 0 else screen.console.position)
      (if screen.console.position = 1999 then 2000 else screen.console.position + 1) screen
      (screen.putcharColor ch fg bg) := by
  have within := position_lt ready
  have offset_eq : screen.console.cursorCol + screen.console.cursorRow * screen.console.displayCols =
      screen.console.position := by
    rw [ready.cols, Console.position]
  dsimp only [putcharColor]
  rw [offset_eq, ready.base_eq]
  have front : Writes base screen.console.position (screen.console.position + 1) screen
      { screen with
        video := storeCell screen.video (base + 2 * screen.console.position) ch fg bg } := by
    refine ⟨ready, fun address apart => storeCell_outside ?_⟩
    omega
  split
  next last =>
    refine Writes.trans ?_ (writes_cursorForward 1 front.ready)
    exact front.widen (by omega)
  next notLast =>
    obtain ⟨movedReady, sameVideo, _⟩ := cursorForward_inside 1 front.ready (by
      show screen.console.position + 1 < 2000
      omega)
    exact front.trans (.nothing movedReady sameVideo)

def normalCells (console : Console) (ch : UInt8) : Nat × Nat :=
  let position := console.position
  if ch = 0x0a then (0, if console.cursorRow = 24 then 2000 else 0)
  else if ch = 0x0d then (0, 0)
  else if ch = 0x08 then (position - 1, position - 1 + 1)
  else if ch = 0x7f ∨ (0x20 ≤ ch ∧ ch ≤ 0x7e) then
    if position = 1999 then (0, 2000) else (position, position + 1)
  else if ch = 0x09 then (0, if 2000 ≤ position + 4 then 2000 else 0)
  else (0, 0)

theorem writes_backwardOne (ready : screen.console.Ready base) (first last : Nat) :
    Writes base first last screen screen.backwardOne := by
  obtain ⟨movedReady, sameVideo, _⟩ := backwardOne_spec ready
  exact .nothing movedReady sameVideo

theorem writes_putcharNormal (screen : Screen) (ready : screen.console.Ready base) (ch : UInt8) :
    Writes base (normalCells screen.console ch).1 (normalCells screen.console ch).2 screen
      (screen.putcharNormal ch) := by
  have within := position_lt ready
  unfold putcharNormal normalCells
  dsimp only
  by_cases isNewline : ch = 0x0a
  · rw [if_pos isNewline, if_pos isNewline]
    exact writes_downOne ready
  rw [if_neg isNewline, if_neg isNewline]
  by_cases isEnter : ch = 0x0d
  · rw [if_pos isEnter, if_pos isEnter]
    obtain ⟨cols, rows, base_eq, _, row_lt⟩ := ready
    exact .nothing ⟨cols, rows, base_eq, Nat.zero_lt_succ 79, row_lt⟩ rfl
  rw [if_neg isEnter, if_neg isEnter]
  by_cases isBackspace : ch = 0x08
  · rw [if_pos isBackspace, if_pos isBackspace]
    obtain ⟨backReady, backVideo, backPosition⟩ := backwardOne_spec ready
    have put := writes_putcharColor backReady 0x20 screen.backwardOne.console.displayFg
      screen.backwardOne.console.displayBg
    rw [backPosition, if_neg (by omega), if_neg (by omega)] at put
    exact (Writes.nothing backReady backVideo).trans
      (put.trans (writes_backwardOne put.ready _ _))
  rw [if_neg isBackspace, if_neg isBackspace]
  by_cases isDelete : ch = 0x7f
  · rw [if_pos isDelete, if_pos (.inl isDelete)]
    have put := writes_putcharColor ready 0x20 screen.console.displayFg screen.console.displayBg
    have both := put.trans (writes_backwardOne put.ready _ _)
    split_ifs at both ⊢ <;> exact both
  rw [if_neg isDelete]
  by_cases isPrintable : 0x20 ≤ ch ∧ ch ≤ 0x7e
  · have notTab : ch ≠ 0x09 := by
      rintro rfl
      exact absurd isPrintable (by decide)
    have notEsc : ch ≠ 0x1b := by
      rintro rfl
      exact absurd isPrintable (by decide)
    rw [if_neg notTab, if_neg notEsc, if_pos isPrintable, if_pos (.inr isPrintable)]
    have put := writes_putcharColor ready ch screen.console.displayFg screen.console.displayBg
    split_ifs at put ⊢ <;> exact put
  rw [if_neg (not_or.mpr ⟨isDelete, isPrintable⟩)]
  by_cases isTab : ch = 0x09
  · rw [if_pos isTab, if_pos isTab]
    split
    next scrolls => exact writes_cursorForward 4 ready
    next inside =>
      obtain ⟨movedReady, sameVideo, _⟩ := cursorForward_inside 4 ready (by omega)
      exact .nothing movedReady sameVideo
  rw [if_neg isTab, if_neg isTab, if_neg isPrintable]
  split
  next isEsc =>
    obtain ⟨cols, rows, base_eq, col_lt, row_lt⟩ := ready
    exact .nothing ⟨cols, rows, base_eq, col_lt, row_lt⟩ rfl
  next ignored => exact .nothing ready rfl

/-- The cells between which `J` with a parameter writes: two of its cases end a row below the
window. -/
def eraseCells (console : Console) (param : Int32) : Nat × Nat :=
  if param = 0 then (console.position, 2080)
  else if param = 1 then (0, console.position)
  else if param = 2 then (0, 2080)
  else if param = 3 then (0, 2080)
  else (0, 0)

def squareCells (console : Console) (ch : UInt8) : Nat × Nat :=
  if ch = 0x4a then
    eraseCells console
      ({ console with curEscParam := console.curEscParam + 1 }.escParam console.curEscParam)
  else (0, 0)

theorem escSetColor_ready {console : Console} (ready : console.Ready base) (param : Int32) :
    (console.escSetColor param).Ready base := by
  obtain ⟨cols, rows, base_eq, col_lt, row_lt⟩ := ready
  unfold Console.escSetColor
  split_ifs <;> exact ⟨cols, rows, base_eq, col_lt, row_lt⟩

theorem setColors_ready {console : Console} (ready : console.Ready base) :
    console.setColors.Ready base := by
  have loop : ∀ (idxs : List Nat) (colored : Console), colored.Ready base →
      (idxs.foldl (fun colored idx => colored.escSetColor (console.escParam idx))
        colored).Ready base := by
    intro idxs
    induction idxs with
    | nil => exact fun _ colored => colored
    | cons idx idxs ih => exact fun _ colored => ih _ (escSetColor_ready colored _)
  exact loop _ console ready

theorem writes_eraseDisplay (screen : Screen) (ready : screen.console.Ready base) (param : Int32) :
    Writes base (eraseCells screen.console param).1 (eraseCells screen.console param).2 screen
      (screen.eraseDisplay param) := by
  have position_eq : screen.console.position =
      80 * screen.console.cursorRow + screen.console.cursorCol := by
    rw [Console.position]
    omega
  have whole : Writes base 0 2080 screen (screen.clearRow 0 screen.console.displayRows) := by
    apply (writes_clear ready 0 screen.console.displayRows 0 screen.console.displayCols).widen
    rw [ready.rows, ready.cols]
    omega
  unfold eraseDisplay eraseCells
  dsimp only
  by_cases isZero : param = 0
  · rw [if_pos isZero, if_pos isZero]
    apply (writes_clear ready screen.console.cursorRow screen.console.displayRows
      screen.console.cursorCol screen.console.displayCols).widen
    rw [ready.rows, ready.cols, position_eq]
    omega
  rw [if_neg isZero, if_neg isZero]
  by_cases isOne : param = 1
  · rw [if_pos isOne, if_pos isOne, position_eq]
    exact writes_clear ready 0 screen.console.cursorRow 0 screen.console.cursorCol
  rw [if_neg isOne, if_neg isOne]
  by_cases isTwo : param = 2
  · rw [if_pos isTwo, if_pos isTwo]
    obtain ⟨cols, rows, base_eq, _, _⟩ := whole.ready
    exact ⟨⟨cols, rows, base_eq, Nat.zero_lt_succ 79, Nat.zero_lt_succ 24⟩, whole.outside⟩
  rw [if_neg isTwo, if_neg isTwo]
  split_ifs
  · exact whole
  · exact .nothing ready rfl

def HasParam (console : Console) (ch : UInt8) : Prop :=
  0x30 ≤ ch ∧ ch ≤ 0x39 → console.curEscParam < escParamsMax

theorem writes_putcharEscSquare (screen : Screen) (ready : screen.console.Ready base) {ch : UInt8}
    (hasParam : HasParam screen.console ch) :
    ∃ after, screen.putcharEscSquare ch = some after ∧
      Writes base (squareCells screen.console ch).1 (squareCells screen.console ch).2 screen
        after := by
  have counted (count : Nat) : { screen.console with curEscParam := count }.Ready base := by
    obtain ⟨cols, rows, base_eq, col_lt, row_lt⟩ := ready
    exact ⟨cols, rows, base_eq, col_lt, row_lt⟩
  unfold putcharEscSquare
  dsimp only
  split
  next isDigit =>
    rw [if_pos (hasParam isDigit)]
    obtain ⟨cols, rows, base_eq, col_lt, row_lt⟩ := ready
    exact ⟨_, rfl, .nothing ⟨cols, rows, base_eq, col_lt, row_lt⟩ rfl⟩
  next notDigit =>
    split
    next => exact ⟨_, rfl, .nothing (counted _) rfl⟩
    next =>
      refine ⟨_, rfl, ?_⟩
      by_cases isColor : ch = 0x6d
      · rw [if_pos isColor]
        obtain ⟨cols, rows, base_eq, col_lt, row_lt⟩ := setColors_ready (counted _)
        exact .nothing ⟨cols, rows, base_eq, col_lt, row_lt⟩ rfl
      rw [if_neg isColor]
      unfold squareCells
      split
      next isErase =>
        obtain ⟨erasedReady, outside⟩ := writes_eraseDisplay { screen with console := _ }
          (counted (screen.console.curEscParam + 1))
          ({ screen.console with curEscParam := screen.console.curEscParam + 1 }.escParam
            screen.console.curEscParam)
        obtain ⟨cols, rows, base_eq, col_lt, row_lt⟩ := erasedReady
        exact ⟨⟨cols, rows, base_eq, col_lt, row_lt⟩, outside⟩
      next notErase =>
        obtain ⟨cols, rows, base_eq, col_lt, row_lt⟩ := ready
        exact .nothing ⟨cols, rows, base_eq, col_lt, row_lt⟩ rfl

end Screen

def cellsWritten (console : Console) (ch : UInt8) : Nat × Nat :=
  match console.writeState with
  | .normal => Screen.normalCells console ch
  | .esc => (0, 0)
  | .square => Screen.squareCells console ch

def windowStart (idx : Nat) : Nat :=
  consoleDisplayAddr + 2000 * idx

namespace Screens

variable {inUse : List Nat} {screens after : Screens} {idx : Nat} {ch : UInt8}

theorem consolePutchar_spec (inside : idx < consoleCnt) {base : Nat}
    (ready : (screens.consoles idx).Ready base)
    (hasParam : (screens.consoles idx).writeState = .square →
      Screen.HasParam (screens.consoles idx) ch) :
    ∃ result screen, consolePutchar idx screens ch = some (result, screens.put idx screen) ∧
      Writes base (cellsWritten (screens.consoles idx) ch).1
        (cellsWritten (screens.consoles idx) ch).2
        { console := screens.consoles idx, video := screens.video } screen := by
  unfold consolePutchar cellsWritten
  rw [if_neg (Nat.not_le.mpr inside)]
  dsimp only
  cases state : (screens.consoles idx).writeState with
  | normal =>
      exact ⟨1, _, rfl, Screen.writes_putcharNormal
        { console := screens.consoles idx, video := screens.video } ready ch⟩
  | esc =>
      refine ⟨0, _, rfl, .nothing ?_ rfl⟩
      obtain ⟨cols, rows, base_eq, col_lt, row_lt⟩ := ready
      unfold Console.putcharEsc
      split_ifs <;> exact ⟨cols, rows, base_eq, col_lt, row_lt⟩
  | square =>
      obtain ⟨screen, put, writes⟩ := Screen.writes_putcharEscSquare
        { console := screens.consoles idx, video := screens.video } ready (hasParam state)
      rw [put]
      exact ⟨0, screen, rfl, writes⟩

def Initialised (inUse : List Nat) (screens : Screens) : Prop :=
  ∀ idx ∈ inUse, idx < consoleCnt ∧ (screens.consoles idx).Ready (windowStart idx)

/-- The display memory changes only in the window of one console, but not where it is also in
the window of another console in use, and the other consoles stay as they are. -/
structure Isolated (inUse : List Nat) (idx : Nat) (before after : Screens) : Prop where
  consoles : ∀ other, other ≠ idx → after.consoles other = before.consoles other
  outside : ∀ address, address < windowStart idx ∨ windowStart idx + 4000 ≤ address →
    after.video address = before.video address
  windows : ∀ other ∈ inUse, other ≠ idx → ∀ address, windowStart other ≤ address →
    address < windowStart other + 4000 → after.video address = before.video address

/-- The byte writes only cells of the window that are in no other window in use, and no more
parameters than there is room for. -/
structure OwnCells (inUse : List Nat) (idx : Nat) (screens : Screens) (ch : UInt8) :
    Prop where
  hasParam : (screens.consoles idx).writeState = .square →
    Screen.HasParam (screens.consoles idx) ch
  inside : (cellsWritten (screens.consoles idx) ch).1 <
      (cellsWritten (screens.consoles idx) ch).2 →
    (cellsWritten (screens.consoles idx) ch).2 ≤ 2000
  apart : (cellsWritten (screens.consoles idx) ch).1 <
      (cellsWritten (screens.consoles idx) ch).2 →
    ∀ other ∈ inUse, other ≠ idx →
      windowStart idx + 2 * (cellsWritten (screens.consoles idx) ch).2 ≤ windowStart other ∨
        windowStart other + 4000 ≤
          windowStart idx + 2 * (cellsWritten (screens.consoles idx) ch).1

theorem initialised_initConsole (initialised : Initialised inUse screens) (curPos : Nat)
    (inside : idx < consoleCnt) (onScreen : idx = 0 → curPos < 2000) :
    Initialised (idx :: inUse) (screens.initConsole idx curPos) := by
  have ready : ((screens.initConsole idx curPos).consoles idx).Ready (windowStart idx) := by
    have base_eq : consoleDisplayAddr + idx * (consoleRowMax * consoleColMax) =
        windowStart idx := by
      rw [windowStart, Nat.mul_comm]
      rfl
    unfold initConsole
    dsimp only
    split
    next isZero =>
      dsimp only [put]
      rw [Function.update_self]
      refine ⟨rfl, rfl, base_eq, Nat.mod_lt _ (Nat.zero_lt_succ 79), ?_⟩
      have position := onScreen isZero
      show curPos / 80 < 25
      omega
    next notZero =>
      dsimp only [put]
      rw [Function.update_self]
      exact ⟨rfl, rfl, base_eq, Nat.zero_lt_succ 79, Nat.zero_lt_succ 24⟩
  intro other used
  rcases eq_or_ne other idx with rfl | different
  · exact ⟨inside, ready⟩
  · have others : (screens.initConsole idx curPos).consoles other = screens.consoles other := by
      unfold initConsole
      dsimp only
      split_ifs <;> exact Function.update_of_ne different _ _
    rw [others]
    exact initialised other ((List.mem_cons.mp used).resolve_left different)

theorem Isolated.refl (inUse : List Nat) (idx : Nat) (screens : Screens) :
    Isolated inUse idx screens screens where
  consoles := fun _ _ => rfl
  outside := fun _ _ => rfl
  windows := fun _ _ _ _ _ _ => rfl

theorem Isolated.trans {between : Screens} (front : Isolated inUse idx screens between)
    (back : Isolated inUse idx between after) : Isolated inUse idx screens after where
  consoles := fun other different =>
    (back.consoles other different).trans (front.consoles other different)
  outside := fun address apart =>
    (back.outside address apart).trans (front.outside address apart)
  windows := fun other used different address after before =>
    (back.windows other used different address after before).trans
      (front.windows other used different address after before)

theorem Initialised.put (initialised : Initialised inUse screens) {screen : Screen}
    (ready : screen.console.Ready (windowStart idx)) :
    Initialised inUse (screens.put idx screen) := by
  intro other used
  rcases eq_or_ne other idx with rfl | different
  · refine ⟨(initialised other used).1, ?_⟩
    dsimp only [Screens.put]
    rw [Function.update_self]
    exact ready
  · dsimp only [Screens.put]
    rw [Function.update_of_ne different]
    exact initialised other used

theorem consolePutchar_isolated (initialised : Initialised inUse screens) (used : idx ∈ inUse)
    (own : OwnCells inUse idx screens ch) :
    ∃ result after, consolePutchar idx screens ch = some (result, after) ∧
      Initialised inUse after ∧ Isolated inUse idx screens after := by
  obtain ⟨isConsole, ready⟩ := initialised idx used
  obtain ⟨result, screen, put, writes⟩ := consolePutchar_spec isConsole ready own.hasParam
  have unchanged : ∀ address, ((cellsWritten (screens.consoles idx) ch).1 <
      (cellsWritten (screens.consoles idx) ch).2 →
        address < windowStart idx + 2 * (cellsWritten (screens.consoles idx) ch).1 ∨
          windowStart idx + 2 * (cellsWritten (screens.consoles idx) ch).2 ≤ address) →
      screen.video address = screens.video address := by
    intro address apart
    apply writes.outside
    omega
  refine ⟨result, _, put, initialised.put writes.ready, ?_, ?_, ?_⟩
  · exact fun other different => Function.update_of_ne different _ _
  · intro address outside
    apply unchanged
    intro nonempty
    have inside := own.inside nonempty
    omega
  · intro other otherUsed different address from_start to_end
    apply unchanged
    intro nonempty
    have apart := own.apart nonempty other otherUsed different
    omega

/-- Every sequence of bytes written to a console leaves the other consoles and the rest of the
memory alone, as long as each of them writes only cells that are in no other window. -/
theorem isolated_of_ownCells (initialised : Initialised inUse screens) (used : idx ∈ inUse)
    (bytes : List UInt8)
    (own : AllGuarded (consolePutchar idx) (OwnCells inUse idx) screens bytes) :
    AllRight (consolePutchar idx) (Isolated inUse idx screens) (fun _ _ _ _ => True) screens
      bytes := by
  refine allRight_of_allGuarded
    (fun state => Initialised inUse state ∧ Isolated inUse idx screens state) And.right ?_ bytes
    ⟨initialised, .refl inUse idx screens⟩ own
  intro state byte both allowed
  obtain ⟨result, after, put, stays, isolated⟩ :=
    consolePutchar_isolated both.1 used allowed
  exact ⟨result, after, put, trivial, stays, both.2.trans isolated⟩

/-- The second console and then the first one are initialised, the first one with its cursor
at a position. -/
def twoConsoles (curPos : Nat) : Screens :=
  (({ consoles := fun _ =>
        { displayCols := 0, displayRows := 0, cursorCol := 0, cursorRow := 0
          displayFg := 0, displayBg := 0, displayBase := 0, writeState := .normal
          escParams := fun _ => 0, curEscParam := 0 }
      video := fun _ => 0 } : Screens).initConsole 1 0).initConsole 0 curPos

theorem initialised_twoConsoles {curPos : Nat} (onScreen : curPos < 2000) :
    Initialised [0, 1] (twoConsoles curPos) :=
  initialised_initConsole (initialised_initConsole
    (fun _ unused => absurd unused List.not_mem_nil) 0 (by decide) (by decide)) curPos
    (by decide) (fun _ => onScreen)

set_option maxRecDepth 8192 in
theorem isolated_first_cell :
    AllRight (consolePutchar 0) (Isolated [0, 1] 0 (twoConsoles 0)) (fun _ _ _ _ => True)
      (twoConsoles 0) [0x41] := by
  refine isolated_of_ownCells (initialised_twoConsoles (by decide)) List.mem_cons_self [0x41]
    ⟨⟨?_, ?_, ?_⟩, fun _ _ _ => trivial⟩
  · intro isSquare
    cases isSquare
  · intro _
    decide
  · intro _ other used different
    have isOne : other = 1 := by
      rcases List.mem_cons.mp used with rfl | second
      · exact absurd rfl different
      · exact List.mem_singleton.mp second
    rw [isOne]
    decide

set_option maxRecDepth 8192 in
/-- A character in the middle of the first console changes the first cell of the second. -/
theorem second_console_overwritten :
    Initialised [0, 1] (twoConsoles 1000) ∧
      ∃ after, consolePutchar 0 (twoConsoles 1000) 0x41 = some (1, after) ∧
        (twoConsoles 1000).video (windowStart 1) = 0x20 ∧
        after.video (windowStart 1) = 0x41 ∧
        ¬ Isolated [0, 1] 0 (twoConsoles 1000) after := by
  refine ⟨initialised_twoConsoles (by decide), _, rfl, by decide +kernel, by decide +kernel, ?_⟩
  intro isolated
  have same := isolated.windows 1 (by decide) (by decide) (windowStart 1) (Nat.le_refl _)
    (Nat.lt_add_of_pos_right (Nat.zero_lt_succ 3999))
  exact absurd same (by decide +kernel)

end Screens

end CleanOS.Tty
