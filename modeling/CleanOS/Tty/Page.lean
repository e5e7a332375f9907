import CleanOS.Tty.Isolation
import CleanOS.Tty.LineEditing

/-!
# The rows that a console shows

`tty_write` of `kernel/device/tty/tty.c` against a page without an end, on which nothing
scrolls.  The console is a window on the last 25 rows of the page that have been reached.
-/

namespace CleanOS.Tty

open CleanOS.Lib

/-- `TTY_IN_N_RN`. -/
def ttyInNRN : Nat := 1 <<< 0

/-- `tab`. -/
def tab : UInt8 := 0x09

/-- The consoles with the position of the hardware cursor. -/
structure Terminal where
  screens : Screens
  cursorPos : UInt16

/-- `update_cursor_pos`, as the position that it gives to the hardware. -/
def updateCursorPos (idx : Nat) (console : Console) : UInt16 :=
  UInt16.ofNat (idx * (console.displayCols * console.displayRows) +
    (console.cursorRow * console.displayCols + console.cursorCol))

/-- The body of the loop of `tty_write`.  The test of the flag takes `|` for `&`. -/
def ttyWriteByte (inFlags idx : Nat) (terminal : Terminal) (ch : UInt8) : Option Terminal := do
  let screens ←
    if ch = newline ∧ inFlags ||| ttyInNRN ≠ 0 then
      (Screens.consolePutchar idx terminal.screens enter).map Prod.snd
    else some terminal.screens
  let (_, screens) ← Screens.consolePutchar idx screens ch
  return ⟨screens, updateCursorPos idx (screens.consoles idx)⟩

/-- `tty_write`, with its result. -/
def ttyWrite (inFlags idx : Nat) (terminal : Terminal) (buf : List UInt8) :
    Option (Nat × Terminal) := do
  let terminal ← buf.foldlM (ttyWriteByte inFlags idx) terminal
  return (buf.length, terminal)

/-- A page of rows of 80 columns, with a cursor below which nothing is written. -/
structure Page where
  cells : Nat → Nat → UInt8
  row : Nat
  col : Nat
  col_lt : col < 80
  below : ∀ row', row < row' → ∀ col', cells row' col' = 0x20

namespace Page

def blank : Page where
  cells := fun _ _ => 0x20
  row := 0
  col := 0
  col_lt := Nat.zero_lt_succ 79
  below := fun _ _ _ => rfl

def nextRow (page : Page) : Page where
  cells := page.cells
  row := page.row + 1
  col := 0
  col_lt := Nat.zero_lt_succ 79
  below := fun row' isBelow => page.below row' (Nat.lt_of_succ_lt isBelow)

def advance (page : Page) : Page :=
  if inside : page.col + 1 < 80 then { page with col := page.col + 1, col_lt := inside }
  else page.nextRow

def put (page : Page) (ch : UInt8) : Page where
  cells := Function.update page.cells page.row (Function.update (page.cells page.row) page.col ch)
  row := page.row
  col := page.col
  col_lt := page.col_lt
  below := by
    intro row' isBelow
    rw [Function.update_of_ne (Nat.ne_of_gt isBelow)]
    exact page.below row' isBelow

def write (page : Page) (ch : UInt8) : Page :=
  if ch = newline then page.nextRow
  else if ch = tab then page.advance.advance.advance.advance
  else (page.put ch).advance

def top (page : Page) : Nat := page.row - 24

end Page

def IsText (ch : UInt8) : Prop := ch = newline ∨ ch = tab ∨ 0x20 ≤ ch ∧ ch ≤ 0x7e

structure Shows (base : Nat) (page : Page) (screen : Screen) : Prop where
  ready : screen.console.Ready base
  normal : screen.console.writeState = .normal
  row : page.top + screen.console.cursorRow = page.row
  col : screen.console.cursorCol = page.col
  cells : ∀ row < 25, ∀ col < 80,
    screen.video (base + 2 * (80 * row + col)) = page.cells (page.top + row) col

variable {base : Nat} {page : Page} {screen : Screen} {video : Nat → UInt8}

theorem copyBytes_inside (size : Nat) {dst src : Nat} (video : Nat → UInt8) (below : dst ≤ src)
    {place : Nat} (inside : place < size) :
    copyBytes size dst src video (dst + place) = video (src + place) := by
  induction size generalizing dst src video place with
  | zero => exact absurd inside (Nat.not_lt_zero _)
  | succ size ih =>
      rw [copyBytes]
      cases place with
      | zero =>
          rw [copyBytes_outside size _ (by omega)]
          exact Function.update_self _ _ _
      | succ place =>
          have later := ih (Function.update video dst (video src)) (Nat.succ_le_succ below)
            (Nat.lt_of_succ_lt_succ inside)
          rw [show dst + (place + 1) = dst + 1 + place by omega, later,
            Function.update_of_ne (by omega)]
          congr 1
          omega

theorem clearCells_inside (count : Nat) {start : Nat} (video : Nat → UInt8) {place : Nat}
    (inside : place < count) : clearCells count start video (start + 2 * place) = 0x20 := by
  induction count generalizing start video place with
  | zero => exact absurd inside (Nat.not_lt_zero _)
  | succ count ih =>
      rw [clearCells]
      cases place with
      | zero =>
          rw [clearCells_outside count _ (by omega)]
          exact Function.update_self _ _ _
      | succ place =>
          rw [show start + 2 * (place + 1) = start + 2 + 2 * place by omega]
          exact ih _ (Nat.lt_of_succ_lt_succ inside)

theorem scrollUp_cells (cols : screen.console.displayCols = 80)
    (rows : screen.console.displayRows = 25) (isBase : screen.console.displayBase = base)
    {row col : Nat} (rowInside : row < 25) (colInside : col < 80) :
    (screen.scrollUp 1).video (base + 2 * (80 * row + col)) =
      if row = 24 then 0x20 else screen.video (base + 2 * (80 * (row + 1) + col)) := by
  have video : (screen.scrollUp 1).video = clearCells 80 (base + 2 * 1920)
      (copyBytes 3840 base (base + 160) screen.video) := by
    simp only [Screen.scrollUp, Screen.clearRow, Screen.clear, cols, rows, isBase]
  rw [video]
  by_cases last : row = 24
  · rw [if_pos last, last, show base + 2 * (80 * 24 + col) = base + 2 * 1920 + 2 * col by omega]
    exact clearCells_inside 80 _ colInside
  · rw [if_neg last, clearCells_outside 80 _ (by omega),
      copyBytes_inside 3840 _ (Nat.le_add_right _ _) (by omega)]
    congr 1
    omega

theorem shows_nextRow (shows : Shows base page screen) :
    let down : Screen := { screen with
      console := { screen.console with
        cursorCol := 0, cursorRow := screen.console.cursorRow + 1 } }
    Shows base page.nextRow
      (if screen.console.displayRows ≤ screen.console.cursorRow + 1 then down.scrollUp 1
        else down) := by
  obtain ⟨⟨cols, rows, isBase, colLt, rowLt⟩, normal, row, col, cells⟩ := shows
  intro down
  have isTop : page.top = page.row - 24 := rfl
  rw [rows]
  by_cases full : 25 ≤ screen.console.cursorRow + 1
  · have nextTop : page.nextRow.top = page.top + 1 := by
      change page.row + 1 - 24 = page.row - 24 + 1
      omega
    rw [if_pos full]
    refine ⟨⟨cols, rows, isBase, Nat.zero_lt_succ 79, ?_⟩, normal, ?_, rfl, ?_⟩
    · change screen.console.cursorRow + 1 - 1 < 25
      omega
    · rw [nextTop]
      change page.top + 1 + (screen.console.cursorRow + 1 - 1) = page.row + 1
      omega
    · intro r rInside c cInside
      rw [@scrollUp_cells base down cols rows isBase r c rInside cInside, nextTop]
      by_cases last : r = 24
      · rw [if_pos last]
        exact (page.below _ (by omega) c).symm
      · rw [if_neg last, Nat.add_assoc, Nat.add_comm 1 r]
        exact cells (r + 1) (by omega) c cInside
  · have nextTop : page.nextRow.top = page.top := by
      change page.row + 1 - 24 = page.row - 24
      omega
    rw [if_neg full]
    refine ⟨⟨cols, rows, isBase, Nat.zero_lt_succ 79, Nat.lt_of_not_le full⟩, normal, ?_, rfl, ?_⟩
    · rw [nextTop]
      change page.top + (screen.console.cursorRow + 1) = page.row + 1
      omega
    · rw [nextTop]
      exact cells

theorem shows_forwardOne (shows : Shows base page screen) :
    Shows base page.advance screen.forwardOne := by
  have next := shows_nextRow shows
  rw [Page.advance, Screen.forwardOne]
  by_cases inside : page.col + 1 < 80
  · obtain ⟨⟨cols, rows, isBase, colLt, rowLt⟩, normal, row, col, cells⟩ := shows
    have notEdge : ¬ screen.console.displayCols ≤ screen.console.cursorCol + 1 := by
      rw [cols, col]
      exact Nat.not_le.mpr inside
    rw [dif_pos inside, if_neg notEdge]
    refine ⟨⟨cols, rows, isBase, ?_, rowLt⟩, normal, row, ?_, cells⟩
    · change screen.console.cursorCol + 1 < 80
      rw [col]
      exact inside
    · exact congrArg (· + 1) col
  · have edge : screen.console.displayCols ≤ screen.console.cursorCol + 1 := by
      rw [shows.ready.cols, shows.col]
      exact Nat.le_of_not_lt inside
    rw [dif_neg inside, if_pos edge]
    exact next

theorem shows_put (shows : Shows base page screen) (ch fg bg : UInt8) :
    Shows base (page.put ch) { screen with
      video := storeCell screen.video (screen.console.displayBase +
        2 * (screen.console.cursorCol + screen.console.cursorRow * screen.console.displayCols))
        ch fg bg } := by
  obtain ⟨⟨cols, rows, isBase, colLt, rowLt⟩, normal, row, col, cells⟩ := shows
  refine ⟨⟨cols, rows, isBase, colLt, rowLt⟩, normal, row, col, ?_⟩
  intro r rInside c cInside
  rw [isBase, cols]
  change storeCell _ _ _ _ _ _ = Function.update page.cells page.row
    (Function.update (page.cells page.row) page.col ch) (page.top + r) c
  rw [storeCell, Function.update_of_ne (by omega)]
  by_cases sameRow : page.top + r = page.row
  · have isRow : r = screen.console.cursorRow := by omega
    rw [sameRow, Function.update_self]
    by_cases sameCol : c = page.col
    · rw [sameCol, Function.update_self, ← col, isRow,
        show 80 * screen.console.cursorRow + screen.console.cursorCol =
          screen.console.cursorCol + screen.console.cursorRow * 80 by omega,
        Function.update_self]
    · rw [Function.update_of_ne sameCol, Function.update_of_ne (by omega), ← sameRow]
      exact cells r rInside c cInside
  · have otherRow : r ≠ screen.console.cursorRow := by omega
    rw [Function.update_of_ne sameRow, Function.update_of_ne (by omega)]
    exact cells r rInside c cInside

theorem shows_newline (shows : Shows base page screen) :
    Shows base page.nextRow (screen.cursorLineHead.downOne) := by
  have next := shows_nextRow shows
  have within : screen.console.cursorRow ≤ screen.console.displayRows := by
    rw [shows.ready.rows]
    exact Nat.le_of_lt shows.ready.row_lt
  rw [Screen.downOne, Screen.cursorLineHead]
  simp only [if_pos within]
  exact next

theorem putcharNormal_printable {ch : UInt8} (printable : 0x20 ≤ ch ∧ ch ≤ 0x7e) :
    screen.putcharNormal ch = screen.putchar ch := by
  have different : ∀ other : UInt8, ¬ (0x20 ≤ other ∧ other ≤ 0x7e) → ch ≠ other := by
    rintro other notPrintable rfl
    exact notPrintable printable
  rw [Screen.putcharNormal, if_neg (different _ (by decide)), if_neg (different _ (by decide)),
    if_neg (different _ (by decide)), if_neg (different _ (by decide)),
    if_neg (different _ (by decide)), if_neg (different _ (by decide)), if_pos printable]

theorem shows_putcharNormal (shows : Shows base page screen) {ch : UInt8} (isText : IsText ch)
    (notNewline : ch ≠ newline) : Shows base (page.write ch) (screen.putcharNormal ch) := by
  rw [Page.write, if_neg notNewline]
  rcases isText with isNewline | isTab | printable
  · exact absurd isNewline notNewline
  · subst isTab
    exact shows_forwardOne (shows_forwardOne (shows_forwardOne (shows_forwardOne shows)))
  · have notTab : ch ≠ tab := by
      rintro rfl
      exact absurd printable (by decide)
    rw [if_neg notTab, putcharNormal_printable printable]
    exact shows_forwardOne (shows_put shows ch _ _)

theorem putcharNormal_enter (screen : Screen) :
    screen.putcharNormal enter = screen.cursorLineHead := rfl

theorem consolePutchar_normal {idx : Nat} {screens : Screens} (isConsole : idx < consoleCnt)
    (normal : (screens.consoles idx).writeState = .normal) (ch : UInt8) :
    Screens.consolePutchar idx screens ch =
      some (1, screens.put idx (Screen.putcharNormal ⟨screens.consoles idx, screens.video⟩ ch)) := by
  rw [Screens.consolePutchar, if_neg (Nat.not_le.mpr isConsole)]
  simp only [normal]

def TerminalShows (base idx : Nat) (page : Page) (terminal : Terminal) : Prop :=
  Shows base page ⟨terminal.screens.consoles idx, terminal.screens.video⟩

theorem shows_screens_put {idx : Nat} {screens : Screens} (shows : Shows base page screen) :
    Shows base page ⟨(screens.put idx screen).consoles idx, (screens.put idx screen).video⟩ := by
  have same : (screens.put idx screen).consoles idx = screen.console :=
    Function.update_self _ _ _
  rw [same]
  exact shows

theorem or_ttyInNRN (inFlags : Nat) : inFlags ||| ttyInNRN ≠ 0 :=
  Nat.ne_of_gt (Nat.lt_of_lt_of_le Nat.one_pos Nat.right_le_or)

theorem ttyWriteByte_shows {idx : Nat} {terminal : Terminal} (inFlags : Nat)
    (isConsole : idx < consoleCnt) (shows : TerminalShows base idx page terminal) {ch : UInt8}
    (isText : IsText ch) :
    ∃ after, ttyWriteByte inFlags idx terminal ch = some after ∧
      TerminalShows base idx (page.write ch) after ∧
      after.cursorPos = updateCursorPos idx (after.screens.consoles idx) := by
  by_cases isNewline : ch = newline
  · subst isNewline
    let screen : Screen := ⟨terminal.screens.consoles idx, terminal.screens.video⟩
    let head : Screens := terminal.screens.put idx screen.cursorLineHead
    have headConsole : head.consoles idx = screen.cursorLineHead.console :=
      Function.update_self _ _ _
    have normal : (head.consoles idx).writeState = .normal := by
      rw [headConsole]
      exact shows.normal
    have entered := consolePutchar_normal isConsole shows.normal enter
    have put := consolePutchar_normal isConsole normal newline
    let after : Screens :=
      head.put idx (Screen.putcharNormal ⟨head.consoles idx, head.video⟩ newline)
    refine ⟨⟨after, updateCursorPos idx (after.consoles idx)⟩, ?_, ?_, rfl⟩
    · rw [ttyWriteByte, if_pos ⟨rfl, or_ttyInNRN inFlags⟩, entered]
      simp only [Option.map_some, Option.bind_eq_bind, Option.bind_some]
      rw [putcharNormal_enter, put]
      rfl
    · apply shows_screens_put
      rw [headConsole]
      exact shows_newline shows
  · let after : Screens := terminal.screens.put idx
      (Screen.putcharNormal ⟨terminal.screens.consoles idx, terminal.screens.video⟩ ch)
    refine ⟨⟨after, updateCursorPos idx (after.consoles idx)⟩, ?_, ?_, rfl⟩
    · rw [ttyWriteByte, if_neg fun both => isNewline both.1]
      simp only [Option.bind_eq_bind, Option.bind_some]
      rw [consolePutchar_normal isConsole shows.normal]
      rfl
    · exact shows_screens_put (shows_putcharNormal shows isText isNewline)

theorem foldlM_shows {idx : Nat} (inFlags : Nat) (isConsole : idx < consoleCnt)
    (text : List UInt8) {terminal : Terminal} (shows : TerminalShows base idx page terminal)
    (isText : ∀ ch ∈ text, IsText ch) :
    ∃ after, text.foldlM (ttyWriteByte inFlags idx) terminal = some after ∧
      TerminalShows base idx (text.foldl Page.write page) after ∧
      (text ≠ [] → after.cursorPos = updateCursorPos idx (after.screens.consoles idx)) := by
  induction text generalizing page terminal with
  | nil => exact ⟨terminal, rfl, shows, fun nonempty => absurd rfl nonempty⟩
  | cons ch text ih =>
      obtain ⟨one, wrote, oneShows, oneCursor⟩ :=
        ttyWriteByte_shows inFlags isConsole shows (isText ch List.mem_cons_self)
      obtain ⟨after, later, afterShows, cursor⟩ :=
        ih oneShows fun other member => isText other (List.mem_cons_of_mem _ member)
      refine ⟨after, ?_, afterShows, fun _ => ?_⟩
      · rw [List.foldlM_cons, wrote]
        exact later
      · cases text with
        | nil =>
            cases later
            exact oneCursor
        | cons _ _ => exact cursor (List.cons_ne_nil _ _)

/-- A window without characters, with the cursor in its first cell. -/
structure BlankWindow (base : Nat) (screen : Screen) : Prop where
  ready : screen.console.Ready base
  normal : screen.console.writeState = .normal
  row : screen.console.cursorRow = 0
  col : screen.console.cursorCol = 0
  cells : ∀ row < 25, ∀ col < 80, screen.video (base + 2 * (80 * row + col)) = 0x20

theorem BlankWindow.shows (blank : BlankWindow base screen) : Shows base .blank screen := by
  refine ⟨blank.ready, blank.normal, ?_, blank.col, fun row rowInside col colInside => ?_⟩
  · rw [blank.row]
    rfl
  · exact blank.cells row rowInside col colInside

/-- After a text is written to a blank console, it shows the last 25 rows that were reached on
the page, and its cursor is at the place of the page's cursor in them. -/
theorem ttyWrite_shows (inFlags idx : Nat) (terminal : Terminal) (text : List UInt8)
    (isConsole : idx < consoleCnt)
    (blank : BlankWindow base ⟨terminal.screens.consoles idx, terminal.screens.video⟩)
    (isText : ∀ ch ∈ text, IsText ch) :
    let page := text.foldl Page.write Page.blank
    ∃ after, ttyWrite inFlags idx terminal text = some (text.length, after) ∧
      (∀ row < 25, ∀ col < 80, after.screens.video (base + 2 * (80 * row + col)) =
        page.cells (page.row - 24 + row) col) ∧
      (after.screens.consoles idx).cursorRow = page.row - (page.row - 24) ∧
      (after.screens.consoles idx).cursorCol = page.col ∧
      (text ≠ [] → after.cursorPos =
        UInt16.ofNat (2000 * idx + 80 * (page.row - (page.row - 24)) + page.col)) := by
  intro page
  obtain ⟨after, wrote, shows, cursor⟩ :=
    @foldlM_shows base .blank idx inFlags isConsole text terminal blank.shows isText
  have row : (after.screens.consoles idx).cursorRow = page.row - (page.row - 24) :=
    Nat.eq_sub_of_add_eq' shows.row
  refine ⟨after, ?_, shows.cells, row, shows.col, fun nonempty => ?_⟩
  · rw [ttyWrite, wrote]
    rfl
  · have col : (after.screens.consoles idx).cursorCol = page.col := shows.col
    rw [cursor nonempty, updateCursorPos, shows.ready.cols, shows.ready.rows, row, col]
    congr 1
    omega

theorem blankWindow_second : BlankWindow (windowStart 1)
    ⟨(Screens.twoConsoles 0).consoles 1, (Screens.twoConsoles 0).video⟩ := by
  have onScreen : 0 < 2000 := by decide
  have ready := (Screens.initialised_twoConsoles onScreen 1 (by decide)).2
  refine ⟨ready, rfl, rfl, rfl, ?_⟩
  intro row rowInside col colInside
  have video : (Screens.twoConsoles 0).video = clearCells 2080 (windowStart 1) fun _ => 0 := by
    simp [Screens.twoConsoles, Screens.initConsole, Screens.put, Screen.clearRow, Screen.clear,
      consoleColMax, consoleRowMax, windowStart]
  have cell := @clearCells_inside 2080 (windowStart 1) (fun _ => 0) (80 * row + col) (by omega)
  rw [← video] at cell
  dsimp only
  exact cell

theorem ttyWrite_shows_second :
    let page := [0x41, newline, tab, 0x42].foldl Page.write Page.blank
    ∃ after, ttyWrite 0 1 ⟨Screens.twoConsoles 0, 0⟩ [0x41, newline, tab, 0x42] =
        some (4, after) ∧
      (∀ row < 25, ∀ col < 80, after.screens.video (windowStart 1 + 2 * (80 * row + col)) =
        page.cells (page.row - 24 + row) col) ∧
      (after.screens.consoles 1).cursorRow = page.row - (page.row - 24) ∧
      (after.screens.consoles 1).cursorCol = page.col ∧
      ([0x41, newline, tab, 0x42] ≠ [] → after.cursorPos =
        UInt16.ofNat (2000 * 1 + 80 * (page.row - (page.row - 24)) + page.col)) := by
  have letter : IsText 0x41 ∧ IsText 0x42 :=
    ⟨Or.inr (Or.inr (by decide)), Or.inr (Or.inr (by decide))⟩
  refine ttyWrite_shows 0 1 ⟨Screens.twoConsoles 0, 0⟩ [0x41, newline, tab, 0x42] (by decide)
    blankWindow_second ?_
  intro ch member
  simp only [List.mem_cons, List.not_mem_nil, or_false] at member
  rcases member with rfl | rfl | rfl | rfl
  · exact letter.1
  · exact Or.inl rfl
  · exact Or.inr (Or.inl rfl)
  · exact letter.2

end CleanOS.Tty
