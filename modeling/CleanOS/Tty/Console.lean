import CleanOS.Lib.Calls
import Mathlib.Logic.Function.Basic
import Mathlib.Tactic.SplitIfs

/-!
# Consoles

`kernel/device/tty/console.c`.  The consoles share the display memory, in which each has a
window of 25 rows of 80 cells of two bytes, the character and its colours.  A character is
compared as an unsigned byte, which makes no difference to the tests of the source.
-/

namespace CleanOS.Tty

open CleanOS.Lib

/-- `CONSOLE_DISPLAY_ADDR`. -/
def consoleDisplayAddr : Nat := 0xb8000

/-- `CONSOLE_CNT`. -/
def consoleCnt : Nat := 8

/-- `CONSOLE_COL_MAX`. -/
def consoleColMax : Nat := 80

/-- `CONSOLE_ROW_MAX`. -/
def consoleRowMax : Nat := 25

/-- `ESC_PARAMS_MAX`. -/
def escParamsMax : Nat := 10

inductive WriteState where
  | normal
  | esc
  | square
  deriving DecidableEq, Repr

/-- `console_t`, with colours as their numbers. -/
structure Console where
  displayCols : Nat
  displayRows : Nat
  cursorCol : Nat
  cursorRow : Nat
  displayFg : UInt8
  displayBg : UInt8
  displayBase : Nat
  writeState : WriteState
  escParams : Nat → Int32
  curEscParam : Nat

/-- A console with the display memory. -/
structure Screen where
  console : Console
  video : Nat → UInt8

/-- `DEFAULT_FG`. -/
def defaultFg : UInt8 := 7

/-- `DEFAULT_BG`. -/
def defaultBg : UInt8 := 0

/-- The loop of `clear` over a number of cells. -/
def clearCells : Nat → Nat → (Nat → UInt8) → (Nat → UInt8)
  | 0, _, video => video
  | count + 1, address, video =>
      clearCells count (address + 2) (Function.update video address 0x20)

/-- `memcpy` within the display memory. -/
def copyBytes : Nat → Nat → Nat → (Nat → UInt8) → (Nat → UInt8)
  | 0, _, _, video => video
  | size + 1, dst, src, video =>
      copyBytes size (dst + 1) (src + 1) (Function.update video dst (video src))

def cellColors (old fg bg : UInt8) : UInt8 :=
  (old &&& 0x80) ||| (UInt8.shiftLeft (bg &&& 0x07) 4) ||| (fg &&& 0x0f)

/-- The assignments to `ch`, `fg` and `bg` of a `display_char_t`. -/
def storeCell (video : Nat → UInt8) (display : Nat) (ch fg bg : UInt8) : Nat → UInt8 :=
  Function.update (Function.update video display ch) (display + 1)
    (cellColors (video (display + 1)) fg bg)

namespace Screen

/-- `clear`. -/
def clear (screen : Screen) (rowStart rowEnd colStart colEnd : Nat) : Screen :=
  let console := screen.console
  let displayStart := console.displayCols * rowStart + colStart
  let displayEnd := console.displayCols * rowEnd + colEnd
  { screen with
    video := clearCells (displayEnd - displayStart) (console.displayBase + 2 * displayStart)
      screen.video }

/-- `clear_row`. -/
def clearRow (screen : Screen) (rowStart rowEnd : Nat) : Screen :=
  screen.clear rowStart rowEnd 0 screen.console.displayCols

/-- `scroll_up`. -/
def scrollUp (screen : Screen) (lines : Nat) : Screen :=
  let console := screen.console
  let size := (console.displayRows - lines) * console.displayCols * 2
  let moved :=
    { screen with
      video := copyBytes size console.displayBase
        (console.displayBase + 2 * (console.displayCols * lines)) screen.video }
  let cleared := moved.clearRow (console.displayRows - lines) (console.displayRows - 1)
  { cleared with console := { console with cursorRow := console.cursorRow - lines } }

/-- The body of the loop of `cursor_forward`. -/
def forwardOne (screen : Screen) : Screen :=
  let console := screen.console
  if console.displayCols ≤ console.cursorCol + 1 then
    let down : Screen :=
      { screen with
        console := { console with cursorCol := 0, cursorRow := console.cursorRow + 1 } }
    if console.displayRows ≤ console.cursorRow + 1 then down.scrollUp 1 else down
  else { screen with console := { console with cursorCol := console.cursorCol + 1 } }

/-- `cursor_forward`. -/
def cursorForward : Nat → Screen → Screen
  | 0, screen => screen
  | n + 1, screen => cursorForward n screen.forwardOne

/-- The body of the loop of `cursor_backward`. -/
def backwardOne (screen : Screen) : Screen :=
  let console := screen.console
  if 0 < console.cursorCol then
    { screen with console := { console with cursorCol := console.cursorCol - 1 } }
  else if 0 < console.cursorRow then
    { screen with
      console := { console with
        cursorRow := console.cursorRow - 1
        cursorCol := console.displayCols - 1 } }
  else screen

/-- `cursor_backward`. -/
def cursorBackward : Nat → Screen → Screen
  | 0, screen => screen
  | n + 1, screen => cursorBackward n screen.backwardOne

/-- The body of the loop of `cursor_down`. -/
def downOne (screen : Screen) : Screen :=
  let console := screen.console
  let down : Screen :=
    if console.cursorRow ≤ console.displayRows then
      { screen with console := { console with cursorRow := console.cursorRow + 1 } }
    else screen
  if down.console.displayRows ≤ down.console.cursorRow then down.scrollUp 1 else down

/-- `cursor_down`. -/
def cursorDown : Nat → Screen → Screen
  | 0, screen => screen
  | n + 1, screen => cursorDown n screen.downOne

/-- `cursor_line_head`. -/
def cursorLineHead (screen : Screen) : Screen :=
  { screen with console := { screen.console with cursorCol := 0 } }

/-- `putchar_color`. -/
def putcharColor (screen : Screen) (ch fg bg : UInt8) : Screen :=
  let console := screen.console
  let offset := console.cursorCol + console.cursorRow * console.displayCols
  let display := console.displayBase + 2 * offset
  cursorForward 1 { screen with video := storeCell screen.video display ch fg bg }

/-- `putchar`. -/
def putchar (screen : Screen) (ch : UInt8) : Screen :=
  screen.putcharColor ch screen.console.displayFg screen.console.displayBg

/-- `putchar_normal`. -/
def putcharNormal (screen : Screen) (ch : UInt8) : Screen :=
  if ch = 0x0a then cursorDown 1 screen
  else if ch = 0x0d then screen.cursorLineHead
  else if ch = 0x08 then
    cursorBackward 1 ((cursorBackward 1 screen).putchar 0x20)
  else if ch = 0x7f then cursorBackward 1 (screen.putchar 0x20)
  else if ch = 0x09 then cursorForward 4 screen
  else if ch = 0x1b then { screen with console := { screen.console with writeState := .esc } }
  else if 0x20 ≤ ch ∧ ch ≤ 0x7e then screen.putchar ch
  else screen

end Screen

namespace Console

/-- `putchar_esc`. -/
def putcharEsc (console : Console) (ch : UInt8) : Console :=
  if ch = 0x5b then
    { console with escParams := fun _ => 0, curEscParam := 0, writeState := .square }
  else { console with writeState := .normal }

/-- `color_table`. -/
def colorTable : List UInt8 := [0, 4, 2, 14, 1, 5, 3, 15]

/-- `esc_set_color`. -/
def escSetColor (console : Console) (param : Int32) : Console :=
  if 30 ≤ param ∧ param ≤ 37 then
    { console with displayFg := colorTable.getD (param - 30).toInt.toNat 0 }
  else if param = 39 then { console with displayFg := defaultFg }
  else if 40 ≤ param ∧ param ≤ 47 then
    { console with displayBg := colorTable.getD (param - 40).toInt.toNat 0 }
  else if param = 49 then { console with displayBg := defaultBg }
  else console

/-- `esc_params[idx]`.  The index is at most ten, and the word behind the array is
`cur_esc_param`. -/
def escParam (console : Console) (idx : Nat) : Int32 :=
  if idx < escParamsMax then console.escParams idx else Int32.ofNat console.curEscParam

/-- The loop over the parameters of `m`, which changes no parameter. -/
def setColors (console : Console) : Console :=
  (List.range console.curEscParam).foldl
    (fun colored idx => colored.escSetColor (console.escParam idx)) console

end Console

namespace Screen

/-- The case `J` of `putchar_esc_square`. -/
def eraseDisplay (screen : Screen) (param : Int32) : Screen :=
  let console := screen.console
  if param = 0 then
    screen.clear console.cursorRow console.displayRows console.cursorCol console.displayCols
  else if param = 1 then screen.clear 0 console.cursorRow 0 console.cursorCol
  else if param = 2 then
    let cleared := screen.clearRow 0 console.displayRows
    { cleared with console := { cleared.console with cursorRow := 0, cursorCol := 0 } }
  else if param = 3 then screen.clearRow 0 console.displayRows
  else screen

/-- `putchar_esc_square`.  A digit for a parameter that `esc_params` has no room for is stored
behind the array, which has no meaning here. -/
def putcharEscSquare (screen : Screen) (ch : UInt8) : Option Screen :=
  let console := screen.console
  if 0x30 ≤ ch ∧ ch ≤ 0x39 then
    if console.curEscParam < escParamsMax then
      let num := console.escParams console.curEscParam
      let num := num * 10 + Int32.ofNat ch.toNat - 0x30
      some { screen with
        console := { console with
          escParams := Function.update console.escParams console.curEscParam num } }
    else none
  else if ch = 0x3b ∧ console.curEscParam < escParamsMax then
    some { screen with console := { console with curEscParam := console.curEscParam + 1 } }
  else
    let console := { console with curEscParam := console.curEscParam + 1 }
    let screen := { screen with console := console }
    let screen :=
      if ch = 0x6d then { screen with console := console.setColors }
      else if ch = 0x4a then screen.eraseDisplay (console.escParam (console.curEscParam - 1))
      else screen
    some { screen with console := { screen.console with writeState := .normal } }

end Screen

/-- `console_buf` and the display memory. -/
structure Screens where
  consoles : Nat → Console
  video : Nat → UInt8

namespace Screens

def put (screens : Screens) (idx : Nat) (screen : Screen) : Screens where
  consoles := Function.update screens.consoles idx screen.console
  video := screen.video

/-- `init_console`, with the position that `read_cursor_pos` finds. -/
def initConsole (screens : Screens) (idx curPos : Nat) : Screens :=
  let console := { screens.consoles idx with
    displayCols := consoleColMax
    displayRows := consoleRowMax
    displayFg := defaultFg
    displayBg := defaultBg
    displayBase := consoleDisplayAddr + idx * (consoleRowMax * consoleColMax) }
  if idx = 0 then
    screens.put idx
      { console := { console with
          cursorRow := curPos / console.displayCols
          cursorCol := curPos % console.displayCols }
        video := screens.video }
  else
    let console := { console with cursorRow := 0, cursorCol := 0 }
    let screen : Screen := { console := console, video := screens.video }
    screens.put idx (screen.clearRow 0 console.displayRows)

/-- `console_putchar`. -/
def consolePutchar (idx : Nat) (screens : Screens) (ch : UInt8) : Option (Nat × Screens) :=
  if consoleCnt ≤ idx then some (0, screens)
  else
    let screen : Screen := { console := screens.consoles idx, video := screens.video }
    match screen.console.writeState with
    | .normal => some (1, screens.put idx (screen.putcharNormal ch))
    | .esc =>
        some (0, screens.put idx { screen with console := screen.console.putcharEsc ch })
    | .square => do
        let screen ← screen.putcharEscSquare ch
        return (0, screens.put idx screen)

end Screens

end CleanOS.Tty
