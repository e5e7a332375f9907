import CleanOS.Common.Tokens
import CleanOS.Lib.Calls

/-!
# Commands of the shell

`shell_main` of `app/shell/main.c` divides a line into parts and words, in its buffer, and calls
the command of each part.  `none` stands for a null pointer that is read, or for a read behind
`cmd_list`.
-/

namespace CleanOS.App

open CleanOS.Common CleanOS.Lib

def ascii (chars : List Char) : List UInt8 :=
  chars.map fun c => c.toNat.toUInt8

/-- The names in `cmd_list`. -/
def cmdList : List (List UInt8) :=
  [ascii ['m', 'a', 'n'], ascii ['c', 'l', 'e', 'a', 'r'], ascii ['l', 's'],
    ascii ['p', 'w', 'd'], ascii ['f', 'r', 'e', 'e'], ascii ['e', 'c', 'h', 'o'],
    ascii ['c', 'a', 't'], ascii ['d', 'a', 't', 'e'], ascii ['e', 'x', 'e', 'c'],
    ascii ['p', 'i', 'n', 'g']]

/-- `ARG_COUNT_MAX`. -/
def argCountMax : Nat := 10

def semicolon : UInt8 := 0x3b

def blank : UInt8 := 0x20

/-- What the shell does with a part: it calls a command, with the entries of `argv` and the file
that the output goes to, or reports that there is none. -/
inductive ShellEvent where
  | called (cmd : List UInt8) (argc : Nat) (argv : List (Option (List UInt8)))
      (redirect : Option (List UInt8))
  | notFound (cmdName : List UInt8)
  deriving DecidableEq

/-- `memcmp` of two strings up to the end of the shorter one, as in `strcmp` and `find_cmd`. -/
def agree (a b : List UInt8) : Bool :=
  a.take (min a.length b.length) = b.take (min a.length b.length)

/-- The loop of `find_cmd`.  It does not stop at the end of `cmd_list`. -/
def findCmdLoop (cmdStr : List UInt8) : List (List UInt8) → Option (Option (List UInt8))
  | [] => none
  | name :: cmds => if agree name cmdStr then some (some name) else findCmdLoop cmdStr cmds

/-- `find_cmd`. -/
def findCmd (cmdStr : List UInt8) : Option (Option (List UInt8)) :=
  findCmdLoop cmdStr cmdList

/-- `trim_left`.  The string is empty after its first blank, and the loop ends. -/
def trimLeft (mem : List UInt8) (str : Nat) : Option (List UInt8) := do
  let size ← strlen mem str
  if 0 < size ∧ mem[str]? = some blank then some (mem.set str 0) else some mem

/-- The loop over the words of a part, with so many entries of `argv` left. -/
def argvLoop (mem : List UInt8) : Nat → Option Nat → Nat → Option (List Nat × List UInt8)
  | _, none, _ => some ([], mem)
  | 0, some _, _ => some ([], mem)
  | left + 1, some str, saved => do
      let (next, saved, mem) ← strtok mem none [blank] saved
      let (argv, mem) ← argvLoop mem left next saved
      return (str :: argv, mem)

def redirects (argv : List (List UInt8)) : Bool :=
  decide (3 ≤ argv.length) &&
    argv[argv.length - 2]?.any fun mark => agree mark (ascii ['>', '>'])

def callCmd (cmd : List UInt8) (argv : List (List UInt8)) : ShellEvent :=
  if redirects argv then
    .called cmd (argv.length - 2) (argv.map some ++ [none]) argv.getLast?
  else .called cmd argv.length (argv.map some ++ [none]) none

def runPart (mem : List UInt8) (cmdStr : Nat) : Option (ShellEvent × List UInt8) := do
  let (str, saved, mem) ← strtok mem (some cmdStr) [blank] 0
  let cmdName ← str
  let mem ← trimLeft mem cmdName
  let (argv, mem) ← argvLoop mem argCountMax (some cmdName) saved
  let argv ← argv.mapM fun pos => stringAt (mem.drop pos)
  let name ← stringAt (mem.drop cmdName)
  match ← findCmd name with
  | none => return (.notFound name, mem)
  | some cmd => return (callCmd cmd argv, mem)

def shellLoop : Nat → List UInt8 → Option Nat → Nat → Option (List ShellEvent)
  | _, _, none, _ => some []
  | 0, _, some _, _ => none
  | left + 1, mem, some cmdStr, saved => do
      let (event, mem) ← runPart mem cmdStr
      let (next, saved, mem) ← strtok mem none [semicolon] saved
      let events ← shellLoop left mem next saved
      return event :: events

/-- What `shell_main` does with the line in its buffer, which has fewer parts than bytes. -/
def shellMain (buf : List UInt8) : Option (List ShellEvent) := do
  let (cmdStr, saved, mem) ← strtok buf (some 0) [semicolon] 0
  shellLoop buf.length mem cmdStr saved

def words (part : List UInt8) : List (List UInt8) :=
  fields blank part

def partEvent (part : List UInt8) : Option ShellEvent := do
  let name ← (words part).head?
  match ← findCmd name with
  | none => return .notFound name
  | some cmd => return callCmd cmd ((words part).take argCountMax)

section Words

variable {mem front back part name : List UInt8} {saved : Nat}

theorem argvLoop_none (left : Nat) : argvLoop mem left none saved = some ([], mem) := by
  cases left <;> rfl

theorem shellLoop_none (left : Nat) : shellLoop left mem none saved = some [] := by
  cases left <;> rfl

theorem argvLoop_spec (left : Nat) :
    ∀ {done rest name : List UInt8} {pos : Nat}, 0 ∉ rest →
      (∀ rest', rest'.length = rest.length →
        HoldsText (done ++ rest' ++ 0 :: back) pos name) →
      ∃ positions rest', argvLoop (done ++ rest ++ 0 :: back) left (some pos) done.length =
          some (positions, done ++ rest' ++ 0 :: back) ∧
        rest'.length = rest.length ∧
        positions.mapM (fun pos => stringAt ((done ++ rest' ++ 0 :: back).drop pos)) =
          some ((name :: fields blank rest).take left) := by
  induction left with
  | zero =>
      intro done rest name pos _ _
      exact ⟨[], rest, rfl, rfl, rfl⟩
  | succ left induction =>
      intro done rest name pos noNul holds
      have found := @strtok_token blank rest done back none done.length noNul rfl
      rcases found with ⟨noWords, ends⟩ | ⟨seps, word, stop, rest₂, token, next⟩
      · refine ⟨[pos], rest, ?_, rfl, ?_⟩
        · rw [argvLoop]
          simp only [ends, Option.bind_eq_bind, Option.bind_some, argvLoop_none, Option.pure_def]
        · rw [noWords, List.take_succ_cons, List.take_nil, List.mapM_cons, holds rest rfl]
          rfl
      · obtain ⟨positions, rest₃, enters, size, texts⟩ :=
          @induction (done ++ seps ++ word ++ stop) rest₂ word (done ++ seps).length token.noNul
            (fun _ size => token.holdsText size)
        have behind : done ++ seps ++ word ++ stop ++ rest₃ ++ 0 :: back =
            done ++ (seps ++ word ++ stop ++ rest₃) ++ 0 :: back := by
          simp only [List.append_assoc]
        have sameSize : (seps ++ word ++ stop ++ rest₃).length = rest.length := by
          have length_eq := token.length_eq
          simp only [List.length_append]
          omega
        rw [behind] at enters texts
        refine ⟨pos :: positions, seps ++ word ++ stop ++ rest₃, ?_, sameSize, ?_⟩
        · rw [argvLoop]
          simp only [next, enters, Option.bind_eq_bind, Option.bind_some, Option.pure_def]
        · rw [token.fields_eq, List.take_succ_cons, List.mapM_cons, holds _ sameSize, texts]
          rfl

theorem trimLeft_word (plain : ∀ d ∈ name, d ≠ 0 ∧ d ≠ blank) (nonempty : name ≠ []) :
    trimLeft (front ++ name ++ 0 :: back) front.length = some (front ++ name ++ 0 :: back) := by
  have noNul : 0 ∉ name := fun member => (plain 0 member).1 rfl
  obtain ⟨first, others, rfl⟩ := List.exists_cons_of_ne_nil nonempty
  have atFirst : (front ++ first :: others ++ 0 :: back)[front.length]? = some first := by
    rw [List.append_assoc, List.cons_append]
    exact getElem?_behind
  have notBlank := (plain first List.mem_cons_self).2
  rw [trimLeft, strlen_text noNul, atFirst]
  simp [notBlank]

theorem runPart_eq (noNul : 0 ∉ part) :
    ∃ part', part'.length = part.length ∧
      runPart (front ++ part ++ 0 :: back) front.length =
        (partEvent part).map fun event => (event, front ++ part' ++ 0 :: back) := by
  have found := @strtok_token blank part front back (some front.length) 0 noNul rfl
  rcases found with ⟨noWords, ends⟩ | ⟨seps, name, stop, rest, token, next⟩
  · refine ⟨part, rfl, ?_⟩
    rw [runPart, ends, partEvent, words, noWords]
    rfl
  · obtain ⟨positions, rest', enters, size, texts⟩ :=
      @argvLoop_spec back argCountMax (front ++ seps ++ name ++ stop) rest name
        (front ++ seps).length token.noNul (fun _ size => token.holdsText size)
    have trims : trimLeft (front ++ seps ++ name ++ stop ++ rest ++ 0 :: back)
        (front ++ seps).length = some (front ++ seps ++ name ++ stop ++ rest ++ 0 :: back) := by
      obtain ⟨tail, split⟩ := token.ends.zero back
      rw [split]
      exact trimLeft_word token.plain token.nonempty
    have holds : stringAt ((front ++ seps ++ name ++ stop ++ rest' ++ 0 :: back).drop
        (front ++ seps).length) = some name :=
      token.holdsText size
    have behind : front ++ seps ++ name ++ stop ++ rest' ++ 0 :: back =
        front ++ (seps ++ name ++ stop ++ rest') ++ 0 :: back := by
      simp only [List.append_assoc]
    refine ⟨seps ++ name ++ stop ++ rest', ?_, ?_⟩
    · have length_eq := token.length_eq
      simp only [List.length_append]
      omega
    · rw [runPart, next, partEvent, words, token.fields_eq, ← behind]
      simp only [Option.bind_eq_bind, Option.bind_some, trims, enters, texts,
        holds, List.head?_cons]
      cases findCmd name with
      | none => rfl
      | some cmd => cases cmd <;> rfl

theorem shellLoop_eq (left : Nat) :
    ∀ {front part stop rest : List UInt8}, rest.length < left → 0 ∉ part → 0 ∉ rest →
      FieldEnds stop rest →
      shellLoop left (front ++ part ++ stop ++ rest ++ 0 :: back) (some front.length)
          (front ++ part ++ stop).length =
        (part :: fields semicolon rest).mapM partEvent := by
  induction left with
  | zero =>
      intro front part stop rest short
      exact absurd short (Nat.not_lt_zero _)
  | succ left induction =>
      intro front part stop rest short partNoNul restNoNul ends
      obtain ⟨tail, split⟩ := ends.zero back
      obtain ⟨part', size, runs⟩ := @runPart_eq front tail part partNoNul
      have stopSize : (front ++ part ++ stop).length = (front ++ part' ++ stop).length := by
        simp only [List.length_append, size]
      rw [shellLoop, split, runs, stopSize, List.mapM_cons]
      cases partEvent part with
      | none => rfl
      | some event =>
          have found := @strtok_token semicolon rest (front ++ part' ++ stop) back none
            (front ++ part' ++ stop).length restNoNul rfl
          rcases found with ⟨noParts, atEnd⟩ | ⟨seps, next, stop', rest', token, atNext⟩
          · simp only [Option.bind_eq_bind, Option.map_some, Option.bind_some, ← split, atEnd,
              shellLoop_none]
            rw [noParts]
            rfl
          · have shorter : rest'.length < left := by
              have length_eq := token.length_eq
              have notEmpty := List.length_pos_of_ne_nil token.nonempty
              omega
            have later := @induction (front ++ part' ++ stop ++ seps) next stop' rest' shorter
              (fun member => (token.plain 0 member).1 rfl) token.noNul token.ends
            simp only [Option.bind_eq_bind, Option.map_some, Option.bind_some, ← split, atNext,
              later]
            rw [token.fields_eq]

theorem shellMain_eq (noNul : 0 ∉ part) :
    shellMain (part ++ 0 :: back) = (fields semicolon part).mapM partEvent := by
  have found := @strtok_token semicolon part [] back (some 0) 0 noNul rfl
  rcases found with ⟨noParts, atEnd⟩ | ⟨seps, first, stop, rest, token, atFirst⟩
  · rw [List.nil_append] at atEnd
    rw [shellMain, atEnd, noParts]
    exact shellLoop_none _
  · rw [List.nil_append] at atFirst
    have shorter : rest.length < (part ++ 0 :: back).length := by
      have length_eq := token.length_eq
      simp only [List.length_append, List.length_cons]
      omega
    rw [shellMain, atFirst, token.fields_eq]
    exact shellLoop_eq _ shorter (fun member => (token.plain 0 member).1 rfl) token.noNul
      token.ends

end Words

section Names

variable {name cmd : List UInt8} {cmds : List (List UInt8)} {argv : List (List UInt8)}

theorem agree_iff {a b : List UInt8} : agree a b = true ↔ a <+: b ∨ b <+: a := by
  unfold agree
  rw [decide_eq_true_iff]
  rcases Nat.le_total a.length b.length with short | long
  · rw [Nat.min_eq_left short, List.take_length]
    constructor
    · intro same
      exact .inl (same ▸ List.take_prefix _ _)
    · rintro (isPrefix | isPrefix)
      · exact List.prefix_iff_eq_take.mp isPrefix
      · rw [isPrefix.eq_of_length_le short, List.take_length]
  · rw [Nat.min_eq_right long, List.take_length]
    constructor
    · intro same
      exact .inr (same ▸ List.take_prefix _ _)
    · rintro (isPrefix | isPrefix)
      · rw [isPrefix.eq_of_length_le long, List.take_length]
      · exact (List.prefix_iff_eq_take.mp isPrefix).symm

theorem findCmdLoop_some {result : Option (List UInt8)}
    (found : findCmdLoop name cmds = some result) : ∃ cmd ∈ cmds, result = some cmd := by
  induction cmds with
  | nil => cases found
  | cons entry cmds induction =>
      rw [findCmdLoop] at found
      by_cases agrees : agree entry name = true
      · rw [if_pos agrees] at found
        cases found
        exact ⟨entry, List.mem_cons_self, rfl⟩
      · rw [if_neg agrees] at found
        obtain ⟨cmd, member, isCmd⟩ := induction found
        exact ⟨cmd, List.mem_cons_of_mem entry member, isCmd⟩

theorem findCmdLoop_self (only : ∀ cmd ∈ cmds, agree cmd name = true → cmd = name)
    (member : name ∈ cmds) : findCmdLoop name cmds = some (some name) := by
  induction cmds with
  | nil => exact absurd member List.not_mem_nil
  | cons entry cmds induction =>
      rw [findCmdLoop]
      by_cases agrees : agree entry name = true
      · rw [if_pos agrees, only entry List.mem_cons_self agrees]
      · rw [if_neg agrees]
        apply induction
        · intro cmd later
          exact only cmd (List.mem_cons_of_mem entry later)
        · rcases List.mem_cons.mp member with same | later
          · exact absurd (agree_iff.mpr (.inl (same ▸ List.prefix_rfl))) agrees
          · exact later

theorem findCmd_name (member : name ∈ cmdList) : findCmd name = some (some name) := by
  have distinct : ∀ name ∈ cmdList, ∀ cmd ∈ cmdList, agree cmd name = true → cmd = name := by
    decide
  exact findCmdLoop_self (distinct name member) member

/-- The last word but one is `>>`, a part of it, or begins with it, and stands behind another
word. -/
def AsksFile (argv : List (List UInt8)) : Prop :=
  ∃ before mark file, before ≠ [] ∧ argv = before ++ [mark, file] ∧
    (mark <+: ascii ['>', '>'] ∨ ascii ['>', '>'] <+: mark)

theorem redirects_append {before : List (List UInt8)} {mark file : List UInt8}
    (nonempty : before ≠ []) :
    redirects (before ++ [mark, file]) = agree mark (ascii ['>', '>']) := by
  have long : 3 ≤ (before ++ [mark, file]).length := by
    have some := List.length_pos_of_ne_nil nonempty
    simp only [List.length_append, List.length_cons, List.length_nil]
    omega
  have atMark : (before ++ [mark, file])[(before ++ [mark, file]).length - 2]? = some mark := by
    rw [List.length_append]
    exact List.getElem?_append_right (Nat.le_refl _) |>.trans (by simp)
  rw [redirects, atMark, decide_eq_true long]
  rfl

theorem redirects_iff : redirects argv = true ↔ AsksFile argv := by
  constructor
  · intro asks
    have long : 3 ≤ argv.length := of_decide_eq_true (Bool.and_eq_true_iff.mp asks).1
    obtain ⟨mark, file, isEnd⟩ := List.length_eq_two.mp
      (show (argv.drop (argv.length - 2)).length = 2 by rw [List.length_drop]; omega)
    have split : argv = argv.take (argv.length - 2) ++ [mark, file] := by
      rw [← isEnd, List.take_append_drop]
    have nonempty : argv.take (argv.length - 2) ≠ [] := by
      apply List.ne_nil_of_length_pos
      rw [List.length_take]
      omega
    rw [split, redirects_append nonempty] at asks
    exact ⟨_, mark, file, nonempty, split, agree_iff.mp asks⟩
  · rintro ⟨before, mark, file, nonempty, rfl, matching⟩
    rw [redirects_append nonempty]
    exact agree_iff.mpr matching

end Names

section Dispatch

variable {part : List UInt8}

def nonBlankParts (line : List UInt8) : List (List UInt8) :=
  (line.splitOn semicolon).filter (words · ≠ [])

/-- The command with the name of the first word is called with the words, or is reported as
missing. -/
def Dispatched (part : List UInt8) : ShellEvent → Prop
  | .called cmd argc argv _ => cmd ∈ cmdList ∧ (words part).head? = some cmd ∧
      ((words part).take argCountMax).map some <+: argv ∧ argv[argc]? = some none
  | .notFound cmdName => cmdName ∉ cmdList ∧ (words part).head? = some cmdName

/-- The first word of a part is the name of a command, and the last but one does not ask for a
file. -/
def PlainCall (part : List UInt8) : Prop :=
  (∃ name ∈ cmdList, (words part).head? = some name) ∧ ¬ AsksFile ((words part).take argCountMax)

theorem callCmd_dispatched {cmd : List UInt8} :
    Dispatched part (callCmd cmd ((words part).take argCountMax)) ↔
      (cmd ∈ cmdList ∧ (words part).head? = some cmd) ∧
        ¬ AsksFile ((words part).take argCountMax) := by
  obtain ⟨argv, isArgv⟩ : ∃ argv, (words part).take argCountMax = argv := ⟨_, rfl⟩
  rw [callCmd, isArgv]
  by_cases asks : redirects argv = true
  · obtain ⟨before, mark, file, -, isSplit, -⟩ := redirects_iff.mp asks
    have atArgc : (argv.map some ++ [none])[argv.length - 2]? = some (some mark) := by
      rw [isSplit]
      simp
    rw [if_pos asks]
    constructor
    · rintro ⟨-, -, -, isNull⟩
      rw [atArgc] at isNull
      cases isNull
    · rintro ⟨-, noFile⟩
      exact absurd (redirects_iff.mp asks) noFile
  · rw [if_neg asks]
    have atArgc : (argv.map some ++ [none])[argv.length]? = some none := by
      simp
    constructor
    · rintro ⟨isName, isFirst, -⟩
      exact ⟨⟨isName, isFirst⟩, fun noFile => asks (redirects_iff.mpr noFile)⟩
    · rintro ⟨⟨isName, isFirst⟩, -⟩
      exact ⟨isName, isFirst, ⟨[none], isArgv ▸ rfl⟩, atArgc⟩

theorem partEvent_iff :
    (∃ event, partEvent part = some event ∧ Dispatched part event) ↔ PlainCall part := by
  constructor
  · rintro ⟨event, runs, dispatched⟩
    cases isWords : words part with
    | nil =>
        rw [partEvent, isWords] at runs
        cases runs
    | cons name others =>
        cases found : findCmd name with
        | none =>
            rw [partEvent, isWords, List.head?_cons, Option.bind_eq_bind, Option.bind_some,
              found] at runs
            cases runs
        | some result =>
            obtain ⟨cmd, member, rfl⟩ := findCmdLoop_some found
            have isEvent : callCmd cmd ((words part).take argCountMax) = event := by
              rw [partEvent, isWords, List.head?_cons, Option.bind_eq_bind, Option.bind_some,
                found] at runs
              rw [isWords]
              exact Option.some.inj runs
            rw [← isEvent, callCmd_dispatched] at dispatched
            exact ⟨⟨cmd, dispatched.1⟩, dispatched.2⟩
  · rintro ⟨⟨name, member, isFirst⟩, noFile⟩
    refine ⟨callCmd name ((words part).take argCountMax), ?_,
      callCmd_dispatched.mpr ⟨⟨member, isFirst⟩, noFile⟩⟩
    rw [partEvent, isFirst, Option.bind_eq_bind, Option.bind_some, findCmd_name member]
    rfl

theorem nonBlankParts_fields {line : List UInt8}
    (haveWords : ∀ part ∈ fields semicolon line, words part ≠ []) :
    nonBlankParts line = fields semicolon line := by
  apply List.filter_congr
  intro part member
  apply decide_eq_decide.mpr
  constructor
  · rintro notBlank rfl
    exact notBlank rfl
  · intro nonempty
    exact haveWords part (List.mem_filter.mpr ⟨member, decide_eq_true nonempty⟩)

/-- The shell runs the commands of a line one after the other exactly if all parts that it finds
are plain calls. -/
theorem shellMain_iff (line : CText) (back : List UInt8) :
    (∃ events, shellMain (line.chars ++ 0 :: back) = some events ∧
      List.Forall₂ Dispatched (nonBlankParts line.chars) events) ↔
    ∀ part ∈ line.chars.splitOn semicolon, part ≠ [] → PlainCall part := by
  have parts_iff : (∀ part ∈ line.chars.splitOn semicolon, part ≠ [] → PlainCall part) ↔
      ∀ part ∈ fields semicolon line.chars,
        ∃ event, partEvent part = some event ∧ Dispatched part event := by
    simp only [partEvent_iff, fields, List.mem_filter, decide_eq_true_iff, and_imp]
  rw [shellMain_eq line.noNul, parts_iff, ← mapM_right_iff]
  apply exists_congr
  intro events
  apply and_congr_right
  intro runs
  rw [nonBlankParts_fields]
  intro part member
  obtain ⟨event, now⟩ := mapM_member runs part member
  intro noWords
  rw [partEvent, noWords] at now
  cases now

/-- No command begins with these letters, and the search leaves `cmd_list`. -/
theorem foo_not_reported : ¬ ∃ events,
    shellMain (ascii ['f', 'o', 'o'] ++ [0]) = some events ∧
      List.Forall₂ Dispatched (nonBlankParts (ascii ['f', 'o', 'o'])) events := by
  have leaves : shellMain (ascii ['f', 'o', 'o'] ++ [0]) = none := by
    decide
  rintro ⟨events, runs, -⟩
  rw [leaves] at runs
  cases runs

end Dispatch

end CleanOS.App
