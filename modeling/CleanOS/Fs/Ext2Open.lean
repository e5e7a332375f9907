import CleanOS.Common.Trim
import CleanOS.Fs.Ext2Dir
import CleanOS.Fs.Paths

/-!
# Opening a file of ext2

`ext2_open` of `kernel/fs/ext2.c`, with `rw_inode` and `get_sub_inode` where memory runs out or
the device fails.
-/

namespace CleanOS.Fs

open CleanOS.Common

/-- How the calls of a run end, in the order in which they are made: the addresses that `malloc`
gives, and what `block_read` returns. -/
structure Ext2Calls where
  malloc : Nat → UInt32
  blockRead : Nat → Int

/-- The blocks of the kernel heap in use, by their addresses, and the number of calls made. -/
structure Ext2Run where
  heap : List UInt32
  made : Nat

namespace Ext2Run

/-- `malloc`. -/
def malloc (run : Ext2Run) (calls : Ext2Calls) : UInt32 × Ext2Run :=
  let addr := calls.malloc run.made
  (addr, ⟨if addr = 0 then run.heap else addr :: run.heap, run.made + 1⟩)

/-- `free`. -/
def free (run : Ext2Run) (addr : UInt32) : Ext2Run :=
  { run with heap := run.heap.erase addr }

/-- `block_read`. -/
def blockRead (run : Ext2Run) (calls : Ext2Calls) : Int × Ext2Run :=
  (calls.blockRead run.made, { run with made := run.made + 1 })

end Ext2Run

/-- What `rw_inode` or `get_sub_inode` returns, the inode that it leaves, and the run after it. -/
structure InodeResult where
  idx : Int
  inode : Nat → UInt32
  run : Ext2Run

namespace Ext2

/-- `rw_inode` that reads an inode. -/
def readInode (volume : Ext2) (calls : Ext2Calls) (inodeIdx : UInt32) (inode : Nat → UInt32)
    (run : Ext2Run) : InodeResult :=
  let (inodeBuf, run) := run.malloc calls
  if inodeBuf = 0 then ⟨-1, inode, run⟩
  else
    let (readSize, run) := run.blockRead calls
    let run := run.free inodeBuf
    if readSize ≤ 0 then ⟨-1, inode, run⟩
    else ⟨0, (volume.rwInode inodeIdx inode false).2, run⟩

/-- The outer loop of `get_sub_inode`. -/
def openSubLoop (volume : Ext2) (calls : Ext2Calls) (parent : Nat → UInt32) (name : CString)
    (inode : Nat → UInt32) (fuel : Nat) : (left i : Nat) → Ext2Run → Option InodeResult
  | 0, _, run => some ⟨-1, inode, run⟩
  | left + 1, i, run =>
      if parent (directBlock i) > 0 then
        let (readSize, run) := run.blockRead calls
        if readSize ≤ 0 then some ⟨-1, inode, run⟩
        else
          let entries := volume.loadBlock (parent (directBlock i))
          match scanBlock volume.blockSize.toNat entries name fuel 0 with
          | none => none
          | some ⟨_, some off⟩ =>
              let read := volume.readInode calls (entryInode entries off) inode run
              if read.idx = 0 then
                some { read with idx := toInt32 (entryInode entries off).toNat }
              else some read
          | some ⟨_, none⟩ => openSubLoop volume calls parent name inode fuel left (i + 1) run
      else some ⟨-1, inode, run⟩

/-- `get_sub_inode`, with fuel for the search of a block. -/
def openSubInode (volume : Ext2) (calls : Ext2Calls) (parent : Nat → UInt32) (name : CString)
    (inode : Nat → UInt32) (fuel : Nat) (run : Ext2Run) : Option InodeResult :=
  let (entries, run) := run.malloc calls
  if entries = 0 then some ⟨-1, inode, run⟩
  else (volume.openSubLoop calls parent name inode fuel directBlockCount 0 run).map fun result =>
    { result with run := result.run.free entries }

end Ext2

/-- `inode_idx` and `*inode` of `ext2_open`, the names that `get_sub_inode` was called with, and
the run. -/
structure OpenWalk where
  idx : Int
  inode : Nat → UInt32
  looked : List (List UInt8)
  run : Ext2Run

/-- What `ext2_open` sets in a `file_t` and the `file_data_t` that it allocates. -/
structure OpenedFile where
  type : DirentType
  size : UInt32
  pos : UInt32
  inodeIdx : Int
  inode : Nat → UInt32

/-- What `ext2_open` returns and leaves. -/
structure OpenResult where
  err : Int
  opened : Option OpenedFile
  looked : List (List UInt8)
  run : Ext2Run

/-- `ROOT_INODE`. -/
def rootInode : UInt32 := 2

/-- `FILE_NAME_SIZE`, the size of `name` in `file_t`. -/
def fileNameSize : Nat := 64

/-- The test of `ext2_open` for the root. -/
def opensRoot (path : List UInt8) : Bool :=
  (CString.ofChars path).strlen = 0 ∨
    CString.strcmp (.ofChars path) (.ofChars [0x2f]) = 0 ∨
    CString.strcmp (.ofChars path) (.ofChars [0x2f, 0x2e]) = 0 ∨
    CString.strcmp (.ofChars path) (.ofChars [0x2f, 0x2e, 0x2e]) = 0

/-- `extract_file`, and the position that `ext2_open` sets after it. -/
def extractFile (inode : Nat → UInt32) (mode : UInt32) (inodeIdx : Int) : OpenedFile where
  type :=
    if inode 0 &&& 0x4000 ≠ 0 then .dir else if inode 0 &&& 0x8000 ≠ 0 then .file else .unknown
  size := inode sizeWord
  -- `O_APPEND`
  pos := if mode &&& 16 ≠ 0 then inode sizeWord else 0
  inodeIdx := inodeIdx
  inode := inode

namespace Ext2

/-- A pass of the loop of `ext2_open`, where `tmp` holds anything before: the name is looked up in
the inode, which is replaced by what is found. -/
def walkStep (volume : Ext2) (calls : Ext2Calls) (tmp : Nat → UInt32) (fuel : Nat)
    (walk : OpenWalk) (name : List UInt8) : Option OpenWalk := do
  let found ← volume.openSubInode calls walk.inode (.ofChars name) tmp fuel walk.run
  let looked := walk.looked ++ [name]
  if found.idx < 0 then return ⟨found.idx, walk.inode, looked, found.run⟩
  let inode := fun word => if 4 * word < inodeBytes then found.inode word else walk.inode word
  return ⟨found.idx, inode, looked, found.run⟩

/-- The loop of `ext2_open` over the tokens of the path, with a bound on the passes left. -/
def openLoop (volume : Ext2) (calls : Ext2Calls) (tmp : Nat → UInt32) (fuel : Nat) :
    (left : Nat) → (str : Option Nat) → (savePtr : Nat) → (mem : List UInt8) → OpenWalk →
      Option OpenWalk
  | 0, _, _, _, _ => none
  | _ + 1, none, _, _, walk => some walk
  | left + 1, some str, savePtr, mem, walk => do
      let name ← stringAt (mem.drop str)
      let walk ← volume.walkStep calls tmp fuel walk name
      if walk.idx < 0 then some walk
      else
        let (str, savePtr, mem) ← strtok mem none [0x2f] savePtr
        openLoop volume calls tmp fuel left str savePtr mem walk

/-- `ext2_open` up to the end of its loop: the walk from the root that has been loaded. -/
def openWalk (volume : Ext2) (calls : Ext2Calls) (tmp : Nat → UInt32) (fuel : Nat)
    (path behind : List UInt8) (root : OpenWalk) : Option OpenWalk :=
  if opensRoot path then some root
  else do
    let (str, savePtr, mem) ← strtok (path ++ 0 :: behind) (some 0) [0x2f] 0
    volume.openLoop calls tmp fuel (path.length + 1) str savePtr mem root

/-- `ext2_open` behind its loop, where `root` is the address of the inode. -/
def openEnd (calls : Ext2Calls) (root : UInt32) (mode : UInt32) (walk : OpenWalk) : OpenResult :=
  if walk.idx < 0 then ⟨walk.idx, none, walk.looked, walk.run.free root⟩
  else
    let (fileData, run) := walk.run.malloc calls
    if fileData = 0 then ⟨-1, none, walk.looked, run.free root⟩
    else ⟨0, some (extractFile walk.inode mode walk.idx), walk.looked, run⟩

/-- `ext2_open` of a path, with the memory behind it, where `malloced` and `tmp` are what the memory
for the root and the variable of the loop hold before. -/
def ext2Open (volume : Ext2) (calls : Ext2Calls) (malloced tmp : Nat → UInt32) (fuel : Nat)
    (path behind : List UInt8) (mode : UInt32) (run : Ext2Run) : Option OpenResult :=
  let (root, run) := run.malloc calls
  if root = 0 then some ⟨-1, none, [], run⟩
  else
    let read := volume.readInode calls rootInode malloced run
    if read.idx ≠ 0 then some ⟨read.idx, none, [], read.run.free root⟩
    else (volume.openWalk calls tmp fuel path behind
      ⟨rootInode.toNat, read.inode, [], read.run⟩).map (openEnd calls root mode)

/-- The fold of `get_sub_inode` over names, which ends at the first name that is not found. -/
def foldNames (volume : Ext2) (calls : Ext2Calls) (tmp : Nat → UInt32) (fuel : Nat) :
    List (List UInt8) → OpenWalk → Option OpenWalk
  | [], walk => some walk
  | name :: names, walk => do
      let walk ← volume.walkStep calls tmp fuel walk name
      if walk.idx < 0 then some walk else foldNames volume calls tmp fuel names walk

def rootLoaded (volume : Ext2) (calls : Ext2Calls) (malloced : Nat → UInt32) (run : Ext2Run) :
    Option (UInt32 × OpenWalk) :=
  let (root, run) := run.malloc calls
  let read := volume.readInode calls rootInode malloced run
  if root ≠ 0 ∧ read.idx = 0 then some (root, ⟨rootInode.toNat, read.inode, [], read.run⟩)
  else none

end Ext2

/-- The paths of the root: empty, only slashes, `/.` or `/..`. -/
def IsRootPath (path : List UInt8) : Prop :=
  (∀ char ∈ path, char = 0x2f) ∨ path = [0x2f, 0x2e] ∨ path = [0x2f, 0x2e, 0x2e]

instance (path : List UInt8) : Decidable (IsRootPath path) :=
  inferInstanceAs (Decidable (_ ∨ _ ∨ _))

def openNames (path : List UInt8) : List (List UInt8) :=
  if IsRootPath path then [] else components path

/-- What a run of `ext2_open` does is what the fold says: it succeeds when the root can be loaded,
every name is found and there is memory for `file_data`, which then holds what was found last; when
it fails, the memory in use is as before; and each name has room in the `file_t`. -/
structure OpenResult.ByComponents (result : OpenResult) (volume : Ext2) (calls : Ext2Calls)
    (malloced tmp : Nat → UInt32) (fuel : Nat) (path : List UInt8) (mode : UInt32)
    (run : Ext2Run) : Prop where
  notLoaded : volume.rootLoaded calls malloced run = none → result.err ≠ 0 ∧ result.looked = []
  loaded : ∀ addr root, volume.rootLoaded calls malloced run = some (addr, root) →
    ∃ walk, volume.foldNames calls tmp fuel (openNames path) root = some walk ∧
      result.looked = walk.looked ∧
      (result.err = 0 ↔ 0 ≤ walk.idx ∧ (walk.run.malloc calls).1 ≠ 0) ∧
      (result.err = 0 → result.opened = some (extractFile walk.inode mode walk.idx))
  released : result.err ≠ 0 → result.run.heap = run.heap
  inside : ∀ name ∈ result.looked, name.length ≤ fileNameSize

/-- A path is resolved by components: there is room for the inode of the root, `ext2_open` returns
unless a search of the fold does not, and what it returns is what the fold says. -/
structure OpensByComponents (volume : Ext2) (calls : Ext2Calls) (malloced tmp : Nat → UInt32)
    (path behind : List UInt8) (mode : UInt32) (run : Ext2Run) : Prop where
  room : (volume.rootLoaded calls malloced run).isSome = true →
    inodeBytes ≤ volume.superBlock.inodeSize.toNat
  returns : ∀ fuel, volume.ext2Open calls malloced tmp fuel path behind mode run = none →
    ∃ addr root, volume.rootLoaded calls malloced run = some (addr, root) ∧
      volume.foldNames calls tmp fuel (openNames path) root = none
  resolves : ∀ fuel result,
    volume.ext2Open calls malloced tmp fuel path behind mode run = some result →
    result.ByComponents volume calls malloced tmp fuel path mode run

/-- The paths that are resolved by components, from a root that has been loaded: the inodes are
not shorter than `inode_t`, a path that starts with a slash is one of the root, and no name that
is looked up is longer than `name` in `file_t`. -/
structure OpensWithin (volume : Ext2) (calls : Ext2Calls) (tmp : Nat → UInt32)
    (path : List UInt8) (root : OpenWalk) : Prop where
  room : inodeBytes ≤ volume.superBlock.inodeSize.toNat
  slash : path.head? = some 0x2f → IsRootPath path
  inside : ∀ fuel walk, volume.foldNames calls tmp fuel (openNames path) root = some walk →
    ∀ name ∈ walk.looked, name.length ≤ fileNameSize

section Path

variable {path front back : List UInt8} {str : Option Nat} {savePtr : Nat}

theorem opensRoot_iff (noNul : 0 ∉ path) :
    opensRoot path = true ↔ path = [] ∨ path.head? = some 0x2f := by
  have atFirst : ∀ others : List UInt8, 0 ∉ others → others.head? = some 0x2f → path ≠ [] →
      CString.strcmp (.ofChars path) (.ofChars others) = 0 → path.head? = some 0x2f := by
    intro others noNul' isSlash nonempty same
    have both := (CString.strcmp_eq_zero noNul noNul').mp same 0 (by
      rw [Nat.lt_min]
      refine ⟨List.length_pos_iff.mpr nonempty, List.length_pos_iff.mpr fun empty => ?_⟩
      rw [empty] at isSlash
      cases isSlash)
    rw [List.head?_eq_getElem?, both, ← List.head?_eq_getElem?]
    exact isSlash
  unfold opensRoot
  rw [decide_eq_true_iff, CString.strlen_ofChars noNul, List.length_eq_zero_iff]
  constructor
  · intro isRoot
    by_cases empty : path = []
    · exact Or.inl empty
    · apply Or.inr
      rcases isRoot with isEmpty | slash | dot | dots
      · exact absurd isEmpty empty
      · exact atFirst _ (by decide) rfl empty slash
      · exact atFirst _ (by decide) rfl empty dot
      · exact atFirst _ (by decide) rfl empty dots
  · rintro (empty | isSlash)
    · exact Or.inl empty
    · refine Or.inr (Or.inl ((CString.strcmp_eq_zero noNul (by decide)).mpr ?_))
      intro pos inside
      have isZero : pos = 0 := by
        have short := Nat.lt_of_lt_of_le inside (Nat.min_le_right _ _)
        simpa using short
      rw [isZero, ← List.head?_eq_getElem?, isSlash]
      rfl

theorem strtok_first {char : UInt8} (noNul : 0 ∉ char :: path) (notSlash : char ≠ 0x2f)
    (start : str.getD savePtr = front.length) :
    ∃ name front' path' back', components (char :: path) = name :: components path' ∧
      0 ∉ path' ∧ path'.length ≤ path.length ∧
      strtok (front ++ (char :: path) ++ 0 :: back) str [0x2f] savePtr =
        some (some front.length, front'.length, front' ++ path' ++ 0 :: back') ∧
      stringAt ((front' ++ path' ++ 0 :: back').drop front.length) = some name := by
  obtain ⟨name, isName⟩ : ∃ name, name = char :: path.takeWhile (· ≠ 0x2f) := ⟨_, rfl⟩
  have nonempty : name ≠ [] := by
    rw [isName]
    exact List.cons_ne_nil _ _
  have split : char :: path = name ++ path.dropWhile (· ≠ 0x2f) := by
    rw [isName, List.cons_append, List.takeWhile_append_dropWhile]
  have nameNoNul : 0 ∉ name := fun member =>
    noNul (split ▸ List.mem_append_left _ member)
  have noSep : ∀ d ∈ name, d ≠ 0 ∧ d ∉ [(0x2f : UInt8)] := by
    intro d member
    refine ⟨fun isNul => nameNoNul (isNul ▸ member), fun isSlash => ?_⟩
    rw [List.mem_singleton.mp isSlash, isName] at member
    rcases List.mem_cons.mp member with same | later
    · exact notSlash same.symm
    · exact notMem_takeWhile later
  have isComponents := @components_cons path char notSlash
  rw [← isName] at isComponents
  cases rest : path.dropWhile (· ≠ 0x2f) with
  | nil =>
      rw [rest] at split isComponents
      rw [List.append_nil] at split
      refine ⟨name, front ++ name, [], back, isComponents, List.not_mem_nil, Nat.zero_le _, ?_, ?_⟩
      · rw [split, strtok_last start nonempty noSep, List.append_nil, List.length_append]
      · rw [List.append_nil, List.append_assoc, List.drop_left, stringAt_text nameNoNul]
  | cons next rest' =>
      have isSlash : next = 0x2f := by
        have stops := List.head?_dropWhile_not (fun char : UInt8 => decide (char ≠ 0x2f)) path
        rw [rest] at stops
        simpa using stops
      rw [rest, isSlash] at split isComponents
      rw [skipSlash_slash] at isComponents
      have shorter : rest'.length ≤ path.length := by
        have lengths := (List.dropWhile_suffix (l := path) fun char => char ≠ 0x2f).length_le
        rw [rest, List.length_cons] at lengths
        omega
      refine ⟨name, front ++ name ++ [0], rest', back, isComponents, ?_, shorter, ?_, ?_⟩
      · intro member
        apply noNul
        rw [split]
        exact List.mem_append_right _ (List.mem_cons_of_mem _ member)
      · have mem : front ++ (char :: path) ++ 0 :: back =
            front ++ name ++ 0x2f :: (rest' ++ 0 :: back) := by
          rw [split]
          simp
        rw [mem, strtok_field start nonempty noSep (List.mem_singleton_self _) (by decide)]
        simp [Nat.add_assoc]
      · have mem : front ++ name ++ [0] ++ rest' ++ 0 :: back =
            front ++ (name ++ 0 :: (rest' ++ 0 :: back)) := by
          simp
        rw [mem, List.drop_left, stringAt_text nameNoNul]

theorem strtok_components (noNul : 0 ∉ path) (start : str.getD savePtr = front.length) :
    (components path = [] ∧ ∃ savePtr' mem', strtok (front ++ path ++ 0 :: back) str [0x2f]
      savePtr = some (none, savePtr', mem')) ∨
    ∃ name pos front' path' back',
      components path = name :: components path' ∧ 0 ∉ path' ∧ path'.length < path.length ∧
      strtok (front ++ path ++ 0 :: back) str [0x2f] savePtr =
        some (some pos, front'.length, front' ++ path' ++ 0 :: back') ∧
      stringAt ((front' ++ path' ++ 0 :: back').drop pos) = some name := by
  obtain ⟨seps, isSeps⟩ : ∃ seps, seps = path.takeWhile (· = 0x2f) := ⟨_, rfl⟩
  have allSeps : ∀ d ∈ seps, d ≠ 0 ∧ d ∈ [(0x2f : UInt8)] := by
    intro d member
    rw [isSeps] at member
    have before := List.mem_takeWhile_imp member
    rw [of_decide_eq_true before]
    exact ⟨by decide, List.mem_singleton_self _⟩
  have split : path = seps ++ path.dropWhile (· = 0x2f) := by
    rw [isSeps, List.takeWhile_append_dropWhile]
  rw [← components_dropSlashes]
  cases rest : path.dropWhile (· = 0x2f) with
  | nil =>
      rw [rest, List.append_nil] at split
      refine Or.inl ⟨rfl, front.length + seps.length, front ++ seps ++ 0 :: back, ?_⟩
      rw [split, strtok_skip start allSeps (Or.inl rfl), ← List.length_append, strtok]
      simp only [Option.getD_some, getElem?_behind, Option.bind_eq_bind, Option.bind_some, if_true]
  | cons char tail =>
      have notSlash : char ≠ 0x2f := by
        have stops := List.head?_dropWhile_not (fun char : UInt8 => decide (char = 0x2f)) path
        rw [rest] at stops
        simpa using stops
      rw [rest] at split
      have tailNoNul : 0 ∉ char :: tail := fun member =>
        noNul (split ▸ List.mem_append_right _ member)
      obtain ⟨name, front', path', back', isComponents, noNul', shorter, token, isName⟩ :=
        @strtok_first tail (front ++ seps) back (some (front.length + seps.length)) savePtr char
          tailNoNul notSlash (by rw [Option.getD_some, List.length_append])
      refine Or.inr ⟨name, _, front', path', back', isComponents, noNul', ?_, ?_, isName⟩
      · rw [split, List.length_append, List.length_cons]
        omega
      · have mem : front ++ path ++ 0 :: back = front ++ seps ++ char :: (tail ++ 0 :: back) := by
          rw [split]
          simp
        have stop : char ∉ [(0x2f : UInt8)] := fun member => notSlash (List.mem_singleton.mp member)
        rw [mem, strtok_skip start allSeps (Or.inr stop)]
        rw [← token]
        simp

end Path

namespace Ext2

variable {volume : Ext2} {calls : Ext2Calls} {malloced tmp inode parent : Nat → UInt32}
  {fuel : Nat} {path behind : List UInt8} {mode : UInt32} {run : Ext2Run} {walk : OpenWalk}

theorem malloc_free_heap (used : (run.malloc calls).1 ≠ 0) :
    (run.malloc calls).2.heap.erase (run.malloc calls).1 = run.heap := by
  unfold Ext2Run.malloc at used ⊢
  dsimp only at used ⊢
  rw [if_neg used]
  exact List.erase_cons_head _ _

theorem malloc_null_heap (null : (run.malloc calls).1 = 0) :
    (run.malloc calls).2.heap = run.heap := by
  unfold Ext2Run.malloc at null ⊢
  exact if_pos null

theorem readInode_heap {inodeIdx : UInt32} :
    (volume.readInode calls inodeIdx inode run).run.heap = run.heap := by
  unfold readInode
  dsimp only
  split
  next null => exact malloc_null_heap null
  next used =>
    split
    · exact malloc_free_heap used
    · exact malloc_free_heap used

theorem openSubLoop_heap {name : CString} {left i : Nat} {result : InodeResult}
    (ended : volume.openSubLoop calls parent name inode fuel left i run = some result) :
    result.run.heap = run.heap := by
  induction left generalizing i run with
  | zero =>
      cases ended
      rfl
  | succ left ih =>
      unfold openSubLoop at ended
      split at ended
      next =>
        dsimp only at ended
        split at ended
        · cases ended
          rfl
        · split at ended
          · cases ended
          next off _ =>
            have same := @readInode_heap volume calls inode (run.blockRead calls).2
              (entryInode (volume.loadBlock (parent (directBlock i))) off)
            split at ended
            · rw [← Option.some.inj ended]
              exact same
            · rw [← Option.some.inj ended]
              exact same
          · have same := ih ended
            exact same
      next =>
        cases ended
        rfl

theorem openSubInode_heap {name : CString} {result : InodeResult}
    (ended : volume.openSubInode calls parent name inode fuel run = some result) :
    result.run.heap = run.heap := by
  unfold openSubInode at ended
  dsimp only at ended
  split at ended
  next null =>
    cases ended
    exact malloc_null_heap null
  next used =>
    obtain ⟨found, looped, rfl⟩ := Option.map_eq_some_iff.mp ended
    have same := openSubLoop_heap looped
    dsimp only [Ext2Run.free]
    rw [same]
    exact malloc_free_heap used

theorem walkStep_spec {name : List UInt8} {after : OpenWalk}
    (stepped : volume.walkStep calls tmp fuel walk name = some after) :
    after.looked = walk.looked ++ [name] ∧ after.run.heap = walk.run.heap := by
  obtain ⟨found, looked, ended⟩ := Option.bind_eq_some_iff.mp stepped
  have same := openSubInode_heap looked
  dsimp only at ended
  split at ended
  · cases ended
    exact ⟨rfl, same⟩
  · cases ended
    exact ⟨rfl, same⟩

theorem foldNames_spec {names : List (List UInt8)} {after : OpenWalk}
    (folded : volume.foldNames calls tmp fuel names walk = some after) :
    (walk.looked ++ names.take 1) <+: after.looked ∧ after.run.heap = walk.run.heap := by
  induction names generalizing walk with
  | nil =>
      cases folded
      rw [List.take_nil, List.append_nil]
      exact ⟨List.prefix_refl _, rfl⟩
  | cons name names ih =>
      obtain ⟨next, stepped, ended⟩ := Option.bind_eq_some_iff.mp folded
      obtain ⟨looked, same⟩ := walkStep_spec stepped
      split at ended
      · cases ended
        rw [looked]
        exact ⟨List.prefix_refl _, same⟩
      · obtain ⟨later, sameLater⟩ := ih ended
        rw [looked] at later
        exact ⟨(List.prefix_append _ _).trans later, sameLater.trans same⟩

theorem openLoop_eq {front back : List UInt8} {str : Option Nat} {savePtr : Nat} (left : Nat)
    (noNul : 0 ∉ path) (start : str.getD savePtr = front.length) (enough : path.length < left) :
    ((strtok (front ++ path ++ 0 :: back) str [0x2f] savePtr).bind fun (str, savePtr, mem) =>
      volume.openLoop calls tmp fuel left str savePtr mem walk) =
      volume.foldNames calls tmp fuel (components path) walk := by
  induction left generalizing path front back str savePtr walk with
  | zero => exact absurd enough (Nat.not_lt_zero _)
  | succ left ih =>
      rcases @strtok_components path front back str savePtr noNul start with
        ⟨isEmpty, savePtr', mem', token⟩ |
        ⟨name, pos, front', path', back', isComponents, noNul', shorter, token, isName⟩
      · rw [token, isEmpty]
        rfl
      · rw [token, isComponents, Option.bind_some]
        simp only [openLoop, isName, foldNames, Option.bind_eq_bind, Option.bind_some]
        congr 1
        funext next
        split
        · rfl
        · exact ih noNul' rfl (by omega)

theorem openWalk_eq (noNul : 0 ∉ path) (slash : path.head? = some 0x2f → IsRootPath path) :
    volume.openWalk calls tmp fuel path behind walk =
      volume.foldNames calls tmp fuel (openNames path) walk := by
  unfold openWalk openNames
  by_cases isRoot : opensRoot path = true
  · have special : IsRootPath path := by
      rcases (opensRoot_iff noNul).mp isRoot with empty | isSlash
      · rw [empty]
        exact Or.inl fun char member => nomatch member
      · exact slash isSlash
    rw [if_pos isRoot, if_pos special]
    rfl
  · have notSpecial : ¬ IsRootPath path := by
      intro special
      apply isRoot
      apply (opensRoot_iff noNul).mpr
      rcases special with slashes | dot | dots
      · cases path with
        | nil => exact Or.inl rfl
        | cons char path =>
            rw [slashes char List.mem_cons_self]
            exact Or.inr rfl
      · rw [dot]
        exact Or.inr rfl
      · rw [dots]
        exact Or.inr rfl
    rw [if_neg isRoot, if_neg notSpecial]
    exact @openLoop_eq volume calls tmp fuel path walk [] behind (some 0) 0 (path.length + 1)
      noNul rfl (Nat.lt_succ_self _)

theorem openEnd_spec {addr : UInt32} {heap : List UInt32}
    (holdsRoot : walk.run.heap = addr :: heap) :
    let result := openEnd calls addr mode walk
    result.looked = walk.looked ∧
      (result.err = 0 ↔ 0 ≤ walk.idx ∧ (walk.run.malloc calls).1 ≠ 0) ∧
      (result.err = 0 → result.opened = some (extractFile walk.inode mode walk.idx)) ∧
      (result.err ≠ 0 → result.run.heap = heap) := by
  unfold openEnd
  by_cases failed : walk.idx < 0
  · rw [if_pos failed]
    have notZero : walk.idx ≠ 0 := Int.ne_of_lt failed
    refine ⟨rfl, ?_, fun succeeded => absurd succeeded notZero, fun _ => ?_⟩
    · exact iff_of_false notZero fun found => absurd failed (Int.not_lt.mpr found.1)
    · dsimp only [Ext2Run.free]
      rw [holdsRoot]
      exact List.erase_cons_head _ _
  · rw [if_neg failed]
    dsimp only
    by_cases null : (walk.run.malloc calls).1 = 0
    · rw [if_pos null]
      have notZero : (-1 : Int) ≠ 0 := by decide
      refine ⟨rfl, ?_, fun succeeded => absurd succeeded notZero, fun _ => ?_⟩
      · exact iff_of_false notZero fun found => found.2 null
      · dsimp only [Ext2Run.free]
        rw [malloc_null_heap null, holdsRoot]
        exact List.erase_cons_head _ _
    · rw [if_neg null]
      refine ⟨rfl, iff_of_true rfl ⟨Int.not_lt.mp failed, null⟩, fun _ => rfl, ?_⟩
      intro isError
      exact absurd rfl isError

theorem ext2Open_notLoaded (notLoaded : volume.rootLoaded calls malloced run = none) :
    ∃ result, volume.ext2Open calls malloced tmp fuel path behind mode run = some result ∧
      result.err ≠ 0 ∧ result.looked = [] ∧ result.run.heap = run.heap := by
  unfold rootLoaded at notLoaded
  unfold ext2Open
  dsimp only at notLoaded ⊢
  by_cases null : (run.malloc calls).1 = 0
  · rw [if_pos null]
    exact ⟨_, rfl, (by decide : (-1 : Int) ≠ 0), rfl, malloc_null_heap null⟩
  · rw [if_neg null]
    have failed : (volume.readInode calls rootInode malloced (run.malloc calls).2).idx ≠ 0 := by
      intro read
      rw [if_pos ⟨null, read⟩] at notLoaded
      cases notLoaded
    rw [if_pos failed]
    refine ⟨_, rfl, failed, rfl, ?_⟩
    rw [Ext2Run.free, readInode_heap]
    exact malloc_free_heap null

/-- With the root, `ext2_open` goes on with the walk, and has the memory for the root in use. -/
theorem rootLoaded_spec {addr : UInt32} {root : OpenWalk}
    (loaded : volume.rootLoaded calls malloced run = some (addr, root)) :
    root.looked = [] ∧ root.run.heap = addr :: run.heap ∧
      ∀ fuel, volume.ext2Open calls malloced tmp fuel path behind mode run =
        (volume.openWalk calls tmp fuel path behind root).map (openEnd calls addr mode) := by
  unfold rootLoaded at loaded
  dsimp only at loaded
  split at loaded
  next both =>
    cases loaded
    refine ⟨rfl, ?_, fun fuel => ?_⟩
    · dsimp only
      rw [readInode_heap]
      unfold Ext2Run.malloc at both ⊢
      exact if_neg both.1
    · unfold ext2Open
      dsimp only
      rw [if_neg both.1, if_neg (not_not.mpr both.2)]
  next => cases loaded

theorem isRootPath_of_slash {addr : UInt32} {root : OpenWalk} (noNul : 0 ∉ path)
    (loaded : volume.rootLoaded calls malloced run = some (addr, root))
    (isSlash : path.head? = some 0x2f)
    (resolves : ∀ fuel result,
      volume.ext2Open calls malloced tmp fuel path behind mode run = some result →
      result.ByComponents volume calls malloced tmp fuel path mode run) :
    IsRootPath path := by
  obtain ⟨noNames, holdsRoot, goesOn⟩ := rootLoaded_spec loaded
  have isRoot : opensRoot path = true := (opensRoot_iff noNul).mpr (Or.inr isSlash)
  have returns := goesOn 0
  unfold openWalk at returns
  rw [if_pos isRoot, Option.map_some] at returns
  obtain ⟨walk, folded, looked, -, -⟩ := (resolves 0 _ returns).loaded addr root loaded
  rw [(@openEnd_spec calls mode root addr run.heap holdsRoot).1, noNames] at looked
  have first := (foldNames_spec folded).1
  rw [noNames, List.nil_append, ← looked, List.prefix_nil] at first
  by_contra notSpecial
  apply notSpecial
  apply Or.inl
  apply components_eq_nil
  unfold openNames at first
  rw [if_neg notSpecial] at first
  simpa using first

theorem byComponents_of_within {addr : UInt32} {root : OpenWalk} (noNul : 0 ∉ path)
    (loaded : volume.rootLoaded calls malloced run = some (addr, root))
    (within : OpensWithin volume calls tmp path root) {result : OpenResult}
    (returns : volume.ext2Open calls malloced tmp fuel path behind mode run = some result) :
    result.ByComponents volume calls malloced tmp fuel path mode run := by
  obtain ⟨-, holdsRoot, goesOn⟩ := rootLoaded_spec loaded
  rw [goesOn, openWalk_eq noNul within.slash] at returns
  obtain ⟨walk, folded, rfl⟩ := Option.map_eq_some_iff.mp returns
  have holdsWalk := (foldNames_spec folded).2.trans holdsRoot
  obtain ⟨looked, succeeds, opened, released⟩ :=
    @openEnd_spec calls mode walk addr run.heap holdsWalk
  constructor
  · intro notLoaded
    rw [loaded] at notLoaded
    cases notLoaded
  · intro otherAddr otherRoot again
    cases loaded.symm.trans again
    exact ⟨walk, folded, looked, succeeds, opened⟩
  · exact released
  · rw [looked]
    exact within.inside fuel walk folded

theorem byComponents_of_notLoaded (notLoaded : volume.rootLoaded calls malloced run = none)
    {result : OpenResult}
    (returns : volume.ext2Open calls malloced tmp fuel path behind mode run = some result) :
    result.ByComponents volume calls malloced tmp fuel path mode run := by
  obtain ⟨other, again, failed, noNames, released⟩ := @ext2Open_notLoaded volume calls
    malloced tmp fuel path behind mode run notLoaded
  cases again.symm.trans returns
  constructor
  · exact fun _ => ⟨failed, noNames⟩
  · intro addr root isLoaded
    rw [notLoaded] at isLoaded
    cases isLoaded
  · exact fun _ => released
  · rw [noNames]
    exact fun name member => nomatch member

/-- A path is resolved by components exactly when the root cannot be loaded or the path is within
what `ext2_open` can do. -/
theorem opensByComponents_iff (volume : Ext2) (calls : Ext2Calls) (malloced tmp : Nat → UInt32)
    (path : CText) (behind : List UInt8) (mode : UInt32) (run : Ext2Run) :
    OpensByComponents volume calls malloced tmp path.chars behind mode run ↔
      ∀ addr root, volume.rootLoaded calls malloced run = some (addr, root) →
        OpensWithin volume calls tmp path.chars root := by
  constructor
  · intro right addr root loaded
    have slash : path.chars.head? = some 0x2f → IsRootPath path.chars := fun isSlash =>
      isRootPath_of_slash path.noNul loaded isSlash right.resolves
    obtain ⟨-, holdsRoot, goesOn⟩ := rootLoaded_spec loaded
    refine ⟨?_, slash, ?_⟩
    · apply right.room
      rw [loaded]
      rfl
    · intro fuel walk folded
      have returns := goesOn fuel
      rw [openWalk_eq path.noNul slash, folded, Option.map_some] at returns
      have inside := (right.resolves fuel _ returns).inside
      have holdsWalk := (foldNames_spec folded).2.trans holdsRoot
      rw [(@openEnd_spec calls mode walk addr run.heap holdsWalk).1] at inside
      exact inside
  · intro within
    constructor
    · intro isLoaded
      obtain ⟨⟨addr, root⟩, loaded⟩ := Option.isSome_iff_exists.mp isLoaded
      exact (within addr root loaded).room
    · intro fuel diverges
      cases loaded : volume.rootLoaded calls malloced run with
      | none =>
          obtain ⟨result, returns, -⟩ := @ext2Open_notLoaded volume calls malloced tmp fuel
            path.chars behind mode run loaded
          rw [returns] at diverges
          cases diverges
      | some pair =>
          obtain ⟨-, -, goesOn⟩ := rootLoaded_spec loaded
          rw [goesOn, openWalk_eq path.noNul (within pair.1 pair.2 loaded).slash] at diverges
          exact ⟨pair.1, pair.2, rfl, Option.map_eq_none_iff.mp diverges⟩
    · intro fuel result returns
      cases loaded : volume.rootLoaded calls malloced run with
      | none => exact byComponents_of_notLoaded loaded returns
      | some pair =>
          exact byComponents_of_within path.noNul loaded (within pair.1 pair.2 loaded) returns

def emptyRoot : Ext2 where
  superBlock := ⟨16, 64, 55, 1, 0, 8192, 16, 128⟩
  blockGroups := fun _ => ⟨3, 4, 5, 55⟩
  disk := fun _ => 0
  heap := fun _ => 0
  writes := []

/-- Without a file in its root, `/a` opens the root. -/
theorem opensByComponents_slash :
    ¬ OpensByComponents emptyRoot ⟨fun made => UInt32.ofNat (made + 1), fun _ => 1⟩ (fun _ => 0)
      (fun _ => 0) [0x2f, 0x61] [] 0 ⟨[], 0⟩ := by
  intro right
  have special : IsRootPath [0x2f, 0x61] :=
    isRootPath_of_slash (by decide) rfl rfl right.resolves
  exact absurd special (by decide)

end Ext2

end CleanOS.Fs
