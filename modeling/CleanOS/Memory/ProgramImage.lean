import CleanOS.Memory.LoadRun
import Mathlib.Data.List.Pairwise

/-!
# The image of a program

What `load_elf` leaves in the address space: when every byte of every segment is the one of the
file, or zero behind it.
-/

namespace CleanOS.Memory

open CleanOS.Common CleanOS.Lib

namespace Loading

variable {state next : Loading} {dirs : List Nat}

section Log

variable {file : Nat → UInt8} {phdr : Phdr} {segs front back : List Phdr}
  {entry : Nat × UInt8} {x : Nat}

theorem mem_copyLog (below : phdr.pVaddr + phdr.pFilesz ≤ 2 ^ 32) :
    entry ∈ copyLog file phdr ↔ phdr.InFile entry.1 ∧ entry.2 = phdr.byteAt file entry.1 := by
  simp only [copyLog, List.mem_map, List.mem_range, Phdr.InFile, Phdr.byteAt]
  constructor
  · rintro ⟨j, small, rfl⟩
    have address : (phdr.pVaddr + j) % 2 ^ 32 = phdr.pVaddr + j := Nat.mod_eq_of_lt (by omega)
    rw [address, Nat.add_sub_cancel_left]
    exact ⟨⟨by omega, by omega⟩, rfl⟩
  · rintro ⟨⟨lower, upper⟩, value⟩
    refine ⟨entry.1 - phdr.pVaddr, by omega, ?_⟩
    rw [← value, Nat.add_sub_cancel' lower, Nat.mod_eq_of_lt (by omega)]

theorem mem_clearLog : entry ∈ clearLog phdr ↔ phdr.Clears entry.1 ∧ entry.2 = 0 := by
  simp only [clearLog, List.mem_map, List.mem_range, Phdr.Clears]
  constructor
  · rintro ⟨k, small, rfl⟩
    exact ⟨⟨k, small, rfl⟩, rfl⟩
  · rintro ⟨⟨k, small, same⟩, value⟩
    exact ⟨k, small, Prod.ext same.symm value.symm⟩

def InAddresses (segs : List Phdr) : Prop :=
  ∀ phdr ∈ segs, phdr.pVaddr + phdr.pFilesz ≤ 2 ^ 32

theorem mem_segmentsLog (below : InAddresses segs) : entry ∈ segmentsLog file segs ↔
    ∃ phdr ∈ segs, (phdr.InFile entry.1 ∧ entry.2 = phdr.byteAt file entry.1) ∨
      (phdr.Clears entry.1 ∧ entry.2 = 0) := by
  simp only [segmentsLog, List.mem_flatMap, List.mem_append, mem_clearLog]
  constructor
  · rintro ⟨phdr, member, stores⟩
    rw [mem_copyLog (below phdr member)] at stores
    exact ⟨phdr, member, stores⟩
  · rintro ⟨phdr, member, stores⟩
    rw [← mem_copyLog (below phdr member)] at stores
    exact ⟨phdr, member, stores⟩

theorem lastStore_behind (below : InAddresses segs) (behind : ∀ phdr ∈ segs, ¬ phdr.InFile x) :
    ((∃ phdr ∈ segs, phdr.Clears x) ∧ lastStore (segmentsLog file segs) x = some 0) ∨
      ((∀ phdr ∈ segs, ¬ phdr.Clears x) ∧ lastStore (segmentsLog file segs) x = none) := by
  by_cases cleared : ∃ phdr ∈ segs, phdr.Clears x
  · refine .inl ⟨cleared, lastStore_eq_some ?_ ?_⟩
    · obtain ⟨phdr, member, clears⟩ := cleared
      exact ⟨(x, 0), (mem_segmentsLog below).mpr ⟨phdr, member, .inr ⟨clears, rfl⟩⟩, rfl⟩
    · rintro ⟨_, value⟩ member rfl
      obtain ⟨phdr, inside, ⟨inFile, -⟩ | ⟨-, zero⟩⟩ := (mem_segmentsLog below).mp member
      · exact absurd inFile (behind phdr inside)
      · exact zero
  · refine .inr ⟨fun phdr member clears => cleared ⟨phdr, member, clears⟩,
      lastStore_eq_none ?_⟩
    rintro ⟨_, value⟩ member rfl
    obtain ⟨phdr, inside, ⟨inFile, -⟩ | ⟨clears, -⟩⟩ := (mem_segmentsLog below).mp member
    · exact behind phdr inside inFile
    · exact cleared ⟨phdr, inside, clears⟩

theorem lastStore_inFile (below : InAddresses (front ++ phdr :: back)) (inFile : phdr.InFile x)
    (apart : ∀ other ∈ back, ¬ other.InFile x) :
    ((phdr.Clears x ∨ ∃ other ∈ back, other.Clears x) ∧
        lastStore (segmentsLog file (front ++ phdr :: back)) x = some 0) ∨
      ((¬ phdr.Clears x ∧ ∀ other ∈ back, ¬ other.Clears x) ∧
        lastStore (segmentsLog file (front ++ phdr :: back)) x = some (phdr.byteAt file x)) := by
  have belowBack : InAddresses back := fun other member =>
    below other (List.mem_append_right _ (List.mem_cons_of_mem _ member))
  have own := below phdr (List.mem_append_right _ List.mem_cons_self)
  have log : segmentsLog file (front ++ phdr :: back) =
      segmentsLog file front ++ (copyLog file phdr ++ clearLog phdr ++ segmentsLog file back) := by
    simp only [segmentsLog, List.flatMap_append, List.flatMap_cons]
  have copied : lastStore (copyLog file phdr) x = some (phdr.byteAt file x) := by
    apply lastStore_eq_some
    · exact ⟨(x, phdr.byteAt file x), (mem_copyLog own).mpr ⟨inFile, rfl⟩, rfl⟩
    · rintro ⟨_, value⟩ member rfl
      exact ((mem_copyLog own).mp member).2
  rw [log, lastStore_append, lastStore_append, lastStore_append, copied]
  rcases @lastStore_behind file back x belowBack apart with ⟨later, last⟩ | ⟨notLater, last⟩
  · refine .inl ⟨.inr later, ?_⟩
    rw [last]
    rfl
  · rw [last]
    by_cases clears : phdr.Clears x
    · refine .inl ⟨.inl clears, ?_⟩
      have cleared : lastStore (clearLog phdr) x = some 0 := by
        apply lastStore_eq_some
        · exact ⟨(x, 0), mem_clearLog.mpr ⟨clears, rfl⟩, rfl⟩
        · rintro ⟨_, value⟩ member rfl
          exact (mem_clearLog.mp member).2
      rw [cleared]
      rfl
    · refine .inr ⟨⟨clears, notLater⟩, ?_⟩
      have cleared : lastStore (clearLog phdr) x = none := by
        apply lastStore_eq_none
        rintro ⟨_, value⟩ member rfl
        exact clears (mem_clearLog.mp member).1
      rw [cleared]
      rfl

end Log

theorem processMmap_bytes {kernelPageDir addr length vaddr : Nat} (bytes : Nat → UInt8)
    (returns : state.processMmap kernelPageDir addr length = some (vaddr, next)) :
    processMmap { state with bytes := bytes } kernelPageDir addr length =
      some (vaddr, { next with bytes := bytes }) := by
  rw [processMmap] at returns ⊢
  split at returns
  next positive =>
    rw [if_pos positive]
    split at returns
    next user =>
      obtain ⟨⟨result, space, mem⟩, mallocEq, returns⟩ := Option.bind_eq_some_iff.mp returns
      rw [if_pos user, mallocEq]
      simp only [Option.bind_eq_bind, Option.bind_some] at returns ⊢
      split at returns
      next refused =>
        cases returns
        exact if_pos refused
      next given =>
        cases returns
        exact if_neg given
    next kernel =>
      obtain ⟨⟨result, owner, mem⟩, requestEq, returns⟩ := Option.bind_eq_some_iff.mp returns
      rw [if_neg kernel, requestEq]
      simp only [Option.bind_eq_bind, Option.bind_some] at returns ⊢
      split at returns
      next refused =>
        cases returns
        exact if_pos refused
      next given =>
        cases returns
        exact if_neg given
  next null =>
    rw [if_neg null]
    obtain ⟨⟨result, space, mem⟩, mallocEq, returns⟩ := Option.bind_eq_some_iff.mp returns
    rw [mallocEq]
    simp only [Option.bind_eq_bind, Option.bind_some] at returns ⊢
    split at returns
    next refused =>
      cases returns
      exact if_pos refused
    next given =>
      cases returns
      exact if_neg given

theorem store_bytes {vaddr : Nat} {value : UInt8} (bytes : Nat → UInt8)
    (returns : state.store vaddr value = some next) :
    ∃ later, store { state with bytes := bytes } vaddr value =
      some { next with bytes := later } := by
  have paddr : Loading.paddr { state with bytes := bytes } vaddr = state.paddr vaddr := rfl
  rw [store] at returns ⊢
  split at returns
  next below =>
    cases returns
    exact ⟨bytes, if_pos below⟩
  next above =>
    obtain ⟨target, found, returns⟩ := Option.bind_eq_some_iff.mp returns
    rw [if_neg above, paddr, found]
    split at returns
    next inFrames =>
      cases returns
      exact ⟨Function.update bytes target value, if_pos inFrames⟩
    next outside =>
      cases returns
      exact ⟨bytes, if_neg outside⟩

theorem storeAll_bytes {log : List (Nat × UInt8)} (bytes : Nat → UInt8)
    (returns : storeAll log state = some next) :
    ∃ later, storeAll log { state with bytes := bytes } = some { next with bytes := later } := by
  induction log generalizing state bytes with
  | nil =>
      cases returns
      exact ⟨bytes, rfl⟩
  | cons first rest ih =>
      obtain ⟨vaddr, value⟩ := first
      obtain ⟨mid, storeEq, returns⟩ := Option.bind_eq_some_iff.mp returns
      obtain ⟨stored, storedEq⟩ := store_bytes bytes storeEq
      obtain ⟨later, laterEq⟩ := ih stored returns
      refine ⟨later, ?_⟩
      rw [storeAll, storedEq]
      exact laterEq

theorem loadSegments_bytes {kernelPageDir : Nat} {file : Nat → UInt8} {segs : List Phdr}
    (bytes : Nat → UInt8)
    (returns : loadSegments kernelPageDir file segs state = some (true, next)) :
    ∃ later, loadSegments kernelPageDir file segs { state with bytes := bytes } =
      some (true, { next with bytes := later }) := by
  induction segs generalizing state bytes with
  | nil =>
      cases returns
      exact ⟨bytes, rfl⟩
  | cons phdr rest ih =>
      obtain ⟨⟨vaddr, mapped⟩, mmapEq, returns⟩ := Option.bind_eq_some_iff.mp returns
      have mapEq := processMmap_bytes bytes mmapEq
      simp only at returns
      by_cases refused : vaddr = 0
      · rw [if_pos refused] at returns
        cases returns
      · rw [if_neg refused] at returns
        obtain ⟨copied, copyEq, returns⟩ := Option.bind_eq_some_iff.mp returns
        obtain ⟨cleared, clearEq, returns⟩ := Option.bind_eq_some_iff.mp returns
        obtain ⟨copiedBytes, copiedEq⟩ := storeAll_bytes bytes copyEq
        obtain ⟨clearedBytes, clearedEq⟩ := storeAll_bytes copiedBytes clearEq
        obtain ⟨later, laterEq⟩ := ih clearedBytes returns
        refine ⟨later, ?_⟩
        simp only [loadSegments, mapEq, Option.bind_eq_bind, Option.bind_some, if_neg refused,
          copiedEq, clearedEq, laterEq]

theorem loadElf_loadSegments {kernelPageDir entry : Nat} {file : Nat → UInt8}
    (elf : ElfFile file state.space.vir.start)
    (returns : loadElf kernelPageDir file state = some (entry, next)) (nonzero : entry ≠ 0) :
    loadSegments kernelPageDir file (segments file) state = some (true, next) ∧
      hasElfMagic file ∧ entry = eEntry file := by
  rw [loadElf] at returns
  split at returns
  next noMagic =>
    cases returns
    exact absurd rfl nonzero
  next magic =>
    obtain ⟨⟨loaded, last⟩, phdrsEq, returns⟩ := Option.bind_eq_some_iff.mp returns
    rw [loadPhdrs_eq (by rw [← List.range_eq_range']; exact elf.filesz),
      ← List.range_eq_range'] at phdrsEq
    cases loaded with
    | false =>
        cases returns
        exact absurd rfl nonzero
    | true =>
        cases returns
        exact ⟨phdrsEq, not_not.mp magic, rfl⟩

theorem loadElf_bytes {kernelPageDir entry : Nat} {file : Nat → UInt8}
    (elf : ElfFile file state.space.vir.start)
    (returns : loadElf kernelPageDir file state = some (entry, next)) (nonzero : entry ≠ 0)
    (bytes : Nat → UInt8) :
    ∃ later, loadElf kernelPageDir file { state with bytes := bytes } =
      some (entry, { next with bytes := later }) := by
  obtain ⟨segmentsEq, magic, isEntry⟩ := loadElf_loadSegments elf returns nonzero
  obtain ⟨later, laterEq⟩ := loadSegments_bytes bytes segmentsEq
  refine ⟨later, ?_⟩
  rw [loadElf, if_neg (not_not.mpr magic),
    loadPhdrs_eq (by rw [← List.range_eq_range']; exact elf.filesz), ← List.range_eq_range']
  rw [segments] at laterEq
  rw [laterEq, isEntry]
  rfl

namespace Held

theorem inFrames (held : state.Held) (shape : state.Shape dirs) {x target : Nat}
    (user : UserPage state.mem (x / memPageSize)) (found : state.paddr x = some target) :
    state.InFrames target := by
  rw [shape.paddr_eq user, Option.map_eq_some_iff] at found
  obtain ⟨paddr, isFrame, rfl⟩ := found
  obtain ⟨frame, inside, -, rfl⟩ := held.mapped user isFrame
  simp only [InFrames, AddrAlloc.addr, memPageSize]
  omega

theorem paddr_inj (held : state.Held) (shape : state.Shape dirs) {x y target : Nat}
    (user : UserPage state.mem (x / memPageSize)) (user' : UserPage state.mem (y / memPageSize))
    (found : state.paddr x = some target) (found' : state.paddr y = some target) : x = y := by
  rw [shape.paddr_eq user, Option.map_eq_some_iff] at found
  rw [shape.paddr_eq user', Option.map_eq_some_iff] at found'
  obtain ⟨paddr, isFrame, rfl⟩ := found
  obtain ⟨paddr', isFrame', same⟩ := found'
  obtain ⟨frame, -, -, rfl⟩ := held.mapped user isFrame
  obtain ⟨frame', -, -, rfl⟩ := held.mapped user' isFrame'
  have equal : frame = frame' ∧ x % memPageSize = y % memPageSize := by
    simp only [AddrAlloc.addr, memPageSize] at same ⊢
    omega
  obtain ⟨rfl, offset⟩ := equal
  have page := held.single user user' isFrame isFrame'
  rw [← Nat.div_add_mod x memPageSize, ← Nat.div_add_mod y memPageSize, page, offset]

end Held

theorem place_eq_some {x target : Nat} : state.place x = some target ↔
    state.space.vir.start ≤ x ∧ state.paddr x = some target ∧ state.InFrames target := by
  rw [place]
  split
  next below =>
    refine iff_of_false (by simp) ?_
    rintro ⟨above, -⟩
    omega
  next above =>
    rw [Option.filter_eq_some_iff, decide_eq_true_eq]
    exact ⟨fun found => ⟨Nat.not_lt.mp above, found⟩, fun found => found.2⟩

theorem Shape.userPage_addr (shape : state.Shape dirs) {x : Nat}
    (above : state.space.vir.start ≤ x) (below : x < 2 ^ 32) :
    UserPage state.mem (x / memPageSize) := by
  apply shape.userPage
  · exact Nat.div_le_div_right above
  · simp only [memPageSize]
    omega

section Image

variable {file : Nat → UInt8} {segs : List Phdr}

theorem Loaded.byte (loaded : Loaded file segs dirs state next) (held : next.Held) {x target : Nat}
    (above : state.space.vir.start ≤ x) (below : x < 2 ^ 32)
    (found : next.paddr x = some target) :
    next.bytes target = (lastStore (segmentsLog file segs) x).getD (state.bytes target) := by
  have user := loaded.shape.userPage_addr (loaded.startPage ▸ above) below
  have isPlace : next.place x = some target :=
    place_eq_some.mpr ⟨loaded.startPage ▸ above, found, held.inFrames loaded.shape user found⟩
  rw [loaded.bytes]
  apply applyStores_at isPlace
  intro entry member same
  obtain ⟨above', found', -⟩ := place_eq_some.mp same
  have user' := loaded.shape.userPage_addr above' (segmentsLog_lt entry member)
  exact held.paddr_inj loaded.shape user' user found' found

end Image

theorem header_lt {file : Nat → UInt8} {phdr : Phdr} (member : phdr ∈ segments file) :
    phdr.pVaddr < 2 ^ 32 := by
  obtain ⟨isHeader, -⟩ := List.mem_filter.mp member
  obtain ⟨i, -, rfl⟩ := List.mem_map.mp isHeader
  exact elfWord_lt file _

theorem loadElf_loaded {kernelPageDir entry : Nat} {file : Nat → UInt8}
    (shape : state.Shape dirs) (elf : ElfFile file state.space.vir.start)
    (returns : loadElf kernelPageDir file state = some (entry, next)) (nonzero : entry ≠ 0) :
    Loaded file (segments file) dirs state next := by
  obtain ⟨segmentsEq, -, -⟩ := loadElf_loadSegments elf returns nonzero
  apply loadSegments_loaded shape ?_ segmentsEq
  intro phdr member
  exact ⟨elf.above phdr member, header_lt member, elf.below phdr member⟩

theorem inAddresses_segments {file : Nat → UInt8} {start : Nat} (elf : ElfFile file start) :
    InAddresses (segments file) := by
  intro phdr member
  have below := elf.below phdr member
  have filesz := elf.filesz phdr member
  omega

section Guard

variable {kernelPageDir entry : Nat} {file : Nat → UInt8} {x : Nat}

theorem holds_inside (elf : ElfFile file state.space.vir.start) {phdr : Phdr}
    (member : phdr ∈ segments file) (holds : phdr.Holds x) :
    state.space.vir.start ≤ x ∧ x < 2 ^ 32 :=
  ⟨(elf.above phdr member).trans holds.1, holds.2.trans_le (elf.below phdr member)⟩

theorem holds_of_inFile (elf : ElfFile file state.space.vir.start) {phdr : Phdr}
    (member : phdr ∈ segments file) (inFile : phdr.InFile x) : phdr.Holds x :=
  ⟨inFile.1, inFile.2.trans_le (Nat.add_le_add_left (elf.filesz phdr member) _)⟩

theorem holds_unique (elf : ElfFile file state.space.vir.start) {phdr other : Phdr}
    {front back : List Phdr} (split : segments file = front ++ phdr :: back)
    (isOther : other ∈ back) (holds : phdr.Holds x) : ¬ other.Holds x := by
  have apart := elf.apart
  rw [split, List.pairwise_append, List.pairwise_cons] at apart
  exact apart.2.1.1 other isOther x holds

theorem behind_of_holds (elf : ElfFile file state.space.vir.start) {phdr : Phdr}
    (member : phdr ∈ segments file) (holds : phdr.Holds x) (behind : ¬ phdr.InFile x) :
    ∀ other ∈ segments file, ¬ other.InFile x := by
  intro other isOther inFile
  have otherHolds := holds_of_inFile elf isOther inFile
  by_cases same : other = phdr
  · exact behind (same ▸ inFile)
  · have symmetric : Std.Symm fun first second : Phdr => ∀ x, first.Holds x → ¬ second.Holds x :=
      ⟨fun _ _ apart x one two => apart x two one⟩
    exact elf.apart.forall isOther member same x otherHolds holds

theorem right_of_guard (shape : state.Shape dirs) (held : state.Held)
    (elf : ElfFile file state.space.vir.start) (fresh : state.strayed = false)
    (guard : LoadGuard file state.mem state.space)
    (returns : loadElf kernelPageDir file state = some (entry, next)) (nonzero : entry ≠ 0) :
    ImageRight file state next := by
  have loaded := loadElf_loaded shape elf returns nonzero
  obtain ⟨nextHeld, -⟩ := loaded.held held guard.frames
  have below := inAddresses_segments elf
  -- What is cleared lies on a page of a segment, and so in the user area.
  have clears_user : ∀ phdr ∈ segments file, ∀ x, phdr.Clears x → state.space.vir.start ≤ x := by
    intro phdr member x clears
    obtain ⟨other, isOther, y, holds, page⟩ := guard.inside phdr member x clears
    have above := (holds_inside elf isOther holds).1
    have start := shape.start
    simp only [memPageSize] at *
    omega
  have log_user : ∀ stored ∈ segmentsLog file (segments file),
      state.space.vir.start ≤ stored.1 := by
    intro stored member
    obtain ⟨phdr, inside, ⟨inFile, -⟩ | ⟨clears, -⟩⟩ := (mem_segmentsLog below).mp member
    · exact (holds_inside elf inside (holds_of_inFile elf inside inFile)).1
    · exact clears_user phdr inside _ clears
  refine ⟨?_, ?_, ?_⟩
  · intro phdr member x holds
    obtain ⟨above, small⟩ := holds_inside elf member holds
    have load_eq : ∀ {value : UInt8}, lastStore (segmentsLog file (segments file)) x = some value →
        (next.paddr x).isSome → next.load x = some value := by
      intro value last present
      obtain ⟨target, found⟩ := Option.isSome_iff_exists.mp present
      rw [load, found, Option.map_some, loaded.byte nextHeld above small found, last]
      rfl
    by_cases inFile : phdr.InFile x
    · rw [if_pos inFile]
      have present := loaded.present (x, phdr.byteAt file x)
        ((mem_segmentsLog below).mpr ⟨phdr, member, .inl ⟨inFile, rfl⟩⟩) above
      obtain ⟨front, back, split⟩ := List.append_of_mem member
      have kept := guard.keptLater
      rw [split, List.pairwise_append, List.pairwise_cons] at kept
      have last := @lastStore_inFile file phdr front back x (split ▸ below) inFile
        (fun other isOther otherIn => holds_unique elf split isOther holds
          (holds_of_inFile elf (split ▸ List.mem_append_right _ (List.mem_cons_of_mem _ isOther))
            otherIn))
      rw [← split] at last
      rcases last with ⟨cleared, last⟩ | ⟨-, last⟩
      · have zero : phdr.byteAt file x = 0 := by
          rcases cleared with own | ⟨other, isOther, clears⟩
          · exact guard.kept phdr member x inFile own
          · exact kept.2.1.1 other isOther x inFile clears
        rw [zero]
        exact load_eq last present
      · exact load_eq last present
    · rw [if_neg inFile]
      obtain ⟨other, isOther, clears⟩ := guard.cleared phdr member x holds inFile
      have present := loaded.present (x, 0)
        ((mem_segmentsLog below).mpr ⟨other, isOther, .inr ⟨clears, rfl⟩⟩) above
      rcases @lastStore_behind file _ x below (behind_of_holds elf member holds inFile) with
        ⟨-, last⟩ | ⟨never, -⟩
      · exact load_eq last present
      · exact absurd clears (never other isOther)
  · intro target outside
    rw [loaded.bytes]
    apply applyStores_apart
    intro stored member same
    obtain ⟨-, found, -⟩ := place_eq_some.mp same
    obtain ⟨phdr, inside, ⟨inFile, -⟩ | ⟨clears, -⟩⟩ := (mem_segmentsLog below).mp member
    · exact outside phdr inside stored.1 stored.1 (holds_of_inFile elf inside inFile) rfl found
    · obtain ⟨other, isOther, y, holds, page⟩ := guard.inside phdr inside _ clears
      exact outside other isOther y stored.1 holds page found
  · rw [fresh, ← Bool.not_eq_true, loaded.strayed]
    rintro (already | ⟨phdr, member, positive, past⟩ | ⟨stored, member, under⟩)
    · rw [fresh] at already
      cases already
    · have inside := guard.area phdr member positive
      rw [startPage] at past
      omega
    · have user := log_user stored member
      omega

theorem pairwise_of_splits {α : Type*} {relation : α → α → Prop} {l : List α}
    (splits : ∀ front head back, l = front ++ head :: back → ∀ other ∈ back,
      relation head other) : l.Pairwise relation := by
  induction l with
  | nil => exact .nil
  | cons first rest ih =>
      refine .cons (splits [] first rest rfl) (ih ?_)
      intro front head back split
      exact splits (first :: front) head back (by rw [split]; rfl)

theorem other_value (value : UInt8) : ∃ other : UInt8, other ≠ value := by
  by_cases zero : value = 0
  · exact ⟨1, by rw [zero]; decide⟩
  · exact ⟨0, fun same => zero same.symm⟩

def RightFromAny (file : Nat → UInt8) (dirs : List Nat) (state next : Loading) : Prop :=
  ∀ bytes : Nat → UInt8, ∃ later,
    ImageRight file { state with bytes := bytes } { next with bytes := later } ∧
      Loaded file (segments file) dirs { state with bytes := bytes } { next with bytes := later }

theorem right_from (shape : state.Shape dirs) (elf : ElfFile file state.space.vir.start)
    (fresh : state.strayed = false)
    (right : LoadsRight kernelPageDir file state.mem state.space)
    (returns : loadElf kernelPageDir file state = some (entry, next)) (nonzero : entry ≠ 0) :
    RightFromAny file dirs state next := by
  intro bytes
  obtain ⟨later, again⟩ := loadElf_bytes elf returns nonzero bytes
  refine ⟨later, ?_, ?_⟩
  · have run := again
    rw [show ({ state with bytes := bytes } : Loading) = ⟨state.mem, state.space, bytes, false⟩ by
      rw [← fresh]] at run ⊢
    exact right bytes entry _ run nonzero
  · have other : Shape { state with bytes := bytes } dirs :=
      ⟨shape.tables, shape.isDir, shape.frames, shape.area, shape.areaStart, shape.positive,
        shape.framesEnd⟩
    exact loadElf_loaded other elf again nonzero

namespace RightFromAny

theorem enough (fromAny : RightFromAny file dirs state next) (shape : state.Shape dirs)
    (held : state.Held) (elf : ElfFile file state.space.vir.start)
    (loaded : Loaded file (segments file) dirs state next) :
    ((segments file).map Phdr.pageCount).sum ≤ state.mem.userPhy.clearPages.card := by
  by_contra few
  obtain ⟨phdr, member, k, small, user, isTop⟩ := loaded.missing held (Nat.not_le.mp few)
  have above := elf.above phdr member
  have stop := elf.below phdr member
  have bounds := shape.pageCount_bounds ⟨above, header_lt member, stop⟩
  obtain ⟨x, holds, page⟩ : ∃ x, phdr.Holds x ∧
      x / memPageSize = phdr.pVaddr / memPageSize + k := by
    refine ⟨max phdr.pVaddr ((phdr.pVaddr / memPageSize + k) * memPageSize), ?_, ?_⟩
    · simp only [Phdr.Holds, memPageSize] at *
      omega
    · simp only [memPageSize] at *
      omega
  have found : next.paddr x = some (topPage + x % memPageSize) := by
    rw [loaded.shape.paddr_eq (page ▸ user), page, isTop]
    rfl
  have kept : ∀ bytes : Nat → UInt8, bytes (topPage + x % memPageSize) =
      if phdr.InFile x then phdr.byteAt file x else 0 := by
    intro bytes
    obtain ⟨later, image, run⟩ := fromAny bytes
    have holdsByte := image.contents phdr member x holds
    rw [load, show Loading.paddr { next with bytes := later } x = next.paddr x from rfl, found,
      Option.map_some, Option.some.injEq, run.bytes, applyStores_apart] at holdsByte
    · exact holdsByte
    · intro stored _ same
      obtain ⟨-, -, inFrames⟩ := place_eq_some.mp same
      have framesEnd := run.shape.framesEnd
      have upper := inFrames.2
      omega
  obtain ⟨other, different⟩ := other_value (if phdr.InFile x then phdr.byteAt file x else 0)
  exact different (kept fun _ => other)

theorem value (fromAny : RightFromAny file dirs state next)
    (elf : ElfFile file state.space.vir.start) (held : next.Held) {phdr : Phdr}
    (member : phdr ∈ segments file) (holds : phdr.Holds x) :
    ∃ target, ∀ bytes : Nat → UInt8,
      (lastStore (segmentsLog file (segments file)) x).getD (bytes target) =
        if phdr.InFile x then phdr.byteAt file x else 0 := by
  obtain ⟨above, small⟩ := holds_inside elf member holds
  obtain ⟨_, image, -⟩ := fromAny state.bytes
  obtain ⟨target, found, -⟩ := Option.map_eq_some_iff.mp (image.contents phdr member x holds)
  refine ⟨target, ?_⟩
  intro bytes
  obtain ⟨later, image, run⟩ := fromAny bytes
  have holdsByte := image.contents phdr member x holds
  rw [load, show Loading.paddr { next with bytes := later } x = next.paddr x from rfl,
    show next.paddr x = some target from found, Option.map_some, Option.some.injEq,
    run.byte ⟨held.mapped, held.single⟩ above small found] at holdsByte
  exact holdsByte

theorem cleared (fromAny : RightFromAny file dirs state next)
    (elf : ElfFile file state.space.vir.start) (held : next.Held) {phdr : Phdr}
    (member : phdr ∈ segments file) (holds : phdr.Holds x) (behind : ¬ phdr.InFile x) :
    ∃ other ∈ segments file, other.Clears x := by
  obtain ⟨target, value⟩ := fromAny.value elf held member holds
  have isZero := value fun _ => 1
  rw [if_neg behind] at isZero
  rcases @lastStore_behind file _ x (inAddresses_segments elf)
    (behind_of_holds elf member holds behind) with ⟨cleared, -⟩ | ⟨-, last⟩
  · exact cleared
  · rw [last] at isZero
    exact absurd isZero (by decide)

theorem zero (fromAny : RightFromAny file dirs state next)
    (elf : ElfFile file state.space.vir.start) (held : next.Held) {front back : List Phdr}
    {phdr : Phdr} (split : segments file = front ++ phdr :: back) (inFile : phdr.InFile x)
    (clears : phdr.Clears x ∨ ∃ other ∈ back, other.Clears x) : phdr.byteAt file x = 0 := by
  have member : phdr ∈ segments file := split ▸ List.mem_append_right _ List.mem_cons_self
  have holds := holds_of_inFile elf member inFile
  obtain ⟨target, value⟩ := fromAny.value elf held member holds
  have isByte := value fun _ => 0
  rw [if_pos inFile] at isByte
  have last := @lastStore_inFile file phdr front back x (split ▸ inAddresses_segments elf) inFile
    (fun other isOther otherIn => holds_unique elf split isOther holds
      (holds_of_inFile elf (split ▸ List.mem_append_right _ (List.mem_cons_of_mem _ isOther))
        otherIn))
  rw [← split] at last
  rcases last with ⟨-, last⟩ | ⟨⟨notOwn, notLater⟩, -⟩
  · rw [last] at isByte
    exact isByte.symm
  · rcases clears with own | ⟨other, isOther, later⟩
    · exact absurd own notOwn
    · exact absurd later (notLater other isOther)

theorem inside (fromAny : RightFromAny file dirs state next) (shape : state.Shape dirs)
    (elf : ElfFile file state.space.vir.start) (held : next.Held)
    (loaded : Loaded file (segments file) dirs state next)
    (inUser : ¬ ∃ stored ∈ segmentsLog file (segments file), stored.1 < state.space.vir.start)
    {phdr : Phdr} (member : phdr ∈ segments file) (clears : phdr.Clears x) :
    ∃ other ∈ segments file, ∃ y, other.Holds y ∧ x / memPageSize = y / memPageSize := by
  have below := inAddresses_segments elf
  have inLog : (x, (0 : UInt8)) ∈ segmentsLog file (segments file) :=
    (mem_segmentsLog below).mpr ⟨phdr, member, .inr ⟨clears, rfl⟩⟩
  have small := segmentsLog_lt _ inLog
  have above : state.space.vir.start ≤ x := by
    by_contra under
    exact inUser ⟨_, inLog, Nat.not_le.mp under⟩
  obtain ⟨target, found⟩ := Option.isSome_iff_exists.mp (loaded.present _ inLog above)
  by_contra apart
  obtain ⟨later, image, run⟩ := fromAny fun _ => 1
  have held' : Held { next with bytes := later } := ⟨held.mapped, held.single⟩
  have unchanged := image.outside target (by
    intro other isOther y z holds page same
    obtain ⟨aboveY, smallY⟩ := holds_inside elf isOther holds
    have start := shape.start
    have aboveZ : state.space.vir.start ≤ z := by
      simp only [memPageSize] at *
      omega
    have smallZ : z < 2 ^ 32 := by
      simp only [memPageSize] at *
      omega
    have equal := held'.paddr_inj run.shape
      (run.shape.userPage_addr (run.startPage ▸ above) small)
      (run.shape.userPage_addr (run.startPage ▸ aboveZ) smallZ) found same
    have isZ : x = z := equal
    exact apart ⟨other, isOther, y, holds, isZ ▸ page⟩)
  have isByte := run.byte held' above small found
  have behind : ∀ other ∈ segments file, ¬ other.InFile x := by
    intro other isOther inFile
    exact apart ⟨other, isOther, x, holds_of_inFile elf isOther inFile, rfl⟩
  rcases @lastStore_behind file _ x below behind with ⟨-, last⟩ | ⟨never, -⟩
  · rw [last] at isByte
    have one : (1 : UInt8) = 0 := unchanged.symm.trans isByte
    exact absurd one (by decide)
  · exact never phdr member clears

end RightFromAny

theorem guard_of_right (shape : state.Shape dirs) (held : state.Held)
    (elf : ElfFile file state.space.vir.start) (fresh : state.strayed = false)
    (right : LoadsRight kernelPageDir file state.mem state.space)
    (returns : loadElf kernelPageDir file state = some (entry, next)) (nonzero : entry ≠ 0) :
    LoadGuard file state.mem state.space := by
  have fromAny := right_from shape elf fresh right returns nonzero
  have loaded := loadElf_loaded shape elf returns nonzero
  have notStrayed : ¬ next.strayed = true := by
    obtain ⟨later, image, -⟩ := fromAny state.bytes
    have kernel := image.kernel
    simp only at kernel
    rw [kernel, fresh]
    exact Bool.false_ne_true
  rw [loaded.strayed, not_or, not_or] at notStrayed
  obtain ⟨-, inArea, inUser⟩ := notStrayed
  have enough := fromAny.enough shape held elf loaded
  obtain ⟨nextHeld, -⟩ := loaded.held held enough
  refine ⟨?_, enough, ?_, ?_, ?_, ?_⟩
  · intro phdr member positive
    by_contra past
    refine inArea ⟨phdr, member, positive, ?_⟩
    rw [startPage]
    omega
  · intro phdr member x holds behind
    exact fromAny.cleared elf nextHeld member holds behind
  · intro phdr member x inFile clears
    obtain ⟨front, back, split⟩ := List.append_of_mem member
    exact fromAny.zero elf nextHeld split inFile (.inl clears)
  · apply pairwise_of_splits
    intro front phdr back split other isOther x inFile clears
    exact fromAny.zero elf nextHeld split inFile (.inr ⟨other, isOther, clears⟩)
  · intro phdr member x clears
    exact fromAny.inside shape elf nextHeld loaded inUser member clears

end Guard

end Loading

theorem System.Sound.shape {sys : System} {i : Nat} {space : Space} (sound : sys.Sound)
    (isSpace : sys.spaces[i]? = some space) (positive : 0 < sys.mem.userPhy.start)
    (framesEnd : sys.mem.userPhy.start + sys.mem.userPhy.pages * memPageSize ≤ topPage)
    (bytes : Nat → UInt8) :
    Loading.Shape ⟨sys.mem, space, bytes, false⟩ sys.dirs where
  tables := sound.tables
  isDir := System.isDir isSpace
  frames := sound.frames
  area := (sound.areas isSpace).1
  areaStart := (sound.areas isSpace).2
  positive := positive
  framesEnd := framesEnd

theorem System.Sound.held {sys : System} {i : Nat} {space : Space} (sound : sys.Sound)
    (isSpace : sys.spaces[i]? = some space) (bytes : Nat → UInt8) :
    Loading.Held ⟨sys.mem, space, bytes, false⟩ where
  mapped := fun user found => sound.mapped ⟨System.isDir isSpace, user, found⟩
  single := fun user user' found found' =>
    (sound.single ⟨System.isDir isSpace, user, found⟩ ⟨System.isDir isSpace, user', found'⟩).2

/-- The image is right, from any contents of the memory, exactly when the pages of the segments
lie in the user area, each with a frame, and the bytes that are cleared are the ones behind the
bytes of the file. -/
theorem loadElf_right_iff {kernelPageDir entry : Nat} {file bytes : Nat → UInt8} {mem : MemState}
    {space : Space} {dirs : List Nat} {after : Loading}
    (shape : Loading.Shape ⟨mem, space, bytes, false⟩ dirs)
    (held : Loading.Held ⟨mem, space, bytes, false⟩) (elf : ElfFile file space.vir.start)
    (returns : Loading.loadElf kernelPageDir file ⟨mem, space, bytes, false⟩ =
      some (entry, after)) (nonzero : entry ≠ 0) :
    LoadsRight kernelPageDir file mem space ↔ LoadGuard file mem space := by
  constructor
  · intro right
    exact Loading.guard_of_right shape held elf rfl right returns nonzero
  · intro guard other otherEntry last run otherNonzero
    have otherShape : Loading.Shape ⟨mem, space, other, false⟩ dirs :=
      ⟨shape.tables, shape.isDir, shape.frames, shape.area, shape.areaStart, shape.positive,
        shape.framesEnd⟩
    have otherHeld : Loading.Held ⟨mem, space, other, false⟩ := ⟨held.mapped, held.single⟩
    exact Loading.right_of_guard otherShape otherHeld elf rfl guard run otherNonzero

def wordBytes (word : Nat) : List UInt8 :=
  [UInt8.ofNat word, UInt8.ofNat (word / 2 ^ 8), UInt8.ofNat (word / 2 ^ 16),
    UInt8.ofNat (word / 2 ^ 24)]

def sampleElf (pPaddr : Nat) : Nat → UInt8 := fun offset =>
  (([0x7f, 0x45, 0x4c, 0x46] ++ List.replicate 20 0 ++ wordBytes 0x400000 ++ wordBytes 52 ++
    List.replicate 12 0 ++ [1] ++ List.replicate 7 0 ++ wordBytes 1 ++ wordBytes 84 ++
    wordBytes 0x400000 ++ wordBytes pPaddr ++ wordBytes 1 ++ wordBytes 2 ++
    List.replicate 8 0 ++ [0x90])[offset]?).getD 0

def sampleUser : Space :=
  ⟨0x300000, System.sampleAlloc 0x400000 0⟩

/-- The program is loaded as it should be when its two addresses are the same. -/
theorem loadElf_right_sample :
    LoadsRight 0x300000 (sampleElf 0x400000) System.sampleSystem.mem sampleUser := by
  have segs : segments (sampleElf 0x400000) = [⟨1, 84, 0x400000, 0x400000, 1, 2⟩] := by
    decide
  have sound := System.sampleSystem_fresh.sound
  have isSpace : System.sampleSystem.spaces[0]? = some sampleUser := rfl
  have elf : ElfFile (sampleElf 0x400000) sampleUser.vir.start := by
    refine ⟨?_, ?_, ?_, ?_⟩
    all_goals rw [segs]
    · decide
    · decide
    · decide
    · exact List.pairwise_singleton _ _
  have runs : (Loading.loadElf 0x300000 (sampleElf 0x400000)
      ⟨System.sampleSystem.mem, sampleUser, fun _ => 0, false⟩).map Prod.fst = some 0x400000 := by
    decide
  obtain ⟨⟨entry, after⟩, returns, isEntry⟩ := Option.map_eq_some_iff.mp runs
  obtain rfl : entry = 0x400000 := isEntry
  apply (loadElf_right_iff (sound.shape isSpace (by decide) (by decide) _)
    (sound.held isSpace _) elf returns (by decide)).mpr
  have behind : ∀ x, Phdr.Clears ⟨1, 84, 0x400000, 0x400000, 1, 2⟩ x ↔ x = 0x400001 := by
    intro x
    simp only [Phdr.Clears]
    constructor
    · rintro ⟨k, small, rfl⟩
      omega
    · rintro rfl
      exact ⟨0, by decide, rfl⟩
  refine ⟨?_, ?_, ?_, ?_, ?_, ?_⟩
  all_goals rw [segs]
  · decide
  · decide
  · intro phdr member x holds notFile
    rw [List.mem_singleton.mp member] at holds notFile
    refine ⟨_, List.mem_cons_self, (behind x).mpr ?_⟩
    simp only [Phdr.Holds, Phdr.InFile] at holds notFile
    omega
  · intro phdr member x inFile clears
    rw [List.mem_singleton.mp member] at inFile clears
    rw [behind] at clears
    simp only [Phdr.InFile] at inFile
    omega
  · exact List.pairwise_singleton _ _
  · intro phdr member x clears
    rw [List.mem_singleton.mp member, behind] at clears
    refine ⟨_, List.mem_cons_self, x, ?_, rfl⟩
    simp only [Phdr.Holds]
    omega

/-- With another `p_paddr` the byte behind the ones of the file keeps what was there. -/
theorem behind_not_cleared :
    ¬ LoadsRight 0x300000 (sampleElf 0x400800) System.sampleSystem.mem sampleUser := by
  intro right
  have segs : segments (sampleElf 0x400800) = [⟨1, 84, 0x400000, 0x400800, 1, 2⟩] := by
    decide
  have runs : (Loading.loadElf 0x300000 (sampleElf 0x400800)
      ⟨System.sampleSystem.mem, sampleUser, fun _ => 7, false⟩).map
        (fun result => (result.1, result.2.load 0x400001)) = some (0x400000, some 7) := by
    decide
  obtain ⟨⟨entry, after⟩, returns, values⟩ := Option.map_eq_some_iff.mp runs
  obtain ⟨rfl, isSeven⟩ : entry = 0x400000 ∧ after.load 0x400001 = some 7 := Prod.mk.inj values
  have image := right _ _ after returns (by decide)
  have cleared := image.contents ⟨1, 84, 0x400000, 0x400800, 1, 2⟩
    (by rw [segs]; exact List.mem_cons_self) 0x400001 ⟨by decide, by decide⟩
  rw [isSeven] at cleared
  exact absurd cleared (by decide)

end CleanOS.Memory
