import Mathlib.Logic.Function.Basic
import Mathlib.Data.List.Range

/-!
# Reading a program

`process_execve` of `kernel/thread/execve.c`: the file is read in chunks into a buffer of its
size, and the program in the buffer is started.  What the calls of the file system and of
`kernel_mallocator` answer is given; the new name of the process is left out.
-/

namespace CleanOS.Thread

/-- What the calls of `process_execve` answer: `sys_open`, `sys_fstat`, the contents of the file,
both calls of `malloc`, with zero for `NULL`, what the variable `read_size` holds before it is
set, and `load_elf`. -/
structure ExecveEnv where
  fd : Int
  fstat : Int
  file : List UInt8
  elfBuf : Nat
  readBuf : Nat
  unset : Int
  entry : Nat

/-- `elf_size`. -/
def ExecveEnv.elfSize (env : ExecveEnv) : Nat :=
  env.file.length

/-- `buf_size`. -/
abbrev bufSize : Nat := 1024

/-- The memory and the resources of the call: the position in the file, `read_size` once it is
set, whether it was used before, what is open or allocated, and the addresses that were written
through each buffer. -/
structure Execve where
  memory : Nat → UInt8
  position : Nat
  readSize : Option Int
  unsetUsed : Bool
  opened : Bool
  elfLive : Bool
  readLive : Bool
  copied : List Nat
  filled : List Nat

/-- How the call ends: it returns, or the program is started. -/
inductive ExecveEnd where
  | returned (result : Int)
  | started
deriving DecidableEq

/-- `memcpy`. -/
def memcpy (memory : Nat → UInt8) (dst src : Nat) : Nat → (Nat → UInt8)
  | 0 => memory
  | size + 1 => memcpy (Function.update memory dst (memory src)) (dst + 1) (src + 1) size

/-- `memset`. -/
def memset (memory : Nat → UInt8) (dst : Nat) (value : UInt8) (size : Nat) : Nat → UInt8 :=
  fun address => if dst ≤ address ∧ address < dst + size then value else memory address

namespace Execve

/-- `sys_read` of a chunk into `read_buf`: as many bytes as are left, up to the size of the
buffer. -/
def sysRead (env : ExecveEnv) (state : Execve) : Execve :=
  let size := min bufSize (env.file.length - state.position)
  { state with
    memory := fun address =>
      if env.readBuf ≤ address ∧ address < env.readBuf + size then
        (env.file[state.position + (address - env.readBuf)]?).getD (state.memory address)
      else state.memory address
    position := state.position + size
    readSize := some size
    filled := state.filled ++ List.range' env.readBuf size }

/-- `memcpy` from `read_buf` to the end of what was read. -/
def copyChunk (env : ExecveEnv) (total size : Nat) (state : Execve) : Execve :=
  { state with
    memory := memcpy state.memory (env.elfBuf + total) env.readBuf size
    copied := state.copied ++ List.range' (env.elfBuf + total) size }

/-- `memset` of `read_buf`. -/
def clearReadBuf (env : ExecveEnv) (state : Execve) : Execve :=
  { state with
    memory := memset state.memory env.readBuf 0 bufSize
    filled := state.filled ++ List.range' env.readBuf bufSize }

/-- The loop over the chunks, with `total`. -/
def readLoop (env : ExecveEnv) : Nat → Nat → Execve → Option (Nat × Execve)
  | 0, _, _ => none
  | fuel + 1, total, state =>
      if total < env.elfSize then
        let state := state.sysRead env
        if state.readSize = some (bufSize : Int) then
          readLoop env fuel (total + bufSize) ((state.copyChunk env total bufSize).clearReadBuf env)
        else some (total, state)
      else some (total, state)

def lastChunk (env : ExecveEnv) (total : Nat) (state : Execve) : Execve :=
  let readSize := state.readSize.getD env.unset
  let state := { state with unsetUsed := state.unsetUsed || state.readSize.isNone }
  if 0 < readSize then state.copyChunk env total readSize.toNat else state

/-- `exec`, as far as `elf_buf` goes. -/
def exec (env : ExecveEnv) (state : Execve) : ExecveEnd × Execve :=
  if env.entry = 0 then (.returned 0, state) else (.started, { state with elfLive := false })

/-- `process_execve`. -/
def processExecve (env : ExecveEnv) (memory : Nat → UInt8) : Option (ExecveEnd × Execve) :=
  let state : Execve := ⟨memory, 0, none, false, false, false, false, [], []⟩
  if env.fd < 0 then some (.returned (-1), state)
  else
    let state := { state with opened := true }
    if env.fstat ≠ 0 then some (.returned (-1), state)
    else if env.elfBuf = 0 then some (.returned (-1), state)
    else do
      let state := { state with elfLive := true, readLive := decide (env.readBuf ≠ 0) }
      let (total, state) ← readLoop env (env.elfSize + 1) 0 state
      let state := state.lastChunk env total
      some (exec env { state with readLive := false, opened := false })

end Execve

def ExecveEnv.BuffersApart (env : ExecveEnv) : Prop :=
  env.elfBuf ≠ 0 → env.elfBuf + env.elfSize ≤ env.readBuf ∨ env.readBuf + bufSize ≤ env.elfBuf

/-- The whole file is read into its buffer, nothing is written outside the buffers, `read_size`
is set before it is used, and what was opened or allocated is closed and freed at the end. -/
structure ExecveRight (env : ExecveEnv) (memory : Nat → UInt8) (state : Execve) : Prop where
  filled : 0 ≤ env.fd → env.fstat = 0 → env.elfBuf ≠ 0 →
    ∀ k (inside : k < env.file.length), state.memory (env.elfBuf + k) = env.file[k]
  elfInside : ∀ address ∈ state.copied,
    env.elfBuf ≤ address ∧ address < env.elfBuf + env.elfSize
  readInside : ∀ address ∈ state.filled,
    env.readBuf ≠ 0 ∧ env.readBuf ≤ address ∧ address < env.readBuf + bufSize
  isSet : state.unsetUsed = false
  closed : state.opened = false
  elfFreed : state.elfLive = false
  readFreed : state.readLive = false

def ExecveMeets (env : ExecveEnv) (memory : Nat → UInt8) : Prop :=
  ∃ result state, Execve.processExecve env memory = some (result, state) ∧
    ExecveRight env memory state

/-- When it does: a file that is opened can be looked at, both buffers are given, the size is no
multiple of a chunk, and the program can be loaded. -/
def ExecveGuard (env : ExecveEnv) : Prop :=
  0 ≤ env.fd → env.fstat = 0 ∧ env.elfBuf ≠ 0 ∧ env.readBuf ≠ 0 ∧
    env.elfSize % bufSize ≠ 0 ∧ env.entry ≠ 0

section Copies

variable {memory : Nat → UInt8} {dst src size address : Nat}

theorem memcpy_apart (apart : address < dst ∨ dst + size ≤ address) :
    memcpy memory dst src size address = memory address := by
  induction size generalizing memory dst src with
  | zero => rfl
  | succ size ih =>
      rw [memcpy, ih (by omega)]
      exact Function.update_of_ne (by omega) _ _

theorem memcpy_at {k : Nat} (inside : k < size) (apart : dst + size ≤ src ∨ src + size ≤ dst) :
    memcpy memory dst src size (dst + k) = memory (src + k) := by
  induction size generalizing memory dst src k with
  | zero => cases inside
  | succ size ih =>
      rw [memcpy]
      cases k with
      | zero =>
          rw [memcpy_apart (.inl (by omega))]
          exact Function.update_self _ _ _
      | succ k =>
          have next := @ih (Function.update memory dst (memory src)) (dst + 1) (src + 1) k
            (by omega) (by omega)
          rw [show dst + (k + 1) = dst + 1 + k by omega, next,
            show src + 1 + k = src + (k + 1) by omega]
          exact Function.update_of_ne (by omega) _ _

theorem memset_apart {value : UInt8} (apart : address < dst ∨ dst + size ≤ address) :
    memset memory dst value size address = memory address :=
  if_neg (by omega)

end Copies

namespace Execve

variable {env : ExecveEnv} {state : Execve} {total fuel : Nat}

/-! What the steps of the loop leave alone. -/

theorem sysRead_unsetUsed : (state.sysRead env).unsetUsed = state.unsetUsed := rfl

theorem sysRead_elfLive : (state.sysRead env).elfLive = state.elfLive := rfl

theorem copyChunk_unsetUsed {size : Nat} :
    (state.copyChunk env total size).unsetUsed = state.unsetUsed := rfl

theorem copyChunk_elfLive {size : Nat} :
    (state.copyChunk env total size).elfLive = state.elfLive := rfl

theorem clearReadBuf_unsetUsed : (state.clearReadBuf env).unsetUsed = state.unsetUsed :=
  rfl

theorem clearReadBuf_elfLive : (state.clearReadBuf env).elfLive = state.elfLive := rfl

structure Reading (env : ExecveEnv) (total : Nat) (state : Execve) : Prop where
  position : state.position = total
  multiple : total % bufSize = 0
  inside : total ≤ env.elfSize
  readSize : state.readSize = if total = 0 then none else some (bufSize : Int)
  isSet : state.unsetUsed = false
  elfLive : state.elfLive = true
  bytes : ∀ k (inside : k < env.file.length), k < total →
    state.memory (env.elfBuf + k) = env.file[k]
  copied : ∀ address ∈ state.copied,
    env.elfBuf ≤ address ∧ address < env.elfBuf + env.elfSize
  filled : ∀ address ∈ state.filled,
    env.readBuf ≤ address ∧ address < env.readBuf + bufSize
  reads : 0 < total → env.readBuf ∈ state.filled

structure HasRead (env : ExecveEnv) (state : Execve) : Prop where
  readSize : state.readSize = if env.elfSize % bufSize = 0 then
      if env.elfSize = 0 then none else some (bufSize : Int)
    else some ((env.elfSize % bufSize : Nat) : Int)
  isSet : state.unsetUsed = false
  elfLive : state.elfLive = true
  bytes : ∀ k (inside : k < env.file.length), k < env.elfSize / bufSize * bufSize →
    state.memory (env.elfBuf + k) = env.file[k]
  rest : ∀ j, j < env.elfSize % bufSize →
    env.file[env.elfSize / bufSize * bufSize + j]? = some (state.memory (env.readBuf + j))
  copied : ∀ address ∈ state.copied,
    env.elfBuf ≤ address ∧ address < env.elfBuf + env.elfSize
  filled : ∀ address ∈ state.filled,
    env.readBuf ≤ address ∧ address < env.readBuf + bufSize
  reads : 0 < env.elfSize → env.readBuf ∈ state.filled

theorem Reading.chunk (reading : Reading env total state)
    (apart : env.elfBuf + env.elfSize ≤ env.readBuf ∨ env.readBuf + bufSize ≤ env.elfBuf)
    (full : total + bufSize ≤ env.elfSize) :
    Reading env (total + bufSize)
      (((state.sysRead env).copyChunk env total bufSize).clearReadBuf env) := by
  have size : min bufSize (env.file.length - state.position) = bufSize := by
    rw [reading.position]
    exact Nat.min_eq_left (by change bufSize ≤ env.elfSize - total; omega)
  have multiple := reading.multiple
  have isSize : bufSize = 1024 := rfl
  refine ⟨?_, ?_, full, ?_, ?_, ?_, ?_, ?_, ?_, ?_⟩
  · simp only [clearReadBuf, copyChunk, sysRead, size]
    rw [reading.position]
  · rw [Nat.add_mod_right]
    exact multiple
  · simp only [clearReadBuf, copyChunk, sysRead, size]
    rw [if_neg (by omega)]
  -- by rewriting, as the kernel would compare the memories of the states
  · rw [clearReadBuf_unsetUsed, copyChunk_unsetUsed, sysRead_unsetUsed]
    exact reading.isSet
  · rw [clearReadBuf_elfLive, copyChunk_elfLive, sysRead_elfLive]
    exact reading.elfLive
  · intro k inside below
    simp only [clearReadBuf, copyChunk, sysRead, size]
    rw [reading.position]
    change k < env.elfSize at inside
    rw [memset_apart (by omega)]
    by_cases old : k < total
    · rw [memcpy_apart (.inl (by omega)), if_neg (by omega)]
      exact reading.bytes k inside old
    · obtain ⟨j, rfl⟩ := Nat.exists_eq_add_of_le (Nat.not_lt.mp old)
      rw [← Nat.add_assoc, memcpy_at (by omega) (by omega), if_pos (by omega),
        Nat.add_sub_cancel_left, List.getElem?_eq_getElem inside, Option.getD_some]
  · intro address member
    simp only [clearReadBuf, copyChunk, sysRead, List.mem_append,
      List.mem_range'_1] at member
    rcases member with old | ⟨lower, upper⟩
    · exact reading.copied address old
    · omega
  · intro address member
    simp only [clearReadBuf, copyChunk, sysRead, size, List.mem_append,
      List.mem_range'_1] at member
    rcases member with (old | inChunk) | inBuffer
    · exact reading.filled address old
    · exact inChunk
    · exact inBuffer
  · intro _
    simp only [clearReadBuf, copyChunk, sysRead, List.mem_append, List.mem_range'_1]
    exact .inr ⟨Nat.le_refl _, by omega⟩

theorem Reading.last (reading : Reading env total state)
    (apart : env.elfBuf + env.elfSize ≤ env.readBuf ∨ env.readBuf + bufSize ≤ env.elfBuf)
    (left : total < env.elfSize) (short : env.elfSize < total + bufSize) :
    HasRead env (state.sysRead env) ∧ total = env.elfSize / bufSize * bufSize := by
  have multiple := reading.multiple
  simp only [bufSize] at *
  have whole : total = env.elfSize / 1024 * 1024 := by omega
  have size : min 1024 (env.file.length - state.position) = env.elfSize % 1024 := by
    rw [reading.position]
    change min 1024 (env.elfSize - total) = env.elfSize % 1024
    omega
  refine ⟨⟨?_, ?_, reading.elfLive, ?_, ?_, ?_, ?_, ?_⟩, whole⟩
  · simp only [sysRead, bufSize, size]
    rw [if_neg (by omega)]
  · simp only [sysRead]
    exact reading.isSet
  · intro k inside below
    simp only [sysRead, bufSize, size] at below ⊢
    change k < env.elfSize at inside
    rw [if_neg (by omega)]
    exact reading.bytes k inside (by omega)
  · intro j small
    simp only [sysRead, bufSize, size] at small ⊢
    have inside : total + j < env.file.length := by
      change total + j < env.elfSize
      omega
    rw [reading.position, if_pos (by omega), Nat.add_sub_cancel_left, ← whole,
      List.getElem?_eq_getElem inside, Option.getD_some]
  · exact reading.copied
  · intro address member
    simp only [sysRead, bufSize, size, List.mem_append, List.mem_range'_1] at member
    rcases member with old | ⟨lower, upper⟩
    · exact reading.filled address old
    · simp only [bufSize]
      omega
  · intro _
    simp only [sysRead, bufSize, size, List.mem_append, List.mem_range'_1]
    exact .inr ⟨Nat.le_refl _, by omega⟩

theorem Reading.done (reading : Reading env total state) (all : total = env.elfSize) :
    HasRead env state ∧ total = env.elfSize / bufSize * bufSize := by
  have multiple := reading.multiple
  rw [all] at multiple
  refine ⟨⟨?_, reading.isSet, reading.elfLive, ?_, ?_, reading.copied, reading.filled, ?_⟩, ?_⟩
  · rw [if_pos multiple, ← all]
    exact reading.readSize
  · intro k inside _
    exact reading.bytes k inside (all ▸ inside)
  · intro j small
    rw [multiple] at small
    cases small
  · intro positive
    exact reading.reads (all ▸ positive)
  · simp only [bufSize] at multiple ⊢
    omega

theorem readLoop_spec (reading : Reading env total state)
    (apart : env.elfBuf + env.elfSize ≤ env.readBuf ∨ env.readBuf + bufSize ≤ env.elfBuf)
    (enough : env.elfSize < total + fuel * bufSize) :
    ∃ last, readLoop env fuel total state = some (env.elfSize / bufSize * bufSize, last) ∧
      HasRead env last := by
  induction fuel generalizing total state with
  | zero =>
      have inside := reading.inside
      omega
  | succ fuel ih =>
      rw [readLoop]
      by_cases left : total < env.elfSize
      · rw [if_pos left]
        by_cases full : total + bufSize ≤ env.elfSize
        · have size : (state.sysRead env).readSize = some (bufSize : Int) := by
            have left : bufSize ≤ env.file.length - state.position := by
              rw [reading.position]
              change bufSize ≤ env.elfSize - total
              omega
            simp only [sysRead, Nat.min_eq_left left]
          simp only [size, if_true]
          exact ih (reading.chunk apart full) (by rw [Nat.add_mul] at enough; omega)
        · obtain ⟨hasRead, whole⟩ := reading.last apart left (Nat.not_le.mp full)
          have size : (state.sysRead env).readSize ≠ some (bufSize : Int) := by
            have short := Nat.mod_lt env.elfSize (show 0 < bufSize by decide)
            have multiple := reading.multiple
            have some_left : env.elfSize % bufSize ≠ 0 := by
              simp only [bufSize] at *
              omega
            rw [hasRead.readSize, if_neg some_left, ne_eq, Option.some.injEq, Int.natCast_inj]
            omega
          simp only [size, if_false]
          exact ⟨_, whole ▸ rfl, hasRead⟩
      · rw [if_neg left]
        have inside := reading.inside
        obtain ⟨hasRead, whole⟩ := reading.done (by omega)
        exact ⟨_, whole ▸ rfl, hasRead⟩

def beforeRead (env : ExecveEnv) (memory : Nat → UInt8) : Execve :=
  ⟨memory, 0, none, false, true, true, decide (env.readBuf ≠ 0), [], []⟩

theorem beforeRead_reading (memory : Nat → UInt8) : Reading env 0 (beforeRead env memory) where
  position := rfl
  multiple := rfl
  inside := Nat.zero_le _
  readSize := rfl
  isSet := rfl
  elfLive := rfl
  bytes := fun _ _ below => nomatch below
  copied := fun _ member => nomatch member
  filled := fun _ member => nomatch member
  reads := fun positive => nomatch positive

theorem processExecve_read {memory : Nat → UInt8} (apart : env.BuffersApart) (isOpen : 0 ≤ env.fd)
    (isFile : env.fstat = 0) (hasBuf : env.elfBuf ≠ 0) :
    ∃ last, HasRead env last ∧ processExecve env memory =
      some (exec env { last.lastChunk env (env.elfSize / bufSize * bufSize) with
        readLive := false, opened := false }) := by
  obtain ⟨last, loopEq, hasRead⟩ := @readLoop_spec env _ 0 (env.elfSize + 1)
    (beforeRead_reading memory) (apart hasBuf) (by simp only [bufSize]; omega)
  refine ⟨last, hasRead, ?_⟩
  rw [beforeRead] at loopEq
  simp only [processExecve, if_neg (Int.not_lt.mpr isOpen), isFile, ne_eq, not_true_eq_false,
    if_false, if_neg hasBuf, loopEq, Option.bind_eq_bind, Option.bind_some]

theorem lastChunk_some {n : Nat} (isSize : state.readSize = some (n : Int)) (positive : 0 < n) :
    state.lastChunk env total = state.copyChunk env total n := by
  have above : (0 : Int) < n := by omega
  obtain ⟨memory, position, readSize, unsetUsed⟩ := state
  simp only at isSize
  simp only [lastChunk, isSize, Option.getD_some, above, if_true, Int.toNat_natCast,
    Option.isNone_some, Bool.or_false]

theorem lastChunk_none (unset : state.readSize = none) :
    (state.lastChunk env total).unsetUsed = true := by
  simp only [lastChunk, unset, Option.isNone_none, Bool.or_true]
  split <;> rfl

theorem HasRead.lastChunk (hasRead : HasRead env state) (positive : 0 < env.elfSize) :
    ∃ n, 0 < n ∧ n = (if env.elfSize % bufSize = 0 then bufSize else env.elfSize % bufSize) ∧
      state.lastChunk env total = state.copyChunk env total n := by
  have readSize := hasRead.readSize
  have nonzero : env.elfSize ≠ 0 := by omega
  by_cases whole : env.elfSize % bufSize = 0
  · rw [if_pos whole, if_neg nonzero] at readSize
    exact ⟨bufSize, by decide, (if_pos whole).symm, lastChunk_some readSize (by decide)⟩
  · rw [if_neg whole] at readSize
    exact ⟨_, Nat.pos_of_ne_zero whole, (if_neg whole).symm,
      lastChunk_some readSize (Nat.pos_of_ne_zero whole)⟩

theorem guard_of_meets {memory : Nat → UInt8} (apart : env.BuffersApart)
    (meets : ExecveMeets env memory) : ExecveGuard env := by
  obtain ⟨result, final, run, right⟩ := meets
  intro isOpen
  have opens := Int.not_lt.mpr isOpen
  by_cases isFile : env.fstat = 0
  · by_cases hasBuf : env.elfBuf = 0
    · simp only [processExecve, if_neg opens, isFile, ne_eq, not_true_eq_false, if_false,
        if_pos hasBuf] at run
      cases run
      cases right.closed
    · obtain ⟨last, hasRead, runEq⟩ := @processExecve_read env memory apart isOpen isFile hasBuf
      rw [runEq, Option.some.injEq, exec] at run
      by_cases empty : env.elfSize = 0
      · have unset := hasRead.readSize
        rw [if_pos (by rw [empty]; rfl), if_pos empty] at unset
        have used := @lastChunk_none env last (env.elfSize / bufSize * bufSize) unset
        have isSet := right.isSet
        split at run
        all_goals
          cases run
          rw [used] at isSet
          cases isSet
      · obtain ⟨n, positive, isSize, copyEq⟩ := @HasRead.lastChunk env last
          (env.elfSize / bufSize * bufSize) hasRead (by omega)
        rw [copyEq] at run
        split at run
        next noEntry =>
          cases run
          have freed := right.elfFreed
          simp only [copyChunk, hasRead.elfLive] at freed
          cases freed
        next entry =>
          cases run
          have elfInside := right.elfInside
          have readInside := right.readInside
          simp only [copyChunk, List.mem_append, List.mem_range'_1] at elfInside readInside
          refine ⟨isFile, hasBuf, (readInside _ (hasRead.reads (by omega))).1, ?_, entry⟩
          intro whole
          rw [if_pos whole] at isSize
          have beyond := elfInside (env.elfBuf + env.elfSize / bufSize * bufSize)
            (.inr ⟨Nat.le_refl _, by omega⟩)
          simp only [bufSize] at *
          omega
  · simp only [processExecve, if_neg opens, isFile, ne_eq, not_false_eq_true, if_true] at run
    cases run
    cases right.closed

theorem meets_of_guard {memory : Nat → UInt8} (apart : env.BuffersApart)
    (guard : ExecveGuard env) : ExecveMeets env memory := by
  by_cases isOpen : 0 ≤ env.fd
  · obtain ⟨isFile, hasBuf, hasRead, partly, entry⟩ := guard isOpen
    obtain ⟨last, read, runEq⟩ := @processExecve_read env memory apart isOpen isFile hasBuf
    have nonempty : 0 < env.elfSize := by
      apply Nat.pos_of_ne_zero
      intro empty
      exact partly (by rw [empty]; rfl)
    obtain ⟨n, positive, isSize, copyEq⟩ := @HasRead.lastChunk env last
      (env.elfSize / bufSize * bufSize) read nonempty
    rw [if_neg partly] at isSize
    rw [copyEq, exec, if_neg entry] at runEq
    have twoApart := apart hasBuf
    have split := Nat.div_add_mod' env.elfSize bufSize
    have short := Nat.mod_lt env.elfSize (show 0 < bufSize by decide)
    refine ⟨_, _, runEq, ⟨?_, ?_, ?_, ?_, rfl, rfl, rfl⟩⟩
    · intro _ _ _ k inside
      simp only [copyChunk]
      by_cases early : k < env.elfSize / bufSize * bufSize
      · rw [memcpy_apart (.inl (by omega))]
        exact read.bytes k inside early
      · obtain ⟨j, rfl⟩ := Nat.exists_eq_add_of_le (Nat.not_lt.mp early)
        change _ < env.elfSize at inside
        have rest := read.rest j (by omega)
        rw [← Nat.add_assoc, memcpy_at (by omega) (by omega)]
        rw [List.getElem?_eq_getElem inside, Option.some.injEq] at rest
        exact rest.symm
    · intro address member
      simp only [copyChunk, List.mem_append, List.mem_range'_1] at member
      rcases member with old | ⟨lower, upper⟩
      · exact read.copied address old
      · omega
    · intro address member
      exact ⟨hasRead, read.filled address member⟩
    · exact read.isSet
  · refine ⟨.returned (-1), ⟨memory, 0, none, false, false, false, false, [], []⟩, ?_, ?_⟩
    · rw [processExecve, if_pos (Int.not_le.mp isOpen)]
    · exact ⟨fun isOpen' => absurd isOpen' isOpen, fun _ member => (nomatch member),
        fun _ member => (nomatch member), rfl, rfl, rfl, rfl⟩

end Execve

/-- The call reads the file and gives back what it took exactly when the file can be looked at,
both buffers are given, its size is no multiple of a chunk, and the program can be loaded. -/
theorem processExecve_meets_iff {env : ExecveEnv} {memory : Nat → UInt8}
    (apart : env.BuffersApart) : ExecveMeets env memory ↔ ExecveGuard env := by
  constructor
  · exact Execve.guard_of_meets apart
  · exact Execve.meets_of_guard apart

def sampleExecve (size : Nat) : ExecveEnv where
  fd := 3
  fstat := 0
  file := List.replicate size 0x90
  elfBuf := 0x200000
  readBuf := 0x300000
  unset := 0
  entry := 0x400000

theorem sampleExecve_elfSize {size : Nat} : (sampleExecve size).elfSize = size :=
  List.length_replicate

theorem sampleExecve_apart {size : Nat} (small : size ≤ 0x100000) :
    (sampleExecve size).BuffersApart := by
  intro _
  rw [sampleExecve_elfSize]
  simp only [sampleExecve]
  omega

theorem processExecve_meets_partly : ExecveMeets (sampleExecve 1500) fun _ => 0 := by
  apply (processExecve_meets_iff (sampleExecve_apart (by decide))).mpr
  intro _
  rw [sampleExecve_elfSize]
  exact ⟨rfl, by decide, by decide, by decide, by decide⟩

/-- A file of one chunk is copied twice, the second time behind its buffer. -/
theorem whole_chunk_overruns : ¬ ExecveMeets (sampleExecve 1024) fun _ => 0 := by
  intro meets
  obtain ⟨-, -, -, partly, -⟩ :=
    Execve.guard_of_meets (sampleExecve_apart (by decide)) meets (by decide)
  rw [sampleExecve_elfSize] at partly
  exact partly rfl

end CleanOS.Thread
