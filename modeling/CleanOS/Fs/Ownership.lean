import CleanOS.Fs.Clusters

/-!
# Ownership of clusters over runs

Files own the clusters of their chains.  As long as every call meets the
condition under which the cluster functions do what they are meant to do, no
cluster ever belongs to two files.
-/

namespace CleanOS.Fs

open Volume

/-- The number of clusters that `expand_file` passes to `malloc_free_cluster`. -/
def clustersAsked (clusterCount : UInt32) : Nat :=
  clusterCount.toInt32.toInt.toNat

namespace Volume

variable {volume : Volume}

/-- `expand_file` when the first clusters are free and the file's current
cluster is its last. -/
theorem Sane.expandFile {file : File} {size clusterCount : UInt32}
    {chain : List Nat} (sane : volume.Sane)
    (asks : volume.expandCount file size = some clusterCount)
    (fits : volume.Fits (clustersAsked clusterCount))
    (holds : volume.Chain file.blockStart.toNat chain)
    (owned : ∀ cluster ∈ chain, volume.entry cluster ≠ freeCluster)
    (atEnd : IsValidCluster file.blockStart.toNat →
      chain.getLast? = some file.blockCur.toNat) :
    ∃ after result err,
      (∀ fuel, 0 < fuel →
        volume.expandFile fuel file size = some (after, result, err)) ∧
      after.Sane ∧ after.bpb = volume.bpb ∧
      (0 < clustersAsked clusterCount → err = 0) ∧
      (clustersAsked clusterCount = 0 → result = file ∧ after = volume) ∧
      after.Chain result.blockStart.toNat
        (chain ++ List.range' clusterStart (clustersAsked clusterCount)) ∧
      (∀ cluster ∈ chain ++
          List.range' clusterStart (clustersAsked clusterCount),
        after.entry cluster ≠ freeCluster) ∧
      result.blockStart.toNat < max 65536 (file.blockStart.toNat + 1) ∧
      ∀ cluster < volume.capacity,
        cluster ∉ List.range' clusterStart (clustersAsked clusterCount) →
        (IsValidCluster file.blockStart.toNat → cluster ≠ file.blockCur.toNat) →
        after.entry cluster = volume.entry cluster := by
  have startValid : IsValidCluster clusterStart := ⟨Nat.le_refl _, by decide⟩
  have notValid : ¬ IsValidCluster invalidCluster := by simp [IsValidCluster]
  unfold clustersAsked at fits ⊢
  obtain ⟨allocated, result, allocates, allocatedSane, allocatedBpb, isStart, isEmpty,
    newChain, -, newOwned, others⟩ := sane.malloc fits
  have disjoint : ∀ cluster ∈ chain,
      cluster ∉ List.range' clusterStart clusterCount.toInt32.toInt.toNat := by
    intro cluster member inNew
    exact owned cluster member (mem_freeClusters.mp
      (fits.range_free cluster inNew)).2.2
  have kept : ∀ cluster ∈ chain,
      allocated.entry cluster = volume.entry cluster := fun cluster member =>
    others cluster (holds.inside member).2 (disjoint cluster member)
  cases amount : clusterCount.toInt32.toInt.toNat with
  | zero =>
      obtain ⟨rfl, rfl⟩ := isEmpty amount
      refine ⟨allocated, file, -2, ?_, sane, rfl, by simp, by simp, by simpa using holds,
        by simpa using owned, by omega, fun _ _ _ _ => rfl⟩
      intro fuel positive
      simp [Volume.expandFile, asks, allocates fuel positive, notValid]
  | succ rest =>
      obtain rfl := isStart (by rw [amount]; omega)
      rw [amount] at newChain newOwned disjoint others
      by_cases valid : IsValidCluster file.blockStart.toNat
      · have ends := atEnd valid
        have lastMember := List.mem_of_getLast? ends
        obtain ⟨lastValid, lastInside⟩ := holds.inside lastMember
        have small : file.blockCur.toNat % 65536 = file.blockCur.toNat :=
          Nat.mod_eq_of_lt (Nat.lt_trans lastValid.2 (by decide))
        have capacityEq := capacity_eq allocatedBpb
        obtain ⟨after, links, afterSane, afterBpb, afterEntry⟩ :=
          allocatedSane.setCluster lastValid (by rw [capacityEq]; exact lastInside)
            (show clusterStart < 65536 by decide)
        have newKept : ∀ cluster ∈ List.range' clusterStart (rest + 1),
            after.entry cluster = allocated.entry cluster := by
          intro cluster member
          rw [afterEntry cluster (newChain.inside member).2, if_neg]
          rintro rfl
          exact disjoint _ lastMember member
        have oldKept : ∀ cluster ∈ chain, cluster ≠ file.blockCur.toNat →
            after.entry cluster = allocated.entry cluster := by
          intro cluster member different
          rw [afterEntry cluster (by
            rw [capacityEq]; exact (holds.inside member).2), if_neg different]
        have redirected : after.entry file.blockCur.toNat = clusterStart := by
          rw [afterEntry _ (by rw [capacityEq]; exact lastInside), if_pos rfl]
        refine ⟨after, file, 0, ?_, afterSane, afterBpb.trans allocatedBpb,
          by simp, by simp, ?_, ?_, by omega, ?_⟩
        · intro fuel positive
          simp [Volume.expandFile, asks, allocates fuel positive, startValid, valid,
            small, links]
        · refine (holds.congr allocatedBpb kept).append ends afterBpb oldKept
            redirected ?_
          exact newChain.congr afterBpb newKept
        · intro cluster member
          rcases List.mem_append.mp member with old | new
          · by_cases isLast : cluster = file.blockCur.toNat
            · rw [isLast, redirected]
              decide
            · rw [oldKept cluster old isLast, kept cluster old]
              exact owned cluster old
          · rw [newKept cluster new]
            exact newOwned cluster new
        · intro cluster inside outside notLast
          rw [afterEntry cluster (by rw [capacityEq]; exact inside),
            if_neg (notLast valid), others cluster inside outside]
      · obtain rfl := holds.unique (.done valid)
        have startSmall : (UInt32.ofNat clusterStart).toNat = clusterStart := by
          decide
        refine ⟨allocated, { file with
          blockStart := UInt32.ofNat clusterStart
          blockCur := UInt32.ofNat clusterStart }, 0, ?_, allocatedSane,
          allocatedBpb, by simp, by simp, ?_, by simpa using newOwned, ?_,
          fun cluster inside outside _ => others cluster inside outside⟩
        · intro fuel positive
          simp [Volume.expandFile, asks, allocates fuel positive, startValid, valid]
        · rw [startSmall]
          exact newChain
        · rw [startSmall]
          have : clusterStart < 65536 := by decide
          omega

end Volume

/-- A volume with the files that own its clusters. -/
structure FileSystem where
  volume : Volume
  files : Nat → Option File

/-- The calls that change who owns which cluster.  An allocated chain is given
to a new owner. -/
inductive ClusterCall where
  | malloc (owner : Nat) (count : Int)
  | expand (owner : Nat) (size : UInt32)
  | free (owner : Nat)

namespace FileSystem

variable {system : FileSystem}

def exec (fuel : Nat) (system : FileSystem) : ClusterCall → Option FileSystem
  | .malloc owner count => do
      let (volume, start) ← system.volume.mallocFreeCluster fuel count
      let file : File :=
        { size := 0, blockStart := UInt32.ofNat start
          blockCur := UInt32.ofNat start }
      return { volume, files := Function.update system.files owner (some file) }
  | .expand owner size =>
      match system.files owner with
      | none => none
      | some file => do
          let (volume, file, _) ← system.volume.expandFile fuel file size
          return { volume, files := Function.update system.files owner (some file) }
  | .free owner =>
      match system.files owner with
      | none => none
      | some file => do
          let volume ←
            system.volume.freeClusterChain fuel (file.blockStart.toNat % 65536)
          return { volume, files := Function.update system.files owner none }

def Returns (system : FileSystem) (call : ClusterCall) (after : FileSystem) : Prop :=
  ∃ bound, ∀ fuel, bound ≤ fuel → system.exec fuel call = some after

def Allowed (system : FileSystem) : ClusterCall → Prop
  | .malloc owner _ => system.files owner = none
  | .expand owner _ => ∃ file, system.files owner = some file
  | .free owner => ∃ file, system.files owner = some file

/-- The calls that do what they are meant to do: the first clusters of the data
area are free, an extended file stands at its last cluster, and a released chain
satisfies `FreeSafe`. -/
def Safe (system : FileSystem) : ClusterCall → Prop
  | .malloc _ count => system.volume.Fits count.toNat
  | .expand owner size => ∀ file clusterCount,
      system.files owner = some file →
      system.volume.expandCount file size = some clusterCount →
      system.volume.Fits (clustersAsked clusterCount) ∧
      (IsValidCluster file.blockStart.toNat → ∃ chain,
        system.volume.Chain file.blockStart.toNat chain ∧
        chain.getLast? = some file.blockCur.toNat)
  | .free owner => ∀ file, system.files owner = some file →
      system.volume.FreeSafe (file.blockStart.toNat % 65536)

def Meets (system : FileSystem) : ClusterCall → Prop
  | .malloc _ count => ∃ bound after result,
      (∀ fuel, bound ≤ fuel →
        system.volume.mallocFreeCluster fuel count = some (after, result)) ∧
      MallocContract system.volume after count result
  | .expand owner size => ∀ file, system.files owner = some file →
      ∃ bound after result err,
        (∀ fuel, bound ≤ fuel →
          system.volume.expandFile fuel file size = some (after, result, err)) ∧
        (system.volume.expandCount file size = none →
          after = system.volume ∧ result = file) ∧
        ∀ clusterCount, system.volume.expandCount file size = some clusterCount →
          ExpandContract system.volume after file result
            (clustersAsked clusterCount) err
  | .free owner => ∀ file, system.files owner = some file →
      ∃ bound after,
        (∀ fuel, bound ≤ fuel → system.volume.freeClusterChain fuel
          (file.blockStart.toNat % 65536) = some after) ∧
        FreeContract system.volume after (file.blockStart.toNat % 65536)

/-- Every file owns a chain of clusters in use, and no cluster belongs to two
files. -/
structure Exclusive (system : FileSystem) : Prop where
  small : ∀ owner file, system.files owner = some file →
    file.blockStart.toNat < 65536
  owned : ∀ owner file, system.files owner = some file →
    ∃ chain, system.volume.Chain file.blockStart.toNat chain ∧
      ∀ cluster ∈ chain, system.volume.entry cluster ≠ freeCluster
  disjoint : ∀ first second file other chain otherChain, first ≠ second →
    system.files first = some file → system.files second = some other →
    system.volume.Chain file.blockStart.toNat chain →
    system.volume.Chain other.blockStart.toNat otherChain →
    List.Disjoint chain otherChain

/-- The states reached by permitted calls from a volume on which no cluster is
shared. -/
inductive Run (permitted : FileSystem → ClusterCall → Prop) : FileSystem → Prop where
  | start {system : FileSystem} (sane : system.volume.Sane)
      (exclusive : system.Exclusive) : Run permitted system
  | step {system after : FileSystem} {call : ClusterCall}
      (run : Run permitted system) (allowed : system.Allowed call)
      (permits : permitted system call) (returns : system.Returns call after) :
      Run permitted after

private theorem Exclusive.without {owner : Nat} {volume : Volume}
    (exclusive : system.Exclusive) (sameBpb : volume.bpb = system.volume.bpb)
    (kept : ∀ second other otherChain, second ≠ owner → system.files second = some other →
      system.volume.Chain other.blockStart.toNat otherChain →
      ∀ cluster ∈ otherChain, volume.entry cluster = system.volume.entry cluster) :
    Exclusive { volume, files := Function.update system.files owner none } := by
  have remains : ∀ second other,
      Function.update system.files owner none second = some other →
      second ≠ owner ∧ system.files second = some other := by
    intro second other isOther
    by_cases same : second = owner
    · simp [same] at isOther
    · exact ⟨same, by simpa [same] using isOther⟩
  have carried : ∀ second other, Function.update system.files owner none second = some other →
      ∃ chain, system.volume.Chain other.blockStart.toNat chain ∧
        volume.Chain other.blockStart.toNat chain ∧
        ∀ cluster ∈ chain, volume.entry cluster ≠ freeCluster := by
    intro second other isOther
    obtain ⟨different, wasFile⟩ := remains second other isOther
    obtain ⟨chain, holds, owned⟩ := exclusive.owned second other wasFile
    have same := kept second other chain different wasFile holds
    refine ⟨chain, holds, holds.congr sameBpb same, ?_⟩
    intro cluster member
    rw [same cluster member]
    exact owned cluster member
  refine ⟨?_, ?_, ?_⟩
  · intro second other isOther
    exact exclusive.small second other (remains second other isOther).2
  · intro second other isOther
    obtain ⟨chain, -, after, inUse⟩ := carried second other isOther
    exact ⟨chain, after, inUse⟩
  · intro first second left right leftChain rightChain different isLeft isRight
      leftHolds rightHolds
    obtain ⟨leftBefore, leftBeforeHolds, leftAfter, -⟩ := carried first left isLeft
    obtain ⟨rightBefore, rightBeforeHolds, rightAfter, -⟩ := carried second right isRight
    obtain rfl := leftAfter.unique leftHolds
    obtain rfl := rightAfter.unique rightHolds
    exact exclusive.disjoint first second left right _ _ different (remains first left isLeft).2
      (remains second right isRight).2 leftBeforeHolds rightBeforeHolds

private theorem Exclusive.add {owner : Nat} {file : File} {chain : List Nat}
    (exclusive : system.Exclusive) (isNone : system.files owner = none)
    (smallStart : file.blockStart.toNat < 65536)
    (holds : system.volume.Chain file.blockStart.toNat chain)
    (inUse : ∀ cluster ∈ chain, system.volume.entry cluster ≠ freeCluster)
    (apart : ∀ second other otherChain, system.files second = some other →
      system.volume.Chain other.blockStart.toNat otherChain → List.Disjoint chain otherChain) :
    Exclusive { system with files := Function.update system.files owner (some file) } := by
  have cases_file : ∀ second other,
      Function.update system.files owner (some file) second = some other →
      second = owner ∧ other = file ∨ second ≠ owner ∧ system.files second = some other := by
    intro second other isFile
    by_cases same : second = owner
    · subst same
      rw [Function.update_self] at isFile
      exact .inl ⟨rfl, (Option.some.inj isFile).symm⟩
    · exact .inr ⟨same, by simpa [same] using isFile⟩
  refine ⟨?_, ?_, ?_⟩
  · intro second other isFile
    rcases cases_file second other isFile with ⟨-, rfl⟩ | ⟨-, wasFile⟩
    · exact smallStart
    · exact exclusive.small second other wasFile
  · intro second other isFile
    rcases cases_file second other isFile with ⟨-, rfl⟩ | ⟨-, wasFile⟩
    · exact ⟨chain, holds, inUse⟩
    · exact exclusive.owned second other wasFile
  · intro first second left right leftChain rightChain different isLeft isRight
      leftHolds rightHolds
    rcases cases_file first left isLeft with ⟨rfl, rfl⟩ | ⟨-, wasLeft⟩
    · obtain rfl := holds.unique leftHolds
      rcases cases_file second right isRight with ⟨same, -⟩ | ⟨-, wasRight⟩
      · exact absurd same.symm different
      · exact apart second right rightChain wasRight rightHolds
    · rcases cases_file second right isRight with ⟨-, rfl⟩ | ⟨-, wasRight⟩
      · obtain rfl := holds.unique rightHolds
        exact fun cluster inLeft inNew =>
          apart first left leftChain wasLeft leftHolds inNew inLeft
      · exact exclusive.disjoint first second left right _ _ different wasLeft wasRight
          leftHolds rightHolds

theorem Exclusive.grow {owner : Nat} {volume : Volume} {file : File}
    (exclusive : system.Exclusive) (chain fresh : List Nat)
    (sameBpb : volume.bpb = system.volume.bpb)
    (smallStart : file.blockStart.toNat < 65536)
    (wasOwned : ∀ cluster ∈ chain, ∃ old oldChain,
      system.files owner = some old ∧
      system.volume.Chain old.blockStart.toNat oldChain ∧ cluster ∈ oldChain)
    (wasFree : ∀ cluster ∈ fresh, cluster ∈ system.volume.freeClusters)
    (holds : volume.Chain file.blockStart.toNat (chain ++ fresh))
    (inUse : ∀ cluster ∈ chain ++ fresh, volume.entry cluster ≠ freeCluster)
    (others : ∀ cluster < system.volume.capacity, cluster ∉ fresh →
      cluster ∉ chain → volume.entry cluster = system.volume.entry cluster) :
    Exclusive
      { volume, files := Function.update system.files owner (some file) } := by
  have apart : ∀ second other otherChain, second ≠ owner →
      system.files second = some other →
      system.volume.Chain other.blockStart.toNat otherChain →
      ∀ cluster ∈ otherChain, cluster ∉ chain ++ fresh := by
    intro second other otherChain different isFile otherHolds cluster member inNew
    rcases List.mem_append.mp inNew with old | new
    · obtain ⟨oldFile, oldChain, isOld, oldHolds, oldMember⟩ := wasOwned cluster old
      exact exclusive.disjoint second owner other oldFile otherChain oldChain
        different isFile isOld otherHolds oldHolds member oldMember
    · obtain ⟨someChain, someHolds, someOwned⟩ := exclusive.owned second other isFile
      obtain rfl := someHolds.unique otherHolds
      exact someOwned cluster member (mem_freeClusters.mp (wasFree cluster new)).2.2
  have kept : ∀ second other otherChain, second ≠ owner → system.files second = some other →
      system.volume.Chain other.blockStart.toNat otherChain →
      ∀ cluster ∈ otherChain, volume.entry cluster = system.volume.entry cluster := by
    intro second other otherChain different isFile otherHolds cluster member
    have outside := apart second other otherChain different isFile otherHolds cluster member
    rw [List.mem_append, not_or] at outside
    exact others cluster (otherHolds.inside member).2 outside.2 outside.1
  have remaining := exclusive.without sameBpb kept
  have added := remaining.add (Function.update_self ..) smallStart holds inUse (by
    intro second other otherChain isFile otherHolds cluster inNew inOther
    by_cases same : second = owner
    · simp [same] at isFile
    · have wasFile : system.files second = some other := by simpa [same] using isFile
      obtain ⟨before, beforeHolds, -⟩ := exclusive.owned second other wasFile
      have after := beforeHolds.congr sameBpb (kept second other before same wasFile beforeHolds)
      obtain rfl := after.unique otherHolds
      exact apart second other before same wasFile beforeHolds cluster inOther inNew)
  simpa using added

theorem Exclusive.drop {owner : Nat} {volume : Volume} {file : File}
    {chain : List Nat} (exclusive : system.Exclusive)
    (isFile : system.files owner = some file)
    (holds : system.volume.Chain file.blockStart.toNat chain)
    (sameBpb : volume.bpb = system.volume.bpb)
    (others : ∀ cluster < system.volume.capacity, cluster ∉ chain →
      volume.entry cluster = system.volume.entry cluster) :
    Exclusive { volume, files := Function.update system.files owner none } := by
  apply exclusive.without sameBpb
  intro second other otherChain different wasFile otherHolds cluster member
  refine others cluster (otherHolds.inside member).2 ?_
  intro inChain
  exact exclusive.disjoint owner second file other chain otherChain
    (Ne.symm different) isFile wasFile holds otherHolds inChain member

theorem step {call : ClusterCall} (sane : system.volume.Sane)
    (exclusive : system.Exclusive) (allowed : system.Allowed call)
    (safe : system.Safe call) :
    ∃ after, system.Returns call after ∧ after.volume.Sane ∧ after.Exclusive := by
  cases call with
  | malloc owner count =>
      obtain ⟨volume, start, success, volumeSane, sameBpb, isStart, isEmpty, holds, -,
        inUse, others⟩ := sane.malloc safe
      have small : start < 65536 ∧ (UInt32.ofNat start).toNat = start := by
        rcases Nat.eq_zero_or_pos count.toNat with none | some
        · rw [(isEmpty none).1]
          decide
        · rw [isStart some]
          decide
      let file : File :=
        { size := 0, blockStart := UInt32.ofNat start
          blockCur := UInt32.ofNat start }
      refine ⟨{ volume, files := Function.update system.files owner (some file) },
        ⟨1, ?_⟩, volumeSane, ?_⟩
      · intro fuel enough
        simp only [exec, success fuel enough]
        rfl
      · refine exclusive.grow [] _ sameBpb ?_ (by simp) safe.range_free ?_ ?_ ?_
        · change (UInt32.ofNat start).toNat < 65536
          rw [small.2]
          exact small.1
        · change volume.Chain (UInt32.ofNat start).toNat _
          rw [small.2]
          exact holds
        · exact inUse
        · intro cluster inside outside _
          exact others cluster inside outside
  | expand owner size =>
      obtain ⟨file, isFile⟩ := allowed
      obtain ⟨chain, holds, owned⟩ := exclusive.owned owner file isFile
      have fileSmall := exclusive.small owner file isFile
      cases asks : system.volume.expandCount file size with
      | none =>
          refine ⟨system, ⟨0, ?_⟩, sane, exclusive⟩
          intro fuel _
          have same : Function.update system.files owner (some file) =
              system.files := by
            rw [← isFile, Function.update_eq_self]
          simp [exec, isFile, Volume.expandFile, asks, same]
      | some clusterCount =>
          obtain ⟨fits, standsAtEnd⟩ := safe file clusterCount isFile asks
          obtain ⟨volume, result, err, success, volumeSane, sameBpb, -, -, grown,
            inUse, small, others⟩ := sane.expandFile asks fits holds owned (by
              intro valid
              obtain ⟨other, otherHolds, ends⟩ := standsAtEnd valid
              rw [holds.unique otherHolds]
              exact ends)
          refine ⟨{ volume
                    files := Function.update system.files owner (some result) },
            ⟨1, ?_⟩, volumeSane, ?_⟩
          · intro fuel enough
            simp only [exec, isFile, success fuel enough]
            rfl
          · refine exclusive.grow chain _ sameBpb (by omega) ?_ fits.range_free grown
              inUse ?_
            · intro cluster member
              exact ⟨file, chain, isFile, holds, member⟩
            · intro cluster inside outside outsideChain
              refine others cluster inside outside ?_
              rintro valid rfl
              obtain ⟨other, otherHolds, ends⟩ := standsAtEnd valid
              rw [← holds.unique otherHolds] at ends
              exact outsideChain (List.mem_of_getLast? ends)
  | free owner =>
      obtain ⟨file, isFile⟩ := allowed
      obtain ⟨chain, holds, -⟩ := exclusive.owned owner file isFile
      have small : file.blockStart.toNat % 65536 = file.blockStart.toNat :=
        Nat.mod_eq_of_lt (exclusive.small owner file isFile)
      have freeSafe := safe file isFile
      rw [small] at freeSafe
      obtain ⟨volume, success, volumeSane, sameBpb, -, others⟩ :=
        sane.freeClusterChain freeSafe holds
      refine ⟨{ volume, files := Function.update system.files owner none },
        ⟨2, ?_⟩, volumeSane, exclusive.drop isFile holds sameBpb others⟩
      intro fuel enough
      simp [exec, isFile, small, success fuel enough]

theorem meets {call : ClusterCall} (sane : system.volume.Sane)
    (exclusive : system.Exclusive) (safe : system.Safe call) :
    system.Meets call := by
  cases call with
  | malloc owner count =>
      obtain ⟨volume, start, success, -, -, -, -, holds, ends, -, others⟩ :=
        sane.malloc safe
      refine ⟨1, volume, start, fun fuel enough => success fuel enough, ⟨?_, ?_⟩⟩
      · intro _
        exact ⟨List.range' clusterStart count.toNat, by simp, List.nodup_range',
          safe.range_free, holds, ends, others⟩
      · intro scarce
        have enough := safe.enough
        omega
  | expand owner size =>
      intro file isFile
      obtain ⟨chain, holds, owned⟩ := exclusive.owned owner file isFile
      cases asks : system.volume.expandCount file size with
      | none =>
          refine ⟨0, system.volume, file, 0, ?_, fun _ => ⟨rfl, rfl⟩, by simp⟩
          intro fuel _
          simp [Volume.expandFile, asks]
      | some clusterCount =>
          obtain ⟨fits, standsAtEnd⟩ := safe file clusterCount isFile asks
          obtain ⟨volume, result, err, success, -, -, succeeds, nothing, grown, -, -,
            others⟩ := sane.expandFile asks fits holds owned (by
              intro valid
              obtain ⟨other, otherHolds, ends⟩ := standsAtEnd valid
              rw [holds.unique otherHolds]
              exact ends)
          refine ⟨1, volume, result, err, fun fuel enough => success fuel enough,
            by simp, ?_⟩
          intro _ sameCount
          obtain rfl := Option.some.inj sameCount
          refine ⟨?_, ?_⟩
          · intro positive _
            refine ⟨succeeds positive, _, by simp, List.nodup_range',
              fits.range_free, ?_, ?_⟩
            · intro someChain someHolds
              rw [← holds.unique someHolds]
              exact grown
            · intro cluster inside outside notCur
              exact others cluster inside outside fun _ => notCur
          · intro zeroOrScarce
            have enough := fits.enough
            obtain ⟨rfl, rfl⟩ := nothing (by omega)
            exact ⟨rfl, fun _ _ => rfl⟩
  | free owner =>
      intro file isFile
      obtain ⟨chain, holds, -⟩ := exclusive.owned owner file isFile
      have small : file.blockStart.toNat % 65536 = file.blockStart.toNat :=
        Nat.mod_eq_of_lt (exclusive.small owner file isFile)
      have freeSafe := safe file isFile
      rw [small] at freeSafe ⊢
      obtain ⟨volume, success, -, -, freed, others⟩ :=
        sane.freeClusterChain freeSafe holds
      refine ⟨2, volume, success, ?_⟩
      intro someChain someHolds
      rw [← holds.unique someHolds]
      exact ⟨freed, others⟩

theorem Run.invariant (run : Run Safe system) :
    system.volume.Sane ∧ system.Exclusive := by
  induction run with
  | start sane exclusive => exact ⟨sane, exclusive⟩
  | @step system after call run allowed safe returns ih =>
      obtain ⟨reached, ⟨bound, success⟩, sane, exclusive⟩ :=
        FileSystem.step ih.1 ih.2 allowed safe
      obtain ⟨otherBound, otherSuccess⟩ := returns
      obtain rfl : reached = after := by
        have result := success (max bound otherBound) (Nat.le_max_left ..)
        rw [otherSuccess _ (Nat.le_max_right ..)] at result
        exact (Option.some.inj result).symm
      exact ⟨sane, exclusive⟩

def small (entry : UInt8) : Volume where
  bpb :=
    { bytesPerSector := 512, sectorsPerCluster := 1, reservedSectorCount := 1
      fatCount := 2, rootEntryCount := 512, sectorsPerFat := 1 }
  disk := fun sector offset => if sector = 1 ∧ offset / 2 = 2 then entry else 0
  cacheSectorStart := 0
  cacheSectorSize := 0
  cacheBuf := fun _ => 0

theorem small_sane (entry : UInt8) : (small entry).Sane :=
  ⟨⟨by simp [small], by simp [small], rfl⟩, by simp [Coherent, small]⟩

theorem small_free (entry : UInt8) : 3 ∈ (small entry).freeClusters :=
  mem_freeClusters.mpr ⟨by simp [small, capacity], by decide,
    by simp [Volume.entry, small, wordAt, freeCluster]⟩

end FileSystem

end CleanOS.Fs
