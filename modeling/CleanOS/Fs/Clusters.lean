import CleanOS.Fs.ClusterTable
import Mathlib.Data.List.Nodup
import Mathlib.Data.List.Perm.Subperm

/-!
# Chains of clusters

Which clusters a file owns, what allocation, extension and release are supposed
to do to them, and the calls for which `malloc_free_cluster`, `expand_file` and
`free_cluster_chain` do that.
-/

namespace CleanOS.Fs

namespace Volume

variable {volume after : Volume}

/-- The clusters visited by following the entries of the table. -/
inductive Chain (volume : Volume) : Nat → List Nat → Prop where
  | done {cluster : Nat} (ends : ¬ IsValidCluster cluster) : Chain volume cluster []
  | link {cluster : Nat} {rest : List Nat} (valid : IsValidCluster cluster)
      (inside : cluster < volume.capacity)
      (more : Chain volume (volume.entry cluster) rest) :
      Chain volume cluster (cluster :: rest)

def freeClusters (volume : Volume) : List Nat :=
  (List.range volume.capacity).filter fun cluster =>
    IsValidCluster cluster ∧ volume.entry cluster = freeCluster

theorem mem_freeClusters {cluster : Nat} :
    cluster ∈ volume.freeClusters ↔ cluster < volume.capacity ∧
      IsValidCluster cluster ∧ volume.entry cluster = freeCluster := by
  simp [freeClusters]

theorem capacity_eq (sameBpb : after.bpb = volume.bpb) :
    after.capacity = volume.capacity := by
  simp [capacity, sameBpb]

namespace Chain

theorem inside {cluster member : Nat} {chain : List Nat}
    (holds : Chain volume cluster chain) (isMember : member ∈ chain) :
    IsValidCluster member ∧ member < volume.capacity := by
  induction holds with
  | done => cases isMember
  | link valid inside _ ih =>
      rcases List.mem_cons.mp isMember with rfl | later
      · exact ⟨valid, inside⟩
      · exact ih later

theorem unique {cluster : Nat} {first second : List Nat}
    (holds : Chain volume cluster first) (other : Chain volume cluster second) :
    first = second := by
  induction holds generalizing second with
  | done ends =>
      cases other with
      | done => rfl
      | link valid => exact absurd valid ends
  | link valid _ _ ih =>
      cases other with
      | done ends => exact absurd valid ends
      | link _ _ more => rw [ih more]

theorem suffix {cluster member : Nat} {chain : List Nat}
    (holds : Chain volume cluster chain) (isMember : member ∈ chain) :
    ∃ tail, Chain volume member tail ∧ tail.length ≤ chain.length := by
  induction holds with
  | done => cases isMember
  | @link cluster rest valid inside more ih =>
      rcases List.mem_cons.mp isMember with rfl | later
      · exact ⟨_, .link valid inside more, Nat.le_refl _⟩
      · obtain ⟨tail, tailHolds, shorter⟩ := ih later
        exact ⟨tail, tailHolds, Nat.le_succ_of_le shorter⟩

theorem nodup {cluster : Nat} {chain : List Nat}
    (holds : Chain volume cluster chain) : chain.Nodup := by
  induction holds with
  | done => simp
  | @link cluster rest valid inside more ih =>
      refine List.nodup_cons.mpr ⟨?_, ih⟩
      intro again
      obtain ⟨tail, tailHolds, shorter⟩ := more.suffix again
      have same := tailHolds.unique (.link valid inside more)
      rw [same, List.length_cons] at shorter
      omega

theorem congr {cluster : Nat} {chain : List Nat}
    (holds : Chain volume cluster chain) (sameBpb : after.bpb = volume.bpb)
    (sameEntry : ∀ member ∈ chain, after.entry member = volume.entry member) :
    Chain after cluster chain := by
  induction holds with
  | done ends => exact .done ends
  | link valid inside _ ih =>
      refine .link valid (by rwa [capacity_eq sameBpb]) ?_
      rw [sameEntry _ (by simp)]
      exact ih fun member isMember => sameEntry member (by simp [isMember])

theorem append {cluster last next : Nat} {chain more : List Nat}
    (holds : Chain volume cluster chain) (ends : chain.getLast? = some last)
    (sameBpb : after.bpb = volume.bpb)
    (sameEntry : ∀ member ∈ chain, member ≠ last →
      after.entry member = volume.entry member)
    (redirected : after.entry last = next) (continues : Chain after next more) :
    Chain after cluster (chain ++ more) := by
  induction holds with
  | done => simp at ends
  | @link cluster rest valid inside continuing ih =>
      have insideAfter : cluster < after.capacity := by
        rwa [capacity_eq sameBpb]
      cases rest with
      | nil =>
          obtain rfl : cluster = last := by simpa using ends
          refine .link valid insideAfter ?_
          rw [redirected]
          exact continues
      | cons second others =>
          have endsLater : (second :: others).getLast? = some last := by
            simpa [List.getLast?_cons_cons] using ends
          have lastLater : last ∈ second :: others :=
            List.mem_of_getLast? endsLater
          have different : cluster ≠ last := by
            rintro rfl
            exact (List.nodup_cons.mp (link valid inside continuing).nodup).1
              lastLater
          refine .link valid insideAfter ?_
          rw [sameEntry cluster (by simp) different]
          exact ih endsLater fun member isMember =>
            sameEntry member (by simp [isMember])

end Chain

/-- What allocating `count` clusters is to do. -/
structure MallocContract (before after : Volume) (count : Int) (result : Nat) :
    Prop where
  success : count.toNat ≤ before.freeClusters.length →
    ∃ clusters : List Nat, clusters.length = count.toNat ∧ clusters.Nodup ∧
      (∀ cluster ∈ clusters, cluster ∈ before.freeClusters) ∧
      after.Chain result clusters ∧
      (∀ last ∈ clusters.getLast?, invalidCluster ≤ after.entry last) ∧
      ∀ cluster < before.capacity, cluster ∉ clusters →
        after.entry cluster = before.entry cluster
  failure : before.freeClusters.length < count.toNat →
    result = invalidCluster ∧
      ∀ cluster < before.capacity, after.entry cluster = before.entry cluster

/-- What releasing the chain at `cluster` is to do. -/
def FreeContract (before after : Volume) (cluster : Nat) : Prop :=
  ∀ chain, before.Chain cluster chain →
    (∀ member ∈ chain, after.entry member = freeCluster) ∧
    ∀ other < before.capacity, other ∉ chain →
      after.entry other = before.entry other

/-- What extending a file by `count` clusters is to do. -/
structure ExpandContract (before after : Volume) (file result : File)
    (count : Nat) (err : Int) : Prop where
  success : 0 < count → count ≤ before.freeClusters.length →
    err = 0 ∧ ∃ clusters : List Nat, clusters.length = count ∧ clusters.Nodup ∧
      (∀ cluster ∈ clusters, cluster ∈ before.freeClusters) ∧
      (∀ chain, before.Chain file.blockStart.toNat chain →
        after.Chain result.blockStart.toNat (chain ++ clusters)) ∧
      ∀ cluster < before.capacity, cluster ∉ clusters →
        cluster ≠ file.blockCur.toNat →
        after.entry cluster = before.entry cluster
  failure : count = 0 ∨ before.freeClusters.length < count →
    result = file ∧
      ∀ cluster < before.capacity, after.entry cluster = before.entry cluster

def Fits (volume : Volume) (count : Nat) : Prop :=
  ∀ cluster, clusterStart ≤ cluster → cluster < clusterStart + count →
    cluster ∈ volume.freeClusters

/-- The loop of `malloc_free_cluster` once `pre` is set: it links the clusters
from `pre` on to their successors. -/
theorem Sane.mallocLoop {count pre start : Nat} (sane : volume.Sane)
    (startValid : IsValidCluster start) (preStart : clusterStart ≤ pre)
    (valid : pre + count < invalidCluster) (inside : pre + count < volume.capacity) :
    ∃ after, volume.mallocLoop count (pre + 1) start pre =
        (after, start, pre + count, true) ∧ after.Sane ∧
      after.bpb = volume.bpb ∧
      ∀ cluster < volume.capacity, after.entry cluster =
        if pre ≤ cluster ∧ cluster < pre + count then cluster + 1
        else volume.entry cluster := by
  induction count generalizing volume pre with
  | zero =>
      refine ⟨volume, rfl, sane, rfl, ?_⟩
      intro cluster _
      rw [if_neg (by omega)]
  | succ count ih =>
      simp only [invalidCluster] at valid
      have preValid : IsValidCluster pre := ⟨preStart, by
        simp only [invalidCluster]
        omega⟩
      obtain ⟨linked, success, linkedSane, linkedBpb, linkedEntry⟩ :=
        sane.setCluster preValid (by omega) (show pre + 1 < 65536 by omega)
      have linkedCapacity := capacity_eq linkedBpb
      obtain ⟨after, rest, afterSane, afterBpb, afterEntry⟩ :=
        ih linkedSane (show clusterStart ≤ pre + 1 by omega)
          (by simp only [invalidCluster]; omega)
          (by rw [linkedCapacity]; omega)
      refine ⟨after, ?_, afterSane, afterBpb.trans linkedBpb, ?_⟩
      · have next : (pre + 1 + 1) % 65536 = pre + 1 + 1 :=
          Nat.mod_eq_of_lt (by omega)
        rw [Volume.mallocLoop]
        simp only [startValid, preValid, if_true, success, next, rest]
        rw [Nat.add_right_comm, Nat.add_assoc]
      · intro cluster clusterInside
        rw [afterEntry cluster (by rw [linkedCapacity]; exact clusterInside),
          linkedEntry cluster clusterInside]
        by_cases isPre : cluster = pre
        · subst isPre
          rw [if_neg (by omega), if_pos rfl, if_pos (by omega)]
        · rw [if_neg isPre]
          by_cases later : pre + 1 ≤ cluster ∧ cluster < pre + 1 + count
          · rw [if_pos later, if_pos (by omega)]
          · rw [if_neg later, if_neg (by omega)]

theorem Fits.bounds {count : Nat} (fits : volume.Fits (count + 1)) :
    clusterStart + count < invalidCluster ∧
      clusterStart + count < volume.capacity := by
  have last := mem_freeClusters.mp (fits (clusterStart + count) (by omega) (by omega))
  exact ⟨last.2.1.2, last.1⟩

theorem Sane.mallocFreeCluster_succ {count : Nat} (sane : volume.Sane)
    (fits : volume.Fits (count + 1)) :
    ∃ after, (∀ fuel, volume.mallocFreeCluster fuel (count + 1 : Nat) =
        some (after, clusterStart)) ∧ after.Sane ∧ after.bpb = volume.bpb ∧
      ∀ cluster < volume.capacity, after.entry cluster =
        if clusterStart ≤ cluster ∧ cluster < clusterStart + count then cluster + 1
        else if cluster = clusterStart + count then invalidCluster
        else volume.entry cluster := by
  obtain ⟨valid, inside⟩ := fits.bounds
  have startValid : IsValidCluster clusterStart := ⟨Nat.le_refl _, by decide⟩
  have notValid : ¬ IsValidCluster invalidCluster := by
    simp [IsValidCluster]
  obtain ⟨linked, loops, linkedSane, linkedBpb, linkedEntry⟩ :=
    sane.mallocLoop startValid (Nat.le_refl _) valid inside
  have linkedCapacity := capacity_eq linkedBpb
  obtain ⟨after, ends, afterSane, afterBpb, afterEntry⟩ := linkedSane.setCluster
    ⟨Nat.le_add_right _ _, valid⟩ (by rw [linkedCapacity]; exact inside)
    (show invalidCluster < 65536 by decide)
  refine ⟨after, ?_, afterSane, afterBpb.trans linkedBpb, ?_⟩
  · intro fuel
    have enters : volume.mallocLoop (count + 1) clusterStart invalidCluster
        invalidCluster = (linked, clusterStart, clusterStart + count, true) := by
      rw [Volume.mallocLoop]
      simp only [notValid, if_false]
      exact loops
    simp only [Volume.mallocFreeCluster, Int.toNat_natCast, enters, ends,
      Int.natCast_nonneg, if_true]
  · intro cluster clusterInside
    rw [afterEntry cluster (by rw [linkedCapacity]; exact clusterInside),
      linkedEntry cluster clusterInside]
    by_cases isLast : cluster = clusterStart + count
    · rw [if_pos isLast, if_neg (by omega), if_pos isLast]
    · rw [if_neg isLast, if_neg isLast]

theorem mallocFreeCluster_of_nonpos {fuel : Nat} {count : Int}
    (none : count.toNat = 0) :
    volume.mallocFreeCluster (fuel + 1) count = some (volume, invalidCluster) := by
  have notValid : ¬ IsValidCluster invalidCluster := by
    simp [IsValidCluster]
  simp [Volume.mallocFreeCluster, none, Volume.mallocLoop, Volume.setCluster,
    Volume.freeClusterChain, notValid]

theorem chain_range {first count stop : Nat} (ends : first + count = stop)
    (start : clusterStart ≤ first) (valid : stop ≤ invalidCluster)
    (inside : stop ≤ volume.capacity)
    (linked : ∀ cluster, first ≤ cluster → cluster + 1 < stop →
      volume.entry cluster = cluster + 1)
    (last : ∀ cluster, cluster + 1 = stop → first ≤ cluster →
      volume.entry cluster = invalidCluster) (nonempty : 0 < count) :
    volume.Chain first (List.range' first count) := by
  induction count generalizing first with
  | zero => omega
  | succ count ih =>
      rw [List.range'_succ]
      refine .link ⟨start, by omega⟩ (by omega) ?_
      cases count with
      | zero =>
          rw [last first (by omega) (Nat.le_refl _)]
          exact .done (by simp [IsValidCluster])
      | succ count =>
          rw [linked first (Nat.le_refl _) (by omega)]
          exact ih (by omega) (by omega)
            (fun cluster after => linked cluster (by omega))
            (fun cluster isLast after => last cluster isLast (by omega)) (by omega)

theorem Fits.enough {count : Nat} (fits : volume.Fits count) :
    count ≤ volume.freeClusters.length := by
  have subperm : List.Subperm (List.range' clusterStart count)
      volume.freeClusters := by
    refine List.subperm_of_subset List.nodup_range' ?_
    intro cluster member
    rw [List.mem_range'_1] at member
    exact fits cluster member.1 member.2
  simpa using subperm.length_le

theorem Sane.malloc {count : Int} (sane : volume.Sane)
    (fits : volume.Fits count.toNat) :
    ∃ after result, (∀ fuel, 0 < fuel → volume.mallocFreeCluster fuel count =
        some (after, result)) ∧ after.Sane ∧ after.bpb = volume.bpb ∧
      (0 < count.toNat → result = clusterStart) ∧
      (count.toNat = 0 → result = invalidCluster ∧ after = volume) ∧
      after.Chain result (List.range' clusterStart count.toNat) ∧
      (∀ last ∈ (List.range' clusterStart count.toNat).getLast?,
        invalidCluster ≤ after.entry last) ∧
      (∀ cluster ∈ List.range' clusterStart count.toNat,
        after.entry cluster ≠ freeCluster) ∧
      ∀ cluster < volume.capacity,
        cluster ∉ List.range' clusterStart count.toNat →
        after.entry cluster = volume.entry cluster := by
  cases amount : count.toNat with
  | zero =>
      refine ⟨volume, invalidCluster, ?_, sane, rfl, by simp, by simp, ?_, by simp,
        by simp, by simp⟩
      · intro fuel positive
        obtain ⟨fuel, rfl⟩ := Nat.exists_eq_succ_of_ne_zero (by omega : fuel ≠ 0)
        exact mallocFreeCluster_of_nonpos amount
      · exact .done (by simp [IsValidCluster])
  | succ rest =>
      rw [amount] at fits
      obtain ⟨valid, inside⟩ := fits.bounds
      obtain ⟨after, success, afterSane, afterBpb, afterEntry⟩ :=
        sane.mallocFreeCluster_succ fits
      have countEq : ((rest + 1 : Nat) : Int) = count := by omega
      rw [countEq] at success
      have afterCapacity := capacity_eq afterBpb
      refine ⟨after, clusterStart, fun fuel _ => success fuel, afterSane, afterBpb,
        by simp, by simp, ?_, ?_, ?_, ?_⟩
      · refine chain_range rfl (Nat.le_refl _) (by omega)
          (by rw [afterCapacity]; omega) ?_ ?_ (by omega)
        · intro cluster low high
          rw [afterEntry cluster (by omega), if_pos (by omega)]
        · intro cluster isLast low
          rw [afterEntry cluster (by omega), if_neg (by omega),
            if_pos (by omega)]
      · intro last isLast
        have lastEq : last = clusterStart + rest := by
          rw [List.range'_concat] at isLast
          simpa using isLast.symm
        refine Nat.le_of_eq ?_
        rw [lastEq, afterEntry _ inside, if_neg (by omega), if_pos rfl]
      · intro cluster member
        rw [List.mem_range'_1] at member
        rw [afterEntry cluster (by omega)]
        by_cases isLast : cluster = clusterStart + rest
        · rw [if_neg (by omega), if_pos isLast]
          decide
        · rw [if_pos (by omega)]
          simp [freeCluster]
      · intro cluster clusterInside outside
        rw [List.mem_range'_1] at outside
        rw [afterEntry cluster clusterInside, if_neg (by omega), if_neg (by omega)]

theorem Fits.range_free {count : Nat} (fits : volume.Fits count) :
    ∀ cluster ∈ List.range' clusterStart count, cluster ∈ volume.freeClusters := by
  intro cluster member
  rw [List.mem_range'_1] at member
  exact fits cluster member.1 member.2

/-- Releasing works for a file of one cluster whose offset in its table sector
happens to cancel the first word of that sector. -/
def FreeSafe (volume : Volume) (cluster : Nat) : Prop :=
  ¬ IsValidCluster cluster ∨
    cluster < volume.capacity ∧ ¬ IsValidCluster (volume.entry cluster) ∧
      (volume.sectorWord cluster +
        cluster * 2 % volume.bpb.bytesPerSector) % 65536 = 0

theorem Sane.freeClusterChain {cluster : Nat} {chain : List Nat}
    (sane : volume.Sane) (safe : volume.FreeSafe cluster)
    (holds : volume.Chain cluster chain) :
    ∃ after, (∀ fuel, 2 ≤ fuel →
        volume.freeClusterChain fuel cluster = some after) ∧
      after.Sane ∧ after.bpb = volume.bpb ∧
      (∀ member ∈ chain, after.entry member = freeCluster) ∧
      ∀ other < volume.capacity, other ∉ chain →
        after.entry other = volume.entry other := by
  rcases safe with notValid | ⟨inside, single, cancels⟩
  · obtain rfl := holds.unique (.done notValid)
    refine ⟨volume, ?_, sane, rfl, by simp, fun _ _ _ => rfl⟩
    intro fuel enough
    obtain ⟨fuel, rfl⟩ := Nat.exists_eq_succ_of_ne_zero (by omega : fuel ≠ 0)
    simp [Volume.freeClusterChain, notValid]
  · by_cases valid : IsValidCluster cluster
    · obtain rfl := holds.unique (.link valid inside (.done single))
      obtain ⟨read, reads, readSane, readBpb, readDisk⟩ := sane.getNextCluster inside
      have readCapacity := capacity_eq readBpb
      obtain ⟨after, writes, afterSane, afterBpb, afterEntry⟩ :=
        readSane.setCluster valid (by rw [readCapacity]; exact inside)
          (show 0 < 65536 by decide)
      have readEntry : ∀ other, read.entry other = volume.entry other := by
        intro other
        simp [entry, readBpb, readDisk]
      refine ⟨after, ?_, afterSane, afterBpb.trans readBpb, ?_, ?_⟩
      · intro fuel enough
        obtain ⟨fuel, rfl⟩ := Nat.exists_eq_add_of_le enough
        have zero : ¬ IsValidCluster 0 := by decide
        rw [Nat.add_comm, Volume.freeClusterChain, if_pos valid, reads, cancels]
        simp only [writes]
        rw [Volume.freeClusterChain, if_neg zero]
      · intro member isMember
        rw [List.mem_singleton.mp isMember, afterEntry _ (by
          rw [readCapacity]; exact inside), if_pos rfl]
        rfl
      · intro other otherInside outside
        rw [afterEntry other (by rw [readCapacity]; exact otherInside),
          if_neg (by simpa using outside), readEntry]
    · obtain rfl := holds.unique (.done valid)
      refine ⟨volume, ?_, sane, rfl, by simp, fun _ _ _ => rfl⟩
      intro fuel enough
      obtain ⟨fuel, rfl⟩ := Nat.exists_eq_succ_of_ne_zero (by omega : fuel ≠ 0)
      simp [Volume.freeClusterChain, valid]

end Volume

end CleanOS.Fs
