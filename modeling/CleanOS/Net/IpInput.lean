import CleanOS.Net.InPlace

/-!
# What IPv4 input passes on

`ipv4_in` up to the point where it hands a packet to `ipv4_normal_in` or to
`ipv4_frag_in`, and what holds of that packet.
-/

namespace CleanOS.Net

/-- `ipv4_in` answers by itself, or passes a packet on with its header in host order. -/
inductive Ipv4Checked where
  | answered (err : NetErr) (mem : PktMem)
  | passed (hdr : List UInt8) (buf : Pktbuf) (mem : PktMem)

/-- `ipv4_in` up to the call of `ipv4_frag_in` or `ipv4_normal_in`. -/
def ipv4Check (netif : Netif) (mem : PktMem) (buf : Pktbuf) : Option Ipv4Checked := do
  let (err, buf, free) ← pktbufSetCont buf ipv4HdrLen mem.blockList
  let mem := { mem with blockList := free }
  if err.isError then some (.answered err mem)
  else
    let hdr ← pktHdr buf
    let hdr := iphdrHtons hdr
    let buf ← setPktHdr buf hdr
    let (err, buf, free) ← pktbufResize buf (hdrTotalLen hdr) mem.blockList
    let mem := { mem with blockList := free }
    if err.isError then some (.answered err mem)
    else if ¬ ipaddrIsMatch (hdrDestIp hdr) netif.ipAddr netif.netMask then
      some (.answered .notMatch (mem.pktbufFree buf))
    else some (.passed hdr buf mem)

/-- The rest of `ipv4_in`. -/
def ipv4PassOn (normalIn : NormalIn) (state : IpState) :
    Ipv4Checked → Option (NetErr × IpState × Option Handed)
  | .answered err mem => some (err, { state with mem := mem }, none)
  | .passed hdr buf mem =>
      if hdrMore hdr ∨ hdrOffset hdr ≠ 0 then
        ipv4FragIn normalIn { state with mem := mem } (hdrSrcIp hdr) buf
      else
        let (err, mem) := normalIn buf mem
        some (err, { state with mem := mem }, some ⟨[buf], buf⟩)

theorem ipv4In_eq {normalIn : NormalIn} {netif : Netif} {state : IpState} {buf : Pktbuf} :
    ipv4In normalIn netif state buf =
      (ipv4Check netif state.mem buf).bind (ipv4PassOn normalIn state) := by
  unfold ipv4In ipv4Check
  simp only [Option.bind_eq_bind, Option.bind_assoc]
  congr 1
  funext ⟨err, buf, free⟩
  dsimp only
  split
  · rfl
  · simp only [Option.bind_assoc]
    congr 1
    funext hdr
    congr 1
    funext buf
    congr 1
    funext ⟨err, buf, free⟩
    dsimp only
    split
    · rfl
    · split <;> rfl

/-- The field `total_len` of a packet in network order. -/
def wireTotalLen (received : List UInt8) : Nat :=
  hdrTotalLen (iphdrHtons received)

/-- Bytes that are an IPv4 packet: the header and the total length lie within them, and the
header verifies. -/
structure ValidIpv4 (received : List UInt8) : Prop where
  version : (received.getD 0 0).toNat / 16 = 4
  hdrSize : ipv4HdrLen ≤ ipv4HdrSize received
  inTotal : ipv4HdrSize received ≤ wireTotalLen received
  inReceived : wireTotalLen received ≤ received.length
  checksum : HdrVerifies (received.take (ipv4HdrSize received))

/-- A packet that is passed on as it should be: an IPv4 packet of received bytes only, with
three fields of its header in host order. -/
structure PassedSoundly (received hdr : List UInt8) (buf : Pktbuf) : Prop where
  version : (hdr.getD 0 0).toNat / 16 = 4
  hdrSize : ipv4HdrLen ≤ ipv4HdrSize hdr
  inTotal : ipv4HdrSize hdr ≤ hdrTotalLen hdr
  inReceived : hdrTotalLen hdr ≤ received.length
  checksum : HdrVerifies (iphdrHtons (buf.content.take (ipv4HdrSize hdr)))
  onlyReceived : buf.content = iphdrHtons (received.take (hdrTotalLen hdr))

/-- A packet as `ipv4_in` hands it over: its header can be read in place, and no block of it
is empty, unless all of it is. -/
structure HandedUp (buf : Pktbuf) : Prop where
  wellFormed : buf.WellFormed
  distinct : (blkIds buf.blkList).Nodup
  filled : buf.content ≠ [] → buf.Filled
  header : ∃ first rest, buf.blkList = first :: rest ∧
    first.data + (ipv4HdrLen : Int) ≤ pktbufBlkSize
  short : buf.content.length ≤ 65535

/-- Received bytes in a packet, beside the free blocks of the pool. -/
structure Stored (received : List UInt8) (mem : PktMem) (buf : Pktbuf) : Prop where
  wellFormed : buf.WellFormed
  content : buf.content = received
  distinct : (blkIds mem.blockList ++ blkIds buf.blkList).Nodup
  blocks : mem.blockList.length + buf.blkList.length ≤ pktbufBlkCnt

/-- Whatever blocks the received bytes are stored in and whatever blocks are free, what is
passed on is passed on soundly. -/
def PassesSoundly (netif : Netif) (received : List UInt8) : Prop :=
  ∀ mem buf, Stored received mem buf → ∀ hdr after left,
    ipv4Check netif mem buf = some (.passed hdr after left) → PassedSoundly received hdr after

section Fields

variable {received : List UInt8} {count : Nat}

theorem field16_lt {i : Nat} : field16 received i < 65536 := by
  have low := (received.getD i 0).toNat_lt
  have high := (received.getD (i + 1) 0).toNat_lt
  rw [field16]
  omega

theorem exists_fields (long : 8 ≤ received.length) :
    ∃ b0 b1 b2 b3 b4 b5 b6 b7 rest,
      received = b0 :: b1 :: b2 :: b3 :: b4 :: b5 :: b6 :: b7 :: rest :=
  match received, long with
  | b0 :: b1 :: b2 :: b3 :: b4 :: b5 :: b6 :: b7 :: rest, _ =>
      ⟨b0, b1, b2, b3, b4, b5, b6, b7, rest, rfl⟩

theorem iphdrHtons_swap (long : 8 ≤ received.length) :
    iphdrHtons (iphdrHtons received) = received := by
  obtain ⟨b0, b1, b2, b3, b4, b5, b6, b7, rest, rfl⟩ := exists_fields long
  rfl

theorem iphdrHtons_take (long : 8 ≤ received.length) (atLeast : 8 ≤ count) :
    iphdrHtons (received.take count) = (iphdrHtons received).take count := by
  obtain ⟨b0, b1, b2, b3, b4, b5, b6, b7, rest, rfl⟩ := exists_fields long
  obtain ⟨more, rfl⟩ := Nat.exists_eq_add_of_le' atLeast
  rfl

theorem iphdrHtons_split (long : ipv4HdrLen ≤ received.length) :
    iphdrHtons (received.take ipv4HdrLen) ++ received.drop ipv4HdrLen = iphdrHtons received := by
  have eight : 8 ≤ received.length := Nat.le_trans (by decide) long
  obtain ⟨b0, b1, b2, b3, b4, b5, b6, b7, rest, rfl⟩ := exists_fields eight
  have twelve := List.take_append_drop 12 rest
  exact congrArg (fun rest => b0 :: b1 :: b3 :: b2 :: b5 :: b4 :: b7 :: b6 :: rest) twelve

theorem hdrTotalLen_swapped (long : 8 ≤ received.length) :
    hdrTotalLen (iphdrHtons (received.take ipv4HdrLen)) = wireTotalLen received := by
  obtain ⟨b0, b1, b2, b3, b4, b5, b6, b7, rest, rfl⟩ := exists_fields long
  rfl

theorem getD_zero_swapped (long : 8 ≤ received.length) :
    (iphdrHtons (received.take ipv4HdrLen)).getD 0 0 = received.getD 0 0 := by
  obtain ⟨b0, b1, b2, b3, b4, b5, b6, b7, rest, rfl⟩ := exists_fields long
  rfl

theorem ipAddrFromBuf_take {bytes : List UInt8} :
    ipAddrFromBuf (bytes.take 4) = ipAddrFromBuf bytes := by
  simp [ipAddrFromBuf, List.getD_eq_getElem?_getD]

theorem hdrDestIp_swapped (long : 8 ≤ received.length) :
    hdrDestIp (iphdrHtons (received.take ipv4HdrLen)) = hdrDestIp received := by
  obtain ⟨b0, b1, b2, b3, b4, b5, b6, b7, rest, rfl⟩ := exists_fields long
  change ipAddrFromBuf ((rest.take 12).drop 8) = ipAddrFromBuf (rest.drop 8)
  rw [List.drop_take, ipAddrFromBuf_take]

end Fields

section Check

variable {netif : Netif} {mem : PktMem} {buf : Pktbuf}

theorem ipv4Check_short (holds : buf.WellFormed) (short : buf.content.length < ipv4HdrLen) :
    ipv4Check netif mem buf = some (.answered .size mem) := by
  have total := holds.length_content
  have fewer : ((ipv4HdrLen : Nat) : Int) > buf.totalSize := by omega
  have setCont : pktbufSetCont buf ipv4HdrLen mem.blockList =
      some (.size, buf, mem.blockList) := if_pos fewer
  simp only [ipv4Check, setCont, Option.bind_eq_bind, Option.bind_some, NetErr.isError, if_true]

theorem ipv4Check_eq (holds : buf.WellFormed) (long : ipv4HdrLen ≤ buf.content.length) :
    ∃ swapped free, Reshaped buf mem.blockList swapped free ∧
      swapped.content = iphdrHtons buf.content ∧
      (∃ data size, swapped.Starts data size ∧ (ipv4HdrLen : Int) ≤ size) ∧
      (buf.Filled → swapped.Filled) ∧ (HdrReady buf → SameLayout buf swapped ∧ free = mem.blockList) ∧
      ipv4Check netif mem buf =
        (pktbufResize swapped (wireTotalLen buf.content) free).bind fun (err, after, left) =>
          if err.isError then some (.answered err { mem with blockList := left })
          else if ¬ ipaddrIsMatch (hdrDestIp buf.content) netif.ipAddr netif.netMask then
            some (.answered .notMatch (PktMem.pktbufFree { mem with blockList := left } after))
          else some (.passed (iphdrHtons (buf.content.take ipv4HdrLen)) after
            { mem with blockList := left }) := by
  have total := holds.length_content
  have eight : 8 ≤ buf.content.length := Nat.le_trans (by decide) long
  have nonempty : buf.blkList ≠ [] := by
    intro none
    rw [Pktbuf.content, none] at long
    exact absurd long (by decide)
  obtain ⟨err, cont, free, setCont, reshaped, contTotal, content, leads⟩ :=
    @pktbufSetCont_spec buf mem.blockList ipv4HdrLen holds nonempty
  obtain ⟨isOk, first, rest, blks, firstSize⟩ := leads (by omega) (by decide)
  subst isOk
  have ready : HdrReady cont := ⟨first, rest, blks, firstSize⟩
  have hdrEq := pktHdr_eq reshaped.wellFormed.windows ready
  rw [content] at hdrEq
  have hdrLength : (iphdrHtons (buf.content.take ipv4HdrLen)).length = ipv4HdrLen := by
    rw [length_iphdrHtons, List.length_take]
    omega
  obtain ⟨swapped, setEq, layout, swappedContent, -⟩ :=
    setPktHdr_spec reshaped.wellFormed.windows ready hdrLength
  rw [content, iphdrHtons_split long] at swappedContent
  refine ⟨swapped, free, reshaped.trans (layout.reshaped reshaped.wellFormed), swappedContent,
    ⟨_, _, layout.starts ⟨first, rest, blks, rfl, rfl⟩, firstSize⟩,
    fun filled => layout.filled ((pktbufSetCont_blks setCont).2.1 filled), ?_, ?_⟩
  · rintro ⟨first, rest, blks, size⟩
    -- A first block that holds the header is left alone.
    have same : pktbufSetCont buf ipv4HdrLen mem.blockList = some (.ok, buf, mem.blockList) := by
      have fits : ¬ ((ipv4HdrLen : Nat) : Int) > buf.totalSize := by omega
      have small : ¬ ((ipv4HdrLen : Nat) : Int) > pktbufBlkSize := by decide
      simp only [pktbufSetCont, if_neg fits, if_neg small, blks, if_pos size]
    rw [setCont] at same
    cases same
    exact ⟨layout, rfl⟩
  · have accepted : ¬ NetErr.ok.isError = true := Bool.false_ne_true
    simp only [ipv4Check, setCont, Option.bind_eq_bind, Option.bind_some, if_neg accepted,
      hdrEq, setEq, hdrTotalLen_swapped eight, hdrDestIp_swapped eight]

theorem ipv4Check_passed {hdr : List UInt8} {after : Pktbuf} {left : PktMem}
    (holds : buf.WellFormed) (passed : ipv4Check netif mem buf = some (.passed hdr after left)) :
    ipv4HdrLen ≤ buf.content.length ∧
      hdr = iphdrHtons (buf.content.take ipv4HdrLen) ∧
      ipaddrIsMatch (hdrDestIp buf.content) netif.ipAddr netif.netMask ∧
      Reshaped buf mem.blockList after left.blockList ∧
      after.totalSize = wireTotalLen buf.content ∧
      (buf.Filled → (0 < wireTotalLen buf.content → after.Filled) ∧
        ∃ data size, after.Starts data size ∧ data + (ipv4HdrLen : Int) ≤ pktbufBlkSize) ∧
      (wireTotalLen buf.content ≤ buf.content.length →
        after.content = (iphdrHtons buf.content).take (wireTotalLen buf.content)) := by
  have long : ipv4HdrLen ≤ buf.content.length := by
    by_contra short
    rw [ipv4Check_short holds (by omega)] at passed
    cases passed
  obtain ⟨swapped, free, swappedReshaped, content, ⟨data, size, starts, header⟩, filled, -,
    checkEq⟩ := @ipv4Check_eq netif mem buf holds long
  have swappedHolds := swappedReshaped.wellFormed
  have total := swappedHolds.length_content
  rw [content, length_iphdrHtons] at total
  rw [checkEq] at passed
  obtain ⟨⟨err, resized, free'⟩, resizeEq, rest⟩ := Option.bind_eq_some_iff.mp passed
  dsimp only at rest
  have resizedSpec : err.isError = false → Reshaped buf mem.blockList resized free' ∧
      resized.totalSize = wireTotalLen buf.content ∧
      (wireTotalLen buf.content ≤ buf.content.length →
        resized.content = (iphdrHtons buf.content).take (wireTotalLen buf.content)) := by
    intro accepted
    by_cases smaller : wireTotalLen buf.content ≤ buf.content.length
    · obtain ⟨cut, left, cutEq, reshaped, size, cutContent⟩ :=
        @pktbufResize_cut swapped free (wireTotalLen buf.content) swappedHolds (by omega) (by omega)
      rw [cutEq] at resizeEq
      cases resizeEq
      rw [content, Int.toNat_natCast] at cutContent
      exact ⟨swappedReshaped.trans reshaped, size, fun _ => cutContent⟩
    · rcases @pktbufResize_extend swapped free (wireTotalLen buf.content) swappedHolds
          (by omega) with
        ⟨extended, left, extendEq, reshaped, size, -⟩ | ⟨failure, left, failEq, isError, -⟩
      · rw [extendEq] at resizeEq
        cases resizeEq
        exact ⟨swappedReshaped.trans reshaped, size, fun fits => absurd fits smaller⟩
      · rw [failEq] at resizeEq
        cases resizeEq
        rw [accepted] at isError
        cases isError
  cases accepted : err.isError with
  | true => simp only [accepted, if_true, Option.some.injEq, reduceCtorEq] at rest
  | false =>
      obtain ⟨reshaped, totalEq, cut⟩ := resizedSpec accepted
      by_cases isMatch : ipaddrIsMatch (hdrDestIp buf.content) netif.ipAddr netif.netMask = true
      · simp only [accepted, Bool.false_eq_true, if_false, isMatch, not_true_eq_false,
          Option.some.injEq, Ipv4Checked.passed.injEq] at rest
        obtain ⟨rfl, rfl, rfl⟩ := rest
        refine ⟨long, rfl, isMatch, reshaped, totalEq, fun allFilled => ?_, cut⟩
        obtain ⟨resizedFilled, size', resizedStarts⟩ :=
          pktbufResize_blks swappedHolds (filled allFilled) starts resizeEq
        refine ⟨fun positive => resizedFilled (by omega), data, size', resizedStarts, ?_⟩
        obtain ⟨first, rest, blks, rfl, rfl⟩ := starts
        have window := swappedHolds.windows first (by rw [blks]; exact List.mem_cons_self)
        exact Int.le_trans (Int.add_le_add_left header _) window.inside
      · simp only [accepted, Bool.false_eq_true, if_false, if_pos isMatch, Option.some.injEq,
          reduceCtorEq] at rest

theorem HandedUp.firstByte (handed : HandedUp buf) :
    ∃ byte, dataAt buf 0 1 = some byte ∧
      (buf.content ≠ [] → ipv4HdrSize byte = ipv4HdrSize buf.content) := by
  obtain ⟨first, rest, blks, header⟩ := handed.header
  have window := handed.wellFormed.windows first (by rw [blks]; exact List.mem_cons_self)
  have data := window.data
  by_cases empty : buf.content = []
  · have inside : 0 ≤ first.data + 0 ∧ (0 : Int) ≤ 1 ∧ first.data + 0 + 1 ≤ pktbufBlkSize := by
      simp only [ipv4HdrLen] at header
      omega
    refine ⟨slice first.payload (first.data + 0).toNat (1 : Int).toNat, ?_, absurd empty⟩
    rw [dataAt, blks]
    exact if_pos inside
  · have positive := handed.filled empty first (by rw [blks]; exact List.mem_cons_self)
    refine ⟨_, dataAt_eq handed.wellFormed.windows ⟨first, rest, blks, rfl, rfl⟩ (by decide)
      (by decide) (by omega), fun _ => ?_⟩
    obtain ⟨byte, others, contentEq⟩ := List.exists_cons_of_ne_nil empty
    rw [contentEq]
    rfl

structure MadeCont (buf : Pktbuf) (count : Nat) (cont : Pktbuf) (data size : Int) : Prop where
  wellFormed : cont.WellFormed
  distinct : (blkIds cont.blkList).Nodup
  filled : cont.Filled
  total : cont.totalSize = buf.content.length
  content : cont.content = buf.content
  starts : cont.Starts data size
  long : (count : Int) ≤ size
  moved : cont = buf ∨ (∃ first rest, buf.blkList = first :: rest ∧ first.size < (count : Int)) ∧
    ∃ grown, cont.Starts 0 grown

theorem HandedUp.setCont {count : Nat} {free : List Pktblk} (handed : HandedUp buf)
    (nonempty : buf.content ≠ []) (inPacket : count ≤ buf.content.length)
    (inBlock : (count : Int) ≤ pktbufBlkSize) :
    ∃ cont left data size, pktbufSetCont buf count free = some (.ok, cont, left) ∧
      MadeCont buf count cont data size := by
  have length := handed.wellFormed.length_content
  have someBlks : buf.blkList ≠ [] := by
    obtain ⟨first, rest, blks, -⟩ := handed.header
    rw [blks]
    exact List.cons_ne_nil _ _
  obtain ⟨err, cont, left, contEq, reshaped, total, content, leads⟩ :=
    @pktbufSetCont_spec buf free count handed.wellFormed someBlks
  obtain ⟨rfl, contLeads⟩ := leads (by omega) inBlock
  obtain ⟨ids, filled, moved⟩ := pktbufSetCont_blks contEq
  obtain ⟨data, size, starts, long⟩ := contLeads.starts
  exact ⟨cont, left, data, size, contEq, reshaped.wellFormed, handed.distinct.sublist ids,
    filled (handed.filled nonempty), by rw [total, length], content, starts, long, moved⟩

end Check

section Placement

/-- Bytes in blocks that are numbered from `id`, each as full as it can be. -/
def storeBlks : Nat → Nat → List UInt8 → List Pktblk
  | 0, _, _ => []
  | count + 1, id, bytes =>
      let payload := fun i => bytes.getD i 0
      if bytes.length ≤ 64 then [⟨id, bytes.length, 0, payload⟩]
      else ⟨id, 64, 0, payload⟩ :: storeBlks count (id + 1) (bytes.drop 64)

def Packed (blks : List Pktblk) : Prop :=
  ∀ front block, blks = front ++ [block] →
    blksSize blks + currBlkTailFree block = pktbufBlkSize * blks.length

theorem packed_of_frames {blks others : List Pktblk} (frames : blkFrames others = blkFrames blks)
    (packed : Packed blks) : Packed others := by
  intro front block split
  have count := congrArg List.length frames
  simp only [blkFrames, List.length_map] at count
  have size := blksSize_of_frames frames
  rw [split, blkFrames, blkFrames, List.map_append] at frames
  obtain ⟨front', last, blksEq, -, lastFrame⟩ := List.map_eq_append_iff.mp frames.symm
  obtain ⟨block', rfl, same⟩ := List.map_eq_singleton_iff.mp lastFrame
  simp only [Pktblk.frame, Prod.mk.injEq] at same
  have filled := packed front' block' blksEq
  simp only [currBlkTailFree, same.2] at filled ⊢
  rw [size, filled, count]

theorem window_getD {id : Nat} {size : Nat} {bytes : List UInt8} (inside : size ≤ bytes.length) :
    Pktblk.window ⟨id, size, 0, fun i => bytes.getD i 0⟩ = bytes.take size := by
  apply List.ext_getElem?
  intro i
  by_cases below : i < size
  · rw [Pktblk.window, slice_getElem? (by simpa using below), List.getElem?_take_of_lt below,
      List.getElem?_eq_getElem (by omega)]
    simp [List.getD_eq_getElem?_getD, List.getElem?_eq_getElem (show i < bytes.length by omega)]
  · rw [List.getElem?_eq_none (by simpa [Pktblk.length_window] using below),
      List.getElem?_eq_none (by simp; omega)]

theorem storeBlks_spec {count id : Nat} {bytes : List UInt8} (nonempty : bytes ≠ [])
    (room : bytes.length ≤ 64 * count) :
    Windows (storeBlks count id bytes) ∧ blksContent (storeBlks count id bytes) = bytes ∧
      (∃ used, used ≤ count ∧ blkIds (storeBlks count id bytes) = List.range' id used) ∧
      Packed (storeBlks count id bytes) ∧
      ∃ first rest, storeBlks count id bytes = first :: rest ∧
        first.size = min 64 (bytes.length : Int) := by
  induction count generalizing id bytes with
  | zero =>
      have := List.length_pos_of_ne_nil nonempty
      omega
  | succ count ih =>
      by_cases last : bytes.length ≤ 64
      · simp only [storeBlks, if_pos last]
        refine ⟨?_, ?_, ⟨1, by omega, rfl⟩, ?_, _, [], rfl, by simp only; omega⟩
        · rw [windows_cons]
          exact ⟨⟨Int.le_refl 0, by simp, by simp [pktbufBlkSize]; omega⟩, windows_nil⟩
        · rw [blksContent_cons, blksContent_nil, window_getD (Nat.le_refl _), List.take_length,
            List.append_nil]
        · intro front block split
          have only : [] ++ _ = front ++ [block] := split
          obtain ⟨-, same⟩ := List.append_inj' only rfl
          cases List.singleton_inj.mp same
          simp [currBlkTailFree]
      · have long : (bytes.drop 64).length = bytes.length - 64 := List.length_drop
        obtain ⟨windows, content, ⟨used, fewer, ids⟩, packed, -⟩ :=
          @ih (id + 1) (bytes.drop 64) (List.ne_nil_of_length_pos (by omega)) (by omega)
        simp only [storeBlks, if_neg last]
        refine ⟨?_, ?_, ⟨used + 1, by omega, ?_⟩, ?_, _, _, rfl, by simp only; omega⟩
        · rw [windows_cons]
          exact ⟨⟨Int.le_refl 0, by simp, by simp [pktbufBlkSize]⟩, windows⟩
        · have front := @window_getD id 64 bytes (by omega)
          rw [Nat.cast_ofNat] at front
          rw [blksContent_cons, content, front, List.take_append_drop]
        · rw [blkIds_cons, ids, List.range'_succ]
        · intro front block split
          cases front with
          | nil =>
              have behind := congrArg List.tail split
              rw [List.tail_cons, List.nil_append, List.tail_cons] at behind
              rw [behind, blkIds_nil] at ids
              have none : bytes.drop 64 = [] := by rw [← content, behind, blksContent_nil]
              rw [none, List.length_nil] at long
              omega
          | cons other front =>
              obtain ⟨-, split⟩ := List.cons.inj split
              have filled := packed front block split
              simp only [blksSize_cons, List.length_cons, pktbufBlkSize] at filled ⊢
              push_cast
              omega

def storedPacket (received : List UInt8) : Pktbuf where
  totalSize := received.length
  blkList := storeBlks pktbufBlkCnt 0 received
  ref := 1
  pos := 0
  currBlk := none
  blkOffset := 0

def spareMem (used : Nat) : PktMem where
  blockList := (List.range' used (pktbufBlkCnt - used)).map fun id => ⟨id, 0, 0, fun _ => 0⟩
  headers := pktbufBufCnt - 1

variable {received : List UInt8}

theorem storedPacket_stored (nonempty : received ≠ [])
    (fits : (received.length : Int) ≤ pktbufBlkSize * pktbufBlkCnt) :
    let used := (storedPacket received).blkList.length
    Stored received (spareMem used) (storedPacket received) ∧
      (spareMem used).blockList.length + used = pktbufBlkCnt := by
  have room : received.length ≤ 64 * pktbufBlkCnt := by
    simp only [pktbufBlkSize] at fits
    omega
  obtain ⟨windows, content, ⟨used, fewer, ids⟩, -⟩ :=
    @storeBlks_spec pktbufBlkCnt 0 received nonempty room
  have usedEq : (storedPacket received).blkList.length = used := by
    have lengths := congrArg List.length ids
    rw [blkIds, List.length_map, List.length_range'] at lengths
    exact lengths
  have spareIds : blkIds (spareMem used).blockList = List.range' used (pktbufBlkCnt - used) := by
    simp [spareMem, blkIds, Function.comp_def]
  have spare : (spareMem used).blockList.length = pktbufBlkCnt - used := by
    simp [spareMem]
  have length := windows.length_content
  rw [content] at length
  have nonneg := windows.size_nonneg
  intro count
  rw [show count = used from usedEq]
  refine ⟨⟨⟨?_, windows⟩, content, ?_, by rw [spare, usedEq]; omega⟩, by rw [spare]; omega⟩
  · simp only [storedPacket]
    omega
  · rw [spareIds, show blkIds (storedPacket received).blkList = _ from ids]
    apply List.Nodup.append List.nodup_range' List.nodup_range'
    intro id spareId packetId
    rw [List.mem_range'_1] at spareId packetId
    omega

theorem exists_passed {netif : Netif} (long : ipv4HdrLen ≤ received.length)
    (fits : (received.length : Int) ≤ pktbufBlkSize * pktbufBlkCnt)
    (isMatch : ipaddrIsMatch (hdrDestIp received) netif.ipAddr netif.netMask)
    (announced : (wireTotalLen received : Int) ≤ pktbufBlkSize * pktbufBlkCnt) :
    ∃ mem buf hdr after left, Stored received mem buf ∧
      ipv4Check netif mem buf = some (.passed hdr after left) := by
  have headerLen : ipv4HdrLen = 20 := rfl
  have nonempty : received ≠ [] := List.ne_nil_of_length_pos (by omega)
  have room : received.length ≤ 64 * pktbufBlkCnt := by
    simp only [pktbufBlkSize] at fits
    omega
  obtain ⟨stored, blocks⟩ := storedPacket_stored nonempty fits
  obtain ⟨-, -, -, packed, first, rest, blks, firstSize⟩ :=
    @storeBlks_spec pktbufBlkCnt 0 received nonempty room
  obtain ⟨used, usedEq⟩ : ∃ used, (storedPacket received).blkList.length = used := ⟨_, rfl⟩
  rw [usedEq] at stored blocks
  have ready : HdrReady (storedPacket received) := ⟨first, rest, blks, by omega⟩
  obtain ⟨swapped, free, reshaped, content, -, -, same, checkEq⟩ :=
    @ipv4Check_eq netif (spareMem used) _ stored.wellFormed (by rw [stored.content]; exact long)
  have swappedHolds := reshaped.wellFormed
  obtain ⟨layout, rfl⟩ := same ready
  rw [stored.content] at content checkEq
  have total := swappedHolds.length_content
  rw [content, length_iphdrHtons] at total
  obtain ⟨after, left, resizeEq⟩ : ∃ after left, pktbufResize swapped (wireTotalLen received)
      (spareMem used).blockList = some (.ok, after, left) := by
    by_cases smaller : wireTotalLen received ≤ received.length
    · obtain ⟨cut, left, cutEq, -⟩ := @pktbufResize_cut swapped (spareMem used).blockList
        (wireTotalLen received) swappedHolds (by omega) (by omega)
      exact ⟨cut, left, cutEq⟩
    · rcases @pktbufResize_extend swapped (spareMem used).blockList (wireTotalLen received)
          swappedHolds (by omega) with
        ⟨extended, left, extendEq, -⟩ | ⟨failure, left, -, -, -, short⟩
      · exact ⟨extended, left, extendEq⟩
      · -- The blocks of the packet and the free ones are all there are.
        have filled := packed_of_frames layout.frames packed
        have blocksEq := congrArg List.length layout.frames
        simp only [blkFrames, List.length_map] at blocksEq
        have totalEq := swappedHolds.total
        have someBlks : swapped.blkList ≠ [] := by
          intro none
          rw [none, blksSize_nil] at totalEq
          omega
        obtain ⟨front, block, split⟩ :=
          List.eq_nil_or_concat' swapped.blkList |>.resolve_left someBlks
        have tooFew := short (by omega) front block split
        have all := filled front block split
        simp only [pktbufBlkSize] at tooFew all announced
        omega
  have accepted : ¬ NetErr.ok.isError = true := Bool.false_ne_true
  refine ⟨spareMem used, storedPacket received, iphdrHtons (received.take ipv4HdrLen), after,
    { spareMem used with blockList := left }, stored, ?_⟩
  rw [checkEq, resizeEq, Option.bind_some]
  exact (if_neg accepted).trans (if_neg (not_not_intro isMatch))

theorem passedSoundly_iff {buf : Pktbuf} (long : ipv4HdrLen ≤ received.length)
    (content : wireTotalLen received ≤ received.length →
      buf.content = (iphdrHtons received).take (wireTotalLen received)) :
    PassedSoundly received (iphdrHtons (received.take ipv4HdrLen)) buf ↔ ValidIpv4 received := by
  have headerLen : ipv4HdrLen = 20 := rfl
  have eight : 8 ≤ received.length := by omega
  have byteEq := getD_zero_swapped eight
  have sizeEq : ipv4HdrSize (iphdrHtons (received.take ipv4HdrLen)) = ipv4HdrSize received := by
    rw [ipv4HdrSize, byteEq, ← ipv4HdrSize]
  have totalEq := hdrTotalLen_swapped eight
  -- The bytes of the header, in network order again.
  have hdrEq (hdrSize : ipv4HdrLen ≤ ipv4HdrSize received)
      (inTotal : ipv4HdrSize received ≤ wireTotalLen received)
      (inReceived : wireTotalLen received ≤ received.length) :
      iphdrHtons (buf.content.take (ipv4HdrSize received)) =
        received.take (ipv4HdrSize received) := by
    rw [content inReceived, List.take_take, Nat.min_eq_left inTotal,
      ← iphdrHtons_take eight (by omega), iphdrHtons_swap]
    rw [List.length_take]
    omega
  constructor
  · rintro ⟨version, hdrSize, inTotal, inReceived, checksum, -⟩
    rw [byteEq] at version
    rw [sizeEq] at hdrSize inTotal checksum
    rw [totalEq] at inTotal inReceived
    rw [hdrEq hdrSize inTotal inReceived] at checksum
    exact ⟨version, hdrSize, inTotal, inReceived, checksum⟩
  · rintro ⟨version, hdrSize, inTotal, inReceived, checksum⟩
    constructor
    · rw [byteEq]
      exact version
    · rw [sizeEq]
      exact hdrSize
    · rw [sizeEq, totalEq]
      exact inTotal
    · rw [totalEq]
      exact inReceived
    · rw [sizeEq, hdrEq hdrSize inTotal inReceived]
      exact checksum
    · rw [totalEq, content inReceived, iphdrHtons_take eight (by omega)]

/-- `ipv4_in` passes packets on soundly exactly when the received bytes are too few for a
header, go elsewhere, announce more than the pool can hold or are an IPv4 packet. -/
theorem passesSoundly_iff {netif : Netif}
    (fits : (received.length : Int) ≤ pktbufBlkSize * pktbufBlkCnt) :
    PassesSoundly netif received ↔
      received.length < ipv4HdrLen ∨
      ¬ ipaddrIsMatch (hdrDestIp received) netif.ipAddr netif.netMask ∨
      pktbufBlkSize * pktbufBlkCnt < (wireTotalLen received : Int) ∨
      ValidIpv4 received := by
  constructor
  · intro sound
    by_contra otherwise
    simp only [not_or, Nat.not_lt, Int.not_lt, not_not] at otherwise
    obtain ⟨long, isMatch, announced, invalid⟩ := otherwise
    obtain ⟨mem, buf, hdr, after, left, stored, passed⟩ :=
      exists_passed long fits isMatch announced
    have soundly := sound mem buf stored hdr after left passed
    obtain ⟨-, hdrEq, -, -, -, -, content⟩ := ipv4Check_passed stored.wellFormed passed
    rw [stored.content] at hdrEq content
    rw [hdrEq] at soundly
    exact invalid ((passedSoundly_iff long content).mp soundly)
  · intro condition mem buf stored hdr after left passed
    obtain ⟨long, hdrEq, isMatch, reshaped, total, -, content⟩ :=
      ipv4Check_passed stored.wellFormed passed
    rw [stored.content] at long hdrEq isMatch total content
    rcases condition with short | mismatch | announced | valid
    · exact absurd long (Nat.not_le.mpr short)
    · exact absurd isMatch mismatch
    · have size := reshaped.wellFormed.windows.size_le
      have pool := stored.blocks
      have totalEq := reshaped.wellFormed.total
      have blocks := reshaped.ids.length_eq
      simp only [List.length_append, blkIds, List.length_map] at blocks
      simp only [pktbufBlkSize] at size announced
      omega
    · rw [hdrEq]
      exact (passedSoundly_iff long content).mpr valid

end Placement

def sampleNetif : Netif where
  ipAddr := 0x0100000a
  netMask := 0x00ffffff
  mtu := 1500

/-- A packet with two bytes of data and two behind it, and a header whose total length goes
beyond what arrives. -/
theorem passesSoundly_samples :
    PassesSoundly sampleNetif [0x45, 0, 0, 22, 0, 1, 0, 0, 64, 17, 102, 212, 10, 0, 0, 2,
      10, 0, 0, 1, 7, 8, 0, 0] ∧
    ¬ PassesSoundly sampleNetif [0x45, 0, 0, 30, 0, 1, 0, 0, 64, 17, 102, 204, 10, 0, 0, 2,
      10, 0, 0, 1] := by
  refine ⟨(passesSoundly_iff (by decide)).mpr (.inr (.inr (.inr ?_))), fun sound => ?_⟩
  · exact ⟨by decide, by decide, by decide, by decide, by decide⟩
  · rcases (passesSoundly_iff (by decide)).mp sound with short | mismatch | announced | valid
    · exact absurd short (by decide)
    · exact absurd mismatch (by decide)
    · exact absurd announced (by decide)
    · exact absurd valid.inReceived (by decide)

/-- A frame of twenty bytes is passed on as a packet of thirty, with another version and
without a checksum. -/
theorem ipv4Check_leftover :
    ¬ ∀ netif received, PassesSoundly netif received := by
  intro sound
  have soundly := sound sampleNetif [0x65, 0, 0, 30, 0, 1, 0, 0, 64, 17, 0, 0, 10, 0, 0, 2,
    10, 0, 0, 1] (spareMem 1) (storedPacket [0x65, 0, 0, 30, 0, 1, 0, 0, 64, 17, 0, 0,
    10, 0, 0, 2, 10, 0, 0, 1]) (storedPacket_stored (by decide) (by decide)).1 _ _ _ rfl
  exact absurd soundly.inReceived (by decide)

end CleanOS.Net
