import CleanOS.Lib.Tiling
import CleanOS.Net.Fragmentation
import CleanOS.Net.Reassembly

/-!
# Fragmentation and reassembly

The packets of one `ipv4_out` call, in any order, put together again by `ipv4_in`: the
fragments are the pieces of a tiling of the payload, and the entry of `frag_list` keeps
the pieces that have arrived.
-/

namespace CleanOS.Net

open scoped List
open CleanOS.Lib

def pieceContent (sending : Sending) (id : Nat) (piece : Piece UInt8) : List UInt8 :=
  fragContent sending id piece.start piece.more piece.chunk

section Pieces

variable {sending : Sending} {id fuel offset : Nat} {payload : List UInt8}

theorem fragSizes_zero {mtu : Int} : fragSizes mtu fuel 0 = [] := by
  cases fuel <;> rfl

theorem fragContents_tiles (wide : 28 ≤ sending.netif.mtu) (int : sending.netif.mtu < 2 ^ 31)
    (nonempty : payload ≠ []) (enough : payload.length ≤ fuel) (aligned : offset % 8 = 0) :
    ∃ pieces, Tiles offset pieces payload ∧
      fragContents sending id offset (fragSizes sending.netif.mtu fuel payload.length) payload =
        pieces.map (pieceContent sending id) ∧
      (∀ piece ∈ pieces, piece.start % 8 = 0) ∧
      (sending.netif.mtu < payload.length + 20 → 2 ≤ pieces.length) := by
  induction fuel generalizing offset payload with
  | zero => exact absurd (List.eq_nil_of_length_eq_zero (by omega)) nonempty
  | succ fuel ih =>
      have positive := List.length_pos_of_ne_nil nonempty
      obtain ⟨sizePositive, sizeUpper, sizeMtu, sizeAligned⟩ :=
        @fragSize_bounds sending.netif.mtu payload.length wide int (by omega)
      have nonzero : (payload.length : Int) ≠ 0 := by omega
      rw [fragSizes, if_neg nonzero, fragContents]
      obtain ⟨size, sizeEq⟩ : ∃ size : Nat,
          fragSize sending.netif.mtu payload.length = size := ⟨_, (Int.toNat_of_nonneg (by omega)).symm⟩
      rw [sizeEq] at sizePositive sizeUpper sizeMtu sizeAligned ⊢
      rw [Int.toNat_natCast]
      have chunkLength : (payload.take size).length = size := by
        rw [List.length_take]
        omega
      have chunkNonempty : payload.take size ≠ [] := by
        apply List.ne_nil_of_length_pos
        omega
      by_cases whole : size = payload.length
      · refine ⟨[⟨offset, payload.take size, false⟩], ?_, ?_, by simpa using aligned, ?_⟩
        · rw [whole, List.take_length]
          exact .last nonempty
        · have left : (payload.length : Int) - size = 0 := by omega
          rw [left, fragSizes_zero]
          rfl
        · intro larger
          omega
      · have restLength : (payload.drop size).length = payload.length - size := by
          rw [List.length_drop]
        have left : (payload.length : Int) - size = (payload.drop size).length := by omega
        obtain ⟨pieces, tiles, contents, starts, -⟩ := @ih (offset + size) (payload.drop size)
          (List.ne_nil_of_length_pos (by omega)) (by omega) (by omega)
        have more : (fragSizes sending.netif.mtu fuel (payload.length - size)).isEmpty = false := by
          rw [fragSizes_isEmpty (by omega) (by omega)]
          exact decide_eq_false (by omega)
        refine ⟨⟨offset, payload.take size, true⟩ :: pieces, ?_, ?_, ?_, ?_⟩
        · rw [← chunkLength] at tiles
          have tiling := Tiles.more chunkNonempty tiles
          rwa [chunkLength, List.take_append_drop] at tiling
        · rw [more, left, List.map_cons, ← contents]
          rfl
        · intro piece member
          rcases List.mem_cons.mp member with rfl | later
          · exact aligned
          · exact starts piece later
        · intro _
          have := List.length_pos_of_ne_nil tiles.ne_nil
          simp only [List.length_cons]
          omega

end Pieces

section Header

variable {sending : Sending} {id : Nat} {piece : Piece UInt8}

structure Describes (sending : Sending) (id : Nat) (piece : Piece UInt8)
    (hdr : List UInt8) : Prop where
  length : hdr.length = ipv4HdrLen
  fiveWords : ipv4HdrSize hdr = ipv4HdrLen
  totalLen : hdrTotalLen hdr = piece.chunk.length + 20
  id : hdrId hdr = id
  start : getFragStart hdr = piece.start
  more : hdrMore hdr = piece.more
  srcIp : hdrSrcIp hdr = sending.srcIp
  destIp : hdrDestIp hdr = sending.dest

theorem Describes.dataSize {hdr : List UInt8} (describes : Describes sending id piece hdr) :
    getDataSize hdr = piece.chunk.length := by
  simp only [getDataSize, describes.totalLen, describes.fiveWords]
  push_cast
  omega

theorem Describes.fragEnd {hdr : List UInt8} (describes : Describes sending id piece hdr)
    (small : piece.stop < 65536) : getFragEnd hdr = piece.stop := by
  unfold Piece.stop at small ⊢
  simp only [getFragEnd, describes.start, describes.dataSize]
  omega

theorem pieceContent_hdr (idSmall : id < 65536) (aligned : piece.start % 8 = 0)
    (small : piece.stop + 20 < 65536) :
    ∃ wire, pieceContent sending id piece = wire ++ piece.chunk ∧ wire.length = ipv4HdrLen ∧
      HdrVerifies wire ∧ Describes sending id piece (iphdrHtons wire) := by
  obtain ⟨fragAll, fragAllEq⟩ : ∃ fragAll, fragAll =
      piece.start / 8 % 8192 + if piece.more then 8192 else 0 := ⟨_, rfl⟩
  have stopEq : piece.stop = piece.start + piece.chunk.length := rfl
  have lower : piece.start / 8 % 8192 = piece.start / 8 := by omega
  have bound : fragAll < 65536 := by
    split at fragAllEq <;> omega
  have offset : fragAll % 8192 = piece.start / 8 := by
    split at fragAllEq <;> omega
  have flag : decide (fragAll / 8192 % 2 = 1) = piece.more := by
    cases more : piece.more
    · simp [more] at fragAllEq
      simp
      omega
    · simp [more] at fragAllEq
      simp
      omega
  refine ⟨wireHdr (piece.chunk.length + 20) id fragAll sending.protocol sending.srcIp
    sending.dest, ?_, length_wireHdr, wireHdr_verifies, ?_⟩
  · rw [pieceContent, fragContent, fragAllEq]
    norm_cast
  · obtain ⟨checksum, hostEq⟩ := @iphdrHtons_wireHdr (piece.chunk.length + 20) id fragAll
      sending.protocol sending.srcIp sending.dest
    rw [hostEq]
    refine ⟨length_hostHdr, hostHdr_size, hostHdr_totalLen (by omega), hostHdr_id idSmall, ?_,
      ?_, hostHdr_srcIp, hostHdr_destIp⟩
    · rw [getFragStart, hdrOffset, hostHdr_fragAll bound, offset]
      omega
    · rw [hdrMore, hostHdr_fragAll bound, flag]

end Header

section Receive

variable {sending : Sending} {id : Nat} {piece : Piece UInt8} {buf : Pktbuf}
variable {got : List (Piece UInt8)} {bufs : List Pktbuf}

structure HeldPiece (sending : Sending) (id : Nat) (piece : Piece UInt8) (buf : Pktbuf) :
    Prop where
  wellFormed : buf.WellFormed
  ready : HdrReady buf
  content : ∃ hdr, buf.content = hdr ++ piece.chunk ∧ Describes sending id piece hdr

theorem HeldPiece.hdr (held : HeldPiece sending id piece buf) :
    ∃ hdr, pktHdr buf = some hdr ∧ Describes sending id piece hdr := by
  obtain ⟨hdr, content, describes⟩ := held.content
  refine ⟨hdr, ?_, describes⟩
  rw [pktHdr_eq held.wellFormed.windows held.ready, content, List.take_left' describes.length]

theorem ipv4In_accepts {normalIn : NormalIn} {netif : Netif} {state : IpState}
    {wire hdr chunk : List UInt8} (holds : buf.WellFormed) (content : buf.content = wire ++ chunk)
    (length : wire.length = ipv4HdrLen) (hdrEq : iphdrHtons wire = hdr)
    (totalLen : hdrTotalLen hdr = chunk.length + 20)
    (addressed : ipaddrIsMatch (hdrDestIp hdr) netif.ipAddr netif.netMask = true) :
    ∃ arrived free, arrived.WellFormed ∧ HdrReady arrived ∧ arrived.content = hdr ++ chunk ∧
      ipv4In normalIn netif state buf =
        if hdrMore hdr ∨ hdrOffset hdr ≠ 0 then
          ipv4FragIn normalIn { state with mem := { state.mem with blockList := free } }
            (hdrSrcIp hdr) arrived
        else some ((normalIn arrived { state.mem with blockList := free }).1,
          { state with mem := (normalIn arrived { state.mem with blockList := free }).2 },
          some ⟨[arrived], arrived⟩) := by
  have twenty : wire.length = 20 := length
  have hdrLength : hdr.length = ipv4HdrLen := by rw [← hdrEq, length_iphdrHtons, length]
  have total := holds.length_content
  rw [content, List.length_append, twenty] at total
  have nonempty : buf.blkList ≠ [] := by
    intro empty
    have := holds.total
    rw [empty, blksSize_nil] at this
    omega
  -- The header is made contiguous and swapped in place.
  obtain ⟨err, joined, free, setContEq, reshaped, joinedTotal, joinedContent, success⟩ :=
    @pktbufSetCont_spec buf state.mem.blockList 20 holds nonempty
  obtain ⟨rfl, first, rest, blks, size⟩ := success (by omega) (by decide)
  have joinedReady : HdrReady joined := ⟨first, rest, blks, size⟩
  have joinedHdr : pktHdr joined = some wire := by
    rw [pktHdr_eq reshaped.wellFormed.windows joinedReady, joinedContent, content,
      List.take_left' length]
  obtain ⟨arrived, writtenEq, layout, arrivedContent, -⟩ :=
    @setPktHdr_spec joined hdr reshaped.wellFormed.windows joinedReady hdrLength
  have sameSize : pktbufResize arrived ((chunk.length + 20 : Nat) : Int) free =
      some (.ok, arrived, free) := by
    have size : ((chunk.length + 20 : Nat) : Int) = arrived.totalSize := by
      rw [layout.total, joinedTotal]
      push_cast
      omega
    simp only [pktbufResize, if_pos size]
  refine ⟨arrived, free, layout.wellFormed reshaped.wellFormed, layout.hdrReady joinedReady,
    ?_, ?_⟩
  · rw [arrivedContent, joinedContent, content, List.drop_left' length]
  · have twentyCast : ((ipv4HdrLen : Nat) : Int) = 20 := rfl
    have ok : NetErr.isError .ok = false := rfl
    simp only [ipv4In, twentyCast, setContEq, Option.bind_eq_bind, Option.bind_some, ok,
      Bool.false_eq_true, if_false, joinedHdr, hdrEq, writtenEq, totalLen, sameSize, addressed,
      not_true_eq_false]

theorem fragInsertLoop_held {hdr : List UInt8} (held : List.Forall₂ (HeldPiece sending id) got bufs)
    (own : HeldPiece sending id piece buf) (describes : Describes sending id piece hdr)
    (small : piece.stop < 65536) (fresh : ∀ other ∈ got, piece.start ≠ other.start) :
    ∃ inserted, fragInsertLoop hdr buf bufs = some (.ok, inserted) ∧
      List.Forall₂ (HeldPiece sending id) (piece.insert got) inserted := by
  induction held with
  | nil => exact ⟨[buf], rfl, .cons own .nil⟩
  | @cons first cur others rest firstHeld held ih =>
      obtain ⟨curHdr, curHdrEq, curDescribes⟩ := firstHeld.hdr
      have different : ¬ getFragStart hdr = getFragStart curHdr := by
        rw [describes.start, curDescribes.start]
        exact fresh first List.mem_cons_self
      by_cases before : piece.stop ≤ first.start
      · have before' : getFragEnd hdr ≤ getFragStart curHdr := by
          rw [describes.fragEnd small, curDescribes.start]
          exact before
        refine ⟨buf :: cur :: rest, ?_, ?_⟩
        · simp only [fragInsertLoop, curHdrEq, Option.bind_eq_bind, Option.bind_some,
            if_neg different, if_pos before']
        · rw [Piece.insert, if_pos before]
          exact .cons own (.cons firstHeld held)
      · have after : ¬ getFragEnd hdr ≤ getFragStart curHdr := by
          rw [describes.fragEnd small, curDescribes.start]
          exact before
        obtain ⟨inserted, restEq, insertedHeld⟩ :=
          ih (fun other member => fresh other (List.mem_cons_of_mem _ member))
        refine ⟨cur :: inserted, ?_, ?_⟩
        · simp only [fragInsertLoop, curHdrEq, Option.bind_eq_bind, Option.bind_some,
            if_neg different, if_neg after, restEq]
        · rw [Piece.insert, if_neg before]
          exact .cons firstHeld insertedHeld

theorem fragAllArrivedLoop_held {last : Option (List UInt8)} {offset : Nat}
    (held : List.Forall₂ (HeldPiece sending id) got bufs) :
    fragAllArrivedLoop offset last bufs =
      some (Piece.complete offset ((last.map hdrMore).getD true) got) := by
  induction held generalizing last offset with
  | nil => cases last <;> rfl
  | @cons first cur others rest firstHeld held ih =>
      obtain ⟨hdr, hdrEq, describes⟩ := firstHeld.hdr
      by_cases here : first.start = offset
      · have next : (offset : Int) + getDataSize hdr = (first.stop : Nat) := by
          rw [describes.dataSize, Piece.stop, here]
          push_cast
          rfl
        have expected : ¬ (getFragStart hdr : Int) ≠ offset := by
          rw [describes.start, here]
          exact not_not_intro rfl
        simp only [fragAllArrivedLoop, hdrEq, Option.bind_eq_bind, Option.bind_some,
          if_neg expected, next, ih, Piece.complete, here, Option.map_some, Option.getD_some,
          describes.more, decide_true, Bool.true_and]
      · have elsewhere : (getFragStart hdr : Int) ≠ offset := by
          rw [describes.start]
          exact_mod_cast here
        simp only [fragAllArrivedLoop, hdrEq, Option.bind_eq_bind, Option.bind_some,
          if_pos elsewhere, Piece.complete, here, decide_false, Bool.false_and]

theorem fragJoinLoop_held {target : Pktbuf} {mem : PktMem} (targetHolds : target.WellFormed)
    (held : List.Forall₂ (HeldPiece sending id) got bufs) :
    ∃ all after, fragJoinLoop target bufs mem = some (all, after) ∧
      all.content = target.content ++ got.flatMap Piece.chunk := by
  induction held generalizing target mem with
  | nil => exact ⟨target, mem, rfl, by simp⟩
  | @cons first cur others rest firstHeld held ih =>
      obtain ⟨hdr, hdrEq, describes⟩ := firstHeld.hdr
      obtain ⟨hdr', content, describes'⟩ := firstHeld.content
      have length := firstHeld.wellFormed.length_content
      have hdrLength : hdr'.length = 20 := describes'.length
      rw [content, List.length_append, hdrLength] at length
      obtain ⟨cut, free, cutEq, reshaped, -, cutContent, -⟩ :=
        @pktbufRemoveHeader_spec cur mem.blockList 20 firstHeld.wellFormed (by omega) (by omega)
      obtain ⟨joinedHolds, joinedContent⟩ :=
        pktbufJoin_wellFormed targetHolds reshaped.wellFormed
      obtain ⟨all, after, joinEq, allContent⟩ :=
        @ih (pktbufJoin target cut).1 ⟨free, mem.headers + 1⟩ joinedHolds
      refine ⟨all, after, ?_, ?_⟩
      · have twentyCast : ((ipv4HdrLen : Nat) : Int) = 20 := rfl
        simp only [fragJoinLoop, hdrEq, Option.bind_eq_bind, Option.bind_some,
          describes.fiveWords, twentyCast, cutEq, joinEq]
      · have chunk : cut.content = first.chunk := by
          rw [cutContent, content]
          exact List.drop_left' hdrLength
        rw [allContent, joinedContent, chunk, List.flatMap_cons, List.append_assoc]

end Receive

/-- What has arrived of a datagram: nothing, and no entry is there for its source, or the
packets of the entry of its source. -/
inductive Awaiting (sending : Sending) (id : Nat) (state : IpState) :
    List (Piece UInt8) → Prop where
  | absent (none : fragFind sending.srcIp state.fragList = none)
      (entries : state.fragFree + state.fragList.length = ipFragsMaxNr) :
      Awaiting sending id state []
  | entry {frag : Ipv4Frag} {others : List Ipv4Frag} {got : List (Piece UInt8)}
      (found : fragFind sending.srcIp state.fragList = some (frag, others))
      (held : List.Forall₂ (HeldPiece sending id) got frag.bufList) :
      Awaiting sending id state got

/-- Packets reach `ipv4_in` one after the other; what each arrival hands to
`ipv4_normal_in`. -/
def ipv4InAll (normalIn : NormalIn) (netif : Netif) :
    IpState → List Pktbuf → Option (List (Option Handed) × IpState)
  | state, [] => some ([], state)
  | state, buf :: rest => do
      let (_, state, handed) ← ipv4In normalIn netif state buf
      let (results, last) ← ipv4InAll normalIn netif state rest
      some (handed :: results, last)

section Reassemble

variable {sending : Sending} {id : Nat} {piece : Piece UInt8} {buf : Pktbuf}
variable {got pieces : List (Piece UInt8)} {whole : List UInt8} {state : IpState}
variable {normalIn : NormalIn}

theorem Awaiting.fragInsert (awaiting : Awaiting sending id state got)
    {hdr : List UInt8} (hdrEq : pktHdr buf = some hdr) :
    ∃ opened frag others,
      ipv4FragIn normalIn state sending.srcIp buf =
        CleanOS.Net.fragInsert normalIn opened frag others hdr buf ∧
      frag.ip = sending.srcIp ∧ List.Forall₂ (HeldPiece sending id) got frag.bufList := by
  cases awaiting with
  | @entry frag others _ found held =>
      refine ⟨state, frag, others, ?_, (fragFind_mem found).1, held⟩
      simp only [ipv4FragIn, hdrEq, Option.bind_eq_bind, Option.bind_some, found]
  | absent none entries =>
      obtain ⟨opened, openedEq⟩ : ∃ opened, fragAlloc state = some opened := by
        unfold fragAlloc
        by_cases noFree : state.fragFree = 0
        · have listed : state.fragList ≠ [] := by
            intro empty
            simp [noFree, empty] at entries
          rw [if_pos noFree, List.getLast?_eq_some_getLast listed]
          exact ⟨_, rfl⟩
        · rw [if_neg noFree]
          exact ⟨_, rfl⟩
      refine ⟨fragAdd opened sending.srcIp (hdrId hdr), ⟨sending.srcIp, hdrId hdr, []⟩,
        opened.fragList, ?_, rfl, .nil⟩
      simp only [ipv4FragIn, hdrEq, Option.bind_eq_bind, Option.bind_some, none, openedEq,
        fragAdd]

theorem ipv4FragIn_step (tiles : Tiles 0 pieces whole) (small : whole.length + 20 < 65536)
    (few : pieces.length ≤ ipFragsMaxNr) (collected : got <+ pieces) (member : piece ∈ pieces)
    (missing : piece ∉ got) (awaiting : Awaiting sending id state got)
    (own : HeldPiece sending id piece buf) :
    ∃ err next handed,
      ipv4FragIn normalIn state sending.srcIp buf = some (err, next, handed) ∧
      (piece.insert got ≠ pieces →
        handed = none ∧ Awaiting sending id next (piece.insert got)) ∧
      (piece.insert got = pieces →
        ∃ result, handed = some result ∧ result.all.content.drop ipv4HdrLen = whole) := by
  obtain ⟨hdr, hdrEq, describes⟩ := own.hdr
  obtain ⟨opened, frag, others, fragInEq, fragIp, held⟩ :=
    @Awaiting.fragInsert sending id buf got state normalIn awaiting hdr hdrEq
  have sub := Piece.insert_sublist tiles.ordered tiles.nonempty_chunk collected member missing
  have room : ¬ frag.bufList.length ≥ ipFragsMaxNr := by
    have longer := sub.length_le
    have inserted := (@Piece.insert_perm _ piece got).length_eq
    rw [List.length_cons] at inserted
    have sameLength := held.length_eq
    omega
  have stopSmall : piece.stop < 65536 := by
    have := (tiles.inside member).2.1
    omega
  have fresh : ∀ other ∈ got, piece.start ≠ other.start := by
    intro other inGot
    refine tiles.start_ne member (collected.subset inGot) ?_
    rintro rfl
    exact missing inGot
  obtain ⟨inserted, loopEq, insertedHeld⟩ := fragInsertLoop_held held own describes stopSmall fresh
  have ok : NetErr.isError .ok = false := rfl
  have insertEq : fragInsert normalIn opened frag others hdr buf =
      fragComplete normalIn opened { frag with bufList := inserted } others := by
    simp only [fragInsert, if_neg room, loopEq, Option.bind_eq_bind, Option.bind_some, ok,
      Bool.false_eq_true, if_false]
  have arrivedEq : fragAllArrived { frag with bufList := inserted } =
      some (Piece.complete 0 true (piece.insert got)) :=
    @fragAllArrivedLoop_held sending id (piece.insert got) inserted none 0 insertedHeld
  have completeIff := tiles.complete_iff sub
  rw [fragInEq, insertEq]
  by_cases complete : piece.insert got = pieces
  · have arrived := completeIff.mpr complete
    obtain ⟨target, rest, first, others', targetHeld, restHeld, bufsEq, piecesEq⟩ :
        ∃ target rest first others', HeldPiece sending id first target ∧
          List.Forall₂ (HeldPiece sending id) others' rest ∧ inserted = target :: rest ∧
          pieces = first :: others' := by
      rw [complete] at insertedHeld
      cases insertedHeld with
      | nil => exact absurd rfl tiles.ne_nil
      | cons firstHeld restHeld => exact ⟨_, _, _, _, firstHeld, restHeld, rfl, rfl⟩
    obtain ⟨all, mem, joinEq, content⟩ :=
      @fragJoinLoop_held sending id others' rest target opened.mem targetHeld.wellFormed restHeld
    have payload : all.content.drop ipv4HdrLen = whole := by
      obtain ⟨firstHdr, firstContent, firstDescribes⟩ := targetHeld.content
      rw [content, firstContent, List.append_assoc, List.drop_left' firstDescribes.length,
        ← tiles.flatMap_chunk, piecesEq, List.flatMap_cons]
    subst bufsEq
    have completes : ∃ err next, fragComplete normalIn opened
        { frag with bufList := target :: rest } others =
          some (err, next, some ⟨target :: rest, all⟩) := by
      simp only [fragComplete, arrivedEq, Option.bind_eq_bind, Option.bind_some, arrived,
        if_true, joinEq]
      split
      · exact ⟨_, _, rfl⟩
      · exact ⟨_, _, rfl⟩
    obtain ⟨err, next, completeEq⟩ := completes
    exact ⟨err, next, _, completeEq, fun different => absurd complete different,
      fun _ => ⟨_, rfl, payload⟩⟩
  · have waits : Piece.complete 0 true (piece.insert got) = false := by
      rw [← Bool.not_eq_true]
      exact fun done => complete (completeIff.mp done)
    refine ⟨.ok, { opened with fragList := { frag with bufList := inserted } :: others }, none,
      ?_, fun _ => ⟨rfl, ?_⟩, fun same => absurd same complete⟩
    · simp only [fragComplete, arrivedEq, Option.bind_eq_bind, Option.bind_some, waits,
        Bool.false_eq_true, if_false]
    · refine @Awaiting.entry _ _ _ { frag with bufList := inserted } others _ ?_ insertedHeld
      simp only [fragFind, fragIp, if_true]

theorem ipv4In_fragment {netif : Netif} (tiles : Tiles 0 pieces whole)
    (aligned : ∀ piece ∈ pieces, piece.start % 8 = 0) (several : 2 ≤ pieces.length)
    (small : whole.length + 20 < 65536) (idSmall : id < 65536)
    (addressed : ipaddrIsMatch sending.dest netif.ipAddr netif.netMask = true)
    (member : piece ∈ pieces) (holds : buf.WellFormed)
    (content : buf.content = pieceContent sending id piece) :
    ∃ arrived free, HeldPiece sending id piece arrived ∧
      ipv4In normalIn netif state buf =
        ipv4FragIn normalIn { state with mem := { state.mem with blockList := free } }
          sending.srcIp arrived := by
  have inside := tiles.inside member
  obtain ⟨wire, wireEq, wireLength, -, describes⟩ := @pieceContent_hdr sending id piece idSmall
    (aligned piece member) (by omega)
  obtain ⟨arrived, free, arrivedHolds, ready, arrivedContent, inEq⟩ := @ipv4In_accepts buf normalIn netif
    state wire (iphdrHtons wire) piece.chunk holds (content.trans wireEq) wireLength rfl
    describes.totalLen (by rw [describes.destIp]; exact addressed)
  have fragment : hdrMore (iphdrHtons wire) = true ∨ hdrOffset (iphdrHtons wire) ≠ 0 := by
    rcases tiles.part several member with more | later
    · exact .inl (describes.more.trans more)
    · have start := describes.start
      unfold getFragStart at start
      exact .inr (by omega)
  refine ⟨arrived, free, ⟨arrivedHolds, ready, _, arrivedContent, describes⟩, ?_⟩
  rw [inEq, if_pos fragment, describes.srcIp]

theorem ipv4InAll_fragments {netif : Netif} {todo : List (Piece UInt8)}
    {arrivals : List Pktbuf} (tiles : Tiles 0 pieces whole)
    (aligned : ∀ piece ∈ pieces, piece.start % 8 = 0) (several : 2 ≤ pieces.length)
    (small : whole.length + 20 < 65536) (idSmall : id < 65536)
    (few : pieces.length ≤ ipFragsMaxNr)
    (addressed : ipaddrIsMatch sending.dest netif.ipAddr netif.netMask = true)
    (holds : ∀ arrived ∈ arrivals, arrived.WellFormed)
    (contents : todo.map (pieceContent sending id) = arrivals.map Pktbuf.content)
    (nonempty : todo ≠ []) (all : todo ++ got ~ pieces)
    (collected : got <+ pieces) (awaiting : Awaiting sending id state got) :
    ∃ last handed,
      ipv4InAll normalIn netif state arrivals =
        some (List.replicate (todo.length - 1) none ++ [some handed], last) ∧
      handed.all.content.drop ipv4HdrLen = whole := by
  induction todo generalizing got state arrivals with
  | nil => exact absurd rfl nonempty
  | cons piece rest ih =>
      obtain ⟨buf, later, rfl, content, laterContents⟩ := List.map_eq_cons_iff.mp contents.symm
      have member : piece ∈ pieces := all.subset List.mem_cons_self
      have missing : piece ∉ got := by
        have distinct := all.nodup_iff.mpr tiles.nodup
        rw [List.cons_append, List.nodup_cons] at distinct
        exact fun inGot => distinct.1 (List.mem_append_right _ inGot)
      have insertedAll : rest ++ piece.insert got ~ pieces :=
        ((Piece.insert_perm.append_left rest).trans List.perm_middle).trans all
      have insertedSub :=
        Piece.insert_sublist tiles.ordered tiles.nonempty_chunk collected member missing
      obtain ⟨arrived, free, held, inEq⟩ := @ipv4In_fragment sending id piece buf pieces whole
        state normalIn netif tiles aligned several small idSmall addressed member
        (holds buf List.mem_cons_self) content
      have moved : Awaiting sending id
          { state with mem := { state.mem with blockList := free } } got := by
        cases awaiting with
        | absent none entries => exact .absent none entries
        | entry found held => exact .entry found held
      obtain ⟨err, next, handed, stepEq, keeps, completes⟩ := @ipv4FragIn_step sending id piece
        arrived got pieces whole _ normalIn tiles small few collected member missing moved held
      have lengths := insertedAll.length_eq
      rw [List.length_append] at lengths
      cases rest with
      | nil =>
          have same : piece.insert got = pieces :=
            insertedSub.eq_of_length (by simpa using lengths)
          obtain ⟨result, rfl, payload⟩ := completes same
          rw [List.map_eq_nil_iff.mp laterContents]
          refine ⟨next, result, ?_, payload⟩
          simp [ipv4InAll, inEq, stepEq]
      | cons second others =>
          have different : piece.insert got ≠ pieces := by
            intro same
            rw [same, List.length_cons] at lengths
            omega
          obtain ⟨rfl, awaits⟩ := keeps different
          obtain ⟨last, result, laterEq, payload⟩ :=
            ih (fun arrived later => holds arrived (List.mem_cons_of_mem _ later))
              laterContents.symm (by simp) insertedAll insertedSub awaits
          refine ⟨last, result, ?_, payload⟩
          simp only [ipv4InAll, inEq, stepEq, Option.bind_eq_bind, Option.bind_some, laterEq,
            List.length_cons, Nat.add_sub_cancel, List.replicate_succ, List.cons_append]

end Reassemble

/-- A packet put out for a payload: it fits into the MTU, its header verifies, and it
carries the bytes of the payload at the position that its offset, in units of eight
bytes, gives. -/
structure SoundPacket (mtu : Int) (payload : List UInt8) (packet : Pktbuf) : Prop where
  fits : packet.totalSize ≤ mtu
  verifies : HdrVerifies (packet.content.take ipv4HdrLen)
  position : packet.content.drop ipv4HdrLen =
    (payload.drop (8 * hdrOffset (iphdrHtons (packet.content.take ipv4HdrLen)))).take
      (packet.content.length - ipv4HdrLen)

/-- A receiver of a datagram: the datagram is addressed to it, no datagram of the same
source is in progress, and every entry is free or in `frag_list`. -/
structure ReceiverReady (sending : Sending) (netif : Netif) (state : IpState) : Prop where
  addressed : ipaddrIsMatch sending.dest netif.ipAddr netif.netMask = true
  idle : fragFind sending.srcIp state.fragList = none
  entries : state.fragFree + state.fragList.length = ipFragsMaxNr

/-- The packets of a payload are sound.  In any order they make the receiver hand on one
packet, after the last arrival, with the payload behind its header; a payload that needs no
fragments is in one packet, which is handed on as it is. -/
structure RoundTrips (sending : Sending) (payload : List UInt8) (packets : List Pktbuf) :
    Prop where
  sound : ∀ packet ∈ packets, SoundPacket sending.netif.mtu payload packet
  single : payload.length + 20 ≤ sending.netif.mtu → packets.length = 1
  delivered : packets.length ≤ ipFragsMaxNr →
    ∀ (normalIn : NormalIn) (netif : Netif) (state : IpState) (arrivals : List Pktbuf),
    ReceiverReady sending netif state → (∀ arrived ∈ arrivals, arrived.WellFormed) →
    arrivals.map Pktbuf.content ~ packets.map Pktbuf.content →
    ∃ last handed,
      ipv4InAll normalIn netif state arrivals =
        some (List.replicate (packets.length - 1) none ++ [some handed], last) ∧
      handed.all.content.drop ipv4HdrLen = payload ∧
      (payload.length + 20 ≤ sending.netif.mtu → ∀ packet ∈ packets,
        handed.all.content = iphdrHtons (packet.content.take ipv4HdrLen) ++
          packet.content.drop ipv4HdrLen)

section RoundTrip

variable {sending : Sending} {id : Nat} {payload : List UInt8} {packets : List Pktbuf}

theorem soundPacket_piece {mtu : Int} {piece : Piece UInt8} {packet : Pktbuf}
    (idSmall : id < 65536) (aligned : piece.start % 8 = 0) (small : piece.stop + 20 < 65536)
    (inside : piece.chunk = (payload.drop piece.start).take piece.chunk.length)
    (fits : packet.totalSize ≤ mtu) (content : packet.content = pieceContent sending id piece) :
    SoundPacket mtu payload packet := by
  obtain ⟨wire, wireEq, wireLength, verifies, describes⟩ :=
    @pieceContent_hdr sending id piece idSmall aligned small
  have hdrEq : packet.content.take ipv4HdrLen = wire := by
    rw [content, wireEq, List.take_left' wireLength]
  have start : 8 * hdrOffset (iphdrHtons wire) = piece.start := by
    rw [← describes.start, getFragStart]
    omega
  have length : packet.content.length - ipv4HdrLen = piece.chunk.length := by
    rw [content, wireEq, List.length_append, wireLength]
    omega
  refine ⟨fits, by rw [hdrEq]; exact verifies, ?_⟩
  rw [hdrEq, start, length, ← inside, content, wireEq, List.drop_left' wireLength]

theorem RoundTrips.of_whole (idSmall : id < 65536) (small : payload.length + 20 < 65536)
    (fits : payload.length + 20 ≤ sending.netif.mtu)
    (contents : packets.map Pktbuf.content = wirePackets sending id payload)
    (bounded : ∀ packet ∈ packets, packet.WellFormed ∧ packet.totalSize ≤ sending.netif.mtu) :
    RoundTrips sending payload packets := by
  rw [wirePackets, if_pos fits] at contents
  obtain ⟨packet, none, rfl, content, noneEq⟩ := List.map_eq_cons_iff.mp contents
  rw [List.map_eq_nil_iff.mp noneEq] at bounded ⊢
  obtain ⟨piece, pieceEq⟩ : ∃ piece : Piece UInt8, piece = ⟨0, payload, false⟩ := ⟨_, rfl⟩
  have chunk : piece.chunk = payload := by rw [pieceEq]
  have begin : piece.start = 0 := by rw [pieceEq]
  have last : piece.more = false := by rw [pieceEq]
  have pieceContentEq : packet.content = pieceContent sending id piece := by
    rw [content, pieceEq]
    rfl
  have pieceSmall : piece.stop + 20 < 65536 := by
    rw [Piece.stop, chunk, begin]
    omega
  have pieceAligned : piece.start % 8 = 0 := by rw [begin]
  refine ⟨?_, fun _ => rfl, ?_⟩
  · intro member isMember
    rw [List.mem_singleton.mp isMember]
    refine soundPacket_piece idSmall pieceAligned pieceSmall ?_ (bounded packet (by simp)).2
      pieceContentEq
    rw [chunk, begin, List.drop_zero, List.take_length]
  · intro _ normalIn netif state arrivals ready arrivalsHold permuted
    obtain ⟨arrived, rest, rfl, arrivedContent, restNone⟩ :=
      List.map_eq_cons_iff.mp (List.perm_singleton.mp permuted)
    rw [List.map_eq_nil_iff.mp restNone]
    obtain ⟨wire, wireEq, wireLength, -, describes⟩ :=
      @pieceContent_hdr sending id piece idSmall pieceAligned pieceSmall
    obtain ⟨received, free, -, -, receivedContent, inEq⟩ := @ipv4In_accepts arrived normalIn
      netif state wire (iphdrHtons wire) piece.chunk (arrivalsHold arrived List.mem_cons_self)
      (arrivedContent.trans (pieceContentEq.trans wireEq)) wireLength rfl describes.totalLen
      (by rw [describes.destIp]; exact ready.addressed)
    have complete : ¬ (hdrMore (iphdrHtons wire) = true ∨ hdrOffset (iphdrHtons wire) ≠ 0) := by
      have start := describes.start
      rw [getFragStart, begin] at start
      rw [describes.more, last]
      simp only [Bool.false_eq_true, false_or, not_not]
      omega
    rw [if_neg complete] at inEq
    have allEq : ∃ last, ipv4InAll normalIn netif state [arrived] =
        some ([some ⟨[received], received⟩], last) := by
      simp only [ipv4InAll, inEq, Option.bind_eq_bind, Option.bind_some]
      exact ⟨_, rfl⟩
    obtain ⟨last, allEq⟩ := allEq
    refine ⟨last, ⟨[received], received⟩, allEq, ?_, ?_⟩
    · rw [receivedContent, List.drop_left' (by rw [length_iphdrHtons]; exact wireLength), chunk]
    · intro _ member isMember
      rw [List.mem_singleton.mp isMember, receivedContent, pieceContentEq, wireEq,
        List.take_left' wireLength, List.drop_left' wireLength]

theorem RoundTrips.of_fragments (wide : 28 ≤ sending.netif.mtu)
    (int : sending.netif.mtu < 2 ^ 31) (idSmall : id < 65536)
    (small : payload.length + 20 < 65536) (split : ¬ payload.length + 20 ≤ sending.netif.mtu)
    (contents : packets.map Pktbuf.content = wirePackets sending id payload)
    (bounded : ∀ packet ∈ packets, packet.WellFormed ∧ packet.totalSize ≤ sending.netif.mtu) :
    RoundTrips sending payload packets := by
  have nonempty : payload ≠ [] := by
    rintro rfl
    simp at split
    omega
  obtain ⟨pieces, tiles, piecesEq, aligned, several⟩ := @fragContents_tiles sending id
    payload.length 0 payload wide int nonempty (Nat.le_refl _) rfl
  rw [wirePackets, if_neg split] at contents
  have contents := contents.trans piecesEq
  have count : packets.length = pieces.length := by
    simpa using congrArg List.length contents
  refine ⟨?_, fun fits => absurd fits split, ?_⟩
  · intro packet member
    have listed : packet.content ∈ pieces.map (pieceContent sending id) := by
      rw [← contents]
      exact List.mem_map_of_mem member
    obtain ⟨piece, pieceMember, content⟩ := List.mem_map.mp listed
    obtain ⟨-, upper, inside⟩ := tiles.inside pieceMember
    exact soundPacket_piece idSmall (aligned piece pieceMember) (by omega) inside
      (bounded packet member).2 content.symm
  · intro few normalIn netif state arrivals ready arrivalsHold permuted
    -- The order of the arrivals is an order of the pieces.
    have arranged : (arrivals.map Pktbuf.content) ~ (pieces.map (pieceContent sending id)) := by
      rw [← contents]
      exact permuted
    obtain ⟨todo, todoEq, todoPerm⟩ :=
      (congrFun₂ (List.eq_map_comp_perm (pieceContent sending id)) _ _).mpr arranged
    obtain ⟨last, handed, allEq, delivered⟩ := @ipv4InAll_fragments sending id [] pieces payload
      state normalIn netif todo arrivals tiles aligned (several (by omega)) small idSmall
      (by omega) ready.addressed arrivalsHold todoEq.symm
      (by rintro rfl; exact tiles.ne_nil todoPerm.nil_eq.symm)
      (by rw [List.append_nil]; exact todoPerm) (List.nil_sublist _)
      (.absent ready.idle ready.entries)
    refine ⟨last, handed, ?_, delivered, fun fits => absurd fits split⟩
    rw [allEq, count, todoPerm.length_eq]

theorem totalSize_lt {buf : Pktbuf} (holds : buf.WellFormed) (nodup : (blkIds buf.blkList).Nodup)
    (pool : ∀ id ∈ blkIds buf.blkList, id < pktbufBlkCnt) : buf.totalSize ≤ 6400 := by
  have count : buf.blkList.length ≤ 100 := by
    have bounded : blkIds buf.blkList ⊆ List.range pktbufBlkCnt := by
      intro id member
      exact List.mem_range.mpr (pool id member)
    have shorter := (List.subperm_of_subset nodup bounded).length_le
    simpa [blkIds, pktbufBlkCnt] using shorter
  have size := holds.windows.size_le
  rw [holds.total]
  simp only [pktbufBlkSize] at size
  omega

end RoundTrip

def sampleRoute : IpRouteEntry :=
  { net := 0, netMask := 0, nextHop := 0,
    netif := { ipAddr := 0x0100000a, netMask := 0x00ffffff, mtu := 44 } }

def samplePools : PktMem :=
  { blockList := (List.range 3).map fun id =>
      { id := id, size := 0, data := 0, payload := fun _ => 0 }
    headers := 4 }

def samplePacket : Pktbuf :=
  { totalSize := 40
    blkList := [{ id := 3, size := 40, data := 0, payload := fun i => i.toUInt8 }]
    ref := 1
    pos := 0
    currBlk := none
    blkOffset := 0 }

end CleanOS.Net
