import CleanOS.Common.NumberText
import Mathlib.Data.Nat.Digits.Lemmas

/-!
# Formatted output

`vsprintf` of `common/lib/stdio.c`.  The argument list is a sequence of words, and a word is
either bits or a pointer to the bytes of a string.  `none` stands for a read past the end of the
format, of the arguments or of a string, and for a write outside the destination.
-/

namespace CleanOS.Common.Stdio

open CleanOS.Lib.Decimal

/-- A word of the argument list. -/
inductive Word where
  | bits (value : UInt32)
  | pointer (object : List UInt8)
  deriving DecidableEq

/-- The cases of `vsprintf` for numbers with a sign, whose negation has so many bits. -/
def signed (bits : Nat) (mem : List UInt8) (bufPtr : Nat) (arg : Int) :
    Option (List UInt8 × Nat) := do
  let (mem, bufPtr) ← if arg < 0 then append mem bufPtr [45] else some (mem, bufPtr)
  let arg := if arg < 0 then (0 - arg).bmod (2 ^ bits) else arg
  itoa 64 mem bufPtr (toU64 arg) 10

/-- A directive of `vsprintf`: the memory, the pointer to the buffer and the argument pointer
behind it.  Each `va_arg` moves the argument pointer by a word before it reads. -/
def convert (directive : UInt8) (mem : List UInt8) (bufPtr : Nat) (ap : List Word) :
    Option (List UInt8 × Nat × List Word) := do
  let ap := ap.tail
  match directive, ap with
  | 115, .pointer argStr :: _ =>
      let size ← strlen argStr 0
      let (mem, bufPtr) ← append mem bufPtr (argStr.take size)
      return (mem, bufPtr, ap)
  | 99, .bits arg :: _ =>
      let (mem, bufPtr) ← append mem bufPtr [arg.toUInt8]
      return (mem, bufPtr, ap)
  | 100, .bits arg :: _ =>
      let (mem, bufPtr) ← signed 32 mem bufPtr ((arg.toNat : Int).bmod (2 ^ 32))
      return (mem, bufPtr, ap)
  | 120, .bits arg :: _ =>
      let (mem, bufPtr) ← itoa 64 mem bufPtr (toU64 ((arg.toNat : Int).bmod (2 ^ 32))) 16
      return (mem, bufPtr, ap)
  | 108, .bits low :: .bits high :: _ =>
      let argLong := ((high.toNat * 2 ^ 32 + low.toNat : Nat) : Int).bmod (2 ^ 64)
      let (mem, bufPtr) ← signed 64 mem bufPtr argLong
      -- the high word is passed over by hand
      return (mem, bufPtr, ap.tail)
  | _, _ => none

/-- The loop of `vsprintf`.  The character behind a percent sign that is no directive is printed
by the next pass. -/
def vsprintfLoop : List UInt8 → List UInt8 → Nat → List Word →
    Option (List UInt8 × Nat × List Word)
  | [], _, _, _ => none
  | indexChar :: format, mem, bufPtr, ap =>
      if indexChar = 0 then some (mem, bufPtr, ap)
      else if indexChar ≠ 37 then do
        let (mem, bufPtr) ← append mem bufPtr [indexChar]
        vsprintfLoop format mem bufPtr ap
      else
        match format with
        | [] => none
        | directive :: rest =>
            if directive ∈ [115, 99, 100, 120, 108] then do
              let (mem, bufPtr, ap) ← convert directive mem bufPtr ap
              vsprintfLoop rest mem bufPtr ap
            else vsprintfLoop (directive :: rest) mem bufPtr ap

/-- `vsprintf`, as what it returns, the destination, and the argument pointer at its end. -/
def vsprintf (str format : List UInt8) (ap : List Word) :
    Option (Nat × List UInt8 × List Word) := do
  let (str, _, ap) ← vsprintfLoop format str 0 ap
  let size ← strlen str 0
  return (size, str, ap)

/-- A part of a format with its argument. -/
inductive Piece where
  | literal (c : UInt8) (plain : c ≠ 0 ∧ c ≠ 37)
  | str (text : CText) (behind : List UInt8)
  | chr (arg : UInt32)
  | dec (arg : Int32)
  | hex (arg : Int32)
  | long (arg : Int64)

namespace Piece

def format : Piece → List UInt8
  | .literal c _ => [c]
  | .str _ _ => [37, 115]
  | .chr _ => [37, 99]
  | .dec _ => [37, 100]
  | .hex _ => [37, 120]
  | .long _ => [37, 108]

def words : Piece → List Word
  | .literal _ _ => []
  | .str text behind => [.pointer (text.chars ++ 0 :: behind)]
  | .chr arg => [.bits arg]
  | .dec arg => [.bits (bitsOf arg.toInt)]
  | .hex arg => [.bits (bitsOf arg.toInt)]
  | .long arg => [.bits (bitsOf arg.toInt), .bits (bitsOf (arg.toInt / 2 ^ 32))]

def expansion : Piece → List UInt8
  | .literal c _ => [c]
  | .str text _ => text.chars
  | .chr arg => [arg.toUInt8]
  | .dec arg => decimalText arg.toInt
  | .hex arg => numeral 16 (arg.toInt % 2 ^ 32).toNat
  | .long arg => decimalText arg.toInt

def signedText (bits : Nat) (arg : Int) : List UInt8 :=
  (if arg < 0 then [45] else []) ++
    numeral 10 (toU64 (if arg < 0 then (0 - arg).bmod (2 ^ bits) else arg)).toNat

def written : Piece → List UInt8
  | .dec arg => signedText 32 arg.toInt
  | .hex arg => numeral 16 (toU64 arg.toInt).toNat
  | piece => piece.expansion

def Printable : Piece → Prop
  | .chr arg => arg.toUInt8 ≠ 0
  | .dec arg => arg.toInt ≠ -2 ^ 31
  | .hex arg => 0 ≤ arg.toInt
  | _ => True

end Piece

/-- The parts of a format, in order: the format with its end, the arguments, what should be
printed and what is. -/
def formatOf (pieces : List Piece) : List UInt8 :=
  pieces.flatMap Piece.format ++ [0]

def wordsOf (pieces : List Piece) : List Word :=
  pieces.flatMap Piece.words

def expansionOf (pieces : List Piece) : List UInt8 :=
  pieces.flatMap Piece.expansion

def writtenOf (pieces : List Piece) : List UInt8 :=
  pieces.flatMap Piece.written

/-- The destination gets the expansion with a zero behind it and nothing else, the length is
returned, and the argument pointer is at the last argument. -/
def VsprintfRight (pieces : List Piece) (str : List UInt8) : Prop :=
  ∀ format, vsprintf str (formatOf pieces) (format :: wordsOf pieces) =
    some ((expansionOf pieces).length,
      expansionOf pieces ++ 0 :: str.drop ((expansionOf pieces).length + 1),
      (format :: wordsOf pieces).drop (wordsOf pieces).length)

theorem bitsOf_toNat (n : Int) : ((bitsOf n).toNat : Int) = n % 2 ^ 32 := by
  rw [bitsOf, UInt32.toNat_ofNat']
  omega

theorem bitsOf_bmod (n : Int32) : ((bitsOf n.toInt).toNat : Int).bmod (2 ^ 32) = n.toInt := by
  have low := n.le_toInt
  have high := n.toInt_lt
  rw [bitsOf_toNat]
  exact (Int.emod_bmod n.toInt (2 ^ 32)).trans (Int.bmod_eq_of_le (by omega) (by omega))

theorem bitsOf_long (n : Int64) :
    (((bitsOf (n.toInt / 2 ^ 32)).toNat * 2 ^ 32 + (bitsOf n.toInt).toNat : Nat) : Int).bmod
      (2 ^ 64) = n.toInt := by
  have low := n.le_toInt
  have high := n.toInt_lt
  have whole : (((bitsOf (n.toInt / 2 ^ 32)).toNat * 2 ^ 32 + (bitsOf n.toInt).toNat : Nat) : Int) =
      n.toInt % 2 ^ 64 := by
    have lowWord := bitsOf_toNat n.toInt
    have highWord := bitsOf_toNat (n.toInt / 2 ^ 32)
    omega
  rw [whole]
  exact (Int.emod_bmod n.toInt (2 ^ 64)).trans (Int.bmod_eq_of_le (by omega) (by omega))

theorem signed_eq (bits : Nat) (mem : List UInt8) (bufPtr : Nat) (arg : Int) :
    signed bits mem bufPtr arg = append mem bufPtr (Piece.signedText bits arg) := by
  have prints : ∀ mem bufPtr value, itoa 64 mem bufPtr value 10 =
      append mem bufPtr (numeral 10 value.toNat) := by
    intro mem bufPtr value
    exact itoa_eq (by decide) (by decide) value value.toNat_lt (Nat.succ_pos 63) mem bufPtr
  rw [signed, Piece.signedText]
  by_cases negative : arg < 0
  · simp only [if_pos negative, prints, Option.bind_eq_bind]
    exact append_append
  · simp only [if_neg negative, prints, Option.bind_eq_bind, Option.bind_some, List.nil_append]

theorem signedText_long (n : Int64) : Piece.signedText 64 n.toInt = decimalText n.toInt := by
  have low := n.le_toInt
  have high := n.toInt_lt
  have magnitude : (toU64 (if n.toInt < 0 then (0 - n.toInt).bmod (2 ^ 64) else n.toInt)).toNat =
      n.toInt.natAbs := by
    rw [toU64_toNat]
    split
    · have wraps : (0 - n.toInt).bmod (2 ^ 64) % 2 ^ 64 = (0 - n.toInt) % 2 ^ 64 :=
        Int.bmod_emod
      rw [wraps]
      omega
    · omega
  rw [Piece.signedText, magnitude, decimalText]

theorem signedText_dec {n : Int32} (notLeast : n.toInt ≠ -2 ^ 31) :
    Piece.signedText 32 n.toInt = decimalText n.toInt := by
  have low := n.le_toInt
  have high := n.toInt_lt
  have magnitude : (toU64 (if n.toInt < 0 then (0 - n.toInt).bmod (2 ^ 32) else n.toInt)).toNat =
      n.toInt.natAbs := by
    rw [toU64_toNat]
    split
    · rw [Int.bmod_eq_of_le (by omega) (by omega)]
      omega
    · omega
  rw [Piece.signedText, magnitude, decimalText]

theorem vsprintfLoop_end (mem : List UInt8) (bufPtr : Nat) (ap : List Word) :
    vsprintfLoop [0] mem bufPtr ap = some (mem, bufPtr, ap) := by
  rw [vsprintfLoop.eq_def]
  rfl

theorem vsprintfLoop_literal {c : UInt8} (plain : c ≠ 0 ∧ c ≠ 37) (format mem : List UInt8)
    (bufPtr : Nat) (ap : List Word) :
    vsprintfLoop (c :: format) mem bufPtr ap =
      (append mem bufPtr [c]).bind fun (mem, bufPtr) => vsprintfLoop format mem bufPtr ap := by
  rw [vsprintfLoop.eq_def]
  dsimp only
  rw [if_neg plain.1, if_pos plain.2]
  rfl

theorem vsprintfLoop_directive {directive : UInt8} (known : directive ∈ [115, 99, 100, 120, 108])
    (format mem : List UInt8) (bufPtr : Nat) (ap : List Word) :
    vsprintfLoop (37 :: directive :: format) mem bufPtr ap =
      (convert directive mem bufPtr ap).bind fun (mem, bufPtr, ap) =>
        vsprintfLoop format mem bufPtr ap := by
  rw [vsprintfLoop.eq_def]
  dsimp only
  rw [if_neg (by decide), if_neg (by decide), if_pos known]
  rfl

section Convert

variable {mem argStr : List UInt8} {bufPtr : Nat} {prev : Word} {ap : List Word}
  {arg low high : UInt32}

theorem convert_str : convert 115 mem bufPtr (prev :: .pointer argStr :: ap) =
    (strlen argStr 0).bind fun size => (append mem bufPtr (argStr.take size)).bind
      fun (mem, bufPtr) => some (mem, bufPtr, .pointer argStr :: ap) :=
  rfl

theorem convert_chr : convert 99 mem bufPtr (prev :: .bits arg :: ap) =
    (append mem bufPtr [arg.toUInt8]).bind
      fun (mem, bufPtr) => some (mem, bufPtr, .bits arg :: ap) :=
  rfl

theorem convert_dec : convert 100 mem bufPtr (prev :: .bits arg :: ap) =
    (append mem bufPtr (Piece.signedText 32 ((arg.toNat : Int).bmod (2 ^ 32)))).bind
      fun (mem, bufPtr) => some (mem, bufPtr, .bits arg :: ap) := by
  rw [← signed_eq]
  rfl

theorem convert_hex : convert 120 mem bufPtr (prev :: .bits arg :: ap) =
    (append mem bufPtr (numeral 16 (toU64 ((arg.toNat : Int).bmod (2 ^ 32))).toNat)).bind
      fun (mem, bufPtr) => some (mem, bufPtr, .bits arg :: ap) := by
  have prints := @itoa_eq 16 (by decide) (by decide) 64
    (toU64 ((arg.toNat : Int).bmod (2 ^ 32))) (UInt64.toNat_lt _) (Nat.succ_pos 63) mem bufPtr
  rw [show numeral 16 _ = numeral (16 : UInt32).toNat _ from rfl, ← prints]
  rfl

theorem convert_long : convert 108 mem bufPtr (prev :: .bits low :: .bits high :: ap) =
    (append mem bufPtr (Piece.signedText 64
      (((high.toNat * 2 ^ 32 + low.toNat : Nat) : Int).bmod (2 ^ 64)))).bind
        fun (mem, bufPtr) => some (mem, bufPtr, .bits high :: ap) := by
  rw [← signed_eq]
  rfl

end Convert

theorem vsprintfLoop_piece (piece : Piece) (rest : List UInt8) (prev : Word) (ap : List Word) :
    ∃ last, (prev :: (piece.words ++ ap)).drop piece.words.length = last :: ap ∧
      ∀ mem bufPtr, vsprintfLoop (piece.format ++ rest) mem bufPtr
        (prev :: (piece.words ++ ap)) =
          (append mem bufPtr piece.written).bind fun (mem, bufPtr) =>
            vsprintfLoop rest mem bufPtr (last :: ap) := by
  cases piece with
  | literal c plain =>
      refine ⟨prev, rfl, fun mem bufPtr => ?_⟩
      rw [Piece.format, List.singleton_append, vsprintfLoop_literal plain]
      rfl
  | str text behind =>
      refine ⟨_, rfl, fun mem bufPtr => ?_⟩
      have size := @strlen_text [] behind text.chars text.noNul
      rw [List.nil_append, List.length_nil] at size
      rw [Piece.format, List.cons_append, List.singleton_append, vsprintfLoop_directive (by decide),
        Piece.words, List.singleton_append, convert_str, size, Option.bind_some, List.take_left,
        Option.bind_assoc]
      rfl
  | chr arg =>
      refine ⟨_, rfl, fun mem bufPtr => ?_⟩
      rw [Piece.format, List.cons_append, List.singleton_append, vsprintfLoop_directive (by decide),
        Piece.words, List.singleton_append, convert_chr, Option.bind_assoc]
      rfl
  | dec arg =>
      refine ⟨_, rfl, fun mem bufPtr => ?_⟩
      rw [Piece.format, List.cons_append, List.singleton_append, vsprintfLoop_directive (by decide),
        Piece.words, List.singleton_append, convert_dec, bitsOf_bmod, Option.bind_assoc]
      rfl
  | hex arg =>
      refine ⟨_, rfl, fun mem bufPtr => ?_⟩
      rw [Piece.format, List.cons_append, List.singleton_append, vsprintfLoop_directive (by decide),
        Piece.words, List.singleton_append, convert_hex, bitsOf_bmod, Option.bind_assoc]
      rfl
  | long arg =>
      refine ⟨_, rfl, fun mem bufPtr => ?_⟩
      rw [Piece.format, List.cons_append, List.singleton_append, vsprintfLoop_directive (by decide),
        Piece.words, List.cons_append, List.singleton_append, convert_long, bitsOf_long,
        signedText_long, Option.bind_assoc]
      rfl

theorem vsprintfLoop_pieces (pieces : List Piece) (prev : Word) :
    ∃ last, (prev :: wordsOf pieces).drop (wordsOf pieces).length = [last] ∧
      ∀ mem bufPtr, bufPtr ≤ mem.length →
        vsprintfLoop (formatOf pieces) mem bufPtr (prev :: wordsOf pieces) =
          (append mem bufPtr (writtenOf pieces)).map fun (mem, bufPtr) =>
            (mem, bufPtr, [last]) := by
  induction pieces generalizing prev with
  | nil =>
      refine ⟨prev, rfl, fun mem bufPtr inside => ?_⟩
      rw [writtenOf, List.flatMap_nil, append, memcpy_nil inside]
      exact vsprintfLoop_end mem bufPtr [prev]
  | cons piece pieces ih =>
      obtain ⟨next, moved, prints⟩ := vsprintfLoop_piece piece (formatOf pieces) prev
        (wordsOf pieces)
      obtain ⟨last, movedOn, printsOn⟩ := ih next
      have words : wordsOf (piece :: pieces) = piece.words ++ wordsOf pieces :=
        List.flatMap_cons
      have format : formatOf (piece :: pieces) = piece.format ++ formatOf pieces := by
        rw [formatOf, List.flatMap_cons, List.append_assoc]
        rfl
      have text : writtenOf (piece :: pieces) = piece.written ++ writtenOf pieces :=
        List.flatMap_cons
      refine ⟨last, ?_, fun mem bufPtr inside => ?_⟩
      · rw [words, List.length_append, ← List.drop_drop, moved]
        exact movedOn
      · rw [words, format, text, prints, ← append_append]
        cases written : append mem bufPtr piece.written with
        | none => rfl
        | some pair =>
            obtain ⟨after, copied, rfl⟩ := Option.map_eq_some_iff.mp written
            obtain ⟨room, size⟩ := memcpy_size copied
            exact printsOn after (bufPtr + piece.written.length) (by omega)

theorem vsprintf_pieces (pieces : List Piece) (prev : Word) (str : List UInt8) :
    vsprintf str (formatOf pieces) (prev :: wordsOf pieces) =
      (memcpy str 0 (writtenOf pieces)).bind fun after =>
        (strlen after 0).map fun size =>
          (size, after, (prev :: wordsOf pieces).drop (wordsOf pieces).length) := by
  obtain ⟨last, moved, prints⟩ := vsprintfLoop_pieces pieces prev
  rw [vsprintf, prints str 0 (Nat.zero_le _), moved, append, Option.map_map]
  cases memcpy str 0 (writtenOf pieces) with
  | none => rfl
  | some after =>
      show ((strlen after 0).bind fun size => some (size, after, [last])) = _
      exact Option.map_eq_bind.symm

theorem numeral_noNul (base : Nat) (n : Nat) (valid : 1 < base) (small : base ≤ 16) :
    0 ∉ numeral base n := by
  intro member
  obtain ⟨d, isDigit, zero⟩ := List.mem_map.mp member
  have below : d < base := by
    rw [canonicalDigits] at isDigit
    split at isDigit
    · rw [List.mem_singleton.mp isDigit]
      exact Nat.zero_lt_of_lt valid
    · exact Nat.digits_lt_base valid (List.mem_reverse.mp isDigit)
  have bits := congrArg UInt8.toNat zero
  rw [digitChar] at bits
  split at bits
  · have value : (d + 48) % 2 ^ 8 = 0 := bits
    omega
  · have value : (d - 10 + 65) % 2 ^ 8 = 0 := bits
    omega

theorem numeral_length {base n : Nat} (nonzero : n ≠ 0) :
    (numeral base n).length = (Nat.digits base n).length := by
  rw [numeral, canonicalDigits, if_neg nonzero, List.length_map, List.length_reverse]

theorem numeral_length_lt {base n larger digits : Nat} (valid : 1 < base) (positive : n ≠ 0)
    (few : n < base ^ digits) (many : base ^ digits ≤ larger) :
    (numeral base n).length < (numeral base larger).length := by
  have largerPositive : larger ≠ 0 := by
    omega
  rw [numeral_length positive, numeral_length largerPositive]
  have low := (Nat.digits_length_le_iff valid n).mpr few
  have high := (Nat.lt_digits_length_iff valid larger).mpr many
  omega

theorem sign_noNul (n : Int) : (0 : UInt8) ∉ (if n < 0 then [45] else []) := by
  intro member
  split at member
  · exact absurd member (by decide)
  · exact List.not_mem_nil member

namespace Piece

theorem written_eq {piece : Piece} (printable : piece.Printable) :
    piece.written = piece.expansion := by
  cases piece with
  | literal _ _ => rfl
  | str _ _ => rfl
  | chr _ => rfl
  | dec arg => exact signedText_dec printable
  | hex arg =>
      have nonneg : 0 ≤ arg.toInt := printable
      have high := arg.toInt_lt
      have same : arg.toInt % 2 ^ 64 = arg.toInt % 2 ^ 32 := by
        omega
      rw [written, expansion, toU64_toNat, same]
  | long _ => rfl

theorem written_longer {piece : Piece} (noNul : 0 ∉ piece.expansion) :
    piece.Printable ∨ piece.expansion.length < piece.written.length := by
  cases piece with
  | literal _ _ => exact .inl trivial
  | str _ _ => exact .inl trivial
  | chr arg =>
      refine .inl fun zero => noNul ?_
      rw [expansion, zero]
      exact List.mem_cons_self
  | dec arg =>
      by_cases least : arg.toInt = -2 ^ 31
      · refine .inr ?_
        have magnitude : (toU64 ((0 - -2 ^ 31 : Int).bmod (2 ^ 32))).toNat = 2 ^ 64 - 2 ^ 31 := by
          decide
        have longer := @numeral_length_lt 10 (2 ^ 31) (2 ^ 64 - 2 ^ 31) 10 (by decide)
          (by decide) (by decide) (by decide)
        rw [written, expansion, signedText, decimalText, least, List.length_append,
          List.length_append, if_pos (by decide), if_pos (by decide), magnitude]
        exact Nat.add_lt_add_left longer 1
      · exact .inl least
  | hex arg =>
      by_cases nonneg : 0 ≤ arg.toInt
      · exact .inl nonneg
      · refine .inr ?_
        have low := arg.le_toInt
        rw [written, expansion, toU64_toNat]
        exact @numeral_length_lt 16 _ _ 8 (by decide) (by omega) (by omega) (by omega)
  | long _ => exact .inl trivial

theorem written_noNul {piece : Piece} (noNul : 0 ∉ piece.expansion) : 0 ∉ piece.written := by
  cases piece with
  | literal _ _ => exact noNul
  | str _ _ => exact noNul
  | chr _ => exact noNul
  | dec arg =>
      intro member
      rcases List.mem_append.mp member with sign | inDigits
      · exact sign_noNul arg.toInt sign
      · exact numeral_noNul 10 _ (by decide) (by decide) inDigits
  | hex arg => exact numeral_noNul 16 _ (by decide) (by decide)
  | long _ => exact noNul

theorem expansion_noNul {piece : Piece} (printable : piece.Printable) : 0 ∉ piece.expansion := by
  cases piece with
  | literal c plain =>
      intro member
      exact plain.1 (List.mem_singleton.mp member).symm
  | str text _ => exact text.noNul
  | chr arg =>
      intro member
      exact printable (List.mem_singleton.mp member).symm
  | dec arg => exact (decimalText_denotes arg.toInt).noNul
  | hex arg => exact numeral_noNul 16 _ (by decide) (by decide)
  | long arg => exact (decimalText_denotes arg.toInt).noNul

end Piece

variable {pieces : List Piece}

theorem writtenOf_eq (printable : ∀ piece ∈ pieces, piece.Printable) :
    writtenOf pieces = expansionOf pieces := by
  induction pieces with
  | nil => rfl
  | cons piece pieces ih =>
      rw [writtenOf, expansionOf, List.flatMap_cons, List.flatMap_cons,
        Piece.written_eq (printable piece List.mem_cons_self)]
      congr 1
      exact ih fun other member => printable other (List.mem_cons_of_mem piece member)

theorem expansionOf_noNul (printable : ∀ piece ∈ pieces, piece.Printable) :
    0 ∉ expansionOf pieces := by
  intro member
  obtain ⟨piece, isPiece, inPiece⟩ := List.mem_flatMap.mp member
  exact Piece.expansion_noNul (printable piece isPiece) inPiece

theorem writtenOf_noNul (noNul : 0 ∉ expansionOf pieces) : 0 ∉ writtenOf pieces := by
  intro member
  obtain ⟨piece, isPiece, inPiece⟩ := List.mem_flatMap.mp member
  refine Piece.written_noNul (fun zero => noNul ?_) inPiece
  exact List.mem_flatMap.mpr ⟨piece, isPiece, zero⟩

theorem writtenOf_longer (noNul : 0 ∉ expansionOf pieces) :
    (∀ piece ∈ pieces, piece.Printable) ∨
      (expansionOf pieces).length < (writtenOf pieces).length := by
  have each : ∀ piece ∈ pieces, 0 ∉ piece.expansion := by
    intro piece isPiece zero
    exact noNul (List.mem_flatMap.mpr ⟨piece, isPiece, zero⟩)
  clear noNul
  induction pieces with
  | nil => exact .inl fun piece member => absurd member List.not_mem_nil
  | cons piece pieces ih =>
      have first := Piece.written_longer (each piece List.mem_cons_self)
      have later := ih fun other member => each other (List.mem_cons_of_mem piece member)
      have expanded : (expansionOf (piece :: pieces)).length =
          piece.expansion.length + (expansionOf pieces).length := by
        rw [expansionOf, List.flatMap_cons, List.length_append]
        rfl
      have printed : (writtenOf (piece :: pieces)).length =
          piece.written.length + (writtenOf pieces).length := by
        rw [writtenOf, List.flatMap_cons, List.length_append]
        rfl
      rw [expanded, printed]
      rcases first with firstRight | firstLonger
      · rw [Piece.written_eq firstRight]
        rcases later with allRight | longer
        · refine .inl fun other member => ?_
          rcases List.mem_cons.mp member with rfl | inRest
          · exact firstRight
          · exact allRight other inRest
        · exact .inr (Nat.add_lt_add_left longer _)
      · refine .inr ?_
        rcases later with allRight | longer
        · rw [writtenOf_eq allRight]
          exact Nat.add_lt_add_right firstLonger _
        · exact Nat.add_lt_add firstLonger longer

theorem strlen_some {mem : List UInt8} {size : Nat} (isSize : strlen mem 0 = some size) :
    0 ∉ mem.take size := by
  rw [strlen, List.drop_zero, Nat.zero_add] at isSize
  split at isSize
  · have place := Option.some.inj isSize
    intro member
    obtain ⟨index, inside, zero⟩ := List.mem_take_iff_getElem.mp member
    have notZero := List.not_of_lt_findIdx (place ▸ (Nat.lt_min.mp inside).1)
    rw [decide_eq_true zero] at notZero
    cases notZero
  · cases isSize

theorem printable_of_right {str : List UInt8} (right : VsprintfRight pieces str) :
    (∀ piece ∈ pieces, piece.Printable) ∧ str[(expansionOf pieces).length]? = some 0 := by
  have printed := right (.bits 0)
  rw [vsprintf_pieces] at printed
  obtain ⟨after, copied, returned⟩ := Option.bind_eq_some_iff.mp printed
  obtain ⟨size, isSize, same⟩ := Option.map_eq_some_iff.mp returned
  obtain ⟨sizeEq, rest⟩ := Prod.mk.inj same
  obtain ⟨afterEq, -⟩ := Prod.mk.inj rest
  subst sizeEq
  subst afterEq
  have noNul := strlen_some isSize
  rw [List.take_left] at noNul
  obtain ⟨room, -⟩ := memcpy_size copied
  rw [memcpy_isSome room, List.take_zero, List.nil_append, Nat.zero_add] at copied
  have contents := Option.some.inj copied
  have printable : ∀ piece ∈ pieces, piece.Printable := by
    rcases writtenOf_longer noNul with printable | longer
    · exact printable
    · -- what is printed goes on where the output should end
      have atEnd := congrArg (fun mem => mem[(expansionOf pieces).length]?) contents
      simp only [List.getElem?_append_left longer, getElem?_behind] at atEnd
      exact absurd (List.mem_of_getElem? atEnd) (writtenOf_noNul noNul)
  refine ⟨printable, ?_⟩
  rw [writtenOf_eq printable] at contents
  have behind := List.append_cancel_left contents
  rw [← List.head?_drop, behind]
  rfl

theorem right_of_printable {str : List UInt8} (printable : ∀ piece ∈ pieces, piece.Printable)
    (ends : str[(expansionOf pieces).length]? = some 0) : VsprintfRight pieces str := by
  intro prev
  obtain ⟨inside, zero⟩ := List.getElem?_eq_some_iff.mp ends
  have behind : str.drop (expansionOf pieces).length =
      0 :: str.drop ((expansionOf pieces).length + 1) := by
    rw [List.drop_eq_getElem_cons inside, zero]
  have size := @strlen_text [] (str.drop ((expansionOf pieces).length + 1)) _
    (expansionOf_noNul printable)
  rw [List.nil_append, List.length_nil] at size
  rw [vsprintf_pieces, writtenOf_eq printable, memcpy_isSome (by omega), List.take_zero,
    List.nil_append, Nat.zero_add, behind, Option.bind_some, size]
  rfl

/-- The output is right exactly when no `%c` prints a zero, no `%d` the least number, no `%x` a
negative one, and the destination holds a zero where the output ends. -/
theorem vsprintfRight_iff (pieces : List Piece) (str : List UInt8) :
    VsprintfRight pieces str ↔
      (∀ piece ∈ pieces, piece.Printable) ∧ str[(expansionOf pieces).length]? = some 0 := by
  constructor
  · intro right
    exact printable_of_right right
  · rintro ⟨printable, ends⟩
    exact right_of_printable printable ends

/-- The output of a format without directives is cut where the destination holds no zero, and
the least number and negative hexadecimal ones are printed with 64 bits. -/
theorem vsprintf_fails :
    vsprintf [7, 7, 7, 0] (formatOf [.literal 97 (by decide)]) [.bits 0] =
        some (3, [97, 7, 7, 0], [.bits 0]) ∧
      ¬ VsprintfRight [.literal 97 (by decide)] [7, 7, 7, 0] ∧
      ¬ VsprintfRight [.dec (-2147483648)] (zeros 32) ∧ ¬ VsprintfRight [.hex (-1)] (zeros 32) := by
  refine ⟨by decide, ?_, ?_, ?_⟩
  · intro right
    exact absurd (printable_of_right right).2 (by decide)
  · intro right
    exact (printable_of_right right).1 _ List.mem_cons_self rfl
  · intro right
    have nonneg : 0 ≤ (-1 : Int32).toInt := (printable_of_right right).1 _ List.mem_cons_self
    exact absurd nonneg (by decide)

end CleanOS.Common.Stdio
