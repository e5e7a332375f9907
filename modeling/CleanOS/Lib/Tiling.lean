import Mathlib.Data.List.Basic

/-!
# Tilings

A sequence cut into consecutive pieces, and the pieces collected of it so far, kept in
the order of the sequence while they arrive in any order.
-/

namespace CleanOS.Lib

open scoped List

structure Piece (α : Type) where
  start : Nat
  chunk : List α
  more : Bool

namespace Piece

variable {α : Type}

def stop (piece : Piece α) : Nat :=
  piece.start + piece.chunk.length

def Before (first second : Piece α) : Prop :=
  first.stop ≤ second.start

def insert (piece : Piece α) : List (Piece α) → List (Piece α)
  | [] => [piece]
  | next :: rest =>
      if piece.stop ≤ next.start then piece :: next :: rest else next :: insert piece rest

/-- Pieces follow on each other from a position on, and the last one is the end.  The flag
says whether more were to follow before. -/
def complete : Nat → Bool → List (Piece α) → Bool
  | _, more, [] => !more
  | position, _, piece :: rest =>
      piece.start = position && complete piece.stop piece.more rest

end Piece

inductive Tiles {α : Type} : Nat → List (Piece α) → List α → Prop where
  | last {start : Nat} {chunk : List α} (nonempty : chunk ≠ []) :
      Tiles start [⟨start, chunk, false⟩] chunk
  | more {start : Nat} {chunk whole : List α} {pieces : List (Piece α)} (nonempty : chunk ≠ [])
      (behind : Tiles (start + chunk.length) pieces whole) :
      Tiles start (⟨start, chunk, true⟩ :: pieces) (chunk ++ whole)

section Insert

variable {α : Type} {piece : Piece α} {got pieces : List (Piece α)}

theorem Piece.insert_perm : piece.insert got ~ piece :: got := by
  induction got with
  | nil => exact List.Perm.refl _
  | cons next rest ih =>
      by_cases before : piece.stop ≤ next.start
      · rw [Piece.insert, if_pos before]
      · rw [Piece.insert, if_neg before]
        exact (ih.cons next).trans (List.Perm.swap piece next rest)

theorem Piece.insert_sublist (ordered : pieces.Pairwise Piece.Before)
    (nonempty : ∀ piece ∈ pieces, piece.chunk ≠ []) (collected : got <+ pieces)
    (member : piece ∈ pieces) (missing : piece ∉ got) : piece.insert got <+ pieces := by
  induction collected with
  | slnil => cases member
  | @cons got rest first collected ih =>
      obtain ⟨behind, ordered⟩ := List.pairwise_cons.mp ordered
      rcases List.mem_cons.mp member with rfl | later
      · cases got with
        | nil => exact List.singleton_sublist.mpr List.mem_cons_self
        | cons next others =>
            have before : piece.stop ≤ next.start :=
              behind next (collected.subset List.mem_cons_self)
            rw [Piece.insert, if_pos before]
            exact collected.cons_cons piece
      · exact (ih ordered (fun other inRest => nonempty other (List.mem_cons_of_mem _ inRest))
          later missing).cons first
  | @cons_cons got rest first collected ih =>
      obtain ⟨behind, ordered⟩ := List.pairwise_cons.mp ordered
      rcases List.mem_cons.mp member with rfl | later
      · exact absurd List.mem_cons_self missing
      · have after : ¬ piece.stop ≤ first.start := by
          have position : first.stop ≤ piece.start := behind piece later
          have length := List.length_pos_of_ne_nil (nonempty piece member)
          unfold Piece.stop at position ⊢
          omega
        rw [Piece.insert, if_neg after]
        exact (ih ordered (fun other inRest => nonempty other (List.mem_cons_of_mem _ inRest))
          later (fun inGot => missing (List.mem_cons_of_mem _ inGot))).cons_cons first

end Insert

namespace Tiles

variable {α : Type} {start : Nat} {whole : List α} {piece : Piece α}
variable {got pieces : List (Piece α)}

theorem inside (tiles : Tiles start pieces whole) (member : piece ∈ pieces) :
    start ≤ piece.start ∧ piece.stop ≤ start + whole.length ∧
      piece.chunk = (whole.drop (piece.start - start)).take piece.chunk.length := by
  induction tiles with
  | last nonempty =>
      rw [List.mem_singleton.mp member]
      simp [Piece.stop]
  | @more start chunk whole pieces nonempty behind ih =>
      rcases List.mem_cons.mp member with rfl | later
      · simp [Piece.stop]
      · obtain ⟨lower, upper, elements⟩ := ih later
        have position : piece.start - start =
            chunk.length + (piece.start - (start + chunk.length)) := by omega
        refine ⟨by omega, by simp only [List.length_append]; omega, ?_⟩
        rw [position, List.drop_length_add_append]
        exact elements

theorem nonempty_chunk (tiles : Tiles start pieces whole) :
    ∀ piece ∈ pieces, piece.chunk ≠ [] := by
  induction tiles with
  | last nonempty => simpa using nonempty
  | more nonempty behind ih => simpa using ⟨nonempty, ih⟩

theorem ordered (tiles : Tiles start pieces whole) : pieces.Pairwise Piece.Before := by
  induction tiles with
  | last nonempty => exact List.pairwise_singleton _ _
  | more nonempty behind ih =>
      refine List.pairwise_cons.mpr ⟨?_, ih⟩
      intro other member
      exact (behind.inside member).1

theorem flatMap_chunk (tiles : Tiles start pieces whole) : pieces.flatMap Piece.chunk = whole := by
  induction tiles with
  | last nonempty => simp
  | more nonempty behind ih => simp [ih]

theorem ne_nil (tiles : Tiles start pieces whole) : pieces ≠ [] := by
  cases tiles <;> simp

theorem start_ne (tiles : Tiles start pieces whole) {other : Piece α}
    (member : piece ∈ pieces) (otherMember : other ∈ pieces) (different : piece ≠ other) :
    piece.start ≠ other.start := by
  induction tiles with
  | last nonempty =>
      rw [List.mem_singleton.mp member, List.mem_singleton.mp otherMember] at different
      exact absurd rfl different
  | more nonempty behind ih =>
      have length := List.length_pos_of_ne_nil nonempty
      rcases List.mem_cons.mp member with rfl | later
      · rcases List.mem_cons.mp otherMember with rfl | otherLater
        · exact absurd rfl different
        · have position := (behind.inside otherLater).1
          simp only
          omega
      · rcases List.mem_cons.mp otherMember with rfl | otherLater
        · have position := (behind.inside later).1
          simp only
          omega
        · exact ih later otherLater

theorem nodup (tiles : Tiles start pieces whole) : pieces.Nodup := by
  induction tiles with
  | last nonempty => simp
  | more nonempty behind ih =>
      refine List.nodup_cons.mpr ⟨?_, ih⟩
      intro again
      have length := List.length_pos_of_ne_nil nonempty
      have position := (behind.inside again).1
      simp only at position
      omega

theorem part (tiles : Tiles start pieces whole) (several : 2 ≤ pieces.length)
    (member : piece ∈ pieces) : piece.more = true ∨ start < piece.start := by
  cases tiles with
  | last nonempty => simp at several
  | more nonempty behind =>
      rcases List.mem_cons.mp member with rfl | later
      · exact .inl rfl
      · have length := List.length_pos_of_ne_nil nonempty
        have position := (behind.inside later).1
        exact .inr (by omega)

theorem complete_iff (tiles : Tiles start pieces whole) (collected : got <+ pieces) :
    Piece.complete start true got = true ↔ got = pieces := by
  induction tiles generalizing got with
  | last nonempty =>
      rcases List.sublist_singleton.mp collected with rfl | rfl
      · simp [Piece.complete]
      · simp [Piece.complete]
  | @more start chunk whole pieces nonempty behind ih =>
      have length := List.length_pos_of_ne_nil nonempty
      cases collected with
      | cons _ collected =>
          have shorter : got ≠ ⟨start, chunk, true⟩ :: pieces := by
            intro same
            have longer := collected.length_le
            simp only [same, List.length_cons] at longer
            omega
          refine iff_of_false ?_ shorter
          cases got with
          | nil => simp [Piece.complete]
          | cons first rest =>
              have position := (behind.inside (collected.subset List.mem_cons_self)).1
              have elsewhere : first.start ≠ start := by omega
              simp [Piece.complete, elsewhere]
      | cons_cons _ collected =>
          simpa [Piece.complete, Piece.stop] using ih collected

end Tiles

end CleanOS.Lib
