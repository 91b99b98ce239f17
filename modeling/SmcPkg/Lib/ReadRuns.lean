import SmcPkg.Lib.Bytes

/-!
# Runs of reads with one size for all

A reader that is told how much room there is, and tells how much it brought, through one
and the same variable. When the variable is not set again between two reads, a read has the
room that the one before it has left there: parts that do not grow are read in full, one that
is longer than the part before it does not fit.

What is read is laid out in memory. A read leaves some bytes at the place where it began and
moves the place, usually by as many bytes as it left. Nothing is assumed of a reader that
moves the place by another number: it leaves a gap, or writes over what the next one leaves.
-/

namespace SmcPkg.ReadRuns

open Bytes

section Parts

variable {α : Type*}

/-- No part is longer than the room or than the part before it. -/
def Descending : Nat → List (List α) → Prop
  | _, [] => True
  | room, part :: parts => part.length ≤ room ∧ Descending part.length parts

/-- Parts that are numbered do not grow exactly if the first one has room and each of the others
is no longer than the one before it. -/
theorem descending_range' {part : Nat → List α} {room first count : Nat} :
    Descending room ((List.range' first count).map part) ↔
      (0 < count → (part first).length ≤ room) ∧
        ∀ k, first ≤ k → k + 1 < first + count → (part (k + 1)).length ≤ (part k).length := by
  induction count generalizing room first with
  | zero =>
    refine iff_of_true trivial ⟨fun none => absurd none (Nat.lt_irrefl 0), fun k above below => ?_⟩
    omega
  | succ count inductionHypothesis =>
    rw [List.range'_succ, List.map_cons, Descending, inductionHypothesis]
    constructor
    · rintro ⟨fits, second, rest⟩
      refine ⟨fun _ => fits, fun k above below => ?_⟩
      obtain rfl | later := Nat.eq_or_lt_of_le above
      · exact second (by omega)
      · exact rest k later (by omega)
    · rintro ⟨fits, rest⟩
      refine ⟨fits (Nat.succ_pos count), fun more => rest first (Nat.le_refl first) (by omega), ?_⟩
      exact fun k above below => rest k (by omega) (by omega)

end Parts

section Layout

/-- A place in memory and the number of bytes written from there on. -/
structure Extent where
  start : Nat
  count : Nat

/-- The extent ends up to a limit. -/
def Extent.Within (extent : Extent) (limit : Nat) : Prop := extent.start + extent.count ≤ limit

instance (extent : Extent) (limit : Nat) : Decidable (extent.Within limit) :=
  inferInstanceAs (Decidable (_ ≤ _))

/-- The bytes of the extent, if it has any, end up to a limit: nothing is asked of the place
where no byte is written. -/
def Extent.BytesWithin (extent : Extent) (limit : Nat) : Prop :=
  0 < extent.count → extent.Within limit

instance (extent : Extent) (limit : Nat) : Decidable (extent.BytesWithin limit) :=
  inferInstanceAs (Decidable (_ → _))

/-- What a read leaves, and how far it moves the place for the next one. -/
structure Piece where
  data : List UInt8
  advance : Nat

/-- The piece of a read that moves the place by what it leaves. -/
def solid (part : List UInt8) : Piece := ⟨part, part.length⟩

@[simp] theorem solid_data (part : List UInt8) : (solid part).data = part := rfl

@[simp] theorem solid_advance (part : List UInt8) : (solid part).advance = part.length := rfl

/-- The extents of pieces. -/
def extents (start : Nat) : List Piece → List Extent
  | [] => []
  | piece :: pieces => ⟨start, piece.data.length⟩ :: extents (start + piece.advance) pieces

/-- Pieces written from a place on. -/
def lay (start : Nat) : List Piece → Memory → Memory
  | [], memory => memory
  | piece :: pieces, memory =>
    lay (start + piece.advance) pieces
      (overlayAt start piece.data.length (memoryOf piece.data fun _ => 0) memory)

variable {start limit i : Nat} {parts : List (List UInt8)} {memory : Memory}

/-- Solid pieces lie one behind the other, so they end up to a limit exactly if all of them
together do. -/
theorem extents_within (upTo : start ≤ limit) :
    (∀ extent ∈ extents start (parts.map solid), extent.BytesWithin limit) ↔
      start + parts.flatten.length ≤ limit := by
  induction parts generalizing start with
  | nil => simpa [extents] using upTo
  | cons part parts inductionHypothesis =>
    rw [List.map_cons, extents, List.forall_mem_cons, List.flatten_cons, List.length_append,
      Extent.BytesWithin, Extent.Within, solid_data, solid_advance, ← Nat.add_assoc]
    constructor
    · rintro ⟨first, rest⟩
      refine (inductionHypothesis ?_).mp rest
      obtain none | some := Nat.eq_zero_or_pos part.length
      · omega
      · exact first some
    · intro fits
      have first : start + part.length ≤ limit := by omega
      exact ⟨fun _ => first, (inductionHypothesis first).mpr fits⟩

/-- Memory before the first solid piece and behind the last is left. -/
theorem lay_outside (outside : i < start ∨ start + parts.flatten.length ≤ i) :
    lay start (parts.map solid) memory i = memory i := by
  induction parts generalizing start memory with
  | nil => rfl
  | cons part parts inductionHypothesis =>
    rw [List.flatten_cons, List.length_append] at outside
    rw [List.map_cons, lay, solid_data, solid_advance, inductionHypothesis (by omega),
      overlayAt_outside (by omega)]

/-- Solid pieces lie in memory as one. -/
theorem lay_inside (inside : i < parts.flatten.length) :
    lay start (parts.map solid) memory (start + i) = parts.flatten.getD i 0 := by
  induction parts generalizing start memory i with
  | nil => exact absurd inside (Nat.not_lt_zero _)
  | cons part parts inductionHypothesis =>
    rw [List.flatten_cons, List.length_append] at inside
    rw [List.map_cons, lay, solid_data, solid_advance, List.flatten_cons]
    by_cases here : i < part.length
    · rw [lay_outside (Or.inl (by omega)), overlayAt_inside (by omega) (by omega),
        Nat.add_sub_cancel_left, memoryOf, List.getD_append _ _ _ _ here,
        List.getElem?_eq_getElem here, List.getD_eq_getElem _ _ here]
      rfl
    · have place : start + i = start + part.length + (i - part.length) := by omega
      rw [place, inductionHypothesis (by omega), List.getD_append_right _ _ _ _ (by omega)]

end Layout

end SmcPkg.ReadRuns
