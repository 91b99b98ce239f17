import Mathlib.Data.List.TakeWhile
import Mathlib.Data.List.Flatten
import Mathlib.Tactic.Common

/-!
# Terminated strings one behind the other

A run of strings in memory, each with a zero behind it. A walk over such a run goes
from one string to the next by the length of the string and its zero; it meets the
strings in their order, and the end of the run behind the last one. A string may be
empty, so that a run that ends in a further zero has one string more.
-/

namespace SmcPkg.StringSet

section Runs

/-- The string that begins at a place. -/
def textAt (memory : List UInt8) (place : Nat) : List UInt8 :=
  (memory.drop place).takeWhile (· ≠ 0)

/-- Strings as they lie in memory. -/
def packed (pieces : List (List UInt8)) : List UInt8 :=
  pieces.flatMap (· ++ [0])

/-- Where the n-th string begins. -/
def placeOf (pieces : List (List UInt8)) (n : Nat) : Nat :=
  (packed (pieces.take n)).length

variable {pieces : List (List UInt8)} {n : Nat}

/-- Each string is packed with its zero, in front of the others. -/
theorem packed_cons (piece : List UInt8) (pieces : List (List UInt8)) :
    packed (piece :: pieces) = piece ++ 0 :: packed pieces := by
  simp [packed]

/-- Two rows of strings are packed one behind the other. -/
theorem packed_append (pieces more : List (List UInt8)) :
    packed (pieces ++ more) = packed pieces ++ packed more :=
  List.flatMap_append

/-- The first string is at the front. -/
theorem placeOf_zero : placeOf pieces 0 = 0 := rfl

/-- Behind the last string the rows end. -/
theorem placeOf_length : placeOf pieces pieces.length = (packed pieces).length := by
  rw [placeOf, List.take_length]

/-- The run around one of its strings. -/
theorem packed_split (inside : n < pieces.length) :
    packed pieces =
      packed (pieces.take n) ++ (pieces[n] ++ 0 :: packed (pieces.drop (n + 1))) := by
  have around : pieces = pieces.take n ++ pieces[n] :: pieces.drop (n + 1) := by
    rw [List.getElem_cons_drop, List.take_append_drop]
  calc packed pieces
      _ = packed (pieces.take n ++ pieces[n] :: pieces.drop (n + 1)) := congrArg packed around
      _ = _ := by rw [packed_append, packed_cons]

/-- One string further. -/
theorem placeOf_succ (inside : n < pieces.length) :
    placeOf pieces (n + 1) = placeOf pieces n + (pieces[n].length + 1) := by
  rw [placeOf, placeOf, List.take_add_one, List.getElem?_eq_getElem inside, packed_append]
  simp [packed]

/-- A string and its zero lie inside the run. -/
theorem placeOf_inside (inside : n < pieces.length) :
    placeOf pieces n + (pieces[n].length + 1) ≤ (packed pieces).length := by
  rw [packed_split inside, List.length_append, List.length_append, List.length_cons, placeOf]
  omega

variable {memory before behind : List UInt8}

/-- A string is the text up to its zero. -/
theorem takeWhile_free {text : List UInt8} (free : 0 ∉ text) :
    (text ++ 0 :: behind).takeWhile (· ≠ 0) = text := by
  rw [List.takeWhile_append_of_pos]
  · simp
  · intro byte inside
    have nonzero : byte ≠ 0 := fun zero => free (zero ▸ inside)
    simpa using nonzero

/-- What lies from the place of a string on. -/
theorem drop_placeOf (split : memory = before ++ (packed pieces ++ behind))
    (inside : n < pieces.length) :
    memory.drop (before.length + placeOf pieces n) =
      pieces[n] ++ 0 :: (packed (pieces.drop (n + 1)) ++ behind) := by
  have around : memory = (before ++ packed (pieces.take n)) ++
      (pieces[n] ++ 0 :: (packed (pieces.drop (n + 1)) ++ behind)) := by
    rw [split, packed_split inside]
    simp
  rw [placeOf, ← List.length_append, around, List.drop_left]

/-- The walk meets each string of the run at its place. -/
theorem textAt_placeOf (free : ∀ piece ∈ pieces, 0 ∉ piece)
    (split : memory = before ++ (packed pieces ++ behind)) (inside : n < pieces.length) :
    textAt memory (before.length + placeOf pieces n) = pieces[n] := by
  rw [textAt, drop_placeOf split inside, takeWhile_free (free _ (List.getElem_mem inside))]

end Runs

section Areas

/-- The string area of a structure: the strings with their zeros and one zero more, or two
    zeros where there is no string. -/
def area (strings : List (List UInt8)) : List UInt8 :=
  if strings = [] then [0, 0] else packed strings ++ [0]

/-- The area as a run: the zeros at its end close empty strings. -/
def areaPieces (strings : List (List UInt8)) : List (List UInt8) :=
  if strings = [] then [[], []] else strings ++ [[]]

variable {strings : List (List UInt8)} {n : Nat}

/-- The area of the strings is packed, with an empty string at its end. -/
theorem area_eq_packed (strings : List (List UInt8)) : area strings = packed (areaPieces strings) := by
  unfold area areaPieces
  split
  · rfl
  · rw [packed_append]
    rfl

/-- No piece of the area has a zero in it. -/
theorem areaPieces_free (free : ∀ text ∈ strings, 0 ∉ text) :
    ∀ piece ∈ areaPieces strings, 0 ∉ piece := by
  intro piece inside
  unfold areaPieces at inside
  split at inside
  · simp only [List.mem_cons, List.not_mem_nil, or_false, or_self] at inside
    simp [inside]
  · obtain string | empty := List.mem_append.mp inside
    · exact free piece string
    · simp [List.mem_singleton.mp empty]

/-- The first pieces are the strings. -/
theorem areaPieces_string (inside : n < strings.length) :
    (areaPieces strings)[n]? = some strings[n] := by
  have filled : strings ≠ [] := List.ne_nil_of_length_pos (by omega)
  rw [areaPieces, if_neg filled, List.getElem?_append_left inside, List.getElem?_eq_getElem inside]

/-- A piece behind the strings is empty. -/
theorem areaPieces_empty (outside : strings.length ≤ n) {piece : List UInt8}
    (found : (areaPieces strings)[n]? = some piece) : piece = [] := by
  unfold areaPieces at found
  split at found
  · match n with
    | 0 | 1 => exact (Option.some.inj found).symm
    | n + 2 => exact nomatch found
  · rw [List.getElem?_append_right outside] at found
    obtain ⟨last, same⟩ := List.getElem?_eq_some_iff.mp found
    simpa using same.symm

/-- The number of zeros that close a piece. -/
theorem areaPieces_length :
    (areaPieces strings).length = if strings = [] then 2 else strings.length + 1 := by
  unfold areaPieces
  split <;> simp

end Areas

section Closed

/-- A run of strings that are not empty, from a place where a string may have begun: each zero
    stands behind a byte of a string, and the run ends with a zero. -/
def Closed : Bool → List UInt8 → Prop
  | begun, [] => begun = false
  | begun, byte :: rest => if byte = 0 then begun = true ∧ Closed false rest else Closed true rest

variable {strings : List (List UInt8)} {bytes : List UInt8} {begun : Bool}

/-- A string passes to its zero. -/
theorem closed_text {text : List UInt8} (free : 0 ∉ text) (filled : text ≠ [] ∨ begun = true) :
    Closed begun (text ++ 0 :: bytes) ↔ Closed false bytes := by
  induction text generalizing begun with
  | nil =>
    have started : begun = true := filled.resolve_left fun differs => differs rfl
    simp [Closed, started]
  | cons byte text inductionHypothesis =>
    have nonzero : byte ≠ 0 := fun zero => free (zero ▸ List.mem_cons_self)
    rw [List.cons_append, Closed, if_neg nonzero]
    exact inductionHypothesis (fun inside => free (List.mem_cons_of_mem _ inside)) (Or.inr rfl)

/-- Strings that are not empty are a closed run. -/
theorem packed_closed (filled : ∀ text ∈ strings, text ≠ []) (free : ∀ text ∈ strings, 0 ∉ text) :
    Closed false (packed strings) := by
  induction strings with
  | nil => rfl
  | cons text strings inductionHypothesis =>
    rw [packed_cons, closed_text (free text List.mem_cons_self)
      (Or.inl (filled text List.mem_cons_self))]
    exact inductionHypothesis (fun text inside => filled text (List.mem_cons_of_mem _ inside))
      (fun text inside => free text (List.mem_cons_of_mem _ inside))

/-- A closed run is the rest of a string that has begun, and strings. -/
theorem closed_packed (closed : Closed begun bytes) :
    ∃ text strings, bytes = (if begun then text ++ [0] else []) ++ packed strings ∧ 0 ∉ text ∧
      (∀ text ∈ strings, text ≠ []) ∧ ∀ text ∈ strings, 0 ∉ text := by
  induction bytes generalizing begun with
  | nil =>
    have ended : begun = false := closed
    exact ⟨[], [], by rw [ended]; rfl, by simp, by simp, by simp⟩
  | cons byte bytes inductionHypothesis =>
    rw [Closed] at closed
    split_ifs at closed with zero
    · obtain ⟨rfl, closed⟩ := closed
      obtain ⟨_, strings, split, -, filled, free⟩ := inductionHypothesis closed
      refine ⟨[], strings, ?_, by simp, filled, free⟩
      rw [split, zero]
      rfl
    · obtain ⟨text, strings, split, whole, filled, free⟩ := inductionHypothesis closed
      have fresh : 0 ∉ byte :: text := by
        intro inside
        rcases List.mem_cons.mp inside with same | inside
        · exact zero same.symm
        · exact whole inside
      cases begun with
      | true => exact ⟨byte :: text, strings, by rw [split]; simp, fresh, filled, free⟩
      | false =>
        refine ⟨[], (byte :: text) :: strings, ?_, by simp, ?_, ?_⟩
        · rw [split, packed_cons]
          simp
        · intro text inside
          rcases List.mem_cons.mp inside with rfl | inside
          · simp
          · exact filled text inside
        · intro text inside
          rcases List.mem_cons.mp inside with rfl | inside
          · exact fresh
          · exact free text inside

/-- A run has one zero for each string. -/
theorem packed_count (free : ∀ text ∈ strings, 0 ∉ text) :
    (packed strings).count 0 = strings.length := by
  induction strings with
  | nil => rfl
  | cons text strings inductionHypothesis =>
    rw [packed_cons, List.count_append, List.count_cons_self,
      List.count_eq_zero.mpr (free text List.mem_cons_self),
      inductionHypothesis (fun text inside => free text (List.mem_cons_of_mem _ inside)),
      List.length_cons, Nat.zero_add]

/-- A run of bytes is that of a number of strings if and only if it is closed and has their
    zeros. -/
theorem closed_iff {count : Nat} :
    (∃ strings, packed strings = bytes ∧ (∀ text ∈ strings, text ≠ []) ∧
      (∀ text ∈ strings, 0 ∉ text) ∧ strings.length = count) ↔
      Closed false bytes ∧ bytes.count 0 = count := by
  constructor
  · rintro ⟨strings, rfl, filled, free, rfl⟩
    exact ⟨packed_closed filled free, packed_count free⟩
  · rintro ⟨closed, rfl⟩
    obtain ⟨text, strings, split, -, filled, free⟩ := closed_packed closed
    have whole : bytes = packed strings := split
    exact ⟨strings, whole.symm, filled, free, by rw [whole, packed_count free]⟩

end Closed

end SmcPkg.StringSet
