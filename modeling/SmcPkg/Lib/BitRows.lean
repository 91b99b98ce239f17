import Mathlib

/-!
# Numbers in a row of bits

A stream of bits holds numbers one behind the other, the highest bit of each first.
`bitsOf` is the row of bits of a number, and `front` is the number that the first bits of
a row make. A row is read as if bits of zero lay behind it, as a reader that pads its
source with zeros sees it.
-/

namespace SmcPkg.BitRows

/-- The lower bits of a number, the highest of them first. -/
def bitsOf : Nat → Nat → List Bool
  | 0, _ => []
  | width + 1, value => value.testBit width :: bitsOf width value

/-- The number that the first bits of a row make. -/
def front : Nat → List Bool → Nat
  | 0, _ => 0
  | width + 1, bits => (bits.headD false).toNat * 2 ^ width + front width bits.tail

section Rows

@[simp] theorem bitsOf_length (width value : Nat) : (bitsOf width value).length = width := by
  induction width with
  | zero => rfl
  | succ width inductionHypothesis => rw [bitsOf, List.length_cons, inductionHypothesis]

/-- A row holds the lower bits only. -/
theorem bitsOf_congr {width first second : Nat}
    (same : ∀ i < width, first.testBit i = second.testBit i) :
    bitsOf width first = bitsOf width second := by
  induction width with
  | zero => rfl
  | succ width inductionHypothesis =>
    rw [bitsOf, bitsOf, same width (Nat.lt_succ_self width),
      inductionHypothesis fun i below => same i (Nat.lt_succ_of_lt below)]

/-- A row is the row of the upper bits and the row of the lower ones. -/
theorem bitsOf_add (upper lower value : Nat) :
    bitsOf (upper + lower) value = bitsOf upper (value >>> lower) ++ bitsOf lower value := by
  induction upper with
  | zero => rw [Nat.zero_add, bitsOf, List.nil_append]
  | succ upper inductionHypothesis =>
    rw [Nat.succ_add, bitsOf, bitsOf, inductionHypothesis, Nat.testBit_shiftRight,
      Nat.add_comm lower upper, List.cons_append]

/-- The bits of a number, from the highest one. -/
theorem bitsOf_getD (width value i : Nat) :
    (bitsOf width value).getD i false = (decide (i < width) && value.testBit (width - 1 - i)) := by
  induction width generalizing i with
  | zero => simp [bitsOf]
  | succ width inductionHypothesis =>
    cases i with
    | zero => simp [bitsOf]
    | succ i =>
      rw [bitsOf, List.getD_cons_succ, inductionHypothesis]
      have place : width + 1 - 1 - (i + 1) = width - 1 - i := by omega
      rw [place]
      simp

/-- Zero has zeros. -/
theorem bitsOf_zero (width : Nat) : bitsOf width 0 = List.replicate width false := by
  induction width with
  | zero => rfl
  | succ width inductionHypothesis =>
    rw [bitsOf, inductionHypothesis, Nat.zero_testBit, List.replicate_succ]

/-- The row of bits of some bytes. -/
def byteRow (bytes : List UInt8) : List Bool :=
  bytes.flatMap fun byte => bitsOf 8 byte.toNat

/-- The bits of the first byte come first. -/
theorem byteRow_cons (byte : UInt8) (bytes : List UInt8) :
    byteRow (byte :: bytes) = bitsOf 8 byte.toNat ++ byteRow bytes := by
  simp [byteRow]

/-- Those of the last byte come last. -/
theorem byteRow_snoc (bytes : List UInt8) (byte : UInt8) :
    byteRow (bytes ++ [byte]) = byteRow bytes ++ bitsOf 8 byte.toNat := by
  simp [byteRow]

@[simp] theorem byteRow_length (bytes : List UInt8) : (byteRow bytes).length = 8 * bytes.length := by
  induction bytes with
  | nil => rfl
  | cons byte bytes inductionHypothesis =>
    rw [byteRow_cons, List.length_append, bitsOf_length, inductionHypothesis, List.length_cons]
    omega

/-- A bit of the row is one of its byte, and behind the bytes there are zeros. -/
theorem byteRow_getD (bytes : List UInt8) (i : Nat) :
    (byteRow bytes).getD i false = (bytes.getD (i / 8) 0).toNat.testBit (7 - i % 8) := by
  induction bytes generalizing i with
  | nil => simp [byteRow]
  | cons byte bytes inductionHypothesis =>
    rw [byteRow_cons]
    by_cases first : i < 8
    · have place : i / 8 = 0 := by omega
      have bit : 8 - 1 - i = 7 - i % 8 := by omega
      rw [List.getD_append _ _ _ _ (by simpa using first), bitsOf_getD, place, bit]
      simp [first]
    · have place : i / 8 = (i - 8) / 8 + 1 := by omega
      have bit : (i - 8) % 8 = i % 8 := by omega
      rw [List.getD_append_right _ _ _ _ (by simpa using Nat.le_of_not_lt first), bitsOf_length,
        inductionHypothesis, place, bit, List.getD_cons_succ]

end Rows

section Fronts

/-- The number of some bits at the front fits their width. -/
theorem front_lt (width : Nat) (bits : List Bool) : front width bits < 2 ^ width := by
  induction width generalizing bits with
  | zero => exact Nat.one_pos
  | succ width inductionHypothesis =>
    have tail := inductionHypothesis bits.tail
    have head : (bits.headD false).toNat ≤ 1 := Bool.toNat_le _
    have bound : (bits.headD false).toNat * 2 ^ width ≤ 1 * 2 ^ width :=
      Nat.mul_le_mul_right _ head
    rw [front, Nat.pow_succ]
    omega

/-- The bits of a front are the bits of the row, and zeros behind them. -/
theorem front_testBit {width i : Nat} (bits : List Bool) (inside : i < width) :
    (front width bits).testBit i = bits.getD (width - 1 - i) false := by
  induction width generalizing bits with
  | zero => exact absurd inside (Nat.not_lt_zero i)
  | succ width inductionHypothesis =>
    rw [front, Nat.mul_comm, Nat.testBit_two_pow_mul_add _ (front_lt width bits.tail)]
    by_cases last : i = width
    · subst last
      rw [if_neg (lt_irrefl _), Nat.sub_self, Nat.add_sub_cancel, Nat.sub_self]
      cases bits with
      | nil => rfl
      | cons bit bits => cases bit <;> simp
    · have below : i < width := by omega
      rw [if_pos below, inductionHypothesis bits.tail below]
      have place : width + 1 - 1 - i = width - 1 - i + 1 := by omega
      rw [place]
      cases bits with
      | nil => rfl
      | cons bit bits => rfl

/-- The front of a row that starts with a number. -/
theorem front_bitsOf_append (width more value : Nat) (rest : List Bool) :
    front (width + more) (bitsOf width value ++ rest) =
      value % 2 ^ width * 2 ^ more + front more rest := by
  induction width with
  | zero => rw [Nat.zero_add, bitsOf, List.nil_append, Nat.pow_zero, Nat.mod_one, Nat.zero_mul,
      Nat.zero_add]
  | succ width inductionHypothesis =>
    have split : value % 2 ^ (width + 1) =
        (value.testBit width).toNat * 2 ^ width + value % 2 ^ width := by
      rw [Nat.mod_pow_succ, Nat.toNat_testBit]
      ring
    rw [Nat.succ_add, front, bitsOf, List.cons_append, List.headD_cons, List.tail_cons,
      inductionHypothesis, split, Nat.pow_add]
    ring

/-- A number is read back from the row that it was put at the front of. -/
theorem front_number {width value : Nat} (fits : value < 2 ^ width) (rest : List Bool) :
    front width (bitsOf width value ++ rest) = value := by
  have read := front_bitsOf_append width 0 value rest
  simpa [front, Nat.mod_eq_of_lt fits] using read

/-- A shorter front is the upper part of a longer one. -/
theorem front_shiftRight (width more : Nat) (bits : List Bool) :
    front (width + more) bits >>> more = front width bits := by
  refine Nat.eq_of_testBit_eq fun i => ?_
  rw [Nat.testBit_shiftRight]
  by_cases inside : i < width
  · rw [front_testBit bits inside, front_testBit bits (by omega)]
    congr 1
    omega
  · have beyond : 2 ^ width ≤ 2 ^ i := Nat.pow_le_pow_right (by decide) (Nat.le_of_not_lt inside)
    have beyondAll : 2 ^ (width + more) ≤ 2 ^ (more + i) :=
      Nat.pow_le_pow_right (by decide) (by omega)
    rw [Nat.testBit_eq_false_of_lt ((front_lt width bits).trans_le beyond),
      Nat.testBit_eq_false_of_lt ((front_lt (width + more) bits).trans_le beyondAll)]

end Fronts

section Streams

/-- What comes on a stream is a row of bits and zeros behind it. -/
def Comes (stream : Nat → Bool) (bits : List Bool) : Prop :=
  ∀ i, stream i = bits.getD i false

/-- Behind the first bits of a stream the others come. -/
theorem Comes.drop {stream : Nat → Bool} {row bits : List Bool}
    (comes : Comes stream (row ++ bits)) : Comes (fun i => stream (row.length + i)) bits := by
  intro i
  have there := comes (row.length + i)
  rw [List.getD_append_right _ _ _ _ (Nat.le_add_right _ _), Nat.add_sub_cancel_left] at there
  exact there

/-- Bits of zero at the end of a row are not seen. -/
theorem Comes.padded {stream : Nat → Bool} {bits : List Bool} (zeros : Nat) :
    Comes stream (bits ++ List.replicate zeros false) ↔ Comes stream bits := by
  have same : ∀ i, (bits ++ List.replicate zeros false).getD i false = bits.getD i false := by
    intro i
    by_cases inside : i < bits.length
    · rw [List.getD_append _ _ _ _ inside]
    · rw [List.getD_append_right _ _ _ _ (Nat.le_of_not_lt inside),
        List.getD_eq_default _ _ (Nat.le_of_not_lt inside)]
      by_cases back : i - bits.length < zeros
      · rw [List.getD_replicate _ back]
      · rw [List.getD_eq_default _ _ (by simpa using back)]
  simp only [Comes, same]

end Streams

end SmcPkg.BitRows
