import Mathlib

/-!
# Bytes in memory

A buffer is read as the memory from its first byte on, with no end of its own. What
is written to the front of a buffer leaves the bytes behind it as they were, so a
buffer that is used twice keeps the tail of its first use.
-/

namespace SmcPkg.Bytes

/-- The bytes from an address on. -/
abbrev Memory := Nat → UInt8

section Copy

variable {count start i : Nat} {data buffer : Memory}

/-- Copy bytes to the front of a buffer. -/
def overlay (count : Nat) (data buffer : Memory) : Memory :=
  fun i => if i < count then data i else buffer i

/-- What was laid over the front is read there. -/
theorem overlay_inside (inside : i < count) : overlay count data buffer i = data i :=
  if_pos inside

/-- Copy bytes to a place in a buffer. -/
def overlayAt (start count : Nat) (data buffer : Memory) : Memory :=
  fun i => if start ≤ i ∧ i < start + count then data (i - start) else buffer i

/-- What was laid over a place is read there. -/
theorem overlayAt_inside (above : start ≤ i) (below : i < start + count) :
    overlayAt start count data buffer i = data (i - start) :=
  if_pos ⟨above, below⟩

/-- The bytes around it stay. -/
theorem overlayAt_outside (outside : i < start ∨ start + count ≤ i) :
    overlayAt start count data buffer i = buffer i := by
  refine if_neg ?_
  rintro ⟨above, below⟩
  omega

/-- The bytes from a place in a buffer on. -/
def shifted (start : Nat) (buffer : Memory) : Memory := fun i => buffer (start + i)

/-- Two copies side by side are one. -/
theorem overlayAt_joined (start first rest : Nat) (data buffer : Memory) :
    overlayAt (start + first) rest (shifted first data) (overlayAt start first data buffer) =
      overlayAt start (first + rest) data buffer := by
  funext i
  by_cases second : start + first ≤ i ∧ i < start + first + rest
  · rw [overlayAt_inside second.1 second.2, overlayAt_inside (by omega) (by omega), shifted]
    congr 1
    omega
  · rw [overlayAt_outside (by omega)]
    by_cases inside : start ≤ i ∧ i < start + first
    · rw [overlayAt_inside inside.1 inside.2, overlayAt_inside inside.1 (by omega)]
    · rw [overlayAt_outside (by omega), overlayAt_outside (by omega)]

/-- `SetMem` on a part of a buffer. -/
def setMem (start count : Nat) (value : UInt8) (buffer : Memory) : Memory :=
  overlayAt start count (fun _ => value) buffer

end Copy

section Read

/-- The 8-bit sum of bytes. -/
def byteSum (memory : Memory) (start : Nat) : Nat → UInt8
  | 0 => 0
  | count + 1 => byteSum memory start count + memory (start + count)

/-- A sum depends on its bytes only, not on where they are. -/
theorem byteSum_moved {memory other : Memory} {start place count : Nat}
    (same : ∀ i < count, memory (start + i) = other (place + i)) :
    byteSum memory start count = byteSum other place count := by
  induction count with
  | zero => rfl
  | succ count inductionHypothesis =>
    rw [byteSum, byteSum, same count (by omega)]
    rw [inductionHypothesis (fun i below => same i (by omega))]

/-- A sum depends on its bytes only. -/
theorem byteSum_congr {memory other : Memory} {start count : Nat}
    (same : ∀ i < count, memory (start + i) = other (start + i)) :
    byteSum memory start count = byteSum other start count :=
  byteSum_moved same

/-- A sum over two parts that lie side by side. -/
theorem byteSum_append (memory : Memory) (start count more : Nat) :
    byteSum memory start (count + more) =
      byteSum memory start count + byteSum memory (start + count) more := by
  induction more with
  | zero => simp [byteSum]
  | succ more inductionHypothesis =>
    rw [← Nat.add_assoc, byteSum, byteSum, inductionHypothesis, UInt8.add_assoc, Nat.add_assoc]

/-- A sum of equal bytes. -/
theorem byteSum_const {memory : Memory} {start count : Nat} {value : UInt8}
    (same : ∀ i < count, memory (start + i) = value) :
    byteSum memory start count = UInt8.ofNat count * value := by
  induction count with
  | zero => simp [byteSum]
  | succ count inductionHypothesis =>
    rw [byteSum, inductionHypothesis (fun i below => same i (by omega)), same count (by omega)]
    rw [UInt8.ofNat_add, UInt8.add_mul]
    simp

/-- `MemCmp` with a fixed text: the memory starts with it. -/
def startsWith (memory : Memory) : List UInt8 → Bool
  | [] => true
  | c :: text => memory 0 = c && startsWith (shifted 1 memory) text

/-- The text a memory starts with is in its first bytes. -/
theorem startsWith_congr {text : List UInt8} {memory other : Memory}
    (same : ∀ i < text.length, memory i = other i) :
    startsWith memory text = startsWith other text := by
  induction text generalizing memory other with
  | nil => rfl
  | cons c text inductionHypothesis =>
    have rest : ∀ i < text.length, shifted 1 memory i = shifted 1 other i := by
      intro i below
      apply same
      rw [List.length_cons]
      omega
    rw [startsWith, startsWith, same 0 (by simp), inductionHypothesis rest]

/-- A little-endian 16-bit word. -/
def word16 (memory : Memory) (start : Nat) : UInt16 :=
  (memory start).toUInt16 + (memory (start + 1)).toUInt16 * 256

/-- A little-endian 32-bit word. -/
def word32 (memory : Memory) (start : Nat) : UInt32 :=
  (memory start).toUInt32 + (memory (start + 1)).toUInt32 * 0x100 +
    (memory (start + 2)).toUInt32 * 0x10000 + (memory (start + 3)).toUInt32 * 0x1000000

/-- A little-endian 64-bit word. -/
def word64 (memory : Memory) (start : Nat) : UInt64 :=
  (word32 memory start).toUInt64 + (word32 memory (start + 4)).toUInt64 * 0x100000000

/-- Bytes of a list in memory. -/
def memoryOf (bytes : List UInt8) (tail : Memory) : Memory :=
  fun i => bytes[i]?.getD (tail (i - bytes.length))

/-- The bytes of a buffer up to a size. -/
def bytesOf (memory : Memory) (size : Nat) : List UInt8 := (List.range size).map memory

end Read

section Stored

variable {memory : Memory} {start : Nat}

/-- Bytes lie in memory from a place on. -/
def Stored (memory : Memory) (start : Nat) (bytes : List UInt8) : Prop :=
  ∀ i, (inside : i < bytes.length) → memory (start + i) = bytes[i]

/-- Two rows of bytes are stored one behind the other. -/
theorem stored_append {bytes more : List UInt8} :
    Stored memory start (bytes ++ more) ↔
      Stored memory start bytes ∧ Stored memory (start + bytes.length) more := by
  constructor
  · intro stored
    constructor
    · intro i inside
      rw [stored i (by rw [List.length_append]; omega), List.getElem_append_left inside]
    · intro i inside
      rw [Nat.add_assoc, stored (bytes.length + i) (by rw [List.length_append]; omega),
        List.getElem_append_right (by omega)]
      simp
  · rintro ⟨front, back⟩ i inside
    by_cases early : i < bytes.length
    · rw [front i early, List.getElem_append_left early]
    · rw [List.length_append] at inside
      have place : start + i = start + bytes.length + (i - bytes.length) := by omega
      rw [place, back (i - bytes.length) (by omega), List.getElem_append_right (by omega)]

/-- The first byte is stored in front of the others. -/
theorem stored_cons {byte : UInt8} {bytes : List UInt8} :
    Stored memory start (byte :: bytes) ↔
      memory start = byte ∧ Stored memory (start + 1) bytes := by
  rw [← List.singleton_append, stored_append]
  apply and_congr_left
  intro _
  constructor
  · intro stored
    exact stored 0 (by simp)
  · intro same i inside
    obtain rfl : i = 0 := by simpa using inside
    exact same

/-- What is stored is stored up to any place. -/
theorem Stored.take {bytes : List UInt8} (stored : Stored memory start bytes) (count : Nat) :
    Stored memory start (bytes.take count) := by
  intro i inside
  rw [List.length_take] at inside
  rw [List.getElem_take]
  exact stored i (by omega)

/-- Stored bytes are read back. -/
theorem bytesOf_stored {bytes : List UInt8} (stored : Stored memory start bytes) :
    bytesOf (shifted start memory) bytes.length = bytes := by
  apply List.ext_getElem
  · simp [bytesOf]
  · intro i below inside
    simp only [bytesOf, List.getElem_map, List.getElem_range, shifted]
    exact stored i inside

/-- Bytes at a place are determined by their number. -/
theorem stored_unique {bytes more : List UInt8} (first : Stored memory start bytes)
    (second : Stored memory start more) (length : bytes.length = more.length) : bytes = more := by
  apply List.ext_getElem length
  intro i below also
  rw [← first i below, second i also]

/-- The bytes of a little-endian 16-bit word. -/
def le16 (value : Nat) : List UInt8 := [UInt8.ofNat value, UInt8.ofNat (value / 0x100)]

/-- The bytes of a little-endian 32-bit word. -/
def le32 (value : Nat) : List UInt8 :=
  [UInt8.ofNat value, UInt8.ofNat (value / 0x100), UInt8.ofNat (value / 0x10000),
    UInt8.ofNat (value / 0x1000000)]

/-- A 16-bit word that is stored is read back. -/
theorem word16_stored {value : Nat} (stored : Stored memory start (le16 value)) :
    word16 memory start = UInt16.ofNat value := by
  obtain ⟨low, rest⟩ := stored_cons.mp stored
  obtain ⟨high, -⟩ := stored_cons.mp rest
  rw [word16, low, high]
  apply UInt16.toNat_inj.mp
  simp
  omega

/-- A 32-bit word that is stored is read back. -/
theorem word32_stored {value : Nat} (stored : Stored memory start (le32 value)) :
    word32 memory start = UInt32.ofNat value := by
  obtain ⟨first, rest⟩ := stored_cons.mp stored
  obtain ⟨second, rest⟩ := stored_cons.mp rest
  obtain ⟨third, rest⟩ := stored_cons.mp rest
  obtain ⟨fourth, -⟩ := stored_cons.mp rest
  rw [word32, first, second, third, fourth]
  apply UInt32.toNat_inj.mp
  simp
  omega

/-- A 32-bit word, by its four bytes. -/
theorem word32_toNat (memory : Memory) (start : Nat) :
    (word32 memory start).toNat = (memory start).toNat + (memory (start + 1)).toNat * 0x100 +
      (memory (start + 2)).toNat * 0x10000 + (memory (start + 3)).toNat * 0x1000000 := by
  have first := UInt8.toNat_lt (memory start)
  have second := UInt8.toNat_lt (memory (start + 1))
  have third := UInt8.toNat_lt (memory (start + 2))
  have fourth := UInt8.toNat_lt (memory (start + 3))
  simp only [word32, UInt32.toNat_add, UInt32.toNat_mul, UInt8.toNat_toUInt32,
    UInt32.reduceToNat]
  omega

/-- The bytes of a word are those it was read from. -/
theorem le32_word32 (memory : Memory) (start : Nat) :
    le32 (word32 memory start).toNat =
      [memory start, memory (start + 1), memory (start + 2), memory (start + 3)] := by
  have first := UInt8.toNat_lt (memory start)
  have second := UInt8.toNat_lt (memory (start + 1))
  have third := UInt8.toNat_lt (memory (start + 2))
  have fourth := UInt8.toNat_lt (memory (start + 3))
  simp only [le32, word32_toNat, List.cons.injEq, and_true, ← UInt8.toNat_inj,
    UInt8.toNat_ofNat']
  omega

/-- The lowest byte of a word. -/
theorem word32_low (memory : Memory) (start : Nat) :
    word32 memory start &&& 0xff = (memory start).toUInt32 := by
  have first := UInt8.toNat_lt (memory start)
  rw [← UInt32.toNat_inj, UInt32.toNat_and, word32_toNat, UInt8.toNat_toUInt32]
  refine (Nat.and_two_pow_sub_one_eq_mod _ 8).trans ?_
  omega

/-- The second byte of a word. -/
theorem word32_second (memory : Memory) (start : Nat) :
    (word32 memory start >>> (8 : UInt32)) &&& 0xff = (memory (start + 1)).toUInt32 := by
  have first := UInt8.toNat_lt (memory start)
  have second := UInt8.toNat_lt (memory (start + 1))
  rw [← UInt32.toNat_inj, UInt32.toNat_and, UInt32.toNat_shiftRight, word32_toNat,
    UInt8.toNat_toUInt32]
  refine (Nat.and_two_pow_sub_one_eq_mod _ 8).trans ?_
  have eight : (8 : UInt32).toNat % 32 = 8 := rfl
  rw [eight, Nat.shiftRight_eq_div_pow]
  omega

/-- The test of the second byte where it stands. -/
theorem word32_second_zero (memory : Memory) (start : Nat) :
    word32 memory start &&& 0xff00 = 0 ↔ memory (start + 1) = 0 := by
  have first := UInt8.toNat_lt (memory start)
  have second := UInt8.toNat_lt (memory (start + 1))
  have above := @Nat.and_div_two_pow (word32 memory start).toNat 0xff00 8
  have below := @Nat.and_mod_two_pow (word32 memory start).toNat 0xff00 8
  have masked := Nat.and_two_pow_sub_one_eq_mod ((word32 memory start).toNat / 2 ^ 8) 8
  have high : 0xff00 / 2 ^ 8 = 2 ^ 8 - 1 := rfl
  have low : 0xff00 % 2 ^ 8 = 0 := rfl
  rw [high, masked] at above
  rw [low, Nat.and_zero] at below
  have value := word32_toNat memory start
  rw [← UInt32.toNat_inj, ← UInt8.toNat_inj, UInt32.toNat_and]
  have mask : (0xff00 : UInt32).toNat = 0xff00 := rfl
  have zero : (0 : UInt32).toNat = 0 := rfl
  have byteZero : (0 : UInt8).toNat = 0 := rfl
  rw [mask, zero, byteZero]
  omega

/-- A copy of a list is stored where it was copied to. -/
theorem stored_overlayAt {bytes : List UInt8} {count : Nat} {tail buffer : Memory}
    (size : count = bytes.length) :
    Stored (overlayAt start count (memoryOf bytes tail) buffer) start bytes := by
  intro i inside
  rw [overlayAt_inside (by omega) (by omega), Nat.add_sub_cancel_left, memoryOf,
    List.getElem?_eq_getElem inside]
  rfl

/-- A copy elsewhere leaves stored bytes alone. -/
theorem Stored.overlayAt {bytes : List UInt8} {place count : Nat} {data : Memory}
    (stored : Stored memory start bytes)
    (apart : start + bytes.length ≤ place ∨ place + count ≤ start) :
    Stored (Bytes.overlayAt place count data memory) start bytes := by
  intro i inside
  rw [overlayAt_outside]
  · exact stored i inside
  · rcases apart with before | behind
    · exact Or.inl (by omega)
    · exact Or.inr (by omega)

end Stored

end SmcPkg.Bytes
