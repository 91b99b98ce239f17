import SmcPkg.Lib.BitRows
import SmcPkg.Lib.Bytes

/-!
# The bit input of the decompression

`FillBuf` keeps 32 bits of the source in a buffer, the next one on top, and loads the source
byte by byte. Behind the source it goes on with bytes of zero. It ors a whole byte into the
buffer where only some bits of it are new; the others are there already.

Nothing is assumed of the bytes of the source, nor of those behind it, which are never read.
-/

namespace SmcPkg.UefiDecompress

open BitRows Bytes

section Input

/-- The fields of `SCRATCH_DATA` that the source is read through. -/
structure Source where
  mSrcBase : Memory
  mInBuf : Nat
  mBitCount : Nat
  mBitBuf : Nat
  mSubBitBuf : Nat
  mCompSize : Nat

/-- The next byte of the source goes to `mSubBitBuf`. -/
def Source.load (source : Source) : Source :=
  if 0 < source.mCompSize then
    { source with
      mCompSize := source.mCompSize - 1
      mSubBitBuf := (source.mSrcBase source.mInBuf).toNat
      mInBuf := source.mInBuf + 1
      mBitCount := 8 }
  else { source with mSubBitBuf := 0, mBitCount := 8 }

/-- The loop of `FillBuf` and what comes behind it. The first round may find no bit left
in the byte, each later one takes eight. -/
def fillBufLoop : Nat → Nat → Source → Source
  | 0, _, source => source
  | rounds + 1, numOfBits, source =>
    if source.mBitCount < numOfBits then
      let more := numOfBits - source.mBitCount
      fillBufLoop rounds more
        { source with
          mBitBuf := source.mBitBuf ||| (source.mSubBitBuf <<< more) % 2 ^ 32 }.load
    else
      { source with
        mBitCount := source.mBitCount - numOfBits
        mBitBuf := source.mBitBuf ||| source.mSubBitBuf >>> (source.mBitCount - numOfBits) }

/-- `FillBuf`. Where it shifts by the whole width of the buffer, the buffer is zero. -/
def fillBuf (numOfBits : Nat) (source : Source) : Source :=
  fillBufLoop (numOfBits + 2) numOfBits
    { source with mBitBuf := (source.mBitBuf <<< numOfBits) % 2 ^ 32 }

/-- The upper bits of `mBitBuf`. -/
def Source.peek (numOfBits : Nat) (source : Source) : Nat :=
  source.mBitBuf >>> (32 - numOfBits)

/-- `GetBits`. -/
def getBits (numOfBits : Nat) (source : Source) : Nat × Source :=
  (source.peek numOfBits, fillBuf numOfBits source)

end Input

section Places

/-- The bytes that go through the buffer: five of zero that stand for the buffer and the
byte before the first one is loaded, the source, and zeros. -/
def sourceByte (base : Memory) (size i : Nat) : UInt8 :=
  if 5 ≤ i ∧ i < 5 + size then base (i - 5) else 0

/-- Their bits. -/
def sourceBit (base : Memory) (size i : Nat) : Bool :=
  (sourceByte base size (i / 8)).toNat.testBit (7 - i % 8)

variable {base : Memory} {size place remaining : Nat} {source : Source}

/-- A fill is on its way to a place: of the bits before the place the buffer holds all but
some that remain, and these come from the byte and from the source. -/
structure Filling (base : Memory) (size place remaining : Nat) (source : Source) : Prop where
  src : source.mSrcBase = base
  narrow : source.mBitBuf < 2 ^ 32
  buffered : ∀ j < 32, source.mBitBuf.testBit j =
    (decide (remaining ≤ j) && sourceBit base size (place - 1 - j))
  inByte : source.mBitCount ≤ 8
  loaded : ∃ read, 8 * (5 + read) + remaining = place + source.mBitCount ∧
    source.mSubBitBuf = (sourceByte base size (4 + read)).toNat ∧
    source.mCompSize = size - read ∧ (0 < source.mCompSize → source.mInBuf = read)

/-- The buffer holds the 32 bits before a place. -/
abbrev ReadTo (base : Memory) (size place : Nat) (source : Source) : Prop :=
  Filling base size place 0 source

/-- A bit of the byte by its place among all bits. -/
theorem sourceByte_testBit (read offset : Nat) :
    (sourceByte base size (4 + read)).toNat.testBit offset =
      (decide (offset < 8) && sourceBit base size (8 * (5 + read) - 1 - offset)) := by
  by_cases inside : offset < 8
  · have byte : (8 * (5 + read) - 1 - offset) / 8 = 4 + read := by omega
    have bit : 7 - (8 * (5 + read) - 1 - offset) % 8 = offset := by omega
    rw [sourceBit, byte, bit]
    simp [inside]
  · have short : (sourceByte base size (4 + read)).toNat < 2 ^ offset :=
      (UInt8.toNat_lt _).trans_le
        (Nat.pow_le_pow_right (by decide) (Nat.le_of_not_lt inside) : 2 ^ 8 ≤ 2 ^ offset)
    rw [Nat.testBit_eq_false_of_lt short]
    simp [inside]

/-- The next byte is loaded. -/
theorem Filling.load {read : Nat} (src : source.mSrcBase = base)
    (narrow : source.mBitBuf < 2 ^ 32)
    (buffered : ∀ j < 32, source.mBitBuf.testBit j =
      (decide (remaining ≤ j) && sourceBit base size (place - 1 - j)))
    (whole : 8 * (5 + read) + remaining = place) (left : source.mCompSize = size - read)
    (next : 0 < source.mCompSize → source.mInBuf = read) :
    Filling base size place remaining source.load := by
  rw [Source.load]
  split
  · rename_i more
    refine ⟨src, narrow, buffered, le_rfl, read + 1, by simp only; omega, ?_, ?_, ?_⟩
    · have inside : 5 ≤ 4 + (read + 1) ∧ 4 + (read + 1) < 5 + size := by omega
      have byte : 4 + (read + 1) - 5 = read := by omega
      rw [sourceByte, if_pos inside, byte, src, next more]
    · simp only
      omega
    · intro _
      simp only
      rw [next more]
  · rename_i none
    refine ⟨src, narrow, buffered, le_rfl, read + 1, by simp only; omega, ?_, ?_, ?_⟩
    · have outside : ¬(5 ≤ 4 + (read + 1) ∧ 4 + (read + 1) < 5 + size) := by omega
      rw [sourceByte, if_neg outside]
      rfl
    · simp only
      omega
    · intro more
      exact absurd more none

/-- The loop fills the buffer up. -/
theorem fillBufLoop_readTo {rounds : Nat} (enough : remaining < rounds)
    (again : source.mBitCount = 0 → remaining + 1 < rounds)
    (filling : Filling base size place remaining source) :
    ReadTo base size place (fillBufLoop rounds remaining source) := by
  induction rounds generalizing remaining source with
  | zero => exact absurd enough (Nat.not_lt_zero remaining)
  | succ rounds inductionHypothesis =>
    obtain ⟨src, narrow, buffered, inByte, read, whole, byte, left, next⟩ := filling
    rw [fillBufLoop]
    by_cases more : source.mBitCount < remaining
    · rw [if_pos more]
      have loaded : Filling base size place (remaining - source.mBitCount)
          { source with
            mBitBuf := source.mBitBuf |||
              (source.mSubBitBuf <<< (remaining - source.mBitCount)) % 2 ^ 32 }.load := by
        have before : 8 * (5 + read) + (remaining - source.mBitCount) = place := by omega
        refine Filling.load src ?_ ?_ before left next
        · exact Nat.or_lt_two_pow narrow (Nat.mod_lt _ (by decide))
        · intro j inside
          rw [Nat.testBit_or, Nat.testBit_mod_two_pow, Nat.testBit_shiftLeft, buffered j inside,
            byte, sourceByte_testBit]
          by_cases covered : remaining - source.mBitCount ≤ j
          · by_cases new : j - (remaining - source.mBitCount) < 8
            · have same : 8 * (5 + read) - 1 - (j - (remaining - source.mBitCount)) =
                  place - 1 - j := by omega
              rw [same]
              simp [covered, new, inside]
            · have old : remaining ≤ j := by omega
              simp [covered, new, old]
          · have old : ¬remaining ≤ j := by omega
            simp [covered, old]
      have count : (Source.load { source with
          mBitBuf := source.mBitBuf |||
            (source.mSubBitBuf <<< (remaining - source.mBitCount)) % 2 ^ 32 }).mBitCount = 8 := by
        rw [Source.load]
        split <;> rfl
      refine inductionHypothesis (by omega) ?_ loaded
      intro none
      rw [count] at none
      exact absurd none (by decide)
    · rw [if_neg more]
      have byteShort : source.mSubBitBuf < 2 ^ 8 := byte ▸ UInt8.toNat_lt _
      have shifted : source.mSubBitBuf >>> (source.mBitCount - remaining) < 2 ^ 32 :=
        (Nat.shiftRight_le _ _).trans_lt (byteShort.trans (by decide))
      refine ⟨src, Nat.or_lt_two_pow narrow shifted, ?_, (Nat.sub_le _ _).trans inByte, read,
        by simp only; omega, byte, left, next⟩
      intro j inside
      rw [Nat.testBit_or, Nat.testBit_shiftRight, buffered j inside, byte, sourceByte_testBit]
      by_cases new : source.mBitCount - remaining + j < 8
      · have same : 8 * (5 + read) - 1 - (source.mBitCount - remaining + j) = place - 1 - j := by
          omega
        rw [same]
        simp [new]
      · have old : remaining ≤ j := by omega
        simp [new, old]

/-- `FillBuf` reads on by a number of bits. -/
theorem fillBuf_readTo {numOfBits : Nat} (read : ReadTo base size place source)
    (inside : 32 ≤ place) :
    ReadTo base size (place + numOfBits) (fillBuf numOfBits source) := by
  refine fillBufLoop_readTo (by omega) (fun _ => by omega) ?_
  obtain ⟨src, narrow, buffered, inByte, loaded, whole, rest⟩ := read
  refine ⟨src, Nat.mod_lt _ (by decide), ?_, inByte, loaded, by simp only; omega, rest⟩
  intro j within
  rw [Nat.testBit_mod_two_pow, Nat.testBit_shiftLeft]
  by_cases old : numOfBits ≤ j
  · rw [buffered _ (by omega)]
    have same : place - 1 - (j - numOfBits) = place + numOfBits - 1 - j := by omega
    rw [same]
    simp [old, within]
  · simp [old]

end Places

section Ahead

/-- The bits that a reader has ahead are a row and zeros behind it. -/
def Ahead (bits : List Bool) (source : Source) : Prop :=
  ∃ base size place, 32 ≤ place ∧ ReadTo base size place source ∧
    Comes (fun i => sourceBit base size (place - 32 + i)) bits

variable {source : Source} {bits rest : List Bool}

/-- The upper bits of the buffer are the first bits ahead. -/
theorem Ahead.peek (ahead : Ahead bits source) {numOfBits : Nat} (narrow : numOfBits ≤ 32) :
    source.peek numOfBits = front numOfBits bits := by
  obtain ⟨base, size, place, inside, read, comes⟩ := ahead
  refine Nat.eq_of_testBit_eq fun i => ?_
  rw [Source.peek, Nat.testBit_shiftRight]
  by_cases within : i < numOfBits
  · rw [front_testBit bits within, read.buffered _ (by omega), ← comes]
    have same : place - 1 - (32 - numOfBits + i) = place - 32 + (numOfBits - 1 - i) := by omega
    rw [same]
    simp
  · have beyond : 2 ^ 32 ≤ 2 ^ (32 - numOfBits + i) := Nat.pow_le_pow_right (by decide) (by omega)
    have beyondFront : 2 ^ numOfBits ≤ 2 ^ i := Nat.pow_le_pow_right (by decide) (by omega)
    rw [Nat.testBit_eq_false_of_lt (read.narrow.trans_le beyond),
      Nat.testBit_eq_false_of_lt ((front_lt numOfBits bits).trans_le beyondFront)]

/-- A bit of the buffer is one of the bits ahead. -/
theorem Ahead.bit (ahead : Ahead bits source) {i : Nat} (inside : i < 32) :
    source.mBitBuf.testBit (31 - i) = bits.getD i false := by
  obtain ⟨base, size, place, within, read, comes⟩ := ahead
  rw [read.buffered _ (by omega), ← comes]
  have same : place - 1 - (31 - i) = place - 32 + i := by omega
  rw [same]
  simp

/-- `FillBuf` passes the first bits ahead. -/
theorem Ahead.fillBuf {row : List Bool} (ahead : Ahead (row ++ rest) source) :
    Ahead rest (fillBuf row.length source) := by
  obtain ⟨base, size, place, inside, read, comes⟩ := ahead
  refine ⟨base, size, place + row.length, by omega, fillBuf_readTo read inside, ?_⟩
  have dropped := comes.drop
  intro i
  have same : place + row.length - 32 + i = place - 32 + (row.length + i) := by omega
  simpa only [same] using dropped i

/-- `GetBits` reads the number that is ahead. -/
theorem Ahead.getBits {numOfBits value : Nat} (short : value < 2 ^ numOfBits)
    (narrow : numOfBits ≤ 32) (ahead : Ahead (bitsOf numOfBits value ++ rest) source) :
    (getBits numOfBits source).1 = value ∧ Ahead rest (getBits numOfBits source).2 := by
  refine ⟨?_, ?_⟩
  · rw [UefiDecompress.getBits, ahead.peek narrow, front_number short]
  · have passed := ahead.fillBuf
    rwa [bitsOf_length] at passed

/-- Zeros at the end of the row make no difference. -/
theorem Ahead.padded (zeros : Nat) :
    Ahead (bits ++ List.replicate zeros false) source ↔ Ahead bits source := by
  simp only [Ahead, Comes.padded]

end Ahead

section Start

/-- The source before the first fill. -/
def initialSource (base : Memory) (size : Nat) : Source where
  mSrcBase := base
  mInBuf := 0
  mBitCount := 0
  mBitBuf := 0
  mSubBitBuf := 0
  mCompSize := size

/-- After the first fill all bits of the source are ahead. -/
theorem ahead_start {base : Memory} {bytes : List UInt8}
    (stored : Stored base 0 bytes) :
    Ahead (byteRow bytes) (fillBuf 32 (initialSource base bytes.length)) := by
  have start : ReadTo base bytes.length 40 (initialSource base bytes.length) := by
    refine ⟨rfl, Nat.two_pow_pos 32, ?_, Nat.zero_le 8, 0, rfl, ?_, rfl, fun _ => rfl⟩
    · intro j inside
      have outside : ¬(5 ≤ (40 - 1 - j) / 8 ∧ (40 - 1 - j) / 8 < 5 + bytes.length) := by omega
      rw [sourceBit, sourceByte, if_neg outside]
      simp [initialSource]
    · rw [sourceByte, if_neg (by omega)]
      rfl
  refine ⟨base, bytes.length, 40 + 32, by decide, fillBuf_readTo start (by decide), ?_⟩
  intro i
  have place : (40 + 32 - 32 + i) / 8 = 5 + i / 8 := by omega
  have bit : (40 + 32 - 32 + i) % 8 = i % 8 := by omega
  change sourceBit base bytes.length (40 + 32 - 32 + i) = _
  rw [byteRow_getD, sourceBit, place, bit, sourceByte]
  by_cases inside : i / 8 < bytes.length
  · have there := stored _ inside
    rw [Nat.zero_add] at there
    rw [if_pos (by omega), Nat.add_sub_cancel_left, there, List.getD_eq_getElem _ _ inside]
  · rw [if_neg (by omega), List.getD_eq_default _ _ (Nat.le_of_not_lt inside)]

end Start

end SmcPkg.UefiDecompress
