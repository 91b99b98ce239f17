import SmcPkg.Lib.BitRows

/-!
# The bit output of the compression

`TianoCompress` writes numbers of a few bits. `PutBits` collects them in a byte that is
not yet full and puts each full byte into the destination, as long as that has room. It
counts the bytes without room too, so the caller learns how long the output is.
-/

namespace SmcPkg.TianoCompress

open BitRows

section Output

/-- The globals that the output goes through: the bytes from `DstBuffer` up to `mDst`, the
size of the destination, and the byte that is being filled. -/
structure Dst where
  bytes : List UInt8
  dstSize : Nat
  mCompSize : Nat
  mSubBitBuf : Nat
  mBitCount : Nat

/-- `*mDst++ = Data`, below `mDstUpperLimit` only. -/
def Dst.put (dst : Dst) (data : UInt8) : Dst :=
  if dst.bytes.length < dst.dstSize then { dst with bytes := dst.bytes ++ [data] } else dst

/-- `PutDword`. -/
def putDword (data : Nat) (dst : Dst) : Dst :=
  (((dst.put (UInt8.ofNat data)).put (UInt8.ofNat (data >>> 0x08))).put
    (UInt8.ofNat (data >>> 0x10))).put (UInt8.ofNat (data >>> 0x18))

/-- `InitPutBits`. -/
def initPutBits (dst : Dst) : Dst :=
  { dst with mBitCount := 8, mSubBitBuf := 0 }

/-- The loop of `PutBits`. A byte has at least one free bit, so a round leaves fewer bits
and as many rounds as there are bits are enough. -/
def putBitsLoop : Nat → Nat → Nat → Dst → Dst
  | 0, _, _, dst => dst
  | rounds + 1, number, value, dst =>
    if dst.mBitCount ≤ number then
      let temp := UInt8.ofNat (dst.mSubBitBuf ||| value >>> (number - dst.mBitCount))
      putBitsLoop rounds (number - dst.mBitCount) value
        { dst.put temp with
          mCompSize := (dst.mCompSize + 1) % 2 ^ 32
          mSubBitBuf := 0
          mBitCount := 8 }
    else
      { dst with
        mSubBitBuf := (dst.mSubBitBuf ||| value <<< (dst.mBitCount - number)) % 2 ^ 32
        mBitCount := dst.mBitCount - number }

/-- `PutBits`. -/
def putBits (number value : Nat) (dst : Dst) : Dst :=
  putBitsLoop (number + 1) number value dst

end Output

section Rows

/-- What has been put out behind a header: some full bytes, of which the destination holds
as many as fit, and the upper bits of the byte that is being filled. -/
structure PutOut (header bytes : List UInt8) (bits : List Bool) (dst : Dst) : Prop where
  written : dst.bytes = (header ++ bytes).take dst.dstSize
  counted : dst.mCompSize = bytes.length % 2 ^ 32
  free : 0 < dst.mBitCount
  inByte : dst.mBitCount ≤ 8
  clear : ∀ i < dst.mBitCount, dst.mSubBitBuf.testBit i = false
  row : bits = byteRow bytes ++ bitsOf (8 - dst.mBitCount) (dst.mSubBitBuf >>> dst.mBitCount)

@[simp] theorem put_dstSize (dst : Dst) (data : UInt8) : (dst.put data).dstSize = dst.dstSize := by
  rw [Dst.put]
  split <;> rfl

/-- A byte that has no room is dropped, as what the destination has no room for. -/
theorem put_bytes {dst : Dst} {written : List UInt8} (data : UInt8)
    (holds : dst.bytes = written.take dst.dstSize) :
    (dst.put data).bytes = (written ++ [data]).take dst.dstSize := by
  rw [Dst.put]
  split
  · rename_i room
    rw [holds, List.length_take] at room
    have inside : written.length < dst.dstSize := by omega
    rw [holds, List.take_of_length_le inside.le, List.take_of_length_le (by simpa using inside)]
  · rename_i full
    rw [holds, List.length_take] at full
    rw [holds, List.take_append_of_le_length (by omega)]

variable {header bytes : List UInt8} {bits : List Bool} {dst : Dst}

/-- At the start no bit has been put out. -/
theorem initPutBits_putOut (written : dst.bytes = header.take dst.dstSize)
    (counted : dst.mCompSize = 0) : PutOut header [] [] (initPutBits dst) where
  written := by rw [List.append_nil]; exact written
  counted := counted
  free := by simp [initPutBits]
  inByte := by simp [initPutBits]
  clear := by simp [initPutBits]
  row := by simp [initPutBits, byteRow, bitsOf]

/-- The byte that a round of the loop fills: the bits that were in it, and the upper ones
of the number. -/
theorem filled_byte {number value : Nat} (putOut : PutOut header bytes bits dst)
    (more : dst.mBitCount ≤ number) (fits : dst.mBitCount = 8 ∨ value < 2 ^ number) :
    bitsOf 8 (UInt8.ofNat (dst.mSubBitBuf ||| value >>> (number - dst.mBitCount))).toNat =
      bitsOf (8 - dst.mBitCount) (dst.mSubBitBuf >>> dst.mBitCount) ++
        bitsOf dst.mBitCount (value >>> (number - dst.mBitCount)) := by
  have width : 8 - dst.mBitCount + dst.mBitCount = 8 := Nat.sub_add_cancel putOut.inByte
  conv_lhs => rw [← width, bitsOf_add]
  have low : ∀ i < 8,
      (UInt8.ofNat (dst.mSubBitBuf ||| value >>> (number - dst.mBitCount))).toNat.testBit i =
        (dst.mSubBitBuf.testBit i || value.testBit (number - dst.mBitCount + i)) := by
    intro i inside
    rw [UInt8.toNat_ofNat', Nat.testBit_mod_two_pow, Nat.testBit_or, Nat.testBit_shiftRight]
    simp [inside]
  congr 1
  · refine bitsOf_congr fun i inside => ?_
    rw [Nat.testBit_shiftRight, low _ (by omega), Nat.testBit_shiftRight]
    rcases fits with whole | short
    · omega
    · have beyond : value.testBit (number - dst.mBitCount + (dst.mBitCount + i)) = false := by
        refine Nat.testBit_eq_false_of_lt (short.trans_le ?_)
        exact Nat.pow_le_pow_right (by decide) (by omega)
      rw [beyond, Bool.or_false]
  · refine bitsOf_congr fun i inside => ?_
    rw [low i (inside.trans_le putOut.inByte), putOut.clear i inside, Bool.false_or,
      Nat.testBit_shiftRight]

/-- The bits of the loop's number come behind those that are out. -/
theorem putBitsLoop_putOut {rounds number value : Nat} (enough : number < rounds)
    (fits : dst.mBitCount = 8 ∨ value < 2 ^ number) (putOut : PutOut header bytes bits dst) :
    ∃ more, PutOut header (bytes ++ more) (bits ++ bitsOf number value)
        (putBitsLoop rounds number value dst) ∧
      (putBitsLoop rounds number value dst).dstSize = dst.dstSize := by
  induction rounds generalizing number bytes bits dst with
  | zero => exact absurd enough (Nat.not_lt_zero number)
  | succ rounds inductionHypothesis =>
    rw [putBitsLoop]
    have inByte := putOut.inByte
    have free := putOut.free
    by_cases full : dst.mBitCount ≤ number
    · have filled := filled_byte putOut full fits
      rw [if_pos full]
      generalize UInt8.ofNat (dst.mSubBitBuf ||| value >>> (number - dst.mBitCount)) = temp
        at filled ⊢
      have next : PutOut header (bytes ++ [temp])
          (bits ++ bitsOf dst.mBitCount (value >>> (number - dst.mBitCount)))
          { dst.put temp with
            mCompSize := (dst.mCompSize + 1) % 2 ^ 32
            mSubBitBuf := 0
            mBitCount := 8 } := by
        refine ⟨?_, ?_, by simp, by simp, by simp, ?_⟩
        · rw [← List.append_assoc]
          simpa using put_bytes temp putOut.written
        · rw [putOut.counted, List.length_append, List.length_singleton, Nat.mod_add_mod]
        · rw [byteRow_snoc, filled, putOut.row]
          simp [bitsOf]
      have fewer : number - dst.mBitCount < rounds := by omega
      obtain ⟨more, out, size⟩ := inductionHypothesis fewer (Or.inl rfl) next
      have row : bitsOf number value = bitsOf dst.mBitCount
          (value >>> (number - dst.mBitCount)) ++ bitsOf (number - dst.mBitCount) value := by
        rw [← bitsOf_add, Nat.add_sub_cancel' full]
      refine ⟨temp :: more, ?_, size.trans (put_dstSize dst temp)⟩
      rw [row, ← List.append_assoc, List.append_cons bytes temp more]
      exact out
    · rw [if_neg full]
      have inside_clear : ∀ i < dst.mBitCount - number,
          ((dst.mSubBitBuf ||| value <<< (dst.mBitCount - number)) % 2 ^ 32).testBit i = false := by
        intro i inside
        rw [Nat.testBit_mod_two_pow, Nat.testBit_or, Nat.testBit_shiftLeft,
          putOut.clear i (by omega)]
        simp [Nat.not_le.mpr inside]
      refine ⟨[], ⟨?_, ?_, Nat.sub_pos_of_lt (Nat.lt_of_not_le full), (Nat.sub_le _ _).trans inByte,
        inside_clear, ?_⟩, rfl⟩
      · rw [List.append_nil]
        exact putOut.written
      · rw [List.append_nil]
        exact putOut.counted
      · have width : 8 - (dst.mBitCount - number) = 8 - dst.mBitCount + number := by omega
        have upper : ∀ i < 8 - (dst.mBitCount - number),
            (((dst.mSubBitBuf ||| value <<< (dst.mBitCount - number)) % 2 ^ 32) >>>
              (dst.mBitCount - number)).testBit i =
              (dst.mSubBitBuf.testBit (dst.mBitCount - number + i) || value.testBit i) := by
          intro i inside
          rw [Nat.testBit_shiftRight, Nat.testBit_mod_two_pow, Nat.testBit_or,
            Nat.testBit_shiftLeft, Nat.add_sub_cancel_left]
          have short : dst.mBitCount - number + i < 32 := by omega
          simp [short]
        rw [List.append_nil, width, bitsOf_add, putOut.row, List.append_assoc]
        congr 2
        · refine bitsOf_congr fun i inside => ?_
          rw [Nat.testBit_shiftRight _ (i := number), upper _ (by omega), Nat.testBit_shiftRight]
          rcases fits with whole | short
          · omega
          · have beyond : value.testBit (number + i) = false :=
              Nat.testBit_eq_false_of_lt
                (short.trans_le (Nat.pow_le_pow_right (by decide) (Nat.le_add_right number i)))
            have place : dst.mBitCount - number + (number + i) = dst.mBitCount + i := by omega
            rw [beyond, Bool.or_false, place]
        · refine bitsOf_congr fun i inside => ?_
          rw [upper i (by omega), putOut.clear _ (by omega), Bool.false_or]

/-- `PutBits` puts the bits of a number behind those that are out. -/
theorem putBits_putOut {number value : Nat} (short : value < 2 ^ number)
    (putOut : PutOut header bytes bits dst) :
    ∃ more, PutOut header (bytes ++ more) (bits ++ bitsOf number value)
        (putBits number value dst) ∧ (putBits number value dst).dstSize = dst.dstSize :=
  putBitsLoop_putOut (Nat.lt_succ_self number) (Or.inr short) putOut

/-- After seven bits of zero every bit that is out is in a full byte. -/
theorem putOut_flushed (putOut : PutOut header bytes (bits ++ bitsOf 7 0) dst) :
    ∃ zeros, byteRow bytes = bits ++ List.replicate zeros false := by
  have free := putOut.free
  have row := putOut.row
  have few : 8 - dst.mBitCount ≤ 7 := by omega
  refine ⟨7 - (8 - dst.mBitCount), ?_⟩
  have split : List.replicate 7 false = List.replicate (7 - (8 - dst.mBitCount)) false ++
      List.replicate (8 - dst.mBitCount) false := by
    rw [List.replicate_append_replicate, Nat.sub_add_cancel few]
  rw [bitsOf_zero, split, ← List.append_assoc] at row
  exact (List.append_inj_left' row (by simp)).symm

end Rows

section Steps

variable {step next : Dst → Dst} {row more : List Bool} {number value : Nat}

/-- A row of bits has been put out behind a header. -/
def Out (header : List UInt8) (bits : List Bool) (dst : Dst) : Prop :=
  ∃ bytes, PutOut header bytes bits dst

/-- A step of the output puts a row of bits out, whatever is out before. -/
def Puts (step : Dst → Dst) (row : List Bool) : Prop :=
  ∀ header bits dst, Out header bits dst →
    Out header (bits ++ row) (step dst) ∧ (step dst).dstSize = dst.dstSize

/-- Nothing done puts out nothing. -/
theorem puts_nothing : Puts id [] := by
  intro header bits dst out
  rw [List.append_nil]
  exact ⟨out, rfl⟩

/-- Steps one after the other put their rows one behind the other. -/
theorem Puts.andThen (first : Puts step row) (second : Puts next more) :
    Puts (fun dst => next (step dst)) (row ++ more) := by
  intro header bits dst out
  obtain ⟨between, size⟩ := first header bits dst out
  obtain ⟨later, same⟩ := second header _ _ between
  rw [← List.append_assoc]
  exact ⟨later, same.trans size⟩

/-- A number of the width is put out as its bits. -/
theorem puts_putBits (short : value < 2 ^ number) :
    Puts (putBits number value) (bitsOf number value) := by
  rintro header bits dst ⟨bytes, out⟩
  obtain ⟨more, later, size⟩ := putBits_putOut short out
  exact ⟨⟨_, later⟩, size⟩

/-- Items are put out in their order. -/
theorem puts_foldl {α : Type} {put : α → Dst → Dst} {rowOf : α → List Bool} (items : List α)
    (each : ∀ item ∈ items, Puts (put item) (rowOf item)) :
    Puts (fun dst => items.foldl (fun dst item => put item dst) dst) (items.flatMap rowOf) := by
  induction items with
  | nil => exact puts_nothing
  | cons item items inductionHypothesis =>
    rw [List.forall_mem_cons] at each
    rw [List.flatMap_cons]
    exact each.1.andThen (inductionHypothesis each.2)

/-- After the last bits of zero the destination holds everything, if it has room. -/
theorem Out.flushed {header : List UInt8} {bits : List Bool} {dst : Dst}
    (out : Out header (bits ++ bitsOf 7 0) dst)
    (room : header.length + (bits.length + 7) / 8 ≤ dst.dstSize) (small : dst.dstSize < 2 ^ 32) :
    ∃ bytes zeros, dst.bytes = header ++ bytes ∧ dst.mCompSize = bytes.length ∧
      bytes.length = (bits.length + 7) / 8 ∧
      byteRow bytes = bits ++ List.replicate zeros false := by
  obtain ⟨bytes, putOut⟩ := out
  obtain ⟨zeros, row⟩ := putOut_flushed putOut
  have lengths := congrArg List.length putOut.row
  have free := putOut.free
  have inByte := putOut.inByte
  rw [List.length_append, List.length_append, bitsOf_length, bitsOf_length,
    byteRow_length] at lengths
  have size : bytes.length = (bits.length + 7) / 8 := by omega
  refine ⟨bytes, zeros, ?_, ?_, size, row⟩
  · rw [putOut.written, List.take_of_length_le]
    rw [List.length_append, size]
    exact room
  · rw [putOut.counted, Nat.mod_eq_of_lt (by omega)]

end Steps

end SmcPkg.TianoCompress
