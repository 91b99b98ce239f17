import SmcPkg.Compress.Decode
import SmcPkg.Compress.LookupLaw
import SmcPkg.Compress.MakeCodeLaw
import SmcPkg.Compress.SendBlock

/-!
# The lengths of a set

`WritePTLen` writes the lengths of the extra set or the position set, and `ReadPTLen` reads
them and makes the table of their codes. A length of seven or more bits is a row of ones
with a zero behind it; in the extra set a number of two bits tells how many zeros follow
the third length. A set with one symbol is written as the symbol.
-/

namespace SmcPkg.UefiDecompress

open BitRows Cells PrefixCode TianoCompress

section Lengths

variable {source : Source} {rest : List Bool} {l : Nat}

/-- The bits of a length. -/
def rowLength (l : Nat) : List Bool :=
  if l ≤ 6 then bitsOf 3 l else bitsOf (l - 3) ((1 <<< (l - 3)) - 2)

/-- Ones with a zero behind them, as a number. -/
theorem bitsOf_ones (ones : Nat) :
    bitsOf (ones + 1) ((1 <<< (ones + 1)) - 2) = List.replicate ones true ++ [false] := by
  have value : (1 <<< (ones + 1)) - 2 = 2 * (2 ^ ones - 1) := by
    rw [Nat.one_shiftLeft, Nat.pow_succ]
    omega
  have half : (2 * (2 ^ ones - 1)) >>> 1 = 2 ^ ones - 1 := by
    rw [Nat.shiftRight_eq_div_pow]
    omega
  have upper : bitsOf ones (2 ^ ones - 1) = List.replicate ones true := by
    refine List.eq_replicate_iff.mpr ⟨bitsOf_length _ _, fun bit member => ?_⟩
    obtain ⟨i, inside, there⟩ := List.mem_iff_getElem.mp member
    rw [bitsOf_length] at inside
    rw [← there, ← List.getD_eq_getElem _ false, bitsOf_getD, Nat.testBit_two_pow_sub_one]
    simp only [inside, decide_true, Bool.true_and, decide_eq_true_eq]
    omega
  rw [value, bitsOf_add, half, upper, bitsOf, bitsOf]
  simp

/-- A length is put out as its row of bits. -/
theorem puts_putLength : Puts (putLength l) (rowLength l) := by
  have step : putLength l = if l ≤ 6 then putBits 3 l
      else putBits (l - 3) ((1 <<< (l - 3)) - 2) := by
    funext dst
    rw [putLength]
    split <;> rfl
  rw [step, rowLength]
  split
  · exact puts_putBits (by omega)
  · refine puts_putBits ?_
    have positive := Nat.two_pow_pos (l - 3)
    rw [Nat.one_shiftLeft]
    omega

/-- The ones that are ahead are counted up to the first zero. -/
theorem onesBelow_count {bits : List Bool} (ahead : Ahead bits source) {bit ones : Nat}
    (inside : bit ≤ 32) (fewer : ones < bit)
    (row : ∀ i < ones, bits.getD (32 - bit + i) false = true)
    (zero : bits.getD (32 - bit + ones) false = false) : onesBelow source.mBitBuf bit = ones := by
  induction ones generalizing bit with
  | zero =>
    obtain ⟨bit, rfl⟩ := Nat.exists_eq_succ_of_ne_zero fewer.ne'
    have place : bit = 31 - (32 - (bit + 1)) := by omega
    have read : source.mBitBuf.testBit bit = false := by
      rw [place, ahead.bit (by omega)]
      exact zero
    rw [onesBelow, read]
    rfl
  | succ ones inductionHypothesis =>
    obtain ⟨bit, rfl⟩ := Nat.exists_eq_succ_of_ne_zero (Nat.ne_of_gt (Nat.zero_lt_of_lt fewer))
    have place : bit = 31 - (32 - (bit + 1)) := by omega
    have read : source.mBitBuf.testBit bit = true := by
      rw [place, ahead.bit (by omega)]
      exact row 0 (Nat.succ_pos ones)
    have next : 32 - bit = 32 - (bit + 1) + 1 := by omega
    have later : onesBelow source.mBitBuf bit = ones := by
      refine inductionHypothesis (by omega) (by omega) (fun i below => ?_) ?_
      · have shifted := row (i + 1) (by omega)
        rwa [next, Nat.add_assoc, Nat.add_comm 1 i]
      · rwa [next, Nat.add_assoc, Nat.add_comm 1 ones]
    rw [onesBelow, read, later]
    rfl

/-- A length of at most 16 is read back. -/
theorem readLength_row (short : l ≤ 16) (ahead : Ahead (rowLength l ++ rest) source) :
    (readLength source).1 = l ∧ Ahead rest (readLength source).2 := by
  by_cases small : l ≤ 6
  · rw [rowLength, if_pos small] at ahead
    have peeked : source.peek 3 = l := by
      rw [ahead.peek (by decide), front_number (by omega)]
    have passed := ahead.fillBuf
    rw [bitsOf_length] at passed
    have plain : l ≠ 7 := by omega
    rw [readLength, peeked, if_neg plain, if_pos (by omega), Nat.mod_eq_of_lt (by omega)]
    exact ⟨rfl, passed⟩
  · obtain ⟨ones, counted⟩ : ∃ ones, l - 3 = ones + 1 := ⟨l - 4, by omega⟩
    rw [rowLength, if_neg small, counted, bitsOf_ones] at ahead
    have bits : ∀ i, (List.replicate ones true ++ [false] ++ rest).getD i false =
        if i < ones then true else ([false] ++ rest).getD (i - ones) false := by
      intro i
      rw [List.append_assoc]
      split
      · rename_i below
        rw [List.getD_append _ _ _ _ (by simpa using below), List.getD_replicate _ below]
      · rename_i above
        rw [List.getD_append_right _ _ _ _ (by simpa using above), List.length_replicate]
    have peeked : source.peek 3 = 7 := by
      refine Nat.eq_of_testBit_eq fun i => ?_
      rw [ahead.peek (by decide)]
      by_cases inside : i < 3
      · rw [front_testBit _ inside, bits, if_pos (by omega)]
        interval_cases i <;> rfl
      · have beyond : (2 : Nat) ^ 3 ≤ 2 ^ i := Nat.pow_le_pow_right (by decide) (by omega)
        rw [Nat.testBit_eq_false_of_lt ((front_lt 3 _).trans_le beyond),
          Nat.testBit_eq_false_of_lt (lt_of_lt_of_le (by decide) beyond)]
    have more : onesBelow source.mBitBuf 29 = ones - 3 := by
      refine onesBelow_count ahead (by decide) (by omega) (fun i below => ?_) ?_
      · rw [bits, if_pos (by omega)]
      · have place : 32 - 29 + (ones - 3) = ones := by omega
        rw [place, bits, if_neg (lt_irrefl _), Nat.sub_self]
        rfl
    have passed := ahead.fillBuf
    rw [List.length_append, List.length_replicate, List.length_singleton] at passed
    have value : 7 + (ones - 3) = l := by omega
    have width : l - 3 = ones + 1 := counted
    rw [readLength, peeked, if_pos rfl, more, value, if_neg (by omega), width,
      Nat.mod_eq_of_lt (by omega)]
    exact ⟨rfl, passed⟩

end Lengths

section Loops

variable {number : Nat} {special : Int} {specialR : Nat}

/-- A run of zeros is one, and ends at the bound. -/
theorem zeroRun_zeros (len : Cells Nat) (upTo rounds index : Nat) :
    (∀ i, index ≤ i → i < index + zeroRun len upTo rounds index → len i = 0) ∧
      (zeroRun len upTo rounds index ≠ 0 → index + zeroRun len upTo rounds index ≤ upTo) := by
  induction rounds generalizing index with
  | zero =>
    rw [zeroRun]
    exact ⟨fun i above below => absurd below (by omega), fun nonzero => absurd rfl nonzero⟩
  | succ rounds inductionHypothesis =>
    rw [zeroRun]
    split
    · rename_i more
      obtain ⟨zeros, bound⟩ := inductionHypothesis (index + 1)
      refine ⟨fun i above below => ?_, fun _ => ?_⟩
      · by_cases first : i = index
        · rw [first]
          exact more.2
        · exact zeros i (by omega) (by omega)
      · by_cases none : zeroRun len upTo rounds (index + 1) = 0
        · omega
        · have inside := bound none
          omega
    · exact ⟨fun i above below => absurd below (by omega), fun nonzero => absurd rfl nonzero⟩

/-- The loops end behind the last length. -/
theorem writePTLenLoop_done {len : Cells Nat} {rounds index : Nat} (done : number ≤ index) :
    writePTLenLoop len number special rounds index = id := by
  cases rounds with
  | zero => rfl
  | succ rounds =>
    funext dst
    rw [writePTLenLoop, if_neg (Nat.not_lt_of_le done)]
    rfl

/-- The loop of the reader ends behind the last length. -/
theorem readPTLenLoop_done {rounds index : Nat} (done : number ≤ index)
    (read : Source × Cells Nat) :
    readPTLenLoop number specialR rounds index read = (index, read) := by
  cases rounds with
  | zero => rfl
  | succ rounds => rw [readPTLenLoop, if_neg fun more => Nat.not_lt_of_le done more.1]

/-- The loop of `ReadPTLen` reads a row of bits from the length of an index on as lengths of a
set: with the row ahead and the lengths before the index in their cells it stops behind the last
length, at most at the sixth one where zeros are counted beyond the set, with what stood behind
the row ahead and the lengths before its end in their cells. -/
def ReadsPT (number specialR : Nat) (len : Cells Nat) (row : List Bool) (index : Nat) : Prop :=
  ∀ rest read roundsR, number - index ≤ roundsR → Ahead (row ++ rest) read.1 →
    (∀ i < index, read.2 i = len i) →
    ∃ final source lens,
      readPTLenLoop number specialR roundsR index read = (final, source, lens) ∧
      Ahead rest source ∧ number ≤ final ∧ final ≤ max 6 (max number index) ∧
      ∀ i < final, lens i = len i

/-- Behind the last length the loop reads nothing. -/
theorem readsPT_done {len : Cells Nat} {index : Nat} (done : number ≤ index) :
    ReadsPT number specialR len [] index :=
  fun _ read _ _ ahead before =>
    ⟨index, read.1, read.2, readPTLenLoop_done done read, ahead, done, by omega, before⟩

/-- A length that is no special one is read, and the loop goes on behind it. -/
theorem readsPT_plain {len : Cells Nat} {row : List Bool} {index : Nat} (few : number ≤ npt)
    (more : index < number) (short : len index ≤ 16) (plain : ¬index + 1 = specialR)
    (reads : ReadsPT number specialR len row (index + 1)) :
    ReadsPT number specialR len (rowLength (len index) ++ row) index := by
  intro rest read roundsR enoughR ahead before
  rw [List.append_assoc] at ahead
  obtain ⟨charC, behind⟩ := readLength_row short ahead
  obtain ⟨roundsR, rfl⟩ : ∃ fewer, roundsR = fewer + 1 := ⟨roundsR - 1, by omega⟩
  have inside : index < number ∧ index < npt := ⟨more, by omega⟩
  rw [readPTLenLoop, if_pos inside]
  simp only [if_neg plain, charC]
  have kept : ∀ i < index + 1, read.2.write index (len index) i = len i := by
    intro i below
    by_cases here : i = index
    · rw [here, write_same]
    · rw [write_other here]
      exact before i (by omega)
  obtain ⟨final, source, lens, ran, later, allRead, bounded, same⟩ :=
    reads rest ((readLength read.1).2, _) roundsR (by omega) behind kept
  exact ⟨final, source, lens, ran, later, allRead, by omega, same⟩

/-- Behind the third length of the extra set two bits say how many of the next lengths are
zeros, and the loop goes on behind the zeros. -/
theorem readsPT_special {len : Cells Nat} {row : List Bool} {index count : Nat}
    (few : number ≤ npt) (more : index < number) (short : len index ≤ 16)
    (special : index + 1 = specialR) (third : index + 1 = 3) (few3 : count ≤ 3)
    (zeros : ∀ i, index + 1 ≤ i → i < index + 1 + count → len i = 0)
    (reads : ReadsPT number specialR len row (index + 1 + count)) :
    ReadsPT number specialR len (rowLength (len index) ++ bitsOf 2 count ++ row) index := by
  intro rest read roundsR enoughR ahead before
  rw [List.append_assoc, List.append_assoc] at ahead
  obtain ⟨charC, behind⟩ := readLength_row short ahead
  have peeked : (readLength read.1).2.peek 2 = count := by
    rw [behind.peek (by decide), front_number (by omega)]
  have passed := behind.fillBuf
  rw [bitsOf_length] at passed
  obtain ⟨roundsR, rfl⟩ : ∃ fewer, roundsR = fewer + 1 := ⟨roundsR - 1, by omega⟩
  have inside : index < number ∧ index < npt := ⟨more, by omega⟩
  have all : min count (npt - (index + 1)) = count := by
    have room : npt = 31 := rfl
    omega
  rw [readPTLenLoop, if_pos inside]
  simp only [if_pos special, peeked, all, charC]
  have kept : ∀ i < index + 1 + count, zeroLens (index + 1) (index + 1 + count)
      (read.2.write index (len index)) i = len i := by
    intro i below
    by_cases zero : index + 1 ≤ i
    · exact (if_pos ⟨zero, below⟩).trans (zeros i zero below).symm
    · refine (if_neg fun both => zero both.1).trans ?_
      by_cases here : i = index
      · rw [here, write_same]
      · rw [write_other here]
        exact before i (by omega)
  obtain ⟨final, source, lens, ran, later, allRead, bounded, same⟩ :=
    reads rest (fillBuf 2 (readLength read.1).2, _) roundsR (by omega) passed kept
  exact ⟨final, source, lens, ran, later, allRead, by omega, same⟩

/-- Behind the third length at most three zeros are counted, so their number fits the two bits
it is written with. -/
theorem zeroRun_special (len : Cells Nat) {index : Nat} (third : index + 1 = 3) :
    zeroRun len 6 6 (index + 1) ≤ 3 ∧
      (index + 1 + zeroRun len 6 6 (index + 1) - 3) &&& 3 = zeroRun len 6 6 (index + 1) := by
  have few3 : zeroRun len 6 6 (index + 1) ≤ 3 := by
    obtain ⟨-, bound⟩ := zeroRun_zeros len 6 6 (index + 1)
    by_cases none : zeroRun len 6 6 (index + 1) = 0
    · omega
    · have inside := bound none
      omega
  have place : index + 1 + zeroRun len 6 6 (index + 1) - 3 =
      zeroRun len 6 6 (index + 1) := by omega
  rw [place, Nat.and_two_pow_sub_one_eq_mod _ 2]
  exact ⟨few3, Nat.mod_eq_of_lt (by omega)⟩

/-- The loop of `WritePTLen` is undone by that of `ReadPTLen`. The two name the special length
in types of their own, and where they name one it is the third. -/
theorem ptLoops (len : Cells Nat) (short : ∀ i < number, len i ≤ 16) (few : number ≤ npt)
    (agree : ∀ index < npt, ((index + 1 : Nat) : Int) = special ↔ index + 1 = specialR)
    (third : ∀ index < npt, index + 1 = specialR → index + 1 = 3) {rounds index : Nat}
    (enough : number - index ≤ rounds) :
    ∃ row, Puts (writePTLenLoop len number special rounds index) row ∧
      ReadsPT number specialR len row index := by
  induction rounds generalizing index with
  | zero => exact ⟨[], puts_nothing, readsPT_done (by omega)⟩
  | succ rounds inductionHypothesis =>
    by_cases more : index < number
    · by_cases isSpecial : ((index + 1 : Nat) : Int) = special
      · have specialRead := (agree index (by omega)).mp isSpecial
        have three := third index (by omega) specialRead
        obtain ⟨few3, value⟩ := zeroRun_special len three
        obtain ⟨zeros, -⟩ := zeroRun_zeros len 6 6 (index + 1)
        have writes : writePTLenLoop len number special (rounds + 1) index = fun dst =>
            writePTLenLoop len number special rounds (index + 1 + zeroRun len 6 6 (index + 1))
              (putBits 2 ((index + 1 + zeroRun len 6 6 (index + 1) - 3) &&& 3)
                (putLength (len index) dst)) := by
          funext dst
          rw [writePTLenLoop, if_pos more, if_pos isSpecial]
        obtain ⟨row, puts, reads⟩ := inductionHypothesis
          (by omega : number - (index + 1 + zeroRun len 6 6 (index + 1)) ≤ rounds)
        rw [writes, value]
        exact ⟨_, (puts_putLength.andThen (puts_putBits (by omega))).andThen puts,
          readsPT_special few more (short index more) specialRead three few3 zeros reads⟩
      · have plain : ¬index + 1 = specialR := fun same =>
          isSpecial ((agree index (by omega)).mpr same)
        have writes : writePTLenLoop len number special (rounds + 1) index = fun dst =>
            writePTLenLoop len number special rounds (index + 1) (putLength (len index) dst) := by
          funext dst
          rw [writePTLenLoop, if_pos more, if_neg isSpecial]
        obtain ⟨row, puts, reads⟩ :=
          inductionHypothesis (by omega : number - (index + 1) ≤ rounds)
        rw [writes]
        exact ⟨_, puts_putLength.andThen puts, readsPT_plain few more (short index more) plain reads⟩
    · have done : number ≤ index := Nat.le_of_not_lt more
      rw [writePTLenLoop_done done]
      exact ⟨[], puts_nothing, readsPT_done done⟩

end Loops

section Sets

variable {n nn nbit : Nat} {special : Int} {specialR : Nat} {freq : Cells Nat} {tree : Tree}

/-- Behind the trimmed part of an array there are zeros. -/
theorem trimZeros_spec (len : Cells Nat) (number : Nat) :
    trimZeros len number ≤ number ∧
      ∀ i, trimZeros len number ≤ i → i < number → len i = 0 := by
  induction number with
  | zero => exact ⟨le_rfl, fun i _ below => absurd below (Nat.not_lt_zero i)⟩
  | succ number inductionHypothesis =>
    rw [trimZeros]
    split
    · rename_i zero
      refine ⟨inductionHypothesis.1.trans (Nat.le_succ number), fun i above below => ?_⟩
      by_cases last : i = number
      · rw [last]
        exact zero
      · exact inductionHypothesis.2 i above (by omega)
    · exact ⟨le_rfl, fun i above below => absurd below (Nat.not_lt_of_le above)⟩

/-- A code fits its length. -/
theorem code_fits (set : Coded n freq tree ∨ Alone n freq tree) {symbol : Nat}
    (inside : symbol < n) (occurs : freq symbol ≠ 0) :
    tree.code symbol < 2 ^ tree.len symbol := by
  rcases set with coded | alone
  · have used : Used tree.len n symbol := ⟨inside, (coded.used symbol inside).mpr occurs⟩
    rw [coded.code symbol used]
    exact code_lt coded.complete used
  · rw [alone.only symbol inside occurs, alone.code]
    exact Nat.two_pow_pos _

/-- A reader has the codes of the symbols that occur: the bits of each of them are looked up
as it, and the reader knows how many they are. -/
structure Knows (n number tableBits : Nat) (freq : Cells Nat) (tree : Tree) (tables : Tables)
    (lens : Cells Nat) : Prop where
  lens : ∀ s < n, freq s ≠ 0 → lens s = tree.len s
  found : ∀ s < n, freq s ≠ 0 → ∀ rest source,
    Ahead (bitsOf (tree.len s) (tree.code s) ++ rest) source →
    lookup tables number tableBits source.mBitBuf = some s

/-- A table that holds one symbol everywhere. -/
theorem lookup_constant {root number tableBits : Nat} (left right : Cells Nat)
    (inside : root < number) (mBitBuf : Nat) :
    lookup ⟨⟨fun _ => root⟩, left, right⟩ number tableBits mBitBuf = some root := by
  have rounds : 32 + (2 * UefiDecompress.nc - 1) = 31 + (2 * UefiDecompress.nc - 1) + 1 := rfl
  rw [lookup, rounds, descend]
  exact if_neg (Nat.not_le_of_lt inside)

/-- The reader of a single symbol. -/
theorem knows_of_alone {number tableBits : Nat} {lens left right : Cells Nat}
    (alone : Alone n freq tree) (more : n ≤ number) (zeros : ∀ s < n, lens s = 0) :
    Knows n number tableBits freq tree ⟨⟨fun _ => tree.root⟩, left, right⟩ lens where
  lens s inside _ := (zeros s inside).trans (alone.len s inside).symm
  found s inside occurs rest source _ := by
    rw [alone.only s inside occurs]
    exact lookup_constant left right (alone.root.trans_le more) _

/-- The reader of a code by its lengths. -/
theorem knows_of_coded {number tableBits : Nat} {lens : Cells Nat} (tables : Tables)
    (coded : Coded n freq tree) (more : n ≤ number) (same : ∀ s < n, lens s = tree.len s)
    (none : ∀ s, n ≤ s → s < number → lens s = 0) (positive : 0 < tableBits)
    (narrow : tableBits ≤ 15) (few : number ≤ UefiDecompress.nc)
    (less : number < 2 ^ (tableBits + 1)) :
    ∃ later, makeTable number lens tableBits tables = some later ∧
      Knows n number tableBits freq tree later lens ∧
      ∀ node, node < number ∨ 2 * number ≤ node →
        later.mLeft node = tables.mLeft node ∧ later.mRight node = tables.mRight node := by
  obtain ⟨complete, codes⟩ := coded.complete.extend more same none
  obtain ⟨later, made, built, frame⟩ := makeTable_built tables complete positive narrow few less
  have used : ∀ {s}, s < n → freq s ≠ 0 → Used tree.len n s :=
    fun inside occurs => ⟨inside, (coded.used _ inside).mpr occurs⟩
  refine ⟨later, made, ⟨fun s inside _ => same s inside, ?_⟩, frame⟩
  intro s inside occurs rest source ahead
  have usedRead : Used lens number s := by
    refine ⟨inside.trans_le more, ?_⟩
    rw [same s inside]
    exact (used inside occurs).2
  rw [coded.code s (used inside occurs), ← codes s (used inside occurs),
    ← same s inside] at ahead
  exact built.lookup complete positive narrow usedRead ahead

/-- What reading a set leaves. -/
structure KeepsC (sd later : Scratch) : Prop where
  fields : later = { sd with
    source := later.source
    mPTTable := later.mPTTable
    mPTLen := later.mPTLen
    mLeft := later.mLeft
    mRight := later.mRight }
  nodes : ∀ node, 2 * npt ≤ node →
    later.mLeft node = sd.mLeft node ∧ later.mRight node = sd.mRight node

/-- A set of one symbol is read. -/
theorem readPTLen_single {charC : Nat} {rest : List Bool} (nn special : Nat) (sd : Scratch)
    (fits : charC < 2 ^ nbit) (narrow : nbit ≤ 32)
    (ahead : Ahead (bitsOf nbit 0 ++ (bitsOf nbit charC ++ rest)) sd.source) :
    ∃ later, readPTLen nn nbit special sd = .ok later ∧ Ahead rest later.source ∧
      later = { sd with
        source := later.source
        mPTTable := ⟨fun _ => charC⟩
        mPTLen := zeroLens 0 nn sd.mPTLen } := by
  obtain ⟨number, behind⟩ := ahead.getBits (Nat.two_pow_pos nbit) narrow
  obtain ⟨symbol, later⟩ := behind.getBits fits narrow
  refine ⟨{ sd with
      source := (getBits nbit (getBits nbit sd.source).2).2
      mPTTable := ⟨fun _ => charC⟩
      mPTLen := zeroLens 0 nn sd.mPTLen }, ?_, later, rfl⟩
  rw [readPTLen]
  simp only [Scratch.getBits, number, if_true, symbol]

/-- A set of lengths is read back with the codes of its symbols, whatever comes behind it. -/
theorem coded_roundTrip (coded : Coded n freq tree) (more : n ≤ nn)
    (few : nn ≤ npt) (six : 6 ≤ n) (width : n < 2 ^ nbit) (narrow : nbit ≤ 32)
    (agree : ∀ index < npt, ((index + 1 : Nat) : Int) = special ↔ index + 1 = specialR)
    (third : ∀ index < npt, index + 1 = specialR → index + 1 = 3) :
    ∃ row, Puts (writeSet n nbit special tree) row ∧
      ∀ rest sd, Ahead (row ++ rest) sd.source →
        ∃ later, readPTLen nn nbit specialR sd = .ok later ∧ Ahead rest later.source ∧
          Knows n nn 8 freq tree later.tablesPT later.mPTLen ∧ KeepsC sd later := by
  have inNpt : npt = 31 := rfl
  have writes : writeSet n nbit special tree = writePTLen tree.len n nbit special := by
    funext dst
    rw [writeSet, if_pos coded.inner]
  obtain ⟨atMost, zeros⟩ := trimZeros_spec tree.len n
  have nonzero : trimZeros tree.len n ≠ 0 := by
    intro none
    obtain ⟨s, used, -⟩ := exists_starts coded.complete (Nat.two_pow_pos 16)
    exact used.2 (zeros s (by omega) used.1)
  have left : trimZeros tree.len n - 0 ≤ n := by omega
  obtain ⟨row, puts, reads⟩ := ptLoops tree.len
    (fun i below => coded.complete.short i (by omega)) (by omega) agree third left
  rw [writes]
  refine ⟨_, (puts_putBits (by omega)).andThen puts, fun rest sd ahead => ?_⟩
  rw [List.append_assoc] at ahead
  obtain ⟨number, behind⟩ := ahead.getBits (by omega) narrow
  obtain ⟨final, source, lens, ran, later, allRead, bounded, same⟩ :=
    reads rest ((getBits nbit sd.source).2, sd.mPTLen) npt (by omega) behind
      (fun i below => absurd below (Nat.not_lt_zero i))
  have first : ∀ s < n, zeroLens final (min nn npt) lens s = tree.len s := by
    intro s inside
    by_cases read : s < final
    · exact (if_neg fun both => Nat.not_le_of_lt read both.1).trans (same s read)
    · refine (if_pos ⟨Nat.le_of_not_lt read, by omega⟩).trans ?_
      exact (zeros s (by omega) inside).symm
  have none : ∀ s, n ≤ s → s < nn → zeroLens final (min nn npt) lens s = 0 :=
    fun s above below => if_pos ⟨by omega, by omega⟩
  have nodes : nn < 2 ^ (8 + 1) := by omega
  have places : nn ≤ UefiDecompress.nc := by
    have size : UefiDecompress.nc = 510 := rfl
    omega
  obtain ⟨tables, made, knows, frame⟩ := knows_of_coded sd.tablesPT coded more first none
    (by decide) (by decide) places nodes
  refine ⟨{ sd with
      source := source
      mPTLen := zeroLens final (min nn npt) lens
      mPTTable := tables.table
      mLeft := tables.mLeft
      mRight := tables.mRight }, ?_, later, knows, rfl, fun node above => frame node (by omega)⟩
  rw [readPTLen]
  simp only [Scratch.getBits, number, if_neg nonzero, ran, Scratch.makePT, Scratch.tablesPT]
  change makeTable nn (zeroLens final (min nn npt) lens) 8
    ⟨sd.mPTTable, sd.mLeft, sd.mRight⟩ = some tables at made
  rw [made, Option.elim_some]

/-- So is a set of one symbol, which is sent as its number. -/
theorem alone_roundTrip (alone : Alone n freq tree) (more : n ≤ nn) (width : n < 2 ^ nbit)
    (narrow : nbit ≤ 32) :
    ∃ row, Puts (writeSet n nbit special tree) row ∧
      ∀ rest sd, Ahead (row ++ rest) sd.source →
        ∃ later, readPTLen nn nbit specialR sd = .ok later ∧ Ahead rest later.source ∧
          Knows n nn 8 freq tree later.tablesPT later.mPTLen ∧ KeepsC sd later := by
  have writes : writeSet n nbit special tree = fun dst =>
      putBits nbit tree.root (putBits nbit 0 dst) := by
    funext dst
    rw [writeSet, if_neg (Nat.not_le_of_lt alone.root)]
  have root := alone.root
  rw [writes]
  refine ⟨_, (puts_putBits (Nat.two_pow_pos nbit)).andThen (puts_putBits (by omega)),
    fun rest sd ahead => ?_⟩
  rw [List.append_assoc] at ahead
  obtain ⟨later, ran, behind, same⟩ := readPTLen_single nn specialR sd (by omega) narrow ahead
  have zeros : ∀ s < n, zeroLens 0 nn sd.mPTLen s = 0 :=
    fun s inside => if_pos ⟨Nat.zero_le s, by omega⟩
  refine ⟨later, ran, behind, ?_, ?_, ?_⟩
  · rw [same]
    exact knows_of_alone alone more zeros
  · rw [same]
  · rw [same]
    exact fun node above => ⟨rfl, rfl⟩

/-- A set is read back with the codes of its symbols, whatever comes behind it. -/
theorem set_roundTrip (coded : Coded n freq tree ∨ Alone n freq tree) (more : n ≤ nn)
    (few : nn ≤ npt) (six : 6 ≤ n) (width : n < 2 ^ nbit) (narrow : nbit ≤ 32)
    (agree : ∀ index < npt, ((index + 1 : Nat) : Int) = special ↔ index + 1 = specialR)
    (third : ∀ index < npt, index + 1 = specialR → index + 1 = 3) :
    ∃ row, Puts (writeSet n nbit special tree) row ∧
      ∀ rest sd, Ahead (row ++ rest) sd.source →
        ∃ later, readPTLen nn nbit specialR sd = .ok later ∧ Ahead rest later.source ∧
          Knows n nn 8 freq tree later.tablesPT later.mPTLen ∧ KeepsC sd later := by
  rcases coded with coded | alone
  · exact coded_roundTrip coded more few six width narrow agree third
  · exact alone_roundTrip alone more width narrow

end Sets

end SmcPkg.UefiDecompress
