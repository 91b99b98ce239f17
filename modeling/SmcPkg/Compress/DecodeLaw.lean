import SmcPkg.Compress.ItemLaw

/-!
# The run of the decompression

A round of `Decode` takes one item off the input, and the destination then holds what the
items so far stand for. At the end of a block the next one is read. Behind the last block
there are zeros only: they are read as a block whose symbols are characters of zero, and the
first of these finds the destination full.
-/

namespace SmcPkg.UefiDecompress

open BitRows Cells PrefixCode TianoCompress

section Output

variable {out : List UInt8} {sd : Scratch}

/-- The destination holds some bytes. -/
structure Holds (out : List UInt8) (sd : Scratch) : Prop where
  size : sd.mOutBuf = out.length
  bytes : ∀ i < out.length, sd.mDstBase i = out.getD i 0

/-- A byte is put behind those that are held. -/
theorem Holds.snoc (holds : Holds out sd) (byte : UInt8) :
    Holds (out ++ [byte]) { sd with
      mDstBase := sd.mDstBase.write sd.mOutBuf byte, mOutBuf := sd.mOutBuf + 1 } := by
  refine ⟨?_, fun i below => ?_⟩
  · rw [List.length_append, List.length_singleton, holds.size]
  · rw [List.length_append, List.length_singleton] at below
    simp only
    rw [holds.size, write_read]
    split
    · rename_i last
      rw [last, List.getD_append_right _ _ _ _ le_rfl, Nat.sub_self]
      rfl
    · rename_i before
      have inside : i < out.length := by omega
      rw [List.getD_append _ _ _ _ inside]
      exact holds.bytes i inside

/-- The loop that copies puts what a pointer stands for. -/
theorem copyPart_holds (count : Nat) {back : Nat} (holds : Holds out sd) (positive : 0 < back)
    (there : back ≤ out.length) (room : out.length + count ≤ sd.mOrigSize)
    (small : sd.mOrigSize < 2 ^ 32) :
    Holds (copyBack count back out) (copyPart count (out.length - back) sd) ∧
      copyPart count (out.length - back) sd = { sd with
        mDstBase := (copyPart count (out.length - back) sd).mDstBase
        mOutBuf := (copyPart count (out.length - back) sd).mOutBuf } := by
  induction count generalizing out sd with
  | zero => exact ⟨holds, rfl⟩
  | succ count inductionHypothesis =>
    have copied : sd.mDstBase (out.length - back) = out.getD (out.length - back) 0 :=
      holds.bytes _ (by omega)
    have next := holds.snoc (out.getD (out.length - back) 0)
    rw [copyBack, copyPart, copied]
    generalize out.getD (out.length - back) 0 = byte at next ⊢
    have longer : (out ++ [byte]).length = out.length + 1 := by
      rw [List.length_append, List.length_singleton]
    have place : (out.length - back + 1) % 2 ^ 32 = (out ++ [byte]).length - back := by
      rw [longer, Nat.mod_eq_of_lt (by omega)]
      omega
    simp only
    by_cases full : sd.mOrigSize ≤ sd.mOutBuf + 1
    · have last : count = 0 := by
        have size := holds.size
        omega
      rw [if_pos full, last]
      exact ⟨next, rfl⟩
    · rw [if_neg full, place]
      have further : back ≤ (out ++ [byte]).length := by omega
      have roomNext : (out ++ [byte]).length + count ≤ sd.mOrigSize := by omega
      obtain ⟨held, same⟩ := inductionHypothesis next further roomNext small
      exact ⟨held, same⟩

end Output

section Blocks

/-- In a block: the codes of the items that are left are known, and their bits are ahead. -/
def InBlock (items : List (Nat × Nat)) (rest : List Bool) (sd : Scratch) : Prop :=
  ∃ freqC treeC freqP treeP, Knows nc nc 12 freqC treeC sd.tablesC sd.mCLen ∧
    Knows TianoCompress.np maxnp 8 freqP treeP sd.tablesPT sd.mPTLen ∧
    (∀ item ∈ items, Counted freqC freqP item) ∧ sd.mBlockSize = items.length ∧
    items.length < 2 ^ 16 ∧
    Ahead (items.flatMap (rowItem treeC treeP) ++ rest) sd.source

/-- What is read at the begin of a block leaves the output. -/
structure SameOutput (sd later : Scratch) : Prop where
  mDstBase : later.mDstBase = sd.mDstBase
  mOutBuf : later.mOutBuf = sd.mOutBuf
  mOrigSize : later.mOrigSize = sd.mOrigSize
  mPBit : later.mPBit = sd.mPBit

/-- A row of bits sends a block of items. -/
def Sends (row : List Bool) (items : List (Nat × Nat)) : Prop :=
  ∀ rest sd, sd.mPBit = TianoCompress.pbit → Ahead (row ++ rest) sd.source →
    ∃ ready, readBlock sd = .ok ready ∧ InBlock items rest ready ∧ SameOutput sd ready

/-- Items are coming: those that are left of a block, and those of blocks ahead. -/
def Coming (items : List (Nat × Nat)) (sd : Scratch) : Prop :=
  sd.mPBit = TianoCompress.pbit ∧ ∃ left : List (Nat × Nat),
    ∃ blocks : List (List Bool × List (Nat × Nat)),
    items = left ++ blocks.flatMap Prod.snd ∧
    (∀ block ∈ blocks, block.2 ≠ [] ∧ Sends block.1 block.2) ∧
    (InBlock left (blocks.flatMap Prod.fst) sd ∨
      left = [] ∧ sd.mBlockSize = 0 ∧ Ahead (blocks.flatMap Prod.fst) sd.source)

variable {item : Nat × Nat} {items : List (Nat × Nat)} {sd : Scratch}

/-- The next item is one of a block. -/
theorem Coming.next (coming : Coming (item :: items) sd) :
    ∃ ready left rest, decodeC sd = symbolC ready ∧ InBlock (item :: left) rest ready ∧
      SameOutput sd ready ∧
      ∀ later, later.mPBit = sd.mPBit → InBlock left rest later → Coming items later := by
  obtain ⟨bits, left, blocks, split, sends, place⟩ := coming
  cases left with
  | nil =>
    have boundary : sd.mBlockSize = 0 ∧ Ahead (blocks.flatMap Prod.fst) sd.source := by
      rcases place with ⟨freqC, treeC, freqP, treeP, -, -, -, size, -, ahead⟩ | ⟨-, there⟩
      · exact ⟨size, ahead⟩
      · exact there
    cases blocks with
    | nil => exact absurd split (by simp)
    | cons block blocks =>
      rw [List.forall_mem_cons] at sends
      obtain ⟨row, sent⟩ := block
      obtain ⟨⟨nonempty, sending⟩, others⟩ := sends
      rw [List.nil_append, List.flatMap_cons] at split
      rw [List.flatMap_cons] at boundary
      obtain ⟨ready, read, inBlock, same⟩ := sending _ sd bits boundary.2
      cases sent with
      | nil => exact absurd rfl nonempty
      | cons first sent =>
        rw [List.cons_append, List.cons.injEq] at split
        rw [← split.1] at inBlock
        refine ⟨ready, sent, _, ?_, inBlock, same, fun later pBit there =>
          ⟨pBit.trans bits, sent, blocks, split.2, others, Or.inl there⟩⟩
        rw [decodeC, if_pos boundary.1, read]
        rfl
  | cons first left =>
    rw [List.cons_append, List.cons.injEq] at split
    rcases place with inBlock | ⟨none, -⟩
    · rw [← split.1] at inBlock
      have size : sd.mBlockSize ≠ 0 := by
        obtain ⟨-, -, -, -, -, -, -, size, -⟩ := inBlock
        rw [size]
        exact Nat.succ_ne_zero _
      exact ⟨sd, left, _, if_neg size, inBlock, ⟨rfl, rfl, rfl, rfl⟩, fun later pBit there =>
        ⟨pBit.trans bits, left, blocks, split.2, sends, Or.inl there⟩⟩
    · exact absurd none (List.cons_ne_nil _ _)

/-- Behind the last item there is a boundary with nothing ahead. -/
theorem Coming.done (coming : Coming [] sd) : sd.mBlockSize = 0 ∧ Ahead [] sd.source := by
  obtain ⟨-, left, blocks, split, sends, place⟩ := coming
  obtain ⟨none, empty⟩ := List.append_eq_nil_iff.mp split.symm
  have noBlock : blocks = [] := by
    cases blocks with
    | nil => rfl
    | cons block blocks =>
      rw [List.flatMap_cons, List.append_eq_nil_iff] at empty
      exact absurd empty.1 (sends block List.mem_cons_self).1
  subst none noBlock
  rcases place with ⟨freqC, treeC, freqP, treeP, -, -, -, size, -, ahead⟩ | ⟨-, there⟩
  · exact ⟨size, ahead⟩
  · exact there

end Blocks

section Rounds

variable {out : List UInt8} {item : Nat × Nat} {items left : List (Nat × Nat)}
  {rest : List Bool} {sd ready : Scratch}

/-- The bits of an item that comes next: first its symbol, and then for a pointer its position.
What is read leaves the output, and behind it are the items that are left. -/
theorem InBlock.reads (inBlock : InBlock (item :: left) rest ready) :
    ∃ read, symbolC ready = .ok (item.1, read) ∧ SameOutput ready read ∧
      (item.1 < 256 → InBlock left rest read) ∧
      (256 ≤ item.1 → ∃ behind, decodeP read = .ok (item.2, behind) ∧ SameOutput ready behind ∧
        InBlock left rest behind) := by
  obtain ⟨freqC, treeC, freqP, treeP, knowsC, knowsP, counted, size, short, ahead⟩ := inBlock
  rw [List.forall_mem_cons] at counted
  obtain ⟨known, others⟩ := counted
  rw [List.flatMap_cons, rowItem, List.append_assoc, List.append_assoc] at ahead
  obtain ⟨source, symbol, behind⟩ := symbolC_row knowsC known.inC known.occurs ahead
  have fewer : (ready.mBlockSize + 65535) % 65536 = left.length := by
    rw [size, List.length_cons] at *
    omega
  have shorter : left.length < 2 ^ 16 := by
    rw [List.length_cons] at short
    omega
  rw [fewer] at symbol
  refine ⟨_, symbol, ⟨rfl, rfl, rfl, rfl⟩, fun character => ?_, fun pointer => ?_⟩
  · rw [if_neg (Nat.not_le_of_lt character), List.nil_append] at behind
    exact ⟨freqC, treeC, freqP, treeP, knowsC, knowsP, others, rfl, shorter, behind⟩
  · rw [if_pos pointer] at behind
    have knowsNow : Knows TianoCompress.np maxnp 8 freqP treeP
        (Scratch.tablesPT { ready with source := source, mBlockSize := left.length })
        (Scratch.mPTLen { ready with source := source, mBlockSize := left.length }) := knowsP
    obtain ⟨sourceP, position, later⟩ := decodeP_row knowsNow known.inWindow
      (known.occursP pointer) behind
    exact ⟨_, position, ⟨rfl, rfl, rfl, rfl⟩,
      freqC, treeC, freqP, treeP, knowsC, knowsP, others, rfl, shorter, later⟩

/-- What leaves the output leaves the bytes that it holds. -/
theorem Holds.of_same (holds : Holds out sd) (same : SameOutput sd ready) : Holds out ready := by
  refine ⟨same.mOutBuf.trans holds.size, fun i below => ?_⟩
  rw [same.mDstBase]
  exact holds.bytes i below

/-- A round with a character. -/
theorem decodeLoop_character {read : Scratch} (symbol : decodeC sd = .ok (item.1, read))
    (character : item.1 < 256) (inBlock : InBlock left rest read) (holds : Holds out read)
    (room : out.length + 1 ≤ read.mOrigSize) (rounds : Nat) :
    ∃ later, InBlock left rest later ∧ Holds (out ++ [UInt8.ofNat item.1]) later ∧
      later.mOrigSize = read.mOrigSize ∧ later.mPBit = read.mPBit ∧
      decodeLoop (rounds + 1) sd = decodeLoop rounds later := by
  have free : ¬read.mOrigSize ≤ read.mOutBuf := by
    rw [holds.size]
    omega
  refine ⟨_, ?_, holds.snoc (UInt8.ofNat item.1), rfl, rfl, ?_⟩
  · exact inBlock
  · rw [decodeLoop, symbol]
    simp only [Except.bind, if_pos character, if_neg free]

/-- A round with a pointer. The run ends with it if it has filled the destination. -/
theorem decodeLoop_pointer {read behind : Scratch} (symbol : decodeC sd = .ok (item.1, read))
    (position : decodeP read = .ok (item.2, behind)) (pointer : 256 ≤ item.1)
    (inBlock : InBlock left rest behind) (holds : Holds out behind) (there : item.2 + 1 ≤ out.length)
    (room : out.length + (item.1 - 253) ≤ behind.mOrigSize) (small : behind.mOrigSize < 2 ^ 32)
    (rounds : Nat) :
    ∃ later, InBlock left rest later ∧ Holds (copyBack (item.1 - 253) (item.2 + 1) out) later ∧
      later.mOrigSize = behind.mOrigSize ∧ later.mPBit = behind.mPBit ∧
      (decodeLoop (rounds + 1) sd = decodeLoop rounds later ∨
        decodeLoop (rounds + 1) sd = .ok later ∧ later.mOrigSize ≤ later.mOutBuf) := by
  have place : (behind.mOutBuf + 2 ^ 32 - item.2 - 1) % 2 ^ 32 = out.length - (item.2 + 1) := by
    rw [holds.size]
    omega
  obtain ⟨held, others⟩ := copyPart_holds (item.1 - 253) holds (Nat.succ_pos item.2) there room
    small
  obtain ⟨copied, copiedIs⟩ : ∃ copied, copied = copyPart (item.1 - 253)
      (out.length - (item.2 + 1)) behind := ⟨_, rfl⟩
  rw [← copiedIs] at held others
  have round : decodeLoop (rounds + 1) sd =
      if copied.mOrigSize ≤ copied.mOutBuf then .ok copied else decodeLoop rounds copied := by
    rw [decodeLoop, symbol]
    simp only [Except.bind, if_neg (Nat.not_lt_of_le pointer), position, place, ← copiedIs]
  refine ⟨copied, ?_, held, ?_, ?_, ?_⟩
  · rw [others]
    exact inBlock
  · rw [others]
  · rw [others]
  · rw [round]
    split
    · rename_i full
      exact Or.inr ⟨rfl, full⟩
    · exact Or.inl rfl

/-- A round with an item to come: the destination then holds what the item stands for, and
the run goes on unless a pointer has filled it. -/
theorem decodeLoop_item (decodes : decodeC sd = symbolC ready)
    (inBlock : InBlock (item :: left) rest ready) (holds : Holds out ready)
    (fits : Fits out item) (room : (expandItem out item).length ≤ ready.mOrigSize)
    (small : ready.mOrigSize < 2 ^ 32) (rounds : Nat) :
    ∃ later, InBlock left rest later ∧ Holds (expandItem out item) later ∧
      later.mOrigSize = ready.mOrigSize ∧ later.mPBit = ready.mPBit ∧
      (decodeLoop (rounds + 1) sd = decodeLoop rounds later ∨
        decodeLoop (rounds + 1) sd = .ok later ∧ later.mOrigSize ≤ later.mOutBuf) := by
  obtain ⟨read, symbol, same, behindC, behindP⟩ := inBlock.reads
  rw [← decodes] at symbol
  by_cases character : item.1 < 256
  · have expanded : expandItem out item = out ++ [UInt8.ofNat item.1] := if_pos character
    rw [expanded] at room ⊢
    rw [List.length_append, List.length_singleton, ← same.mOrigSize] at room
    obtain ⟨later, inside, held, size, bits, round⟩ := decodeLoop_character symbol character
      (behindC character) (holds.of_same same) room rounds
    exact ⟨later, inside, held, size.trans same.mOrigSize, bits.trans same.mPBit, Or.inl round⟩
  · have pointer : 256 ≤ item.1 := Nat.le_of_not_lt character
    obtain ⟨behind, position, sameP, inside⟩ := behindP pointer
    have expanded : expandItem out item = copyBack (item.1 - 253) (item.2 + 1) out :=
      if_neg character
    rw [expanded] at room ⊢
    rw [copyBack_length, ← sameP.mOrigSize] at room
    rw [← sameP.mOrigSize] at small
    obtain ⟨later, inBlock, held, size, bits, round⟩ := decodeLoop_pointer symbol position pointer
      inside (holds.of_same sameP) (fits.there pointer) room small rounds
    exact ⟨later, inBlock, held, size.trans sameP.mOrigSize, bits.trans sameP.mPBit, round⟩

/-- Behind the end a block of zeros is read, and its first symbol is a character. -/
theorem decodeC_end (boundary : sd.mBlockSize = 0) (ahead : Ahead [] sd.source)
    (bits : sd.mPBit = TianoCompress.pbit) :
    ∃ later, decodeC sd = .ok (0, later) ∧ SameOutput sd later := by
  have row : ([] : List Bool) ++ List.replicate 54 false =
      bitsOf 16 0 ++ (bitsOf tbit 0 ++ (bitsOf tbit 0 ++ (bitsOf cbit 0 ++ (bitsOf cbit 0 ++
        (bitsOf TianoCompress.pbit 0 ++ (bitsOf TianoCompress.pbit 0 ++ [])))))) := by
    decide
  have zeros : Ahead ([] ++ List.replicate 54 false) sd.source := (Ahead.padded 54).mpr ahead
  rw [row] at zeros
  have none : ∀ width, 0 < 2 ^ width := Nat.two_pow_pos
  obtain ⟨size, behindSize⟩ := zeros.getBits (none _) (by decide)
  obtain ⟨first, readFirst, behindFirst, sameFirst⟩ := readPTLen_single nt 3
    { sd with source := (getBits 16 sd.source).2, mBlockSize := 0 } (none _) (by decide) behindSize
  obtain ⟨second, readSecond, behindSecond, sameSecond⟩ :=
    readCLen_single first (none _) behindFirst
  obtain ⟨third, readThird, behindThird, sameThird⟩ :=
    readPTLen_single maxnp 65535 second (none _) (by decide) behindSecond
  have bitsSecond : second.mPBit = TianoCompress.pbit := by rw [sameSecond, sameFirst, bits]
  rw [← bitsSecond] at readThird
  have block : readBlock sd = .ok third := by
    rw [readBlock]
    simp only [Scratch.getBits, size]
    rw [readFirst, Except.bind, readSecond, Except.bind]
    exact readThird
  have symbol : lookup third.tablesC nc 12 third.source.mBitBuf = some 0 := by
    rw [sameThird, sameSecond]
    exact lookup_constant _ _ (by decide) _
  refine ⟨{ third.fillBuf (third.mCLen 0) with
      mBlockSize := (third.mBlockSize + 65535) % 65536 }, ?_, ?_⟩
  · rw [decodeC, if_pos boundary, block, Except.bind, symbolC, symbol]
  · constructor <;> rw [sameThird, sameSecond, sameFirst] <;> rfl

/-- The output goes on where it was. -/
theorem Holds.same (holds : Holds out sd) (same : SameOutput sd ready) : Holds out ready where
  size := same.mOutBuf.trans holds.size
  bytes i inside := by
    rw [same.mDstBase]
    exact holds.bytes i inside

/-- The run over all items that are coming: they fill the destination with what they stand
for. -/
theorem decodeLoop_run (coming : Coming items sd) (holds : Holds out sd) (fit : FitAll out items)
    (whole : (expand out items).length = sd.mOrigSize) (small : sd.mOrigSize < 2 ^ 32)
    {rounds : Nat} (enough : items.length < rounds) :
    ∃ later, decodeLoop rounds sd = .ok later ∧ Holds (expand out items) later := by
  induction items generalizing out sd rounds with
  | nil =>
    obtain ⟨rounds, rfl⟩ : ∃ fewer, rounds = fewer + 1 := ⟨rounds - 1, by omega⟩
    obtain ⟨boundary, ahead⟩ := coming.done
    obtain ⟨later, decodes, same⟩ := decodeC_end boundary ahead coming.1
    have full : later.mOrigSize ≤ later.mOutBuf := by
      rw [same.mOrigSize, same.mOutBuf, holds.size, ← whole]
      exact le_rfl
    refine ⟨later, ?_, holds.same same⟩
    rw [decodeLoop, decodes]
    have character : 0 < 256 := by decide
    simp only [Except.bind, if_pos character, if_pos full]
  | cons item items inductionHypothesis =>
    obtain ⟨rounds, rfl⟩ : ∃ fewer, rounds = fewer + 1 := ⟨rounds - 1, by omega⟩
    obtain ⟨ready, left, rest, decodes, inBlock, same, goesOn⟩ := coming.next
    have wholeNext : (expand (expandItem out item) items).length = ready.mOrigSize :=
      whole.trans same.mOrigSize.symm
    have smallNext : ready.mOrigSize < 2 ^ 32 := same.mOrigSize ▸ small
    have room : (expandItem out item).length ≤ ready.mOrigSize :=
      wholeNext ▸ expand_length_le
    obtain ⟨later, inBlockNext, held, size, pBit, round⟩ :=
      decodeLoop_item decodes inBlock (holds.same same) fit.1 room smallNext rounds
    rcases round with goes | ⟨stops, full⟩
    · rw [goes]
      refine inductionHypothesis (goesOn later (pBit.trans same.mPBit) inBlockNext) held fit.2
        (wholeNext.trans size.symm) (size ▸ smallNext) ?_
      exact Nat.lt_of_succ_lt_succ enough
    · -- a pointer has filled the destination, and each further item would add to it
      have none : items = [] := by
        cases items with
        | nil => rfl
        | cons further items =>
          have longer : (expandItem out item).length <
              (expandItem (expandItem out item) further).length := expandItem_length
          have atMost : (expandItem (expandItem out item) further).length ≤
              (expand (expandItem out item) (further :: items)).length := expand_length_le
          rw [size, held.size] at full
          omega
      rw [stops, none]
      exact ⟨later, rfl, held⟩

end Rounds

end SmcPkg.UefiDecompress
