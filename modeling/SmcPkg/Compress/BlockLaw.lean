import SmcPkg.Compress.BufferLaw
import SmcPkg.Compress.DecodeLaw

/-!
# A block is read back

`SendBlock` makes a code for the characters and one for the positions from how often they
occur, and sends the lengths of both and the items. A reader gets the codes from the lengths,
and is then in the block with all its items ahead.

What is assumed of the globals before a block is that their counts are those of the items, in
sixteen bits. Whatever else earlier blocks have left in the arrays is arbitrary.
-/

namespace SmcPkg.UefiDecompress

open BitRows Cells PrefixCode TianoCompress

section Totals

variable {freq : Cells Nat} {n : Nat} {tree : Tree} {items : List (Nat × Nat)}

/-- Symbols that do not occur add nothing. -/
theorem occurring_sum (freq : Cells Nat) (n : Nat) :
    ((occurring freq n).map freq).sum = ((List.range n).map freq).sum := by
  rw [occurring]
  induction List.range n with
  | nil => rfl
  | cons symbol symbols inductionHypothesis =>
    rw [List.map_cons, List.sum_cons, ← inductionHypothesis]
    by_cases none : freq symbol = 0
    · rw [List.filter_cons_of_neg (by simpa using none), none, Nat.zero_add]
    · rw [List.filter_cons_of_pos (by simpa using none), List.map_cons, List.sum_cons]

/-- Each item is counted once. -/
theorem counted_sum (n : Nat) (inside : ∀ item ∈ items, item.1 < n) :
    ((List.range n).map fun symbol => items.countP fun item => item.1 = symbol).sum =
      items.length := by
  induction items with
  | nil => simp
  | cons item items inductionHypothesis =>
    rw [List.forall_mem_cons] at inside
    have once : ∀ bound, ((List.range bound).map fun symbol =>
        if item.1 = symbol then 1 else 0).sum = if item.1 < bound then 1 else 0 := by
      intro bound
      induction bound with
      | zero => rfl
      | succ bound before =>
        rw [List.range_succ, List.map_append, List.sum_append, before, List.map_singleton,
          List.sum_singleton]
        split_ifs <;> omega
    simp only [List.countP_cons, decide_eq_true_eq]
    rw [List.sum_map_add, inductionHypothesis inside.2, once, if_pos inside.1, List.length_cons]

/-- The root of a tree has the frequencies of all symbols. -/
theorem root_total (set : Coded n freq tree ∨ Alone n freq tree)
    (fits : ((List.range n).map freq).sum < 2 ^ 16) :
    tree.freq tree.root = ((List.range n).map freq).sum := by
  rw [← occurring_sum] at fits ⊢
  rcases set with coded | alone
  · exact coded.total.trans (Nat.mod_eq_of_lt fits)
  · exact alone.total

end Totals

section Nodes

variable {tables other : Tables} {number tableBits n : Nat} {freq lens : Cells Nat} {tree : Tree}

/-- A lookup reads the nodes behind the symbols only. -/
theorem lookup_congr (table : other.table = tables.table)
    (nodes : ∀ node, number ≤ node →
      other.mLeft node = tables.mLeft node ∧ other.mRight node = tables.mRight node)
    (mBitBuf : Nat) :
    lookup other number tableBits mBitBuf = lookup tables number tableBits mBitBuf := by
  have general : ∀ rounds mask value, descend other number mBitBuf rounds mask value =
      descend tables number mBitBuf rounds mask value := by
    intro rounds
    induction rounds with
    | zero => exact fun mask value => rfl
    | succ rounds inductionHypothesis =>
      intro mask value
      rw [descend, descend]
      by_cases inner : number ≤ value
      · rw [if_pos inner, if_pos inner, (nodes value inner).1, (nodes value inner).2,
          inductionHypothesis]
      · rw [if_neg inner, if_neg inner]
  rw [lookup, lookup, table]
  exact general _ _ _

/-- What a reader knows stays, where the table and its nodes do. -/
theorem Knows.kept (knows : Knows n number tableBits freq tree tables lens)
    (table : other.table = tables.table)
    (nodes : ∀ node, number ≤ node →
      other.mLeft node = tables.mLeft node ∧ other.mRight node = tables.mRight node) :
    Knows n number tableBits freq tree other lens where
  lens := knows.lens
  found s inside occurs rest source ahead := by
    rw [lookup_congr table nodes]
    exact knows.found s inside occurs rest source ahead

end Nodes

section Blocks

/-- How often the symbols of items occur. -/
structure Counts (items : List (Nat × Nat)) (huf : Huf) : Prop where
  characters : ∀ symbol < nc, huf.mCFreq symbol = items.countP fun item => item.1 = symbol
  positions : ∀ bits < TianoCompress.np, huf.mPFreq bits =
    items.countP fun item => 256 ≤ item.1 ∧ bitsIn 32 item.2 = bits
  narrowC : ∀ index, huf.mCFreq index < 2 ^ 16
  narrowP : ∀ index, huf.mPFreq index < 2 ^ 16
  narrowT : ∀ index, huf.mTFreq index < 2 ^ 16

/-- An item of the format. -/
structure Formed (item : Nat × Nat) : Prop where
  inC : item.1 < nc
  inWindow : item.2 < 2 ^ 19

variable {items : List (Nat × Nat)} {huf : Huf}

/-- The counts depend on the frequencies only. -/
theorem Counts.congr {later : Huf} (counts : Counts items huf) (mCFreq : later.mCFreq = huf.mCFreq)
    (mPFreq : later.mPFreq = huf.mPFreq) (mTFreq : later.mTFreq = huf.mTFreq) :
    Counts items later where
  characters := mCFreq ▸ counts.characters
  positions := mPFreq ▸ counts.positions
  narrowC := mCFreq ▸ counts.narrowC
  narrowP := mPFreq ▸ counts.narrowP
  narrowT := mTFreq ▸ counts.narrowT

/-- Together the counts of the characters are the number of the items. -/
theorem Counts.sum (counts : Counts items huf) (inside : ∀ item ∈ items, item.1 < nc) :
    ((List.range nc).map huf.mCFreq).sum = items.length := by
  have same : (List.range nc).map huf.mCFreq =
      (List.range nc).map fun symbol => items.countP fun item => item.1 = symbol :=
    List.map_congr_left fun symbol member => counts.characters symbol (List.mem_range.mp member)
  rw [same]
  exact counted_sum nc inside

/-- The counts know the items. -/
theorem Counts.counted (counts : Counts items huf) {item : Nat × Nat} (member : item ∈ items)
    (formed : Formed item) : Counted huf.mCFreq huf.mPFreq item where
  inC := formed.inC
  inWindow := formed.inWindow
  occurs := by
    rw [counts.characters item.1 formed.inC]
    refine (List.countP_pos_iff.mpr ⟨item, member, ?_⟩).ne'
    exact decide_eq_true rfl
  occursP pointer := by
    rw [counts.positions _ (bitsIn_lt formed.inWindow)]
    refine (List.countP_pos_iff.mpr ⟨item, member, ?_⟩).ne'
    exact decide_eq_true ⟨pointer, rfl⟩

/-- The items of a block are put out. -/
theorem puts_items {codes : Codes} {freqC freqP : Cells Nat} {treeC treeP : Tree}
    (setC : Coded nc freqC treeC ∨ Alone nc freqC treeC)
    (setP : Coded TianoCompress.np freqP treeP ∨ Alone TianoCompress.np freqP treeP)
    (counted : ∀ item ∈ items, Counted freqC freqP item)
    (same : codes = ⟨treeC.len, treeC.code, treeP.len, treeP.code⟩) :
    Puts (fun dst => items.foldl (putItem codes) dst) (items.flatMap (rowItem treeC treeP)) := by
  have each : ∀ item ∈ items,
      Puts (fun dst => putItem codes dst item) (rowItem treeC treeP item) := by
    intro item member
    have known := counted item member
    have symbol := puts_encodeC (code_fits setC known.inC known.occurs)
    rw [same, rowItem]
    by_cases pointer : 256 ≤ item.1
    · have position := code_fits setP (bitsIn_lt known.inWindow) (known.occursP pointer)
      rw [if_pos pointer]
      simp only [putItem, if_pos pointer]
      exact symbol.andThen (puts_encodeP known.inWindow position)
    · rw [if_neg pointer, List.append_nil]
      simp only [putItem, if_neg pointer]
      exact symbol
  exact puts_foldl items each

/-- What sending a block leaves of the globals. -/
structure SameBuffer (huf later : Huf) : Prop where
  mBuf : later.mBuf = huf.mBuf
  mBufSiz : later.mBufSiz = huf.mBufSiz
  mOutputPos : later.mOutputPos = huf.mOutputPos
  mOutputMask : later.mOutputMask = huf.mOutputMask
  cPos : later.cPos = huf.cPos

/-- The counts are cleared. -/
theorem clearFreq_below {number index : Nat} (freq : Cells Nat) (below : index < number) :
    clearFreq number freq index = 0 :=
  if_pos below

/-- They stay in sixteen bits. -/
theorem clearFreq_narrow {number : Nat} {freq : Cells Nat}
    (narrow : ∀ index, freq index < 2 ^ 16) (index : Nat) :
    clearFreq number freq index < 2 ^ 16 := by
  change (if index < number then 0 else freq index) < 2 ^ 16
  split
  · exact Nat.two_pow_pos 16
  · exact narrow index

/-- A row of bits is read as the codes of the characters and as their lengths, whatever comes
behind it. What is read changes nothing of the scratch but the tables of these codes. -/
def ReadsC (freq : Cells Nat) (tree : Tree) (row : List Bool) : Prop :=
  ∀ rest sd, Ahead (row ++ rest) sd.source →
    ∃ first second, readPTLen nt tbit 3 sd = .ok first ∧ readCLen first = .ok second ∧
      Ahead rest second.source ∧ Knows nc nc 12 freq tree second.tablesC second.mCLen ∧
      second = { sd with
        source := second.source
        mCLen := second.mCLen
        mCTable := second.mCTable
        mPTTable := second.mPTTable
        mPTLen := second.mPTLen
        mLeft := second.mLeft
        mRight := second.mRight }

/-- A row of bits is read as the codes of the positions, whatever comes behind it. The tables of
the characters are kept. -/
def ReadsP (freq : Cells Nat) (tree : Tree) (row : List Bool) : Prop :=
  ∀ rest sd, Ahead (row ++ rest) sd.source →
    ∃ later, readPTLen maxnp TianoCompress.pbit 65535 sd = .ok later ∧ Ahead rest later.source ∧
      Knows TianoCompress.np maxnp 8 freq tree later.tablesPT later.mPTLen ∧ KeepsC sd later

/-- The lengths of the positions are written without a special length, and read back so: -1
and 65535 name no index of a set. -/
theorem sendP_reads {freq : Cells Nat} {tree : Tree}
    (coded : Coded TianoCompress.np freq tree ∨ Alone TianoCompress.np freq tree) :
    ∃ row, Puts (writeSet TianoCompress.np TianoCompress.pbit (-1) tree) row ∧
      ReadsP freq tree row := by
  have agree : ∀ index < npt, ((index + 1 : Nat) : Int) = -1 ↔ index + 1 = 65535 := by
    have inNpt : npt = 31 := rfl
    intro index inside
    omega
  have third : ∀ index < npt, index + 1 = 65535 → index + 1 = 3 := by
    have inNpt : npt = 31 := rfl
    intro index inside
    omega
  exact set_roundTrip coded (by decide : TianoCompress.np ≤ maxnp) (by decide) (by decide)
    (by decide : TianoCompress.np < 2 ^ TianoCompress.pbit) (by decide) agree third

/-- A block is read from its size, the codes of the characters, those of the positions and the
items: the two readers of codes follow each other, and the second one keeps what the first one
knows. -/
theorem sends_block {freqC freqP : Cells Nat} {treeC treeP : Tree} {rowC rowP : List Bool}
    (few : items.length < 2 ^ 16) (readsC : ReadsC freqC treeC rowC)
    (readsP : ReadsP freqP treeP rowP) (counted : ∀ item ∈ items, Counted freqC freqP item) :
    Sends (((bitsOf 16 items.length ++ rowC) ++ rowP) ++ items.flatMap (rowItem treeC treeP))
      items := by
  intro rest sd bits ahead
  rw [List.append_assoc, List.append_assoc, List.append_assoc] at ahead
  obtain ⟨number, behindNumber⟩ := ahead.getBits few (by decide)
  obtain ⟨first, withC, readFirst, readC, behindC, knowsC, keepsC⟩ := readsC _
    { sd with source := (getBits 16 sd.source).2, mBlockSize := items.length } behindNumber
  obtain ⟨ready, readP, later, knowsP, keepsP⟩ := readsP _ withC behindC
  have bitsC : withC.mPBit = TianoCompress.pbit := by rw [keepsC, bits]
  refine ⟨ready, ?_, ⟨freqC, treeC, freqP, treeP, ?_, knowsP, counted, ?_, few, later⟩, ?_⟩
  · rw [readBlock]
    simp only [Scratch.getBits, number]
    rw [readFirst, Except.bind, readC, Except.bind, bitsC]
    exact readP
  · have lens : ready.mCLen = withC.mCLen := by rw [keepsP.fields]
    have table : ready.mCTable = withC.mCTable := by rw [keepsP.fields]
    rw [lens]
    refine knowsC.kept table fun node inner => keepsP.nodes node ?_
    have places : 2 * npt ≤ nc := by decide
    exact places.trans inner
  · rw [keepsP.fields, keepsC]
  · constructor <;> rw [keepsP.fields, keepsC]

/-- The globals behind a block: the tree of the positions is the last one, and the counts of
characters and positions are cleared. -/
def behindBlock (huf : Huf) (treeP : Tree) : Huf :=
  { huf.treeP treeP with
    mCFreq := clearFreq TianoCompress.nc huf.mCFreq
    mPFreq := clearFreq TianoCompress.np treeP.freq }

/-- `SendBlock` comes to its end with the two trees that `MakeTree` makes, and puts out the size
of the block, the codes of the characters, those of the positions and the items. -/
theorem sendBlock_run {second : Huf} {treeC treeP : Tree} {stepC : Dst → Dst}
    (madeC : makeTree huf.globals (huf.stack huf.calls) nc huf.mCFreq huf.codes.mCLen
      huf.codes.mCCode = some treeC)
    (total : treeC.freq treeC.root = items.length)
    (sentC : ∀ dst, sendC treeC ((huf.treeC treeC).into dst) = some (second.into (stepC dst)))
    (madeP : makeTree second.globals (second.stack second.calls) TianoCompress.np second.mPFreq
      second.codes.mPTLen second.codes.mPTCode = some treeP)
    (collected : ∀ codes dst,
      sendItems codes second.mBuf items.length 0 0 (0, dst) = items.foldl (putItem codes) dst)
    (dst : Dst) :
    sendBlock (huf.into dst) = some ((behindBlock second treeP).into
      (items.foldl (putItem (second.treeP treeP).codes)
        (writeSet TianoCompress.np TianoCompress.pbit (-1) treeP
          (stepC (putBits 16 items.length dst))))) := by
  have made : (huf.into dst).makeTree TianoCompress.nc (huf.into dst).mCFreq
      (huf.into dst).codes.mCLen (huf.into dst).codes.mCCode = some treeC := madeC
  have restC : sendC treeC (((huf.into dst).treeC treeC).write
      (putBits 16 (treeC.freq treeC.root))) =
        some (second.into (stepC (putBits 16 (treeC.freq treeC.root) dst))) := sentC _
  have restP : ∀ dst, sendP (second.into dst) = some ((second.treeP treeP).into
      (writeSet TianoCompress.np TianoCompress.pbit (-1) treeP dst)) := by
    intro dst
    change Option.map _ (makeTree second.globals (second.stack second.calls) TianoCompress.np
      second.mPFreq second.codes.mPTLen second.codes.mPTCode) = _
    rw [madeP]
    rfl
  rw [sendBlock, made, Option.bind_some, restC, Option.bind_some, restP, Option.map_some, total,
    ← collected]
  rfl

/-- Behind a block nothing is counted. -/
theorem counts_behindBlock {second : Huf} {treeP : Tree}
    (narrowC : ∀ index, second.mCFreq index < 2 ^ 16)
    (narrowP : ∀ index, treeP.freq index < 2 ^ 16)
    (narrowT : ∀ index, second.mTFreq index < 2 ^ 16) :
    Counts [] (behindBlock second treeP) where
  characters _ inside := clearFreq_below _ inside
  positions _ inside := clearFreq_below _ inside
  narrowC := clearFreq_narrow narrowC
  narrowP := clearFreq_narrow narrowP
  narrowT := narrowT

/-- `SendBlock` ends, and the row it puts out sends the items that are collected. -/
theorem sendBlock_sends (counts : Counts items huf) (formed : ∀ item ∈ items, Formed item)
    (few : items.length < 2 ^ 16)
    (collected : ∀ codes dst,
      sendItems codes huf.mBuf items.length 0 0 (0, dst) = items.foldl (putItem codes) dst) :
    ∃ later : Huf, ∃ step row, (∀ dst, sendBlock (huf.into dst) = some (later.into (step dst))) ∧
      Puts step row ∧ Sends row items ∧ Counts [] later ∧ SameBuffer huf later := by
  obtain ⟨treeC, madeC, setC, narrowTreeC⟩ := makeTree_cases huf.globals (huf.stack huf.calls)
    huf.codes.mCLen huf.codes.mCCode (by decide : 0 < nc) (by decide) counts.narrowC
  have total := root_total setC
  rw [counts.sum fun item member => (formed item member).inC] at total
  replace total := total few
  obtain ⟨second, stepC, rowC, sentC, putsC, sameC, narrowT, readsC⟩ :=
    @sendC_roundTrip huf.mCFreq treeC (huf.treeC treeC) setC rfl counts.narrowT
  have freqC : second.mCFreq = treeC.freq := by rw [sameC]; rfl
  have freqP : second.mPFreq = huf.mPFreq := by rw [sameC]; rfl
  have mBuf : second.mBuf = huf.mBuf := by rw [sameC]; rfl
  obtain ⟨treeP, madeP, setP, narrowTreeP⟩ := makeTree_cases second.globals
    (second.stack second.calls) second.codes.mPTLen second.codes.mPTCode
    (by decide : 0 < TianoCompress.np) (by decide) counts.narrowP
  obtain ⟨rowP, putsP, readsP⟩ := sendP_reads setP
  have counted : ∀ item ∈ items, Counted huf.mCFreq huf.mPFreq item :=
    fun item member => counts.counted member (formed item member)
  have codes : (second.treeP treeP).codes =
      ⟨treeC.len, treeC.code, treeP.len, treeP.code⟩ := by
    change Codes.mk second.codes.mCLen second.codes.mCCode treeP.len treeP.code = _
    rw [sameC]
    rfl
  have putsItems := puts_items setC setP counted codes
  refine ⟨behindBlock second treeP, _, _,
    sendBlock_run madeC total sentC (freqP ▸ madeP) (mBuf ▸ collected),
    (((puts_putBits few).andThen putsC).andThen putsP).andThen putsItems,
    sends_block few readsC readsP counted,
    counts_behindBlock (freqC ▸ narrowTreeC) narrowTreeP narrowT, mBuf, ?_, ?_, ?_, ?_⟩
  · change second.mBufSiz = _
    rw [sameC]
    rfl
  · change second.mOutputPos = _
    rw [sameC]
    rfl
  · change second.mOutputMask = _
    rw [sameC]
    rfl
  · change second.cPos = _
    rw [sameC]
    rfl

end Blocks

end SmcPkg.UefiDecompress
