import SmcPkg.Compress.PTLenLaw

/-!
# The lengths of the characters

`WriteCLen` writes the lengths of the codes of the characters by the code of the extra set:
a symbol for a single zero, one for a run of up to 18 and one for a longer run, each with
the number behind it, and a symbol for every length. `CountTFreq` goes over the lengths in
the same way, so every symbol that is written is one that it has counted.
-/

namespace SmcPkg.UefiDecompress

open BitRows Cells PrefixCode TianoCompress

section Counts

variable {freq : Cells Nat} {symbol : Nat}

/-- A symbol is counted no more often than it is put out. -/
theorem bump_le (freq : Cells Nat) (index count symbol : Nat) :
    bump index count freq symbol ≤ freq symbol + count := by
  rw [bump, write_read]
  split
  · rename_i here
    rw [here]
    exact Nat.mod_le _ _
  · exact Nat.le_add_right _ _

/-- Where the sum fits sixteen bits no count is lost. -/
theorem le_bump {index count : Nat} (room : freq index + count < 2 ^ 16) (symbol : Nat) :
    freq symbol ≤ bump index count freq symbol := by
  rw [bump, write_read]
  split
  · rename_i here
    rw [here, Nat.mod_eq_of_lt room]
    exact Nat.le_add_right _ _
  · exact le_rfl

/-- A symbol that is put out is counted. -/
theorem bump_pos {index count : Nat} (room : freq index + count < 2 ^ 16) (positive : 0 < count) :
    bump index count freq index ≠ 0 := by
  rw [bump, write_same, Nat.mod_eq_of_lt room]
  omega

/-- The symbols that stand for a run of zeros. -/
def runSymbols (count : Nat) : List Nat :=
  if count ≤ 2 then [0] else if count ≤ 18 then [1] else if count = 19 then [0, 1] else [2]

/-- A run is counted for its symbols, and for none more often than it is long. -/
theorem countRun_spec (freq : Cells Nat) {count : Nat} (positive : 0 < count)
    (room : ∀ symbol < nt, freq symbol + count < 2 ^ 16) :
    (∀ symbol, freq symbol ≤ countRun count freq symbol ∧
      countRun count freq symbol ≤ freq symbol + count) ∧
    ∀ symbol ∈ runSymbols count, countRun count freq symbol ≠ 0 := by
  have inNt : nt = 19 := rfl
  have room0 := room 0 (by omega)
  have room1 := room 1 (by omega)
  have room2 := room 2 (by omega)
  rw [countRun, runSymbols]
  split
  · exact ⟨fun symbol => ⟨le_bump room0 symbol, bump_le _ _ _ _⟩,
      List.forall_mem_singleton.mpr (bump_pos room0 positive)⟩
  · split
    · exact ⟨fun symbol => ⟨le_bump (by omega : freq 1 + 1 < 2 ^ 16) symbol,
        (bump_le _ _ _ _).trans (by omega)⟩,
        List.forall_mem_singleton.mpr (bump_pos (by omega : freq 1 + 1 < 2 ^ 16) Nat.one_pos)⟩
    · split
      · have first : bump 0 1 freq 1 + 1 < 2 ^ 16 := by
          have atMost := bump_le freq 0 1 1
          omega
        refine ⟨fun symbol => ⟨(le_bump (by omega : freq 0 + 1 < 2 ^ 16) symbol).trans
          (le_bump first symbol), ?_⟩, ?_⟩
        · have atMost := bump_le freq 0 1 symbol
          have later := bump_le (bump 0 1 freq) 1 1 symbol
          omega
        · rw [List.forall_mem_cons, List.forall_mem_singleton]
          refine ⟨?_, bump_pos first Nat.one_pos⟩
          have counted := bump_pos (by omega : freq 0 + 1 < 2 ^ 16) Nat.one_pos
          have kept := le_bump first 0
          omega
      · exact ⟨fun symbol => ⟨le_bump (by omega : freq 2 + 1 < 2 ^ 16) symbol,
          (bump_le _ _ _ _).trans (by omega)⟩,
          List.forall_mem_singleton.mpr (bump_pos (by omega : freq 2 + 1 < 2 ^ 16) Nat.one_pos)⟩

/-- `CountTFreq` takes no count back. -/
theorem countTFreqLoop_mono (len : Cells Nat) {number rounds index : Nat}
    (short : ∀ i < number, len i ≤ 16)
    (room : ∀ symbol < nt, freq symbol + (number - index) < 2 ^ 16) (symbol : Nat) :
    freq symbol ≤ countTFreqLoop len number rounds index freq symbol := by
  induction rounds generalizing index freq with
  | zero => exact le_rfl
  | succ rounds inductionHypothesis =>
    rw [countTFreqLoop]
    split
    · rename_i more
      split
      · obtain ⟨-, bound⟩ := zeroRun_zeros len number number (index + 1)
        have inside : index + 1 + zeroRun len number number (index + 1) ≤ number := by
          by_cases none : zeroRun len number number (index + 1) = 0
          · omega
          · exact bound none
        generalize zeroRun len number number (index + 1) = count at inside ⊢
        have positive : 0 < count + 1 := Nat.succ_pos count
        have counted := countRun_spec freq positive fun symbol small => by
          have within := room symbol small
          omega
        refine (counted.1 symbol).1.trans (inductionHypothesis fun symbol small => ?_)
        have within := room symbol small
        have atMost := (counted.1 symbol).2
        omega
      · have inNt : nt = 19 := rfl
        have bounded := short index more
        refine (le_bump ?_ symbol).trans (inductionHypothesis fun symbol small => ?_)
        · have within := room (len index + 2) (by omega)
          omega
        · have within := room symbol small
          have atMost := bump_le freq (len index + 2) 1 symbol
          omega
    · exact le_rfl

end Counts

section Reading

/-- A row of bits tells the lengths from an index up to another one. -/
def Reads (number : Nat) (freq : Cells Nat) (extra : Tree) (len : Cells Nat) (row : List Bool)
    (index next : Nat) : Prop :=
  ∀ rest sd rounds, number - index ≤ rounds → Ahead (row ++ rest) sd.source →
    Knows nt nt 8 freq extra sd.tablesPT sd.mPTLen → (∀ i < index, sd.mCLen i = len i) →
    ∃ source mCLen fewer,
      readCLenLoop number rounds index sd =
        readCLenLoop number fewer next { sd with source := source, mCLen := mCLen } ∧
      number - next ≤ fewer ∧ Ahead rest source ∧ ∀ i < next, mCLen i = len i

variable {number : Nat} {freq : Cells Nat} {extra : Tree} {len : Cells Nat}
  {row more : List Bool} {index next last symbol : Nat}

/-- Without a bit nothing is read. -/
theorem Reads.refl : Reads number freq extra len [] index index :=
  fun _ sd rounds enough ahead _ before =>
    ⟨sd.source, sd.mCLen, rounds, rfl, enough, ahead, before⟩

/-- What reads two ranges of lengths reads them together. -/
theorem Reads.trans (first : Reads number freq extra len row index next)
    (second : Reads number freq extra len more next last) :
    Reads number freq extra len (row ++ more) index last := by
  intro rest sd rounds enough ahead knows before
  rw [List.append_assoc] at ahead
  obtain ⟨source, mCLen, fewer, ran, enoughNext, behind, lens⟩ :=
    first _ sd rounds enough ahead knows before
  obtain ⟨sourceLast, mCLenLast, fewerLast, ranLast, enoughLast, behindLast, lensLast⟩ :=
    second _ { sd with source := source, mCLen := mCLen } fewer enoughNext behind knows lens
  exact ⟨sourceLast, mCLenLast, fewerLast, ran.trans ranLast, enoughLast, behindLast, lensLast⟩

/-- The bits of a symbol of the extra set. -/
def rowT (extra : Tree) (symbol : Nat) : List Bool := bitsOf (extra.len symbol) (extra.code symbol)

/-- A symbol of the extra set is read. -/
theorem symbolT_row {sd : Scratch} {rest : List Bool}
    (knows : Knows nt nt 8 freq extra sd.tablesPT sd.mPTLen) (inside : symbol < nt)
    (occurs : freq symbol ≠ 0) (ahead : Ahead (rowT extra symbol ++ rest) sd.source) :
    ∃ source, sd.symbolT = some (symbol, source) ∧ Ahead rest source := by
  have passed := ahead.fillBuf
  rw [rowT, bitsOf_length] at passed
  refine ⟨_, ?_, passed⟩
  rw [Scratch.symbolT, knows.found symbol inside occurs rest _ ahead, Option.map_some,
    knows.lens symbol inside occurs]

/-- The bits of a length. -/
theorem reads_length (few : number ≤ nc) (within : index < number) (short : len index ≤ 16)
    (coded : len index ≠ 0) (occurs : freq (len index + 2) ≠ 0) :
    Reads number freq extra len (rowT extra (len index + 2)) index (index + 1) := by
  intro rest sd rounds enough ahead knows before
  have inNt : nt = 19 := rfl
  have inside : len index + 2 < nt := by omega
  obtain ⟨source, found, behind⟩ := symbolT_row knows inside occurs ahead
  obtain ⟨rounds, rfl⟩ : ∃ fewer, rounds = fewer + 1 := ⟨rounds - 1, by omega⟩
  have going : index < number ∧ index < nc := ⟨within, by omega⟩
  have long : ¬len index + 2 ≤ 2 := by omega
  have value : (len index + 2 - 2) % 2 ^ 8 = len index := by omega
  refine ⟨source, sd.mCLen.write index (len index), rounds, ?_, by omega, behind,
    fun i below => ?_⟩
  · rw [readCLenLoop, if_pos going, found]
    simp only [if_neg long, value]
  · by_cases here : i = index
    · rw [here, write_same]
    · rw [write_other here]
      exact before i (by omega)

/-- The bits of some zeros. -/
theorem reads_zeros {count : Nat} {behindSymbol : List Bool} (few : number ≤ nc)
    (positive : 0 < count) (within : index + count ≤ number)
    (zeros : ∀ i, index ≤ i → i < index + count → len i = 0) (small : symbol ≤ 2)
    (occurs : freq symbol ≠ 0)
    (counted : ∀ rest source, Ahead (behindSymbol ++ rest) source →
      (zerosOf symbol source).1 = count ∧ Ahead rest (zerosOf symbol source).2) :
    Reads number freq extra len (rowT extra symbol ++ behindSymbol) index (index + count) := by
  intro rest sd rounds enough ahead knows before
  have inNt : nt = 19 := rfl
  rw [List.append_assoc] at ahead
  obtain ⟨source, found, behind⟩ := symbolT_row knows (by omega) occurs ahead
  obtain ⟨amount, later⟩ := counted _ _ behind
  obtain ⟨rounds, rfl⟩ : ∃ fewer, rounds = fewer + 1 := ⟨rounds - 1, by omega⟩
  have going : index < number ∧ index < nc := by omega
  have all : min count (nc - index) = count := by omega
  refine ⟨(zerosOf symbol source).2, zeroLens index (index + count) sd.mCLen, rounds, ?_, by omega,
    later, fun i below => ?_⟩
  · rw [readCLenLoop, if_pos going, found]
    simp only [if_pos small, amount, all]
  · by_cases zero : index ≤ i
    · exact (if_pos ⟨zero, below⟩).trans (zeros i zero below).symm
    · exact (if_neg fun both => zero both.1).trans (before i (by omega))

/-- The bits of one zero. -/
theorem reads_zero (few : number ≤ nc) (within : index + 1 ≤ number) (zero : len index = 0)
    (occurs : freq 0 ≠ 0) : Reads number freq extra len (rowT extra 0) index (index + 1) := by
  have zeros : ∀ i, index ≤ i → i < index + 1 → len i = 0 := by
    intro i above below
    have same : i = index := by omega
    rw [same]
    exact zero
  have read : Reads number freq extra len (rowT extra 0 ++ []) index (index + 1) :=
    reads_zeros few Nat.one_pos within zeros (Nat.zero_le 2) occurs
      fun rest source ahead => ⟨rfl, ahead⟩
  rwa [List.append_nil] at read

/-- A run of zeros is written so that it is read. -/
theorem writeRun_reads {count : Nat} (few : number ≤ nc) (positive : 0 < count)
    (within : index + count ≤ number)
    (zeros : ∀ i, index ≤ i → i < index + count → len i = 0)
    (occurs : ∀ symbol ∈ runSymbols count, freq symbol ≠ 0)
    (fits : ∀ symbol < nt, freq symbol ≠ 0 → extra.code symbol < 2 ^ extra.len symbol) :
    ∃ row, Puts (writeRun extra.len extra.code count) row ∧
      Reads number freq extra len row index (index + count) := by
  have inNc : nc = 510 := rfl
  have puts : ∀ {symbol}, symbol < nt → freq symbol ≠ 0 →
      Puts (putBits (extra.len symbol) (extra.code symbol)) (rowT extra symbol) :=
    fun inside counted => puts_putBits (fits _ inside counted)
  by_cases two : count ≤ 2
  · have zeroOccurs : freq 0 ≠ 0 := occurs 0 (by rw [runSymbols, if_pos two]; simp)
    have writes : writeRun extra.len extra.code count = fun dst =>
        (List.range count).foldl (fun dst _ => putBits (extra.len 0) (extra.code 0) dst) dst := by
      funext dst
      rw [writeRun, if_pos two]
    rw [writes]
    by_cases one : count = 1
    · subst one
      exact ⟨_, puts (by decide) zeroOccurs,
        reads_zero few within (zeros index le_rfl (by omega)) zeroOccurs⟩
    · have both : count = 2 := by omega
      subst both
      exact ⟨_, (puts (by decide) zeroOccurs).andThen (puts (by decide) zeroOccurs),
        (reads_zero few (by omega) (zeros index le_rfl (by omega)) zeroOccurs).trans
          (reads_zero few within (zeros (index + 1) (by omega) (by omega)) zeroOccurs)⟩
  · by_cases eighteen : count ≤ 18
    · have oneOccurs : freq 1 ≠ 0 :=
        occurs 1 (by rw [runSymbols, if_neg two, if_pos eighteen]; simp)
      have writes : writeRun extra.len extra.code count = fun dst =>
          putBits 4 (count - 3) (putBits (extra.len 1) (extra.code 1) dst) := by
        funext dst
        rw [writeRun, if_neg two, if_pos eighteen]
      rw [writes]
      refine ⟨_, (puts (by decide) oneOccurs).andThen (puts_putBits (by omega)),
        reads_zeros few positive within zeros (by decide) oneOccurs fun rest source ahead => ?_⟩
      obtain ⟨value, behind⟩ := ahead.getBits (by omega) (by decide)
      exact ⟨by change (getBits 4 source).1 + 3 = count; omega, behind⟩
    · by_cases nineteen : count = 19
      · subst nineteen
        have oneOccurs : freq 1 ≠ 0 := occurs 1 (by decide)
        have zeroOccurs : freq 0 ≠ 0 := occurs 0 (by decide)
        refine ⟨_, ((puts (by decide) zeroOccurs).andThen (puts (by decide) oneOccurs)).andThen
          (puts_putBits (by decide : 15 < 2 ^ 4)), ?_⟩
        rw [List.append_assoc]
        refine (reads_zero few (by omega) (zeros index le_rfl (by omega)) zeroOccurs).trans ?_
        have place : index + 19 = index + 1 + 18 := by omega
        rw [place]
        refine reads_zeros few (by decide) (by omega) (fun i above below => ?_) (by decide)
          oneOccurs fun rest source ahead => ?_
        · exact zeros i (by omega) (by omega)
        · obtain ⟨value, behind⟩ := ahead.getBits (by decide) (by decide)
          exact ⟨by change (getBits 4 source).1 + 3 = 18; omega, behind⟩
      · have twoOccurs : freq 2 ≠ 0 := occurs 2
          (by rw [runSymbols, if_neg two, if_neg eighteen, if_neg nineteen]; simp)
        have writes : writeRun extra.len extra.code count = fun dst =>
            putBits TianoCompress.cbit (count - 20)
              (putBits (extra.len 2) (extra.code 2) dst) := by
          funext dst
          rw [writeRun, if_neg two, if_neg eighteen, if_neg nineteen]
        have width : TianoCompress.cbit = 9 := rfl
        rw [writes, width]
        refine ⟨_, (puts (by decide) twoOccurs).andThen (puts_putBits (by omega)),
          reads_zeros few positive within zeros le_rfl twoOccurs fun rest source ahead => ?_⟩
        obtain ⟨value, behind⟩ := ahead.getBits (by omega) (by decide)
        exact ⟨by change (getBits 9 source).1 + 20 = count; omega, behind⟩

/-- What `CountTFreq` has counted when it comes to an index stays counted to its end. -/
theorem le_of_counted (len : Cells Nat) (short : ∀ i < number, len i ≤ 16) {rounds : Nat}
    {start : Cells Nat} (room : ∀ symbol < nt, start symbol + (number - index) < 2 ^ 16)
    (counted : countTFreqLoop len number rounds index start = freq) (symbol : Nat) :
    start symbol ≤ freq symbol :=
  counted ▸ countTFreqLoop_mono len short room symbol

/-- A run of zeros from an index on is written with symbols that `CountTFreq` has counted, and
leaves the counts the room that the lengths behind it need. -/
theorem zeros_step (len : Cells Nat) (few : number ≤ nc) (short : ∀ i < number, len i ≤ 16)
    (fits : ∀ symbol < nt, freq symbol ≠ 0 → extra.code symbol < 2 ^ extra.len symbol)
    {count rounds : Nat} (within : index + 1 + count ≤ number)
    (zero : len index = 0) (zeros : ∀ i, index + 1 ≤ i → i < index + 1 + count → len i = 0)
    (start : Cells Nat) (room : ∀ symbol < nt, start symbol + (number - index) < 2 ^ 16)
    (counted : countTFreqLoop len number rounds (index + 1 + count)
      (countRun (count + 1) start) = freq) :
    (∀ symbol < nt, countRun (count + 1) start symbol + (number - (index + 1 + count)) <
        2 ^ 16) ∧
      ∃ row, Puts (writeRun extra.len extra.code (count + 1)) row ∧
        Reads number freq extra len row index (index + 1 + count) := by
  have positive : 0 < count + 1 := Nat.succ_pos count
  obtain ⟨counts, occurs⟩ := countRun_spec start positive fun symbol small => by
    have spare := room symbol small
    omega
  have roomNext : ∀ symbol < nt, countRun (count + 1) start symbol +
      (number - (index + 1 + count)) < 2 ^ 16 := fun symbol small => by
    have spare := room symbol small
    have atMost := (counts symbol).2
    omega
  have place : index + (count + 1) = index + 1 + count := by omega
  have allZero : ∀ i, index ≤ i → i < index + (count + 1) → len i = 0 := by
    intro i above below
    by_cases first : i = index
    · rw [first]
      exact zero
    · exact zeros i (by omega) (by omega)
  have occursAll : ∀ symbol ∈ runSymbols (count + 1), freq symbol ≠ 0 := by
    intro symbol member
    have first := occurs symbol member
    have later := le_of_counted len short roomNext counted symbol
    omega
  have run := writeRun_reads few positive (by omega) allZero occursAll fits
  rw [place] at run
  exact ⟨roomNext, run⟩

/-- A length that is not 0 is written with the symbol that `CountTFreq` has counted for it, and
leaves the counts the room that the lengths behind it need. -/
theorem length_step (len : Cells Nat) (few : number ≤ nc) (short : ∀ i < number, len i ≤ 16)
    (fits : ∀ symbol < nt, freq symbol ≠ 0 → extra.code symbol < 2 ^ extra.len symbol)
    {rounds : Nat} (more : index < number) (nonzero : len index ≠ 0) (start : Cells Nat)
    (room : ∀ symbol < nt, start symbol + (number - index) < 2 ^ 16)
    (counted : countTFreqLoop len number rounds (index + 1)
      (bump (len index + 2) 1 start) = freq) :
    (∀ symbol < nt, bump (len index + 2) 1 start symbol + (number - (index + 1)) < 2 ^ 16) ∧
      ∃ row, Puts (putBits (extra.len (len index + 2)) (extra.code (len index + 2))) row ∧
        Reads number freq extra len row index (index + 1) := by
  have inNt : nt = 19 := rfl
  have bounded := short index more
  have roomNext : ∀ symbol < nt, bump (len index + 2) 1 start symbol +
      (number - (index + 1)) < 2 ^ 16 := fun symbol small => by
    have spare := room symbol small
    have atMost := bump_le start (len index + 2) 1 symbol
    omega
  have kept := le_of_counted len short roomNext counted (len index + 2)
  have spare := room (len index + 2) (by omega)
  have first : bump (len index + 2) 1 start (len index + 2) ≠ 0 :=
    bump_pos (by omega) Nat.one_pos
  have occurs : freq (len index + 2) ≠ 0 := by omega
  exact ⟨roomNext, _, puts_putBits (fits _ (by omega) occurs),
    reads_length few more bounded nonzero occurs⟩

/-- The loop of `WriteCLen` is undone by that of `ReadCLen`, with a code of what `CountTFreq`
has counted. The induction is on the rounds that the two loops of the encoder have in common:
one that counts the symbols, and one that writes them. -/
theorem cLoops (len : Cells Nat) (few : number ≤ nc) (short : ∀ i < number, len i ≤ 16)
    (fits : ∀ symbol < nt, freq symbol ≠ 0 → extra.code symbol < 2 ^ extra.len symbol)
    {rounds : Nat} (inside : index ≤ number) (enough : number - index ≤ rounds)
    (start : Cells Nat) (room : ∀ symbol < nt, start symbol + (number - index) < 2 ^ 16)
    (counted : countTFreqLoop len number rounds index start = freq) :
    ∃ row, Puts (writeCLenLoop len extra.len extra.code number rounds index) row ∧
      Reads number freq extra len row index number := by
  induction rounds generalizing index start with
  | zero =>
    have last : index = number := by omega
    rw [last]
    exact ⟨[], puts_nothing, Reads.refl⟩
  | succ rounds inductionHypothesis =>
    rw [countTFreqLoop] at counted
    by_cases more : index < number
    · rw [if_pos more] at counted
      by_cases zero : len index = 0
      · obtain ⟨zeros, bound⟩ := zeroRun_zeros len number number (index + 1)
        have within : index + 1 + zeroRun len number number (index + 1) ≤ number := by
          by_cases none : zeroRun len number number (index + 1) = 0
          · omega
          · exact bound none
        have writes : writeCLenLoop len extra.len extra.code number (rounds + 1) index =
            fun dst => writeCLenLoop len extra.len extra.code number rounds
              (index + 1 + zeroRun len number number (index + 1))
              (writeRun extra.len extra.code (zeroRun len number number (index + 1) + 1) dst) := by
          funext dst
          rw [writeCLenLoop, if_pos more, if_pos zero]
        rw [if_pos zero] at counted
        rw [writes]
        obtain ⟨roomNext, row, puts, reads⟩ :=
          zeros_step len few short fits within zero zeros start room counted
        obtain ⟨rowNext, putsNext, readsNext⟩ :=
          inductionHypothesis within (by omega) _ roomNext counted
        exact ⟨_, puts.andThen putsNext, reads.trans readsNext⟩
      · have writes : writeCLenLoop len extra.len extra.code number (rounds + 1) index =
            fun dst => writeCLenLoop len extra.len extra.code number rounds (index + 1)
              (putBits (extra.len (len index + 2)) (extra.code (len index + 2)) dst) := by
          funext dst
          rw [writeCLenLoop, if_pos more, if_neg zero]
        rw [if_neg zero] at counted
        rw [writes]
        obtain ⟨roomNext, row, puts, reads⟩ :=
          length_step len few short fits more zero start room counted
        obtain ⟨rowNext, putsNext, readsNext⟩ :=
          inductionHypothesis more (by omega) _ roomNext counted
        exact ⟨_, puts.andThen putsNext, reads.trans readsNext⟩
    · have last : index = number := by omega
      have writes : writeCLenLoop len extra.len extra.code number (rounds + 1) index = id := by
        funext dst
        rw [writeCLenLoop, if_neg more]
        rfl
      rw [writes, last]
      exact ⟨[], puts_nothing, Reads.refl⟩

/-- At the last length the loop ends. -/
theorem readCLenLoop_done (rounds : Nat) (sd : Scratch) :
    readCLenLoop number rounds number sd = .ok (number, sd) := by
  cases rounds with
  | zero => rfl
  | succ rounds => rw [readCLenLoop, if_neg fun more => lt_irrefl number more.1]

end Reading

section Sets

variable {freqC freqT mTFreq : Cells Nat} {tree extra : Tree}

/-- Where the table can be made it is taken. -/
theorem makeC_made (sd : Scratch) {tables : Tables}
    (made : makeTable nc sd.mCLen 12 sd.tablesC = some tables) :
    sd.makeC = { sd with
      mCTable := tables.table, mLeft := tables.mLeft, mRight := tables.mRight } :=
  congrArg (fun found : Option Tables => found.elim sd fun tables =>
    { sd with mCTable := tables.table, mLeft := tables.mLeft, mRight := tables.mRight }) made

/-- A set of one character is read. -/
theorem readCLen_single {charC : Nat} {rest : List Bool} (sd : Scratch) (fits : charC < 2 ^ cbit)
    (ahead : Ahead (bitsOf cbit 0 ++ (bitsOf cbit charC ++ rest)) sd.source) :
    ∃ later, readCLen sd = .ok later ∧ Ahead rest later.source ∧
      later = { sd with
        source := later.source
        mCLen := zeroLens 0 nc sd.mCLen
        mCTable := ⟨fun _ => charC⟩ } := by
  obtain ⟨number, behind⟩ := ahead.getBits (Nat.two_pow_pos cbit) (by decide)
  obtain ⟨symbol, later⟩ := behind.getBits fits (by decide)
  refine ⟨{ sd with
      source := (getBits cbit (getBits cbit sd.source).2).2
      mCLen := zeroLens 0 nc sd.mCLen
      mCTable := ⟨fun _ => charC⟩ }, ?_, later, rfl⟩
  rw [readCLen]
  simp only [Scratch.getBits, number, if_true, symbol]

/-- The lengths of the characters are read back with the codes of the characters. -/
theorem writeCLen_roundTrip (coded : Coded nc freqC tree)
    (counted : countTFreq tree.len mTFreq = freqT)
    (fits : ∀ symbol < nt, freqT symbol ≠ 0 → extra.code symbol < 2 ^ extra.len symbol) :
    ∃ row, Puts (writeCLen tree.len extra.len extra.code) row ∧
      ∀ rest sd, Ahead (row ++ rest) sd.source →
        Knows nt nt 8 freqT extra sd.tablesPT sd.mPTLen →
        ∃ later, readCLen sd = .ok later ∧ Ahead rest later.source ∧
          Knows nc nc 12 freqC tree later.tablesC later.mCLen ∧
          later = { sd with
            source := later.source
            mCLen := later.mCLen
            mCTable := later.mCTable
            mLeft := later.mLeft
            mRight := later.mRight } := by
  have inNc : nc = 510 := rfl
  have inNcWritten : TianoCompress.nc = 510 := rfl
  have width : 2 ^ TianoCompress.cbit = 512 := rfl
  obtain ⟨atMost, zeros⟩ := trimZeros_spec tree.len TianoCompress.nc
  have loop : countTFreqLoop tree.len (trimZeros tree.len TianoCompress.nc) TianoCompress.nc 0
      (clearFreq TianoCompress.nt mTFreq) = freqT := counted
  have writes : writeCLen tree.len extra.len extra.code = fun dst =>
      writeCLenLoop tree.len extra.len extra.code (trimZeros tree.len TianoCompress.nc)
        TianoCompress.nc 0
        (putBits TianoCompress.cbit (trimZeros tree.len TianoCompress.nc) dst) := rfl
  rw [writes]
  generalize trimZeros tree.len TianoCompress.nc = count at atMost zeros loop ⊢
  have positive : count ≠ 0 := by
    intro none
    obtain ⟨s, used, -⟩ := exists_starts coded.complete (Nat.two_pow_pos 16)
    exact used.2 (zeros s (by omega) used.1)
  have room : ∀ symbol < nt,
      clearFreq TianoCompress.nt mTFreq symbol + (count - 0) < 2 ^ 16 := by
    intro symbol small
    have cleared : clearFreq TianoCompress.nt mTFreq symbol = 0 := if_pos small
    omega
  obtain ⟨row, puts, reads⟩ := cLoops tree.len (by omega)
    (fun i below => coded.complete.short i (by omega)) fits (Nat.zero_le count) atMost _ room loop
  refine ⟨_, (puts_putBits (by omega)).andThen puts, fun rest sd ahead knows => ?_⟩
  rw [List.append_assoc] at ahead
  obtain ⟨number, behind⟩ := ahead.getBits (by omega) (by decide)
  obtain ⟨source, mCLen, fewer, ran, -, later, lens⟩ := reads rest
    { sd with source := (getBits cbit sd.source).2 } nc (by omega) behind knows
    (fun i below => absurd below (Nat.not_lt_zero i))
  rw [readCLenLoop_done] at ran
  have first : ∀ s < nc, zeroLens count nc mCLen s = tree.len s := by
    intro s inside
    by_cases read : s < count
    · exact (if_neg fun both => Nat.not_le_of_lt read both.1).trans (lens s read)
    · refine (if_pos ⟨Nat.le_of_not_lt read, inside⟩).trans ?_
      exact (zeros s (Nat.le_of_not_lt read) inside).symm
  obtain ⟨tables, made, knowsC, -⟩ := knows_of_coded
    (Scratch.tablesC { sd with source := source, mCLen := zeroLens count nc mCLen }) coded le_rfl
    first (fun s above below => absurd below (Nat.not_lt_of_le above)) (by decide : 0 < 12)
    (by decide) (by decide) (by decide)
  refine ⟨{ sd with
      source := source
      mCLen := zeroLens count nc mCLen
      mCTable := tables.table
      mLeft := tables.mLeft
      mRight := tables.mRight }, ?_, later, knowsC, rfl⟩
  have numberRead : (getBits cbit sd.source).1 = count := number
  rw [readCLen]
  simp only [Scratch.getBits, numberRead, if_neg positive]
  rw [ran, Except.map, makeC_made { sd with
    source := source, mCLen := zeroLens count nc mCLen } made]

/-- The counts stay words of 16 bits. -/
theorem countTFreq_narrow (len : Cells Nat) (narrow : ∀ index, mTFreq index < 2 ^ 16)
    (index : Nat) : countTFreq len mTFreq index < 2 ^ 16 := by
  have bumped : ∀ (freq : Cells Nat) (place count : Nat), (∀ index, freq index < 2 ^ 16) →
      ∀ index, bump place count freq index < 2 ^ 16 := by
    intro freq place count before index
    rw [bump, write_read]
    split
    · exact Nat.mod_lt _ (Nat.two_pow_pos 16)
    · exact before index
  have general : ∀ rounds place (freq : Cells Nat), (∀ index, freq index < 2 ^ 16) →
      ∀ index, countTFreqLoop len (trimZeros len TianoCompress.nc) rounds place freq index <
        2 ^ 16 := by
    intro rounds
    induction rounds with
    | zero => exact fun place freq before => before
    | succ rounds inductionHypothesis =>
      intro place freq before
      rw [countTFreqLoop]
      split
      · split
        · refine inductionHypothesis _ _ ?_
          rw [countRun]
          split
          · exact bumped _ _ _ before
          · split
            · exact bumped _ _ _ before
            · split
              · exact bumped _ _ _ (bumped _ _ _ before)
              · exact bumped _ _ _ before
        · exact inductionHypothesis _ _ (bumped _ _ _ before)
      · exact before
  refine general _ _ _ (fun index => ?_) index
  change (if index < TianoCompress.nt then 0 else mTFreq index) < 2 ^ 16
  split
  · exact Nat.two_pow_pos 16
  · exact narrow index

/-- The part of a block for the codes of the characters is read back. -/
theorem sendC_roundTrip {huf : Huf} (coded : Coded nc freqC tree ∨ Alone nc freqC tree)
    (lens : huf.codes.mCLen = tree.len) (narrow : ∀ index, huf.mTFreq index < 2 ^ 16) :
    ∃ later : Huf, ∃ step row, (∀ dst, sendC tree (huf.into dst) = some (later.into (step dst))) ∧
      Puts step row ∧
      later = { huf with
        globals := later.globals
        calls := later.calls
        mTFreq := later.mTFreq
        codes := { huf.codes with
          mPTLen := later.codes.mPTLen
          mPTCode := later.codes.mPTCode } } ∧
      (∀ index, later.mTFreq index < 2 ^ 16) ∧
      ∀ rest sd, Ahead (row ++ rest) sd.source →
        ∃ first second, readPTLen nt tbit 3 sd = .ok first ∧ readCLen first = .ok second ∧
          Ahead rest second.source ∧ Knows nc nc 12 freqC tree second.tablesC second.mCLen ∧
          second = { sd with
            source := second.source
            mCLen := second.mCLen
            mCTable := second.mCTable
            mPTTable := second.mPTTable
            mPTLen := second.mPTLen
            mLeft := second.mLeft
            mRight := second.mRight } := by
  have agree : ∀ index < npt, ((index + 1 : Nat) : Int) = 3 ↔ index + 1 = 3 := by
    intro index _
    omega
  rcases coded with coded | alone
  · obtain ⟨extra, made, set, narrowT⟩ := makeTree_cases huf.globals (huf.stack huf.calls)
      huf.codes.mPTLen huf.codes.mPTCode (by decide : 0 < nt) (by decide)
      (countTFreq_narrow tree.len narrow)
    obtain ⟨rowSet, putsSet, readsSet⟩ := set_roundTrip set (le_refl nt) (by decide) (by decide)
      (by decide : nt < 2 ^ tbit) (by decide) agree (fun _ _ third => third)
    have fits : ∀ symbol < nt, countTFreq tree.len huf.mTFreq symbol ≠ 0 →
        extra.code symbol < 2 ^ extra.len symbol := fun _ => code_fits set
    obtain ⟨rowC, putsC, readsC⟩ := writeCLen_roundTrip coded rfl fits
    refine ⟨huf.treeT extra, _, _, fun dst => ?_, putsSet.andThen putsC, rfl, narrowT,
      fun rest sd ahead => ?_⟩
    · refine (if_pos (coded.inner : TianoCompress.nc ≤ tree.root)).trans ?_
      change Option.map _ (makeTree huf.globals (huf.stack huf.calls) nt
        (countTFreq huf.codes.mCLen huf.mTFreq) huf.codes.mPTLen huf.codes.mPTCode) = _
      rw [lens, made, Option.map_some, ← lens]
      rfl
    · rw [List.append_assoc] at ahead
      obtain ⟨first, readFirst, behind, knowsT, kept⟩ := readsSet _ sd ahead
      obtain ⟨second, readSecond, later, knowsC, same⟩ := readsC rest first behind knowsT
      refine ⟨first, second, readFirst, readSecond, later, knowsC, ?_⟩
      rw [same, kept.fields]
  · have root := alone.root
    have inNc : nc = 510 := rfl
    have width : 2 ^ cbit = 512 := rfl
    have zero5 : (0 : Nat) < 2 ^ tbit := Nat.two_pow_pos tbit
    have zero9 : (0 : Nat) < 2 ^ cbit := Nat.two_pow_pos cbit
    have fits : tree.root < 2 ^ cbit := by omega
    refine ⟨huf, _, _, fun dst => if_neg (Nat.not_le_of_lt alone.root),
      (((puts_putBits zero5).andThen (puts_putBits zero5)).andThen (puts_putBits zero9)).andThen
        (puts_putBits fits), rfl, narrow, fun rest sd ahead => ?_⟩
    rw [List.append_assoc, List.append_assoc, List.append_assoc] at ahead
    obtain ⟨first, readFirst, behindFirst, sameFirst⟩ :=
      readPTLen_single nt 3 sd zero5 (by decide) ahead
    obtain ⟨second, readSecond, later, same⟩ := readCLen_single first fits behindFirst
    have zeros : ∀ s < nc, zeroLens 0 nc first.mCLen s = 0 :=
      fun s inside => if_pos ⟨Nat.zero_le s, inside⟩
    refine ⟨first, second, readFirst, readSecond, later, ?_, ?_⟩
    · rw [same]
      exact knows_of_alone alone le_rfl zeros
    · rw [same, sameFirst]

end Sets

end SmcPkg.UefiDecompress
