import SmcPkg.Compress.MakeLenLaw

/-!
# What `MakeTree` returns

Where two symbols occur, a call gives each of them a code and no other symbol one. The codes
leave nothing of the numbers of 16 bits out, and they are those that the lengths alone
determine.
-/

namespace SmcPkg.TianoCompress

open BitRows Cells PrefixCode

section Numbers

variable {mLenCnt len code : Cells Nat} {start0 : Nat}

/-- The first code of a length depends on the shorter lengths only. -/
theorem start_congr {first second : Nat → Nat} {length : Nat}
    (same : ∀ index, 0 < index → index < length → first index = second index) :
    start first length = start second length := by
  induction length using Nat.twoStepInduction with
  | zero => rfl
  | one => rfl
  | more length _ inductionHypothesis =>
    rw [start, start, same _ (Nat.succ_pos length) (Nat.lt_succ_self _),
      inductionHypothesis fun index positive below =>
        same index positive (Nat.lt_succ_of_lt below)]

/-- The first codes are counted in sixteen bits. -/
theorem startOf_start {length : Nat} (positive : 0 < length) :
    startOf start0 mLenCnt length = start mLenCnt length % 2 ^ 16 := by
  induction length using Nat.twoStepInduction with
  | zero => exact absurd positive (lt_irrefl 0)
  | one => rfl
  | more length _ inductionHypothesis =>
    rw [startOf, start, inductionHypothesis (Nat.succ_pos length), Nat.shiftLeft_eq, Nat.pow_one]
    omega

/-- The codes that have been numbered, and the next one of each length. -/
theorem numberCode_run (number : Nat) :
    (∀ length, 0 < length →
      ((List.range number).foldl (numberCode len) (⟨startOf start0 mLenCnt⟩, code)).1 length =
        (start mLenCnt length + count len number length) % 2 ^ 16) ∧
    ∀ symbol < number, len symbol ≠ 0 →
      ((List.range number).foldl (numberCode len) (⟨startOf start0 mLenCnt⟩, code)).2 symbol =
        (start mLenCnt (len symbol) + rank len symbol) % 2 ^ 16 := by
  induction number with
  | zero =>
    refine ⟨fun length positive => ?_, fun symbol below => absurd below (Nat.not_lt_zero symbol)⟩
    exact startOf_start positive
  | succ number inductionHypothesis =>
    obtain ⟨next, numbered⟩ := inductionHypothesis
    rw [List.range_succ, List.foldl_append, List.foldl_cons, List.foldl_nil]
    refine ⟨fun length positive => ?_, fun symbol below coded => ?_⟩
    · rw [numberCode, write_read, count_succ]
      by_cases here : length = len number
      · rw [if_pos here, ← here, next length positive, if_pos rfl, Nat.mod_add_mod, Nat.add_assoc]
      · rw [if_neg here, next length positive, if_neg (Ne.symm here), Nat.add_zero]
    · rw [numberCode, write_read]
      by_cases last : symbol = number
      · subst last
        rw [if_pos rfl, next _ (Nat.pos_of_ne_zero coded), rank]
      · rw [if_neg last, numbered symbol (by omega) coded]

/-- `MakeCode` numbers the codes as the lengths determine them. -/
theorem makeCode_code {number symbol : Nat} (complete : Complete 16 number len)
    (counted : ∀ length, 0 < length → length ≤ 16 → count len number length = mLenCnt length)
    (used : Used len number symbol) :
    makeCode number start0 mLenCnt len code symbol = PrefixCode.code len number symbol := by
  have short := complete.short symbol used.1
  have numbers : start mLenCnt (len symbol) = start (count len number) (len symbol) :=
    start_congr fun length positive below => (counted length positive (by omega)).symm
  have small : PrefixCode.code len number symbol < 2 ^ 16 :=
    (code_lt complete used).trans_le (Nat.pow_le_pow_right (by decide) short)
  rw [makeCode, (numberCode_run number).2 symbol used.1 used.2, numbers, ← PrefixCode.code,
    Nat.mod_eq_of_lt small]

end Numbers

section Lengths

variable {freq mLenCnt code mLen : Cells Nat} {n : Nat}

/-- The lengths of the symbols, when the sorted ones are those that occur. -/
theorem assignLens_lengths (mLen : Cells Nat)
    (sorted : (row code 0 (lengthRow mLenCnt 16).length).Perm
    (occurring freq n)) (symbol : Nat) (inside : symbol < n) :
    (freq symbol ≠ 0 → 0 < assignLens code (lengthRow mLenCnt 16) 0 (clearLens n mLen) symbol ∧
      assignLens code (lengthRow mLenCnt 16) 0 (clearLens n mLen) symbol ≤ 16) ∧
    (freq symbol = 0 →
      assignLens code (lengthRow mLenCnt 16) 0 (clearLens n mLen) symbol = 0) := by
  have distinct : (row code 0 (lengthRow mLenCnt 16).length).Nodup :=
    sorted.nodup_iff.mpr (List.nodup_range.filter _)
  constructor
  · intro occurs
    have member : symbol ∈ row code 0 (lengthRow mLenCnt 16).length := by
      rw [sorted.mem_iff, occurring, List.mem_filter]
      exact ⟨List.mem_range.mpr inside, by simpa using occurs⟩
    have image := List.mem_map_of_mem (f := assignLens code (lengthRow mLenCnt 16) 0
      (clearLens n mLen)) member
    rw [assignLens_row _ distinct] at image
    exact lengthRow_inside image
  · intro none
    have absent : symbol ∉ row code 0 (lengthRow mLenCnt 16).length := by
      rw [sorted.mem_iff, occurring, List.mem_filter]
      simp [none]
    rw [assignLens_other absent]
    exact if_pos inside

/-- A length is given to as many symbols as it is counted. -/
theorem assignLens_count (mLen : Cells Nat)
    (sorted : (row code 0 (lengthRow mLenCnt 16).length).Perm
    (occurring freq n)) {length : Nat} (positive : 0 < length) (short : length ≤ 16) :
    count (assignLens code (lengthRow mLenCnt 16) 0 (clearLens n mLen)) n length =
      mLenCnt length := by
  have distinct : (row code 0 (lengthRow mLenCnt 16).length).Nodup :=
    sorted.nodup_iff.mpr (List.nodup_range.filter _)
  have lengths := assignLens_lengths mLen sorted
  have row_eq := assignLens_row (clearLens n mLen) distinct
  generalize assignLens code (lengthRow mLenCnt 16) 0 (clearLens n mLen) = len at lengths row_eq ⊢
  have occurs : ∀ symbol ∈ List.range n,
      (decide (len symbol = length) && decide (freq symbol ≠ 0)) =
        decide (len symbol = length) := by
    intro symbol member
    by_cases here : len symbol = length
    · have frequent : freq symbol ≠ 0 := fun none => by
        rw [(lengths symbol (List.mem_range.mp member)).2 none] at here
        omega
      simp [here, frequent]
    · simp [here]
  calc count len n length
      = (List.range n).countP fun symbol =>
          decide (len symbol = length) && decide (freq symbol ≠ 0) :=
        (List.countP_congr fun symbol member => by rw [occurs symbol member]).symm
    _ = (occurring freq n).countP fun symbol => len symbol = length := by
        rw [occurring, List.countP_filter]
    _ = (row code 0 (lengthRow mLenCnt 16).length).countP fun symbol => len symbol = length :=
        (sorted.countP_eq _).symm
    _ = ((row code 0 (lengthRow mLenCnt 16).length).map len).count length := by
        rw [List.count, List.countP_map]
        rfl
    _ = mLenCnt length := by rw [row_eq, lengthRow_count ⟨positive, short⟩]

end Lengths

section Trees

variable {mN total : Nat} {used : List Nat} {depths : Nat → List Nat} {merging : Merging}
  {mLen : Cells Nat}

/-- `MakeLen` makes as many lengths as the tree has leaves, and they fill the numbers of 16
bits. -/
theorem makeLen_lengths (mLen : Cells Nat) {root : Nat}
    (forest : Forest mN used total depths merging)
    (heap : row merging.mHeap 1 merging.mHeapSize = [root]) (inner : mN ≤ root)
    (few : used.length < 2 ^ 16) :
    ∃ mLenCnt, makeLen mN merging.mLeft merging.mRight merging.code root mLen =
        some (mLenCnt, assignLens merging.code (lengthRow mLenCnt 16) 0 mLen) ∧
      weigh share mLenCnt 16 = 2 ^ 16 ∧ (lengthRow mLenCnt 16).length = used.length := by
  obtain ⟨-, shape⟩ := forest.shapes root (by rw [heap]; exact List.mem_singleton_self root)
  have leaves := forest.leaves
  rw [heap, List.map_singleton, List.sum_singleton] at leaves
  have counted : ∀ length, countLen mN merging.mLeft merging.mRight (root + 1) root 0
      ⟨fun _ => 0⟩ length = (cut (depths root)).count length := by
    intro length
    rw [countLen_shape shape (Nat.lt_succ_self root)]
    simp [cut]
  have adjusting := adjusting_cut shape inner counted
  rw [leaves] at adjusting
  obtain ⟨mLenCnt, ends, full⟩ := adjustLoop_full adjusting few (Nat.le_add_left _ _)
  refine ⟨mLenCnt, ?_, full.cum_eq.symm, ?_⟩
  · rw [makeLen, ends]
    rfl
  · rw [lengthRow_length, full.leaves_eq]

end Trees

section Calls

/-- The codes that a call makes for frequencies. -/
structure Coded (n : Nat) (freq : Cells Nat) (tree : Tree) : Prop where
  complete : Complete 16 n tree.len
  used : ∀ symbol < n, tree.len symbol ≠ 0 ↔ freq symbol ≠ 0
  code : ∀ symbol, Used tree.len n symbol → tree.code symbol = PrefixCode.code tree.len n symbol
  inner : n ≤ tree.root
  inArrays : tree.root < 2 * n - 1
  total : tree.freq tree.root = ((occurring freq n).map freq).sum % 2 ^ 16
  narrow : ∀ index, tree.freq index < 2 ^ 16

variable {n : Nat} {freq : Cells Nat}

/-- Where two symbols occur, `MakeTree` gives those that occur a complete code. -/
theorem makeTree_coded (globals : Globals) (start0 : Nat) (lenParm codeParm : Cells Nat)
    (few : n < 2 ^ 16) (narrow : ∀ index, freq index < 2 ^ 16)
    (two : 2 ≤ (occurring freq n).length) :
    ∃ tree, makeTree globals start0 n freq lenParm codeParm = some tree ∧ Coded n freq tree := by
  obtain ⟨entries, count⟩ := collect_row freq (globals.mHeap.write 1 0) n
  rw [makeTree]
  generalize (List.range n).foldl (collect freq) (globals.mHeap.write 1 0, 0) = heap
    at entries count ⊢
  obtain ⟨mHeap, size⟩ := heap
  simp only at entries count ⊢
  have ordered := (heapify_perm freq mHeap (Nat.div_le_self size 2)).trans
    (List.Perm.of_eq entries)
  have start := initial_forest codeParm globals.mLeft globals.mRight
    narrow ordered
  obtain ⟨depths, forest, inner, one, alone⟩ := mergeLoop_forest size start
    (by simp only; omega) (by simp only; omega)
  rw [if_neg (by omega)]
  generalize mergeLoop n size ⟨heapify freq size (size / 2) mHeap, size, freq, globals.mLeft,
    globals.mRight, n, codeParm, 0⟩ = merged at forest inner one alone ⊢
  have heap : row merged.mHeap 1 merged.mHeapSize = [merged.avail - 1] := by rw [one, alone]
  have root : n ≤ merged.avail - 1 := by omega
  obtain ⟨counts, made, full, leaves⟩ := makeLen_lengths (clearLens n lenParm) forest
    heap root (by
      have fewer := (List.length_filter_le (fun index => freq index ≠ 0) (List.range n))
      rw [List.length_range, ← occurring] at fewer
      omega)
  have sorted : (row merged.code 0 (lengthRow counts 16).length).Perm (occurring freq n) := by
    have all := forest.sorted
    rw [heap, List.filter_cons_of_neg (by simpa using root), List.filter_nil,
      List.append_nil] at all
    have length := all.length_eq
    rw [row_length] at length
    rw [leaves, ← length]
    exact all
  have lengths := assignLens_lengths lenParm sorted
  have counted := fun (length : Nat) (positive : 0 < length) (short : length ≤ 16) =>
    assignLens_count lenParm sorted positive short
  refine ⟨_, by rw [made]; rfl, ?_⟩
  generalize assignLens merged.code (lengthRow counts 16) 0 (clearLens n lenParm) = len
    at lengths counted ⊢
  have complete : Complete 16 n len := by
    refine ⟨fun symbol inside => ?_, ?_⟩
    · by_cases occurs : freq symbol = 0
      · rw [(lengths symbol inside).2 occurs]
        exact Nat.zero_le 16
      · exact ((lengths symbol inside).1 occurs).2
    · rw [offset_weigh, weigh_congr fun length positive short => counted length positive short]
      exact full
  refine ⟨complete, ?_, ?_, root, ?_, ?_, ?_⟩
  · intro symbol inside
    constructor
    · intro coded none
      exact coded ((lengths symbol inside).2 none)
    · intro occurs
      exact ((lengths symbol inside).1 occurs).1.ne'
  · exact fun symbol used => makeCode_code complete counted used
  · have nodes := forest.count
    have fewer := (List.length_filter_le (fun index => freq index ≠ 0) (List.range n))
    rw [List.length_range, ← occurring] at fewer
    simp only
    omega
  · have total := forest.freq
    rw [heap, List.map_singleton, List.sum_singleton,
      Nat.mod_eq_of_lt (forest.narrow (merged.avail - 1))] at total
    exact total
  · exact forest.narrow

/-- What a call leaves where less than two symbols occur: the root is the symbol, and its
code has no bits. -/
structure Alone (n : Nat) (freq : Cells Nat) (tree : Tree) : Prop where
  root : tree.root < n
  only : ∀ symbol < n, freq symbol ≠ 0 → symbol = tree.root
  len : ∀ symbol < n, tree.len symbol = 0
  code : tree.code tree.root = 0
  total : tree.freq tree.root = ((occurring freq n).map freq).sum
  freq : tree.freq = freq

/-- Without two symbols `MakeTree` makes no code. -/
theorem makeTree_alone (globals : Globals) (start0 : Nat) (lenParm codeParm : Cells Nat)
    (positive : 0 < n) (few : (occurring freq n).length < 2) :
    ∃ tree, makeTree globals start0 n freq lenParm codeParm = some tree ∧ Alone n freq tree := by
  obtain ⟨entries, count⟩ := collect_row freq (globals.mHeap.write 1 0) n
  have first := collect_none freq (globals.mHeap.write 1 0) n
  rw [makeTree]
  generalize (List.range n).foldl (collect freq) (globals.mHeap.write 1 0, 0) = heap
    at entries count first ⊢
  obtain ⟨mHeap, size⟩ := heap
  simp only at entries count first ⊢
  have small : size < 2 := by omega
  have members : ∀ symbol, symbol ∈ occurring freq n ↔ symbol < n ∧ freq symbol ≠ 0 := by
    intro symbol
    rw [occurring, List.mem_filter, List.mem_range, decide_eq_true_eq]
  have cleared : ∀ symbol < n, clearLens n lenParm symbol = 0 := fun symbol inside => if_pos inside
  rw [if_pos small]
  refine ⟨_, rfl, ?_⟩
  by_cases none : size = 0
  · rw [none] at count first
    have nobody : occurring freq n = [] := List.eq_nil_of_length_eq_zero count.symm
    have absent : ∀ symbol < n, freq symbol = 0 := by
      intro symbol inside
      by_contra occurs
      exact List.not_mem_nil (nobody ▸ (members symbol).mpr ⟨inside, occurs⟩)
    have root : mHeap 1 = 0 := by rw [first rfl, write_same]
    refine ⟨by rw [root]; exact positive, fun symbol inside occurs => absurd (absent symbol inside)
      occurs, cleared, write_same _ _ _, ?_, rfl⟩
    rw [root, absent 0 positive, nobody]
    rfl
  · have one : size = 1 := by omega
    subst one
    have single : occurring freq n = [mHeap 1] := entries.symm
    have inside := (members (mHeap 1)).mp (by rw [single]; exact List.mem_singleton.mpr rfl)
    refine ⟨inside.1, fun symbol within occurs => ?_, cleared, write_same _ _ _, ?_, rfl⟩
    · have member := (members symbol).mpr ⟨within, occurs⟩
      rw [single] at member
      exact List.mem_singleton.mp member
    · rw [single, List.map_singleton, List.sum_singleton]

/-- One of both is what a call makes. -/
theorem makeTree_cases (globals : Globals) (start0 : Nat) (lenParm codeParm : Cells Nat)
    (positive : 0 < n) (few : n < 2 ^ 16) (narrow : ∀ index, freq index < 2 ^ 16) :
    ∃ tree, makeTree globals start0 n freq lenParm codeParm = some tree ∧
      (Coded n freq tree ∨ Alone n freq tree) ∧ ∀ index, tree.freq index < 2 ^ 16 := by
  by_cases two : 2 ≤ (occurring freq n).length
  · obtain ⟨tree, made, coded⟩ := makeTree_coded globals start0 lenParm codeParm few narrow two
    exact ⟨tree, made, Or.inl coded, coded.narrow⟩
  · obtain ⟨tree, made, alone⟩ :=
      makeTree_alone globals start0 lenParm codeParm positive (Nat.lt_of_not_le two)
    exact ⟨tree, made, Or.inr alone, fun index => alone.freq ▸ narrow index⟩

/-- `MakeTree` makes a prefix code of those symbols that occur, where two do: it ends, no
code has more than 16 bits, none is the front of another one, and together they leave no
number of 16 bits out. -/
theorem makeTree_prefixCode (globals : Globals) (start0 : Nat) (lenParm codeParm : Cells Nat)
    (few : n < 2 ^ 16) (narrow : ∀ index, freq index < 2 ^ 16)
    (two : 2 ≤ (occurring freq n).length) :
    ∃ tree, makeTree globals start0 n freq lenParm codeParm = some tree ∧
      (∀ s < n, (freq s ≠ 0 ↔ tree.len s ≠ 0) ∧ tree.len s ≤ 16) ∧
      (∀ s < n, freq s ≠ 0 → tree.code s < 2 ^ tree.len s) ∧
      (∀ s < n, ∀ t < n, freq s ≠ 0 → freq t ≠ 0 →
        bitsOf (tree.len s) (tree.code s) <+: bitsOf (tree.len t) (tree.code t) → s = t) ∧
      ((occurring freq n).map fun s => 2 ^ (16 - tree.len s)).sum = 2 ^ 16 := by
  obtain ⟨tree, made, coded⟩ := makeTree_coded globals start0 lenParm codeParm few narrow two
  have used : ∀ {s}, s < n → freq s ≠ 0 → Used tree.len n s :=
    fun inside occurs => ⟨inside, (coded.used _ inside).mpr occurs⟩
  refine ⟨tree, made, fun s inside => ⟨(coded.used s inside).symm, coded.complete.short s inside⟩,
    ?_, ?_, ?_⟩
  · intro s inside occurs
    rw [coded.code s (used inside occurs)]
    exact code_lt coded.complete (used inside occurs)
  · intro s insideS t insideT occursS occursT front
    rw [coded.code s (used insideS occursS), coded.code t (used insideT occursT)] at front
    exact prefixFree coded.complete (used insideS occursS) (used insideT occursT) front
  · have full := (complete_iff_sum coded.complete.short).mp coded.complete
    have same : ∀ s ∈ List.range n, (if tree.len s ≠ 0 then 2 ^ (16 - tree.len s) else 0) =
        if freq s ≠ 0 then 2 ^ (16 - tree.len s) else 0 :=
      fun s member => if_congr (coded.used s (List.mem_range.mp member)) rfl rfl
    rw [List.map_congr_left same, List.sum_map_ite] at full
    simpa [occurring] using full

/-- Three symbols with different frequencies. -/
theorem makeTree_prefixCode_three :
    ∃ tree, makeTree ⟨⟨fun _ => 0⟩, ⟨fun _ => 0⟩, ⟨fun _ => 0⟩⟩ 0 3
        ⟨fun index => if index < 3 then index + 1 else 0⟩ ⟨fun _ => 7⟩ ⟨fun _ => 7⟩ = some tree ∧
      ((occurring ⟨fun index => if index < 3 then index + 1 else 0⟩ 3).map
        fun s => 2 ^ (16 - tree.len s)).sum = 2 ^ 16 := by
  have narrow : ∀ index, (⟨fun index => if index < 3 then index + 1 else 0⟩ : Cells Nat) index <
      2 ^ 16 := by
    intro index
    change (if index < 3 then index + 1 else 0) < 2 ^ 16
    split <;> omega
  obtain ⟨tree, made, -, -, -, whole⟩ := makeTree_prefixCode
    ⟨⟨fun _ => 0⟩, ⟨fun _ => 0⟩, ⟨fun _ => 0⟩⟩ 0 ⟨fun _ => 7⟩ ⟨fun _ => 7⟩ (n := 3) (by decide)
    narrow (by decide)
  exact ⟨tree, made, whole⟩

end Calls

end SmcPkg.TianoCompress
