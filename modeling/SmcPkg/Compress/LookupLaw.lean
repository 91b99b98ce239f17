import SmcPkg.Compress.MakeTableLaw

/-!
# What is looked up in a table

`MakeTable` goes over the symbols in their order and keeps the next code of each length. The
short codes fill ranges of indices before those of the long ones. From lengths that leave no
number out it makes a table in which each row of bits leads to the symbol that it starts
with.

Lengths are assumed to have at most 16 bits. What a table holds behind a refusal is left open.
-/

namespace SmcPkg.UefiDecompress

open BitRows Cells PrefixCode

section Alignment

variable {tableBits n s : Nat} {len : Nat → Nat}

/-- The first index behind the codes that are no longer than the index. -/
def lowOf (tableBits n : Nat) (len : Nat → Nat) : Nat :=
  offset 16 (count len n) (tableBits + 1) / 2 ^ (16 - tableBits)

/-- The front of the table up to the long codes has the size that the short codes take. -/
theorem lowOf_mul (positive : 0 < tableBits) (narrow : tableBits ≤ 15) :
    lowOf tableBits n len * 2 ^ (16 - tableBits) = offset 16 (count len n) (tableBits + 1) := by
  have inside : tableBits ≤ 16 := by omega
  have aligned := start_mul (count len n) inside
  rw [lowOf, offset_succ positive, ← aligned, ← Nat.add_mul,
    Nat.mul_div_cancel _ (Nat.two_pow_pos _)]

/-- It is no larger than the table. -/
theorem lowOf_le (complete : Complete 16 n len) (positive : 0 < tableBits)
    (narrow : tableBits ≤ 15) : lowOf tableBits n len ≤ 2 ^ tableBits := by
  have whole : offset 16 (count len n) (tableBits + 1) ≤ 2 ^ 16 :=
    (offset_mono 16 _ (by omega)).trans_eq complete.full
  have parts : 2 ^ 16 = 2 ^ tableBits * 2 ^ (16 - tableBits) := by
    rw [← Nat.pow_add, Nat.add_sub_cancel' (by omega)]
  rw [← lowOf_mul positive narrow, parts] at whole
  exact Nat.le_of_mul_le_mul_right whole (Nat.two_pow_pos _)

/-- The code of a symbol among all numbers of 16 bits. -/
theorem code_within (complete : Complete 16 n len) (used : Used len n s) :
    offset 16 (count len n) (len s) ≤ code len n s * 2 ^ (16 - len s) ∧
      (code len n s + 1) * 2 ^ (16 - len s) ≤ offset 16 (count len n) (len s + 1) := by
  have power := Nat.two_pow_pos (16 - len s)
  have first : Starts 16 n len (code len n s * 2 ^ (16 - len s)) s := by
    rw [Starts, Nat.add_mul, Nat.one_mul]
    omega
  have last : Starts 16 n len ((code len n s + 1) * 2 ^ (16 - len s) - 1) s := by
    rw [Starts, Nat.add_mul, Nat.one_mul]
    omega
  have upTo := (last.within complete used).2
  exact ⟨(first.within complete used).1, by omega⟩

/-- The codes end in the numbers of 16 bits. -/
theorem code_end_le (complete : Complete 16 n len) (used : Used len n s) :
    (code len n s + 1) * 2 ^ (16 - len s) ≤ 2 ^ 16 :=
  (code_within complete used).2.trans
    ((offset_mono 16 _ (Nat.succ_le_succ (complete.short s used.1))).trans_eq complete.full)

/-- The indices of a short code lie before the first index of the long ones. -/
theorem short_end_le (complete : Complete 16 n len) (positive : 0 < tableBits)
    (narrow : tableBits ≤ 15) (used : Used len n s) (short : len s ≤ tableBits) :
    (code len n s + 1) * 2 ^ (tableBits - len s) ≤ lowOf tableBits n len := by
  have below := (code_within complete used).2.trans
    (offset_mono 16 (count len n) (Nat.succ_le_succ short))
  have parts : 2 ^ (16 - len s) = 2 ^ (tableBits - len s) * 2 ^ (16 - tableBits) := by
    rw [← Nat.pow_add]
    congr 1
    omega
  rw [← lowOf_mul positive narrow, parts, ← Nat.mul_assoc] at below
  exact Nat.le_of_mul_le_mul_right below (Nat.two_pow_pos _)

/-- The index of a long code. -/
theorem long_index (complete : Complete 16 n len) (used : Used len n s)
    (long : tableBits < len s) :
    (code len n s * 2 ^ (16 - len s)) >>> (16 - tableBits) = path len n s tableBits := by
  have short := complete.short s used.1
  have parts : 16 - tableBits = (16 - len s) + (len s - tableBits) := by omega
  rw [parts, Nat.shiftRight_add, ← Nat.shiftLeft_eq, Nat.shiftLeft_shiftRight, path]

/-- It is reached through the table. -/
theorem long_reached {keys : List (Nat × Nat)} (complete : Complete 16 n len)
    (positive : 0 < tableBits) (narrow : tableBits ≤ 15) (used : Used len n s)
    (long : tableBits < len s) :
    Reached tableBits (lowOf tableBits n len) keys (tableBits, path len n s tableBits) := by
  have short := complete.short s used.1
  refine Or.inl ⟨rfl, ?_, ?_⟩
  · have above := (offset_mono 16 (count len n)
      (Nat.succ_le_of_lt long)).trans (code_within complete used).1
    simp only
    rw [← long_index complete used long, Nat.shiftRight_eq_div_pow,
      Nat.le_div_iff_mul_le (Nat.two_pow_pos _), lowOf_mul positive narrow]
    exact above
  · have parts : 2 ^ len s = 2 ^ tableBits * 2 ^ (len s - tableBits) := by
      rw [← Nat.pow_add, Nat.add_sub_cancel' long.le]
    simp only
    rw [path, Nat.shiftRight_eq_div_pow, Nat.div_lt_iff_lt_mul (Nat.two_pow_pos _), ← parts]
    exact code_lt complete used

/-- An index of a short code starts with no other one. -/
theorem short_unique {i t : Nat} (complete : Complete 16 n len) (narrow : tableBits ≤ 15)
    (usedS : Used len n s) (usedT : Used len n t) (shortS : len s ≤ tableBits)
    (shortT : len t ≤ tableBits) (startsS : Starts tableBits n len i s)
    (startsT : Starts tableBits n len i t) : s = t := by
  have scaled : ∀ {u}, len u ≤ tableBits → Starts tableBits n len i u →
      Starts 16 n len (i * 2 ^ (16 - tableBits)) u := by
    intro u short starts
    have parts : 2 ^ (16 - len u) = 2 ^ (tableBits - len u) * 2 ^ (16 - tableBits) := by
      rw [← Nat.pow_add]
      congr 1
      omega
    rw [Starts, parts, ← Nat.mul_assoc, ← Nat.mul_assoc]
    exact ⟨Nat.mul_le_mul_right _ starts.1,
      Nat.mul_lt_mul_of_pos_right starts.2 (Nat.two_pow_pos _)⟩
  exact (scaled shortS startsS).unique complete usedS usedT (scaled shortT startsT)

/-- Where a table has no short codes, it has at least twice as many symbols as indices. -/
theorem pow_le_of_lowOf (complete : Complete 16 n len) (positive : 0 < tableBits)
    (narrow : tableBits ≤ 15) (none : lowOf tableBits n len = 0) : 2 ^ (tableBits + 1) ≤ n := by
  have long : ∀ s, Used len n s → tableBits + 1 ≤ len s := by
    intro s used
    by_contra short
    have ends := short_end_le complete positive narrow used (by omega)
    have above : 0 < (code len n s + 1) * 2 ^ (tableBits - len s) :=
      Nat.mul_pos (Nat.succ_pos _) (Nat.two_pow_pos _)
    omega
  have covered : Finset.range (2 ^ (tableBits + 1)) ⊆
      (Finset.range n).image fun s => path len n s (tableBits + 1) := by
    intro w inside
    have parts : 2 ^ 16 = 2 ^ (tableBits + 1) * 2 ^ (15 - tableBits) := by
      rw [← Nat.pow_add]
      congr 1
      omega
    have below : w * 2 ^ (15 - tableBits) < 2 ^ 16 := by
      rw [parts]
      exact Nat.mul_lt_mul_of_pos_right (Finset.mem_range.mp inside) (Nat.two_pow_pos _)
    obtain ⟨s, used, above, upTo⟩ := exists_starts complete below
    have short := complete.short s used.1
    have deep := long s used
    have split : 2 ^ (15 - tableBits) = 2 ^ (len s - (tableBits + 1)) * 2 ^ (16 - len s) := by
      rw [← Nat.pow_add]
      congr 1
      omega
    rw [split, ← Nat.mul_assoc] at above upTo
    have lower := Nat.le_of_mul_le_mul_right above (Nat.two_pow_pos _)
    have upper := Nat.lt_of_mul_lt_mul_right upTo
    refine Finset.mem_image.mpr ⟨s, Finset.mem_range.mpr used.1, ?_⟩
    rw [path, Nat.shiftRight_eq_div_pow]
    have same : code len n s = w * 2 ^ (len s - (tableBits + 1)) := by
      omega
    rw [same, Nat.mul_div_cancel _ (Nat.two_pow_pos _)]
  have counted := (Finset.card_le_card covered).trans Finset.card_image_le
  rwa [Finset.card_range, Finset.card_range] at counted

end Alignment

section Tables

variable {tableBits n low : Nat} {len : Nat → Nat} {entered other : Nat → Prop}
  {keys : List (Nat × Nat)} {tables later : Tables}

/-- The nodes do not depend on what else is in the tables. -/
theorem Trie.of_at (trie : Trie tableBits n low len entered keys tables)
    (same : ∀ key, Reached tableBits low keys key →
      later.cellAt (placeOf tableBits n keys key) = tables.cellAt (placeOf tableBits n keys key)) :
    Trie tableBits n low len entered keys later where
  long := trie.long
  distinct := trie.distinct
  reached := trie.reached
  inner := trie.inner
  paths := trie.paths
  nodes key member := (same key (trie.reached key member)).trans (trie.nodes key member)
  leaves s there := (same _ (trie.reached_leaf there)).trans (trie.leaves s there)
  empty key reached absent noSymbol :=
    (same key reached).trans (trie.empty key reached absent noSymbol)

/-- The nodes are the same for the same symbols. -/
theorem Trie.of_iff (trie : Trie tableBits n low len entered keys tables)
    (same : ∀ s, entered s ↔ other s) : Trie tableBits n low len other keys tables := by
  have equal : entered = other := funext fun s => propext (same s)
  exact equal ▸ trie

/-- The number of bits that a code of a length is aligned to. -/
def alignment (tableBits l : Nat) : Nat := if l ≤ tableBits then tableBits else 16

/-- The symbols before `char` have been entered. -/
structure Entered (tableBits n : Nat) (len : Nat → Nat) (char : Nat) (state : Entering)
    (keys : List (Nat × Nat)) : Prop where
  start : ∀ s, char ≤ s → Used len n s → state.start (len s) =
    (PrefixCode.start (count len n) (len s) + count len char (len s)) *
      2 ^ (alignment tableBits (len s) - len s)
  avail : state.avail = n + keys.length
  short : ∀ s < char, Used len n s → len s ≤ tableBits → ∀ i, Starts tableBits n len i s →
    state.tables.table i = s
  trie : Trie tableBits n (lowOf tableBits n len) len
    (fun s => s < char ∧ Used len n s ∧ tableBits < len s) keys state.tables

/-- The table of a code: indices of short codes hold their symbols, and there are nodes for
the long ones. -/
structure Built (tableBits n : Nat) (len : Nat → Nat) (tables : Tables) : Prop where
  short : ∀ s, Used len n s → len s ≤ tableBits → ∀ i, Starts tableBits n len i s →
    tables.table i = s
  long : ∃ keys, Trie tableBits n (lowOf tableBits n len) len
    (fun s => Used len n s ∧ tableBits < len s) keys tables

/-- The weight of a length is the distance of its codes. -/
theorem weightTable_eq {l : Nat} (positive : l ≠ 0) :
    weightTable tableBits l = 2 ^ (alignment tableBits l - l) := by
  rw [weightTable, if_neg positive, alignment]
  split
  · rw [Nat.one_shiftLeft]
  · rw [Nat.one_shiftLeft]

end Tables

section Entering

variable {tableBits n char : Nat} {bitLen : Cells Nat} {keys : List (Nat × Nat)}
  {state : Entering}

/-- Where a code starts when its symbol comes. -/
theorem Entered.code (entered : Entered tableBits n bitLen char state keys)
    (used : Used bitLen n char) :
    state.start (bitLen char) =
      PrefixCode.code bitLen n char * 2 ^ (alignment tableBits (bitLen char) - bitLen char) :=
  entered.start char le_rfl used

/-- The end of a code as long as there is another one of its length. -/
theorem next_code (complete : Complete 16 n bitLen) (narrow : tableBits ≤ 15) {s : Nat}
    (later : char < s) (usedS : Used bitLen n s)
    (same : bitLen s = bitLen char) :
    (PrefixCode.code bitLen n char + 1) *
      2 ^ (alignment tableBits (bitLen char) - bitLen char) < 2 ^ 16 := by
  have order := rank_lt_rank later same.symm
  have below := code_end_le complete usedS
  have power : 0 < 2 ^ (16 - bitLen char) := Nat.two_pow_pos _
  rw [PrefixCode.code, same] at below
  have scaled : (PrefixCode.code bitLen n char + 1) * 2 ^ (16 - bitLen char) < 2 ^ 16 := by
    refine lt_of_lt_of_le (Nat.mul_lt_mul_of_pos_right ?_ power) below
    rw [PrefixCode.code]
    omega
  refine lt_of_le_of_lt (Nat.mul_le_mul_left _ ?_) scaled
  refine Nat.pow_le_pow_right (by decide) ?_
  rw [alignment]
  split <;> omega

/-- The starts after a symbol. -/
theorem start_written (complete : Complete 16 n bitLen) (narrow : tableBits ≤ 15)
    (entered : Entered tableBits n bitLen char state keys) (used : Used bitLen n char)
    (s : Nat) (later : char + 1 ≤ s) (usedS : Used bitLen n s) :
    state.start.write (bitLen char)
        ((state.start (bitLen char) + weightTable tableBits (bitLen char)) % 2 ^ 16) (bitLen s) =
      (PrefixCode.start (count bitLen n) (bitLen s) + count bitLen (char + 1) (bitLen s)) *
        2 ^ (alignment tableBits (bitLen s) - bitLen s) := by
  rw [count_succ]
  by_cases same : bitLen s = bitLen char
  · have fits := next_code complete narrow later usedS same
    rw [same, write_same, if_pos rfl, entered.code used, weightTable_eq used.2, ← Nat.succ_mul,
      Nat.mod_eq_of_lt fits, PrefixCode.code, rank, Nat.add_assoc]
  · rw [write_other same, if_neg (Ne.symm same), Nat.add_zero]
    exact entered.start s (by omega) usedS

/-- A symbol without a code changes nothing. -/
theorem Entered.unused (entered : Entered tableBits n bitLen char state keys)
    (unused : bitLen char = 0) : Entered tableBits n bitLen (char + 1) state keys := by
  have apart : ∀ s, Used bitLen n s → s ≠ char := by
    rintro s used rfl
    exact used.2 unused
  refine ⟨?_, entered.avail, ?_, entered.trie.of_iff ?_⟩
  · intro s later used
    rw [count_succ, if_neg (by rw [unused]; exact used.2.symm), Nat.add_zero]
    exact entered.start s (by omega) used
  · intro s before used
    have other := apart s used
    exact entered.short s (by omega) used
  · intro s
    constructor
    · exact fun there => ⟨there.1.trans (Nat.lt_succ_self char), there.2⟩
    · rintro ⟨before, used, long⟩
      have other := apart s used
      exact ⟨by omega, used, long⟩

/-- A short code fills its indices. -/
theorem Entered.fill (entered : Entered tableBits n bitLen char state keys)
    (complete : Complete 16 n bitLen) (positive : 0 < tableBits) (narrow : tableBits ≤ 15)
    (used : Used bitLen n char) (short : bitLen char ≤ tableBits) :
    Entered tableBits n bitLen (char + 1) (enterChar bitLen tableBits state char) keys := by
  have fits : (PrefixCode.code bitLen n char + 1) * 2 ^ (tableBits - bitLen char) < 2 ^ 16 := by
    refine lt_of_le_of_lt ((short_end_le complete positive narrow used short).trans
      (lowOf_le complete positive narrow)) ?_
    exact Nat.pow_lt_pow_right (by decide) (by omega)
  have present : ¬(bitLen char = 0 ∨ 17 ≤ bitLen char) := by
    have inside := complete.short char used.1
    have code := used.2
    omega
  have stepped : enterChar bitLen tableBits state char =
      { state with
        tables := { state.tables with
          table := fillTable char (PrefixCode.code bitLen n char * 2 ^ (tableBits - bitLen char))
            ((PrefixCode.code bitLen n char + 1) * 2 ^ (tableBits - bitLen char))
            state.tables.table }
        start := state.start.write (bitLen char)
          ((state.start (bitLen char) + weightTable tableBits (bitLen char)) % 2 ^ 16) } := by
    rw [enterChar]
    simp only [if_neg present, if_pos short, weightTable_eq used.2, entered.code used,
      alignment, ← Nat.succ_mul, Nat.mod_eq_of_lt fits]
  rw [stepped]
  refine ⟨start_written complete narrow entered used, entered.avail, ?_, ?_⟩
  · intro s before usedS shortS i starts
    by_cases last : s = char
    · subst last
      exact if_pos starts
    · have apart : ¬Starts tableBits n bitLen i char := fun both =>
        last (short_unique complete narrow usedS used shortS short starts both)
      exact (if_neg apart).trans (entered.short s (by omega) usedS shortS i starts)
  · have trie : Trie tableBits n (lowOf tableBits n bitLen) bitLen
        (fun s => s < char + 1 ∧ Used bitLen n s ∧ tableBits < bitLen s) keys state.tables := by
      refine entered.trie.of_iff fun s => ?_
      constructor
      · exact fun there => ⟨there.1.trans (Nat.lt_succ_self char), there.2⟩
      · rintro ⟨before, usedS, long⟩
        have other : s ≠ char := by
          rintro rfl
          exact absurd long (Nat.not_lt_of_le short)
        exact ⟨by omega, usedS, long⟩
    refine trie.of_at fun key reached => ?_
    rcases reached with ⟨atTable, above, -⟩ | ⟨below, -⟩
    · rw [placeOf_table atTable]
      have ends := short_end_le complete positive narrow used short
      exact if_neg fun inside => absurd (inside.2.trans_le ends) (Nat.not_lt_of_le above)
    · rw [placeOf_node below]
      split <;> rfl

/-- A long code gets its nodes. -/
theorem Entered.walk (entered : Entered tableBits n bitLen char state keys)
    (complete : Complete 16 n bitLen) (positive : 0 < tableBits) (narrow : tableBits ≤ 15)
    (few : n ≤ nc) (used : Used bitLen n char) (long : tableBits < bitLen char) :
    ∃ nodes, Entered tableBits n bitLen (char + 1) (enterChar bitLen tableBits state char)
        nodes ∧
      ∀ place, Outside n (lowOf tableBits n bitLen) place →
        (enterChar bitLen tableBits state char).tables.cellAt place = state.tables.cellAt place := by
  have present : ¬(bitLen char = 0 ∨ 17 ≤ bitLen char) := by
    have inside := complete.short char used.1
    have code := used.2
    omega
  have start : state.start (bitLen char) =
      PrefixCode.code bitLen n char * 2 ^ (16 - bitLen char) := by
    rw [entered.code used, alignment, if_neg (Nat.not_le_of_lt long)]
  have small : PrefixCode.code bitLen n char * 2 ^ (16 - bitLen char) < 2 ^ 16 := by
    refine lt_of_lt_of_le ?_ (code_end_le complete used)
    exact Nat.mul_lt_mul_of_pos_right (Nat.lt_succ_self _) (Nat.two_pow_pos _)
  have reached : Reached tableBits (lowOf tableBits n bitLen) keys
      (tableBits, path bitLen n char tableBits) :=
    long_reached complete positive narrow used long
  obtain ⟨nodes, later, walked, trie, atEnd, allPaths, frame⟩ :=
    entered.trie.walkTo complete (Nat.lt_of_le_of_lt (Nat.zero_le char) used.1) few used
      (fun there => lt_irrefl char there.1) le_rfl long.le reached (fun d above below => by omega)
  have first : placeOf tableBits n keys (tableBits, path bitLen n char tableBits) =
      .table (path bitLen n char tableBits) := placeOf_table rfl
  rw [Nat.sub_self, Nat.shiftLeft_zero, Nat.mod_eq_of_lt small, first] at walked
  have stepped : enterChar bitLen tableBits state char =
      { tables := later.put char
          (placeOf tableBits n nodes (bitLen char, PrefixCode.code bitLen n char))
        avail := n + nodes.length
        start := state.start.write (bitLen char)
          ((state.start (bitLen char) + weightTable tableBits (bitLen char)) % 2 ^ 16) } := by
    rw [enterChar]
    simp only [if_neg present, if_neg (Nat.not_le_of_lt long), start, entered.avail,
      long_index complete used long, walked]
  have put : ∀ place, Outside n (lowOf tableBits n bitLen) place →
      (later.put char (placeOf tableBits n nodes
        (bitLen char, PrefixCode.code bitLen n char))).cellAt place = state.tables.cellAt place := by
    intro place outside
    have room := paths_length_lt complete trie.distinct trie.inner
    exact (cellAt_put_other (outside.apart room.le atEnd)).trans (frame place outside)
  refine ⟨nodes, ?_, by rw [stepped]; exact put⟩
  rw [stepped]
  refine ⟨start_written complete narrow entered used, rfl, ?_, ?_⟩
  · intro s before usedS shortS i starts
    have other : s ≠ char := by
      rintro rfl
      exact absurd long (Nat.not_lt_of_le shortS)
    have below : i < lowOf tableBits n bitLen :=
      starts.2.trans_le (short_end_le complete positive narrow usedS shortS)
    exact (put (.table i) below).trans (entered.short s (by omega) usedS shortS i starts)
  · refine (trie.enter complete used long (fun there => lt_irrefl char there.1) atEnd
      allPaths).of_iff fun s => ?_
    constructor
    · rintro (⟨before, rest⟩ | rfl)
      · exact ⟨before.trans (Nat.lt_succ_self char), rest⟩
      · exact ⟨Nat.lt_succ_self s, used, long⟩
    · rintro ⟨before, rest⟩
      by_cases last : s = char
      · exact Or.inr last
      · exact Or.inl ⟨by omega, rest⟩

/-- All symbols are entered in their order. -/
theorem enterChar_entered (complete : Complete 16 n bitLen) (positive : 0 < tableBits)
    (narrow : tableBits ≤ 15) (few : n ≤ nc)
    (initially : Entered tableBits n bitLen 0 state []) {upTo : Nat} (inside : upTo ≤ n) :
    ∃ keys, Entered tableBits n bitLen upTo
        ((List.range upTo).foldl (enterChar bitLen tableBits) state) keys ∧
      ∀ place, Outside n 0 place →
        ((List.range upTo).foldl (enterChar bitLen tableBits) state).tables.cellAt place =
          state.tables.cellAt place := by
  induction upTo with
  | zero => exact ⟨[], initially, fun _ _ => rfl⟩
  | succ upTo inductionHypothesis =>
    obtain ⟨keys, entered, frame⟩ := inductionHypothesis (by omega)
    rw [List.range_succ, List.foldl_append, List.foldl_cons, List.foldl_nil]
    generalize (List.range upTo).foldl (enterChar bitLen tableBits) state = reached at *
    by_cases unused : bitLen upTo = 0
    · have stepped : enterChar bitLen tableBits reached upTo = reached := by
        rw [enterChar]
        exact if_pos (Or.inl unused)
      rw [stepped]
      exact ⟨keys, entered.unused unused, frame⟩
    · have used : Used bitLen n upTo := ⟨inside, unused⟩
      by_cases short : bitLen upTo ≤ tableBits
      · refine ⟨keys, entered.fill complete positive narrow used short, fun place outside => ?_⟩
        rw [← frame place outside, enterChar]
        cases place with
        | table index => exact absurd outside (Nat.not_lt_zero index)
        | left node => simp only [Tables.cellAt]; split_ifs <;> rfl
        | right node => simp only [Tables.cellAt]; split_ifs <;> rfl
      · obtain ⟨nodes, next, kept⟩ := entered.walk complete positive narrow few used
          (Nat.lt_of_not_le short)
        refine ⟨nodes, next, fun place outside => (kept place ?_).trans (frame place outside)⟩
        cases place with
        | table index => exact absurd outside (Nat.not_lt_zero index)
        | left node => exact outside
        | right node => exact outside

end Entering

section Making

variable {tableBits n : Nat} {bitLen : Cells Nat}

/-- `Count` counts the lengths of the symbols. -/
theorem countLens_count : ⇑(countLens n bitLen) = count bitLen n := by
  have general : ∀ upTo, ⇑((List.range upTo).foldl (fun (counts : Cells Nat) index =>
      counts.write (bitLen index) (counts (bitLen index) + 1)) ⟨fun _ => 0⟩) =
        count bitLen upTo := by
    intro upTo
    induction upTo with
    | zero => rfl
    | succ upTo inductionHypothesis =>
      funext l
      rw [List.range_succ, List.foldl_append, List.foldl_cons, List.foldl_nil, count_succ,
        write_read, inductionHypothesis]
      by_cases same : l = bitLen upTo
      · rw [if_pos same, if_pos same.symm, same]
      · rw [if_neg same, if_neg (Ne.symm same), Nat.add_zero]
  exact general n

/-- `Start` before the shifts. -/
theorem startTable_eq (counts : Nat → Nat) (l : Nat) :
    startTable counts l = offset 16 counts l % 2 ^ 16 := by
  induction l using Nat.twoStepInduction with
  | zero => rfl
  | one => rfl
  | more l _ inductionHypothesis =>
    rw [startTable, offset, inductionHypothesis, Nat.shiftLeft_eq, Nat.mod_add_mod]

/-- Of a complete code the last `Start` is 0, which `MakeTable` asks for. -/
theorem startTable_whole (complete : Complete 16 n bitLen) :
    startTable (count bitLen n) 17 = 0 := by
  rw [startTable_eq, complete.full, Nat.mod_self]

/-- The table after the loop that clears its end: behind the short codes there are zeros. With
fewer than `2 ^ (tableBits + 1)` symbols there is at least one short code, unless there is no end
to clear. -/
theorem cleared_empty (tables : Tables) (complete : Complete 16 n bitLen)
    (positive : 0 < tableBits) (narrow : tableBits ≤ 15) (less : n < 2 ^ (tableBits + 1)) {i : Nat}
    (above : lowOf tableBits n bitLen ≤ i) (below : i < 2 ^ tableBits) :
    (if startTable (count bitLen n) (tableBits + 1) >>> (16 - tableBits) ≠ 0 ∧
        startTable (count bitLen n) (tableBits + 1) >>> (16 - tableBits) < 1 <<< tableBits then
      fillTable 0 (startTable (count bitLen n) (tableBits + 1) >>> (16 - tableBits))
        (1 <<< tableBits) tables.table
    else tables.table) i = 0 := by
  have short : lowOf tableBits n bitLen < 2 ^ tableBits := above.trans_lt below
  have nonzero : lowOf tableBits n bitLen ≠ 0 := fun none =>
    absurd (pow_le_of_lowOf complete positive narrow none) (Nat.not_le_of_lt less)
  have small : offset 16 (count bitLen n) (tableBits + 1) < 2 ^ 16 := by
    have parts : 2 ^ 16 = 2 ^ tableBits * 2 ^ (16 - tableBits) := by
      rw [← Nat.pow_add, Nat.add_sub_cancel' (by omega)]
    rw [← lowOf_mul positive narrow, parts]
    exact Nat.mul_lt_mul_of_pos_right short (Nat.two_pow_pos _)
  have index : startTable (count bitLen n) (tableBits + 1) >>> (16 - tableBits) =
      lowOf tableBits n bitLen := by
    rw [startTable_eq, Nat.mod_eq_of_lt small, Nat.shiftRight_eq_div_pow, lowOf]
  rw [index, Nat.one_shiftLeft, if_pos ⟨nonzero, short⟩]
  exact if_pos ⟨above, below⟩

/-- `Start` of the length of a symbol, which the 16 bits hold. -/
theorem startTable_used (complete : Complete 16 n bitLen) {s : Nat} (used : Used bitLen n s) :
    startTable (count bitLen n) (bitLen s) =
      PrefixCode.start (count bitLen n) (bitLen s) * 2 ^ (16 - bitLen s) := by
  have aligned := start_mul (count bitLen n) (complete.short s used.1)
  have small : offset 16 (count bitLen n) (bitLen s) < 2 ^ 16 := by
    refine lt_of_le_of_lt (code_within complete used).1 ?_
    refine lt_of_lt_of_le ?_ (code_end_le complete used)
    exact Nat.mul_lt_mul_of_pos_right (Nat.lt_succ_self _) (Nat.two_pow_pos _)
  rw [startTable_eq, Nat.mod_eq_of_lt small, aligned]

/-- The first code of a length after the shifts: short lengths count in cells of the table, the
longer ones in 16 bits. -/
theorem shifted_start (complete : Complete 16 n bitLen) (narrow : tableBits ≤ 15) {s : Nat}
    (used : Used bitLen n s) :
    (if 1 ≤ bitLen s ∧ bitLen s ≤ tableBits then
        startTable (count bitLen n) (bitLen s) >>> (16 - tableBits)
      else startTable (count bitLen n) (bitLen s)) =
      PrefixCode.start (count bitLen n) (bitLen s) *
        2 ^ (alignment tableBits (bitLen s) - bitLen s) := by
  have value := startTable_used complete used
  have code := used.2
  by_cases short : bitLen s ≤ tableBits
  · have parts : 2 ^ (16 - bitLen s) = 2 ^ (tableBits - bitLen s) * 2 ^ (16 - tableBits) := by
      rw [← Nat.pow_add]
      congr 1
      omega
    rw [if_pos ⟨by omega, short⟩, value, alignment, if_pos short, parts, ← Nat.mul_assoc,
      Nat.shiftRight_eq_div_pow, Nat.mul_div_cancel _ (Nat.two_pow_pos _)]
  · rw [if_neg fun both => short both.2, value, alignment, if_neg short]

/-- Before the first symbol nothing is entered, if the cells behind the short codes are empty. -/
theorem entered_none {tables : Tables} {starts : Cells Nat}
    (empty : ∀ i, lowOf tableBits n bitLen ≤ i → i < 2 ^ tableBits → tables.table i = 0)
    (start : ∀ s, Used bitLen n s → starts (bitLen s) =
      PrefixCode.start (count bitLen n) (bitLen s) *
        2 ^ (alignment tableBits (bitLen s) - bitLen s)) :
    Entered tableBits n bitLen 0 ⟨tables, n, starts⟩ [] := by
  refine ⟨?_, rfl, fun s before => absurd before (Nat.not_lt_zero s), ?_⟩
  · intro s _ used
    rw [start s used]
    simp [count]
  · refine ⟨fun s there => absurd there.1 (Nat.not_lt_zero s), List.nodup_nil, ?_, ?_,
      fun s there => absurd there.1 (Nat.not_lt_zero s), ?_,
      fun s there => absurd there.1 (Nat.not_lt_zero s), ?_⟩
    · exact fun key member => absurd member List.not_mem_nil
    · exact fun key member => absurd member List.not_mem_nil
    · exact fun key member => absurd member List.not_mem_nil
    · rintro key (⟨atTable, above, below⟩ | ⟨-, before⟩) - -
      · rw [placeOf_table atTable]
        exact empty key.2 above below
      · exact absurd before List.not_mem_nil

/-- The lengths of a complete code make its table. -/
theorem makeTable_built (tables : Tables) (complete : Complete 16 n bitLen)
    (positive : 0 < tableBits)
    (narrow : tableBits ≤ 15) (few : n ≤ nc) (less : n < 2 ^ (tableBits + 1)) :
    ∃ later, makeTable n bitLen tableBits tables = some later ∧
      Built tableBits n bitLen later ∧
      ∀ node, node < n ∨ 2 * n ≤ node →
        later.mLeft node = tables.mLeft node ∧ later.mRight node = tables.mRight node := by
  have whole := startTable_whole complete
  obtain ⟨table, tableIs⟩ : ∃ table, table =
      if startTable (count bitLen n) (tableBits + 1) >>> (16 - tableBits) ≠ 0 ∧
          startTable (count bitLen n) (tableBits + 1) >>> (16 - tableBits) < 1 <<< tableBits then
        fillTable 0 (startTable (count bitLen n) (tableBits + 1) >>> (16 - tableBits))
          (1 <<< tableBits) tables.table
      else tables.table := ⟨_, rfl⟩
  obtain ⟨shifted, shiftedIs⟩ : ∃ shifted : Cells Nat, shifted = ⟨fun index =>
      if 1 ≤ index ∧ index ≤ tableBits then
        startTable (count bitLen n) index >>> (16 - tableBits)
      else startTable (count bitLen n) index⟩ := ⟨_, rfl⟩
  have empty : ∀ i, lowOf tableBits n bitLen ≤ i → i < 2 ^ tableBits → table i = 0 := by
    intro i above below
    rw [tableIs]
    exact cleared_empty tables complete positive narrow less above below
  have start : ∀ s, Used bitLen n s → shifted (bitLen s) =
      PrefixCode.start (count bitLen n) (bitLen s) *
        2 ^ (alignment tableBits (bitLen s) - bitLen s) := by
    intro s used
    rw [shiftedIs]
    exact shifted_start complete narrow used
  have initially : Entered tableBits n bitLen 0 ⟨{ tables with table := table }, n, shifted⟩ [] :=
    entered_none empty start
  obtain ⟨keys, entered, frame⟩ :=
    enterChar_entered complete positive narrow few initially le_rfl
  refine ⟨_, ?_, ⟨fun s used => entered.short s used.1 used, keys, ?_⟩, ?_⟩
  · rw [makeTable, countLens_count]
    simp only [whole, ne_eq, not_true_eq_false, if_false]
    rw [tableIs, shiftedIs]
  · exact entered.trie.of_iff fun s =>
      ⟨fun there => there.2, fun there => ⟨there.1.1, there⟩⟩
  · exact fun node outside => ⟨frame (.left node) outside, frame (.right node) outside⟩

end Making

section Lookup

variable {tableBits n s : Nat} {len : Nat → Nat} {tables later : Tables} {source : Source}
  {rest : List Bool}

/-- The bit under the mask is the next one of the path. -/
theorem masked_bit (used : Used len n s) (complete : Complete 16 n len)
    (ahead : Ahead (bitsOf (len s) (code len n s) ++ rest) source) {depth : Nat}
    (below : depth < len s) :
    source.mBitBuf &&& 1 <<< (31 - depth) ≠ 0 ↔ path len n s (depth + 1) % 2 = 1 := by
  have short := complete.short s used.1
  have row : (bitsOf (len s) (code len n s) ++ rest).getD depth false =
      (code len n s).testBit (len s - 1 - depth) := by
    rw [List.getD_append _ _ _ _ (by rw [bitsOf_length]; exact below), bitsOf_getD]
    simp [below]
  rw [path_bit below, Nat.one_shiftLeft, Nat.and_two_pow, ahead.bit (by omega), row]
  simp [Nat.toNat_testBit]

/-- The nodes lead to the symbol. -/
theorem Trie.descend {low : Nat} {entered : Nat → Prop} {keys : List (Nat × Nat)}
    (trie : Trie tableBits n low len entered keys tables) (complete : Complete 16 n len)
    (there : entered s) (ahead : Ahead (bitsOf (len s) (code len n s) ++ rest) source)
    {depth rounds : Nat} (above : tableBits ≤ depth) (below : depth ≤ len s)
    (enough : len s - depth ≤ rounds) :
    UefiDecompress.descend tables n source.mBitBuf rounds (1 <<< (31 - depth))
      (tables.cellAt (placeOf tableBits n keys (depth, path len n s depth))) = some s := by
  obtain ⟨used, -⟩ := trie.long s there
  have short := complete.short s used.1
  obtain ⟨index, counted⟩ : ∃ index, index = len s - depth := ⟨_, rfl⟩
  induction index generalizing depth rounds with
  | zero =>
    have last : depth = len s := by omega
    have symbol : ¬n ≤ s := Nat.not_le_of_lt used.1
    rw [last, path_self, trie.leaves s there]
    cases rounds with
    | zero => exact if_neg symbol
    | succ rounds => exact if_neg symbol
  | succ index inductionHypothesis =>
    have goes : depth < len s := by omega
    have node := trie.nodes _ (trie.paths s there depth above goes)
    have half : (1 <<< (31 - depth)) >>> 1 = 1 <<< (31 - (depth + 1)) := by
      have place : 31 - depth = 31 - (depth + 1) + 1 := by omega
      rw [place, Nat.shiftLeft_succ, Nat.shiftRight_eq_div_pow]
      omega
    obtain ⟨rounds, rfl⟩ : ∃ more, rounds = more + 1 := ⟨rounds - 1, by omega⟩
    have next : (if source.mBitBuf &&& 1 <<< (31 - depth) ≠ 0 then
          tables.mRight (n + keys.idxOf (depth, path len n s depth))
        else tables.mLeft (n + keys.idxOf (depth, path len n s depth))) =
        tables.cellAt (placeOf tableBits n keys (depth + 1, path len n s (depth + 1))) := by
      have bit := masked_bit used complete ahead goes
      rw [placeOf_node (Nat.lt_succ_of_le above)]
      simp only [Nat.add_sub_cancel, path_half goes, bit]
      split <;> rfl
    rw [UefiDecompress.descend, node, if_pos (Nat.le_add_right _ _), half, next]
    exact inductionHypothesis (by omega) (by omega) (by omega) (by omega)

/-- The symbol that the bits start with is found. -/
theorem Built.lookup (built : Built tableBits n len tables) (complete : Complete 16 n len)
    (positive : 0 < tableBits) (narrow : tableBits ≤ 15) (used : Used len n s)
    (ahead : Ahead (bitsOf (len s) (code len n s) ++ rest) source) :
    UefiDecompress.lookup tables n tableBits source.mBitBuf = some s := by
  have first : source.mBitBuf >>> (32 - tableBits) =
      front tableBits (bitsOf (len s) (code len n s) ++ rest) := ahead.peek (by omega)
  have rounds : 32 + (2 * nc - 1) = 31 + (2 * nc - 1) + 1 := rfl
  rw [UefiDecompress.lookup, first]
  by_cases short : len s ≤ tableBits
  · rw [built.short s used short _ (starts_front (code_lt complete used) short rest), rounds,
      UefiDecompress.descend]
    exact if_neg (Nat.not_le_of_lt used.1)
  · obtain ⟨keys, trie⟩ := built.long
    have long := Nat.lt_of_not_le short
    have inside := complete.short s used.1
    have enough : len s - tableBits ≤ 32 + (2 * nc - 1) := by omega
    have found := trie.descend complete ⟨used, long⟩ ahead le_rfl long.le enough
    rwa [placeOf_table (rfl : (tableBits, path len n s tableBits).1 = tableBits),
      ← path_front complete used long.le rest] at found

/-- Of lengths that `Count` has cells for, `MakeTable` refuses exactly those that take no multiple
of all numbers of 16 bits. It takes lengths whose codes leave nothing out, and then the bits of
each code lead to its symbol, whatever comes behind them. -/
theorem makeTable_lookup (bitLen : Cells Nat) (tables : Tables) (positive : 0 < tableBits)
    (narrow : tableBits ≤ 15) (few : n ≤ nc) (less : n < 2 ^ (tableBits + 1))
    (short : ∀ s < n, bitLen s ≤ 16) :
    (makeTable n bitLen tableBits tables = none ↔
      ((List.range n).map fun s =>
        if bitLen s ≠ 0 then 2 ^ (16 - bitLen s) else 0).sum % 2 ^ 16 ≠ 0) ∧
    (((List.range n).map fun s => if bitLen s ≠ 0 then 2 ^ (16 - bitLen s) else 0).sum =
        2 ^ 16 →
      ∃ later, makeTable n bitLen tableBits tables = some later ∧
        ∀ s < n, bitLen s ≠ 0 → ∀ rest source,
          Ahead (bitsOf (bitLen s) (code bitLen n s) ++ rest) source →
          UefiDecompress.lookup later n tableBits source.mBitBuf = some s) := by
  have cells : ((List.range n).map fun s =>
      if bitLen s ≠ 0 ∧ bitLen s ≤ 16 then 2 ^ (16 - bitLen s) else 0) =
        (List.range n).map fun s => if bitLen s ≠ 0 then 2 ^ (16 - bitLen s) else 0 := by
    refine List.map_congr_left ?_
    intro s member
    simp only [short s (List.mem_range.mp member), and_true]
  refine ⟨?_, fun whole => ?_⟩
  · rw [makeTable, countLens_count, ← cells, ← offset_sum]
    simp only [startTable_eq]
    split
    · rename_i corrupted
      exact ⟨fun _ => corrupted, fun _ => rfl⟩
    · rename_i sound
      exact ⟨fun refused => absurd refused (by simp), fun corrupted => absurd corrupted sound⟩
  · have complete := (complete_iff_sum short).mpr whole
    obtain ⟨later, made, built, -⟩ := makeTable_built tables complete positive narrow
      few less
    exact ⟨later, made, fun s inside coded rest source ahead =>
      built.lookup complete positive narrow ⟨inside, coded⟩ ahead⟩

/-- Three symbols, with codes of one and two bits. -/
theorem makeTable_lookup_three :
    ∃ later, makeTable 3 ⟨fun s => if s = 0 then 1 else 2⟩ 8
        ⟨⟨fun _ => 7⟩, ⟨fun _ => 7⟩, ⟨fun _ => 7⟩⟩ = some later ∧
      ∀ rest source, Ahead ([true, true] ++ rest) source →
        UefiDecompress.lookup later 3 8 source.mBitBuf = some 2 := by
  obtain ⟨later, made, found⟩ := (makeTable_lookup (n := 3) ⟨fun s => if s = 0 then 1 else 2⟩
    ⟨⟨fun _ => 7⟩, ⟨fun _ => 7⟩, ⟨fun _ => 7⟩⟩ (by decide : 0 < 8) (by decide) (by decide)
    (by decide) (by decide)).2 (by decide)
  exact ⟨later, made, fun rest source => found 2 (by decide) (by decide) rest source⟩

end Lookup

end SmcPkg.UefiDecompress
