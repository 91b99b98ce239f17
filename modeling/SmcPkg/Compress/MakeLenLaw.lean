import SmcPkg.Compress.MakeTreeLaw

/-!
# The lengths of the codes

The counts of `MakeLen` are weighed by what a leaf takes of the numbers of 16 bits. Before
the loop that adjusts them the surplus is less than the count of the length 16, and each
round takes one from both. So the loop never runs out of leaves of that length, and in the
end the lengths fill the numbers.
-/

namespace SmcPkg.TianoCompress

open Cells

section Weights

/-- The sum of the counts up to a length, each weighed by its length. -/
def weigh (weight counts : Nat → Nat) : Nat → Nat
  | 0 => 0
  | index + 1 => weigh weight counts index + counts (index + 1) * weight (index + 1)

/-- What a leaf takes of the codes of 16 bits. -/
def share (depth : Nat) : Nat := 2 ^ (16 - depth)

variable {weight counts : Nat → Nat} {index length : Nat}

/-- The sum of `MakeLen` weighs each length with the share of the numbers of 16 bits that its
codes take. -/
theorem cumulate_weigh (mLenCnt : Cells Nat) (length : Nat) :
    cumulate mLenCnt length = weigh share mLenCnt length := by
  induction length with
  | zero => rfl
  | succ length inductionHypothesis =>
    rw [cumulate, weigh, inductionHypothesis, Nat.shiftLeft_eq, share]

/-- The weight of all lengths is where the codes behind them would begin. -/
theorem offset_weigh (counts : Nat → Nat) (length : Nat) :
    PrefixCode.offset 16 counts (length + 1) = weigh share counts length := by
  induction length with
  | zero => rfl
  | succ length inductionHypothesis =>
    rw [PrefixCode.offset, inductionHypothesis, weigh, share]

/-- A weight depends on the counts of its lengths only. -/
theorem weigh_congr {others : Nat → Nat}
    (same : ∀ index, 0 < index → index ≤ length → counts index = others index) :
    weigh weight counts length = weigh weight others length := by
  induction length with
  | zero => rfl
  | succ length inductionHypothesis =>
    rw [weigh, weigh, same _ (Nat.succ_pos length) le_rfl,
      inductionHypothesis fun index positive below =>
        same index positive (Nat.le_succ_of_le below)]

/-- A count is changed. -/
theorem weigh_write (weight : Nat → Nat) (cells : Cells Nat) (value : Nat)
    (inside : 0 < index ∧ index ≤ length) :
    weigh weight (cells.write index value) length + cells index * weight index =
      weigh weight cells length + value * weight index := by
  induction length with
  | zero => omega
  | succ length inductionHypothesis =>
    rw [weigh, weigh]
    by_cases last : index = length + 1
    · subst last
      have below : weigh weight (cells.write (length + 1) value) length =
          weigh weight cells length :=
        weigh_congr fun index _ within => write_other (by omega)
      rw [below, write_same]
      omega
    · have before := inductionHypothesis (by omega)
      rw [write_other (Ne.symm last)]
      omega

/-- Where nothing is counted nothing weighs. -/
theorem weigh_zero (none : ∀ index, 0 < index → index ≤ length → counts index = 0) :
    weigh weight counts length = 0 := by
  induction length with
  | zero => rfl
  | succ length inductionHypothesis =>
    rw [weigh, none _ (Nat.succ_pos length) le_rfl, Nat.zero_mul,
      inductionHypothesis fun index positive below =>
        none index positive (Nat.le_succ_of_le below)]

/-- The counts of a list are weighed as its members are. -/
theorem weigh_count {members : List Nat}
    (inside : ∀ member ∈ members, 0 < member ∧ member ≤ length) :
    weigh weight (fun index => members.count index) length = (members.map weight).sum := by
  induction members with
  | nil => exact weigh_zero fun _ _ _ => List.count_nil
  | cons member members inductionHypothesis =>
    rw [List.forall_mem_cons] at inside
    have more := weigh_write weight ⟨fun index => members.count index⟩
      (members.count member + 1) inside.1
    have same : weigh weight (fun index => (member :: members).count index) length =
        weigh weight (Cells.write ⟨fun index => members.count index⟩ member
          (members.count member + 1)) length := by
      refine weigh_congr fun index _ _ => ?_
      rw [write_read, List.count_cons]
      by_cases here : index = member
      · subst here
        simp
      · rw [if_neg here, if_neg (by simpa using Ne.symm here), Nat.add_zero]
    rw [same, List.map_cons, List.sum_cons, ← inductionHypothesis inside.2]
    change _ + members.count member * weight member = _ at more
    rw [Nat.add_mul, Nat.one_mul] at more
    change weigh _ _ _ = _ + weigh weight (fun index => members.count index) length
    change _ = weigh weight (fun index => members.count index) length + _ at more
    omega

end Weights

section Counts

variable {mN index : Nat} {mLeft mRight : Cells Nat} {depths : List Nat}

/-- `CountLen` counts the leaves by their depths, those below 16 at 16. -/
theorem countLen_shape (shape : Shape mN mLeft mRight index depths) {rounds depth : Nat}
    (enough : index < rounds) (mLenCnt : Cells Nat) (place : Nat) :
    countLen mN mLeft mRight rounds index depth mLenCnt place =
      mLenCnt place + (depths.map fun below => min (depth + below) 16).count place := by
  induction shape generalizing rounds depth mLenCnt with
  | @leaf index symbol =>
    obtain ⟨rounds, rfl⟩ := Nat.exists_eq_succ_of_ne_zero (by omega : rounds ≠ 0)
    have cut : (if depth < 16 then depth else 16) = min depth 16 := by
      split <;> omega
    rw [countLen, if_pos symbol, cut, write_read]
    by_cases here : place = min depth 16
    · rw [if_pos here, here]
      simp
    · rw [if_neg here]
      simp [Ne.symm here]
  | @node index lefts rights inner left right _ _ leftCounts rightCounts =>
    obtain ⟨rounds, rfl⟩ := Nat.exists_eq_succ_of_ne_zero (by omega : rounds ≠ 0)
    rw [countLen, if_neg (Nat.not_lt.mpr inner), rightCounts (by omega), leftCounts (by omega),
      List.map_map, List.map_append, List.count_append, Nat.add_assoc]
    simp only [Function.comp_def, Nat.add_assoc, Nat.add_comm 1]

/-- The depths of a tree, cut at 16. -/
def cut (depths : List Nat) : List Nat := depths.map fun depth => min depth 16

/-- The cut takes less than one number for each leaf at 16. -/
theorem cut_surplus {width : Nat} (wide : 16 ≤ width) (short : ∀ depth ∈ depths, depth ≤ width) :
    ((depths.map fun depth => 2 ^ (width - depth)).sum ≤
        2 ^ (width - 16) * ((cut depths).map share).sum) ∧
      2 ^ (width - 16) * ((cut depths).map share).sum ≤
        (depths.map fun depth => 2 ^ (width - depth)).sum +
          (cut depths).count 16 * (2 ^ (width - 16) - 1) := by
  induction depths with
  | nil => simp [cut]
  | cons depth depths inductionHypothesis =>
    rw [List.forall_mem_cons] at short
    obtain ⟨lower, upper⟩ := inductionHypothesis short.2
    have head : cut (depth :: depths) = min depth 16 :: cut depths := rfl
    rw [head, List.map_cons, List.map_cons, List.sum_cons, List.sum_cons, List.count_cons,
      Nat.mul_add]
    by_cases deep : 16 ≤ depth
    · have atCut : min depth 16 = 16 := Nat.min_eq_right deep
      have power : 2 ^ (width - depth) ≤ 2 ^ (width - 16) :=
        Nat.pow_le_pow_right (by decide) (by omega)
      have positive : 0 < 2 ^ (width - depth) := Nat.two_pow_pos _
      rw [atCut, share, Nat.sub_self, Nat.pow_zero, Nat.mul_one]
      simp only [beq_self_eq_true, if_true, Nat.add_mul, Nat.one_mul]
      omega
    · have above : min depth 16 = depth := Nat.min_eq_left (by omega)
      have same : 2 ^ (width - 16) * share depth = 2 ^ (width - depth) := by
        rw [share, ← Nat.pow_add]
        congr 1
        omega
      have notCut : ¬(depth == 16) = true := by
        rw [beq_iff_eq]
        omega
      rw [above, same, if_neg notCut, Nat.add_zero]
      omega

end Counts

section Adjust

/-- The counts while they are adjusted: what is above the numbers of 16 bits is less than
the count of the length 16. -/
structure Adjusting (leaves cum : Nat) (mLenCnt : Cells Nat) : Prop where
  cum_eq : cum = weigh share mLenCnt 16
  full : 2 ^ 16 ≤ cum
  surplus : cum = 2 ^ 16 ∨ cum < 2 ^ 16 + mLenCnt 16
  leaves_eq : weigh (fun _ => 1) mLenCnt 16 = leaves

variable {leaves cum : Nat} {mLenCnt : Cells Nat}

/-- The search for the longest code that is used finds it, or there is none. -/
theorem longestUsed_cases (mLenCnt : Cells Nat) (length : Nat) :
    (longestUsed mLenCnt length = 0 ∧ ∀ index, 0 < index → index ≤ length → mLenCnt index = 0) ∨
      (0 < longestUsed mLenCnt length ∧ longestUsed mLenCnt length ≤ length ∧
        mLenCnt (longestUsed mLenCnt length) ≠ 0) := by
  induction length with
  | zero => exact Or.inl ⟨rfl, fun index positive inside => absurd positive (by omega)⟩
  | succ length inductionHypothesis =>
    rw [longestUsed]
    by_cases nonzero : mLenCnt (length + 1) ≠ 0
    · rw [if_pos nonzero]
      exact Or.inr ⟨Nat.succ_pos length, le_rfl, nonzero⟩
    · rw [if_neg nonzero]
      rcases inductionHypothesis with ⟨zero, none⟩ | ⟨positive, inside, there⟩
      · refine Or.inl ⟨zero, fun index positive inside => ?_⟩
        by_cases last : index = length + 1
        · rw [last]
          exact not_not.mp nonzero
        · exact none index positive (by omega)
      · exact Or.inr ⟨positive, Nat.le_succ_of_le inside, there⟩

/-- One length less of a kind takes its weight away. -/
theorem weigh_taken (weight : Nat → Nat) {cells : Cells Nat} {length index value : Nat}
    (inside : 0 < index ∧ index ≤ length) (more : cells index = value + 1) :
    weigh weight (cells.write index value) length + weight index = weigh weight cells length := by
  have written := weigh_write weight cells value inside
  rw [more, Nat.add_mul, Nat.one_mul] at written
  omega

/-- More lengths of a kind add their weights. -/
theorem weigh_added {weight : Nat → Nat} {cells : Cells Nat} {length index value : Nat}
    (inside : 0 < index ∧ index ≤ length) :
    weigh weight (cells.write index (cells index + value)) length =
      weigh weight cells length + value * weight index := by
  have written := weigh_write weight cells (cells index + value) inside
  rw [Nat.add_mul] at written
  omega

/-- What a round does to the weights, if a leaf can be moved down. -/
theorem adjust_weigh (weight : Nat → Nat) {last : Nat} (atLast : mLenCnt 16 = last + 1)
    (few : last < 2 ^ 16) (shorter : ∃ index, 0 < index ∧ index ≤ 15 ∧ mLenCnt index ≠ 0) :
    last ≤ adjust mLenCnt 16 ∧ ∃ index, 0 < index ∧ index ≤ 15 ∧
      weigh weight (adjust mLenCnt) 16 + weight index + weight 16 =
        weigh weight mLenCnt 16 + 2 * weight (index + 1) := by
  have wrapped : (mLenCnt 16 + 65535) % 65536 = last := by
    rw [atLast]
    omega
  rw [adjust, wrapped]
  have lowest : 0 < 16 ∧ 16 ≤ 16 := ⟨by decide, le_rfl⟩
  have taken := weigh_taken weight lowest atLast
  have there : mLenCnt.write 16 last 16 = last := write_same _ _ _
  have others : ∀ index, index ≤ 15 → mLenCnt.write 16 last index = mLenCnt index :=
    fun index below => write_other (by omega)
  generalize mLenCnt.write 16 last = middle at taken there others ⊢
  obtain ⟨index, positive, below, nonzero⟩ := shorter
  rcases longestUsed_cases middle 15 with ⟨-, none⟩ | ⟨found, inside, leaf⟩
  · exact absurd ((others index below).symm.trans (none index positive below)) nonzero
  · generalize longestUsed middle 15 = longest at found inside leaf ⊢
    obtain ⟨value, counted⟩ := Nat.exists_eq_succ_of_ne_zero leaf
    have within : 0 < longest ∧ longest ≤ 16 := by omega
    have moved := weigh_taken weight within counted
    have kept : last ≤ middle.write longest value 16 := by
      rw [write_other (by omega), there]
    rw [if_neg found.ne', counted, Nat.succ_eq_add_one, Nat.add_sub_cancel]
    generalize middle.write longest value = later at moved kept ⊢
    refine ⟨?_, longest, found, inside, ?_⟩
    · rw [write_read]
      split
      · rename_i here
        rw [← here]
        omega
      · exact kept
    · rw [weigh_added (by omega)]
      omega

/-- A round of the loop takes one from what is above the numbers of 16 bits. -/
theorem Adjusting.adjust (adjusting : Adjusting leaves cum mLenCnt) (few : leaves < 2 ^ 16)
    (above : cum ≠ 2 ^ 16) : Adjusting leaves (cum - 1) (adjust mLenCnt) := by
  obtain ⟨cum_eq, full, surplus, leaves_eq⟩ := adjusting
  have nonzero : cum < 2 ^ 16 + mLenCnt 16 := surplus.resolve_left above
  have lastOf : ∀ weight, weigh weight mLenCnt 16 =
      weigh weight mLenCnt 15 + mLenCnt 16 * weight 16 := fun _ => rfl
  obtain ⟨last, atLast⟩ := Nat.exists_eq_succ_of_ne_zero (by omega : mLenCnt 16 ≠ 0)
  have fewLast : mLenCnt 16 ≤ leaves := by
    rw [← leaves_eq, lastOf]
    omega
  have shorter : ∃ index, 0 < index ∧ index ≤ 15 ∧ mLenCnt index ≠ 0 := by
    by_contra none
    push Not at none
    have all := lastOf share
    rw [weigh_zero fun index positive below => none index positive below, ← cum_eq] at all
    have one : share 16 = 1 := rfl
    rw [one] at all
    omega
  have shares := adjust_weigh share atLast (by omega) shorter
  have ones := adjust_weigh (fun _ => 1) atLast (by omega) shorter
  obtain ⟨kept, index, positive, below, moved⟩ := shares
  obtain ⟨-, -, -, -, counted⟩ := ones
  have half : share index = 2 * share (index + 1) := by
    rw [share, share, ← Nat.pow_succ']
    congr 1
    omega
  have one : share 16 = 1 := rfl
  refine ⟨?_, ?_, ?_, ?_⟩
  · omega
  · omega
  · exact Or.inr (by omega)
  · omega

/-- The loop ends when the lengths fill the numbers of 16 bits. -/
theorem adjustLoop_full {rounds : Nat} (adjusting : Adjusting leaves cum mLenCnt)
    (few : leaves < 2 ^ 16) (enough : cum ≤ 2 ^ 16 + rounds) :
    ∃ final, adjustLoop rounds cum mLenCnt = some final ∧ Adjusting leaves (2 ^ 16) final := by
  induction rounds generalizing cum mLenCnt with
  | zero =>
    have even : cum = 2 ^ 16 := le_antisymm enough adjusting.full
    subst even
    exact ⟨mLenCnt, rfl, adjusting⟩
  | succ rounds inductionHypothesis =>
    rw [adjustLoop]
    by_cases even : cum = 2 ^ 16
    · subst even
      exact ⟨mLenCnt, if_pos rfl, adjusting⟩
    · rw [if_neg (by simpa using even)]
      exact inductionHypothesis (adjusting.adjust few even) (by omega)

/-- The depths of a tree, cut at 16, are adjusted from the start. -/
theorem adjusting_cut {mN index : Nat} {mLeft mRight : Cells Nat} {depths : List Nat}
    (shape : Shape mN mLeft mRight index depths) (inner : mN ≤ index)
    (counted : ∀ length, mLenCnt length = (cut depths).count length) :
    Adjusting depths.length (cumulate mLenCnt 16) mLenCnt := by
  have deep : ∀ depth ∈ depths, 0 < depth := by
    cases shape with
    | leaf symbol => omega
    | node _ _ _ _ _ =>
      intro depth member
      obtain ⟨below, -, rfl⟩ := List.mem_map.mp member
      exact Nat.succ_pos below
  have inside : ∀ depth ∈ cut depths, 0 < depth ∧ depth ≤ 16 := by
    intro depth member
    obtain ⟨whole, there, rfl⟩ := List.mem_map.mp member
    have positive := deep whole there
    omega
  have weighed : ∀ weight, weigh weight mLenCnt 16 = ((cut depths).map weight).sum := by
    intro weight
    rw [← weigh_count inside]
    exact weigh_congr fun length _ _ => counted length
  have short : ∀ depth ∈ depths, depth ≤ 16 + depths.sum := fun depth member =>
    (List.le_sum_of_mem member).trans (Nat.le_add_left _ _)
  obtain ⟨lower, upper⟩ := cut_surplus (Nat.le_add_right 16 depths.sum) short
  have parts : 2 ^ (16 + depths.sum) = 2 ^ depths.sum * 2 ^ 16 := by
    rw [Nat.add_comm, Nat.pow_add]
  rw [shape.kraft short, Nat.add_sub_cancel_left, parts] at lower upper
  have positive : 0 < 2 ^ depths.sum := Nat.two_pow_pos _
  rw [cumulate_weigh]
  refine ⟨rfl, ?_, ?_, ?_⟩
  · rw [weighed]
    exact Nat.le_of_mul_le_mul_left lower positive
  · rw [weighed, counted]
    by_cases none : (cut depths).count 16 = 0
    · rw [none, Nat.zero_mul, Nat.add_zero] at upper
      exact Or.inl (Nat.eq_of_mul_eq_mul_left positive (le_antisymm upper lower))
    · refine Or.inr (Nat.lt_of_mul_lt_mul_left (a := 2 ^ depths.sum) (upper.trans_lt ?_))
      have less : (cut depths).count 16 * (2 ^ depths.sum - 1) <
          (cut depths).count 16 * 2 ^ depths.sum :=
        Nat.mul_lt_mul_of_pos_left (by omega) (Nat.pos_of_ne_zero none)
      rw [Nat.mul_add, Nat.mul_comm (2 ^ depths.sum) ((cut depths).count 16)]
      omega
  · rw [weighed, cut, List.map_map]
    simp [Function.comp_def]

end Adjust

section Rows

variable {mLenCnt code : Cells Nat}

/-- As many lengths are in the row as are counted. -/
theorem lengthRow_length (mLenCnt : Cells Nat) (length : Nat) :
    (lengthRow mLenCnt length).length = weigh (fun _ => 1) mLenCnt length := by
  induction length with
  | zero => rfl
  | succ length inductionHypothesis =>
    rw [lengthRow, List.length_append, List.length_replicate, inductionHypothesis, weigh]
    omega

/-- They are those that have been counted: 0 is none of them. -/
theorem lengthRow_inside {length index : Nat} (member : index ∈ lengthRow mLenCnt length) :
    0 < index ∧ index ≤ length := by
  induction length with
  | zero => exact absurd member List.not_mem_nil
  | succ length inductionHypothesis =>
    rcases List.mem_append.mp member with here | later
    · have same := List.eq_of_mem_replicate here
      omega
    · have below := inductionHypothesis later
      omega

/-- A length is on the row as often as it is counted. -/
theorem lengthRow_count {length index : Nat} (inside : 0 < index ∧ index ≤ length) :
    (lengthRow mLenCnt length).count index = mLenCnt index := by
  induction length with
  | zero => omega
  | succ length inductionHypothesis =>
    rw [lengthRow, List.count_append, List.count_replicate]
    by_cases last : index = length + 1
    · subst last
      have none : (lengthRow mLenCnt length).count (length + 1) = 0 :=
        List.count_eq_zero_of_not_mem fun member => by
          have below := lengthRow_inside member
          omega
      simp [none]
    · rw [if_neg (by simpa using Ne.symm last), Nat.zero_add]
      exact inductionHypothesis (by omega)

/-- A symbol that is not in the order of the heap keeps its length. -/
theorem assignLens_other {lengths : List Nat} {mSortPtr symbol : Nat} {mLen : Cells Nat}
    (absent : symbol ∉ row code mSortPtr lengths.length) :
    assignLens code lengths mSortPtr mLen symbol = mLen symbol := by
  induction lengths generalizing mSortPtr mLen with
  | nil => rfl
  | cons index lengths inductionHypothesis =>
    rw [List.length_cons, row_succ, List.mem_cons, not_or] at absent
    rw [assignLens, inductionHypothesis absent.2, write_other absent.1]

/-- The lengths go to the symbols in their order. -/
theorem assignLens_row (mLen : Cells Nat) {lengths : List Nat} {mSortPtr : Nat}
    (distinct : (row code mSortPtr lengths.length).Nodup) :
    (row code mSortPtr lengths.length).map (assignLens code lengths mSortPtr mLen) = lengths := by
  induction lengths generalizing mSortPtr mLen with
  | nil => rfl
  | cons index lengths inductionHypothesis =>
    rw [List.length_cons, row_succ, List.nodup_cons] at distinct
    rw [List.length_cons, row_succ, List.map_cons, assignLens, assignLens_other distinct.1,
      write_same, inductionHypothesis _ distinct.2]

end Rows

end SmcPkg.TianoCompress
