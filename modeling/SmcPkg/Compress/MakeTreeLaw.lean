import SmcPkg.Compress.MakeTree
import SmcPkg.Lib.PrefixCode

/-!
# The codes of the compression are complete

The heap decides which entries are merged, but whichever they are, what is merged is a
forest over the symbols that occur: its leaves are these symbols, and they are all on the
row of those that left the heap in the end. The depths of the leaves of a tree fill the
numbers of a width exactly. Cutting them at 16 takes less than one number for each leaf
that is cut, so the loop that takes the surplus back finds leaves of length 16 until it
ends, and the lengths fill the numbers of 16 bits again.
-/

namespace SmcPkg.TianoCompress

open Cells

section Heap

variable {mFreq mHeap : Cells Nat} {mHeapSize index index3 : Nat}

/-- The lesser child is one of the two, inside of the heap. -/
theorem lesserChild_bounds (mFreq mHeap : Cells Nat) (parent : 2 * index ≤ mHeapSize) :
    2 * index ≤ lesserChild mFreq mHeapSize index mHeap ∧
      lesserChild mFreq mHeapSize index mHeap ≤ mHeapSize := by
  rw [lesserChild]
  split
  · omega
  · omega

/-- The hole is filled with its entry somewhere below. -/
theorem downHeapLoop_perm {rounds : Nat} (inside : 1 ≤ index ∧ index ≤ mHeapSize) :
    (row (downHeapLoop mFreq mHeapSize index3 rounds index mHeap) 1 mHeapSize).Perm
      (row (mHeap.write index index3) 1 mHeapSize) := by
  induction rounds generalizing index mHeap with
  | zero => exact List.Perm.refl _
  | succ rounds inductionHypothesis =>
    rw [downHeapLoop]
    split
    · rename_i parent
      have bounds := lesserChild_bounds mFreq mHeap parent
      split
      · exact List.Perm.refl _
      · exact (inductionHypothesis (by omega)).trans
          (row_exchange (by omega) (by omega) (by omega))
    · exact List.Perm.refl _

/-- `DownHeap` changes only the order of the heap. -/
theorem downHeap_perm (inside : 1 ≤ index ∧ index ≤ mHeapSize) :
    (row (downHeap mFreq mHeapSize index mHeap) 1 mHeapSize).Perm (row mHeap 1 mHeapSize) := by
  refine (downHeapLoop_perm inside).trans (List.Perm.of_eq (row_congr fun i _ _ => ?_))
  rw [write_read]
  split
  · rename_i same
    rw [same]
  · rfl

/-- The heap is ordered without a change of what is in it. -/
theorem heapify_perm (mFreq mHeap : Cells Nat) (inside : index ≤ mHeapSize) :
    (row (heapify mFreq mHeapSize index mHeap) 1 mHeapSize).Perm (row mHeap 1 mHeapSize) := by
  induction index generalizing mHeap with
  | zero => exact List.Perm.refl _
  | succ index inductionHypothesis =>
    exact (inductionHypothesis _ (by omega)).trans (downHeap_perm ⟨by omega, inside⟩)

end Heap

section Merge

variable {mN : Nat} {merging : Merging}

/-- What is sorted comes behind the symbols that left the heap before. -/
theorem sort_row (mN : Nat) (merging : Merging) (index : Nat) :
    row (merging.sort mN index).code 0 (merging.sort mN index).mSortPtr =
      row merging.code 0 merging.mSortPtr ++ [index].filter (· < mN) := by
  rw [Merging.sort]
  by_cases symbol : index < mN
  · rw [if_pos symbol, List.filter_cons_of_pos (by simpa using symbol), List.filter_nil]
    have placed := row_write_snoc merging.code 0 merging.mSortPtr index
    rwa [Nat.zero_add] at placed
  · rw [if_neg symbol, List.filter_cons_of_neg (by simpa using symbol), List.filter_nil,
      List.append_nil]

/-- Sorting leaves the arrays of the merge. -/
theorem sort_rest (mN : Nat) (merging : Merging) (index : Nat) :
    (merging.sort mN index).mHeap = merging.mHeap ∧
      (merging.sort mN index).mHeapSize = merging.mHeapSize ∧
      (merging.sort mN index).mFreq = merging.mFreq ∧
      (merging.sort mN index).mLeft = merging.mLeft ∧
      (merging.sort mN index).mRight = merging.mRight ∧
      (merging.sort mN index).avail = merging.avail := by
  rw [Merging.sort]
  split
  · exact ⟨rfl, rfl, rfl, rfl, rfl, rfl⟩
  · exact ⟨rfl, rfl, rfl, rfl, rfl, rfl⟩

/-- What a round does: two entries give way to a node over them. -/
structure Merges (mN index index2 : Nat) (rest : List Nat) (merging after : Merging) : Prop where
  before : (row merging.mHeap 1 merging.mHeapSize).Perm (index :: index2 :: rest)
  heap : (row after.mHeap 1 after.mHeapSize).Perm (merging.avail :: rest)
  size : after.mHeapSize + 1 = merging.mHeapSize
  freq : after.mFreq = merging.mFreq.write merging.avail
    ((merging.mFreq index + merging.mFreq index2) % 2 ^ 16)
  left : after.mLeft = merging.mLeft.write merging.avail index
  right : after.mRight = merging.mRight.write merging.avail index2
  avail : after.avail = merging.avail + 1
  sorted : row after.code 0 after.mSortPtr =
    row merging.code 0 merging.mSortPtr ++ [index, index2].filter (· < mN)

/-- The heap without its first entry. -/
theorem takeFirst_row (mN : Nat) (two : 2 ≤ merging.mHeapSize) :
    (row (merging.takeFirst mN).mHeap 1 (merging.takeFirst mN).mHeapSize).Perm
      (row merging.mHeap 2 (merging.mHeapSize - 1)) := by
  obtain ⟨size, sized⟩ : ∃ size, merging.mHeapSize = size + 2 := ⟨_, (Nat.sub_add_cancel two).symm⟩
  obtain ⟨heap, heapSize, freq, -, -, -⟩ := sort_rest mN merging
    (merging.mHeap 1)
  have moved : (row (merging.takeFirst mN).mHeap 1 (size + 1)).Perm
      (row (merging.mHeap.write 1 (merging.mHeap (size + 2))) 1 (size + 1)) := by
    change (row (downHeap _ ((merging.sort mN (merging.mHeap 1)).mHeapSize - 1) 1
      ((merging.sort mN (merging.mHeap 1)).mHeap.write 1 ((merging.sort mN (merging.mHeap 1)).mHeap
        (merging.sort mN (merging.mHeap 1)).mHeapSize))) 1 (size + 1)).Perm _
    rw [heap, heapSize, sized]
    exact downHeap_perm ⟨le_rfl, by omega⟩
  have count : (merging.takeFirst mN).mHeapSize = size + 1 := by
    change (merging.sort mN (merging.mHeap 1)).mHeapSize - 1 = size + 1
    rw [heapSize, sized]
    rfl
  rw [count, sized]
  refine moved.trans ?_
  have last : size + 2 - 1 = size + 1 := rfl
  rw [row_succ, write_same, row_write_outside (by omega), last, row_snoc, Nat.add_comm 2 size]
  exact List.perm_append_singleton _ _ |>.symm

/-- A round merges the first entry with the one that is first after it. -/
theorem round_merges (mN : Nat) (two : 2 ≤ merging.mHeapSize) :
    ∃ index index2 rest, Merges mN index index2 rest merging (merging.round mN) := by
  obtain ⟨size, sized⟩ : ∃ size, merging.mHeapSize = size + 2 := ⟨_, (Nat.sub_add_cancel two).symm⟩
  have taken := takeFirst_row mN two
  have first := sort_rest mN merging (merging.mHeap 1)
  have second := sort_rest mN (merging.takeFirst mN)
    ((merging.takeFirst mN).mHeap 1)
  have count : (merging.takeFirst mN).mHeapSize = size + 1 := by
    change (merging.sort mN (merging.mHeap 1)).mHeapSize - 1 = size + 1
    rw [first.2.1, sized]
    rfl
  have freq : (merging.takeFirst mN).mFreq = merging.mFreq := first.2.2.1
  have left : (merging.takeFirst mN).mLeft = merging.mLeft := first.2.2.2.1
  have right : (merging.takeFirst mN).mRight = merging.mRight := first.2.2.2.2.1
  have avail : (merging.takeFirst mN).avail = merging.avail := first.2.2.2.2.2
  refine ⟨merging.mHeap 1, (merging.takeFirst mN).mHeap 1, row (merging.takeFirst mN).mHeap 2 size,
    ?_, ?_, ?_, ?_, ?_, ?_, ?_, ?_⟩
  · rw [sized, row_succ]
    refine List.Perm.cons _ ?_
    rw [count, sized, row_succ] at taken
    exact taken.symm
  · have placed : (merging.round mN).mHeap = downHeap (merging.round mN).mFreq
        ((merging.takeFirst mN).sort mN ((merging.takeFirst mN).mHeap 1)).mHeapSize 1
        (((merging.takeFirst mN).sort mN ((merging.takeFirst mN).mHeap 1)).mHeap.write 1
          ((merging.takeFirst mN).sort mN ((merging.takeFirst mN).mHeap 1)).avail) := rfl
    have sizes : (merging.round mN).mHeapSize = size + 1 := second.2.1.trans count
    rw [placed, sizes, second.1, second.2.1, second.2.2.2.2.2, count, avail]
    refine (downHeap_perm ⟨le_rfl, by omega⟩).trans (List.Perm.of_eq ?_)
    rw [row_succ, write_same, row_write_outside (by omega)]
  · have sizes : (merging.round mN).mHeapSize = size + 1 := second.2.1.trans count
    rw [sizes, sized]
  · rw [← freq, ← avail, ← second.2.2.1, ← second.2.2.2.2.2]
    rfl
  · rw [← left, ← avail, ← second.2.2.2.1, ← second.2.2.2.2.2]
    rfl
  · rw [← right, ← avail, ← second.2.2.2.2.1, ← second.2.2.2.2.2]
    rfl
  · rw [← avail, ← second.2.2.2.2.2]
    rfl
  · have both := sort_row mN (merging.takeFirst mN)
      ((merging.takeFirst mN).mHeap 1)
    have one : row (merging.takeFirst mN).code 0 (merging.takeFirst mN).mSortPtr =
        row merging.code 0 merging.mSortPtr ++ [merging.mHeap 1].filter (· < mN) :=
      sort_row mN merging (merging.mHeap 1)
    rw [one, List.append_assoc, ← List.filter_append] at both
    exact both

end Merge

section Forest

variable {mN : Nat} {mLeft mRight : Cells Nat}

/-- A node and the depths of the leaves below it. -/
inductive Shape (mN : Nat) (mLeft mRight : Cells Nat) : Nat → List Nat → Prop
  | leaf {index : Nat} (symbol : index < mN) : Shape mN mLeft mRight index [0]
  | node {index : Nat} {lefts rights : List Nat} (inner : mN ≤ index)
      (left : mLeft index < index) (right : mRight index < index)
      (below : Shape mN mLeft mRight (mLeft index) lefts)
      (belowRight : Shape mN mLeft mRight (mRight index) rights) :
      Shape mN mLeft mRight index ((lefts ++ rights).map (· + 1))

/-- A node that is made later is not below. -/
theorem Shape.write {index avail : Nat} {depths : List Nat} (left right : Nat)
    (shape : Shape mN mLeft mRight index depths) (old : index < avail) :
    Shape mN (mLeft.write avail left) (mRight.write avail right) index depths := by
  induction shape with
  | leaf symbol => exact Shape.leaf symbol
  | @node index lefts rights inner leftBelow rightBelow _ _ leftShape rightShape =>
    have sameLeft : mLeft.write avail left index = mLeft index := write_other old.ne
    have sameRight : mRight.write avail right index = mRight index := write_other old.ne
    refine Shape.node inner ?_ ?_ ?_ ?_
    · rwa [sameLeft]
    · rwa [sameRight]
    · rw [sameLeft]
      exact leftShape (leftBelow.trans old)
    · rw [sameRight]
      exact rightShape (rightBelow.trans old)

/-- A tree has a leaf. -/
theorem Shape.ne_nil {index : Nat} {depths : List Nat}
    (shape : Shape mN mLeft mRight index depths) : depths ≠ [] := by
  induction shape with
  | leaf _ => exact List.cons_ne_nil _ _
  | node _ _ _ _ _ leftSome _ => simp [leftSome]

/-- The leaves of a tree fill the numbers of a width. -/
theorem Shape.kraft {index width : Nat} {depths : List Nat}
    (shape : Shape mN mLeft mRight index depths) (short : ∀ depth ∈ depths, depth ≤ width) :
    (depths.map fun depth => 2 ^ (width - depth)).sum = 2 ^ width := by
  induction shape generalizing width with
  | leaf _ => simp
  | @node _ lefts rights _ _ _ below _ leftKraft rightKraft =>
    obtain ⟨depth, member⟩ := List.exists_mem_of_ne_nil lefts below.ne_nil
    have deep : depth + 1 ≤ width :=
      short _ (List.mem_map_of_mem (List.mem_append_left rights member))
    obtain ⟨width, rfl⟩ := Nat.exists_eq_succ_of_ne_zero (by omega : width ≠ 0)
    have shallower : ∀ depth ∈ lefts ++ rights, depth ≤ width := by
      intro depth member
      exact Nat.le_of_succ_le_succ (short _ (List.mem_map_of_mem member))
    have left := leftKraft fun depth member => shallower depth (List.mem_append_left _ member)
    have right := rightKraft fun depth member => shallower depth (List.mem_append_right _ member)
    rw [List.map_map, List.map_append, List.sum_append, Nat.pow_succ, Nat.mul_two]
    simp only [Function.comp_def, Nat.succ_eq_add_one, Nat.add_sub_add_right]
    rw [left, right]

/-- What the merges keep: the heap holds the roots of a forest with as many leaves as there
are symbols that occur, and each of these is on the row of the sorted ones or on the heap. -/
structure Forest (mN : Nat) (used : List Nat) (total : Nat) (depths : Nat → List Nat)
    (merging : Merging) : Prop where
  shapes : ∀ index ∈ row merging.mHeap 1 merging.mHeapSize,
    index < merging.avail ∧ Shape mN merging.mLeft merging.mRight index (depths index)
  leaves : ((row merging.mHeap 1 merging.mHeapSize).map fun index => (depths index).length).sum =
    used.length
  sorted : (row merging.code 0 merging.mSortPtr ++
    (row merging.mHeap 1 merging.mHeapSize).filter (· < mN)).Perm used
  freq : ((row merging.mHeap 1 merging.mHeapSize).map merging.mFreq).sum % 2 ^ 16 =
    total % 2 ^ 16
  narrow : ∀ index, merging.mFreq index < 2 ^ 16
  nodes : mN ≤ merging.avail
  count : merging.avail + merging.mHeapSize = mN + used.length

variable {used : List Nat} {total : Nat} {merging after : Merging}

/-- A merge keeps the forest. -/
theorem Merges.forest {depths : Nat → List Nat} {index index2 : Nat} {rest : List Nat}
    (forest : Forest mN used total depths merging)
    (merges : Merges mN index index2 rest merging after) :
    ∃ later, Forest mN used total later after := by
  obtain ⟨before, heap, size, freq, left, right, avail, sorted⟩ := merges
  have known : ∀ entry ∈ index :: index2 :: rest, entry < merging.avail ∧
      Shape mN merging.mLeft merging.mRight entry (depths entry) :=
    fun entry member => forest.shapes entry (before.mem_iff.mpr member)
  have first := known index (by simp)
  have second := known index2 (by simp)
  have others : ∀ entry ∈ rest, entry ≠ merging.avail := fun entry member =>
    (known entry (List.mem_cons_of_mem _ (List.mem_cons_of_mem _ member))).1.ne
  refine ⟨Function.update depths merging.avail
    ((depths index ++ depths index2).map (· + 1)), ?_, ?_, ?_, ?_, ?_, ?_, ?_⟩
  · intro entry member
    rw [left, right, avail]
    rcases List.mem_cons.mp (heap.mem_iff.mp member) with rfl | old
    · refine ⟨Nat.lt_succ_self _, ?_⟩
      rw [Function.update_self]
      refine Shape.node forest.nodes ?_ ?_ ?_ ?_
      · rw [write_same]
        exact first.1
      · rw [write_same]
        exact second.1
      · rw [write_same]
        exact first.2.write index index2 first.1
      · rw [write_same]
        exact second.2.write index index2 second.1
    · have there := known entry (List.mem_cons_of_mem _ (List.mem_cons_of_mem _ old))
      refine ⟨there.1.trans (Nat.lt_succ_self _), ?_⟩
      rw [Function.update_of_ne there.1.ne]
      exact there.2.write index index2 there.1
  · have same : rest.map (fun entry => (Function.update depths merging.avail
        ((depths index ++ depths index2).map (· + 1)) entry).length) =
        rest.map fun entry => (depths entry).length :=
      List.map_congr_left fun entry member => by rw [Function.update_of_ne (others entry member)]
    have leaves := (before.map fun entry => (depths entry).length).sum_eq
    rw [forest.leaves, List.map_cons, List.map_cons, List.sum_cons, List.sum_cons] at leaves
    rw [(heap.map _).sum_eq, List.map_cons, List.sum_cons, same, Function.update_self,
      List.length_map, List.length_append, leaves]
    omega
  · have inner : ¬merging.avail < mN := Nat.not_lt.mpr forest.nodes
    have split : (index :: index2 :: rest).filter (· < mN) =
        [index, index2].filter (· < mN) ++ rest.filter (· < mN) :=
      List.filter_append [index, index2] rest
    refine List.Perm.trans ?_ forest.sorted
    rw [sorted, List.append_assoc]
    refine List.Perm.append_left _ ?_
    refine (List.Perm.append_left _ (heap.filter _)).trans ?_
    have dropped : (merging.avail :: rest).filter (· < mN) = rest.filter (· < mN) :=
      List.filter_cons_of_neg (by simpa using inner)
    rw [dropped, ← split]
    exact (before.filter _).symm
  · have same : rest.map after.mFreq = rest.map merging.mFreq := by
      refine List.map_congr_left fun entry member => ?_
      rw [freq, write_other (others entry member)]
    have sum := (before.map merging.mFreq).sum_eq
    rw [List.map_cons, List.map_cons, List.sum_cons, List.sum_cons] at sum
    rw [(heap.map _).sum_eq, List.map_cons, List.sum_cons, same, freq, write_same,
      Nat.mod_add_mod, ← forest.freq, sum, Nat.add_assoc]
  · intro entry
    rw [freq, write_read]
    split
    · exact Nat.mod_lt _ (by decide)
    · exact forest.narrow entry
  · rw [avail]
    exact forest.nodes.trans (Nat.le_succ _)
  · have counted := forest.count
    rw [avail]
    omega

/-- The loop merges until the node that was made last is the only entry. -/
theorem mergeLoop_forest (rounds : Nat) {depths : Nat → List Nat}
    (forest : Forest mN used total depths merging) (two : 2 ≤ merging.mHeapSize)
    (enough : merging.mHeapSize ≤ rounds + 1) :
    ∃ later, Forest mN used total later (mergeLoop mN rounds merging) ∧
      mN < (mergeLoop mN rounds merging).avail ∧
      (mergeLoop mN rounds merging).mHeapSize = 1 ∧
      row (mergeLoop mN rounds merging).mHeap 1 1 = [(mergeLoop mN rounds merging).avail - 1] := by
  induction rounds generalizing merging depths with
  | zero => omega
  | succ rounds inductionHypothesis =>
    obtain ⟨index, index2, rest, merges⟩ := round_merges mN two
    obtain ⟨later, kept⟩ := merges.forest forest
    have size := merges.size
    rw [mergeLoop]
    split
    · rename_i more
      exact inductionHypothesis kept more (by omega)
    · rename_i last
      have one : (merging.round mN).mHeapSize = 1 := by omega
      refine ⟨later, kept, ?_, one, ?_⟩
      · rw [merges.avail]
        exact Nat.lt_succ_of_le forest.nodes
      · have heap := merges.heap
        rw [one] at heap
        have alone : rest = [] := by
          have length := heap.length_eq
          rw [row_length, List.length_cons] at length
          exact List.eq_nil_of_length_eq_zero (by omega)
        rw [alone] at heap
        rw [merges.avail, Nat.add_sub_cancel]
        exact List.perm_singleton.mp heap

end Forest

section Start

variable {freq : Cells Nat}

/-- The symbols that occur. -/
def occurring (freq : Cells Nat) (n : Nat) : List Nat :=
  (List.range n).filter fun index => freq index ≠ 0

/-- The symbols that occur are put on the heap in their order. -/
theorem collect_row (freq heap : Cells Nat) (n : Nat) :
    row ((List.range n).foldl (collect freq) (heap, 0)).1 1
        ((List.range n).foldl (collect freq) (heap, 0)).2 = occurring freq n ∧
      ((List.range n).foldl (collect freq) (heap, 0)).2 = (occurring freq n).length := by
  induction n with
  | zero => exact ⟨rfl, rfl⟩
  | succ n inductionHypothesis =>
    obtain ⟨entries, count⟩ := inductionHypothesis
    rw [List.range_succ, List.foldl_append, List.foldl_cons, List.foldl_nil, collect, occurring,
      List.range_succ, List.filter_append]
    by_cases occurs : freq n ≠ 0
    · rw [if_pos occurs, List.filter_cons_of_pos (by simpa using occurs), List.filter_nil,
        ← occurring, List.length_append, ← count, List.length_singleton]
      refine ⟨?_, rfl⟩
      have placed := row_write_snoc ((List.range n).foldl (collect freq) (heap, 0)).1 1
        ((List.range n).foldl (collect freq) (heap, 0)).2 n
      rwa [entries, Nat.add_comm 1] at placed
    · rw [if_neg occurs, List.filter_cons_of_neg (by simpa using occurs), List.filter_nil,
        List.append_nil, ← occurring]
      exact ⟨entries, count⟩

/-- Where no symbol occurs the heap is left as it is. -/
theorem collect_none (freq heap : Cells Nat) (n : Nat)
    (none : ((List.range n).foldl (collect freq) (heap, 0)).2 = 0) :
    ((List.range n).foldl (collect freq) (heap, 0)).1 = heap := by
  induction n with
  | zero => rfl
  | succ n inductionHypothesis =>
    rw [List.range_succ, List.foldl_append, List.foldl_cons, List.foldl_nil, collect] at none ⊢
    split at none
    · exact absurd none (Nat.succ_ne_zero _)
    · rename_i absent
      rw [if_neg absent]
      exact inductionHypothesis none

/-- The heap with the symbols that occur is a forest of leaves. -/
theorem initial_forest (code left right : Cells Nat) {mN : Nat} {heap : Cells Nat} {size : Nat}
    (narrow : ∀ index, freq index < 2 ^ 16) (entries : (row heap 1 size).Perm (occurring freq mN)) :
    Forest mN (occurring freq mN) ((occurring freq mN).map freq).sum (fun _ => [0])
      ⟨heap, size, freq, left, right, mN, code, 0⟩ := by
  have below : ∀ index ∈ occurring freq mN, index < mN := by
    intro index member
    exact List.mem_range.mp (List.mem_of_mem_filter member)
  have length := entries.length_eq
  rw [row_length] at length
  refine ⟨?_, ?_, ?_, ?_, narrow, le_rfl, ?_⟩
  · intro index member
    have symbol := below index (entries.mem_iff.mp member)
    exact ⟨symbol, Shape.leaf symbol⟩
  · rw [← length]
    simp
  · refine (entries.filter _).trans (List.Perm.of_eq (List.filter_eq_self.mpr ?_))
    intro index member
    simpa using below index member
  · rw [(entries.map _).sum_eq]
  · rw [← length]

end Start

end SmcPkg.TianoCompress
