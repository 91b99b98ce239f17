import SmcPkg.Lib.BitRows

/-!
# Codes by their lengths

A code gives each symbol a number of bits, and no number of bits is the front of another
one. Such a code can be made from the lengths alone: the numbers are handed out in the
order of the lengths, and for one length in the order of the symbols. Aligned to one width
they cut the numbers of that width into intervals, one for each symbol. Where the intervals
leave nothing out, whatever comes on a stream starts with the bits of one symbol.
-/

namespace SmcPkg.PrefixCode

open BitRows

section Codes

/-- How many of the first symbols have a length. -/
def count (len : Nat → Nat) (n l : Nat) : Nat := (List.range n).countP fun s => len s = l

/-- The number of the first code of a length. -/
def start (counts : Nat → Nat) : Nat → Nat
  | 0 => 0
  | 1 => 0
  | l + 2 => 2 * (start counts (l + 1) + counts (l + 1))

/-- Where the codes of a length begin when all are aligned to the width `limit`. -/
def offset (limit : Nat) (counts : Nat → Nat) : Nat → Nat
  | 0 => 0
  | 1 => 0
  | l + 2 => offset limit counts (l + 1) + counts (l + 1) * 2 ^ (limit - (l + 1))

/-- The place of a symbol among those of its length. -/
def rank (len : Nat → Nat) (s : Nat) : Nat := count len s (len s)

/-- The number of a symbol among `n`. -/
def code (len : Nat → Nat) (n s : Nat) : Nat := start (count len n) (len s) + rank len s

/-- The lengths of `n` symbols leave nothing of the numbers of the width `limit` out. A
length of zero stands for a symbol without a code. -/
structure Complete (limit n : Nat) (len : Nat → Nat) : Prop where
  short : ∀ s < n, len s ≤ limit
  full : offset limit (count len n) (limit + 1) = 2 ^ limit

end Codes

section Counts

variable {len : Nat → Nat} {n l s : Nat}

/-- One symbol more is counted with its length. -/
theorem count_succ : count len (n + 1) l = count len n l + if len n = l then 1 else 0 := by
  simp [count, List.range_succ]

/-- More symbols are counted more often. -/
theorem count_mono {m : Nat} (below : m ≤ n) : count len m l ≤ count len n l := by
  induction n, below using Nat.le_induction with
  | base => exact le_rfl
  | succ n _ inductionHypothesis =>
    rw [count_succ]
    exact inductionHypothesis.trans (Nat.le_add_right _ _)

/-- A symbol counts among those of its length. -/
theorem rank_lt (inside : s < n) : rank len s < count len n (len s) := by
  have counted : count len (s + 1) (len s) = rank len s + 1 := by
    rw [count_succ, if_pos rfl, rank]
  have least : count len (s + 1) (len s) ≤ count len n (len s) := count_mono inside
  rw [counted] at least
  exact least

/-- Symbols of one length are ranked in their order. -/
theorem rank_lt_rank {t : Nat} (before : s < t) (same : len s = len t) :
    rank len s < rank len t := by
  have below : rank len s < count len t (len s) := rank_lt before
  rwa [same] at below

/-- There is a symbol for every place among those of a length. -/
theorem exists_of_lt_count {place : Nat} (below : place < count len n l) :
    ∃ s < n, len s = l ∧ rank len s = place := by
  induction n with
  | zero => exact absurd below (by simp [count])
  | succ n inductionHypothesis =>
    rw [count_succ] at below
    by_cases earlier : place < count len n l
    · obtain ⟨s, inside, same, ranked⟩ := inductionHypothesis earlier
      exact ⟨s, Nat.lt_succ_of_lt inside, same, ranked⟩
    · split at below
      · rename_i same
        refine ⟨n, Nat.lt_succ_self n, same, ?_⟩
        rw [rank, same]
        omega
      · omega

end Counts

section Offsets

variable {limit : Nat} {counts : Nat → Nat}

/-- Behind the codes of a length the longer ones begin. -/
theorem offset_succ {l : Nat} (positive : 0 < l) :
    offset limit counts (l + 1) = offset limit counts l + counts l * 2 ^ (limit - l) := by
  obtain ⟨l, rfl⟩ := Nat.exists_eq_succ_of_ne_zero positive.ne'
  rfl

/-- Longer codes begin later. -/
theorem offset_mono (limit : Nat) (counts : Nat → Nat) {l m : Nat} (below : l ≤ m) :
    offset limit counts l ≤ offset limit counts m := by
  induction m, below using Nat.le_induction with
  | base => exact le_rfl
  | succ m _ inductionHypothesis =>
    refine inductionHypothesis.trans ?_
    by_cases positive : 0 < m
    · rw [offset_succ positive]
      exact Nat.le_add_right _ _
    · have zero : m = 0 := by omega
      subst zero
      exact le_rfl

/-- The first code of a length, aligned. -/
theorem start_mul (counts : Nat → Nat) {l : Nat} (inside : l ≤ limit) :
    start counts l * 2 ^ (limit - l) = offset limit counts l := by
  induction l using Nat.twoStepInduction with
  | zero => rw [start, offset, Nat.zero_mul]
  | one => rw [start, offset, Nat.zero_mul]
  | more l _ inductionHypothesis =>
    have narrower : 2 ^ (limit - (l + 1)) = 2 * 2 ^ (limit - (l + 2)) := by
      rw [← Nat.pow_succ']
      congr 1
      omega
    rw [start, offset, ← inductionHypothesis (by omega), narrower]
    ring

/-- What one symbol more adds to the offsets. -/
theorem offset_count_succ (len : Nat → Nat) (n l : Nat) :
    offset limit (count len (n + 1)) (l + 1) = offset limit (count len n) (l + 1) +
      if len n ≠ 0 ∧ len n ≤ l then 2 ^ (limit - len n) else 0 := by
  induction l with
  | zero =>
    have outside : ¬(len n ≠ 0 ∧ len n ≤ 0) := by omega
    rw [if_neg outside]
    rfl
  | succ l inductionHypothesis =>
    have positive : 0 < l + 1 := Nat.succ_pos l
    rw [offset_succ positive, offset_succ positive, inductionHypothesis, count_succ, Nat.add_mul]
    by_cases here : len n = l + 1
    · have before : ¬(len n ≠ 0 ∧ len n ≤ l) := by omega
      have now : len n ≠ 0 ∧ len n ≤ l + 1 := by omega
      rw [if_pos here, if_neg before, if_pos now, here]
      omega
    · have same : (len n ≠ 0 ∧ len n ≤ l + 1) ↔ (len n ≠ 0 ∧ len n ≤ l) := by omega
      rw [if_neg here, if_congr same rfl rfl]
      omega

/-- The offset behind all lengths is what the symbols take together. -/
theorem offset_sum (len : Nat → Nat) (n l : Nat) :
    offset limit (count len n) (l + 1) = ((List.range n).map fun s =>
      if len s ≠ 0 ∧ len s ≤ l then 2 ^ (limit - len s) else 0).sum := by
  induction n with
  | zero =>
    have none : ∀ m, offset limit (count len 0) m = 0 := by
      intro m
      induction m using Nat.twoStepInduction with
      | zero => rfl
      | one => rfl
      | more m _ inductionHypothesis =>
        rw [offset, inductionHypothesis]
        simp [count]
    rw [none]
    rfl
  | succ n inductionHypothesis =>
    rw [offset_count_succ, inductionHypothesis, List.range_succ, List.map_append,
      List.sum_append, List.map_singleton, List.sum_singleton]

/-- A code leaves nothing out if what its symbols take adds up to all numbers. -/
theorem complete_iff_sum {len : Nat → Nat} {n : Nat} (short : ∀ s < n, len s ≤ limit) :
    Complete limit n len ↔ ((List.range n).map fun s =>
      if len s ≠ 0 then 2 ^ (limit - len s) else 0).sum = 2 ^ limit := by
  have same : ∀ s ∈ List.range n, (if len s ≠ 0 ∧ len s ≤ limit then 2 ^ (limit - len s) else 0) =
      if len s ≠ 0 then 2 ^ (limit - len s) else 0 := by
    intro s member
    have inside := short s (List.mem_range.mp member)
    exact if_congr ⟨And.left, fun nonzero => ⟨nonzero, inside⟩⟩ rfl rfl
  rw [← List.map_congr_left same, ← offset_sum]
  exact ⟨Complete.full, fun full => ⟨short, full⟩⟩

/-- What lies below the offset of a length belongs to a shorter one. -/
theorem exists_length {w l : Nat} (below : w < offset limit counts l) :
    ∃ k, 0 < k ∧ k < l ∧ offset limit counts k ≤ w ∧ w < offset limit counts (k + 1) := by
  induction l with
  | zero => exact absurd below (Nat.not_lt_zero w)
  | succ l inductionHypothesis =>
    by_cases earlier : w < offset limit counts l
    · obtain ⟨k, positive, inside, above, upTo⟩ := inductionHypothesis earlier
      exact ⟨k, positive, Nat.lt_succ_of_lt inside, above, upTo⟩
    · refine ⟨l, ?_, Nat.lt_succ_self l, Nat.le_of_not_lt earlier, below⟩
      rw [Nat.pos_iff_ne_zero]
      rintro rfl
      exact Nat.not_lt_zero w below

end Offsets

section Intervals

variable {limit n s t w : Nat} {len : Nat → Nat}

/-- A symbol has a code. -/
def Used (len : Nat → Nat) (n s : Nat) : Prop := s < n ∧ len s ≠ 0

/-- The numbers of the width `limit` that start with the code of a symbol. -/
def Starts (limit n : Nat) (len : Nat → Nat) (w s : Nat) : Prop :=
  code len n s * 2 ^ (limit - len s) ≤ w ∧ w < (code len n s + 1) * 2 ^ (limit - len s)

/-- The interval of a symbol lies among those of its length. -/
theorem Starts.within (complete : Complete limit n len) (used : Used len n s)
    (starts : Starts limit n len w s) :
    offset limit (count len n) (len s) ≤ w ∧ w < offset limit (count len n) (len s + 1) := by
  obtain ⟨above, upTo⟩ := starts
  have aligned := start_mul (count len n) (complete.short s used.1)
  have ranked : rank len s + 1 ≤ count len n (len s) := rank_lt used.1
  rw [code, Nat.add_mul, aligned] at above
  rw [code, Nat.add_assoc, Nat.add_mul, aligned] at upTo
  refine ⟨le_trans (Nat.le_add_right _ _) above, upTo.trans_le ?_⟩
  rw [offset_succ (Nat.pos_of_ne_zero used.2)]
  exact Nat.add_le_add_left (Nat.mul_le_mul_right _ ranked) _

/-- A number starts with the code of one symbol only. -/
theorem Starts.unique (complete : Complete limit n len) (usedS : Used len n s)
    (usedT : Used len n t) (startsS : Starts limit n len w s) (startsT : Starts limit n len w t) :
    s = t := by
  obtain ⟨fromS, toS⟩ := startsS.within complete usedS
  obtain ⟨fromT, toT⟩ := startsT.within complete usedT
  have same : len s = len t := by
    by_contra apart
    rcases Nat.lt_or_gt_of_ne apart with shorter | longer
    · have order := offset_mono limit (count len n) (Nat.succ_le_of_lt shorter)
      exact absurd (toS.trans_le order) (Nat.not_lt_of_le fromT)
    · have order := offset_mono limit (count len n) (Nat.succ_le_of_lt longer)
      exact absurd (toT.trans_le order) (Nat.not_lt_of_le fromS)
  obtain ⟨lowS, highS⟩ := startsS
  obtain ⟨lowT, highT⟩ := startsT
  rw [← same] at lowT highT
  have below : code len n s < code len n t + 1 :=
    Nat.lt_of_mul_lt_mul_right (lowS.trans_lt highT)
  have above : code len n t < code len n s + 1 :=
    Nat.lt_of_mul_lt_mul_right (lowT.trans_lt highS)
  have ranks : rank len s = rank len t := by
    rw [code, code, ← same] at below above
    omega
  rcases Nat.lt_trichotomy s t with before | equal | after
  · exact absurd (rank_lt_rank before same) (by omega)
  · exact equal
  · exact absurd (rank_lt_rank after same.symm) (by omega)

/-- Every number starts with the code of some symbol. -/
theorem exists_starts (complete : Complete limit n len) (inside : w < 2 ^ limit) :
    ∃ s, Used len n s ∧ Starts limit n len w s := by
  rw [← complete.full] at inside
  obtain ⟨l, positive, short, above, upTo⟩ := exists_length inside
  rw [offset_succ positive] at upTo
  have power : 0 < 2 ^ (limit - l) := Nat.two_pow_pos _
  have placed : (w - offset limit (count len n) l) / 2 ^ (limit - l) < count len n l := by
    rw [Nat.div_lt_iff_lt_mul power]
    omega
  obtain ⟨s, below, same, ranked⟩ := exists_of_lt_count placed
  refine ⟨s, ⟨below, by omega⟩, ?_⟩
  have within : l ≤ limit := by omega
  have aligned := start_mul (count len n) within
  have divided := Nat.div_add_mod (w - offset limit (count len n) l) (2 ^ (limit - l))
  have small := Nat.mod_lt (w - offset limit (count len n) l) power
  rw [Starts, code, same, ranked, Nat.add_assoc, Nat.add_mul, Nat.add_mul, aligned,
    Nat.add_mul _ 1, Nat.one_mul, Nat.mul_comm (_ / _)]
  omega

/-- A code has no more bits than its length. -/
theorem code_lt (complete : Complete limit n len) (used : Used len n s) :
    code len n s < 2 ^ len s := by
  have short := complete.short s used.1
  have power : 0 < 2 ^ (limit - len s) := Nat.two_pow_pos _
  have last : Starts limit n len ((code len n s + 1) * 2 ^ (limit - len s) - 1) s := by
    rw [Starts, Nat.add_mul, Nat.one_mul]
    omega
  have below := (last.within complete used).2.trans_le
    ((offset_mono limit _ (Nat.succ_le_succ short)).trans_eq complete.full)
  have parts : 2 ^ limit = 2 ^ len s * 2 ^ (limit - len s) := by
    rw [← Nat.pow_add, Nat.add_sub_cancel' short]
  rw [parts] at below
  have scaled : (code len n s + 1) * 2 ^ (limit - len s) ≤ 2 ^ len s * 2 ^ (limit - len s) := by
    omega
  exact Nat.lt_of_succ_le (Nat.le_of_mul_le_mul_right scaled power)

/-- The bits of a symbol, whatever comes behind them, start with its code. -/
theorem starts_front {width : Nat} (fits : code len n s < 2 ^ len s) (short : len s ≤ width)
    (rest : List Bool) :
    Starts width n len (front width (bitsOf (len s) (code len n s) ++ rest)) s := by
  have split := front_bitsOf_append (len s) (width - len s) (code len n s) rest
  rw [Nat.add_sub_cancel' short, Nat.mod_eq_of_lt fits] at split
  have below := front_lt (width - len s) rest
  rw [split, Starts, Nat.add_mul, Nat.one_mul]
  omega

/-- No code is the front of another one. -/
theorem prefixFree (complete : Complete limit n len) (usedS : Used len n s)
    (usedT : Used len n t)
    (front : bitsOf (len s) (code len n s) <+: bitsOf (len t) (code len n t)) : s = t := by
  obtain ⟨rest, joined⟩ := front
  have startsS := starts_front (code_lt complete usedS) (complete.short s usedS.1) rest
  have startsT := starts_front (code_lt complete usedT) (complete.short t usedT.1) []
  rw [joined] at startsS
  rw [List.append_nil] at startsT
  exact startsS.unique complete usedS usedT startsT

/-- Symbols without a code at the end change no code. -/
theorem count_extend {other : Nat → Nat} {m l : Nat} (more : n ≤ m)
    (same : ∀ s < n, other s = len s) (none : ∀ s, n ≤ s → s < m → other s = 0) (nonzero : l ≠ 0) :
    count other m l = count len n l := by
  induction m, more using Nat.le_induction with
  | base =>
    refine List.countP_congr fun s member => ?_
    rw [same s (List.mem_range.mp member)]
  | succ m above inductionHypothesis =>
    rw [count_succ, none m above (Nat.lt_succ_self m), if_neg (Ne.symm nonzero), Nat.add_zero]
    exact inductionHypothesis fun s reaches below => none s reaches (Nat.lt_succ_of_lt below)

/-- The first code of a length does not depend on symbols without a code. -/
theorem start_extend {counts others : Nat → Nat} (same : ∀ l, l ≠ 0 → others l = counts l)
    (l : Nat) : start others l = start counts l := by
  induction l using Nat.twoStepInduction with
  | zero => rfl
  | one => rfl
  | more l _ inductionHypothesis =>
    rw [start, start, inductionHypothesis, same _ (Nat.succ_ne_zero l)]

/-- Nor does the place where a length begins. -/
theorem offset_extend {counts others : Nat → Nat} (same : ∀ l, l ≠ 0 → others l = counts l)
    (l : Nat) : offset limit others l = offset limit counts l := by
  induction l using Nat.twoStepInduction with
  | zero => rfl
  | one => rfl
  | more l _ inductionHypothesis =>
    rw [offset, offset, inductionHypothesis, same _ (Nat.succ_ne_zero l)]

/-- The codes are those of the first symbols. -/
theorem Complete.extend {other : Nat → Nat} {m : Nat} (complete : Complete limit n len)
    (more : n ≤ m) (same : ∀ s < n, other s = len s)
    (none : ∀ s, n ≤ s → s < m → other s = 0) :
    Complete limit m other ∧ ∀ s, Used len n s → code other m s = code len n s := by
  have counts : ∀ l, l ≠ 0 → count other m l = count len n l :=
    fun l nonzero => count_extend more same none nonzero
  refine ⟨⟨fun s inside => ?_, ?_⟩, fun s used => ?_⟩
  · by_cases first : s < n
    · rw [same s first]
      exact complete.short s first
    · rw [none s (Nat.le_of_not_lt first) inside]
      exact Nat.zero_le limit
  · rw [offset_extend counts, complete.full]
  · have before : count other s (len s) = count len s (len s) :=
      count_extend le_rfl (fun t below => same t (below.trans used.1))
        (fun t above below => absurd below (Nat.not_lt_of_le above)) used.2
    rw [code, code, rank, rank, same s used.1, start_extend counts, before]

end Intervals

section Inner

variable {limit n s t : Nat} {len : Nat → Nat}

/-- The first bits of a code. -/
def path (len : Nat → Nat) (n s depth : Nat) : Nat := code len n s >>> (len s - depth)

/-- A code is on a path if the path comes from it. -/
theorem path_self : path len n s (len s) = code len n s := by
  rw [path, Nat.sub_self, Nat.shiftRight_zero]

/-- A path without its last bit is the path before. -/
theorem path_half {depth : Nat} (inside : depth < len s) :
    path len n s (depth + 1) / 2 = path len n s depth := by
  have place : len s - depth = len s - (depth + 1) + 1 := by omega
  rw [path, path, place, Nat.shiftRight_succ]

/-- The last bit of a path. -/
theorem path_bit {depth : Nat} (inside : depth < len s) :
    path len n s (depth + 1) % 2 = ((code len n s).testBit (len s - 1 - depth)).toNat := by
  have place : len s - (depth + 1) = len s - 1 - depth := by omega
  rw [path, place, Nat.toNat_testBit, Nat.shiftRight_eq_div_pow]

/-- The front of what starts with a code is a path of it. -/
theorem path_front {depth : Nat} (complete : Complete limit n len) (used : Used len n s)
    (inside : depth ≤ len s) (rest : List Bool) :
    front depth (bitsOf (len s) (code len n s) ++ rest) = path len n s depth := by
  have whole : front (depth + (len s - depth)) (bitsOf (len s) (code len n s) ++ rest) =
      code len n s := by
    rw [Nat.add_sub_cancel' inside]
    exact front_number (code_lt complete used) rest
  rw [← front_shiftRight depth (len s - depth), whole, path]

/-- No code is on the path to another one. -/
theorem path_ne_code (complete : Complete limit n len) (usedS : Used len n s)
    (usedT : Used len n t) (shorter : len t ≤ len s)
    (same : path len n s (len t) = code len n t) : t = s := by
  have power : 0 < 2 ^ (limit - len s) := Nat.two_pow_pos _
  have parts : 2 ^ (limit - len t) = 2 ^ (len s - len t) * 2 ^ (limit - len s) := by
    rw [← Nat.pow_add]
    congr 1
    have short := complete.short s usedS.1
    omega
  rw [path, Nat.shiftRight_eq_div_pow] at same
  have divided := Nat.div_add_mod (code len n s) (2 ^ (len s - len t))
  have small := Nat.mod_lt (code len n s) (Nat.two_pow_pos (len s - len t))
  rw [same, Nat.mul_comm] at divided
  have startsS : Starts limit n len (code len n s * 2 ^ (limit - len s)) s := by
    rw [Starts, Nat.add_mul, Nat.one_mul]
    omega
  have startsT : Starts limit n len (code len n s * 2 ^ (limit - len s)) t := by
    rw [Starts, parts, ← Nat.mul_assoc, ← Nat.mul_assoc]
    constructor
    · exact Nat.mul_le_mul_right _ (by omega)
    · refine Nat.mul_lt_mul_of_pos_right ?_ power
      rw [Nat.add_mul, Nat.one_mul]
      omega
  exact startsT.unique complete usedT usedS startsS

/-- The middle of the numbers that start with a path. -/
def middle (limit : Nat) (key : Nat × Nat) : Nat := (2 * key.2 + 1) * 2 ^ (limit - key.1 - 1)

/-- The inner places of codes are different ones. -/
theorem middle_inj {first second : Nat × Nat} (insideFirst : first.1 < limit)
    (insideSecond : second.1 < limit) (same : middle limit first = middle limit second) :
    first = second := by
  have apart : ∀ a b v w : Nat, a < b → (2 * v + 1) * 2 ^ a ≠ (2 * w + 1) * 2 ^ b := by
    intro a b v w below equal
    obtain ⟨more, rfl⟩ := Nat.exists_eq_add_of_lt below
    rw [Nat.add_assoc, Nat.pow_add, Nat.mul_comm (2 ^ a), ← Nat.mul_assoc, Nat.pow_succ] at equal
    have halves := Nat.eq_of_mul_eq_mul_right (Nat.two_pow_pos a) equal
    rw [← Nat.mul_assoc] at halves
    omega
  obtain ⟨depth, value⟩ := first
  obtain ⟨otherDepth, other⟩ := second
  simp only [middle] at insideFirst insideSecond same
  rcases Nat.lt_trichotomy (limit - depth - 1) (limit - otherDepth - 1) with below | equal | above
  · exact absurd same (apart _ _ _ _ below)
  · rw [equal] at same
    have values := Nat.eq_of_mul_eq_mul_right (Nat.two_pow_pos _) same
    rw [Prod.mk.injEq]
    omega
  · exact absurd same.symm (apart _ _ _ _ above)

/-- The numbers that start with a code start with each path of it. -/
theorem path_block {depth : Nat} (short : len s ≤ limit) (inside : depth < len s) :
    path len n s depth * 2 ^ (limit - depth) ≤ code len n s * 2 ^ (limit - len s) ∧
      (code len n s + 1) * 2 ^ (limit - len s) ≤ (path len n s depth + 1) * 2 ^ (limit - depth) := by
  have parts : 2 ^ (limit - depth) = 2 ^ (len s - depth) * 2 ^ (limit - len s) := by
    rw [← Nat.pow_add]
    congr 1
    omega
  have divided := Nat.div_add_mod (code len n s) (2 ^ (len s - depth))
  have small := Nat.mod_lt (code len n s) (Nat.two_pow_pos (len s - depth))
  rw [← Nat.shiftRight_eq_div_pow, ← path, Nat.mul_comm] at divided
  rw [parts, ← Nat.mul_assoc, ← Nat.mul_assoc]
  constructor
  · exact Nat.mul_le_mul_right _ (by omega)
  · refine Nat.mul_le_mul_right _ ?_
    rw [Nat.add_mul, Nat.one_mul]
    omega

/-- The numbers that start with a path have the width of the codes. -/
theorem path_end_le {depth : Nat} (complete : Complete limit n len) (used : Used len n s)
    (inside : depth < len s) : (path len n s depth + 1) * 2 ^ (limit - depth) ≤ 2 ^ limit := by
  have short := complete.short s used.1
  have shortPath : path len n s depth < 2 ^ depth := by
    rw [path, Nat.shiftRight_eq_div_pow, Nat.div_lt_iff_lt_mul (Nat.two_pow_pos _),
      ← Nat.pow_add, Nat.add_sub_cancel' inside.le]
    exact code_lt complete used
  have whole : 2 ^ limit = 2 ^ depth * 2 ^ (limit - depth) := by
    rw [← Nat.pow_add]
    congr 1
    omega
  rw [whole]
  exact Nat.mul_le_mul_right _ shortPath

/-- Where the interval of a symbol is not longer than half of a block, and has the middle of the
block in it, it begins there: the middle is a multiple of its size. -/
theorem eq_middle_of_starts {size value t : Nat} (fine : limit - len t ≤ size)
    (starts : Starts limit n len (value * (2 * 2 ^ size) + 2 ^ size) t) :
    code len n t * 2 ^ (limit - len t) = value * (2 * 2 ^ size) + 2 ^ size := by
  have multiple : value * (2 * 2 ^ size) + 2 ^ size =
      (2 * value + 1) * 2 ^ (size - (limit - len t)) * 2 ^ (limit - len t) := by
    rw [Nat.mul_assoc, ← Nat.pow_add, Nat.sub_add_cancel fine]
    ring
  obtain ⟨above, below⟩ := starts
  rw [multiple] at above below ⊢
  have least := Nat.le_of_mul_le_mul_right above (Nat.two_pow_pos _)
  have most := Nat.lt_of_mul_lt_mul_right below
  rw [le_antisymm least (Nat.le_of_lt_succ most)]

/-- Otherwise the interval has the whole block in it. -/
theorem starts_of_block {size value t w : Nat} (coarse : size < limit - len t)
    (starts : Starts limit n len (value * (2 * 2 ^ size) + 2 ^ size) t)
    (lower : value * (2 * 2 ^ size) ≤ w) (upper : w < (value + 1) * (2 * 2 ^ size)) :
    Starts limit n len w t := by
  obtain ⟨scale, scaled⟩ : ∃ scale, 2 ^ (limit - len t) = scale * (2 * 2 ^ size) := by
    refine ⟨2 ^ (limit - len t - (size + 1)), ?_⟩
    rw [← Nat.pow_succ', ← Nat.pow_add]
    congr 1
    omega
  have within : value * (2 * 2 ^ size) + 2 ^ size < (value + 1) * (2 * 2 ^ size) := by
    have power : 0 < 2 ^ size := Nat.two_pow_pos size
    rw [Nat.add_mul]
    omega
  obtain ⟨above, below⟩ := starts
  rw [scaled, ← Nat.mul_assoc (code len n t)] at above
  rw [scaled, ← Nat.mul_assoc (code len n t + 1)] at below
  have least := Nat.lt_of_mul_lt_mul_right (above.trans_lt within)
  have most : value < (code len n t + 1) * scale :=
    Nat.lt_of_mul_lt_mul_right ((Nat.le_add_right _ _).trans_lt below)
  rw [Starts, scaled, ← Nat.mul_assoc (code len n t), ← Nat.mul_assoc (code len n t + 1)]
  constructor
  · exact (Nat.mul_le_mul_right _ (Nat.le_of_lt_succ least)).trans lower
  · exact upper.trans_le (Nat.mul_le_mul_right _ (Nat.succ_le_of_lt most))

/-- A symbol begins in the middle of each path that goes on. -/
theorem exists_middle {depth : Nat} (complete : Complete limit n len) (used : Used len n s)
    (inside : depth < len s) :
    ∃ t < n, code len n t * 2 ^ (limit - len t) = middle limit (depth, path len n s depth) := by
  have short := complete.short s used.1
  obtain ⟨size, sized⟩ : ∃ size, size = limit - depth - 1 := ⟨_, rfl⟩
  have block : 2 ^ (limit - depth) = 2 * 2 ^ size := by
    rw [← Nat.pow_succ']
    congr 1
    omega
  have power : 0 < 2 ^ size := Nat.two_pow_pos size
  obtain ⟨lower, upper⟩ := @path_block limit n s len depth short inside
  have fits := path_end_le complete used inside
  rw [block] at lower upper fits
  have place : middle limit (depth, path len n s depth) =
      path len n s depth * (2 * 2 ^ size) + 2 ^ size := by
    rw [middle, ← sized]
    ring
  have within : path len n s depth * (2 * 2 ^ size) + 2 ^ size <
      (path len n s depth + 1) * (2 * 2 ^ size) := by
    rw [Nat.add_mul]
    omega
  obtain ⟨t, usedT, starts⟩ := exists_starts complete (within.trans_le fits)
  refine ⟨t, usedT.1, ?_⟩
  rw [place]
  by_cases fine : limit - len t ≤ size
  · exact eq_middle_of_starts fine starts
  · -- the interval would have the code of `s` in it, so it is that of `s`, which is finer
    have positive : 0 < 2 ^ (limit - len s) := Nat.two_pow_pos _
    have self : code len n s * 2 ^ (limit - len s) <
        (code len n s + 1) * 2 ^ (limit - len s) := by
      rw [Nat.add_mul, Nat.one_mul]
      omega
    have startsT := starts_of_block (Nat.lt_of_not_le fine) starts lower (self.trans_le upper)
    have startsS : Starts limit n len (code len n s * 2 ^ (limit - len s)) s := ⟨le_rfl, self⟩
    have same := startsS.unique complete used usedT startsT
    subst same
    omega

/-- There are fewer paths that go on than symbols. -/
theorem paths_length_lt {keys : List (Nat × Nat)} (complete : Complete limit n len)
    (distinct : keys.Nodup)
    (inner : ∀ key ∈ keys, ∃ s, Used len n s ∧ key.1 < len s ∧ path len n s key.1 = key.2) :
    keys.length < n := by
  have inLimit : ∀ key ∈ keys, key.1 < limit := by
    intro key member
    obtain ⟨s, used, inside, -⟩ := inner key member
    exact inside.trans_le (complete.short s used.1)
  have middles : (keys.map (middle limit)).Nodup :=
    distinct.map_on fun first memberFirst second memberSecond same =>
      middle_inj (inLimit first memberFirst) (inLimit second memberSecond) same
  have positive : 0 ∉ keys.map (middle limit) := by
    intro member
    obtain ⟨key, -, zero⟩ := List.mem_map.mp member
    have above : 0 < middle limit key := Nat.mul_pos (Nat.succ_pos _) (Nat.two_pow_pos _)
    omega
  have begins : ∀ value ∈ 0 :: keys.map (middle limit),
      value ∈ (List.range n).map fun t => code len n t * 2 ^ (limit - len t) := by
    intro value member
    rcases List.mem_cons.mp member with rfl | inside
    · obtain ⟨t, used, above, -⟩ := exists_starts complete (Nat.two_pow_pos limit)
      exact List.mem_map.mpr ⟨t, List.mem_range.mpr used.1, Nat.le_zero.mp above⟩
    · obtain ⟨⟨depth, front⟩, key, rfl⟩ := List.mem_map.mp inside
      obtain ⟨s, used, goes, same⟩ := inner _ key
      simp only at goes same
      obtain ⟨t, below, there⟩ := exists_middle complete used goes
      rw [same] at there
      exact List.mem_map.mpr ⟨t, List.mem_range.mpr below, there⟩
  have subperm := List.subperm_of_subset (List.nodup_cons.mpr ⟨positive, middles⟩) begins
  simpa using subperm.length_le

end Inner

end SmcPkg.PrefixCode
