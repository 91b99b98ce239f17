import SmcPkg.Compress.MakeTable
import SmcPkg.Lib.PrefixCode

/-!
# The tables decode what the lengths code

The nodes of a table stand for the paths that lead on from its indices. They are kept as a
list: the node of a path is numbered by its place. A pointer to a node or a symbol is found
at one place only, so what is entered for one code leaves the others. A complete code of `n`
symbols has fewer than `n` paths that go on, so the arrays have room for all of them.
-/

namespace SmcPkg.UefiDecompress

open BitRows Cells PrefixCode

section Places

variable {tableBits n low : Nat} {keys : List (Nat × Nat)} {key other : Nat × Nat}
  {tables : Tables} {place elsewhere : Place} {value : Nat}

@[simp] theorem cellAt_put_same : (tables.put value place).cellAt place = value := by
  cases place <;> exact write_same _ _ _

/-- A value that is put leaves the other cells. -/
theorem cellAt_put_other (apart : elsewhere ≠ place) :
    (tables.put value place).cellAt elsewhere = tables.cellAt elsewhere := by
  cases place <;> cases elsewhere
  all_goals first
    | exact write_other fun same => apart (by rw [same])
    | rfl

/-- A node without children is made, and a pointer gets its number. -/
def newNode (tables : Tables) (node : Nat) (place : Place) : Tables :=
  ({ tables with
    mRight := tables.mRight.write node 0
    mLeft := tables.mLeft.write node 0 } : Tables).put node place

/-- A new node changes the cell that points to it and its own two. -/
theorem cellAt_newNode_other {node : Nat} (apart : elsewhere ≠ place)
    (notLeft : elsewhere ≠ .left node) (notRight : elsewhere ≠ .right node) :
    (newNode tables node place).cellAt elsewhere = tables.cellAt elsewhere := by
  rw [newNode, cellAt_put_other apart]
  cases elsewhere with
  | table index => rfl
  | left other => exact write_other fun same => notLeft (by rw [same])
  | right other => exact write_other fun same => notRight (by rw [same])

/-- A new node has no left child. -/
theorem cellAt_newNode_left {node : Nat} (apart : place ≠ .left node) :
    (newNode tables node place).cellAt (.left node) = 0 := by
  rw [newNode, cellAt_put_other apart.symm]
  exact write_same _ _ _

/-- A new node has no right child. -/
theorem cellAt_newNode_right {node : Nat} (apart : place ≠ .right node) :
    (newNode tables node place).cellAt (.right node) = 0 := by
  rw [newNode, cellAt_put_other apart.symm]
  exact write_same _ _ _

/-- The place of the pointer to a path: the table, or the node of the path before. -/
def placeOf (tableBits n : Nat) (keys : List (Nat × Nat)) (key : Nat × Nat) : Place :=
  if key.1 = tableBits then .table key.2
  else if key.2 % 2 = 1 then .right (n + keys.idxOf (key.1 - 1, key.2 / 2))
  else .left (n + keys.idxOf (key.1 - 1, key.2 / 2))

/-- A path of as many bits as the table has ends in the table. -/
theorem placeOf_table (atTable : key.1 = tableBits) :
    placeOf tableBits n keys key = .table key.2 :=
  if_pos atTable

/-- A longer path ends in the node of the path before it, on the side of its last bit. -/
theorem placeOf_node (below : tableBits < key.1) :
    placeOf tableBits n keys key =
      if key.2 % 2 = 1 then .right (n + keys.idxOf (key.1 - 1, key.2 / 2))
      else .left (n + keys.idxOf (key.1 - 1, key.2 / 2)) :=
  if_neg below.ne'

/-- There is a pointer to a path: it is an index behind the short codes, or the path before
has a node. -/
def Reached (tableBits low : Nat) (keys : List (Nat × Nat)) (key : Nat × Nat) : Prop :=
  key.1 = tableBits ∧ low ≤ key.2 ∧ key.2 < 2 ^ tableBits ∨
    tableBits < key.1 ∧ (key.1 - 1, key.2 / 2) ∈ keys

/-- A path that is reached is so with more nodes. -/
theorem Reached.append {more : List (Nat × Nat)} (reached : Reached tableBits low keys key) :
    Reached tableBits low (keys ++ more) key :=
  reached.imp_right fun inner => ⟨inner.1, List.mem_append_left more inner.2⟩

/-- A pointer stays where it is when nodes are added. -/
theorem placeOf_append {more : List (Nat × Nat)} (reached : Reached tableBits low keys key) :
    placeOf tableBits n (keys ++ more) key = placeOf tableBits n keys key := by
  rw [placeOf, placeOf]
  rcases reached with ⟨atTable, -⟩ | ⟨-, before⟩
  · rw [if_pos atTable, if_pos atTable]
  · rw [List.idxOf_append_of_mem before]

/-- The pointers to two paths have two places. -/
theorem placeOf_inj (reached : Reached tableBits low keys key)
    (reachedOther : Reached tableBits low keys other)
    (same : placeOf tableBits n keys key = placeOf tableBits n keys other) : key = other := by
  obtain ⟨depth, front⟩ := key
  obtain ⟨otherDepth, otherFront⟩ := other
  simp only [placeOf, Reached] at reached reachedOther same
  rcases reached with ⟨atTable, -⟩ | ⟨inner, before⟩
  · rcases reachedOther with ⟨otherAtTable, -⟩ | ⟨otherInner, -⟩
    · rw [if_pos atTable, if_pos otherAtTable, Place.table.injEq] at same
      rw [atTable, otherAtTable, same]
    · rw [if_pos atTable, if_neg otherInner.ne'] at same
      split at same <;> exact absurd same (by simp)
  · rcases reachedOther with ⟨otherAtTable, -⟩ | ⟨otherInner, otherBefore⟩
    · rw [if_neg inner.ne', if_pos otherAtTable] at same
      split at same <;> exact absurd same (by simp)
    · rw [if_neg inner.ne', if_neg otherInner.ne'] at same
      have numbered : keys.idxOf (depth - 1, front / 2) =
          keys.idxOf (otherDepth - 1, otherFront / 2) ∧ front % 2 = otherFront % 2 := by
        split at same <;> split at same <;> simp at same
        all_goals refine ⟨same, by omega⟩
      have equal := (List.idxOf_inj before).mp numbered.1
      rw [Prod.mk.injEq] at equal ⊢
      omega

/-- A pointer is never in a node that is not there yet. -/
theorem placeOf_node_lt (reached : Reached tableBits low keys key) :
    placeOf tableBits n keys key ≠ .left (n + keys.length) ∧
      placeOf tableBits n keys key ≠ .right (n + keys.length) := by
  rw [placeOf]
  rcases reached with ⟨atTable, -⟩ | ⟨inner, before⟩
  · rw [if_pos atTable]
    exact ⟨by simp, by simp⟩
  · have numbered := List.idxOf_lt_length_of_mem before
    rw [if_neg inner.ne']
    split
    · refine ⟨by simp, fun same => ?_⟩
      rw [Place.right.injEq] at same
      omega
    · refine ⟨fun same => ?_, by simp⟩
      rw [Place.left.injEq] at same
      omega

/-- What the nodes of a table of `n` symbols leave. -/
def Outside (n low : Nat) : Place → Prop
  | .table index => index < low
  | .left node => node < n ∨ 2 * n ≤ node
  | .right node => node < n ∨ 2 * n ≤ node

/-- A pointer to a path is not outside. -/
theorem Outside.apart (outside : Outside n low elsewhere) (few : keys.length ≤ n)
    (reached : Reached tableBits low keys key) : elsewhere ≠ placeOf tableBits n keys key := by
  rintro rfl
  rcases reached with ⟨atTable, above, -⟩ | ⟨below, before⟩
  · rw [placeOf_table atTable] at outside
    exact absurd outside (Nat.not_lt_of_le above)
  · have numbered := List.idxOf_lt_length_of_mem before
    rw [placeOf_node below] at outside
    split at outside <;> rcases outside with first | last <;> omega

/-- A new node is not outside. -/
theorem Outside.newNode {node : Nat} (outside : Outside n low elsewhere)
    (apart : elsewhere ≠ place) (above : n ≤ node) (below : node < 2 * n) :
    (newNode tables node place).cellAt elsewhere = tables.cellAt elsewhere := by
  refine cellAt_newNode_other apart ?_ ?_
  · rintro rfl
    rcases outside with first | last <;> omega
  · rintro rfl
    rcases outside with first | last <;> omega

end Places

section Tries

/-- The nodes of the codes that have been entered: each path of them that goes on has one,
the pointers at their ends hold their symbols, and the other pointers are empty. -/
structure Trie (tableBits n low : Nat) (len : Nat → Nat) (entered : Nat → Prop)
    (keys : List (Nat × Nat)) (tables : Tables) : Prop where
  long : ∀ s, entered s → Used len n s ∧ tableBits < len s
  distinct : keys.Nodup
  reached : ∀ key ∈ keys, Reached tableBits low keys key
  inner : ∀ key ∈ keys, ∃ s, Used len n s ∧ key.1 < len s ∧ path len n s key.1 = key.2
  paths : ∀ s, entered s → ∀ depth, tableBits ≤ depth → depth < len s →
    (depth, path len n s depth) ∈ keys
  nodes : ∀ key ∈ keys, tables.cellAt (placeOf tableBits n keys key) = n + keys.idxOf key
  leaves : ∀ s, entered s →
    tables.cellAt (placeOf tableBits n keys (len s, code len n s)) = s
  empty : ∀ key, Reached tableBits low keys key → key ∉ keys →
    (∀ s, entered s → key ≠ (len s, code len n s)) →
    tables.cellAt (placeOf tableBits n keys key) = 0

variable {tableBits n low : Nat} {len : Nat → Nat} {entered : Nat → Prop}
  {keys : List (Nat × Nat)} {key : Nat × Nat} {tables : Tables}

/-- The pointer to an entered symbol. -/
theorem Trie.reached_leaf (trie : Trie tableBits n low len entered keys tables) {s : Nat}
    (there : entered s) : Reached tableBits low keys (len s, code len n s) := by
  have long := (trie.long s there).2
  have before := trie.paths s there (len s - 1) (by omega) (by omega)
  have inside : len s - 1 < len s := by omega
  have half := path_half (n := n) inside
  rw [Nat.sub_add_cancel (by omega), path_self] at half
  rw [← half] at before
  exact Or.inr ⟨long, before⟩

/-- An entered symbol ends where no path goes on. -/
theorem Trie.leaf_not_mem (trie : Trie tableBits n low len entered keys tables)
    (complete : Complete 16 n len) {s : Nat} (used : Used len n s) :
    (len s, code len n s) ∉ keys := by
  intro member
  obtain ⟨t, usedT, longer, same⟩ := trie.inner _ member
  have equal := path_ne_code complete usedT used longer.le same
  subst equal
  exact lt_irrefl _ longer

/-- A pointer that has a node is left as it is. -/
theorem Trie.grow_known (trie : Trie tableBits n low len entered keys tables) (positive : 0 < n)
    (member : key ∈ keys) (avail : Nat) :
    grow (placeOf tableBits n keys key) (tables, avail) = (tables, avail) := by
  refine if_neg fun empty => ?_
  have node := trie.nodes key member
  rw [empty.1] at node
  omega

/-- A pointer without one gets the next node. -/
theorem Trie.grow_new (trie : Trie tableBits n low len entered keys tables)
    (complete : Complete 16 n len) (few : n ≤ nc) (reached : Reached tableBits low keys key)
    (new : key ∉ keys) (noLeaf : ∀ s, entered s → key ≠ (len s, code len n s))
    (inner : ∃ s, Used len n s ∧ key.1 < len s ∧ path len n s key.1 = key.2) :
    ∃ later, grow (placeOf tableBits n keys key) (tables, n + keys.length) =
        (later, n + keys.length + 1) ∧
      Trie tableBits n low len entered (keys ++ [key]) later ∧
      ∀ place, Outside n low place → later.cellAt place = tables.cellAt place := by
  have distinct : (keys ++ [key]).Nodup :=
    List.nodup_append.mpr ⟨trie.distinct, List.nodup_singleton key, fun first member second last =>
      fun same => new (by rw [List.mem_singleton.mp last] at same; exact same ▸ member)⟩
  have allInner : ∀ other ∈ keys ++ [key],
      ∃ s, Used len n s ∧ other.1 < len s ∧ path len n s other.1 = other.2 := by
    intro other member
    rcases List.mem_append.mp member with old | last
    · exact trie.inner other old
    · rw [List.mem_singleton.mp last]
      exact inner
  have room := paths_length_lt complete distinct allInner
  rw [List.length_append, List.length_singleton] at room
  have isEmpty := trie.empty key reached new noLeaf
  have fits : n + keys.length < 2 * nc - 1 := by omega
  obtain ⟨notLeft, notRight⟩ := placeOf_node_lt (n := n) reached
  have kept : ∀ {other}, Reached tableBits low keys other → other ≠ key →
      (newNode tables (n + keys.length) (placeOf tableBits n keys key)).cellAt
        (placeOf tableBits n (keys ++ [key]) other) =
      tables.cellAt (placeOf tableBits n keys other) := by
    intro other reachedOther apart
    obtain ⟨leftApart, rightApart⟩ := placeOf_node_lt (n := n) reachedOther
    rw [placeOf_append reachedOther]
    exact cellAt_newNode_other (fun same => apart (placeOf_inj reachedOther reached same))
      leftApart rightApart
  have numbered : (keys ++ [key]).idxOf key = keys.length := by
    rw [List.idxOf_append_of_notMem new, List.idxOf_cons_self, Nat.add_zero]
  refine ⟨newNode tables (n + keys.length) (placeOf tableBits n keys key),
    if_pos ⟨isEmpty, fits⟩, ⟨trie.long, distinct, ?_, allInner, ?_, ?_, ?_, ?_⟩,
    fun place outside => outside.newNode (outside.apart (by omega) reached)
      (Nat.le_add_right _ _) (by omega)⟩
  · intro other member
    rcases List.mem_append.mp member with old | last
    · exact (trie.reached other old).append
    · rw [List.mem_singleton.mp last]
      exact reached.append
  · intro s there depth above below
    exact List.mem_append_left _ (trie.paths s there depth above below)
  · intro other member
    rcases List.mem_append.mp member with old | last
    · have apart : other ≠ key := fun same => new (same ▸ old)
      rw [kept (trie.reached other old) apart, trie.nodes other old,
        List.idxOf_append_of_mem old]
    · rw [List.mem_singleton.mp last, placeOf_append reached, numbered, newNode, cellAt_put_same]
  · intro s there
    rw [kept (trie.reached_leaf there) (noLeaf s there).symm]
    exact trie.leaves s there
  · intro other reachedPath absent noSymbol
    have apart : other ≠ key := fun same =>
      absent (List.mem_append_right _ (List.mem_singleton.mpr same))
    have notOld : other ∉ keys := fun old => absent (List.mem_append_left _ old)
    rcases reachedPath with atTable | ⟨below, before⟩
    · rw [kept (Or.inl atTable) apart]
      exact trie.empty other (Or.inl atTable) notOld noSymbol
    · rcases List.mem_append.mp before with old | last
      · rw [kept (Or.inr ⟨below, old⟩) apart]
        exact trie.empty other (Or.inr ⟨below, old⟩) notOld noSymbol
      · rw [placeOf_node below, List.mem_singleton.mp last, numbered]
        split
        · exact cellAt_newNode_right notRight
        · exact cellAt_newNode_left notLeft

/-- The number of a node is one of the arrays. -/
theorem Trie.node_lt (trie : Trie tableBits n low len entered keys tables)
    (complete : Complete 16 n len) (few : n ≤ nc) (member : key ∈ keys) :
    tables.cellAt (placeOf tableBits n keys key) < 2 * nc - 1 := by
  have room := paths_length_lt complete trie.distinct trie.inner
  have numbered := List.idxOf_lt_length_of_mem member
  rw [trie.nodes key member]
  omega

end Tries

section Walks

variable {tableBits n low : Nat} {len : Nat → Nat} {entered : Nat → Prop}
  {keys : List (Nat × Nat)} {tables : Tables} {s depth : Nat}

/-- The bit that is tested is the next one of the path. -/
theorem tested_bit (complete : Complete 16 n len) (used : Used len n s)
    (above : tableBits ≤ depth) (below : depth < len s) :
    (code len n s * 2 ^ (16 - len s)) <<< (depth - tableBits) % 2 ^ 16 &&&
        1 <<< (15 - tableBits) ≠ 0 ↔ path len n s (depth + 1) % 2 = 1 := by
  have short := complete.short s used.1
  have place : 15 - tableBits - (depth - tableBits) - (16 - len s) = len s - 1 - depth := by
    omega
  have reaches : depth - tableBits ≤ 15 - tableBits ∧ 16 - len s ≤ 15 - tableBits -
      (depth - tableBits) := by omega
  rw [path_bit below, Nat.one_shiftLeft, Nat.and_two_pow, Nat.testBit_mod_two_pow,
    Nat.testBit_shiftLeft, Nat.testBit_mul_two_pow, place]
  have inside : 15 - tableBits < 16 := by omega
  simp [inside, reaches.1, reaches.2, Nat.toNat_testBit]

/-- The pointer at a place of a path has a node afterwards, whether it had one before or not. -/
theorem Trie.grow_path (trie : Trie tableBits n low len entered keys tables)
    (complete : Complete 16 n len) (positive : 0 < n) (few : n ≤ nc) (used : Used len n s)
    (fresh : ¬entered s) (goes : depth < len s)
    (reached : Reached tableBits low keys (depth, path len n s depth)) :
    ∃ nodes grown,
      grow (placeOf tableBits n keys (depth, path len n s depth)) (tables, n + keys.length) =
        (grown, n + nodes.length) ∧ Trie tableBits n low len entered nodes grown ∧
      (depth, path len n s depth) ∈ nodes ∧
      placeOf tableBits n nodes (depth, path len n s depth) =
        placeOf tableBits n keys (depth, path len n s depth) ∧
      (∀ key ∈ keys, key ∈ nodes) ∧
      ∀ place, Outside n low place → grown.cellAt place = tables.cellAt place := by
  by_cases known : (depth, path len n s depth) ∈ keys
  · exact ⟨keys, tables, trie.grow_known positive known _, trie, known, rfl, fun _ => id,
      fun _ _ => rfl⟩
  · have noLeaf : ∀ t, entered t → (depth, path len n s depth) ≠ (len t, code len n t) := by
      intro t there same
      rw [Prod.mk.injEq] at same
      have equal := path_ne_code complete used (trie.long t there).1
        (same.1 ▸ goes.le) (same.1 ▸ same.2)
      exact fresh (equal ▸ there)
    obtain ⟨grown, made, trieMade, frame⟩ := trie.grow_new complete few reached known noLeaf
      ⟨s, used, goes, rfl⟩
    refine ⟨keys ++ [(depth, path len n s depth)], grown, ?_, trieMade, ?_,
      placeOf_append reached, fun key => List.mem_append_left _, frame⟩
    · rw [made, List.length_append, List.length_singleton, Nat.add_assoc]
    · exact List.mem_append_right _ (List.mem_singleton.mpr rfl)

/-- The nodes of one code are made on the way to its end. -/
theorem Trie.walkTo (trie : Trie tableBits n low len entered keys tables)
    (complete : Complete 16 n len) (positive : 0 < n) (few : n ≤ nc) (used : Used len n s)
    (fresh : ¬entered s) (above : tableBits ≤ depth) (below : depth ≤ len s)
    (reached : Reached tableBits low keys (depth, path len n s depth))
    (before : ∀ d, tableBits ≤ d → d < depth → (d, path len n s d) ∈ keys) :
    ∃ nodes later, UefiDecompress.walkTo (1 <<< (15 - tableBits)) (len s - depth)
        ((code len n s * 2 ^ (16 - len s)) <<< (depth - tableBits) % 2 ^ 16)
        (placeOf tableBits n keys (depth, path len n s depth)) (tables, n + keys.length) =
          (placeOf tableBits n nodes (len s, code len n s), later, n + nodes.length) ∧
      Trie tableBits n low len entered nodes later ∧
      Reached tableBits low nodes (len s, code len n s) ∧
      (∀ d, tableBits ≤ d → d < len s → (d, path len n s d) ∈ nodes) ∧
      ∀ place, Outside n low place → later.cellAt place = tables.cellAt place := by
  obtain ⟨index, counted⟩ : ∃ index, index = len s - depth := ⟨_, rfl⟩
  rw [← counted]
  induction index generalizing depth keys tables with
  | zero =>
    have last : depth = len s := by omega
    subst last
    rw [path_self] at reached ⊢
    exact ⟨keys, tables, rfl, trie, reached, before, fun _ _ => rfl⟩
  | succ index inductionHypothesis =>
    have goes : depth < len s := by omega
    obtain ⟨nodes, grown, made, trieMade, member, stays, kept, frame⟩ :=
      trie.grow_path complete positive few used fresh goes reached
    have followed : follow grown (placeOf tableBits n keys (depth, path len n s depth))
        ((code len n s * 2 ^ (16 - len s)) <<< (depth - tableBits) % 2 ^ 16 &&&
          1 <<< (15 - tableBits) ≠ 0) =
        placeOf tableBits n nodes (depth + 1, path len n s (depth + 1)) := by
      have bit := tested_bit complete used above goes
      have node := trieMade.node_lt complete few member
      rw [← stays, follow, if_pos node, trieMade.nodes _ member,
        placeOf_node (Nat.lt_succ_of_le above)]
      simp only [Nat.add_sub_cancel, path_half goes, decide_eq_true_eq, bit]
    have shifted : ((code len n s * 2 ^ (16 - len s)) <<< (depth - tableBits) % 2 ^ 16) <<< 1 %
        2 ^ 16 = (code len n s * 2 ^ (16 - len s)) <<< (depth + 1 - tableBits) % 2 ^ 16 := by
      rw [Nat.sub_add_comm above, Nat.shiftLeft_add, Nat.shiftLeft_eq _ 1, Nat.shiftLeft_eq _ 1,
        Nat.mod_mul_mod]
    have next : Reached tableBits low nodes (depth + 1, path len n s (depth + 1)) := by
      refine Or.inr ⟨Nat.lt_succ_of_le above, ?_⟩
      rw [Nat.add_sub_cancel, path_half goes]
      exact member
    rw [UefiDecompress.walkTo, made, followed, shifted]
    have all : ∀ d, tableBits ≤ d → d < depth + 1 → (d, path len n s d) ∈ nodes := by
      intro d inside upTo
      by_cases last : d = depth
      · rw [last]
        exact member
      · exact kept _ (before d inside (by omega))
    obtain ⟨final, later, walked, trieLater, atEnd, allPaths, untouched⟩ :=
      inductionHypothesis trieMade (by omega) (by omega) next all (by omega)
    exact ⟨final, later, walked, trieLater, atEnd, allPaths, fun place outside =>
      (untouched place outside).trans (frame place outside)⟩

/-- The symbol is put to the end of its code. -/
theorem Trie.enter (trie : Trie tableBits n low len entered keys tables)
    (complete : Complete 16 n len) (used : Used len n s) (long : tableBits < len s)
    (fresh : ¬entered s) (reached : Reached tableBits low keys (len s, code len n s))
    (before : ∀ d, tableBits ≤ d → d < len s → (d, path len n s d) ∈ keys) :
    Trie tableBits n low len (fun t => entered t ∨ t = s) keys
      (tables.put s (placeOf tableBits n keys (len s, code len n s))) := by
  have kept : ∀ {key}, Reached tableBits low keys key → key ≠ (len s, code len n s) →
      (tables.put s (placeOf tableBits n keys (len s, code len n s))).cellAt
        (placeOf tableBits n keys key) = tables.cellAt (placeOf tableBits n keys key) :=
    fun reachedKey apart => cellAt_put_other fun same => apart (placeOf_inj reachedKey reached same)
  refine ⟨?_, trie.distinct, trie.reached, trie.inner, ?_, ?_, ?_, ?_⟩
  · rintro t (there | rfl)
    · exact trie.long t there
    · exact ⟨used, long⟩
  · rintro t (there | rfl)
    · exact trie.paths t there
    · exact before
  · intro key member
    have apart : key ≠ (len s, code len n s) := fun same =>
      trie.leaf_not_mem complete used (same ▸ member)
    rw [kept (trie.reached key member) apart]
    exact trie.nodes key member
  · rintro t (there | rfl)
    · have apart : (len t, code len n t) ≠ (len s, code len n s) := by
        intro same
        rw [Prod.mk.injEq] at same
        have equal := path_ne_code (s := t) complete (trie.long t there).1 used same.1.ge
          (by rw [← same.1, path_self, same.2])
        exact fresh (equal ▸ there)
      rw [kept (trie.reached_leaf there) apart]
      exact trie.leaves t there
    · exact cellAt_put_same
  · intro key reachedKey absent noSymbol
    rw [kept reachedKey (noSymbol s (Or.inr rfl))]
    exact trie.empty key reachedKey absent fun t there => noSymbol t (Or.inl there)

end Walks

end SmcPkg.UefiDecompress
