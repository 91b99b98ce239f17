import SmcPkg.Compress.ItemLaw

/-!
# What is collected for a block

The items of a block lie in `mBuf` in groups of eight, each group behind a byte with a bit
for each of its items. `Output` appends an item to the last group, and the loop of
`SendBlock` takes the items out again in their order.
-/

namespace SmcPkg.UefiDecompress

open BitRows Cells PrefixCode TianoCompress

section Layout

/-- The bytes of an item. -/
def itemSize (item : Nat × Nat) : Nat := if 256 ≤ item.1 then 5 else 1

/-- An item lies at a place. -/
structure ItemAt (mBuf : Cells Nat) (pos : Nat) (item : Nat × Nat) : Prop where
  charC : mBuf pos = item.1 % 2 ^ 8
  position : 256 ≤ item.1 → positionAt mBuf (pos + 1) = item.2

/-- The bits of the flags say which items are pointers. -/
def FlagsOf (items : List (Nat × Nat)) (flags : Nat) : Prop :=
  ∀ i < 8, flags.testBit (7 - i) = decide (256 ≤ (items.getD i (0, 0)).1)

/-- The bytes of a group. -/
def groupSize (group : List (Nat × Nat)) : Nat := 1 + extent itemSize group

/-- A group lies at a place. -/
structure GroupAt (mBuf : Cells Nat) (pos : Nat) (group : List (Nat × Nat)) : Prop where
  flags : FlagsOf group (mBuf pos)
  items : Lie itemSize (ItemAt mBuf) (pos + 1) group

variable {mBuf other : Cells Nat} {pos flags : Nat} {item : Nat × Nat}
  {items group : List (Nat × Nat)} {groups : List (List (Nat × Nat))}

/-- An item depends on its bytes only. -/
theorem ItemAt.congr (lies : ItemAt mBuf pos item)
    (same : ∀ i, pos ≤ i → i < pos + itemSize item → mBuf i = other i) :
    ItemAt other pos item where
  charC := by
    have sized : 0 < itemSize item := by
      rw [itemSize]
      split <;> decide
    rw [← same pos le_rfl (by omega)]
    exact lies.charC
  position pointer := by
    have five : itemSize item = 5 := if_pos pointer
    rw [five] at same
    rw [← lies.position pointer, positionAt, positionAt, same (pos + 1) (by omega) (by omega),
      same (pos + 1 + 1) (by omega) (by omega), same (pos + 1 + 2) (by omega) (by omega),
      same (pos + 1 + 3) (by omega) (by omega)]

/-- Items depend on their bytes only. -/
theorem itemsAt_congr (lie : Lie itemSize (ItemAt mBuf) pos items)
    (same : ∀ i, pos ≤ i → i < pos + extent itemSize items → mBuf i = other i) :
    Lie itemSize (ItemAt other) pos items :=
  lie.imp le_rfl le_rfl fun _ _ above below lies =>
    lies.congr fun i first last => same i (above.trans first) (last.trans_le below)

/-- Groups depend on their bytes only. -/
theorem groupsAt_congr (lie : Lie groupSize (GroupAt mBuf) pos groups)
    (same : ∀ i, pos ≤ i → i < pos + extent groupSize groups → mBuf i = other i) :
    Lie groupSize (GroupAt other) pos groups := by
  refine lie.imp le_rfl le_rfl fun place group above below lies => ?_
  rw [groupSize] at below
  refine ⟨?_, itemsAt_congr lies.items fun i first last => same i (by omega) (by omega)⟩
  rw [← same place above (by omega)]
  exact lies.flags

/-- The flags of the items behind the first one. -/
theorem FlagsOf.shift (of : FlagsOf (item :: items) flags) (few : items.length < 8) :
    FlagsOf items ((flags <<< 1) % 2 ^ 32) := by
  intro i inside
  rw [Nat.testBit_mod_two_pow, Nat.testBit_shiftLeft]
  by_cases last : i = 7
  · rw [last, List.getD_eq_default _ _ (by omega)]
    rfl
  · have next := of (i + 1) (by omega)
    have place : 7 - i - 1 = 7 - (i + 1) := by omega
    have within : 7 - i < 32 := by omega
    have oneLeft : 1 ≤ 7 - i := by omega
    rw [List.getD_cons_succ] at next
    rw [place, next]
    simp [within, oneLeft]

end Layout

section Sending

/-- An item is put out. -/
def putItem (codes : Codes) (dst : Dst) (item : Nat × Nat) : Dst :=
  if 256 ≤ item.1 then
    encodeP codes.mPTLen codes.mPTCode item.2 (encodeC codes.mCLen codes.mCCode item.1 dst)
  else encodeC codes.mCLen codes.mCCode item.1 dst

variable {codes : Codes} {mBuf : Cells Nat} {pos flags rounds : Nat} {dst : Dst}
  {item : Nat × Nat} {items : List (Nat × Nat)} {groups : List (List (Nat × Nat))}

/-- An item is sent from its bytes, where the flag says what it is. -/
theorem sendItem_at (lies : ItemAt mBuf pos item) (inC : item.1 < nc)
    (flag : flags.testBit 7 = decide (256 ≤ item.1)) :
    sendItem codes mBuf flags (pos, dst) = (pos + itemSize item, putItem codes dst item) := by
  have bit : flags &&& 1 <<< 7 ≠ 0 ↔ flags.testBit 7 = true := by
    rw [Nat.one_shiftLeft, Nat.and_two_pow]
    cases flags.testBit 7 <;> decide
  have inNc : nc = 510 := rfl
  rw [sendItem, putItem, itemSize]
  by_cases pointer : 256 ≤ item.1
  · have whole : mBuf pos + 1 <<< 8 = item.1 := by
      rw [lies.charC]
      omega
    rw [if_pos (bit.mpr (flag.trans (decide_eq_true pointer))), if_pos pointer, if_pos pointer]
    simp only [whole, lies.position pointer]
  · have whole : mBuf pos = item.1 := by
      rw [lies.charC]
      exact Nat.mod_eq_of_lt (by omega)
    have clear : ¬flags &&& 1 <<< 7 ≠ 0 := by
      rw [bit, flag, decide_eq_true_iff]
      exact pointer
    rw [if_neg clear, if_neg pointer, if_neg pointer]
    simp only [whole]

/-- The items of a group behind its first one. -/
theorem sendItems_behind (index : Nat) (dst : Dst) (lie : Lie itemSize (ItemAt mBuf) pos items)
    (inC : ∀ item ∈ items, item.1 < nc) (place : index % 8 ≠ 0)
    (few : index % 8 + items.length ≤ 8) (of : FlagsOf items ((flags <<< 1) % 2 ^ 32)) :
    ∃ later, sendItems codes mBuf (items.length + rounds) index flags (pos, dst) =
      sendItems codes mBuf rounds (index + items.length) later
        (pos + extent itemSize items, items.foldl (putItem codes) dst) := by
  induction items generalizing index flags pos dst with
  | nil =>
    rw [List.length_nil, Nat.zero_add]
    exact ⟨flags, rfl⟩
  | cons item items inductionHypothesis =>
    rw [List.forall_mem_cons] at inC
    rw [List.length_cons] at few ⊢
    have oneRound : items.length + 1 + rounds = items.length + rounds + 1 := by omega
    have order : index + (items.length + 1) = index + 1 + items.length := by omega
    have behindItem : pos + extent itemSize (item :: items) =
        pos + itemSize item + extent itemSize items := by
      rw [extent_cons, Nat.add_assoc]
    rw [oneRound, sendItems, if_neg place, sendItem_at lie.1 inC.1 (of 0 (by decide)), order,
      behindItem, List.foldl_cons]
    cases items with
    | nil =>
      rw [List.length_nil, Nat.zero_add]
      exact ⟨_, rfl⟩
    | cons next items =>
      rw [List.length_cons] at few
      have step : (index + 1) % 8 = index % 8 + 1 := by omega
      have fewer : (next :: items).length < 8 := by
        rw [List.length_cons]
        omega
      have inGroup : (index + 1) % 8 + (next :: items).length ≤ 8 := by
        rw [step, List.length_cons]
        omega
      exact inductionHypothesis (index + 1) (putItem codes dst item) lie.2 inC.2 (by omega) inGroup
        (of.shift fewer)

/-- The items of a group. -/
theorem sendItems_group (codes : Codes) (rounds index flags : Nat) (dst : Dst)
    {group : List (Nat × Nat)}
    (lies : GroupAt mBuf pos group) (inC : ∀ item ∈ group, item.1 < nc) (nonempty : group ≠ [])
    (few : group.length ≤ 8) (start : index % 8 = 0) :
    ∃ later, sendItems codes mBuf (group.length + rounds) index flags (pos, dst) =
      sendItems codes mBuf rounds (index + group.length) later
        (pos + groupSize group, group.foldl (putItem codes) dst) := by
  cases group with
  | nil => exact absurd rfl nonempty
  | cons item items =>
    rw [List.forall_mem_cons] at inC
    rw [List.length_cons] at few ⊢
    have oneRound : items.length + 1 + rounds = items.length + rounds + 1 := by omega
    have first : (mBuf pos).testBit 7 = decide (256 ≤ item.1) := lies.flags 0 (by decide)
    rw [oneRound, sendItems, if_pos start, sendItem_at lies.items.1 inC.1 first]
    obtain ⟨later, sent⟩ := sendItems_behind (index + 1) (putItem codes dst item) lies.items.2 inC.2
      (by omega) (by omega) (lies.flags.shift few)
    have order : index + 1 + items.length = index + (items.length + 1) := by omega
    have behindItem : pos + 1 + itemSize item + extent itemSize items =
        pos + groupSize (item :: items) := by
      rw [groupSize, extent_cons]
      omega
    rw [order, behindItem] at sent
    exact ⟨later, sent⟩

/-- The items of whole groups. -/
theorem sendItems_groups (codes : Codes) (rounds index flags : Nat) (dst : Dst)
    (lie : Lie groupSize (GroupAt mBuf) pos groups)
    (inC : ∀ item ∈ groups.flatten, item.1 < nc) (whole : ∀ group ∈ groups, group.length = 8)
    (start : index % 8 = 0) :
    ∃ later, sendItems codes mBuf (groups.flatten.length + rounds) index flags (pos, dst) =
      sendItems codes mBuf rounds (index + groups.flatten.length) later
        (pos + extent groupSize groups, groups.flatten.foldl (putItem codes) dst) := by
  induction groups generalizing index flags pos dst with
  | nil =>
    rw [List.flatten_nil, List.length_nil, Nat.zero_add]
    exact ⟨flags, rfl⟩
  | cons group groups inductionHypothesis =>
    rw [List.forall_mem_cons] at whole
    rw [List.flatten_cons] at inC ⊢
    have eight := whole.1
    have nonempty : group ≠ [] := by
      intro none
      rw [none] at eight
      exact absurd eight (by decide)
    have inFirst : ∀ item ∈ group, item.1 < nc :=
      fun item member => inC item (List.mem_append_left _ member)
    have inOthers : ∀ item ∈ groups.flatten, item.1 < nc :=
      fun item member => inC item (List.mem_append_right _ member)
    have oneRound : (group ++ groups.flatten).length + rounds =
        group.length + (groups.flatten.length + rounds) := by
      rw [List.length_append, Nat.add_assoc]
    have order : index + (group ++ groups.flatten).length =
        index + group.length + groups.flatten.length := by
      rw [List.length_append, Nat.add_assoc]
    have behindItem : pos + extent groupSize (group :: groups) =
        pos + groupSize group + extent groupSize groups := by
      rw [extent_cons, Nat.add_assoc]
    rw [oneRound, order, behindItem, List.foldl_append]
    obtain ⟨between, first⟩ := sendItems_group codes _ index flags dst lie.1
      inFirst nonempty eight.le start
    rw [first]
    exact inductionHypothesis (index + group.length) between _ lie.2 inOthers whole.2 (by omega)

end Sending

section Storing

/-- What is collected: whole groups, and a last one that has room for eight items. -/
structure Laid (groups : List (List (Nat × Nat))) (group : List (Nat × Nat)) (huf : Huf) :
    Prop where
  whole : ∀ group ∈ groups, group.length = 8
  lie : Lie groupSize (GroupAt huf.mBuf) 0 groups
  place : huf.cPos = extent groupSize groups
  last : GroupAt huf.mBuf huf.cPos group
  next : huf.mOutputPos = huf.cPos + groupSize group
  room : huf.cPos + 41 ≤ huf.mBufSiz

variable {huf later : Huf} {item : Nat × Nat} {items group : List (Nat × Nat)}
  {groups : List (List (Nat × Nat))} {flags bit : Nat}

/-- The flags with the one of an item behind the others. -/
theorem FlagsOf.snoc (of : FlagsOf group flags) (place : group.length + bit = 7)
    (pointer : 256 ≤ item.1) : FlagsOf (group ++ [item]) (flags ||| 2 ^ bit) := by
  intro i inside
  rw [Nat.testBit_or, of i inside, Nat.testBit_two_pow]
  rcases Nat.lt_trichotomy i group.length with before | here | behind
  · have other : ¬bit = 7 - i := by omega
    rw [List.getD_append _ _ _ _ before]
    simp [other]
  · have this : bit = 7 - i := by omega
    rw [here, List.getD_append_right _ _ _ _ le_rfl, Nat.sub_self, ← here]
    simp [this, pointer]
  · have other : ¬bit = 7 - i := by omega
    rw [List.getD_eq_default _ _ behind.le, List.getD_eq_default]
    · simp [other]
    · rw [List.length_append, List.length_singleton]
      exact behind

/-- A character leaves the flags. -/
theorem FlagsOf.character (of : FlagsOf group flags) (character : item.1 < 256) :
    FlagsOf (group ++ [item]) flags := by
  intro i inside
  rw [of i inside]
  rcases Nat.lt_trichotomy i group.length with before | here | behind
  · rw [List.getD_append _ _ _ _ before]
  · rw [here, List.getD_append_right _ _ _ _ le_rfl, Nat.sub_self,
      List.getD_eq_default _ _ le_rfl]
    simp [character]
  · rw [List.getD_eq_default _ _ behind.le, List.getD_eq_default]
    rw [List.length_append, List.length_singleton]
    exact behind

/-- An item is put behind the others of the last group. -/
theorem Laid.snoc (laid : Laid groups group huf) (cPos : later.cPos = huf.cPos)
    (size : later.mBufSiz = huf.mBufSiz) (next : later.mOutputPos = huf.mOutputPos + itemSize item)
    (flags : FlagsOf (group ++ [item]) (later.mBuf huf.cPos))
    (lies : ItemAt later.mBuf huf.mOutputPos item)
    (same : ∀ i < huf.mOutputPos, i ≠ huf.cPos → later.mBuf i = huf.mBuf i) :
    Laid groups (group ++ [item]) later := by
  have nextBefore := laid.next
  rw [groupSize] at nextBefore
  refine ⟨laid.whole, ?_, cPos.trans laid.place, ⟨cPos.symm ▸ flags, ?_⟩, ?_, ?_⟩
  · refine groupsAt_congr laid.lie fun i _ below => (same i ?_ ?_).symm
    · rw [Nat.zero_add, ← laid.place] at below
      omega
    · rw [Nat.zero_add, ← laid.place] at below
      exact below.ne
  · rw [lie_append, cPos]
    refine ⟨itemsAt_congr laid.last.items fun i above below => (same i ?_ ?_).symm, ?_⟩
    · omega
    · omega
    · have place : huf.cPos + 1 + extent itemSize group = huf.mOutputPos := by omega
      rw [place]
      exact ⟨lies, trivial⟩
  · rw [next, cPos, nextBefore, groupSize, extent_append, extent_cons, extent_nil]
    omega
  · rw [cPos, size]
    exact laid.room

/-- `Output` puts an item behind the others. -/
theorem storeItem_laid (laid : Laid groups group huf) (mask : huf.mOutputMask = 2 ^ bit)
    (place : group.length + bit = 7) (word : item.2 < 2 ^ 32) :
    Laid groups (group ++ [item]) (storeItem item.1 item.2 huf) := by
  have before : huf.cPos < huf.mOutputPos := by
    rw [laid.next, groupSize]
    omega
  have flags := laid.last.flags
  by_cases pointer : 256 ≤ item.1
  · have five : itemSize item = 5 := if_pos pointer
    rw [storeItem]
    simp only [Nat.one_shiftLeft]
    rw [if_pos (pointer : 2 ^ 8 ≤ item.1)]
    refine laid.snoc rfl rfl (congrArg (huf.mOutputPos + ·) five.symm) ?_ ⟨?_, fun _ => ?_⟩
      fun i below apart => ?_
    · simp only [Huf.store, write_read]
      rw [if_neg (by omega), if_neg (by omega), if_neg (by omega), if_neg (by omega),
        if_pos trivial, if_neg (by omega), mask]
      exact flags.snoc place pointer
    · simp only [Huf.store, write_read]
      rw [if_neg (by omega), if_neg (by omega), if_neg (by omega), if_neg (by omega),
        if_neg (by omega), if_pos trivial]
    · simp only [positionAt, Huf.store, write_read]
      simp
      omega
    · simp only [Huf.store, write_read]
      rw [if_neg (by omega), if_neg (by omega), if_neg (by omega), if_neg (by omega),
        if_neg apart, if_neg (by omega)]
  · have one : itemSize item = 1 := if_neg pointer
    rw [storeItem]
    simp only [Nat.one_shiftLeft]
    rw [if_neg (pointer : ¬2 ^ 8 ≤ item.1)]
    refine laid.snoc rfl rfl (congrArg (huf.mOutputPos + ·) one.symm) ?_
      ⟨?_, fun large => absurd large pointer⟩
      fun i below apart => ?_
    · simp only [Huf.store]
      rw [write_other before.ne]
      exact flags.character (Nat.lt_of_not_le pointer)
    · exact write_same _ _ _
    · exact write_other below.ne

end Storing

end SmcPkg.UefiDecompress
