import SmcPkg.Compress.BlockLaw

/-!
# The run of the output

After any calls of `Output` the items are in blocks that have been sent and in the buffer.
A call either appends its item to what waits, or sends the block before and begins a new one.
The buffer has room for each item and never holds more of them than a block can have.
-/

namespace SmcPkg.UefiDecompress

open BitRows Cells PrefixCode TianoCompress

section Waiting

/-- Items lie in the buffer, or nothing has been put out. -/
def Collected (items : List (Nat × Nat)) (huf : Huf) : Prop :=
  (items = [] ∧ huf.mOutputPos = 0 ∧ huf.mOutputMask = 0) ∨
  ∃ groups group bit, items = groups.flatten ++ group ∧ Laid groups group huf ∧
    huf.mOutputMask = 2 ^ bit ∧ bit < 8 ∧ group.length + bit = 8

/-- Items wait to be sent. -/
structure Waiting (items : List (Nat × Nat)) (huf : Huf) : Prop where
  counts : Counts items huf
  formed : ∀ item ∈ items, Formed item
  collected : Collected items huf
  room : 41 ≤ huf.mBufSiz
  atMost : huf.mBufSiz ≤ 2 ^ 14

variable {huf later : Huf} {item : Nat × Nat} {items group : List (Nat × Nat)}
  {groups : List (List (Nat × Nat))}

/-- An item takes one to five bytes. -/
theorem length_le_items (items : List (Nat × Nat)) :
    items.length ≤ extent itemSize items ∧ extent itemSize items ≤ 5 * items.length := by
  induction items with
  | nil => exact ⟨le_rfl, le_rfl⟩
  | cons item items inductionHypothesis =>
    have size : 1 ≤ itemSize item ∧ itemSize item ≤ 5 := by
      rw [itemSize]
      split <;> decide
    rw [List.length_cons, extent_cons]
    omega

/-- A group takes more bytes than it has items. -/
theorem length_le_groups (groups : List (List (Nat × Nat))) :
    groups.flatten.length ≤ extent groupSize groups := by
  induction groups with
  | nil => exact le_rfl
  | cons group groups inductionHypothesis =>
    have items := (length_le_items group).1
    rw [List.flatten_cons, List.length_append, extent_cons, groupSize]
    omega

/-- Whole groups have eight items each. -/
theorem wholeGroups_length (whole : ∀ group ∈ groups, group.length = 8) :
    groups.flatten.length = 8 * groups.length := by
  induction groups with
  | nil => rfl
  | cons group groups inductionHypothesis =>
    rw [List.forall_mem_cons] at whole
    rw [List.flatten_cons, List.length_append, whole.1, inductionHypothesis whole.2,
      List.length_cons]
    omega

/-- What is put out lies in the buffer. -/
theorem Waiting.inBuffer (waiting : Waiting items huf) : huf.mOutputPos ≤ huf.mBufSiz := by
  rcases waiting.collected with ⟨-, start, -⟩ | ⟨groups, group, bit, -, laid, -, -, few⟩
  · rw [start]
    exact Nat.zero_le _
  · have items := (length_le_items group).2
    have room := laid.room
    rw [laid.next, groupSize]
    omega

/-- Each item that waits takes a byte of the buffer at least. -/
theorem Waiting.length_le (waiting : Waiting items huf) : items.length ≤ huf.mOutputPos := by
  rcases waiting.collected with ⟨none, -⟩ | ⟨groups, group, bit, split, laid, -⟩
  · rw [none]
    exact Nat.zero_le _
  · have inGroups := length_le_groups groups
    have inGroup := (length_le_items group).1
    have next := laid.next
    rw [laid.place, groupSize] at next
    rw [split, List.length_append]
    omega

/-- A block has less items than its size can say. -/
theorem Waiting.few (waiting : Waiting items huf) : items.length < 2 ^ 16 := by
  have length := waiting.length_le
  have inBuffer := waiting.inBuffer
  have atMost := waiting.atMost
  omega

/-- The loop of `SendBlock` takes out what has been put in. -/
theorem Waiting.sendItems (waiting : Waiting items huf) (codes : Codes) (dst : Dst) :
    TianoCompress.sendItems codes huf.mBuf items.length 0 0 (0, dst) =
      items.foldl (putItem codes) dst := by
  have formed := waiting.formed
  rcases waiting.collected with ⟨none, -⟩ | ⟨groups, group, bit, split, laid, -, short, few⟩
  · rw [none]
    rfl
  · rw [split] at formed ⊢
    have inGroups : ∀ item ∈ groups.flatten, item.1 < nc :=
      fun item member => (formed item (List.mem_append_left _ member)).inC
    have inGroup : ∀ item ∈ group, item.1 < nc :=
      fun item member => (formed item (List.mem_append_right _ member)).inC
    have nonempty : group ≠ [] := by
      intro none
      rw [none, List.length_nil] at few
      omega
    have start : groups.flatten.length % 8 = 0 := by
      rw [wholeGroups_length laid.whole]
      exact Nat.mul_mod_right 8 _
    have last := laid.last
    rw [laid.place] at last
    obtain ⟨between, first⟩ := sendItems_groups codes group.length 0 0 dst laid.lie inGroups
      laid.whole (by decide)
    obtain ⟨final, second⟩ := sendItems_group codes 0 groups.flatten.length between
      (groups.flatten.foldl (putItem codes) dst) last inGroup nonempty (by omega) start
    rw [Nat.zero_add, Nat.zero_add] at first
    rw [Nat.add_zero] at second
    rw [List.length_append, first, second, List.foldl_append]
    rfl

end Waiting

section Calls

variable {huf later : Huf} {item : Nat × Nat} {items group : List (Nat × Nat)}
  {groups : List (List (Nat × Nat))} {bit : Nat}

/-- The buffer before an item is put into it: the last group has room for it. -/
structure Begun (items : List (Nat × Nat)) (huf : Huf) : Prop where
  counts : Counts items huf
  formed : ∀ item ∈ items, Formed item
  room : 41 ≤ huf.mBufSiz
  atMost : huf.mBufSiz ≤ 2 ^ 14
  collected : ∃ groups group bit, items = groups.flatten ++ group ∧ Laid groups group huf ∧
    huf.mOutputMask = 2 ^ bit ∧ group.length + bit = 7

/-- One more is counted. -/
theorem bump_countP {freq : Cells Nat} {place symbol : Nat} {holds : Nat × Nat → Bool}
    (before : freq symbol = items.countP holds) (few : items.length + 1 < 2 ^ 16)
    (this : holds item = decide (symbol = place)) :
    bump place 1 freq symbol = (items ++ [item]).countP holds := by
  have atMost : items.countP holds ≤ items.length := List.countP_le_length
  rw [bump, write_read, List.countP_append, List.countP_singleton, this]
  by_cases here : symbol = place
  · rw [decide_eq_true here, if_pos here, ← here, before, if_pos rfl]
    exact Nat.mod_eq_of_lt (by omega)
  · rw [decide_eq_false here, if_neg here, before]
    rfl

/-- A count stays in sixteen bits. -/
theorem bump_narrow {freq : Cells Nat} (place : Nat) (narrow : ∀ index, freq index < 2 ^ 16)
    (index : Nat) : bump place 1 freq index < 2 ^ 16 := by
  rw [bump, write_read]
  split
  · exact Nat.mod_lt _ (Nat.two_pow_pos 16)
  · exact narrow index

/-- What an item does to the counts, and what it leaves. -/
theorem storeItem_counts (charC pos : Nat) (huf : Huf) :
    (storeItem charC pos huf).mCFreq = bump charC 1 huf.mCFreq ∧
    (storeItem charC pos huf).mPFreq =
      (if 256 ≤ charC then bump (bitsIn 32 pos) 1 huf.mPFreq else huf.mPFreq) ∧
    (storeItem charC pos huf).mTFreq = huf.mTFreq ∧
    (storeItem charC pos huf).mBufSiz = huf.mBufSiz ∧
    (storeItem charC pos huf).mOutputMask = huf.mOutputMask ∧
    (storeItem charC pos huf).dst = huf.dst := by
  rw [storeItem]
  by_cases pointer : 256 ≤ charC
  · have large : 1 <<< 8 ≤ charC := pointer
    simp only [if_pos pointer, if_pos large]
    exact ⟨rfl, rfl, rfl, rfl, rfl, rfl⟩
  · have small : ¬1 <<< 8 ≤ charC := pointer
    simp only [if_neg pointer, if_neg small]
    exact ⟨rfl, rfl, rfl, rfl, rfl, rfl⟩

/-- The item is counted. -/
theorem Counts.snoc (counts : Counts items huf) (few : items.length + 1 < 2 ^ 16) :
    Counts (items ++ [item]) (storeItem item.1 item.2 huf) := by
  obtain ⟨mCFreq, mPFreq, mTFreq, -⟩ := storeItem_counts item.1 item.2 huf
  refine ⟨fun symbol inside => ?_, fun bits inside => ?_, ?_, ?_, mTFreq ▸ counts.narrowT⟩
  · rw [mCFreq]
    exact bump_countP (counts.characters symbol inside) few (decide_eq_decide.mpr eq_comm)
  · rw [mPFreq]
    split
    · rename_i pointer
      refine bump_countP (counts.positions bits inside) few (decide_eq_decide.mpr ?_)
      exact ⟨fun both => both.2.symm, fun same => ⟨pointer, same.symm⟩⟩
    · rename_i character
      rw [counts.positions bits inside, List.countP_append, List.countP_singleton, if_neg]
      · rfl
      · rw [decide_eq_true_iff]
        exact fun both => character both.1
  · rw [mCFreq]
    exact bump_narrow _ counts.narrowC
  · rw [mPFreq]
    split
    · exact bump_narrow _ counts.narrowP
    · exact counts.narrowP

/-- The item waits behind the others. -/
theorem Begun.store (begun : Begun items huf) (formed : Formed item) :
    Waiting (items ++ [item]) (storeItem item.1 item.2 huf) := by
  obtain ⟨groups, group, bit, split, laid, mask, place⟩ := begun.collected
  obtain ⟨-, -, -, size, maskLater, -⟩ := storeItem_counts item.1 item.2 huf
  have few : items.length + 1 < 2 ^ 16 := by
    have inGroups := length_le_groups groups
    have room := laid.room
    have atMost := begun.atMost
    rw [laid.place] at room
    rw [split, List.length_append]
    omega
  have word : item.2 < 2 ^ 32 := formed.inWindow.trans (by decide)
  refine ⟨begun.counts.snoc few, ?_, Or.inr ?_, size.symm ▸ begun.room, size.symm ▸ begun.atMost⟩
  · intro other member
    rcases List.mem_append.mp member with before | last
    · exact begun.formed other before
    · rw [List.mem_singleton.mp last]
      exact formed
  · refine ⟨groups, group ++ [item], bit, ?_, storeItem_laid laid mask place word,
      maskLater.trans mask, by omega, ?_⟩
    · rw [split, List.append_assoc]
    · rw [List.length_append, List.length_singleton]
      omega

/-- A new group is begun. -/
def newGroup (huf : Huf) : Huf :=
  { huf with
    mOutputMask := 1 <<< 7
    cPos := huf.mOutputPos
    mOutputPos := huf.mOutputPos + 1
    mBuf := huf.mBuf.write huf.mOutputPos 0 }

/-- A new group has no items. -/
theorem newGroup_laid (whole : ∀ group ∈ groups, group.length = 8)
    (lie : Lie groupSize (GroupAt huf.mBuf) 0 groups)
    (next : huf.mOutputPos = extent groupSize groups) (room : huf.mOutputPos + 41 ≤ huf.mBufSiz) :
    Laid groups [] (newGroup huf) where
  whole := whole
  lie := groupsAt_congr lie fun i _ below => (write_other (by omega)).symm
  place := next
  last := by
    refine ⟨fun i _ => ?_, trivial⟩
    change (huf.mBuf.write huf.mOutputPos 0 huf.mOutputPos).testBit (7 - i) = _
    rw [write_same, Nat.zero_testBit]
    rfl
  next := rfl
  room := room

/-- A full group is one of the whole groups. -/
theorem Laid.full (laid : Laid groups group huf) (full : group.length = 8) :
    (∀ other ∈ groups ++ [group], other.length = 8) ∧
      Lie groupSize (GroupAt huf.mBuf) 0 (groups ++ [group]) ∧
      huf.mOutputPos = extent groupSize (groups ++ [group]) := by
  refine ⟨?_, ?_, ?_⟩
  · intro other member
    rcases List.mem_append.mp member with before | last
    · exact laid.whole other before
    · rw [List.mem_singleton.mp last]
      exact full
  · have last := laid.last
    rw [laid.place] at last
    rw [lie_append, Nat.zero_add]
    exact ⟨laid.lie, last, trivial⟩
  · rw [laid.next, laid.place, extent_append, extent_cons, extent_nil, Nat.add_zero]

/-- Where the flags are used up and the buffer has room for a group, the next one is begun. -/
theorem beginItem_newGroup (used : huf.mOutputMask >>> 1 = 0)
    (free : huf.mOutputPos + 41 ≤ huf.mBufSiz) (dst : Dst) :
    beginItem (huf.into dst) = some ((newGroup huf).into dst) := by
  have inside : ¬huf.mBufSiz - 5 * 8 ≤ huf.mOutputPos := by omega
  exact (if_pos used).trans (congrArg (Option.map newGroup) (if_neg inside))

/-- A group is begun behind items that are in whole groups. -/
theorem Waiting.begun_newGroup (waiting : Waiting items huf) (flat : items = groups.flatten)
    (whole : ∀ group ∈ groups, group.length = 8)
    (lie : Lie groupSize (GroupAt huf.mBuf) 0 groups)
    (next : huf.mOutputPos = extent groupSize groups) (free : huf.mOutputPos + 41 ≤ huf.mBufSiz) :
    Begun items (newGroup huf) where
  counts := waiting.counts.congr rfl rfl rfl
  formed := waiting.formed
  room := waiting.room
  atMost := waiting.atMost
  collected := ⟨groups, [], 7, flat.trans (List.append_nil _).symm,
    newGroup_laid whole lie next free, rfl, rfl⟩

/-- Where the flags are used up and the buffer might not hold eight items more, the block is sent,
and the buffer is empty. -/
theorem Waiting.beginItem_sends (waiting : Waiting items huf) (used : huf.mOutputMask >>> 1 = 0)
    (nearEnd : huf.mBufSiz < huf.mOutputPos + 41) :
    ∃ later : Huf, ∃ step row, (∀ dst, beginItem (huf.into dst) = some (later.into (step dst))) ∧
      Puts step row ∧ Begun [] later ∧ Sends row items := by
  have room := waiting.room
  obtain ⟨sent, step, row, sends, puts, read, counts, same⟩ :=
    sendBlock_sends waiting.counts waiting.formed waiting.few waiting.sendItems
  have size : sent.mBufSiz = huf.mBufSiz := same.mBufSiz
  have fresh : Laid [] [] (newGroup { sent with mOutputPos := 0 }) :=
    newGroup_laid (fun group member => absurd member List.not_mem_nil) trivial rfl
      (by rw [← size] at room; exact room)
  have begun : Begun [] (newGroup { sent with mOutputPos := 0 }) :=
    ⟨counts.congr rfl rfl rfl, fun item member => absurd member List.not_mem_nil, size ▸ room,
      size ▸ waiting.atMost, [], [], 7, rfl, fresh, rfl, rfl⟩
  refine ⟨_, step, row, fun dst => ?_, puts, begun, read⟩
  have masked : (huf.into dst).mOutputMask >>> 1 = 0 := used
  have beyond : (huf.into dst).mBufSiz - 5 * 8 ≤ (huf.into dst).mOutputPos := by
    change huf.mBufSiz - 5 * 8 ≤ huf.mOutputPos
    omega
  rw [beginItem, if_pos masked, if_pos beyond, sends]
  rfl

/-- The buffer before the next item: it goes on, or the block has been sent. -/
theorem beginItem_begun (waiting : Waiting items huf) :
    ∃ later : Huf, ∃ step row, (∀ dst, beginItem (huf.into dst) = some (later.into (step dst))) ∧
      Puts step row ∧
      (Begun items later ∧ row = [] ∨ items ≠ [] ∧ Begun [] later ∧ Sends row items) := by
  have room := waiting.room
  rcases waiting.collected with ⟨none, start, mask⟩ |
      ⟨groups, group, bit, split, laid, mask, small, place⟩
  · have free : huf.mOutputPos + 41 ≤ huf.mBufSiz := by omega
    have used : huf.mOutputMask >>> 1 = 0 := by
      rw [mask]
      decide
    exact ⟨newGroup huf, id, [], beginItem_newGroup used free, puts_nothing, Or.inl
      ⟨waiting.begun_newGroup (none.trans List.flatten_nil.symm)
        (fun group member => absurd member List.not_mem_nil) trivial start free, rfl⟩⟩
  by_cases last : bit = 0
  · -- the group is full
    have full : group.length = 8 := by omega
    have used : huf.mOutputMask >>> 1 = 0 := by
      rw [mask, last]
      decide
    by_cases free : huf.mOutputPos + 41 ≤ huf.mBufSiz
    · obtain ⟨whole, lie, next⟩ := laid.full full
      have flat : items = (groups ++ [group]).flatten := by
        rw [split, List.flatten_append, List.flatten_singleton]
      exact ⟨newGroup huf, id, [], beginItem_newGroup used free, puts_nothing,
        Or.inl ⟨waiting.begun_newGroup flat whole lie next free, rfl⟩⟩
    · obtain ⟨later, step, row, sends, puts, begun, read⟩ :=
        waiting.beginItem_sends used (Nat.lt_of_not_le free)
      have nonempty : items ≠ [] := by
        intro none
        rw [none] at split
        rw [(List.append_eq_nil_iff.mp split.symm).2] at full
        exact absurd full (by decide)
      exact ⟨later, step, row, sends, puts, Or.inr ⟨nonempty, begun, read⟩⟩
  · -- the group has room
    obtain ⟨bit, rfl⟩ : ∃ fewer, bit = fewer + 1 := ⟨bit - 1, by omega⟩
    have half : 2 ^ (bit + 1) >>> 1 = 2 ^ bit := by
      rw [Nat.shiftRight_eq_div_pow, Nat.pow_succ, Nat.pow_one, Nat.mul_div_cancel _ (by decide)]
    have nonzero : 2 ^ bit ≠ 0 := (Nat.two_pow_pos bit).ne'
    refine ⟨{ huf with mOutputMask := 2 ^ bit }, id, [], fun dst => ?_, puts_nothing,
      Or.inl ⟨⟨waiting.counts.congr rfl rfl rfl, waiting.formed, room, waiting.atMost,
        groups, group, bit, split, ?_, rfl, by omega⟩, rfl⟩⟩
    · have masked : (huf.into dst).mOutputMask >>> 1 = 2 ^ bit := by
        change huf.mOutputMask >>> 1 = 2 ^ bit
        rw [mask, half]
      rw [beginItem, masked, if_neg nonzero]
      rfl
    · exact ⟨laid.whole, laid.lie, laid.place, laid.last, laid.next, laid.room⟩

/-- An item is stored in the buffer, whatever the destination is. -/
theorem storeItem_into (charC pos : Nat) (dst : Dst) (huf : Huf) :
    storeItem charC pos (huf.into dst) = (storeItem charC pos huf).into dst := by
  rw [storeItem, storeItem]
  by_cases pointer : 1 <<< 8 ≤ charC
  · simp only [if_pos pointer]
    rfl
  · simp only [if_neg pointer]
    rfl

/-- A call of `Output`: the item waits, and with it those before or none of them. -/
theorem output_waiting (waiting : Waiting items huf) (formed : Formed item) :
    ∃ later : Huf, ∃ step row,
      (∀ dst, output item.1 item.2 (huf.into dst) = some (later.into (step dst))) ∧
      Puts step row ∧ (Waiting (items ++ [item]) later ∧ row = [] ∨
        items ≠ [] ∧ Waiting [item] later ∧ Sends row items) := by
  obtain ⟨begun, step, row, begins, puts, outcome⟩ := beginItem_begun waiting
  refine ⟨storeItem item.1 item.2 begun, step, row, fun dst => ?_, puts, ?_⟩
  · rw [output, begins, Option.map_some, storeItem_into]
  · rcases outcome with ⟨before, nothing⟩ | ⟨nonempty, empty, sends⟩
    · exact Or.inl ⟨before.store formed, nothing⟩
    · exact Or.inr ⟨nonempty, empty.store formed, sends⟩

end Calls

section Runs

/-- The items are those of the blocks that a row of bits sends, and those that wait. -/
structure Sent (row : List Bool) (items : List (Nat × Nat)) (huf : Huf) : Prop where
  blocks : ∃ blocks : List (List Bool × List (Nat × Nat)), ∃ pending : List (Nat × Nat),
    items = blocks.flatMap Prod.snd ++ pending ∧ row = blocks.flatMap Prod.fst ∧
    (∀ block ∈ blocks, block.2 ≠ [] ∧ Sends block.1 block.2) ∧ Waiting pending huf ∧
    (items ≠ [] → pending ≠ [])

variable {huf : Huf} {row : List Bool} {item : Nat × Nat} {items more : List (Nat × Nat)}

/-- A call of `Output` adds its item. -/
theorem output_sent (sent : Sent row items huf) (formed : Formed item) :
    ∃ later : Huf, ∃ step next,
      (∀ dst, output item.1 item.2 (huf.into dst) = some (later.into (step dst))) ∧
      Puts step next ∧ Sent (row ++ next) (items ++ [item]) later := by
  obtain ⟨blocks, pending, split, rows, sends, waiting, -⟩ := sent
  obtain ⟨later, step, next, puts, putsNext, outcome⟩ := output_waiting waiting formed
  refine ⟨later, step, next, puts, putsNext, ?_⟩
  rcases outcome with ⟨waits, nothing⟩ | ⟨nonempty, waits, sendsNext⟩
  · refine ⟨blocks, pending ++ [item], ?_, ?_, sends, waits, fun _ => ?_⟩
    · rw [split, List.append_assoc]
    · rw [nothing, List.append_nil, rows]
    · exact List.append_ne_nil_of_right_ne_nil _ (List.cons_ne_nil item [])
  · refine ⟨blocks ++ [(next, pending)], [item], ?_, ?_, ?_, waits,
      fun _ => List.cons_ne_nil item []⟩
    · rw [split, List.flatMap_append, List.flatMap_singleton]
    · rw [rows, List.flatMap_append, List.flatMap_singleton]
    · intro block member
      rcases List.mem_append.mp member with before | last
      · exact sends block before
      · rw [List.mem_singleton.mp last]
        exact ⟨nonempty, sendsNext⟩

/-- Calls of `Output` add their items. -/
theorem outputs_sent (sent : Sent row items huf) (formed : ∀ item ∈ more, Formed item) :
    ∃ later : Huf, ∃ step next,
      (∀ dst, outputs more (huf.into dst) = some (later.into (step dst))) ∧
      Puts step next ∧ Sent (row ++ next) (items ++ more) later := by
  induction more generalizing row items huf with
  | nil =>
    refine ⟨huf, id, [], fun dst => rfl, puts_nothing, ?_⟩
    rw [List.append_nil, List.append_nil]
    exact sent
  | cons item more inductionHypothesis =>
    rw [List.forall_mem_cons] at formed
    obtain ⟨next, first, rowFirst, puts, putsFirst, sentFirst⟩ := output_sent sent formed.1
    obtain ⟨later, others, rowOthers, rest, putsOthers, sentLater⟩ :=
      inductionHypothesis sentFirst formed.2
    rw [List.append_assoc, List.append_assoc] at sentLater
    refine ⟨later, _, _, fun dst => ?_, putsFirst.andThen putsOthers, sentLater⟩
    rw [outputs, puts, Option.bind_some, rest]

end Runs

end SmcPkg.UefiDecompress
