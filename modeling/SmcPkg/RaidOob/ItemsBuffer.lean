import SmcPkg.RaidOob.IfrPackageLaw

/-!
# The buffer for new opcodes

Opcodes are appended to a pool that grows by a page when they would fill it. The size of the
pool is a word of 64 bits and the size in use a word of 32, so the growth is only decided
correctly while the opcodes have fewer bytes than 32 bits can count. Up to there the buffer
is the list of bytes that the forms are put together with.

The pool is assumed to have room, and nothing is said about what stands in a page before it is
written.
-/

namespace SmcPkg.ItemsBuffer

open Bytes Card RaidCmd SetupForms

section Model

/-- `SMC_LSI_ITEMS_MEM`. The pool behind `ItemsBuffer` has the size `ItemsBufferAlSize`. -/
structure ItemsMem where
  itemsBufferAlSize : UInt64
  itemsBufferCurSize : UInt32
  itemsBuffer : Memory
  itemsCopyBufferSize : UInt32
  itemsCopyBuffer : Memory

/-- `SMC_LSI_ADD_ITEMS_MEM_SIZE`. -/
def addItemsMemSize : UInt64 := 0x1000

/-- `CopyAndExtMem` of a null pointer. -/
def newItemsMem : ItemsMem := ⟨addItemsMemSize, 0, fun _ => 0, 0, fun _ => 0⟩

/-- The first part of `CopyAndExtMem`: a page more for the pool, with what it held. The sum of
the sizes has 32 bits and is widened for the comparison. -/
def extendMem (pItems : ItemsMem) : ItemsMem :=
  let needed := (pItems.itemsBufferCurSize + pItems.itemsCopyBufferSize).toUInt64
  if pItems.itemsBufferAlSize ≤ needed ∧ needed < pItems.itemsBufferAlSize + addItemsMemSize then
    { pItems with
      itemsBufferAlSize := pItems.itemsBufferAlSize + addItemsMemSize
      itemsBuffer := overlay pItems.itemsBufferCurSize.toNat pItems.itemsBuffer (fun _ => 0) }
  else pItems

/-- `CopyAndExtMem`. The copy must stay inside the pool. -/
def copyAndExtMem (pItems : ItemsMem) : Checked ItemsMem :=
  let pItems := extendMem pItems
  let place := pItems.itemsBufferCurSize.toNat
  let count := pItems.itemsCopyBufferSize.toNat
  if place + count ≤ pItems.itemsBufferAlSize.toNat then
    .ok { pItems with
      itemsBuffer := overlayAt place count pItems.itemsCopyBuffer pItems.itemsBuffer
      itemsBufferCurSize := pItems.itemsBufferCurSize + pItems.itemsCopyBufferSize }
  else .error .overflow

/-- `Cte_Buffer`. -/
def cteBuffer (pItems : ItemsMem) (hiiItem : Memory) : Checked ItemsMem :=
  copyAndExtMem { pItems with
    itemsCopyBuffer := hiiItem
    itemsCopyBufferSize := UInt32.ofNat (opLength (hiiItem 1)) }

/-- The opcodes one behind the other. -/
def concatenation (items : List Memory) : List UInt8 :=
  (items.map SetupForms.cteBuffer).flatten

/-- The appends stay inside the pool, which then holds the opcodes and their size. -/
def Appended (items : List Memory) : Prop :=
  ∃ mem, items.foldlM cteBuffer newItemsMem = .ok mem ∧
    Stored mem.itemsBuffer 0 (concatenation items) ∧
    mem.itemsBufferCurSize.toNat = (concatenation items).length ∧
    mem.itemsBufferCurSize.toUInt64 ≤ mem.itemsBufferAlSize

end Model

section Growth

variable {pItems : ItemsMem} {list : SetupForms.ItemsMem} {hiiItem : Memory}

/-- The pool holds a list of bytes. It has room for one more, and less than a page to spare. -/
structure Holds (pItems : ItemsMem) (list : SetupForms.ItemsMem) : Prop where
  alSize : pItems.itemsBufferAlSize.toNat = list.alSize
  curSize : pItems.itemsBufferCurSize.toNat = list.buffer.length
  stored : Stored pItems.itemsBuffer 0 list.buffer
  room : list.buffer.length < list.alSize
  page : list.alSize ≤ list.buffer.length + 0x1000

/-- A new buffer holds nothing. -/
theorem newItemsMem_holds : Holds newItemsMem SetupForms.newItemsMem where
  alSize := rfl
  curSize := rfl
  stored i inside := absurd inside (Nat.not_lt_zero i)
  room := by decide
  page := by decide

/-- The bytes of an item that are copied. -/
theorem length_cteBuffer : (SetupForms.cteBuffer hiiItem).length = opLength (hiiItem 1) := by
  rw [SetupForms.cteBuffer, bytesOf, List.length_map, List.length_range]

/-- An item has fewer than 128 bytes. -/
theorem length_cteBuffer_lt : (SetupForms.cteBuffer hiiItem).length < 128 := by
  rw [length_cteBuffer]
  exact opLength_lt (hiiItem 1)

/-- The window of the comparison, while the sizes do not wrap. -/
theorem window_iff (holds : Holds pItems list) {count : UInt32}
    (counted : list.buffer.length + count.toNat < 2 ^ 32) :
    (pItems.itemsBufferAlSize ≤ (pItems.itemsBufferCurSize + count).toUInt64 ∧
        (pItems.itemsBufferCurSize + count).toUInt64 <
          pItems.itemsBufferAlSize + addItemsMemSize) ↔
      list.alSize ≤ list.buffer.length + count.toNat ∧
        list.buffer.length + count.toNat < list.alSize + 0x1000 := by
  have needed : (pItems.itemsBufferCurSize + count).toUInt64.toNat =
      list.buffer.length + count.toNat := by
    rw [UInt32.toNat_toUInt64, UInt32.toNat_add, holds.curSize, Nat.mod_eq_of_lt counted]
  have extended : (pItems.itemsBufferAlSize + addItemsMemSize).toNat = list.alSize + 0x1000 := by
    have page := holds.page
    rw [UInt64.toNat_add, holds.alSize]
    exact Nat.mod_eq_of_lt (by simp only [addItemsMemSize, UInt64.reduceToNat]; omega)
  rw [UInt64.le_iff_toNat_le, UInt64.lt_iff_toNat_lt, needed, extended, holds.alSize]

/-- The size of the pool when some bytes are needed. -/
def sizeAfter (alSize needed : Nat) : Nat :=
  if alSize ≤ needed ∧ needed < alSize + 0x1000 then alSize + 0x1000 else alSize

/-- After an append of a few bytes there is again room for one more. -/
theorem sizeAfter_bounds {alSize used count : Nat} (room : used < alSize)
    (page : alSize ≤ used + 0x1000) (short : count < 128) :
    used + count < sizeAfter alSize (used + count) ∧
      sizeAfter alSize (used + count) ≤ used + count + 0x1000 := by
  rw [sizeAfter]
  by_cases full : alSize ≤ used + count
  · rw [if_pos ⟨full, by omega⟩]
    omega
  · rw [if_neg (fun within => full within.1)]
    omega

/-- The pool after the extension, while the sizes do not wrap. -/
theorem extendMem_holds (holds : Holds pItems list)
    (counted : list.buffer.length + pItems.itemsCopyBufferSize.toNat < 2 ^ 32) :
    ∃ alSize buffer, extendMem pItems =
        { pItems with itemsBufferAlSize := alSize, itemsBuffer := buffer } ∧
      alSize.toNat = sizeAfter list.alSize (list.buffer.length + pItems.itemsCopyBufferSize.toNat) ∧
      Stored buffer 0 list.buffer := by
  have window := window_iff holds counted
  by_cases full : list.alSize ≤ list.buffer.length + pItems.itemsCopyBufferSize.toNat ∧
      list.buffer.length + pItems.itemsCopyBufferSize.toNat < list.alSize + 0x1000
  · have page := holds.page
    have room := holds.room
    refine ⟨_, _, if_pos (window.mpr full), ?_, ?_⟩
    · rw [sizeAfter, if_pos full, UInt64.toNat_add, holds.alSize]
      exact Nat.mod_eq_of_lt (by simp only [addItemsMemSize, UInt64.reduceToNat]; omega)
    · intro i inside
      rw [overlay_inside (by rw [holds.curSize]; omega)]
      exact holds.stored i inside
  · refine ⟨_, _, if_neg (fun within => full (window.mp within)), ?_, holds.stored⟩
    rw [sizeAfter, if_neg full, holds.alSize]

/-- An append, on the pool and on the list of bytes. -/
theorem copyAndExtMem_holds (holds : Holds pItems list) {chunk : List UInt8}
    (size : pItems.itemsCopyBufferSize.toNat = chunk.length)
    (source : Stored pItems.itemsCopyBuffer 0 chunk) (short : chunk.length < 128)
    (counted : list.buffer.length + chunk.length < 2 ^ 32) :
    ∃ later laterList, copyAndExtMem pItems = .ok later ∧
      SetupForms.copyAndExtMem list chunk = .ok laterList ∧
      laterList.buffer = list.buffer ++ chunk ∧ Holds later laterList := by
  obtain ⟨room, page⟩ := sizeAfter_bounds holds.room holds.page short
  obtain ⟨alSize, buffer, extended, grown, kept⟩ := extendMem_holds holds (size ▸ counted)
  rw [size] at grown
  have inside : list.buffer.length + chunk.length ≤ alSize.toNat := by
    rw [grown]
    exact room.le
  refine ⟨{ pItems with
      itemsBufferAlSize := alSize
      itemsBuffer := overlayAt list.buffer.length chunk.length pItems.itemsCopyBuffer buffer
      itemsBufferCurSize := pItems.itemsBufferCurSize + pItems.itemsCopyBufferSize },
    ⟨sizeAfter list.alSize (list.buffer.length + chunk.length), list.buffer ++ chunk⟩,
    ?_, if_pos room.le, rfl, ?_⟩
  · rw [copyAndExtMem, extended]
    simp only [holds.curSize, size, if_pos inside]
  · refine ⟨grown, ?_, ?_, ?_, ?_⟩
    · simp only [UInt32.toNat_add, holds.curSize, size, List.length_append]
      exact Nat.mod_eq_of_lt counted
    · rw [stored_append]
      constructor
      · exact kept.overlayAt (Or.inl (by omega))
      · intro i within
        have copied : overlayAt list.buffer.length chunk.length pItems.itemsCopyBuffer buffer
            (list.buffer.length + i) = pItems.itemsCopyBuffer i := by
          rw [overlayAt_inside (Nat.le_add_right _ _) (by omega), Nat.add_sub_cancel_left]
        rw [Nat.zero_add]
        exact copied.trans (by simpa using source i within)
    · rw [List.length_append]
      exact room
    · rw [List.length_append]
      exact page

/-- An item is put behind the others, as long as 32 bits count them. -/
theorem cteBuffer_holds (holds : Holds pItems list)
    (counted : list.buffer.length + (SetupForms.cteBuffer hiiItem).length < 2 ^ 32) :
    ∃ later laterList, cteBuffer pItems hiiItem = .ok later ∧
      SetupForms.copyAndExtMem list (SetupForms.cteBuffer hiiItem) = .ok laterList ∧
      laterList.buffer = list.buffer ++ SetupForms.cteBuffer hiiItem ∧
      Holds later laterList := by
  have size : (UInt32.ofNat (opLength (hiiItem 1))).toNat =
      (SetupForms.cteBuffer hiiItem).length := by
    have bound := opLength_lt (hiiItem 1)
    rw [length_cteBuffer, UInt32.toNat_ofNat', Nat.mod_eq_of_lt (by omega)]
  have source : Stored hiiItem 0 (SetupForms.cteBuffer hiiItem) := by
    intro i inside
    simp only [SetupForms.cteBuffer, bytesOf, List.getElem_map, List.getElem_range, Nat.zero_add]
  have given : Holds { pItems with
      itemsCopyBuffer := hiiItem
      itemsCopyBufferSize := UInt32.ofNat (opLength (hiiItem 1)) } list :=
    ⟨holds.alSize, holds.curSize, holds.stored, holds.room, holds.page⟩
  exact copyAndExtMem_holds given size source length_cteBuffer_lt counted

end Growth

section Appends

variable {items : List Memory}

/-- Items lie one behind the other. -/
theorem concatenation_cons (item : Memory) :
    concatenation (item :: items) = SetupForms.cteBuffer item ++ concatenation items := rfl

/-- Appends of fewer bytes than the size can count, on the pool and on the list of bytes. -/
theorem appends_hold {pItems : ItemsMem} {list : SetupForms.ItemsMem} (holds : Holds pItems list)
    (counted : list.buffer.length + (concatenation items).length < 2 ^ 32) :
    ∃ mem filled, items.foldlM cteBuffer pItems = .ok mem ∧
      (items.map SetupForms.cteBuffer).foldlM SetupForms.copyAndExtMem list = .ok filled ∧
      filled.buffer = list.buffer ++ concatenation items ∧ Holds mem filled := by
  induction items generalizing pItems list with
  | nil => exact ⟨pItems, list, rfl, rfl, (List.append_nil _).symm, holds⟩
  | cons item items inductionHypothesis =>
    rw [concatenation_cons, List.length_append] at counted
    obtain ⟨later, laterList, copied, listed, contents, held⟩ :=
      @cteBuffer_holds pItems list item holds (by omega)
    obtain ⟨mem, filled, ran, listRan, all, done⟩ := inductionHypothesis held
      (by rw [contents, List.length_append]; omega)
    refine ⟨mem, filled, ?_, ?_, ?_, done⟩
    · rw [List.foldlM_cons, copied]
      exact ran
    · rw [List.map_cons, List.foldlM_cons, listed]
      exact listRan
    · rw [all, contents, concatenation_cons, List.append_assoc]

/-- The buffer holds the concatenation of the appended opcodes and counts it, inside the pool, exactly
if 32 bits can count their bytes. The opcodes are any bytes with a length of their own, in any
number, so the pool is extended any number of times. -/
theorem appended_iff (items : List Memory) :
    Appended items ↔ (concatenation items).length < 2 ^ 32 := by
  constructor
  · rintro ⟨mem, -, -, size, -⟩
    rw [← size]
    exact UInt32.toNat_lt mem.itemsBufferCurSize
  · intro counted
    obtain ⟨mem, filled, ran, -, contents, holds⟩ := appends_hold newItemsMem_holds
      (by rw [SetupForms.newItemsMem, List.length_nil, Nat.zero_add]; exact counted)
    rw [SetupForms.newItemsMem, List.nil_append] at contents
    refine ⟨mem, ran, contents ▸ holds.stored, contents ▸ holds.curSize, ?_⟩
    rw [UInt64.le_iff_toNat_le, UInt32.toNat_toUInt64, holds.curSize, holds.alSize]
    exact holds.room.le

/-- An END. -/
def endItem : Memory := memoryOf [ifrEndOp, 0x02] (fun _ => 0)

/-- As many ENDs as have 2 ^ 32 bytes. -/
def manyEnds : List Memory := List.replicate (2 ^ 31) endItem

/-- The items of the example have 2^32 bytes. -/
theorem manyEnds_length : (concatenation manyEnds).length = 2 ^ 32 := by
  have two : (SetupForms.cteBuffer endItem).length = 2 := rfl
  rw [concatenation, manyEnds, List.map_replicate, List.length_flatten, List.map_replicate, two,
    List.sum_replicate, smul_eq_mul]
  norm_num

/-- A size of 32 bits cannot count them. -/
theorem not_always_appended : ¬ ∀ items, Appended items := by
  intro always
  obtain ⟨mem, -, -, size, -⟩ := always manyEnds
  rw [manyEnds_length] at size
  exact absurd size (UInt32.toNat_lt mem.itemsBufferCurSize).ne

end Appends

end SmcPkg.ItemsBuffer
