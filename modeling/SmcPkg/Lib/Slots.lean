import Mathlib

/-!
# Tables with free slots

A table has a fixed number of slots, and a predicate tells which are free. The slots before the
first free one are occupied. A new item goes into the first free slot, and a loop over the table
stops there.
-/

namespace SmcPkg.Slots

variable {α ι : Type} (free : α → Bool)

/-- The slots before the first free one. -/
def occupied (slots : List α) : List α := slots.takeWhile fun slot => !free slot

/-- Fill the first free slot, if there is one. -/
def fillFirst (fill : α → α) : List α → Option (List α)
  | [] => none
  | slot :: rest =>
    if free slot then some (fill slot :: rest)
    else (fillFirst fill rest).map (slot :: ·)

/-- Change the occupied slots. -/
def mapOccupied (change : α → α) : List α → List α
  | [] => []
  | slot :: rest =>
    if free slot then slot :: rest else change slot :: mapOccupied change rest

/-- Fill slots one after another. -/
def fillAll (fill : ι → α → α) : List ι → List α → Option (List α)
  | [], slots => some slots
  | entry :: entries, slots => (fillFirst free (fill entry) slots).bind (fillAll fill entries)

/-- Behind the first free slot all are free. -/
def Packed (slots : List α) : Prop :=
  ∃ rest, slots = occupied free slots ++ rest ∧ ∀ slot ∈ rest, free slot

variable {free}

/-- Of taken slots and free ones behind them the taken ones are occupied. -/
theorem occupied_append {taken rest : List α} (full : ∀ slot ∈ taken, free slot = false)
    (empty : ∀ slot ∈ rest, free slot) : occupied free (taken ++ rest) = taken := by
  unfold occupied
  rw [List.takeWhile_append_of_pos (by simpa using full)]
  cases rest with
  | nil => simp
  | cons slot rest => simp [empty slot (by simp)]

/-- Such slots are packed. -/
theorem packed_append {taken rest : List α} (full : ∀ slot ∈ taken, free slot = false)
    (empty : ∀ slot ∈ rest, free slot) : Packed free (taken ++ rest) :=
  ⟨rest, by rw [occupied_append full empty], empty⟩

/-- An occupied slot is not free. -/
theorem not_free_of_mem_occupied {slots : List α} {slot : α}
    (member : slot ∈ occupied free slots) : free slot = false := by
  simpa using List.mem_takeWhile_imp member

/-- The first free slot is filled. -/
theorem fillFirst_append {fill : α → α} {taken rest after : List α} {slot : α}
    (full : ∀ other ∈ taken, free other = false) (empty : free slot)
    (filled : fillFirst free fill (taken ++ slot :: rest) = some after) :
    after = taken ++ fill slot :: rest := by
  induction taken generalizing after with
  | nil =>
    rw [List.nil_append, fillFirst, if_pos empty] at filled
    exact (Option.some.inj filled).symm
  | cons other taken ih =>
    have busy : free other = false := full other (by simp)
    rw [List.cons_append, fillFirst, if_neg (by simp [busy])] at filled
    obtain ⟨middle, found, rfl⟩ := Option.map_eq_some_iff.mp filled
    rw [ih (fun later member => full later (by simp [member])) found]
    rfl

/-- Where all slots are taken none is filled. -/
theorem fillFirst_full {fill : α → α} {taken : List α}
    (full : ∀ other ∈ taken, free other = false) : fillFirst free fill taken = none := by
  induction taken with
  | nil => rfl
  | cons other taken ih =>
    rw [fillFirst, if_neg (by simp [full other]),
      ih (fun later member => full later (by simp [member]))]
    rfl

/-- What a table holds after it was filled, if what a fill leaves does not depend on the slot. -/
theorem occupied_fillAll {clean : α → Prop} {fill : ι → α → α} {item : ι → α}
    (exact : ∀ entry slot, clean slot → fill entry slot = item entry)
    (cleanItem : ∀ entry, clean (item entry)) (entries : List ι) {slots after : List α}
    (packed : Packed free slots) (cleanSlots : ∀ slot ∈ slots, clean slot)
    (filled : fillAll free fill entries slots = some after) :
    occupied free after =
        occupied free slots ++ (entries.map item).filter (fun slot => !free slot) ∧
      Packed free after ∧ ∀ slot ∈ after, clean slot := by
  induction entries generalizing slots with
  | nil =>
    obtain rfl := Option.some.inj filled
    exact ⟨by simp, packed, cleanSlots⟩
  | cons entry entries ih =>
    obtain ⟨middle, first, rest⟩ := Option.bind_eq_some_iff.mp filled
    obtain ⟨empties, split, empty⟩ := packed
    have busy : ∀ slot ∈ occupied free slots, free slot = false :=
      fun slot => not_free_of_mem_occupied
    cases empties with
    | nil =>
      rw [split, List.append_nil, fillFirst_full busy] at first
      exact absurd first (by simp)
    | cons slot empties =>
      have slotFree : free slot := empty slot (by simp)
      have othersFree : ∀ other ∈ empties, free other :=
        fun other member => empty other (by simp [member])
      rw [split] at first
      have same := fillFirst_append busy slotFree first
      rw [exact entry slot (cleanSlots slot (by rw [split]; simp))] at same
      subst same
      have cleanMiddle : ∀ other ∈ occupied free slots ++ item entry :: empties, clean other := by
        intro other member
        rcases List.mem_append.mp member with old | new
        · exact cleanSlots other (by rw [split]; simp [old])
        · rcases List.mem_cons.mp new with rfl | behind
          · exact cleanItem entry
          · exact cleanSlots other (by rw [split]; simp [behind])
      by_cases again : free (item entry)
      · have nowFree : ∀ other ∈ item entry :: empties, free other := by
          simpa [again] using othersFree
        have later := ih (packed_append busy nowFree) cleanMiddle rest
        rw [occupied_append busy nowFree] at later
        simpa [again] using later
      · have regroup : occupied free slots ++ item entry :: empties =
            (occupied free slots ++ [item entry]) ++ empties := by simp
        have nowBusy : ∀ other ∈ occupied free slots ++ [item entry], free other = false := by
          intro other member
          rcases List.mem_append.mp member with old | new
          · exact busy other old
          · rw [List.mem_singleton.mp new]
            simpa using again
        rw [regroup] at rest cleanMiddle
        have later := ih (packed_append nowBusy othersFree) cleanMiddle rest
        rw [occupied_append nowBusy othersFree] at later
        simpa [again] using later

/-- The filling of a slot leaves their number. -/
theorem fillFirst_length {fill : α → α} {slots after : List α}
    (filled : fillFirst free fill slots = some after) : after.length = slots.length := by
  induction slots generalizing after with
  | nil => exact absurd filled (by simp [fillFirst])
  | cons slot rest ih =>
    rw [fillFirst] at filled
    split at filled
    · obtain rfl := Option.some.inj filled
      rfl
    · obtain ⟨middle, found, rfl⟩ := Option.map_eq_some_iff.mp filled
      rw [List.length_cons, List.length_cons, ih found]

/-- So does the filling of many. -/
theorem fillAll_length {fill : ι → α → α} {entries : List ι} {slots after : List α}
    (filled : fillAll free fill entries slots = some after) : after.length = slots.length := by
  induction entries generalizing slots with
  | nil =>
    obtain rfl := Option.some.inj filled
    rfl
  | cons entry entries ih =>
    obtain ⟨middle, first, rest⟩ := Option.bind_eq_some_iff.mp filled
    rw [ih rest, fillFirst_length first]

/-- A fill finds a free slot exactly if not all slots of a packed table are occupied. -/
theorem fillFirst_ne_none_iff {fill : α → α} {slots : List α} (packed : Packed free slots) :
    fillFirst free fill slots ≠ none ↔ (occupied free slots).length < slots.length := by
  obtain ⟨empties, split, empty⟩ := packed
  have busy : ∀ slot ∈ occupied free slots, free slot = false :=
    fun slot => not_free_of_mem_occupied
  have length : slots.length = (occupied free slots).length + empties.length := by
    conv_lhs => rw [split]
    exact List.length_append
  cases empties with
  | nil =>
    rw [List.append_nil] at split
    rw [List.length_nil, Nat.add_zero] at length
    have full : fillFirst free fill slots = none := by
      rw [split]
      exact fillFirst_full busy
    simp [full, length]
  | cons slot empties =>
    rw [List.length_cons] at length
    have found : fillFirst free fill slots ≠ none := by
      rw [split]
      generalize occupied free slots = taken at busy
      induction taken with
      | nil => simp [fillFirst, empty slot (by simp)]
      | cons other taken ih =>
        have rest := ih (fun later member => busy later (by simp [member]))
        simpa [fillFirst, busy other (by simp)] using rest
    exact ⟨fun _ => by omega, fun _ => found⟩

/-- Two rows of entries are filled in one after the other. -/
theorem fillAll_append (fill : ι → α → α) (first second : List ι) (slots : List α) :
    fillAll free fill (first ++ second) slots =
      (fillAll free fill first slots).bind (fillAll free fill second) := by
  induction first generalizing slots with
  | nil => rfl
  | cons entry first ih =>
    rw [List.cons_append, fillAll, fillAll, Option.bind_assoc]
    congr 1
    funext middle
    exact ih middle

/-- The capacity of a table: entries find their slots exactly if those before the last one that
occupy a slot are fewer than the slots. An entry that leaves its slot free takes none away. -/
theorem fillAll_ne_none_iff {clean : α → Prop} {fill : ι → α → α} {item : ι → α}
    (exact : ∀ entry slot, clean slot → fill entry slot = item entry)
    (cleanItem : ∀ entry, clean (item entry)) {slots : List α}
    (empty : ∀ slot ∈ slots, free slot) (cleanSlots : ∀ slot ∈ slots, clean slot)
    (nonempty : slots ≠ []) (entries : List ι) :
    fillAll free fill entries slots ≠ none ↔
      entries.dropLast.countP (fun entry => !free (item entry)) < slots.length := by
  have packed : Packed free ([] ++ slots) := packed_append (by simp) empty
  have unoccupied : occupied free ([] ++ slots) = [] := occupied_append (by simp) empty
  rw [List.nil_append] at packed unoccupied
  induction entries using List.reverseRecOn with
  | nil =>
    have room : 0 < slots.length := List.length_pos_of_ne_nil nonempty
    simpa [fillAll] using room
  | append_singleton entries entry ih =>
    rw [fillAll_append, List.dropLast_concat]
    cases filled : fillAll free fill entries slots with
    | none =>
      have full := mt ih.mpr (not_not_intro filled)
      have fewer : entries.dropLast.countP (fun entry => !free (item entry)) ≤
          entries.countP fun entry => !free (item entry) :=
        (List.dropLast_sublist entries).countP_le
      simp only [Option.bind_none, ne_eq, not_true_eq_false, false_iff]
      omega
    | some middle =>
      obtain ⟨taken, packedMiddle, -⟩ :=
        occupied_fillAll exact cleanItem entries packed cleanSlots filled
      have one : ∀ slots : List α, fillAll free fill [entry] slots =
          fillFirst free (fill entry) slots := by
        intro slots
        rw [fillAll]
        cases fillFirst free (fill entry) slots <;> rfl
      rw [Option.bind_some, one, fillFirst_ne_none_iff packedMiddle, taken, unoccupied,
        fillAll_length filled, List.nil_append, ← List.countP_eq_length_filter, List.countP_map]
      rfl

/-- A change that frees no slot and takes none. -/
theorem occupied_mapOccupied {change : α → α} (same : ∀ slot, free (change slot) = free slot)
    (slots : List α) : occupied free (mapOccupied free change slots) =
      (occupied free slots).map change := by
  induction slots with
  | nil => rfl
  | cons slot rest ih =>
    rw [mapOccupied]
    by_cases empty : free slot
    · simp [occupied, empty]
    · rw [if_neg empty]
      unfold occupied at ih
      simp [occupied, same, empty, ih]

end SmcPkg.Slots
