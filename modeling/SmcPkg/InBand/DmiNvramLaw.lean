import SmcPkg.InBand.DmiNvram

/-!
# The list of the DMI values is kept in step

The list names every DMI value once as long as no call leaves one of its two writes undone,
takes a failed read for an answer, or meets a full list. The lemmas on the array say what
its loops leave of the list.
-/

namespace SmcPkg.Dmi

open Bytes Card RaidCmd BiosCfg Smbios

section Arrays

variable {array : DmiArray} {index count : UInt8} {entry : DmiVar} {place : Nat}

/-- An entry is written at its place. -/
theorem get_withEntry (i : Fin dmiArrayCount) :
    (array.withEntry index entry).get i = if i.val = index.toNat then entry else array.get i := by
  rw [DmiArray.withEntry, Vector.get_eq_getElem, Vector.get_eq_getElem, Vector.getElem_set]
  split_ifs with same other other
  · rfl
  · exact absurd same.symm other
  · exact absurd other.symm same
  · rfl

/-- An entry leaves the count, which stands at place 0. -/
theorem count_withEntry (behind : index ≠ 0) : (array.withEntry index entry).count = array.count := by
  have apart : ¬ 0 = index.toNat := fun zero => behind (UInt8.toNat_inj.mp zero.symm)
  rw [DmiArray.count, get_withEntry, if_neg apart]
  rfl

/-- The count leaves the entries. -/
theorem get_withCount (i : Fin dmiArrayCount) (behind : i.val ≠ 0) :
    (array.withCount count).get i = array.get i := by
  rw [DmiArray.withCount, Vector.get_eq_getElem, Vector.get_eq_getElem, Vector.getElem_set,
    if_neg (Ne.symm behind)]
  rfl

/-- The count is read back. -/
theorem count_withCount : (array.withCount count).count = count := by
  rw [DmiArray.count, DmiArray.withCount, Vector.get_eq_getElem, Vector.getElem_set, if_pos rfl]

/-- As many entries are listed as are counted. -/
theorem listed_length : array.listed.length = array.count.toNat := by
  have bound : array.count.toNat < 256 := array.count.toNat_lt
  have size : array.toList.length = 256 := array.length_toList
  rw [DmiArray.listed, List.length_take, List.length_drop, size]
  omega

/-- The entries of the list are those behind the first one. -/
theorem listed_getElem (inside : place < array.listed.length) (below : place + 1 < dmiArrayCount) :
    array.listed[place] = array.get ⟨place + 1, below⟩ := by
  simp only [DmiArray.listed, List.getElem_take, List.getElem_drop, Vector.getElem_toList,
    Vector.get_eq_getElem, Nat.add_comm 1 place]

/-- Two arrays with the same count and the same entries have the same list. -/
theorem listed_ext {other : List DmiVar} (size : other.length = array.count.toNat)
    (same : ∀ place, (inside : place < other.length) → (below : place + 1 < dmiArrayCount) →
      array.get ⟨place + 1, below⟩ = other[place]) : array.listed = other := by
  apply List.ext_getElem
  · rw [listed_length, size]
  · intro place here there
    have bound : array.count.toNat < 256 := array.count.toNat_lt
    have below : place + 1 < dmiArrayCount := by
      rw [dmiArrayCount]
      omega
    rw [listed_getElem here below, same place there below]

/-- An entry behind the last one, once it is counted. -/
theorem listed_append (room : array.count.toNat < 255) :
    ((array.withEntry (array.count + 1) entry).withCount (array.count + 1)).listed =
      array.listed ++ [entry] := by
  have next : (array.count + 1).toNat = array.count.toNat + 1 := by
    rw [UInt8.toNat_add]
    exact Nat.mod_eq_of_lt (by simpa using by omega)
  apply listed_ext
  · rw [count_withCount, next, List.length_append, listed_length]
    rfl
  · intro place inside below
    rw [get_withCount _ (Nat.succ_ne_zero place), get_withEntry, next]
    by_cases last : place = array.count.toNat
    · subst last
      rw [if_pos rfl]
      simp [List.getElem_append_right, listed_length]
    · rw [List.length_append, listed_length, List.length_singleton] at inside
      have before : place < array.listed.length := by
        rw [listed_length]
        omega
      rw [if_neg (by simpa using last), List.getElem_append_left before,
        listed_getElem before below]

/-- What the second loop leaves: every entry from an index on is the one behind it. -/
theorem shiftEntries_spec {rounds : Nat} (first : index ≠ 0) (room : array.count.toNat < 255)
    (started : 0 < rounds) (enough : array.count.toNat + 2 ≤ rounds + index.toNat) :
    ∃ shifted, shiftEntries rounds index array = .ok shifted ∧ shifted.count = array.count ∧
      ∀ place, (below : place + 1 < dmiArrayCount) → place ≠ 0 →
        shifted.get ⟨place, Nat.lt_of_succ_lt below⟩ =
          if index.toNat ≤ place ∧ place ≤ array.count.toNat then array.get ⟨place + 1, below⟩
          else array.get ⟨place, Nat.lt_of_succ_lt below⟩ := by
  induction rounds generalizing index array with
  | zero => omega
  | succ rounds inductionHypothesis =>
    rw [shiftEntries]
    by_cases inside : index ≤ array.count
    · have below := UInt8.le_iff_toNat_le.mp inside
      have next : (index + 1).toNat = index.toNat + 1 := by
        rw [UInt8.toNat_add]
        exact Nat.mod_eq_of_lt (by simpa using by omega)
      have size : dmiArrayCount = 256 := rfl
      have fits : index.toNat + 1 < dmiArrayCount := by omega
      have nextFirst : index + 1 ≠ 0 := by
        intro zero
        rw [zero] at next
        cases next
      have sameCount : (array.withEntry index (array.get ⟨_, fits⟩)).count = array.count :=
        count_withEntry first
      rw [if_pos inside, dif_pos fits]
      obtain ⟨shifted, ran, count, entries⟩ :=
        @inductionHypothesis (array.withEntry index (array.get ⟨_, fits⟩)) (index + 1) nextFirst
          (sameCount ▸ room) (by omega) (by rw [sameCount, next]; omega)
      refine ⟨shifted, ran, count.trans sameCount, ?_⟩
      intro place belowPlace behind
      rw [entries place belowPlace behind, sameCount, next, get_withEntry, get_withEntry]
      by_cases here : place = index.toNat
      · subst here
        rw [if_neg (by omega), if_pos rfl, if_pos ⟨Nat.le_refl _, below⟩]
      · rw [if_neg (show ¬ place = index.toNat from here)]
        by_cases later : index.toNat ≤ place ∧ place ≤ array.count.toNat
        · rw [if_pos ⟨by omega, later.2⟩, if_pos later, if_neg (by simp only; omega)]
        · rw [if_neg (by omega), if_neg later]
    · have above := UInt8.not_le.mp inside
      rw [UInt8.lt_iff_toNat_lt] at above
      rw [if_neg inside]
      refine ⟨array, rfl, rfl, ?_⟩
      intro place belowPlace behind
      rw [if_neg (by omega)]

end Arrays

section Deletes

variable {array : DmiArray} {name : DmiVar}

/-- The loops compare all of an entry but its flags. -/
theorem eq_of_key {left right : DmiVar} (type : left.type = right.type)
    (handle : left.handle = right.handle) (offset : left.offset = right.offset)
    (flags : left.flags = right.flags) : left = right := by
  cases left
  cases right
  cases type
  cases handle
  cases offset
  cases flags
  rfl

/-- The first loop finds the place of an entry: no entry before it has its key. -/
theorem findEntry_spec {position rounds : Nat} {index : UInt8} (distinct : array.listed.Nodup)
    (flags : ∀ entry ∈ array.listed, entry.flags = 0) (inside : position < array.listed.length)
    (here : array.listed[position] = name) (first : index ≠ 0) (before : index.toNat ≤ position + 1)
    (enough : position + 2 ≤ rounds + index.toNat) :
    ∃ found, findEntry array name rounds index = .ok found ∧ found.toNat = position + 1 := by
  induction rounds generalizing index with
  | zero => omega
  | succ rounds inductionHypothesis =>
    have size := @listed_length array
    have bound := index_lt array.count
    have capacity : dmiArrayCount = 256 := rfl
    have positive : index.toNat ≠ 0 := fun zero => first (UInt8.toNat_inj.mp zero)
    have counted : index ≤ array.count := UInt8.le_iff_toNat_le.mpr (by omega)
    have before' : index.toNat - 1 < array.listed.length := by omega
    have read : array.entry index = array.listed[index.toNat - 1] := by
      rw [listed_getElem before' (by omega), DmiArray.entry]
      congr 1
      apply Fin.ext
      simp only
      omega
    rw [findEntry, if_pos counted]
    by_cases last : index.toNat = position + 1
    · have same : array.entry index = name := by
        rw [read, ← here]
        congr 1
        omega
      simp only [same, and_self, if_true]
      exact ⟨index, rfl, last⟩
    · have other : array.entry index ≠ name := by
        rw [read, ← here]
        intro same
        have again := (distinct.getElem_inj_iff).mp same
        omega
      have noMatch : ¬ ((array.entry index).type = name.type ∧
          (array.entry index).handle = name.handle ∧ (array.entry index).offset = name.offset) := by
        rintro ⟨type, handle, offset⟩
        have flagsHere := flags _ (List.getElem_mem before')
        have flagsName := flags _ (List.getElem_mem inside)
        rw [← read] at flagsHere
        rw [here] at flagsName
        exact other (eq_of_key type handle offset (flagsHere.trans flagsName.symm))
      have next : (index + 1).toNat = index.toNat + 1 := by
        rw [UInt8.toNat_add]
        exact Nat.mod_eq_of_lt (by simpa using by omega)
      have nextFirst : index + 1 ≠ 0 := by
        intro zero
        rw [zero] at next
        cases next
      simp only [noMatch, if_false]
      exact inductionHypothesis nextFirst (by omega) (by omega)

/-- The loops take an entry from the list. -/
theorem deletes (distinct : array.listed.Nodup) (flags : ∀ entry ∈ array.listed, entry.flags = 0)
    (room : array.count.toNat < 255) (member : name ∈ array.listed) :
    ∃ index shifted, findEntry array name 256 1 = .ok index ∧
      shiftEntries 256 index array = .ok shifted ∧
      (shifted.withCount (shifted.count - 1)).listed = array.listed.erase name := by
  have size := @listed_length array
  have inside := List.idxOf_lt_length_of_mem member
  have one : (1 : UInt8).toNat = 1 := rfl
  obtain ⟨index, found, place⟩ := @findEntry_spec array name _ 256 1 distinct flags inside
    (List.getElem_idxOf inside) (by decide) (by omega) (by omega)
  have first : index ≠ 0 := by
    intro zero
    rw [zero] at place
    cases place
  obtain ⟨shifted, ran, count, entries⟩ :=
    @shiftEntries_spec array index 256 first room (by omega) (by omega)
  refine ⟨index, shifted, found, ran, ?_⟩
  have least : (1 : UInt8) ≤ shifted.count := by
    rw [count, UInt8.le_iff_toNat_le]
    omega
  have fewer : (shifted.count - 1).toNat = array.count.toNat - 1 := by
    rw [UInt8.toNat_sub_of_le _ _ least, count]
    rfl
  rw [List.erase_eq_eraseIdx_of_idxOf rfl]
  apply listed_ext
  · rw [count_withCount, fewer, List.length_eraseIdx_of_lt inside, size]
  · intro position below belowArray
    rw [List.length_eraseIdx_of_lt inside] at below
    have capacity : dmiArrayCount = 256 := rfl
    rw [get_withCount _ (Nat.succ_ne_zero position),
      entries (position + 1) (by omega) (Nat.succ_ne_zero position), List.getElem_eraseIdx]
    split_ifs with shiftedHere kept kept
    · omega
    · rw [listed_getElem (by omega) (by omega)]
    · rw [listed_getElem (by omega) (by omega)]
    · omega

end Deletes

section Exact

/-- The names on the list. -/
def Nvram.listed (nvram : Nvram) : List DmiVar :=
  match nvram.dmiArray with
  | some array => array.listed
  | none => []

/-- The list names every DMI value once and nothing else. -/
structure Nvram.Exact (nvram : Nvram) : Prop where
  distinct : nvram.listed.Nodup
  lists : ∀ name, name ∈ nvram.listed ↔ nvram.dmiVar name ≠ none
  flags : ∀ name ∈ nvram.listed, name.flags = 0

/-- Nothing is listed before any value was edited, and there is none. -/
theorem empty_exact : Nvram.empty.Exact := by
  constructor
  · exact List.nodup_nil
  · intro name
    simp [Nvram.listed, Nvram.empty]
  · intro name member
    cases member

variable {failures : Failures} {nvram : Nvram} {name : DmiVar} {data : List UInt8}

/-- Two states with the same list and the same values keep it alike. -/
theorem Nvram.Exact.congr {next : Nvram} (exact : nvram.Exact) (listed : next.listed = nvram.listed)
    (values : ∀ other, next.dmiVar other ≠ none ↔ nvram.dmiVar other ≠ none) : next.Exact := by
  constructor
  · rw [listed]
    exact exact.distinct
  · intro other
    rw [listed, exact.lists, values]
  · rw [listed]
    exact exact.flags

/-- A variable that is set leaves the list. -/
theorem listed_setDmiVar : (setDmiVar failures name data nvram).2.listed = nvram.listed := by
  rw [setDmiVar]
  cases failures.setVar with
  | some failure => rfl
  | none =>
    simp only
    split_ifs
    · rfl
    · rfl

/-- Which values there are after one was written. -/
theorem exists_setDmiVar (other : DmiVar) :
    (setDmiVar failures name data nvram).2.dmiVar other ≠ none ↔
      if other = name ∧ failures.setVar = none then data ≠ [] else nvram.dmiVar other ≠ none := by
  rw [setDmiVar]
  cases fails : failures.setVar with
  | some failure => simp
  | none =>
    by_cases absent : data = [] ∧ nvram.dmiVar name = none
    · simp only [if_pos absent, and_true]
      by_cases same : other = name
      · rw [if_pos same, same]
        simp [absent.1, absent.2]
      · rw [if_neg same]
    · simp only [if_neg absent, and_true, Nvram.write]
      by_cases same : other = name
      · rw [if_pos same, same, Function.update_self]
        by_cases nothing : data = []
        · simp [nothing]
        · simp [nothing]
      · rw [if_neg same, Function.update_of_ne same]

/-- A value that is written where one was, or was not. -/
theorem Nvram.Exact.setDmiVar (exact : nvram.Exact)
    (same : failures.setVar = none → (data ≠ [] ↔ nvram.dmiVar name ≠ none)) :
    (setDmiVar failures name data nvram).2.Exact := by
  apply exact.congr listed_setDmiVar
  intro other
  rw [exists_setDmiVar]
  by_cases here : other = name ∧ failures.setVar = none
  · rw [if_pos here, same here.2, here.1]
  · rw [if_neg here]

/-- A new value, behind the others on the list. -/
theorem Nvram.Exact.append {array : DmiArray} (exact : nvram.Exact)
    (appended : array.listed = nvram.listed ++ [name]) (fresh : nvram.dmiVar name = none)
    (flags : name.flags = 0) (stored : failures.setVar = none) (filled : data ≠ []) :
    (Dmi.setDmiVar failures name data { nvram with dmiArray := some array }).2.Exact := by
  have listed : (Dmi.setDmiVar failures name data { nvram with dmiArray := some array }).2.listed =
      nvram.listed ++ [name] := listed_setDmiVar.trans appended
  constructor
  · rw [listed, ← List.concat_eq_append]
    apply exact.distinct.concat
    rw [exact.lists]
    exact not_not_intro fresh
  · intro other
    rw [exists_setDmiVar, listed, List.mem_append, List.mem_singleton, exact.lists]
    by_cases same : other = name
    · rw [if_pos ⟨same, stored⟩]
      simp [same, filled]
    · rw [if_neg (fun both => same both.1)]
      simp [same]
  · intro other member
    rw [listed, List.mem_append, List.mem_singleton] at member
    obtain old | new := member
    · exact exact.flags other old
    · rw [new]
      exact flags

/-- A value and its entry are gone. -/
theorem Nvram.Exact.erase {array : DmiArray} (exact : nvram.Exact)
    (erased : array.listed = nvram.listed.erase name) (deleted : failures.setVar = none) :
    Nvram.Exact { (Dmi.setDmiVar failures name [] nvram).2 with dmiArray := some array } := by
  constructor
  · change array.listed.Nodup
    rw [erased]
    exact exact.distinct.erase name
  · intro other
    change other ∈ array.listed ↔ (Dmi.setDmiVar failures name [] nvram).2.dmiVar other ≠ none
    rw [exists_setDmiVar, erased, exact.distinct.mem_erase_iff, exact.lists]
    by_cases same : other = name
    · rw [if_pos ⟨same, deleted⟩]
      simp [same]
    · rw [if_neg (fun both => same both.1)]
      simp [same]
  · intro other member
    change other ∈ array.listed at member
    rw [erased] at member
    exact exact.flags other (List.mem_of_mem_erase member)

end Exact

section Stores

variable (failures : Failures) (nvram : Nvram) (handed : Handed)

/-- An entry is appended to the list. -/
def Appends : Prop :=
  getDmiVar failures nvram (nameOf handed) = efiNotFound ∧ failures.setArray = none

/-- `SetVariable` is reached for the value, and succeeds. -/
def Writes : Prop :=
  (getDmiVar failures nvram (nameOf handed) = efiSuccess ∨
    getDmiVar failures nvram (nameOf handed) = efiBufferTooSmall ∨
    getDmiVar failures nvram (nameOf handed) = efiNotFound ∧
      ∃ failure, failures.setArray = some failure ∧ failure.val = efiBufferTooSmall) ∧
  failures.setVar = none

/-- What keeps the list in step while a value is stored: an entry is appended to the list as
it is, while there is room, for a value that was not there and then is; and without a new
entry, a value that is written was there before. -/
structure StoresInStep : Prop where
  appended : Appends failures nvram handed →
    (failures.getArray = none ∨ nvram.listed = []) ∧ nvram.listed.length < 255 ∧
    nvram.dmiVar (nameOf handed) = none ∧ failures.setVar = none ∧ writtenSize handed ≠ 0
  written : ¬ Appends failures nvram handed → Writes failures nvram handed →
    (writtenSize handed ≠ 0 ↔ nvram.dmiVar (nameOf handed) ≠ none)

/-- What keeps the list in step while a value is deleted: the list is not full, and either
both the value and its entry go, or neither does. -/
structure DeletesInStep : Prop where
  room : failures.getArray = none → nvram.listed.length < 255
  both : failures.setArray = none → failures.getArray = none ∧
    nvram.dmiVar (nameOf handed) ≠ none ∧ failures.setVar = none
  neither : failures.setArray ≠ none →
    failures.setVar ≠ none ∨ nvram.dmiVar (nameOf handed) = none

/-- What keeps the list in step over a call. -/
def InStep : Prop :=
  if asksDefault handed then
    getDmiVar failures nvram (nameOf handed) = efiNotFound ∨ DeletesInStep failures nvram handed
  else StoresInStep failures nvram handed

variable {failures nvram handed}

/-- The array that is read has the list. -/
theorem listed_getDmiArray (reads : failures.getArray = none ∨ nvram.listed = []) :
    (getDmiArray failures nvram).2.listed = nvram.listed := by
  have zeros : noEntries.listed = [] := rfl
  rw [getDmiArray]
  cases fails : failures.getArray with
  | some failure =>
    obtain none | nothing := reads
    · rw [fails] at none
      cases none
    · exact zeros.trans nothing.symm
  | none =>
    cases array : nvram.dmiArray with
    | some array => simp only [Nvram.listed, array]
    | none => simp only [Nvram.listed, array, zeros]

/-- The entry behind the last one, once it is counted. -/
theorem listed_placeEntry {name : DmiVar} {found : Status × DmiArray}
    (failed : found.1 ≠ efiSuccess → found.2 = noEntries) (room : found.2.listed.length < 255) :
    ((placeEntry name found).withCount ((placeEntry name found).count + 1)).listed =
      found.2.listed ++ [name] := by
  rw [listed_length] at room
  have index : (if found.1 = efiSuccess then found.2.count + 1 else 1) = found.2.count + 1 := by
    split_ifs with success
    · rfl
    · rw [failed success]
      rfl
  have behind : found.2.count + 1 ≠ 0 := by
    intro zero
    have wrapped := congrArg UInt8.toNat zero
    rw [UInt8.toNat_add] at wrapped
    simp at wrapped
    omega
  rw [placeEntry, index, count_withEntry behind, listed_append room]

/-- What a failed read leaves is an array of zeros. -/
theorem getDmiArray_failed (failed : (getDmiArray failures nvram).1 ≠ efiSuccess) :
    (getDmiArray failures nvram).2 = noEntries := by
  rw [getDmiArray] at failed ⊢
  cases fails : failures.getArray with
  | some failure => rfl
  | none =>
    cases array : nvram.dmiArray with
    | some array =>
      simp only [fails, array] at failed
      exact absurd rfl failed
    | none => rfl

/-- There is data if its size is not zero. -/
theorem writtenData_ne_nil : writtenData handed ≠ [] ↔ writtenSize handed ≠ 0 := by
  rw [writtenData, ← List.length_pos_iff_ne_nil, bytesAt, List.length_map,
    List.length_range]
  constructor
  · intro positive zero
    rw [zero] at positive
    cases positive
  · intro size
    apply Nat.pos_of_ne_zero
    intro zero
    exact size (UInt8.toNat_inj.mp zero)

/-- A step lemma: a value is stored. -/
theorem storeValue_exact (exact : nvram.Exact) (inStep : StoresInStep failures nvram handed) :
    (storeValue failures (nameOf handed) (writtenData handed) nvram).Exact := by
  rw [storeValue]
  simp only
  by_cases missing : getDmiVar failures nvram (nameOf handed) = efiNotFound
  · cases sets : failures.setArray with
    | none =>
      obtain ⟨reads, room, absent, stored, size⟩ := inStep.appended ⟨missing, sets⟩
      rw [← listed_getDmiArray reads] at room
      have appended := @listed_placeEntry (nameOf handed) _ getDmiArray_failed room
      rw [listed_getDmiArray reads] at appended
      simp only [missing, if_true, setDmiArray, sets, or_true]
      exact exact.append appended absent rfl stored (writtenData_ne_nil.mpr size)
    | some failure =>
      have notAppended : ¬ Appends failures nvram handed := by
        intro appends
        rw [appends.2] at sets
        cases sets
      have notSuccess : failure.val ≠ efiSuccess := by
        intro success
        have error := failure.property
        rw [success] at error
        cases error
      simp only [missing, if_true, setDmiArray, sets]
      by_cases small : failure.val = efiBufferTooSmall
      · rw [if_pos (.inl small)]
        apply exact.setDmiVar
        intro stored
        rw [writtenData_ne_nil]
        exact inStep.written notAppended ⟨.inr (.inr ⟨missing, failure, sets, small⟩), stored⟩
      · rw [if_neg (not_or.mpr ⟨small, notSuccess⟩)]
        exact exact
  · have notAppended : ¬ Appends failures nvram handed := fun appends => missing appends.1
    simp only [missing, if_false]
    by_cases found : getDmiVar failures nvram (nameOf handed) = efiBufferTooSmall ∨
        getDmiVar failures nvram (nameOf handed) = efiSuccess
    · rw [if_pos found]
      apply exact.setDmiVar
      intro stored
      rw [writtenData_ne_nil]
      exact inStep.written notAppended ⟨or_assoc.mp (.inl found.symm), stored⟩
    · rw [if_neg found]
      exact exact

/-- The first loop comes to an end unless the array is full. -/
theorem findEntry_ends {array : DmiArray} {name : DmiVar} {rounds : Nat} {index : UInt8}
    (room : array.count.toNat < 255) (first : index ≠ 0) (started : 0 < rounds)
    (enough : array.count.toNat + 2 ≤ rounds + index.toNat) :
    ∃ found, findEntry array name rounds index = .ok found ∧ found ≠ 0 := by
  induction rounds generalizing index with
  | zero => omega
  | succ rounds inductionHypothesis =>
    rw [findEntry]
    by_cases inside : index ≤ array.count
    · have below := UInt8.le_iff_toNat_le.mp inside
      have next : (index + 1).toNat = index.toNat + 1 := by
        rw [UInt8.toNat_add]
        exact Nat.mod_eq_of_lt (by simpa using by omega)
      have nextFirst : index + 1 ≠ 0 := by
        intro zero
        rw [zero] at next
        cases next
      rw [if_pos inside]
      simp only
      split_ifs
      · exact ⟨index, rfl, first⟩
      · exact inductionHypothesis nextFirst (by omega) (by omega)
    · rw [if_neg inside]
      exact ⟨index, rfl, first⟩

/-- It leaves the array of the list as well. -/
theorem dmiArray_setDmiVar {name : DmiVar} {data : List UInt8} :
    (setDmiVar failures name data nvram).2.dmiArray = nvram.dmiArray := by
  rw [setDmiVar]
  cases failures.setVar with
  | some failure => rfl
  | none =>
    simp only
    split_ifs
    · rfl
    · rfl

/-- A step lemma: a value is deleted. -/
theorem deleteValue_exact (exact : nvram.Exact)
    (inStep : getDmiVar failures nvram (nameOf handed) = efiNotFound ∨
      DeletesInStep failures nvram handed) :
    ∃ next, deleteValue failures (nameOf handed) nvram = .ok next ∧ next.Exact := by
  rw [deleteValue]
  by_cases missing : getDmiVar failures nvram (nameOf handed) = efiNotFound
  · rw [if_pos missing]
    exact ⟨nvram, rfl, exact⟩
  rw [if_neg missing]
  have both := inStep.resolve_left missing
  have one : (1 : UInt8).toNat = 1 := rfl
  simp only [getDmiArray, dmiArray_setDmiVar]
  cases sets : failures.setArray with
  | none =>
    obtain ⟨reads, present, deleted⟩ := both.both sets
    have member := (exact.lists _).mpr present
    cases stored : nvram.dmiArray with
    | none =>
      rw [Nvram.listed, stored] at member
      cases member
    | some array =>
      have listed : nvram.listed = array.listed := by rw [Nvram.listed, stored]
      have room := both.room reads
      rw [listed, listed_length] at room
      obtain ⟨index, shifted, found, ran, erased⟩ :=
        deletes (listed ▸ exact.distinct) (listed ▸ exact.flags) room (listed ▸ member)
      simp only [reads, found, ran, setDmiArray, sets, bind, Except.bind]
      exact ⟨_, rfl, exact.erase (listed ▸ erased) deleted⟩
  | some failure =>
    have kept := both.neither (by simp [sets])
    have result : (setDmiVar failures (nameOf handed) [] nvram).2.Exact := by
      apply exact.setDmiVar
      intro deletes
      obtain fails | absent := kept
      · exact absurd deletes fails
      · simp [absent]
    have ends (array : DmiArray) (room : array.count.toNat < 255) :
        ∃ index shifted, findEntry array (nameOf handed) 256 1 = .ok index ∧
          shiftEntries 256 index array = .ok shifted := by
      obtain ⟨index, found, first⟩ :=
        @findEntry_ends array (nameOf handed) 256 1 room (by decide) (by omega) (by omega)
      obtain ⟨shifted, ran, _⟩ :=
        @shiftEntries_spec array index 256 first room (by omega) (by omega)
      exact ⟨index, shifted, found, ran⟩
    cases reads : failures.getArray with
    | some other =>
      obtain ⟨index, shifted, found, ran⟩ := ends noEntries (by decide)
      simp only [found, ran, setDmiArray, sets, bind, Except.bind]
      exact ⟨_, rfl, result⟩
    | none =>
      have room := both.room reads
      cases stored : nvram.dmiArray with
      | none =>
        obtain ⟨index, shifted, found, ran⟩ := ends noEntries (by decide)
        simp only [found, ran, setDmiArray, sets, bind, Except.bind]
        exact ⟨_, rfl, result⟩
      | some array =>
        rw [Nvram.listed, stored] at room
        simp only [listed_length] at room
        obtain ⟨index, shifted, found, ran⟩ := ends array room
        simp only [found, ran, setDmiArray, sets, bind, Except.bind]
        exact ⟨_, rfl, result⟩

/-- A step lemma: a call of `UpdateToNVRAM`. -/
theorem updateToNvram_exact (exact : nvram.Exact) (inStep : InStep failures nvram handed) :
    ∃ next, updateToNvram failures handed nvram = .ok next ∧ next.Exact := by
  rw [InStep] at inStep
  rw [updateToNvram]
  split_ifs at inStep ⊢
  · exact deleteValue_exact exact inStep
  · exact ⟨_, rfl, storeValue_exact exact inStep⟩

end Stores

section Runs

/-- Every call meets the condition in the state it is made in. -/
def AllInStep : List Call → Nvram → Prop
  | [], _ => True
  | call :: calls, nvram => InStep call.failures nvram call.handed ∧
      ∀ next, updateToNvram call.failures call.handed nvram = .ok next → AllInStep calls next

/-- A run lemma: the list is in step after every call, and no index is out of range. -/
theorem runCalls_exact {calls before after : List Call} {nvram : Nvram} (exact : nvram.Exact)
    (inStep : AllInStep calls nvram) (parts : calls = before ++ after) :
    ∃ next, runCalls before nvram = .ok next ∧ next.Exact := by
  induction before generalizing calls nvram with
  | nil => exact ⟨nvram, rfl, exact⟩
  | cons call before inductionHypothesis =>
    subst parts
    obtain ⟨here, later⟩ := inStep
    obtain ⟨next, ran, kept⟩ := updateToNvram_exact exact here
    rw [runCalls, ran]
    exact inductionHypothesis kept (later next ran) rfl

/-- From no values on, the list names every value once after each of the calls, and no call reaches
beyond an array, if each call is in step with the values that it finds. Each of the four services
that a call uses may fail in its own way. -/
theorem list_stays_exact (calls : List Call) (inStep : AllInStep calls Nvram.empty) :
    ∀ before after, calls = before ++ after →
      ∃ nvram, runCalls before Nvram.empty = .ok nvram ∧ nvram.listed.Nodup ∧
        (∀ name, name ∈ nvram.listed ↔ nvram.dmiVar name ≠ none) ∧
        ∀ name ∈ nvram.listed, name.flags = 0 := by
  intro before after parts
  obtain ⟨nvram, ran, exact⟩ := runCalls_exact empty_exact inStep parts
  exact ⟨nvram, ran, exact.distinct, exact.lists, exact.flags⟩

/-- A new value that is deleted again. -/
def storeAndDelete : List Call :=
  [⟨⟨1, 2, 4, [0x41], 0⟩, Failures.none⟩, ⟨⟨1, 2, 4, [0xFE], 0⟩, Failures.none⟩]

/-- The two calls of the example go in step. -/
theorem storeAndDelete_inStep : AllInStep storeAndDelete Nvram.empty := by
  constructor
  · constructor
    · intro _
      exact ⟨.inl rfl, by decide, rfl, rfl, by decide⟩
    · intro notAppended
      exact absurd ⟨rfl, rfl⟩ notAppended
  · intro next ran
    cases ran
    constructor
    · apply Or.inr
      constructor
      · intro _
        decide
      · intro _
        exact ⟨rfl, by decide, rfl⟩
      · intro fails
        exact absurd rfl fails
    · intro last _
      trivial

/-- Behind a value that was stored and deleted the list is exact. -/
theorem list_stays_exact_deleted :
    ∃ nvram, runCalls storeAndDelete Nvram.empty = .ok nvram ∧ nvram.listed.Nodup ∧
      (∀ name, name ∈ nvram.listed ↔ nvram.dmiVar name ≠ none) ∧
      ∀ name ∈ nvram.listed, name.flags = 0 :=
  list_stays_exact storeAndDelete storeAndDelete_inStep storeAndDelete [] rfl

/-- A string of 255 characters: its size with the end is zero in one byte. -/
def longString : Handed := ⟨1, 2, 4, List.replicate 255 0x41, 0⟩

/-- The value is listed and was not written. -/
theorem longString_listed :
    (match runCalls [⟨longString, Failures.none⟩] Nvram.empty with
      | .ok nvram => decide (nameOf longString ∈ nvram.listed) &&
          (nvram.dmiVar (nameOf longString)).isNone
      | .error _ => false) = true := by
  decide +kernel

/-- The list can name a value that there is not. -/
theorem not_always_exact :
    ¬ ∀ calls : List Call, ∃ nvram, runCalls calls Nvram.empty = .ok nvram ∧
        nvram.listed.Nodup ∧ ∀ name, name ∈ nvram.listed ↔ nvram.dmiVar name ≠ none := by
  intro always
  obtain ⟨nvram, ran, _, exact⟩ := always [⟨longString, Failures.none⟩]
  have listed := longString_listed
  rw [ran] at listed
  simp only [Bool.and_eq_true, decide_eq_true_eq, Option.isNone_iff_eq_none] at listed
  exact (exact _).mp listed.1 listed.2

end Runs

end SmcPkg.Dmi
