import SmcPkg.InBand.SmbiosLaw
import SmcPkg.InBand.DmiNvramLaw

/-!
# What a user image changes

A record of the user image is compared with the value at the place that the walk has
reached in the previous image. The key of the previous record is not read, so the values
compared are those of one key as long as both images have the same keys in one order.
-/

namespace SmcPkg.Smbios

open Bytes Card RaidCmd BiosCfg Download Dmi

section Compared

variable {current previous rest : List UInt8} {record : Record} {records olds : List Record}

/-- What a value is the value of. -/
def Record.key (record : Record) : UInt8 × UInt16 × UInt8 :=
  (record.type, record.handle, record.offset)

/-- The width of a value of a record. -/
def Record.width (record : Record) : Nat := updateWidth record.type record.offset

/-- The values that the records are compared with, from a place of the previous image on. -/
def oldValues (previous : List UInt8) : List Record → Nat → List (List UInt8)
  | [], _ => []
  | record :: records, place =>
    let old := valueAt previous place record.width
    old :: oldValues previous records (place + 4 + old.length + 1)

/-- A record as it is handed on. -/
def Record.handed (record : Record) : Handed :=
  ⟨record.type, record.handle, handedOffset record.type record.offset record.width,
    record.value, UInt8.ofNat record.width⟩

/-- What is handed on for a record when it is compared with a value. -/
def handedFor (record : Record) (old : List UInt8) : Option Handed :=
  if old = record.value then none else some record.handed

/-- A string is short enough for the one byte that its size with the end has. -/
def Record.Short (record : Record) : Prop := record.width = 0 → record.value.length < 255

/-- A value that is short enough is handed on as a whole, or not at all. -/
theorem updateOffsetData_short (short : record.Short) (old : List UInt8) :
    updateOffsetData record.width record old = .ok (handedFor record old) := by
  rw [updateOffsetData, handedFor]
  by_cases same : old = record.value
  · rw [if_pos same, if_pos same]
  · have fits : ¬ (record.width = 0 ∧ dataCapacity ≤ record.value.length) := by
      rintro ⟨string, long⟩
      have bound := short string
      rw [dataCapacity] at long
      omega
    rw [if_neg same, if_neg same, if_neg fits]
    rfl

/-- The comparison walks over all records, with the values of the previous image beside them. -/
theorem compare_short {place : Nat} (short : ∀ record ∈ records, record.Short) :
    ∃ ending, compare previous records place =
      .ok (List.zipWith (fun record old => (record, handedFor record old)) records
        (oldValues previous records place), ending) := by
  induction records generalizing place with
  | nil => exact ⟨place, rfl⟩
  | cons record records inductionHypothesis =>
    rw [List.forall_mem_cons] at short
    have here := updateOffsetData_short short.1 (valueAt previous place record.width)
    rw [Record.width] at here
    obtain ⟨ending, later⟩ := @inductionHypothesis
      (place + 4 + (valueAt previous place record.width).length + 1) short.2
    rw [Record.width] at later
    refine ⟨ending, ?_⟩
    rw [compare]
    simp only [here, later, bind, Except.bind]
    rfl

/-- In an image with the same keys in the same order, a record is compared with the value of
its own key. -/
theorem oldValues_same_keys {place : Nat} (wellFormed : ∀ old ∈ olds, old.WellFormed)
    (placed : previous.drop place = payload olds ++ rest)
    (keys : olds.map Record.key = records.map Record.key) :
    oldValues previous records place = olds.map Record.value := by
  induction records generalizing olds place with
  | nil =>
    rw [List.map_nil, List.map_eq_nil_iff] at keys
    rw [keys]
    rfl
  | cons record records inductionHypothesis =>
    cases olds with
    | nil => cases keys
    | cons old olds =>
      rw [List.forall_mem_cons] at wellFormed
      rw [List.map_cons, List.map_cons] at keys
      obtain ⟨key, laterKeys⟩ := List.cons.inj keys
      have width : record.width = old.width := by
        simp only [Record.key, Prod.mk.injEq] at key
        rw [Record.width, Record.width, key.1, key.2.2]
      rw [payload_cons, List.append_assoc] at placed
      have value := valueAt_record wellFormed.1 placed
      have behind : previous.drop (place + 4 + old.value.length + 1) = payload olds ++ rest := by
        have step : place + 4 + old.value.length + 1 = place + old.bytes.length := by
          rw [Record.length_bytes]
          omega
        rw [step, ← List.drop_drop, placed, List.drop_left]
      rw [oldValues, width, Record.width, value, inductionHypothesis wellFormed.2 behind laterKeys]
      rfl

end Compared

section Changes

variable {record : Record} {records : List Record} {olds : List (List UInt8)}

/-- The records whose value is not the one they are compared with. -/
def changes : List Record → List (List UInt8) → List Record
  | record :: records, old :: olds =>
    if old = record.value then changes records olds else record :: changes records olds
  | _, _ => []

/-- The calls of `UpdateToNVRAM` for what is handed on, while no variable service fails. -/
def callsFor (walked : List (Record × Option Handed)) : List Call :=
  (walked.filterMap Prod.snd).map (fun handed => ⟨handed, Failures.none⟩)

/-- The calls are those for the records that have changed. -/
theorem callsFor_changes :
    callsFor (List.zipWith (fun record old => (record, handedFor record old)) records olds) =
      (changes records olds).map (fun record => ⟨record.handed, Failures.none⟩) := by
  induction records generalizing olds with
  | nil => rfl
  | cons record records inductionHypothesis =>
    cases olds with
    | nil => rfl
    | cons old olds =>
      have later := @inductionHypothesis olds
      rw [callsFor] at later
      rw [callsFor, List.zipWith_cons_cons, changes]
      by_cases same : old = record.value
      · rw [List.filterMap_cons_none (by rw [handedFor, if_pos same]), if_pos same, later]
      · rw [@List.filterMap_cons_some _ _ _ _ _ record.handed (by rw [handedFor, if_neg same]),
          if_neg same, List.map_cons, List.map_cons, later]

/-- A record that has changed is one of the image. -/
theorem mem_of_mem_changes (member : record ∈ changes records olds) : record ∈ records := by
  induction records generalizing olds with
  | nil =>
    rw [changes] at member
    · cases member
    · intro _ _ _ _ impossible
      cases impossible
  | cons first records inductionHypothesis =>
    cases olds with
    | nil => cases member
    | cons old olds =>
      rw [changes] at member
      split_ifs at member with same
      · exact List.mem_cons_of_mem _ (inductionHypothesis member)
      · obtain here | later := List.mem_cons.mp member
        · rw [here]
          exact List.mem_cons_self
        · exact List.mem_cons_of_mem _ (inductionHypothesis later)

end Changes

section Stored

variable {record other : Record} {records before after : List Record} {nvram next final : Nvram}

/-- The variable of a record. -/
def Record.name (record : Record) : DmiVar := nameOf record.handed

/-- The value as it is stored: a string with its end. -/
def Record.complete (record : Record) : List UInt8 :=
  if record.width = 0 then record.value ++ [0] else record.value

/-- What the variable of a record holds when the record has been handed on. -/
def Record.stored (record : Record) : Option (List UInt8) :=
  if asksDefault record.handed then none else some record.complete

/-- The call for a record while no variable service fails. -/
def Record.call (record : Record) : Call := ⟨record.handed, Failures.none⟩

/-- No value has a width of more than sixteen bytes. -/
theorem updateWidth_le (type offset : UInt8) : updateWidth type offset ≤ 16 := by
  rw [updateWidth]
  split_ifs
  all_goals decide

/-- A byte of the value, by its place. -/
theorem getD_value (i : Nat) (inside : i < record.value.length) :
    record.value.getD (0 + i) 0 = record.value[i] := by
  rw [Nat.zero_add, List.getD_eq_getElem?_getD, List.getElem?_eq_getElem inside,
    Option.getD_some]

/-- A string is written with its end. -/
theorem writtenSize_string (wellFormed : record.WellFormed) (short : record.Short)
    (string : record.width = 0) :
    (writtenSize record.handed).toNat = record.value.length + 1 := by
  have noSize : record.handed.dataSize = 0 := by
    change UInt8.ofNat record.width = 0
    rw [string]
    rfl
  have whole : cString record.value = record.value := by
    apply List.takeWhile_eq_self_iff.mpr
    intro c member
    apply decide_eq_true
    intro zero
    exact wellFormed.2 string (zero ▸ member)
  have room := short string
  rw [writtenSize, if_pos noSize]
  change (UInt8.ofNat (cString record.value).length + 1).toNat = record.value.length + 1
  rw [whole, UInt8.toNat_add, UInt8.toNat_ofNat', UInt8.toNat_one]
  omega

/-- A value with a width is written as wide as it is. -/
theorem writtenSize_width (sized : record.width ≠ 0) :
    (writtenSize record.handed).toNat = record.width := by
  have bound := updateWidth_le record.type record.offset
  have size : record.handed.dataSize.toNat = record.width := by
    change (UInt8.ofNat record.width).toNat = record.width
    rw [UInt8.toNat_ofNat', Record.width]
    omega
  have hasSize : record.handed.dataSize ≠ 0 := by
    intro zero
    rw [zero] at size
    exact sized size.symm
  rw [writtenSize, if_neg hasSize, size]

/-- What is written for a record is its complete value. -/
theorem writtenData_handed (wellFormed : record.WellFormed) (short : record.Short) :
    writtenData record.handed = record.complete := by
  rw [writtenData, Record.complete]
  change bytesAt record.value 0 _ = _
  by_cases string : record.width = 0
  · rw [if_pos string, writtenSize_string wellFormed short string, bytesAt, List.range_succ,
      List.map_append]
    congr 1
    · apply List.ext_getElem
      · simp
      · intro i _ inside
        rw [List.getElem_map, List.getElem_range, getD_value i inside]
    · simp
  · rw [if_neg string, writtenSize_width string, bytesAt]
    apply List.ext_getElem
    · rw [List.length_map, List.length_range, wellFormed.1 string, Record.width]
    · intro i _ inside
      rw [List.getElem_map, List.getElem_range, getD_value i inside]

/-- A complete value is not empty: a string has its zero at least. -/
theorem complete_ne_nil (wellFormed : record.WellFormed) : record.complete ≠ [] := by
  rw [Record.complete]
  split_ifs with string
  · simp
  · intro nothing
    have width := wellFormed.1 string
    rw [nothing] at width
    exact string width.symm

/-- What the status of the read says while no variable service fails. -/
theorem getDmiVar_reliable (nvram : Nvram) (name : DmiVar) :
    getDmiVar Failures.none nvram name = efiNotFound ∧ nvram.dmiVar name = none ∨
      getDmiVar Failures.none nvram name ≠ efiNotFound ∧
        (getDmiVar Failures.none nvram name = efiBufferTooSmall ∨
          getDmiVar Failures.none nvram name = efiSuccess) ∧ nvram.dmiVar name ≠ none := by
  rw [getDmiVar]
  simp only [Failures.none]
  split
  · rename_i data stored
    apply Or.inr
    rw [stored]
    split_ifs
    · exact ⟨by decide, .inr rfl, by simp⟩
    · exact ⟨by decide, .inl rfl, by simp⟩
  · rename_i stored
    exact .inl ⟨rfl, stored⟩

/-- A value that is written while no variable service fails. -/
theorem setDmiVar_reliable {name : DmiVar} {data : List UInt8}
    (there : data = [] → nvram.dmiVar name ≠ none) :
    (setDmiVar Failures.none name data nvram).2.dmiVar =
      Function.update nvram.dmiVar name (if data = [] then none else some data) := by
  rw [setDmiVar]
  simp only [Failures.none]
  rw [if_neg (fun absent => there absent.1 absent.2)]
  rfl

/-- A value that is stored while no variable service fails. -/
theorem storeValue_reliable {name : DmiVar} {data : List UInt8} (filled : data ≠ []) :
    (storeValue Failures.none name data nvram).dmiVar =
      Function.update nvram.dmiVar name (some data) := by
  have written (state : Nvram) : (setDmiVar Failures.none name data state).2.dmiVar =
      Function.update state.dmiVar name (some data) := by
    rw [setDmiVar_reliable (fun nothing => absurd nothing filled), if_neg filled]
  rw [storeValue]
  simp only
  obtain ⟨missing, _⟩ | ⟨found, status, _⟩ := getDmiVar_reliable nvram name
  · rw [if_pos missing]
    change (setDmiVar Failures.none name data _).2.dmiVar = _
    exact written _
  · rw [if_neg found]
    simp only
    rw [if_pos status]
    exact written nvram

/-- A value that is deleted while no variable service fails. -/
theorem deleteValue_reliable {name : DmiVar}
    (deleted : deleteValue Failures.none name nvram = .ok next) :
    next.dmiVar = Function.update nvram.dmiVar name none := by
  rw [deleteValue] at deleted
  obtain ⟨missing, absent⟩ | ⟨found, _, there⟩ := getDmiVar_reliable nvram name
  · rw [if_pos missing] at deleted
    cases deleted
    rw [Function.eq_update_self_iff]
    exact absent
  · rw [if_neg found] at deleted
    simp only at deleted
    obtain ⟨index, _, deleted⟩ := Checked.bind_ok deleted
    obtain ⟨array, _, deleted⟩ := Checked.bind_ok deleted
    cases deleted
    exact setDmiVar_reliable (fun _ => there)

/-- A step lemma: what a call leaves for a record. -/
theorem updateToNvram_stored (wellFormed : record.WellFormed) (short : record.Short)
    (ran : updateToNvram Failures.none record.handed nvram = .ok next) :
    next.dmiVar = Function.update nvram.dmiVar record.name record.stored := by
  rw [updateToNvram] at ran
  rw [Record.stored]
  split_ifs at ran ⊢
  · exact deleteValue_reliable ran
  · cases ran
    rw [writtenData_handed wellFormed short]
    exact storeValue_reliable (complete_ne_nil wellFormed)

/-- A run lemma: later calls for other names leave a value. -/
theorem runCalls_keeps {name : DmiVar}
    (sound : ∀ later ∈ after, later.WellFormed ∧ later.Short)
    (others : ∀ later ∈ after, later.name ≠ name)
    (ran : runCalls (after.map Record.call) nvram = .ok final) :
    final.dmiVar name = nvram.dmiVar name := by
  induction after generalizing nvram with
  | nil =>
    cases ran
    rfl
  | cons later after inductionHypothesis =>
    rw [List.forall_mem_cons] at sound others
    rw [List.map_cons, runCalls] at ran
    obtain ⟨next, called, ran⟩ := Checked.bind_ok ran
    rw [inductionHypothesis sound.2 others.2 ran,
      updateToNvram_stored sound.1.1 sound.1.2 called,
      Function.update_of_ne (Ne.symm others.1)]

/-- A run lemma: every variable holds what was handed on last for it. -/
theorem runCalls_stored (sound : ∀ record ∈ records, record.WellFormed ∧ record.Short)
    (parts : records = before ++ record :: after) (last : ∀ later ∈ after, later.name ≠ record.name)
    (ran : runCalls (records.map Record.call) nvram = .ok final) :
    final.dmiVar record.name = record.stored := by
  induction before generalizing records nvram with
  | nil =>
    subst parts
    rw [List.nil_append, List.forall_mem_cons] at sound
    rw [List.nil_append, List.map_cons, runCalls] at ran
    obtain ⟨next, called, ran⟩ := Checked.bind_ok ran
    rw [runCalls_keeps sound.2 last ran, updateToNvram_stored sound.1.1 sound.1.2 called,
      Function.update_self]
  | cons first before inductionHypothesis =>
    subst parts
    rw [List.cons_append, List.forall_mem_cons] at sound
    rw [List.cons_append, List.map_cons, runCalls] at ran
    obtain ⟨next, called, ran⟩ := Checked.bind_ok ran
    exact inductionHypothesis sound.2 rfl ran

/-- The calls come to their end if none asks for a default. -/
theorem runCalls_ends (values : ∀ record ∈ records, asksDefault record.handed = false) :
    ∃ final, runCalls (records.map Record.call) nvram = .ok final := by
  induction records generalizing nvram with
  | nil => exact ⟨nvram, rfl⟩
  | cons record records inductionHypothesis =>
    rw [List.forall_mem_cons] at values
    have called : updateToNvram Failures.none record.handed nvram =
        .ok (storeValue Failures.none record.name (writtenData record.handed) nvram) := by
      rw [updateToNvram, values.1]
      rfl
    rw [List.map_cons, runCalls]
    change ∃ final, (updateToNvram Failures.none record.handed nvram >>= _) = .ok final
    rw [called]
    exact inductionHypothesis values.2

end Stored

section Handed

variable {current : List UInt8} {records : List Record}

/-- An image of records that `InBandUpdateSmbios` accepts. -/
structure Accepted (current : List UInt8) (records : List Record) : Prop where
  signature : signatureAccepted current = true
  source : sourceAccepted current = true
  checksum : checksumAccepted current = true
  size : fileSize current = (payload records).length
  laid : ∃ rest, current.drop headerSize = payload records ++ rest
  wellFormed : ∀ record ∈ records, record.WellFormed

/-- What is handed on of an accepted image. -/
theorem inBandUpdateSmbios_accepted (accepted : Accepted current records)
    (short : ∀ record ∈ records, record.Short) (previous : List UInt8) :
    inBandUpdateSmbios current previous =
      .ok (some (List.zipWith (fun record old => (record, handedFor record old)) records
        (oldValues previous records headerSize))) := by
  obtain ⟨rest, laid⟩ := accepted.laid
  obtain ⟨ending, compared⟩ := @compare_short previous records headerSize short
  have walked : walk current previous =
      (Smbios.compare previous records headerSize).map
        (fun walked => (walked.1, ⟨headerSize + (payload records).length, walked.2⟩)) := by
    rw [walk, accepted.size, Nat.add_comm (payload records).length headerSize]
    exact updateLoop_records accepted.wellFormed laid rfl (Nat.lt_succ_self _)
  rw [inBandUpdateSmbios, accepted.signature, accepted.source, accepted.checksum, walked, compared]
  rfl

/-- A record of an accepted image is handed on exactly if its value differs from the one at the
place that the walk has reached in the previous image, which is the value of its key if the
previous image has the same keys in the same order. The variable of a record that is handed
on, and not again later, then holds the complete value, or nothing if the value asks for the
default. -/
theorem image_hands_changes (accepted : Accepted current records)
    (short : ∀ record ∈ records, record.Short) (previous : List UInt8) :
    ∃ olds walked, inBandUpdateSmbios current previous = .ok (some walked) ∧
      olds = oldValues previous records headerSize ∧
      walked = List.zipWith (fun record old => (record, handedFor record old)) records olds ∧
      (∀ oldRecords rest, previous.drop headerSize = payload oldRecords ++ rest →
        (∀ old ∈ oldRecords, old.WellFormed) →
        oldRecords.map Record.key = records.map Record.key →
        olds = oldRecords.map Record.value) ∧
      ∀ nvram,
        ((∀ record ∈ changes records olds, asksDefault record.handed = false) →
          ∃ final, runCalls (callsFor walked) nvram = .ok final) ∧
        ∀ final, runCalls (callsFor walked) nvram = .ok final →
          ∀ before record after, changes records olds = before ++ record :: after →
            (∀ later ∈ after, later.name ≠ record.name) →
            final.dmiVar record.name = record.stored := by
  refine ⟨_, _, inBandUpdateSmbios_accepted accepted short previous, rfl, rfl, ?_, ?_⟩
  · intro oldRecords rest laid wellFormed keys
    exact oldValues_same_keys wellFormed laid keys
  · intro nvram
    rw [callsFor_changes]
    constructor
    · intro values
      exact runCalls_ends values
    · intro final ran before record after parts last
      apply runCalls_stored _ parts last ran
      intro changed member
      have inside := mem_of_mem_changes member
      exact ⟨accepted.wellFormed changed inside, short changed inside⟩

/-- A string and an identifier as a system has them. -/
def systemRecords : List Record := [⟨1, 1, 4, [0x41]⟩, ⟨1, 1, 5, [0x42]⟩]

/-- The image of a system. -/
def systemImage : List UInt8 := imageWith 1 0 systemRecords []

/-- The first string was edited. -/
def editedRecords : List Record := [⟨1, 1, 4, [0x43]⟩, ⟨1, 1, 5, [0x42]⟩]

/-- The edited image passes the tests. -/
theorem edited_accepted : Accepted (imageWith 1 1 editedRecords []) editedRecords := by
  constructor
  · decide
  · decide
  · decide
  · decide
  · exact ⟨[], by decide⟩
  · simp [editedRecords, Record.WellFormed, updateWidth]

/-- Of the edited image the first record is handed on. -/
theorem image_hands_changes_edited :
    ∃ olds walked, inBandUpdateSmbios (imageWith 1 1 editedRecords []) systemImage =
        .ok (some walked) ∧
      olds = oldValues systemImage editedRecords headerSize ∧
      walked = List.zipWith (fun record old => (record, handedFor record old)) editedRecords olds ∧
      (∀ oldRecords rest, systemImage.drop headerSize = payload oldRecords ++ rest →
        (∀ old ∈ oldRecords, old.WellFormed) →
        oldRecords.map Record.key = editedRecords.map Record.key →
        olds = oldRecords.map Record.value) ∧
      ∀ nvram,
        ((∀ record ∈ changes editedRecords olds, asksDefault record.handed = false) →
          ∃ final, runCalls (callsFor walked) nvram = .ok final) ∧
        ∀ final, runCalls (callsFor walked) nvram = .ok final →
          ∀ before record after, changes editedRecords olds = before ++ record :: after →
            (∀ later ∈ after, later.name ≠ record.name) →
            final.dmiVar record.name = record.stored := by
  apply image_hands_changes edited_accepted
  simp [editedRecords, Record.Short]

/-- The second string, sent back alone. -/
def loneRecords : List Record := [⟨1, 1, 5, [0x42]⟩]

/-- The image of one record passes the tests. -/
theorem lone_accepted : Accepted (imageWith 1 1 loneRecords []) loneRecords := by
  constructor
  · decide
  · decide
  · decide
  · decide
  · exact ⟨[], by decide⟩
  · simp [loneRecords, Record.WellFormed, updateWidth]

/-- A record is not compared with the value of its own key if a record before it is missing. -/
theorem not_compared_by_key :
    ¬ ∀ (current previous : List UInt8) (records olds : List Record) (rest : List UInt8)
        (walked : List (Record × Option Handed)),
        Accepted current records → previous.drop headerSize = payload olds ++ rest →
        (∀ old ∈ olds, old.WellFormed) →
        inBandUpdateSmbios current previous = .ok (some walked) →
        ∀ record handed, (record, handed) ∈ walked →
          (handed.isSome ↔ ∀ old ∈ olds, old.key = record.key → old.value ≠ record.value) := by
  intro always
  have differs := always _ systemImage loneRecords systemRecords []
    [(⟨1, 1, 5, [0x42]⟩, some ⟨1, 1, 5, [0x42], 0⟩)] lone_accepted (by decide)
    (by simp [systemRecords, Record.WellFormed, updateWidth]) (by decide) ⟨1, 1, 5, [0x42]⟩ _
    List.mem_cons_self
  exact differs.mp rfl ⟨1, 1, 5, [0x42]⟩ (by decide) rfl rfl

end Handed

end SmcPkg.Smbios
