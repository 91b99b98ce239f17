import SmcPkg.InBand.Smbios

/-!
# The walk visits the records that were combined

A value with a width has that many bytes, and a string has no zero, so the width or the
zero behind the value leads the walk from each record to the next one. The two switches
agree. The walk over an image that was combined therefore comes to its records and ends
where the image ends, and against the same image it hands nothing on.
-/

namespace SmcPkg.Smbios

open Bytes Card RaidCmd Download RomHole

section Lists

variable {data rest bytes : List UInt8} {place count : Nat}

/-- Bytes of a list lie in its memory. -/
theorem stored_of_drop {tail : Memory} (placed : data.drop place = bytes ++ rest) :
    Stored (memoryOf data tail) place bytes := by
  intro i inside
  have found : data[place + i]? = some bytes[i] := by
    rw [← List.getElem?_drop, placed, List.getElem?_append_left inside,
      List.getElem?_eq_getElem inside]
  rw [memoryOf, found, Option.getD_some]

/-- Bytes in memory, with zeros behind them. -/
theorem memoryOf_getD (i : Nat) : memoryOf data (fun _ => 0) i = data.getD i 0 := by
  rw [memoryOf, List.getD_eq_getElem?_getD]

/-- Bytes are read where they lie. -/
theorem bytesAt_of_drop (placed : data.drop place = bytes ++ rest) :
    bytesAt data place bytes.length = bytes := by
  have read := bytesOf_stored (@stored_of_drop _ _ _ _ (fun _ => 0) placed)
  conv_rhs => rw [← read]
  apply List.map_congr_left
  intro i _
  exact (memoryOf_getD (place + i)).symm

/-- A string is read up to its zero. -/
theorem cString_of_drop (placed : data.drop place = bytes ++ 0 :: rest) (free : 0 ∉ bytes) :
    cString (data.drop place) = bytes := by
  rw [placed, cString, List.takeWhile_append_of_pos]
  · simp
  · intro c member
    apply decide_eq_true
    intro zero
    exact free (zero ▸ member)

/-- A string has no zero. -/
theorem cString_free (text : List UInt8) : 0 ∉ cString text := by
  intro member
  have kept := List.mem_takeWhile_imp member
  simp at kept

end Lists

section Records

variable {record : Record} {data previous rest : List UInt8} {place : Nat}

/-- A value with a width has that many bytes, and a string has no zero. -/
def Record.WellFormed (record : Record) : Prop :=
  (updateWidth record.type record.offset ≠ 0 →
    record.value.length = updateWidth record.type record.offset) ∧
  (updateWidth record.type record.offset = 0 → 0 ∉ record.value)

/-- A record has a header of four bytes, its value and a byte behind it. -/
theorem Record.length_bytes (record : Record) :
    record.bytes.length = 4 + record.value.length + 1 := by
  simp [Record.bytes, le16]
  omega

/-- The value of a well-formed record is read back. -/
theorem valueAt_record (wellFormed : record.WellFormed)
    (placed : data.drop place = record.bytes ++ rest) :
    valueAt data place (updateWidth record.type record.offset) = record.value := by
  have behind : data.drop (place + 4) = record.value ++ 0 :: rest := by
    rw [← List.drop_drop, placed]
    simp [Record.bytes, le16]
  rw [valueAt]
  by_cases width : updateWidth record.type record.offset = 0
  · rw [if_neg (not_not_intro width)]
    exact cString_of_drop behind (wellFormed.2 width)
  · rw [if_pos width, ← wellFormed.1 width]
    exact bytesAt_of_drop behind

/-- A well-formed record is read back. -/
theorem recordAt_record (wellFormed : record.WellFormed)
    (placed : data.drop place = record.bytes ++ rest) : recordAt data place = record := by
  have stored := @stored_of_drop _ _ _ _ (fun _ => 0) placed
  rw [Record.bytes, stored_cons, stored_append, stored_cons] at stored
  obtain ⟨type, handle, offset, -⟩ := stored
  rw [memoryOf_getD] at type offset
  have offsetPlace : place + 1 + (le16 record.handle.toNat).length = place + 3 := rfl
  rw [offsetPlace] at offset
  rw [recordAt, type, offset, word16_stored handle, valueAt_record wellFormed placed]
  simp

end Records

section Walk

variable {current previous rest : List UInt8} {records : List Record}

/-- What the walk does with the records of an image, from a place of the previous one on. -/
def compare (previous : List UInt8) :
    List Record → Nat → Checked (List (Record × Option Handed) × Nat)
  | [], place => .ok ([], place)
  | record :: records, place => do
    let width := updateWidth record.type record.offset
    let old := valueAt previous place width
    let handed ← updateOffsetData width record old
    let (later, ending) ← compare previous records (place + 4 + old.length + 1)
    .ok ((record, handed) :: later, ending)

/-- Records lie one behind the other. -/
theorem payload_cons (record : Record) (records : List Record) :
    payload (record :: records) = record.bytes ++ payload records := List.flatMap_cons

/-- The walk visits the records that lie behind each other, and stops behind the last one. -/
theorem updateLoop_records {last rounds place placePrevious : Nat}
    (wellFormed : ∀ record ∈ records, record.WellFormed)
    (placed : current.drop place = payload records ++ rest)
    (ends : last = place + (payload records).length) (enough : (payload records).length < rounds) :
    updateLoop current previous last rounds ⟨place, placePrevious⟩ =
      (compare previous records placePrevious).map
        (fun walked => (walked.1, ⟨last, walked.2⟩)) := by
  induction records generalizing rounds place placePrevious with
  | nil =>
    obtain rfl : last = place := ends
    cases rounds with
    | zero => omega
    | succ rounds =>
      rw [updateLoop, if_neg (Nat.lt_irrefl _)]
      rfl
  | cons record records inductionHypothesis =>
    rw [List.forall_mem_cons] at wellFormed
    rw [payload_cons, List.append_assoc] at placed
    rw [payload_cons, List.length_append, record.length_bytes] at ends enough
    cases rounds with
    | zero => omega
    | succ rounds =>
      have behind : current.drop (place + 4 + record.value.length + 1) =
          payload records ++ rest := by
        have size := record.length_bytes
        rw [Nat.add_assoc, Nat.add_assoc, ← Nat.add_assoc 4, ← size, ← List.drop_drop, placed,
          List.drop_left]
      have read := recordAt_record wellFormed.1 placed
      rw [updateLoop, if_pos (by simp only; omega)]
      simp only [read, compare]
      cases updateOffsetData (updateWidth record.type record.offset) record
          (valueAt previous placePrevious (updateWidth record.type record.offset)) with
      | error fault => rfl
      | ok handed =>
        have later := @inductionHypothesis rounds (place + 4 + record.value.length + 1)
          (placePrevious + 4 +
            (valueAt previous placePrevious
              (updateWidth record.type record.offset)).length + 1)
          wellFormed.2 behind (by omega) (by omega)
        simp only [bind, Except.bind, later]
        cases compare previous records _ with
        | error fault => rfl
        | ok walked => rfl

/-- Against the same records nothing is handed on. -/
theorem compare_same {place : Nat} (wellFormed : ∀ record ∈ records, record.WellFormed)
    (placed : previous.drop place = payload records ++ rest) :
    compare previous records place =
      .ok (records.map (fun record => (record, none)), place + (payload records).length) := by
  induction records generalizing place with
  | nil => rfl
  | cons record records inductionHypothesis =>
    rw [List.forall_mem_cons] at wellFormed
    rw [payload_cons, List.append_assoc] at placed
    have size := record.length_bytes
    have behind : previous.drop (place + 4 + record.value.length + 1) =
        payload records ++ rest := by
      rw [Nat.add_assoc, Nat.add_assoc, ← Nat.add_assoc 4, ← size, ← List.drop_drop, placed,
        List.drop_left]
    rw [compare, valueAt_record wellFormed.1 placed]
    simp only [updateOffsetData, if_true, bind, Except.bind,
      inductionHypothesis wellFormed.2 behind]
    rw [payload_cons, List.length_append, size, List.map_cons]
    congr 2
    omega

end Walk

section Combined

variable {type offset : UInt8} {struct : Structure} {record : Record}

/-- The switch of the walk is the one of `CombineSmbios`. -/
theorem updateWidth_eq : updateWidth = combineWidth := rfl

/-- A string that `GetOffsetString` copies has no zero. -/
theorem offsetString_free (tempBuff : List UInt8) (size number place : Nat) :
    0 ∉ offsetString tempBuff size number place := by
  induction number generalizing place with
  | zero => simp [offsetString]
  | succ number inductionHypothesis =>
    cases number with
    | zero =>
      rw [offsetString]
      split_ifs
      · exact cString_free _
      · simp
      · simp
    | succ number =>
      rw [offsetString]
      split_ifs
      · exact inductionHypothesis _
      · simp

/-- Every record that is combined is well formed. -/
theorem combineOffset_wellFormed (member : record ∈ combineOffset type struct offset) :
    record.WellFormed := by
  rw [combineOffset] at member
  split_ifs at member with width number
  · obtain rfl := List.mem_singleton.mp member
    constructor
    · intro _
      simp [getOffsetVaries, updateWidth_eq]
    · intro string
      exact absurd string width
  · obtain rfl := List.mem_singleton.mp member
    constructor
    · intro sized
      exact absurd sized width
    · intro _
      exact offsetString_free _ _ _ _
  · cases member

/-- Every record that is combined is well formed, whatever the firmware reads. -/
theorem combineTypes_wellFormed {read : UInt8 → UInt8 → Status × Structure} {types : List UInt8}
    {records : List Record} (combined : combineTypes read types = some records) :
    ∀ record ∈ records, record.WellFormed := by
  induction types generalizing records with
  | nil =>
    obtain rfl : [] = records := Option.some.inj combined
    simp
  | cons type types inductionHypothesis =>
    rw [combineTypes] at combined
    obtain ⟨structures, -, combined⟩ := Option.bind_eq_some_iff.mp combined
    obtain ⟨later, combinedLater, same⟩ := Option.bind_eq_some_iff.mp combined
    obtain rfl : structures.flatMap (combineStructure type) ++ later = records :=
      Option.some.inj same
    intro record member
    rcases List.mem_append.mp member with here | behind
    · obtain ⟨struct, -, inside⟩ := List.mem_flatMap.mp here
      obtain ⟨offset, -, found⟩ := List.mem_flatMap.mp inside
      exact combineOffset_wellFormed found
    · exact inductionHypothesis combinedLater record behind

end Combined

section Image

variable {version : UInt16} {source : UInt8} {records : List Record} {tail : List UInt8}

/-- An image with bytes behind it. -/
def imageWith (version : UInt16) (source : UInt8) (records : List Record) (tail : List UInt8) :
    List UInt8 :=
  imageOf version source records ++ tail

/-- The header of the image has its size. -/
theorem smbHeader_length (size : Nat) (checksum : UInt8) :
    (smbHeader version size checksum source).length = headerSize := rfl

/-- Behind the header there are the records. -/
theorem imageWith_drop : (imageWith version source records tail).drop headerSize =
    payload records ++ tail := by
  rw [imageWith, imageOf, List.append_assoc]
  exact List.drop_left' (smbHeader_length _ _)

/-- The header has the size of the records. -/
theorem imageWith_fileSize (short : (payload records).length < 2 ^ 32) :
    fileSize (imageWith version source records tail) = (payload records).length := by
  have placed : (imageWith version source records tail).drop 6 =
      le32 (payload records).length ++
        ([sumOf (payload records), source, 0, 0, 0, 0, 0, 0] ++ (payload records ++ tail)) := by
    simp [imageWith, imageOf, smbHeader, smbSignature, le16]
  rw [fileSize, headerFileSize, word32_stored (stored_of_drop placed), UInt32.toNat_ofNat']
  exact Nat.mod_eq_of_lt short

/-- The image passes the test of its checksum. -/
theorem imageWith_checksum (short : (payload records).length < 2 ^ 32) :
    checksumAccepted (imageWith version source records tail) = true := by
  rw [checksumAccepted, imageWith_fileSize short, bytesAt_of_drop imageWith_drop]
  apply decide_eq_true
  rfl

/-- The walk over an image of well-formed records visits them. -/
theorem walk_image {previous : List UInt8} (short : (payload records).length < 2 ^ 32)
    (wellFormed : ∀ record ∈ records, record.WellFormed) :
    walk (imageWith version source records tail) previous =
      (compare previous records headerSize).map (fun walked =>
        (walked.1, ⟨headerSize + (payload records).length, walked.2⟩)) := by
  rw [walk, imageWith_fileSize short, Nat.add_comm (payload records).length headerSize]
  exact updateLoop_records wellFormed imageWith_drop rfl (Nat.lt_succ_self _)

/-- The update accepts the image and compares all of its records. -/
theorem inBandUpdateSmbios_image {previous : List UInt8} (sent : source ≠ 0)
    (short : (payload records).length < 2 ^ 32)
    (wellFormed : ∀ record ∈ records, record.WellFormed) :
    inBandUpdateSmbios (imageWith version source records tail) previous =
      (compare previous records headerSize).map (fun walked => some walked.1) := by
  have signature : signatureAccepted (imageWith version source records tail) = true := rfl
  have fromUser : sourceAccepted (imageWith version source records tail) = true :=
    decide_eq_true sent
  rw [inBandUpdateSmbios, signature, fromUser, imageWith_checksum short, walk_image short wellFormed]
  cases compare previous records headerSize with
  | error fault => rfl
  | ok walked => rfl

/-- What `CombineSmbios` writes is an image of well-formed records. -/
theorem combineSmbios_image {read : UInt8 → UInt8 → Status × Structure} {image : List UInt8}
    (combined : combineSmbios version read = .ok (some image)) :
    ∃ records tail, combineTypes read typeNumbers = some records ∧
      image = imageWith version 0 records tail ∧ (payload records).length < 2 ^ 32 ∧
      ∀ record ∈ records, record.WellFormed := by
  rw [combineSmbios] at combined
  cases types : combineTypes read typeNumbers with
  | none =>
    rw [types] at combined
    cases combined
  | some records =>
    rw [types] at combined
    simp only at combined
    split_ifs at combined with nothing fits
    · cases combined
    · obtain rfl := Option.some.inj (Except.ok.inj combined)
      have limit : regionSize = 0x1000 := rfl
      rw [imageOf, List.length_append] at fits
      exact ⟨records, _, rfl, rfl, by omega, combineTypes_wellFormed types⟩

/-- The image with the mark that a user has sent it. -/
def sentBack (image : List UInt8) (source : UInt8) : List UInt8 := image.set 11 source

/-- The walk over an image that was combined visits its records and ends where it ends, its checksum
is accepted, and sent back unchanged it hands nothing on. The structures are whatever
`SmbiosReadStrucByType` gives, and the source that is set in the image that comes back is any
number but zero. -/
theorem combined_image_walks {read : UInt8 → UInt8 → Status × Structure} {image : List UInt8}
    (combined : combineSmbios version read = .ok (some image)) :
    ∃ records, combineTypes read typeNumbers = some records ∧
      checksumAccepted image = true ∧
      walk image image = .ok (records.map (fun record => (record, none)),
        ⟨headerSize + fileSize image, headerSize + fileSize image⟩) ∧
      ∀ source ≠ 0, checksumAccepted (sentBack image source) = true ∧
        inBandUpdateSmbios (sentBack image source) image =
          .ok (some (records.map (fun record => (record, none)))) := by
  obtain ⟨records, tail, types, rfl, short, wellFormed⟩ := combineSmbios_image combined
  have same := compare_same wellFormed (@imageWith_drop version 0 records tail)
  refine ⟨records, types, imageWith_checksum short, ?_, ?_⟩
  · rw [walk_image short wellFormed, same, imageWith_fileSize short]
    rfl
  · intro source sent
    have marked : sentBack (imageWith version 0 records tail) source =
        imageWith version source records tail := rfl
    rw [marked]
    constructor
    · exact imageWith_checksum short
    · rw [inBandUpdateSmbios_image sent short wellFormed, same]
      rfl

end Image

section Samples

/-- System information with a manufacturer, a product name and a UUID. -/
def systemInformation : Structure where
  tempBuff := [1, 27, 1, 0, 1, 2, 0, 0] ++ List.replicate 16 7 ++ [6, 0, 0] ++
    [0x53, 0x4D, 0x43, 0, 0x58, 0x31, 0x31, 0, 0]
  tempBuffSize := 36

/-- A system with one structure. -/
def readSystem (type index : UInt8) : Status × Structure :=
  if type = 1 ∧ index = 1 then (efiSuccess, systemInformation)
  else (efiNotFound, systemInformation)

/-- The records of the system of the example. -/
theorem readSystem_records : combineTypes readSystem typeNumbers =
    some [⟨1, 1, 4, [0x53, 0x4D, 0x43]⟩, ⟨1, 1, 5, [0x58, 0x31, 0x31]⟩,
      ⟨1, 1, 8, List.replicate 16 7⟩] := by decide

/-- The image of this system is walked over to its end. -/
theorem combined_image_walks_system : ∃ image, combineSmbios 1 readSystem = .ok (some image) ∧
    ∃ records, combineTypes readSystem typeNumbers = some records ∧
      checksumAccepted image = true ∧
      walk image image = .ok (records.map (fun record => (record, none)),
        ⟨headerSize + fileSize image, headerSize + fileSize image⟩) ∧
      ∀ source ≠ 0, checksumAccepted (sentBack image source) = true ∧
        inBandUpdateSmbios (sentBack image source) image =
          .ok (some (records.map (fun record => (record, none)))) := by
  have combined : combineSmbios 1 readSystem = .ok (some (regionOf (imageOf 1 0
      [⟨1, 1, 4, [0x53, 0x4D, 0x43]⟩, ⟨1, 1, 5, [0x58, 0x31, 0x31]⟩,
        ⟨1, 1, 8, List.replicate 16 7⟩]))) := by
    rw [combineSmbios, readSystem_records]
    rfl
  exact ⟨_, combined, combined_image_walks combined⟩

end Samples

end SmcPkg.Smbios
