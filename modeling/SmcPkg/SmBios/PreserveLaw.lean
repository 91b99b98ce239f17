import SmcPkg.SmBios.Preserve
import SmcPkg.InBand.SmbiosLaw
import SmcPkg.InBand.DmiNvramLaw

/-!
# The preserved values come back

Each read that fails takes one from the count that bounds the loop, so the loop stops
before the end of the list as soon as a read other than the last one fails. The count then
says more records than there are, and the restoring loop reads on in the filled up bytes
behind them. The image comes back exactly if that never happens, or the entries it loses
are what these bytes look like.
-/

namespace SmcPkg.Preserve

open Bytes Card RaidCmd RomHole Smbios Dmi

section Reads

/-- An entry and what the read of its value gives. -/
abbrev Read := DmiVar × Option (List UInt8)

variable {reads : List Read}

/-- The reads of a list, in order. -/
def readsOf (array : DmiArray) (read : UInt8 → DmiVar → Option (List UInt8)) : List Read :=
  array.listed.mapIdx (fun i entry => (entry, read (UInt8.ofNat i) entry))

/-- The values that can be read. -/
def readable (reads : List Read) : List Value :=
  reads.filterMap (fun read => read.2.map (fun data => (read.1, data)))

/-- The values that are saved while the bound of the loop is so far away. -/
def kept : List Read → Nat → List Value
  | [], _ => []
  | _ :: _, 0 => []
  | (entry, some data) :: reads, ahead + 1 => (entry, data) :: kept reads ahead
  | (_, none) :: reads, ahead + 1 => kept reads (ahead - 1)

/-- The reads that the loop does not come to. -/
def lost : List Read → Nat → List Read
  | [], _ => []
  | read :: reads, 0 => read :: reads
  | (_, some _) :: reads, ahead + 1 => lost reads ahead
  | (_, none) :: reads, ahead + 1 => lost reads (ahead - 1)

/-- How many reads before an index fail. -/
def failuresBefore (reads : List Read) (i : Nat) : Nat :=
  (reads.take i).countP (fun read => read.2.isNone)

/-- What can be read is kept or lost. -/
theorem readable_parts (ahead : Nat) :
    readable reads = kept reads ahead ++ readable (lost reads ahead) := by
  induction reads generalizing ahead with
  | nil => rfl
  | cons read reads inductionHypothesis =>
    obtain ⟨entry, data⟩ := read
    cases ahead with
    | zero => rfl
    | succ ahead =>
      cases data with
      | none => exact inductionHypothesis (ahead - 1)
      | some data =>
        rw [kept, lost, List.cons_append, ← inductionHypothesis ahead]
        rfl

/-- The loop does not come to an entry if its index and the failures before it reach the
bound. -/
theorem forall_lost {property : Read → Prop} (ahead : Nat) :
    (∀ read ∈ lost reads ahead, property read) ↔
      ∀ i, (inside : i < reads.length) → ahead ≤ i + failuresBefore reads i →
        property reads[i] := by
  induction reads generalizing ahead with
  | nil =>
    constructor
    · intro _ i inside
      exact absurd inside (Nat.not_lt_zero i)
    · intro _ read member
      cases member
  | cons read reads inductionHypothesis =>
    obtain ⟨entry, data⟩ := read
    cases ahead with
    | zero =>
      constructor
      · intro all i inside _
        exact all _ (List.getElem_mem inside)
      · intro all read member
        obtain ⟨i, inside, same⟩ := List.getElem_of_mem member
        rw [← same]
        exact all i inside (Nat.zero_le _)
    | succ ahead =>
      have step (ahead' : Nat) (same : lost ((entry, data) :: reads) (ahead + 1) = lost reads ahead')
          (counts : ∀ i, ahead + 1 ≤ i + 1 + failuresBefore ((entry, data) :: reads) (i + 1) ↔
            ahead' ≤ i + failuresBefore reads i) :
          (∀ read ∈ lost ((entry, data) :: reads) (ahead + 1), property read) ↔
            ∀ i, (inside : i < ((entry, data) :: reads).length) →
              ahead + 1 ≤ i + failuresBefore ((entry, data) :: reads) i →
              property ((entry, data) :: reads)[i] := by
        rw [same, inductionHypothesis]
        constructor
        · intro all i inside far
          cases i with
          | zero =>
            have none : failuresBefore ((entry, data) :: reads) 0 = 0 := rfl
            omega
          | succ i => exact all i (Nat.lt_of_succ_lt_succ inside) ((counts i).mp far)
        · intro all i inside far
          exact all (i + 1) (Nat.succ_lt_succ inside) ((counts i).mpr far)
      cases data with
      | none =>
        apply step (ahead - 1) rfl
        intro i
        have more : failuresBefore ((entry, none) :: reads) (i + 1) = failuresBefore reads i + 1 :=
          List.countP_cons_of_pos rfl
        omega
      | some data =>
        apply step ahead rfl
        intro i
        have same : failuresBefore ((entry, some data) :: reads) (i + 1) = failuresBefore reads i :=
          List.countP_cons_of_neg (by simp)
        omega

end Reads

section Save

variable {array : DmiArray} {read : UInt8 → DmiVar → Option (List UInt8)}

/-- The records of values. -/
def recordsOf (values : List Value) : List UInt8 := values.flatMap recordBytes

/-- Every entry is read once. -/
theorem readsOf_length : (readsOf array read).length = array.count.toNat := by
  rw [readsOf, List.length_mapIdx, listed_length]

/-- What the loop of the save branch comes to next. -/
theorem readsOf_drop {index : UInt8} (inside : index < array.count) :
    (readsOf array read).drop index.toNat =
      (array.entry (index + 1), read index (array.entry (index + 1))) ::
        (readsOf array read).drop (index.toNat + 1) := by
  have below := UInt8.lt_iff_toNat_lt.mp inside
  have bound := index_lt array.count
  have capacity : dmiArrayCount = 256 := rfl
  have place : index.toNat < (readsOf array read).length := by rw [readsOf_length]; exact below
  have listed : index.toNat < array.listed.length := by rw [listed_length]; exact below
  have next : (index + 1).toNat = index.toNat + 1 := by
    rw [UInt8.toNat_add]
    exact Nat.mod_eq_of_lt (by simpa using by omega)
  have entry : array.entry (index + 1) = array.listed[index.toNat] := by
    rw [listed_getElem listed (by omega), DmiArray.entry]
    congr 1
    exact Fin.ext next
  rw [List.drop_eq_getElem_cons place]
  congr 1
  simp only [readsOf, List.getElem_mapIdx]
  rw [entry, UInt8.ofNat_toNat]

/-- A run lemma: what the loop leaves of the count, and what it saves. -/
theorem saveLoop_spec {rounds : Nat} {index count : UInt8} {records : List UInt8}
    (below : count ≤ array.count) (room : array.count.toNat < 255) (started : 0 < rounds)
    (enough : count.toNat + 1 ≤ rounds + index.toNat)
    (fits : tableSize + records.length + (recordsOf (kept ((readsOf array read).drop index.toNat)
      (count.toNat - index.toNat))).length ≤ regionSize) :
    ∃ left, saveLoop array read rounds index count records =
        .ok (left, records ++ recordsOf (kept ((readsOf array read).drop index.toNat)
          (count.toNat - index.toNat))) ∧
      left.toNat + ((readsOf array read).drop index.toNat).length = count.toNat +
        (kept ((readsOf array read).drop index.toNat) (count.toNat - index.toNat)).length +
        (lost ((readsOf array read).drop index.toNat) (count.toNat - index.toNat)).length := by
  induction rounds generalizing index count records with
  | zero => omega
  | succ rounds inductionHypothesis =>
    rw [saveLoop]
    by_cases inside : index < count
    · have here := UInt8.lt_iff_toNat_lt.mp inside
      have counted := UInt8.le_iff_toNat_le.mp below
      have next : (index + 1).toNat = index.toNat + 1 := by
        rw [UInt8.toNat_add]
        exact Nat.mod_eq_of_lt (by simpa using by omega)
      have ahead : count.toNat - index.toNat = count.toNat - (index.toNat + 1) + 1 := by omega
      have dropped := @readsOf_drop array read index
        (UInt8.lt_iff_toNat_lt.mpr (Nat.lt_of_lt_of_le here counted))
      rw [dropped, ahead] at fits
      rw [if_pos inside, dropped, ahead]
      simp only
      cases data : read index (array.entry (index + 1)) with
      | none =>
        have one : (1 : UInt8) ≤ count := by
          rw [UInt8.le_iff_toNat_le]
          change 1 ≤ count.toNat
          omega
        have fewer : (count - 1).toNat = count.toNat - 1 := UInt8.toNat_sub_of_le _ _ one
        have nearer : count.toNat - (index.toNat + 1) - 1 =
            (count - 1).toNat - (index + 1).toNat := by
          rw [fewer, next]
          omega
        rw [data, kept, nearer, ← next] at fits
        rw [kept, lost, nearer, ← next]
        obtain ⟨left, ran, counts⟩ := @inductionHypothesis (index + 1) (count - 1) records
          (UInt8.le_iff_toNat_le.mpr (by omega)) (by omega) (by omega) fits
        refine ⟨left, ran, ?_⟩
        rw [List.length_cons]
        omega
      | some bytes =>
        have nearer : count.toNat - (index.toNat + 1) = count.toNat - (index + 1).toNat := by
          rw [next]
        simp only
        rw [data, kept, nearer, ← next, recordsOf, List.flatMap_cons, List.length_append] at fits
        rw [kept, lost, nearer, ← next]
        have short : ¬ regionSize <
            tableSize + (records ++ recordBytes (array.entry (index + 1), bytes)).length := by
          rw [List.length_append]
          omega
        rw [if_neg short]
        obtain ⟨left, ran, counts⟩ := @inductionHypothesis (index + 1) count
          (records ++ recordBytes (array.entry (index + 1), bytes)) below (by omega) (by omega)
          (by rw [List.length_append, recordsOf]; omega)
        refine ⟨left, ?_, ?_⟩
        · rw [ran, recordsOf, recordsOf, List.flatMap_cons, List.append_assoc]
        · rw [List.length_cons, List.length_cons]
          omega
    · have reached := UInt8.le_iff_toNat_le.mp (UInt8.not_lt.mp inside)
      rw [if_neg inside, Nat.sub_eq_zero_of_le reached]
      refine ⟨count, ?_, ?_⟩
      · cases (readsOf array read).drop index.toNat with
        | nil => simp [kept, recordsOf]
        | cons first later => simp [kept, recordsOf]
      · cases (readsOf array read).drop index.toNat with
        | nil => rfl
        | cons first later => simp [kept, lost]

end Save

section Restore

variable {region : List UInt8} {array : DmiArray} {nvram : Nvram} {offset : Nat}

/-- A value is read at a place of the region. -/
structure Decodes (region : List UInt8) (offset : Nat) (value : Value) : Prop where
  entry : entryAt region offset = value.1
  size : (region.getD (offset + 5) 0).toNat = value.2.length
  data : bytesAt region (offset + 13) value.2.length = value.2
  filled : value.2 ≠ []
  inside : offset + 13 + value.2.length ≤ regionSize

/-- Values are read one after the other. -/
def DecodesAll (region : List UInt8) : Nat → List Value → Prop
  | _, [] => True
  | offset, value :: values => Decodes region offset value ∧
      DecodesAll region (offset + 13 + value.2.length) values

/-- The variables after values were written in their order. -/
def written (values : List Value) (nvram : Nvram) : Nvram :=
  values.foldl (fun nvram value => nvram.write value.1 value.2) nvram

/-- An entry on the list is replaced. -/
theorem listed_withEntry {index : UInt8} {entry : DmiVar} (inside : index < array.count) :
    (array.withEntry (index + 1) entry).listed = array.listed.set index.toNat entry := by
  have below := UInt8.lt_iff_toNat_lt.mp inside
  have bound := index_lt array.count
  have capacity : dmiArrayCount = 256 := rfl
  have next : (index + 1).toNat = index.toNat + 1 := by
    rw [UInt8.toNat_add]
    exact Nat.mod_eq_of_lt (by simpa using by omega)
  have behind : index + 1 ≠ 0 := by
    intro zero
    rw [zero] at next
    cases next
  apply listed_ext
  · rw [List.length_set, listed_length, count_withEntry behind]
  · intro place there belowArray
    rw [List.length_set] at there
    rw [get_withEntry, next, List.getElem_set]
    by_cases here : index.toNat = place
    · rw [if_pos (by simp only; omega), if_pos here]
    · rw [if_neg (by simp only; omega), if_neg here, listed_getElem there belowArray]

/-- A step lemma: a value that is read at a place is restored. -/
theorem restoreLoop_step {rounds : Nat} {index : UInt8} {value : Value}
    (inside : index < array.count) (decodes : Decodes region offset value) :
    restoreLoop RestoreFailures.none region (rounds + 1) index offset array nvram =
      restoreLoop RestoreFailures.none region rounds (index + 1) (offset + 13 + value.2.length)
        (array.withEntry (index + 1) value.1) (nvram.write value.1 value.2) := by
  have bounds := decodes.inside
  have fits : offset + 5 < regionSize ∧
      (value.2.length ≠ 0 → offset + 13 + value.2.length ≤ regionSize) := by
    constructor
    · omega
    · intro _
      exact bounds
  have sets : setDmiVar ⟨none, none, none, RestoreFailures.none.setVar index⟩ value.1 value.2
      nvram = (efiSuccess, nvram.write value.1 value.2) := by
    rw [setDmiVar]
    exact if_neg (fun both => decodes.filled both.1)
  rw [restoreLoop, if_pos inside]
  simp only [decodes.entry, decodes.size, decodes.data, sets]
  rw [if_pos fits, if_pos trivial]

/-- The index goes on in a byte. -/
theorem next_index {index : UInt8} {count : Nat} (below : index.toNat < count)
    (bound : count < 256) : (index + 1).toNat = index.toNat + 1 ∧ index + 1 ≠ 0 := by
  have next : (index + 1).toNat = index.toNat + 1 := by
    rw [UInt8.toNat_add]
    exact Nat.mod_eq_of_lt (by simpa using by omega)
  constructor
  · exact next
  · intro zero
    rw [zero] at next
    cases next

/-- A run lemma: values that are read at a place are restored. -/
theorem restoreLoop_decodes {values : List Value} {rounds : Nat} {index : UInt8}
    (counted : array.count.toNat = index.toNat + values.length) (room : array.count.toNat < 255)
    (enough : values.length < rounds) (decodes : DecodesAll region offset values) :
    ∃ restored, restoreLoop RestoreFailures.none region rounds index offset array nvram =
        .ok (restored, written values nvram) ∧
      restored.listed = array.listed.take index.toNat ++ values.map Prod.fst := by
  induction values generalizing rounds index offset array nvram with
  | nil =>
    obtain _ | rounds := rounds
    · exact absurd enough (Nat.not_lt_zero _)
    · have reached : ¬ index < array.count := by
        rw [UInt8.lt_iff_toNat_lt, counted]
        exact Nat.lt_irrefl _
      have whole : index.toNat = array.listed.length := by
        rw [listed_length, counted]
        rfl
      rw [restoreLoop, if_neg reached]
      refine ⟨array, rfl, ?_⟩
      rw [whole, List.take_length, List.map_nil, List.append_nil]
  | cons value values inductionHypothesis =>
    obtain _ | rounds := rounds
    · exact absurd enough (Nat.not_lt_zero _)
    · obtain ⟨here, later⟩ := decodes
      rw [List.length_cons] at counted enough
      have inside : index < array.count := by
        rw [UInt8.lt_iff_toNat_lt, counted]
        omega
      obtain ⟨next, behind⟩ := @next_index index array.count.toNat (by omega) (by omega)
      have sameCount : (array.withEntry (index + 1) value.1).count = array.count :=
        count_withEntry behind
      obtain ⟨restored, ran, listed⟩ := @inductionHypothesis
        (array.withEntry (index + 1) value.1) (nvram.write value.1 value.2)
        (offset + 13 + value.2.length) rounds (index + 1) (by rw [sameCount, next]; omega)
        (sameCount ▸ room) (by omega) later
      rw [restoreLoop_step inside here]
      refine ⟨restored, ran, ?_⟩
      have placed : index.toNat < array.listed.length := by
        rw [listed_length, counted]
        omega
      rw [listed, listed_withEntry inside, next, List.take_add_one, List.getElem?_set_self placed,
        List.take_set_of_le (Nat.le_refl _), List.map_cons, List.append_assoc]
      rfl

/-- The data that the bytes behind the records are read as. -/
def junkData : List UInt8 := List.replicate 255 0xFF

/-- What the bytes behind the records are read as. -/
def junk : Value := (⟨0xFF, 0xFFFF, 0xFF, 0xFF⟩, junkData)

/-- An erased record has a value of 255 bytes. -/
theorem junk_length : junk.2.length = 255 := by
  rw [junk, junkData, List.length_replicate]

/-- It is not empty. -/
theorem junk_ne_nil : junk.2 ≠ [] := by
  apply List.length_pos_iff_ne_nil.mp
  rw [junk_length]
  exact Nat.succ_pos _

/-- A record lies in the region as it was written. -/
theorem record_stored {value : Value} {rest : List UInt8}
    (placed : region.drop offset = recordBytes value ++ rest) :
    entryAt region offset = value.1 ∧
      Stored (memoryOf region (fun _ => 0)) (offset + 5) (le64 value.2.length) ∧
      bytesAt region (offset + 13) value.2.length = value.2 := by
  have stored := @stored_of_drop _ _ _ _ (fun _ => 0) placed
  rw [recordBytes, entryBytes, List.cons_append, stored_cons, List.append_assoc, stored_append]
    at stored
  obtain ⟨type, handle, behind⟩ := stored
  have handlePlace : offset + 1 + (le16 value.1.handle.toNat).length = offset + 3 := rfl
  rw [handlePlace, List.cons_append, stored_cons, List.cons_append, stored_cons, List.nil_append,
    stored_append] at behind
  obtain ⟨offsetByte, flags, sizeBytes, -⟩ := behind
  constructor
  · rw [memoryOf_getD] at type offsetByte flags
    rw [entryAt, type, word16_stored handle, offsetByte, flags]
    simp
  constructor
  · exact sizeBytes
  · apply @bytesAt_of_drop _ rest
    rw [← List.drop_drop, placed, recordBytes, List.append_assoc, List.append_assoc,
      ← List.append_assoc]
    exact List.drop_left' rfl

/-- A record has a header of thirteen bytes and its value. -/
theorem recordBytes_length (value : Value) :
    (recordBytes value).length = 13 + value.2.length := by
  simp [recordBytes, entryBytes, le64, le32, le16]
  omega

/-- A record is inside the region. -/
theorem record_inside {value : Value} {rest : List UInt8} (size : region.length = regionSize)
    (placed : region.drop offset = recordBytes value ++ rest) :
    offset + 13 + value.2.length ≤ regionSize := by
  have long := congrArg List.length placed
  rw [List.length_append, recordBytes_length, List.length_drop, size] at long
  omega

/-- A record is read as it was written, if the size of its data fits one byte. -/
theorem decodes_record {value : Value} {rest : List UInt8} (size : region.length = regionSize)
    (placed : region.drop offset = recordBytes value ++ rest) (short : value.2.length ≤ 255)
    (filled : value.2 ≠ []) : Decodes region offset value := by
  obtain ⟨entry, sizeBytes, data⟩ := record_stored placed
  constructor
  · exact entry
  · have lowest : memoryOf region (fun _ => 0) (offset + 5) = UInt8.ofNat value.2.length :=
      sizeBytes 0 (by simp [le64, le32])
    rw [memoryOf_getD] at lowest
    rw [lowest, UInt8.toNat_ofNat']
    omega
  · exact data
  · exact filled
  · exact record_inside size placed

/-- A byte behind the records. -/
theorem getD_fill {fill i : Nat} (filled : region.drop offset = List.replicate fill 0xFF)
    (inside : i < fill) : region.getD (offset + i) 0 = 0xFF := by
  rw [List.getD_eq_getElem?_getD, ← List.getElem?_drop, filled,
    List.getElem?_replicate_of_lt inside, Option.getD_some]

/-- The bytes behind the records look like a value. -/
theorem decodes_junk {fill : Nat} (size : region.length = regionSize)
    (filled : region.drop offset = List.replicate fill 0xFF) (fits : offset + 268 ≤ regionSize) :
    Decodes region offset junk := by
  have long : regionSize - offset = fill := by
    have both := congrArg List.length filled
    rwa [List.length_drop, size, List.length_replicate] at both
  have byte (i : Nat) (inside : i < 268) : region.getD (offset + i) 0 = 0xFF :=
    getD_fill filled (by omega)
  constructor
  · have type := byte 0 (by omega)
    rw [Nat.add_zero] at type
    rw [entryAt, word16, memoryOf_getD, memoryOf_getD, Nat.add_assoc, type, byte 1 (by omega),
      byte 2 (by omega), byte 3 (by omega), byte 4 (by omega)]
    rfl
  · rw [byte 5 (by omega), junk_length]
    rfl
  · rw [junk_length, bytesAt]
    apply List.ext_getElem
    · rw [List.length_map, List.length_range, junk_length]
    · intro i inside _
      rw [List.length_map, List.length_range] at inside
      rw [List.getElem_map, List.getElem_range, Nat.add_assoc, byte (13 + i) (by omega)]
      simp only [junk, junkData, List.getElem_replicate]
  · exact junk_ne_nil
  · rw [junk_length]
    exact fits

/-- Behind a place of erased bytes they go on. -/
theorem filled_drop {fill : Nat} (filled : region.drop offset = List.replicate fill 0xFF)
    (more : Nat) : region.drop (offset + more) = List.replicate (fill - more) 0xFF := by
  rw [← List.drop_drop, filled, List.drop_replicate]

/-- If the loop comes to its end behind the records, the bytes there were read as values. -/
theorem decodesAll_junk {fill more rounds : Nat} {index : UInt8} {result : DmiArray × Nvram}
    (size : region.length = regionSize) (filled : region.drop offset = List.replicate fill 0xFF)
    (counted : array.count.toNat = index.toNat + more) (room : array.count.toNat < 255)
    (ran : restoreLoop RestoreFailures.none region rounds index offset array nvram = .ok result) :
    DecodesAll region offset (List.replicate more junk) := by
  induction more generalizing offset fill rounds index array nvram with
  | zero => trivial
  | succ more inductionHypothesis =>
    obtain _ | rounds := rounds
    · cases ran
    · have inside : index < array.count := by
        rw [UInt8.lt_iff_toNat_lt, counted]
        omega
      obtain ⟨next, behind⟩ := @next_index index array.count.toNat (by omega) (by omega)
      have long : regionSize - offset = fill := by
        have both := congrArg List.length filled
        rwa [List.length_drop, size, List.length_replicate] at both
      have fits : offset + 268 ≤ regionSize := by
        by_contra short
        rw [restoreLoop, if_pos inside] at ran
        simp only at ran
        by_cases readable : offset + 5 < regionSize ∧ ((region.getD (offset + 5) 0).toNat ≠ 0 →
            offset + 13 + (region.getD (offset + 5) 0).toNat ≤ regionSize)
        · have sizeByte : region.getD (offset + 5) 0 = 0xFF := getD_fill filled (by omega)
          rw [sizeByte] at readable
          exact short (readable.2 (by decide))
        · rw [if_neg readable] at ran
          cases ran
      have here := decodes_junk size filled fits
      have sameCount : (array.withEntry (index + 1) junk.1).count = array.count :=
        count_withEntry behind
      rw [restoreLoop_step inside here] at ran
      have later := filled_drop filled (13 + junk.2.length)
      rw [← Nat.add_assoc] at later
      rw [List.replicate_succ]
      exact ⟨here, inductionHypothesis later
        (by rw [sameCount, next]; omega) (sameCount ▸ room) ran⟩

/-- If the loop comes to its end, it has read the records and what is behind them. -/
theorem decodesAll_of_ok {values : List Value} {fill more rounds : Nat} {index : UInt8}
    {result : DmiArray × Nvram} (size : region.length = regionSize)
    (placed : region.drop offset = recordsOf values ++ List.replicate fill 0xFF)
    (short : ∀ value ∈ values, value.2.length ≤ 255) (filled : ∀ value ∈ values, value.2 ≠ [])
    (counted : array.count.toNat = index.toNat + (values.length + more))
    (room : array.count.toNat < 255)
    (ran : restoreLoop RestoreFailures.none region rounds index offset array nvram = .ok result) :
    DecodesAll region offset (values ++ List.replicate more junk) := by
  induction values generalizing offset rounds index array nvram with
  | nil =>
    rw [List.length_nil, Nat.zero_add] at counted
    exact decodesAll_junk size placed counted room ran
  | cons value values inductionHypothesis =>
    obtain _ | rounds := rounds
    · cases ran
    · rw [List.forall_mem_cons] at short filled
      rw [List.length_cons] at counted
      rw [recordsOf, List.flatMap_cons, List.append_assoc] at placed
      have inside : index < array.count := by
        rw [UInt8.lt_iff_toNat_lt, counted]
        omega
      obtain ⟨next, behind⟩ := @next_index index array.count.toNat (by omega) (by omega)
      have here := decodes_record size placed short.1 filled.1
      have sameCount : (array.withEntry (index + 1) value.1).count = array.count :=
        count_withEntry behind
      have later : region.drop (offset + 13 + value.2.length) =
          recordsOf values ++ List.replicate fill 0xFF := by
        rw [Nat.add_assoc, ← List.drop_drop, placed]
        exact List.drop_left' (recordBytes_length value)
      rw [restoreLoop_step inside here] at ran
      exact ⟨here, inductionHypothesis later short.2 filled.2
        (by rw [sameCount, next]; omega) (sameCount ▸ room) ran⟩

/-- Erased bytes are decoded as erased records, as long as they last. -/
theorem decodesAll_fill {fill more : Nat} (size : region.length = regionSize)
    (filled : region.drop offset = List.replicate fill 0xFF) (fits : 268 * more ≤ fill) :
    DecodesAll region offset (List.replicate more junk) := by
  induction more generalizing offset fill with
  | zero => trivial
  | succ more inductionHypothesis =>
    have long : regionSize - offset = fill := by
      have both := congrArg List.length filled
      rwa [List.length_drop, size, List.length_replicate] at both
    have later := filled_drop filled (13 + junk.2.length)
    rw [← Nat.add_assoc] at later
    have enough : 268 * more ≤ fill - (13 + junk.2.length) := by
      rw [junk_length]
      omega
    rw [List.replicate_succ, DecodesAll]
    constructor
    · exact decodes_junk size filled (by omega)
    · exact inductionHypothesis later enough

/-- Records, and places behind them that look like values, are read. -/
theorem decodesAll_records {values : List Value} {fill more : Nat}
    (size : region.length = regionSize)
    (placed : region.drop offset = recordsOf values ++ List.replicate fill 0xFF)
    (short : ∀ value ∈ values, value.2.length ≤ 255) (filled : ∀ value ∈ values, value.2 ≠ [])
    (fits : 268 * more ≤ fill) :
    DecodesAll region offset (values ++ List.replicate more junk) := by
  induction values generalizing offset with
  | nil => exact decodesAll_fill size placed fits
  | cons value values inductionHypothesis =>
    rw [List.forall_mem_cons] at short filled
    rw [recordsOf, List.flatMap_cons, List.append_assoc] at placed
    have later : region.drop (offset + 13 + value.2.length) =
        recordsOf values ++ List.replicate fill 0xFF := by
      rw [Nat.add_assoc, ← List.drop_drop, placed]
      exact List.drop_left' (recordBytes_length value)
    exact ⟨decodes_record size placed short.1 filled.1,
      inductionHypothesis later short.2 filled.2⟩

end Restore

end SmcPkg.Preserve
