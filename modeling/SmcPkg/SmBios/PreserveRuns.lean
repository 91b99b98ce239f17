import SmcPkg.SmBios.PreserveRoundTrip

/-!
# The copy over many boots

A boot writes the copy only if its checksum differs from the one that is stored, and not
at all if the list is empty. The copy is that of the values at every boot as long as the
checksum tells a new image from the one before, or there is nothing new.

The ROM hole is read and written without an error, and no restore is pending in the region that
the boots begin with: a pending one is the subject of the round trip. Values that cannot be read
are not assumed away, they are in the condition on a boot (`KeepsUp`).
-/

namespace SmcPkg.Preserve

open Bytes Card RaidCmd RomHole Smbios Dmi

section Decode

/-- The size of eight bytes in a record. -/
def sizeAt (region : List UInt8) (offset : Nat) : Nat :=
  (word64 (memoryOf region (fun _ => 0)) (offset + 5)).toNat

/-- What records say, from a place on. -/
def decodeRecords (region : List UInt8) : Nat → Nat → Option (List Value)
  | 0, _ => some []
  | count + 1, offset =>
    if offset + 13 + sizeAt region offset ≤ region.length then do
      let values ← decodeRecords region count (offset + 13 + sizeAt region offset)
      some ((entryAt region offset, bytesAt region (offset + 13) (sizeAt region offset)) :: values)
    else none

/-- What a copy says. Without a signature or a count it says nothing. -/
def decode (region : List UInt8) : Option (List Value) :=
  if region.take 4 = smcSignature ∧ tableCount region ≠ 0 ∧ tableCount region ≠ 0xFF then
    decodeRecords region (tableCount region).toNat tableSize
  else some []

/-- The values there are. -/
def valuesOf (nvram : Nvram) : List Value :=
  nvram.listed.filterMap (fun entry => (nvram.dmiVar entry).map (fun data => (entry, data)))

/-- The copy says what the values are. -/
def Fresh (region : List UInt8) (nvram : Nvram) : Prop := decode region = some (valuesOf nvram)

variable {region : List UInt8} {values : List Value} {count : UInt8}

/-- The size of a record is read back, where it fits four bytes. -/
theorem sizeAt_stored {offset size : Nat} (small : size < 2 ^ 32)
    (stored : Stored (memoryOf region (fun _ => 0)) (offset + 5) (le64 size)) :
    sizeAt region offset = size := by
  obtain ⟨low, high⟩ := stored_append.mp stored
  have none : size / 2 ^ 32 = 0 := Nat.div_eq_of_lt small
  have place : offset + 5 + (le32 size).length = offset + 5 + 4 := rfl
  rw [none, place] at high
  rw [sizeAt, word64, word32_stored low, word32_stored high]
  simp
  omega

/-- Records that lie behind each other say their values. -/
theorem decodeRecords_records {offset : Nat} {rest : List UInt8}
    (placed : region.drop offset = recordsOf values ++ rest)
    (small : ∀ value ∈ values, value.2.length ≤ bufferSize) :
    decodeRecords region values.length offset = some values := by
  induction values generalizing offset with
  | nil => rfl
  | cons value values inductionHypothesis =>
    rw [List.forall_mem_cons] at small
    rw [recordsOf, List.flatMap_cons, List.append_assoc] at placed
    obtain ⟨entry, sizeBytes, data⟩ := record_stored placed
    have size : sizeAt region offset = value.2.length := by
      apply sizeAt_stored _ sizeBytes
      exact Nat.lt_of_le_of_lt small.1 (by decide)
    have later : region.drop (offset + 13 + value.2.length) = recordsOf values ++ rest := by
      rw [Nat.add_assoc, ← List.drop_drop, placed]
      exact List.drop_left' (recordBytes_length value)
    have inside : offset + 13 + value.2.length ≤ region.length := by
      have long := congrArg List.length placed
      rw [List.length_append, recordBytes_length, List.length_drop] at long
      omega
    rw [List.length_cons, decodeRecords, size, if_pos inside,
      inductionHypothesis later small.2, entry, data]
    rfl

/-- An image says the values it was made of. -/
theorem decode_image (counted : count.toNat = values.length) (room : values.length < 255)
    (small : ∀ value ∈ values, value.2.length ≤ bufferSize) :
    decode (imageOf count (recordsOf values)) = some values := by
  have signature : (imageOf count (recordsOf values)).take 4 = smcSignature := rfl
  have tableCount : tableCount (imageOf count (recordsOf values)) = count := rfl
  have placed : (imageOf count (recordsOf values)).drop tableSize = recordsOf values ++
      List.replicate (regionSize - (tableSize + (recordsOf values).length)) 0xFF := rfl
  rw [decode, tableCount, counted]
  by_cases none : count = 0
  · rw [none] at counted
    have nothing : values = [] := List.length_eq_zero_iff.mp counted.symm
    rw [if_neg (fun usual => usual.2.1 none), nothing]
  · have notFull : count ≠ 0xFF := by
      intro full
      rw [full] at counted
      change 255 = _ at counted
      omega
    rw [if_pos ⟨signature, none, notFull⟩]
    exact decodeRecords_records placed small

/-- The check of an image is that of its records. -/
theorem tableCheck_image {records : List UInt8} :
    tableCheck (imageOf count records) = checkOf records := by
  have placed : (imageOf count records).drop 8 = le16 (checkOf records).toNat ++
      (List.replicate 6 0xFF ++ (records ++
        List.replicate (regionSize - (tableSize + records.length)) 0xFF)) := rfl
  rw [tableCheck, word16_stored (stored_of_drop placed), UInt16.ofNat_toNat]

end Decode

section Boots

variable {region next : List UInt8} {nvram : Nvram} {array : DmiArray}

/-- A boot, while the reads and the writes succeed. -/
def boot (nvram : Nvram) (region : List UInt8) : Checked (List UInt8) := do
  let (_, region) ← smcEdmiInit nvram.dmiArray (readVar nvram (fun _ => false))
    RestoreFailures.none region nvram
  .ok region

/-- Boots one after the other, each with the values there are then. -/
def runBoots : List Nvram → List UInt8 → Checked (List UInt8)
  | [], region => .ok region
  | nvram :: boots, region => do
    let region ← boot nvram region
    runBoots boots region

/-- Every entry of a list has a value that can be read, but perhaps the last one, which then
has none. -/
def Readable (array : DmiArray) (nvram : Nvram) : Prop :=
  ∀ i, (inside : i < array.listed.length) →
    (∃ data, nvram.dmiVar array.listed[i] = some data ∧ data.length ≤ bufferSize) ∨
      i + 1 = array.listed.length ∧ nvram.dmiVar array.listed[i] = none

/-- What keeps the copy fresh over a boot: the image of the values fits the region and its
checksum is not the one that is stored, or the copy is that of the values already. -/
def KeepsUp (nvram : Nvram) (region : List UInt8) : Prop :=
  match nvram.dmiArray with
  | none => tableCheck region ≠ 0xFFFF ∨ Fresh region nvram
  | some array =>
    if array.count = 0 ∨ array.count = 0xFF then Fresh region nvram
    else Readable array nvram ∧
      tableSize + (recordsOf (valuesOf nvram)).length ≤ regionSize ∧
      (tableCheck region ≠ checkOf (recordsOf (valuesOf nvram)) ∨ Fresh region nvram)

/-- The reads that succeed, in order. -/
theorem reads_reliable : readsWith array nvram (fun _ => false) =
    array.listed.map (fun entry => (entry, readVar nvram (fun _ => false) 0 entry)) := by
  apply List.ext_getElem
  · rw [readsWith_length, List.length_map, listed_length]
  · intro i _ _
    simp only [readsWith, readsOf, List.getElem_mapIdx, List.getElem_map]
    rfl

/-- A value that is stored and small is read. -/
theorem readVar_some {entry : DmiVar} {data : List UInt8} (stored : nvram.dmiVar entry = some data)
    (small : data.length ≤ bufferSize) : readVar nvram (fun _ => false) 0 entry = some data := by
  rw [readVar, if_neg (by decide), stored]
  exact if_pos small

/-- A value that is not stored is not read. -/
theorem readVar_none {entry : DmiVar} (absent : nvram.dmiVar entry = none) :
    readVar nvram (fun _ => false) 0 entry = none := by
  rw [readVar, if_neg (by decide), absent]

/-- What can be read is what there is. -/
theorem readable_values (stored : nvram.dmiArray = some array) (all : Readable array nvram) :
    readable (readsWith array nvram (fun _ => false)) = valuesOf nvram := by
  have listed : nvram.listed = array.listed := by rw [Nvram.listed, stored]
  rw [readable, reads_reliable, List.filterMap_map, valuesOf, listed]
  apply List.filterMap_congr
  intro entry member
  obtain ⟨i, inside, rfl⟩ := List.getElem_of_mem member
  obtain ⟨data, there, small⟩ | ⟨_, absent⟩ := all i inside
  · simp only [Function.comp, readVar_some there small, there]
  · simp only [Function.comp, readVar_none absent, absent]

/-- The loop comes to every entry. -/
theorem lostOf_none (all : Readable array nvram) :
    lostOf (readsWith array nvram (fun _ => false)) = [] := by
  have length := @readsWith_length array nvram (fun _ => false)
  have never : ∀ read ∈ lostOf (readsWith array nvram (fun _ => false)), False := by
    apply (@forall_lost _ (fun _ => False) _).mpr
    intro i inside far
    have noFailure : failuresBefore (readsWith array nvram (fun _ => false)) i = 0 := by
      rw [failuresBefore, List.countP_eq_zero]
      intro read member
      obtain ⟨j, before, rfl⟩ := List.getElem_of_mem member
      rw [List.length_take] at before
      have placed : j < array.listed.length := by
        rw [listed_length]
        omega
      obtain ⟨data, there, small⟩ | ⟨last, _⟩ := all j placed
      · simp [reads_reliable, readVar_some there small]
      · rw [listed_length] at last
        omega
    omega
  exact List.eq_nil_iff_forall_not_mem.mpr never

/-- The values that can be read fit the buffer. -/
theorem readable_small : ∀ value ∈ readable (readsWith array nvram (fun _ => false)),
    value.2.length ≤ bufferSize := by
  intro value member
  rw [readable, reads_reliable, List.filterMap_map] at member
  obtain ⟨entry, _, found⟩ := List.mem_filterMap.mp member
  simp only [Function.comp, Option.map_eq_some_iff] at found
  obtain ⟨data, read, rfl⟩ := found
  rw [readVar, if_neg (by decide)] at read
  split at read
  · split_ifs at read with small
    cases read
    exact small
  · cases read

/-- The image of a list whose values can be read says them. -/
theorem saveImage_fresh (stored : nvram.dmiArray = some array)
    (usual : ¬ (array.count = 0 ∨ array.count = 0xFF)) (all : Readable array nvram)
    (fits : tableSize + (recordsOf (valuesOf nvram)).length ≤ regionSize) :
    ∃ count, saveImage (some array) (readVar nvram (fun _ => false)) =
        .ok (some (imageOf count (recordsOf (valuesOf nvram)))) ∧
      decode (imageOf count (recordsOf (valuesOf nvram))) = some (valuesOf nvram) := by
  have below := array.count.toNat_lt
  have listed : 1 ≤ array.count.toNat := by
    by_contra none
    apply usual
    apply Or.inl
    apply UInt8.toNat_inj.mp
    change array.count.toNat = 0
    omega
  have room : array.count.toNat < 255 := by
    by_contra full
    apply usual
    apply Or.inr
    apply UInt8.toNat_inj.mp
    change array.count.toNat = 255
    omega
  have values := readable_values stored all
  have none := lostOf_none all
  have keptAll : keptOf (readsWith array nvram (fun _ => false)) = valuesOf nvram := by
    have parts := readable_eq (readsWith array nvram (fun _ => false))
    rw [none, values] at parts
    exact (parts.trans (List.append_nil _)).symm
  obtain ⟨count, saved, counts⟩ := @saveImage_spec array nvram (fun _ => false) listed room
    (by rw [keptAll]; exact fits)
  rw [keptAll] at saved counts
  rw [none] at counts
  have atMost : (valuesOf nvram).length ≤ array.count.toNat := by
    rw [← values, ← @readsWith_length array nvram (fun _ => false)]
    exact List.length_filterMap_le _ _
  refine ⟨count, saved, decode_image counts (by omega) ?_⟩
  rw [← values]
  exact readable_small

/-- A step lemma: after a boot the copy is that of the values. -/
theorem boot_fresh (still : restorePending region = false) (keepsUp : KeepsUp nvram region) :
    ∃ next, boot nvram region = .ok next ∧ Fresh next nvram ∧ restorePending next = false := by
  have reduced : boot nvram region =
      save nvram.dmiArray (readVar nvram (fun _ => false)) region := by
    rw [boot, smcEdmiInit, still]
    cases save nvram.dmiArray (readVar nvram (fun _ => false)) region with
    | error fault => rfl
    | ok next => rfl
  rw [reduced, save]
  rw [KeepsUp] at keepsUp
  cases stored : nvram.dmiArray with
  | none =>
    rw [stored] at keepsUp
    have values : valuesOf nvram = [] := by
      rw [valuesOf, Nvram.listed, stored]
      rfl
    have fresh : Fresh noImage nvram := by
      rw [Fresh, values, decode]
      exact if_neg (fun usual => usual.2.2 rfl)
    have check : tableCheck noImage = 0xFFFF := rfl
    simp only [saveImage, bind, Except.bind]
    rw [check]
    by_cases differs : (0xFFFF : UInt16) = tableCheck region
    · rw [if_neg (not_not_intro differs)]
      exact ⟨region, rfl, keepsUp.resolve_left (fun other => other differs.symm), still⟩
    · rw [if_pos differs]
      exact ⟨noImage, rfl, fresh, rfl⟩
  | some array =>
    rw [stored] at keepsUp
    simp only at keepsUp
    by_cases usual : array.count = 0 ∨ array.count = 0xFF
    · rw [if_pos usual] at keepsUp
      simp only [saveImage, if_pos usual, bind, Except.bind]
      exact ⟨region, rfl, keepsUp, still⟩
    · rw [if_neg usual] at keepsUp
      obtain ⟨all, fits, tells⟩ := keepsUp
      obtain ⟨count, saved, fresh⟩ := saveImage_fresh stored usual all fits
      simp only [saved, bind, Except.bind]
      rw [tableCheck_image]
      by_cases differs : checkOf (recordsOf (valuesOf nvram)) = tableCheck region
      · rw [if_neg (not_not_intro differs)]
        exact ⟨region, rfl, tells.resolve_left (fun other => other differs.symm), still⟩
      · rw [if_pos differs]
        exact ⟨_, rfl, fresh, rfl⟩

/-- Every boot keeps the copy fresh, in the region that the boots before it have left. -/
def AllKeepUp : List Nvram → List UInt8 → Prop
  | [], _ => True
  | nvram :: boots, region => KeepsUp nvram region ∧
      ∀ next, boot nvram region = .ok next → AllKeepUp boots next

/-- After every boot the copy says the values that there were at that boot. It is a statement about
all boots of a run: each one is judged in the region that the boots before it have left, which had
no pending restore at first. -/
theorem copy_stays_fresh (boots : List Nvram) (region : List UInt8)
    (still : restorePending region = false) (keepUp : AllKeepUp boots region) :
    ∀ before nvram after, boots = before ++ nvram :: after →
      ∃ next, runBoots (before ++ [nvram]) region = .ok next ∧
        decode next = some (valuesOf nvram) := by
  intro before
  induction before generalizing boots region with
  | nil =>
    rintro nvram after rfl
    obtain ⟨next, ran, fresh, _⟩ := boot_fresh still keepUp.1
    refine ⟨next, ?_, fresh⟩
    rw [List.nil_append, runBoots, ran]
    rfl
  | cons first before inductionHypothesis =>
    rintro nvram after rfl
    obtain ⟨next, ran, _, stillNext⟩ := boot_fresh still keepUp.1
    obtain ⟨last, runs, fresh⟩ :=
      inductionHypothesis _ next stillNext (keepUp.2 next ran) nvram after rfl
    refine ⟨last, ?_, fresh⟩
    rw [List.cons_append, runBoots, ran]
    exact runs

/-- A region that was never written. -/
def erased : List UInt8 := List.replicate regionSize 0xFF

/-- A list of one string. -/
def oneEntry : DmiArray := (noEntries.withEntry 1 ⟨1, 2, 4, 0⟩).withCount 1

/-- One value and its list. -/
def oneValue : Nvram := { Nvram.empty.write ⟨1, 2, 4, 0⟩ [0x41, 0] with dmiArray := some oneEntry }

/-- The value of the example can be read. -/
theorem oneValue_readable : Readable oneEntry oneValue := by
  intro i inside
  have size : oneEntry.listed.length = 1 := rfl
  obtain rfl : i = 0 := by omega
  exact .inl ⟨[0x41, 0], rfl, by decide⟩

/-- A boot with it keeps up with an erased region. -/
theorem oneValue_keepsUp : KeepsUp oneValue erased := by
  have stored : oneValue.dmiArray = some oneEntry := rfl
  have usual : ¬ (oneEntry.count = 0 ∨ oneEntry.count = 0xFF) := by decide
  rw [KeepsUp, stored]
  simp only
  rw [if_neg usual]
  constructor
  · exact oneValue_readable
  · exact ⟨by decide +kernel, .inl (by decide +kernel)⟩

/-- So the region decodes to it afterwards. -/
theorem copy_stays_fresh_oneValue :
    ∃ next, runBoots ([] ++ [oneValue]) erased = .ok next ∧
      decode next = some (valuesOf oneValue) :=
  copy_stays_fresh [oneValue] erased rfl ⟨oneValue_keepsUp, fun _ _ => trivial⟩ [] oneValue [] rfl

/-- The value is deleted, and the list is empty. -/
def noValue : Nvram := { Nvram.empty with dmiArray := some (noEntries.withCount 0) }

/-- The copy of a value stays when the last value is deleted. -/
theorem not_always_fresh :
    ¬ ∀ (boots : List Nvram) (region : List UInt8), restorePending region = false →
        ∀ before nvram after, boots = before ++ nvram :: after →
          ∃ next, runBoots (before ++ [nvram]) region = .ok next ∧
            decode next = some (valuesOf nvram) := by
  intro always
  obtain ⟨stale, ran, fresh, still⟩ := @boot_fresh erased oneValue rfl oneValue_keepsUp
  have kept : boot noValue stale = .ok stale := by
    rw [boot, smcEdmiInit, still]
    rfl
  obtain ⟨next, runs, decoded⟩ := always [oneValue, noValue] erased rfl [oneValue] noValue [] rfl
  rw [List.singleton_append, runBoots, ran] at runs
  change (boot noValue stale >>= fun region => runBoots [] region) = .ok next at runs
  rw [kept] at runs
  cases runs
  rw [Fresh, decoded] at fresh
  exact absurd (Option.some.inj fresh) (by decide +kernel)

end Boots

end SmcPkg.Preserve
