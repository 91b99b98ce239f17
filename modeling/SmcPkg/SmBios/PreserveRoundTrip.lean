import SmcPkg.SmBios.PreserveLaw

/-!
# The round trip of the preserved values

An image that is saved and then restored into empty variables.

The list of the values and the reads are arbitrary: any value may be missing, empty or
unreadable. The restore starts from no variables at all, and its writes succeed. What is
compared are the list and the values afterwards.
-/

namespace SmcPkg.Preserve

open Bytes Card RaidCmd RomHole Smbios Dmi

section Written

variable {values : List Value} {nvram : Nvram}

/-- Values are written in their order. -/
theorem written_cons (value : Value) :
    written (value :: values) nvram = written values (nvram.write value.1 value.2) := rfl

/-- Two rows of values are written one behind the other. -/
theorem written_append (more : List Value) :
    written (values ++ more) nvram = written more (written values nvram) :=
  List.foldl_append

/-- Values that agree with a state are found where they were written. -/
theorem written_dmiVar {source : DmiVar → Option (List UInt8)}
    (agree : ∀ value ∈ values, source value.1 = some value.2)
    (filled : ∀ value ∈ values, value.2 ≠ []) (name : DmiVar) :
    (written values nvram).dmiVar name =
      if name ∈ values.map Prod.fst then source name else nvram.dmiVar name := by
  induction values generalizing nvram with
  | nil => rfl
  | cons value values inductionHypothesis =>
    rw [List.forall_mem_cons] at agree filled
    rw [written_cons, inductionHypothesis agree.2 filled.2, List.map_cons]
    by_cases later : name ∈ values.map Prod.fst
    · rw [if_pos later, if_pos (List.mem_cons_of_mem _ later)]
    · rw [if_neg later]
      change Function.update nvram.dmiVar value.1 _ name = _
      by_cases here : name = value.1
      · rw [here, Function.update_self, if_neg filled.1, if_pos List.mem_cons_self, agree.1]
      · have absent : name ∉ value.1 :: values.map Prod.fst := by
          rw [List.mem_cons]
          exact not_or.mpr ⟨here, later⟩
        rw [Function.update_of_ne here, if_neg absent]

/-- The value that was written last. -/
theorem written_last {value : Value} (filled : value.2 ≠ []) :
    (written (values ++ [value]) nvram).dmiVar value.1 = some value.2 := by
  rw [written_append, written_cons]
  change Function.update (written values nvram).dmiVar value.1 _ value.1 = _
  rw [Function.update_self, if_neg filled]

/-- Every value has a size of one byte. -/
def Short (nvram : Nvram) : Prop :=
  ∀ name data, nvram.dmiVar name = some data → data.length ≤ 255

/-- A short value leaves all values short, whether the write succeeds or not. -/
theorem setDmiVar_short {failures : Failures} {name : DmiVar} {data : List UInt8}
    (short : Short nvram) (size : data.length ≤ 255) :
    Short (setDmiVar failures name data nvram).2 := by
  intro other found stored
  rw [setDmiVar] at stored
  cases fails : failures.setVar with
  | some failure =>
    rw [fails] at stored
    exact short other found stored
  | none =>
    rw [fails] at stored
    simp only at stored
    split_ifs at stored with absent
    · exact short other found stored
    · change Function.update nvram.dmiVar name _ other = some found at stored
      by_cases same : other = name
      · rw [same, Function.update_self] at stored
        split_ifs at stored
        cases stored
        exact size
      · rw [Function.update_of_ne same] at stored
        exact short other found stored

/-- What the restoring loop writes has at most 255 bytes. -/
theorem restoreLoop_short {region : List UInt8} {array : DmiArray} {rounds offset : Nat}
    {index : UInt8} {result : DmiArray × Nvram} (short : Short nvram)
    (ran : restoreLoop RestoreFailures.none region rounds index offset array nvram = .ok result) :
    Short result.2 := by
  induction rounds generalizing index offset array nvram with
  | zero => cases ran
  | succ rounds inductionHypothesis =>
    have sized (place : Nat) (size : UInt8) : (bytesAt region place size.toNat).length ≤ 255 := by
      rw [bytesAt, List.length_map, List.length_range]
      exact Nat.le_of_lt_succ size.toNat_lt
    rw [restoreLoop] at ran
    simp only at ran
    split_ifs at ran with inside readable success
    · exact inductionHypothesis (setDmiVar_short short (sized _ _)) ran
    · cases ran
      exact setDmiVar_short short (sized _ _)
    · cases ran
      exact short

end Written

section Image

variable {count : UInt8} {records : List UInt8}

/-- The flag asks for the restore. -/
theorem restorePending_image : restorePending (withFlags (imageOf count records) 1) = true := rfl

/-- The image has the count that it was made with. -/
theorem tableCount_image (flags : UInt8) :
    tableCount (withFlags (imageOf count records) flags) = count := rfl

/-- Behind the header there are the records, and the rest is erased. -/
theorem image_drop (flags : UInt8) :
    (withFlags (imageOf count records) flags).drop tableSize =
      records ++ List.replicate (regionSize - (tableSize + records.length)) 0xFF := rfl

/-- An image that fits fills the region. -/
theorem image_length (flags : UInt8) (fits : tableSize + records.length ≤ regionSize) :
    (withFlags (imageOf count records) flags).length = regionSize := by
  have front : ((withFlags (imageOf count records) flags).take tableSize).length = tableSize := rfl
  have behind := congrArg List.length (@image_drop count records flags)
  rw [List.length_append, List.length_replicate, List.length_drop] at behind
  rw [List.length_take] at front
  omega

end Image

section RoundTrip

/-- What `GetVariable` gives for an entry, while the reads at some indices fail. -/
def readVar (nvram : Nvram) (fails : UInt8 → Bool) (index : UInt8) (entry : DmiVar) :
    Option (List UInt8) :=
  if fails index then none
  else
    match nvram.dmiVar entry with
    | some data => if data.length ≤ bufferSize then some data else none
    | none => none

/-- The reads of a list, some of which fail. -/
def readsWith (array : DmiArray) (nvram : Nvram) (fails : UInt8 → Bool) : List Read :=
  readsOf array (readVar nvram fails)

variable (array : DmiArray) (nvram : Nvram) (fails : UInt8 → Bool)

/-- The image that is saved brings back the values that can be read, and the list of them, when
it is restored into empty variables. -/
def RoundTrip : Prop :=
  ∃ image, saveImage (some array) (readVar nvram fails) = .ok (some image) ∧
    ∃ restored region, smcEdmiInit none (fun _ _ => none) RestoreFailures.none
        (withFlags image 1) Nvram.empty = .ok (restored, region) ∧
      (∃ list, restored.dmiArray = some list ∧
        list.listed = (readable (readsWith array nvram fails)).map Prod.fst) ∧
      ∀ name, restored.dmiVar name =
        if name ∈ (readable (readsWith array nvram fails)).map Prod.fst then nvram.dmiVar name
        else none

variable {array nvram fails}

/-- A value that can be read is the one in the variables. -/
theorem readable_agrees : ∀ value ∈ readable (readsWith array nvram fails),
    nvram.dmiVar value.1 = some value.2 := by
  intro value member
  obtain ⟨read, listed, found⟩ := List.mem_filterMap.mp member
  obtain ⟨i, inside, same⟩ := List.getElem_of_mem listed
  simp only [readsWith, readsOf, List.getElem_mapIdx] at same
  rw [← same, Option.map_eq_some_iff] at found
  obtain ⟨data, read, rfl⟩ := found
  simp only at read
  rw [readVar] at read
  split_ifs at read
  split at read
  · rename_i stored there
    split_ifs at read
    cases read
    exact there
  · cases read

/-- A value that can be read is not empty. -/
theorem readable_filled : ∀ value ∈ readable (readsWith array nvram fails), value.2 ≠ [] := by
  intro value member nothing
  have stored := readable_agrees value member
  rw [nothing] at stored
  exact nvram.nonempty value.1 stored

/-- Every entry of the list is read once. -/
theorem readsWith_length : (readsWith array nvram fails).length = array.count.toNat :=
  readsOf_length

/-- Records lie one behind the other. -/
theorem recordsOf_append (values more : List Value) :
    recordsOf (values ++ more) = recordsOf values ++ recordsOf more :=
  List.flatMap_append

/-- The values that the loop keeps of all reads. -/
def keptOf (reads : List Read) : List Value := kept reads reads.length

/-- The reads that the loop never comes to. -/
def lostOf (reads : List Read) : List Read := lost reads reads.length

/-- What can be read is kept, up to the first failure, or lost behind it. -/
theorem readable_eq (reads : List Read) :
    readable reads = keptOf reads ++ readable (lostOf reads) := readable_parts reads.length

/-- The image that is saved. -/
theorem saveImage_spec (listed : 1 ≤ array.count.toNat) (room : array.count.toNat < 255)
    (fits : tableSize + (recordsOf (keptOf (readsWith array nvram fails))).length ≤ regionSize) :
    ∃ count, saveImage (some array) (readVar nvram fails) =
        .ok (some (imageOf count (recordsOf (keptOf (readsWith array nvram fails))))) ∧
      count.toNat = (keptOf (readsWith array nvram fails)).length +
        (lostOf (readsWith array nvram fails)).length := by
  have length := @readsWith_length array nvram fails
  have usual : ¬ (array.count = 0 ∨ array.count = 0xFF) := by
    rintro (zero | full)
    · rw [zero] at listed
      cases listed
    · rw [full] at room
      exact absurd room (by decide)
  have drop : (readsOf array (readVar nvram fails)).drop (0 : UInt8).toNat =
      readsWith array nvram fails := rfl
  have ahead : array.count.toNat - (0 : UInt8).toNat = (readsWith array nvram fails).length := by
    rw [length]
    rfl
  have enough : array.count.toNat + 1 ≤ 256 + (0 : UInt8).toNat := by
    change array.count.toNat + 1 ≤ 256
    omega
  have ran := @saveLoop_spec array (readVar nvram fails) 256 0 array.count [] (UInt8.le_refl _) room
    (by omega) enough
  rw [drop, ahead] at ran
  obtain ⟨count, ran, counts⟩ := ran fits
  refine ⟨count, ?_, ?_⟩
  · rw [saveImage]
    simp only
    rw [if_neg usual, ran]
    rfl
  · rw [keptOf, lostOf]
    omega

end RoundTrip

section Exact

variable {reads : List Read} {array : DmiArray} {nvram : Nvram} {fails : UInt8 → Bool}

/-- Reads that all succeed are values. -/
theorem readable_full (full : (readable reads).length = reads.length) :
    ∀ read ∈ reads, ∃ data, read.2 = some data ∧ (read.1, data) ∈ readable reads := by
  induction reads with
  | nil =>
    intro read member
    cases member
  | cons first reads inductionHypothesis =>
    obtain ⟨entry, data⟩ := first
    cases data with
    | none =>
      have fewer : (readable reads).length ≤ reads.length := List.length_filterMap_le _ _
      have same : (readable ((entry, none) :: reads)).length = (readable reads).length := rfl
      rw [List.length_cons] at full
      omega
    | some data =>
      have parts : readable ((entry, some data) :: reads) = (entry, data) :: readable reads := rfl
      rw [parts, List.length_cons, List.length_cons] at full
      rw [parts]
      intro read member
      obtain here | later := List.mem_cons.mp member
      · rw [here]
        exact ⟨data, rfl, List.mem_cons_self⟩
      · obtain ⟨found, same, inside⟩ := inductionHypothesis (Nat.succ.inj full) read later
        exact ⟨found, same, List.mem_cons_of_mem _ inside⟩

/-- The read of what the bytes behind the records look like. -/
def junkRead : Read := (junk.1, some junk.2)

/-- Values that look like erased bytes are all the same. -/
theorem readable_junk (all : ∀ read ∈ reads, read = junkRead) :
    readable reads = List.replicate reads.length junk := by
  rw [List.eq_replicate_of_mem all, List.length_replicate]
  induction reads.length with
  | zero => rfl
  | succ count inductionHypothesis =>
    rw [List.replicate_succ, List.replicate_succ, ← inductionHypothesis]
    rfl

/-- The region that is restored from. -/
theorem smcEdmiInit_image {count : UInt8} {values : List Value} {array : DmiArray} {nvram : Nvram}
    (usual : ¬ (count = 0 ∨ count = 0xFF))
    (ran : restoreLoop RestoreFailures.none (withFlags (imageOf count (recordsOf values)) 1) 256 0
      tableSize (noEntries.withCount count) Nvram.empty = .ok (array, nvram)) :
    smcEdmiInit none (fun _ _ => none) RestoreFailures.none
        (withFlags (imageOf count (recordsOf values)) 1) Nvram.empty =
      .ok ({ nvram with dmiArray := some array },
        withFlags (withFlags (imageOf count (recordsOf values)) 1) 0) := by
  rw [smcEdmiInit, restorePending_image, if_pos rfl, restore, tableCount_image]
  simp only
  rw [if_neg usual, ran]
  rfl

/-- The list of the restore starts without an entry. -/
theorem noEntries_listed (count : UInt8) (index : UInt8) (zero : index.toNat = 0) :
    (noEntries.withCount count).listed.take index.toNat = [] := by
  rw [zero, List.take_zero]

/-- The values come back if what is lost is what the bytes behind the records look like. -/
theorem roundTrip_of_junk (listed : 1 ≤ array.count.toNat) (room : array.count.toNat < 255)
    (fits : tableSize + (recordsOf (readable (readsWith array nvram fails))).length ≤ regionSize)
    (found : readable (readsWith array nvram fails) ≠ [])
    (short : ∀ value ∈ readable (readsWith array nvram fails), value.2.length ≤ 255)
    (junkLost : ∀ read ∈ lostOf (readsWith array nvram fails), read = junkRead) :
    RoundTrip array nvram fails := by
  have parts := readable_eq (readsWith array nvram fails)
  rw [readable_junk junkLost] at parts
  have whole := congrArg (fun values => (recordsOf values).length) parts
  simp only [recordsOf_append, List.length_append] at whole
  have junkLength : (recordsOf (List.replicate (lostOf (readsWith array nvram fails)).length
      junk)).length = 268 * (lostOf (readsWith array nvram fails)).length := by
    rw [recordsOf, List.length_flatMap, List.map_replicate, List.sum_replicate,
      recordBytes_length, junk_length, smul_eq_mul, Nat.mul_comm]
  have keptFits :
      tableSize + (recordsOf (keptOf (readsWith array nvram fails))).length ≤ regionSize := by
    omega
  obtain ⟨count, saved, counts⟩ := saveImage_spec listed room keptFits
  have total := congrArg List.length parts
  rw [List.length_append, List.length_replicate, ← counts] at total
  have some := List.length_pos_iff_ne_nil.mpr found
  have reads := @readsWith_length array nvram fails
  have atMost : (readable (readsWith array nvram fails)).length ≤
      (readsWith array nvram fails).length := List.length_filterMap_le _ _
  have usual : ¬ (count = 0 ∨ count = 0xFF) := by
    rintro (zero | full)
    · rw [zero] at total
      change _ = 0 at total
      omega
    · rw [full] at total
      change _ = 255 at total
      omega
  have keptShort : ∀ value ∈ keptOf (readsWith array nvram fails), value.2.length ≤ 255 := by
    intro value member
    apply short
    rw [parts]
    exact List.mem_append_left _ member
  have keptFilled : ∀ value ∈ keptOf (readsWith array nvram fails), value.2 ≠ [] := by
    intro value member
    apply @readable_filled array nvram fails
    rw [parts]
    exact List.mem_append_left _ member
  have decodes := @decodesAll_records _ _ _ _ (lostOf (readsWith array nvram fails)).length
    (@image_length count _ 1 keptFits) (@image_drop count _ 1) keptShort keptFilled (by omega)
  rw [← parts] at decodes
  obtain ⟨list, ran, entries⟩ := @restoreLoop_decodes _ (noEntries.withCount count) Nvram.empty _ _
    256 0 (by rw [count_withCount, total]; exact (Nat.zero_add _).symm)
    (by rw [count_withCount]; omega) (by omega) decodes
  refine ⟨_, saved, _, _, smcEdmiInit_image usual ran, ⟨list, rfl, ?_⟩, ?_⟩
  · rw [entries, noEntries_listed count 0 rfl, List.nil_append]
  · intro name
    exact written_dmiVar readable_agrees readable_filled name

/-- What was restored, if anything was. -/
theorem smcEdmiInit_restored {region after : List UInt8} {list : DmiArray} {restored : Nvram}
    (pending : restorePending region = true)
    (ran : smcEdmiInit none (fun _ _ => none) RestoreFailures.none region Nvram.empty =
      .ok (restored, after)) (stored : restored.dmiArray = some list) :
    ¬ (tableCount region = 0 ∨ tableCount region = 0xFF) ∧
      ∃ nvram, restoreLoop RestoreFailures.none region 256 0 tableSize
        (noEntries.withCount (tableCount region)) Nvram.empty = .ok (list, nvram) ∧
        restored.dmiVar = nvram.dmiVar := by
  rw [smcEdmiInit, pending, if_pos rfl, restore] at ran
  simp only at ran
  by_cases usual : tableCount region = 0 ∨ tableCount region = 0xFF
  · rw [if_pos usual] at ran
    cases ran
    cases stored
  · rw [if_neg usual] at ran
    obtain ⟨⟨array, nvram⟩, looped, ran⟩ := Checked.bind_ok ran
    cases ran
    cases stored
    exact ⟨usual, nvram, looped, rfl⟩

/-- If the values come back, the image lists an entry, each value that can be read has a size of
one byte and stands in the variables that the records and the bytes behind them are decoded to,
and the entries that are lost and can be read have the key of those bytes. -/
theorem written_of_roundTrip (listed : 1 ≤ array.count.toNat) (room : array.count.toNat < 255)
    (fits : tableSize + (recordsOf (readable (readsWith array nvram fails))).length ≤ regionSize)
    (back : RoundTrip array nvram fails) :
    (keptOf (readsWith array nvram fails)).length +
        (lostOf (readsWith array nvram fails)).length ≠ 0 ∧
      (∀ value ∈ readable (readsWith array nvram fails), value.2.length ≤ 255) ∧
      (readable (lostOf (readsWith array nvram fails))).map Prod.fst =
        List.replicate (lostOf (readsWith array nvram fails)).length junk.1 ∧
      ∀ value ∈ readable (readsWith array nvram fails),
        (written (keptOf (readsWith array nvram fails) ++
          List.replicate (lostOf (readsWith array nvram fails)).length junk)
            Nvram.empty).dmiVar value.1 = some value.2 := by
  have parts := readable_eq (readsWith array nvram fails)
  have whole := congrArg (fun values => (recordsOf values).length) parts
  simp only [recordsOf_append, List.length_append] at whole
  have keptFits :
      tableSize + (recordsOf (keptOf (readsWith array nvram fails))).length ≤ regionSize := by
    omega
  obtain ⟨count, saved, counts⟩ := saveImage_spec listed room keptFits
  obtain ⟨image, savedToo, restored, after, ran, ⟨list, stored, entries⟩, values⟩ := back
  obtain rfl : imageOf count _ = image := Option.some.inj (Except.ok.inj (saved.symm.trans savedToo))
  obtain ⟨usual, final, looped, same⟩ := smcEdmiInit_restored restorePending_image ran stored
  rw [tableCount_image] at usual looped
  have nonzero : count.toNat ≠ 0 := fun zero => usual (Or.inl (UInt8.toNat_inj.mp zero))
  have bound : count.toNat < 255 := by
    have below := count.toNat_lt
    by_contra full
    refine usual (Or.inr (UInt8.toNat_inj.mp ?_))
    change count.toNat = 255
    omega
  have empty : Short Nvram.empty := by
    intro name data impossible
    cases impossible
  have small := restoreLoop_short empty looped
  have there : ∀ value ∈ readable (readsWith array nvram fails),
      final.dmiVar value.1 = some value.2 := by
    intro value member
    rw [← same, values, if_pos (List.mem_map_of_mem member)]
    exact readable_agrees value member
  have short : ∀ value ∈ readable (readsWith array nvram fails), value.2.length ≤ 255 := by
    intro value member
    exact small value.1 value.2 (there value member)
  have keptMember : ∀ value ∈ keptOf (readsWith array nvram fails),
      value ∈ readable (readsWith array nvram fails) := by
    intro value member
    rw [parts]
    exact List.mem_append_left _ member
  have counted : (noEntries.withCount count).count.toNat = (0 : UInt8).toNat +
      ((keptOf (readsWith array nvram fails)).length +
        (lostOf (readsWith array nvram fails)).length) := by
    rw [count_withCount, counts]
    exact (Nat.zero_add _).symm
  have decodes := decodesAll_of_ok (@image_length count _ 1 keptFits) (@image_drop count _ 1)
    (fun value member => short value (keptMember value member))
    (fun value member => readable_filled value (keptMember value member)) counted
    (by rw [count_withCount]; exact bound) looped
  obtain ⟨restoredList, ranAgain, listedAll⟩ := @restoreLoop_decodes _ (noEntries.withCount count)
    Nvram.empty _ _ 256 0 (by rw [counted, List.length_append, List.length_replicate])
    (by rw [count_withCount]; exact bound)
    (by rw [List.length_append, List.length_replicate]; omega) decodes
  obtain ⟨rfl, rfl⟩ := Prod.mk.inj (Except.ok.inj (looped.symm.trans ranAgain))
  rw [entries, noEntries_listed count 0 rfl, List.nil_append] at listedAll
  rw [parts, List.map_append, List.map_append, List.append_cancel_left_eq, List.map_replicate]
    at listedAll
  exact ⟨counts ▸ nonzero, short, listedAll, there⟩

/-- If the values come back, what is lost is what the bytes behind the records look like: all
of it is decoded as one entry, so an entry that is lost must have its key and its value. -/
theorem junk_of_roundTrip (listed : 1 ≤ array.count.toNat) (room : array.count.toNat < 255)
    (fits : tableSize + (recordsOf (readable (readsWith array nvram fails))).length ≤ regionSize)
    (back : RoundTrip array nvram fails) :
    readable (readsWith array nvram fails) ≠ [] ∧
      (∀ value ∈ readable (readsWith array nvram fails), value.2.length ≤ 255) ∧
      ∀ read ∈ lostOf (readsWith array nvram fails), read = junkRead := by
  have parts := readable_eq (readsWith array nvram fails)
  obtain ⟨nonzero, short, keys, there⟩ := written_of_roundTrip listed room fits back
  have full := congrArg List.length keys
  rw [List.length_map, List.length_replicate] at full
  refine ⟨?_, short, ?_⟩
  · intro nothing
    rw [nothing] at parts
    obtain ⟨noneKept, noneLost⟩ := List.append_eq_nil_iff.mp parts.symm
    rw [noneLost] at full
    rw [noneKept, ← full] at nonzero
    exact nonzero rfl
  · intro read member
    obtain ⟨data, found, value⟩ := readable_full full read member
    have key : read.1 = junk.1 := by
      have inside : read.1 ∈ (readable (lostOf (readsWith array nvram fails))).map Prod.fst :=
        List.mem_map_of_mem value
      rw [keys] at inside
      exact List.eq_of_mem_replicate inside
    have inAll : (read.1, data) ∈ readable (readsWith array nvram fails) := by
      rw [parts]
      exact List.mem_append_right _ value
    have last := there _ inAll
    obtain ⟨others, more⟩ : ∃ others, (lostOf (readsWith array nvram fails)).length = others + 1 :=
      ⟨_, (Nat.succ_pred_eq_of_pos (List.length_pos_of_mem member)).symm⟩
    rw [more, List.replicate_succ', ← List.append_assoc] at last
    simp only [key] at last
    rw [written_last junk_ne_nil] at last
    cases Option.some.inj last
    rw [junkRead, ← key, ← found]

/-- The values come back exactly if there is one that can be read, every one that can be read
has a size of one byte, and each entry whose index and failures before it reach the count is
what the bytes behind the records look like. -/
theorem round_trip_iff (array : DmiArray) (nvram : Nvram) (fails : UInt8 → Bool)
    (listed : 1 ≤ array.count.toNat) (room : array.count.toNat ≤ 254)
    (fits : tableSize + (recordsOf (readable (readsWith array nvram fails))).length ≤ regionSize) :
    RoundTrip array nvram fails ↔
      readable (readsWith array nvram fails) ≠ [] ∧
      (∀ value ∈ readable (readsWith array nvram fails), value.2.length ≤ 255) ∧
      ∀ i, (inside : i < (readsWith array nvram fails).length) →
        (readsWith array nvram fails).length ≤ i + failuresBefore (readsWith array nvram fails) i →
        (readsWith array nvram fails)[i] = junkRead := by
  have below : array.count.toNat < 255 := Nat.lt_succ_of_le room
  have lostJunk := @forall_lost (readsWith array nvram fails) (fun read => read = junkRead)
    (readsWith array nvram fails).length
  constructor
  · intro back
    obtain ⟨found, short, junkLost⟩ := junk_of_roundTrip listed below fits back
    exact ⟨found, short, lostJunk.mp junkLost⟩
  · rintro ⟨found, short, junkLost⟩
    exact roundTrip_of_junk listed below fits found short (lostJunk.mpr junkLost)

/-- A list of two strings. -/
def twoEntries : DmiArray :=
  ((noEntries.withEntry 1 ⟨1, 2, 4, 0⟩).withEntry 2 ⟨1, 2, 5, 0⟩).withCount 2

/-- Their values. -/
def twoStrings : Nvram :=
  (Nvram.empty.write ⟨1, 2, 4, 0⟩ [0x41, 0]).write ⟨1, 2, 5, 0⟩ [0x42, 0]

/-- The two sides where the second of two entries cannot be read. -/
theorem round_trip_iff_lastFails :
    RoundTrip twoEntries twoStrings (fun index => index = 1) ↔
      readable (readsWith twoEntries twoStrings (fun index => index = 1)) ≠ [] ∧
      (∀ value ∈ readable (readsWith twoEntries twoStrings (fun index => index = 1)),
        value.2.length ≤ 255) ∧
      ∀ i, (inside : i < (readsWith twoEntries twoStrings (fun index => index = 1)).length) →
        (readsWith twoEntries twoStrings (fun index => index = 1)).length ≤
          i + failuresBefore (readsWith twoEntries twoStrings (fun index => index = 1)) i →
        (readsWith twoEntries twoStrings (fun index => index = 1))[i] = junkRead :=
  round_trip_iff twoEntries twoStrings (fun index => index = 1) (by decide) (by decide)
    (by decide +kernel)

/-- If the first of two reads fails the other value does not come back. -/
theorem not_round_trip :
    ¬ ∀ (array : DmiArray) (nvram : Nvram) (fails : UInt8 → Bool), 1 ≤ array.count.toNat →
        array.count.toNat ≤ 254 →
        tableSize + (recordsOf (readable (readsWith array nvram fails))).length ≤ regionSize →
        RoundTrip array nvram fails := by
  intro always
  have back := always twoEntries twoStrings (fun index => index = 0) (by decide) (by decide)
    (by decide +kernel)
  obtain ⟨_, _, junkLost⟩ := junk_of_roundTrip (by decide) (by decide) (by decide +kernel) back
  have lost : (⟨1, 2, 5, 0⟩, some [0x42, 0]) ∈
      lostOf (readsWith twoEntries twoStrings (fun index => index = 0)) := by decide +kernel
  have same := congrArg (fun read => read.1.type) (junkLost _ lost)
  exact absurd same (by decide)

end Exact

end SmcPkg.Preserve
