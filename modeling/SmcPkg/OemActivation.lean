import SmcPkg.RaidOob.Card
import SmcPkg.RomHole

/-!
# Key and marker of the OEM activation

A public key and a Windows marker are looked for in the firmware volumes and kept in a region
of the ROM hole, so that a later firmware without them still has them. The region is written
as a whole, from a buffer that holds what was found just now, so a region with a new key and
no marker next to it loses the marker that it had.

What the firmware volumes hold is an input, a key or none and a marker or none. The reads and
writes of the region may fail; how the operating system uses the tables is not covered.
-/

namespace SmcPkg.OemActivation

open Bytes Card RomHole

section Search

/-- A firmware volume: the status of `HandleProtocol`, and of the read of a file or section,
with what that leaves in the buffer. -/
structure Volume where
  handleProtocol : Status
  read : Status
  left : Memory

/-- What a search meets. -/
structure Volumes where
  locateHandleBuffer : Status
  volumes : List Volume

/-- `EFI_WARN_BUFFER_TOO_SMALL`. -/
def efiWarnBufferTooSmall : Status := 4

/-- The loop of `LocateAndLoadRawData` over the volumes, with the status and the buffer so far.
A part of the file in the ROM hole will do unless it is blank. -/
def volumeLoop (romHoleFile : Bool) : List Volume → Status → Memory → Status × Memory
  | [], status, buffer => (status, buffer)
  | volume :: rest, _, buffer =>
    if volume.handleProtocol ≠ efiSuccess then
      volumeLoop romHoleFile rest volume.handleProtocol buffer
    else
      let status :=
        if romHoleFile && volume.read = efiWarnBufferTooSmall && volume.left 0 ≠ 0xff then
          efiSuccess
        else volume.read
      if status = efiSuccess then (status, volume.left)
      else volumeLoop romHoleFile rest status volume.left

/-- `LocateAndLoadRawData`. -/
def locateAndLoadRawData (romHoleFile : Bool) (met : Volumes) (buffer : Memory) :
    Status × Memory :=
  if met.locateHandleBuffer ≠ efiSuccess then (efiNotFound, buffer)
  else volumeLoop romHoleFile met.volumes met.locateHandleBuffer buffer

/-- The search among the AMI files, and if that fails among those of the ROM hole. -/
def searchBoth (ami smc : Volumes) (stack : Memory) : Option Memory :=
  let (status, buffer) := locateAndLoadRawData false ami stack
  let (status, buffer) :=
    if status ≠ efiSuccess then locateAndLoadRawData true smc buffer else (status, buffer)
  if status = efiSuccess then some buffer else none

end Search

section Save

/-- `sizeof(OEM_PUBLIC_KEY_STRUCTURE)`. -/
def pubKeySize : Nat := 156

/-- `sizeof(WINDOWS_MARKER_STRUCTURE)`. -/
def markerSize : Nat := 182

/-- Where the marker is in the region. -/
def markerPlace : Nat := 0x500

/-- What `SMCSaveOA2key` meets: the two allocations, the four searches, and the stack. -/
structure Boot where
  allocateTemp : Status
  allocateOld : Status
  amiPubKey : Volumes
  smcPubKey : Volumes
  amiMarker : Volumes
  smcMarker : Volumes
  pubKeyStack : Memory
  markerStack : Memory

/-- Both buffers are there. -/
def Boot.allocated (boot : Boot) : Bool :=
  boot.allocateTemp = efiSuccess && boot.allocateOld = efiSuccess

/-- The key that is found. -/
def Boot.pubKey (boot : Boot) : Option Memory :=
  if boot.allocated then searchBoth boot.amiPubKey boot.smcPubKey boot.pubKeyStack else none

/-- The marker that is found. -/
def Boot.marker (boot : Boot) : Option Memory :=
  if boot.allocated then searchBoth boot.amiMarker boot.smcMarker boot.markerStack else none

/-- `CompareMem` of some bytes from a place on is not zero. -/
def differs (old new : Memory) (start count : Nat) : Bool :=
  (List.range count).any (fun i => old (start + i) ≠ new (start + i))

/-- The buffer with what is found, at its place. -/
def put (found : Option Memory) (start count : Nat) (buffer : Memory) : Memory :=
  match found with
  | none => buffer
  | some item => overlayAt start count item buffer

/-- `SMCSaveOA2key`: what it writes to the region, if it writes. -/
def smcSaveOa2Key (boot : Boot) (hole : Memory) : Option Memory :=
  let oldKey := readRegion hole .oa2
  let tempBuffer := put boot.pubKey 0 pubKeySize (fun _ => 0xff)
  let getPub := boot.pubKey.isSome && differs oldKey tempBuffer 0 pubKeySize
  let tempBuffer := put boot.marker markerPlace markerSize tempBuffer
  let getMark := boot.marker.isSome && differs oldKey tempBuffer markerPlace markerSize
  if getPub || getMark then some tempBuffer else none

/-- The ROM hole afterwards. -/
def holeAfter (boot : Boot) (hole : Memory) : Memory :=
  match smcSaveOa2Key boot hole with
  | none => hole
  | some data => writeRegion hole .oa2 data

end Save

section Purpose

/-- The bytes of the region from a place on are those that were found, or else those stored. -/
def Keeps (found : Option Memory) (hole later : Memory) (start count : Nat) : Prop :=
  ∀ i < count, readRegion later .oa2 (start + i) =
    (found.getD (shifted start (readRegion hole .oa2))) i

/-- What is found is what is stored, or nothing is found. -/
def Known (found : Option Memory) (hole : Memory) (start count : Nat) : Prop :=
  ∀ item, found = some item → ∀ i < count, item i = readRegion hole .oa2 (start + i)

/-- Key and marker are merged into the region, which is left alone when both are known. -/
structure Merged (boot : Boot) (hole : Memory) : Prop where
  pubKey : Keeps boot.pubKey hole (holeAfter boot hole) 0 pubKeySize
  marker : Keeps boot.marker hole (holeAfter boot hole) markerPlace markerSize
  quiet : Known boot.pubKey hole 0 pubKeySize → Known boot.marker hole markerPlace markerSize →
    smcSaveOa2Key boot hole = none

/-- The bytes of the region from a place on are blank. -/
def Blank (hole : Memory) (start count : Nat) : Prop :=
  ∀ i < count, readRegion hole .oa2 (start + i) = 0xff

/-- When one of the two is new, the other one is found too, or there is none stored. -/
structure Together (boot : Boot) (hole : Memory) : Prop where
  pubKey : ¬ Known boot.pubKey hole 0 pubKeySize →
    boot.marker = none → Blank hole markerPlace markerSize
  marker : ¬ Known boot.marker hole markerPlace markerSize →
    boot.pubKey = none → Blank hole 0 pubKeySize

end Purpose

section Proof

variable {boot : Boot} {hole : Memory} {found : Option Memory} {start count : Nat}

/-- No difference is found exactly where there is none. -/
theorem differs_false_iff {old new : Memory} :
    differs old new start count = false ↔ ∀ i < count, new (start + i) = old (start + i) := by
  simp only [differs, List.any_eq_false, List.mem_range, decide_eq_true_eq, ne_eq, not_not]
  exact forall₂_congr (fun _ _ => eq_comm)

/-- What is put at its place. -/
theorem put_inside {buffer : Memory} {i : Nat} (inside : i < count) :
    put found start count buffer (start + i) =
      (found.getD (shifted start buffer)) i := by
  cases found with
  | none => rfl
  | some item =>
    rw [put, overlayAt_inside (Nat.le_add_right _ _) (by omega), Nat.add_sub_cancel_left]
    rfl

/-- The bytes around a table stay. -/
theorem put_outside {buffer : Memory} {place : Nat}
    (apart : place < start ∨ start + count ≤ place) :
    put found start count buffer place = buffer place := by
  cases found with
  | none => rfl
  | some item => exact overlayAt_outside apart

/-- A flag stays clear exactly if the item is known. -/
theorem flag_false_iff {buffer : Memory} :
    (found.isSome && differs (readRegion hole .oa2) (put found start count buffer) start count) =
        false ↔ Known found hole start count := by
  rw [Bool.and_eq_false_iff, differs_false_iff]
  cases found with
  | none => exact iff_of_true (Or.inl rfl) (fun item none => by cases none)
  | some item =>
    simp only [Option.isSome_some, Bool.true_eq_false, false_or]
    constructor
    · rintro same other found i inside
      obtain rfl := Option.some.inj found
      rw [← same i inside, put_inside inside]
      rfl
    · intro known i inside
      rw [put_inside inside, ← known item rfl i inside]
      rfl

/-- The buffer that is written when one of the two is new. -/
def newRegion (boot : Boot) : Memory :=
  put boot.marker markerPlace markerSize (put boot.pubKey 0 pubKeySize (fun _ => 0xff))

/-- Nothing is written exactly if both are known. -/
theorem smcSaveOa2Key_eq :
    (Known boot.pubKey hole 0 pubKeySize ∧ Known boot.marker hole markerPlace markerSize ∧
        smcSaveOa2Key boot hole = none) ∨
      (¬ (Known boot.pubKey hole 0 pubKeySize ∧ Known boot.marker hole markerPlace markerSize) ∧
        smcSaveOa2Key boot hole = some (newRegion boot)) := by
  rw [smcSaveOa2Key]
  by_cases known : Known boot.pubKey hole 0 pubKeySize ∧ Known boot.marker hole markerPlace markerSize
  · refine Or.inl ⟨known.1, known.2, if_neg ?_⟩
    rw [flag_false_iff.mpr known.1, flag_false_iff.mpr known.2]
    exact Bool.false_ne_true
  · refine Or.inr ⟨known, if_pos ?_⟩
    by_contra clear
    rw [Bool.or_eq_true, not_or, Bool.not_eq_true, Bool.not_eq_true, flag_false_iff,
      flag_false_iff] at clear
    exact known clear

/-- What is known stays when nothing is written. -/
theorem keeps_known (known : Known found hole start count) :
    Keeps found hole hole start count := by
  intro i inside
  cases found with
  | none => rfl
  | some item => exact (known item rfl i inside).symm

/-- In the new region an item is what was found, or blank. -/
theorem newRegion_pubKey {i : Nat} (inside : i < pubKeySize) :
    newRegion boot (0 + i) = (boot.pubKey.getD (fun _ => 0xff)) i := by
  have size : pubKeySize = 156 := rfl
  have place : markerPlace = 0x500 := rfl
  rw [newRegion, put_outside (Or.inl (by omega)), put_inside inside]
  rfl

/-- The marker of the region is that of the boot, or erased. -/
theorem newRegion_marker {i : Nat} (inside : i < markerSize) :
    newRegion boot (markerPlace + i) = (boot.marker.getD (fun _ => 0xff)) i := by
  have size : pubKeySize = 156 := rfl
  have place : markerPlace = 0x500 := rfl
  rw [newRegion, put_inside inside]
  cases boot.marker with
  | some item => rfl
  | none =>
    rw [Option.getD_none, shifted, put_outside (Or.inr (by omega))]
    rfl

/-- A region is kept when it is written, unless something stored is replaced by nothing. -/
theorem keeps_written {data : Memory} (inside : start + count ≤ smcRomHoleSize .oa2)
    (written : ∀ i < count, data (start + i) = (found.getD (fun _ => 0xff)) i) :
    Keeps found hole (writeRegion hole .oa2 data) start count ↔
      (found = none → Blank hole start count) := by
  have read : ∀ i < count, readRegion (writeRegion hole .oa2 data) .oa2 (start + i) =
      (found.getD (fun _ => 0xff)) i := by
    intro i below
    rw [readRegion_writeRegion (by omega), written i below]
  cases found with
  | none =>
    constructor
    · intro keeps _ i below
      exact (keeps i below).symm.trans (read i below)
    · intro blank i below
      exact (read i below).trans (blank rfl i below).symm
  | some item => exact iff_of_true read (fun none => by cases none)

/-- Key and marker are merged into the region exactly if a new one of them comes with the other, or
there is none of the other stored. The region, the allocations and the four searches are arbitrary,
and the firmware volumes answer in any way. -/
theorem merged_iff (boot : Boot) (hole : Memory) : Merged boot hole ↔ Together boot hole := by
  have inPub : 0 + pubKeySize ≤ smcRomHoleSize .oa2 := by decide
  have inMark : markerPlace + markerSize ≤ smcRomHoleSize .oa2 := by decide
  rcases @smcSaveOa2Key_eq boot hole with ⟨pubKey, marker, nothing⟩ | ⟨unknown, written⟩
  · have same : holeAfter boot hole = hole := by rw [holeAfter, nothing]
    refine iff_of_true ⟨?_, ?_, fun _ _ => nothing⟩
      ⟨fun unknown => absurd pubKey unknown, fun unknown => absurd marker unknown⟩
    · rw [same]
      exact keeps_known pubKey
    · rw [same]
      exact keeps_known marker
  · have changed : holeAfter boot hole = writeRegion hole .oa2 (newRegion boot) := by
      rw [holeAfter, written]
    have keepsPub := @keeps_written hole boot.pubKey 0 pubKeySize _ inPub
      (fun i inside => @newRegion_pubKey boot i inside)
    have keepsMark := @keeps_written hole boot.marker markerPlace markerSize _ inMark
      (fun i inside => @newRegion_marker boot i inside)
    have quiet : Known boot.pubKey hole 0 pubKeySize →
        Known boot.marker hole markerPlace markerSize → smcSaveOa2Key boot hole = none :=
      fun pubKey marker => absurd ⟨pubKey, marker⟩ unknown
    constructor
    · rintro ⟨pubKey, marker, -⟩
      rw [changed] at pubKey marker
      exact ⟨fun _ => keepsMark.mp marker, fun _ => keepsPub.mp pubKey⟩
    · rintro ⟨pubKey, marker⟩
      refine ⟨?_, ?_, quiet⟩
      · rw [changed]
        refine keepsPub.mpr (fun none => marker (fun known => unknown ⟨?_, known⟩) none)
        intro item found
        cases none.symm.trans found
      · rw [changed]
        refine keepsMark.mpr (fun none => pubKey (fun known => unknown ⟨known, ?_⟩) none)
        intro item found
        cases none.symm.trans found

/-- Volumes without the file. -/
def noFile : Volumes := ⟨efiSuccess, [⟨efiSuccess, efiNotFound, fun _ => 0⟩]⟩

/-- A boot that finds a new key, and no marker. -/
def newKey : Boot where
  allocateTemp := efiSuccess
  allocateOld := efiSuccess
  amiPubKey := ⟨efiSuccess, [⟨efiSuccess, efiSuccess, fun _ => 1⟩]⟩
  smcPubKey := noFile
  amiMarker := noFile
  smcMarker := noFile
  pubKeyStack _ := 0
  markerStack _ := 0

/-- The marker that was stored is lost. -/
theorem not_always_merged : ¬ ∀ boot hole, Merged boot hole := by
  intro always
  have kept := (always newKey (fun _ => 0)).marker 0 (by decide)
  exact absurd kept (by decide +kernel)

end Proof

end SmcPkg.OemActivation
