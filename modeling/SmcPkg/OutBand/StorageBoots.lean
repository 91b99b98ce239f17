import SmcPkg.OutBand.DownloadStore

/-!
# The BIOS storage over several boots

A boot restores the BIOS storage when the signature is missing in the SMBIOS region.
The signature that the next boot looks for is the one that the restored image brings
along: the function writes it itself only when the user gives the region up.

Each boot has replies and statuses of its own, and an image may be offered in any of them. The
check of the signature reads what the boots before have left.
-/

namespace SmcPkg.Download

open Bytes Card RomHole

section Boots

/-- A boot: what `DownloadBiosStorageFromBmc` finds and is told, and how its writes end.
A write that fails leaves something else in its region. -/
structure Boot where
  pool : Option Memory
  readStatus : Status
  bakerville : Bool
  replies : Replies
  outcome : Nat → Option Memory

/-- What a boot asks and writes. -/
def Boot.events (boot : Boot) (hole : Memory) : List Event :=
  downloadBiosStorageFromBmc boot.pool ⟨hole, boot.readStatus, boot.bakerville⟩ boot.replies

/-- The user's flags, as the BMC tells them. -/
def Boot.flashFlag (boot : Boot) : UInt8 := boot.replies.preservation.responseStatus

/-- The ROM hole after the writes of some events, with the number of the next write. -/
def applyWrites (outcome : Nat → Option Memory) : Nat → List Event → Memory → Memory
  | _, [], hole => hole
  | k, .write region data :: rest, hole =>
    applyWrites outcome (k + 1) rest (writeRegion hole region ((outcome k).getD data))
  | k, _ :: rest, hole => applyWrites outcome k rest hole

/-- The ROM hole after a boot. -/
def Boot.run (boot : Boot) (hole : Memory) : Memory :=
  applyWrites boot.outcome 0 (boot.events hole) hole

/-- The ROM hole after some boots. -/
def holeAfter (hole : Memory) (boots : List Boot) : Memory :=
  boots.foldl (fun hole boot => boot.run hole) hole

/-- A boot has restored the three regions with both preserve flags set, and has cleared
the flash flag. -/
structure Restored (hole : Memory) (boot : Boot) : Prop where
  smbios : preserveSmbios boot.flashFlag = true
  oa : preserveOa boot.flashFlag = true
  written : ∀ region ∈ [Region.smbiosForBmc, .oa3, .oa2],
    ∃ data, Event.write region data ∈ boot.events hole
  took : ∀ k, boot.outcome k = none
  cleared : Event.preservation 1 boot.flashFlag ∈ boot.events hole

/-- Once the regions have been restored, no later boot writes them again. -/
def StaysPreserved (hole : Memory) (boots : List Boot) : Prop :=
  ∀ earlier boot later next rest, boots = earlier ++ boot :: (later ++ next :: rest) →
    Restored (holeAfter hole earlier) boot →
      NoWrite (next.events (holeAfter hole (earlier ++ boot :: later)))

/-- The SMBIOS region can be read, and an image that is verified for a user who keeps the
region brings the signature along. -/
structure KeepsSignature (boot : Boot) : Prop where
  readable : boot.readStatus = efiSuccess
  carried : ∀ buffer, boot.pool = some buffer →
    ∀ n, IsLast (biosStorageKind boot.replies) boot.replies (clearedPool buffer) n →
      VerifiedAt (biosStorageKind boot.replies) boot.replies (clearedPool buffer) n →
        preserveSmbios boot.flashFlag = true →
          startsWith (readRegion (boot.replies.read n).data .smbiosForBmc) smcSignature = true

/-- The signature is in the ROM hole. -/
def Signed (hole : Memory) : Prop :=
  startsWith (readRegion hole .smbiosForBmc) smcSignature = true

end Boots

section Step

variable {boot : Boot} {hole : Memory}

/-- A boot that finds the signature does nothing. -/
theorem events_signed (readable : boot.readStatus = efiSuccess) (signed : Signed hole) :
    boot.events hole = [] := by
  have seen : StorageEnv.signed ⟨hole, boot.readStatus, boot.bakerville⟩ = true := by
    rw [Signed] at signed
    simp [StorageEnv.signed, readable, signed]
  rw [Boot.events]
  cases boot.pool with
  | none => rfl
  | some buffer => exact if_pos seen

/-- With a signed image in the region a boot changes nothing. -/
theorem run_signed (readable : boot.readStatus = efiSuccess) (signed : Signed hole) :
    boot.run hole = hole := by
  rw [Boot.run, events_signed readable signed, applyWrites]

/-- Writes that all take effect. -/
theorem applyWrites_noWrite {outcome : Nat → Option Memory} {events rest : List Event} {k : Nat}
    (none : NoWrite events) :
    applyWrites outcome k (events ++ rest) hole = applyWrites outcome k rest hole := by
  induction events with
  | nil => rfl
  | cons event events inductionHypothesis =>
    have later : NoWrite events := fun region data member =>
      none region data (List.mem_cons_of_mem event member)
    cases event with
    | write region data => exact absurd List.mem_cons_self (none region data)
    | start reply => exact inductionHypothesis later
    | read size reply => exact inductionHypothesis later
    | checksum passed => exact inductionHypothesis later
    | preservation operation flashFlag => exact inductionHypothesis later
    | done result status => exact inductionHypothesis later

/-- A boot that has restored the regions: the image was verified, and the BMC told the
flags. -/
theorem Restored.verified (restored : Restored hole boot) :
    ∃ buffer n, boot.pool = some buffer ∧
      StorageEnv.signed ⟨hole, boot.readStatus, boot.bakerville⟩ = false ∧
      IsLast (biosStorageKind boot.replies) boot.replies (clearedPool buffer) n ∧
      VerifiedAt (biosStorageKind boot.replies) boot.replies (clearedPool buffer) n ∧
      boot.replies.preservation.status = efiSuccess := by
  obtain ⟨data, member⟩ := restored.written .oa3 (by simp)
  rw [Boot.events] at member
  cases allocated : boot.pool with
  | none => simp [allocated, downloadBiosStorageFromBmc] at member
  | some buffer =>
    rw [allocated] at member
    have unsigned : StorageEnv.signed ⟨hole, boot.readStatus, boot.bakerville⟩ = false := by
      by_contra signed
      rw [downloadBiosStorageFromBmc, if_pos (by simpa using signed)] at member
      simp at member
    obtain ⟨n, last, -⟩ := download_last (biosStorageKind boot.replies) boot.replies
      (clearedPool buffer)
    refine ⟨buffer, n, rfl, unsigned, last, ?_⟩
    by_cases verified : VerifiedAt (biosStorageKind boot.replies) boot.replies (clearedPool buffer) n
    · refine ⟨verified, ?_⟩
      by_contra refused
      rw [storage_verified unsigned last verified] at member
      rcases List.mem_append.mp member with front | tail
      · exact storage_events_noWrite last _ _ front
      · simp only [restoring, restoreRegions, if_neg refused] at tail
        by_cases platform : boot.bakerville = true <;> simp [platform] at tail
    · exact absurd member (storage_failed_noWrite unsigned last verified _ _)

/-- The first bytes of the SMBIOS region of an image do not change when it is marked. -/
theorem smbiosPart_front {flashFlag : UInt8} {image : Memory} {i : Nat}
    (keeps : preserveSmbios flashFlag = true) (inside : i < smcSignature.length) :
    readRegion (smbiosPart flashFlag image) .smbiosForBmc i = readRegion image .smbiosForBmc i := by
  have four : smcSignature.length = 4 := rfl
  rw [smbiosPart, if_pos keeps, readRegion, readRegion, shifted, shifted, setMem]
  exact overlayAt_outside (Or.inl (by omega))

/-- What is written when both flags are set. -/
theorem restoring_preserved (env : StorageEnv) (replies : Replies) (image : Memory)
    (success : replies.preservation.status = efiSuccess)
    (keeps : preserveOa replies.preservation.responseStatus = true) :
    restoring env replies image =
      let part := smbiosPart replies.preservation.responseStatus image
      [Event.preservation 0 0, Event.write .smbiosForBmc (readRegion part .smbiosForBmc),
        Event.write .oa3 (readRegion part .oa3), Event.write .oa2 (readRegion part .oa2),
        Event.preservation 1 replies.preservation.responseStatus] ++
          if env.bakerville then [Event.write .full part] else [] := by
  simp [restoring, restoreRegions, success, oaPart, keeps]

/-- After a boot that has restored the regions, the signature is there exactly when the
image carries it. -/
theorem run_restored (restored : Restored hole boot) :
    ∃ buffer n, boot.pool = some buffer ∧
      IsLast (biosStorageKind boot.replies) boot.replies (clearedPool buffer) n ∧
      VerifiedAt (biosStorageKind boot.replies) boot.replies (clearedPool buffer) n ∧
      startsWith (readRegion (boot.run hole) .smbiosForBmc) smcSignature =
        startsWith (readRegion (boot.replies.read n).data .smbiosForBmc) smcSignature := by
  obtain ⟨buffer, n, allocated, unsigned, last, verified, success⟩ := restored.verified
  have size := (verified_image verified).1
  have read : noError (boot.replies.read n).status = true := by
    rw [(verified_image verified).2.1]
    decide
  refine ⟨buffer, n, allocated, last, verified, ?_⟩
  apply startsWith_congr
  intro i inside
  have four : smcSignature.length = 4 := rfl
  have image : readRegion (imageAt boot.replies buffer n) .smbiosForBmc i =
      readRegion (boot.replies.read n).data .smbiosForBmc i := by
    have offset : smcRomHoleOffset .smbiosForBmc = 4096 := rfl
    apply filled_inside read
    rw [size, romHoleSize]
    omega
  have front : readRegion (smbiosPart boot.flashFlag (imageAt boot.replies buffer n))
      .smbiosForBmc i = readRegion (imageAt boot.replies buffer n) .smbiosForBmc i :=
    smbiosPart_front restored.smbios inside
  have within : i < smcRomHoleSize .smbiosForBmc := by
    have region : smcRomHoleSize .smbiosForBmc = 4096 := rfl
    omega
  rw [← image, ← front, Boot.run, Boot.events, allocated, storage_verified unsigned last verified,
    applyWrites_noWrite (storage_events_noWrite last), restoring_preserved _ _ _ success
      restored.oa]
  by_cases platform : boot.bakerville = true
  · simp only [platform, applyWrites, restored.took, Option.getD_none, if_true, List.cons_append,
      List.nil_append]
    exact readRegion_writeFull within
  · simp only [platform, applyWrites, restored.took, Option.getD_none, if_false, List.cons_append,
      List.nil_append, Bool.false_eq_true]
    rw [readRegion_apart (by simp [Apart, smcRomHoleOffset, smcRomHoleSize]) within,
      readRegion_apart (by simp [Apart, smcRomHoleOffset, smcRomHoleSize]) within,
      readRegion_writeRegion within]
    rfl

/-- An image that carries the signature brings it into the ROM hole. -/
theorem run_restored_signed (keeps : KeepsSignature boot) (restored : Restored hole boot) :
    Signed (boot.run hole) := by
  obtain ⟨buffer, n, allocated, last, verified, same⟩ := run_restored restored
  rw [Signed, same]
  exact keeps.carried buffer allocated n last verified restored.smbios

end Step

section Run

/-- Boots that find the signature leave it there. -/
theorem holeAfter_signed {boots : List Boot} {hole : Memory}
    (keeps : ∀ boot ∈ boots, KeepsSignature boot) (signed : Signed hole) :
    holeAfter hole boots = hole := by
  induction boots with
  | nil => rfl
  | cons boot boots inductionHypothesis =>
    rw [holeAfter, List.foldl_cons, run_signed (keeps boot List.mem_cons_self).readable signed]
    exact inductionHypothesis (fun boot member => keeps boot (List.mem_cons_of_mem _ member))

/-- Boots follow each other. -/
theorem holeAfter_append {earlier later : List Boot} {hole : Memory} :
    holeAfter hole (earlier ++ later) = holeAfter (holeAfter hole earlier) later :=
  List.foldl_append

/-- In every sequence of boots whose regions can be read and whose verified images carry the
signature, what was preserved stays preserved: after a boot that has restored the regions no boot
writes them. Writes may fail at all other boots and leave anything behind. -/
theorem boots_stay_preserved (hole : Memory) (boots : List Boot)
    (keeps : ∀ boot ∈ boots, KeepsSignature boot) : StaysPreserved hole boots := by
  rintro earlier boot later next rest rfl restored
  have signed : Signed (boot.run (holeAfter hole earlier)) :=
    run_restored_signed (keeps boot (by simp)) restored
  have between : ∀ boot ∈ later, KeepsSignature boot :=
    fun boot member => keeps boot (by simp [member])
  have same : holeAfter hole (earlier ++ boot :: later) = boot.run (holeAfter hole earlier) := by
    rw [holeAfter_append]
    exact holeAfter_signed between signed
  rw [same, events_signed (keeps next (by simp)).readable signed]
  intro region data member
  simp at member

end Run

section Offers

variable {image hole : Memory} {flashFlag : UInt8}

/-- A BMC that hands out an image at once. -/
def offering (image : Memory) (flashFlag : UInt8) : Replies where
  start _ := ⟨efiSuccess, 0x10000, 1⟩
  ready _ _ := ⟨efiSuccess, some 2⟩
  read _ := ⟨efiSuccess, image⟩
  done := efiSuccess
  preservation := ⟨efiSuccess, flashFlag⟩

/-- A boot with such a BMC in which nothing else goes wrong. -/
def bootWith (image : Memory) (flashFlag : UInt8) : Boot where
  pool := some (fun _ => 0)
  readStatus := efiSuccess
  bakerville := false
  replies := offering image flashFlag
  outcome _ := none

/-- An image with its sum is verified at the first attempt. -/
theorem offering_verified (matched : byteSum image 0 65535 = image 65535) (buffer : Memory) :
    Verified (biosStorageKind (offering image flashFlag)) (offering image flashFlag) 0 buffer := by
  refine ⟨⟨rfl, rfl, rfl⟩, rfl, rfl, ?_⟩
  have count : ((0x10000 : UInt32) - 1).toNat = 65535 := rfl
  have size : ((offering image flashFlag).start 0).fileSize = 0x10000 := rfl
  have passed : lastByteChecksum (filled (offering image flashFlag) 0 buffer)
      ((offering image flashFlag).start 0).fileSize = true := by
    have read : noError ((offering image flashFlag).read 0).status = true := by
      change noError efiSuccess = true
      decide
    have inside : ∀ i, i < 0x10000 → filled (offering image flashFlag) 0 buffer i = image i :=
      fun i below => filled_inside read below
    rw [size, lastByteChecksum, count, inside 65535 (by decide), ← matched]
    simp only [decide_eq_true_eq]
    apply byteSum_congr
    intro i below
    rw [Nat.zero_add]
    exact inside i (by omega)
  exact passed

/-- So the first attempt is the last one. -/
theorem offering_last (matched : byteSum image 0 65535 = image 65535) (pool : Memory) :
    IsLast (biosStorageKind (offering image flashFlag)) (offering image flashFlag) pool 0 := by
  refine ⟨by omega, by omega, Or.inr ?_⟩
  intro goes
  exact goes.1 (offering_verified matched pool)

/-- The boot restores from the image when the signature is missing. -/
theorem bootWith_events (matched : byteSum image 0 65535 = image 65535)
    (unsigned : startsWith (readRegion hole .smbiosForBmc) smcSignature = false) :
    ∃ front, NoWrite front ∧ (bootWith image flashFlag).events hole = front ++
      (restoring ⟨hole, efiSuccess, false⟩ (offering image flashFlag)
        (imageAt (offering image flashFlag) (fun _ => 0) 0) ++ [Event.done 0 efiSuccess]) := by
  have bare : StorageEnv.signed ⟨hole, efiSuccess, false⟩ = false := by
    simp [StorageEnv.signed, unsigned]
  exact ⟨_, storage_events_noWrite (offering_last matched _),
    storage_verified bare (offering_last matched _) (offering_verified matched _)⟩

/-- A boot puts the offered image into an unsigned region. -/
theorem bootWith_restored (matched : byteSum image 0 65535 = image 65535)
    (unsigned : startsWith (readRegion hole .smbiosForBmc) smcSignature = false) :
    Restored hole (bootWith image 3) := by
  obtain ⟨front, -, events⟩ : ∃ front, NoWrite front ∧ (bootWith image 3).events hole = _ :=
    bootWith_events matched unsigned
  have both : preserveSmbios 3 = true ∧ preserveOa 3 = true := by decide
  rw [restoring_preserved _ (offering image 3) _ rfl both.2] at events
  refine ⟨both.1, both.2, ?_, fun _ => rfl, ?_⟩
  · intro region member
    refine ⟨readRegion (smbiosPart 3 (imageAt (offering image 3) (fun _ => 0) 0)) region, ?_⟩
    rw [events]
    apply List.mem_append_right
    simp only [List.mem_cons, List.not_mem_nil, or_false] at member
    rcases member with rfl | rfl | rfl <;> simp [offering]
  · rw [events]
    exact List.mem_append_right _ (by simp [Boot.flashFlag, bootWith])

/-- An image with keys, and with what stands between the keys and the last byte. -/
def sampleImage (header : List UInt8) (checksum : UInt8) : Memory := fun i =>
  if i < 4096 then 0x4B
  else if i = 65535 then checksum
  else header[i - 4096]?.getD 0xFF

/-- An image whose SMBIOS region was never used. -/
def bareImage : Memory := sampleImage [] 0x01

/-- An image whose SMBIOS region has the signature. -/
def signedImage : Memory := sampleImage smcSignature 0x0C

/-- The image without a signature has its sum. -/
theorem bareImage_matched : byteSum bareImage 0 65535 = bareImage 65535 := by
  have keys : byteSum bareImage 0 4096 = UInt8.ofNat 4096 * 0x4B :=
    byteSum_const (fun i below => if_pos (by omega))
  have rest : byteSum bareImage 4096 61439 = UInt8.ofNat 61439 * 0xFF := by
    apply byteSum_const
    intro i below
    rw [bareImage, sampleImage, if_neg (by omega), if_neg (by omega)]
    rfl
  rw [show 65535 = 4096 + 61439 by rfl, byteSum_append, keys, rest]
  decide

/-- So has the one with a signature. -/
theorem signedImage_matched : byteSum signedImage 0 65535 = signedImage 65535 := by
  have keys : byteSum signedImage 0 4096 = UInt8.ofNat 4096 * 0x4B :=
    byteSum_const (fun i below => if_pos (by omega))
  have rest : byteSum signedImage 4100 61435 = UInt8.ofNat 61435 * 0xFF := by
    apply byteSum_const
    intro i below
    rw [signedImage, sampleImage, if_neg (by omega), if_neg (by omega), List.getElem?_eq_none]
    · rfl
    · have four : smcSignature.length = 4 := rfl
      omega
  rw [show 65535 = 4096 + 4 + 61435 by rfl, byteSum_append, byteSum_append, keys, rest]
  decide

/-- Keys that were restored for a user who keeps them are erased by the next boot, because
the restored image has no signature. -/
theorem not_staysPreserved_bare :
    (∃ data, Event.write .oa2 data ∈
        (bootWith bareImage 0).events ((bootWith bareImage 3).run (fun _ => 0xFF)) ∧
        ∀ i < smcRomHoleSize .oa2, data i = 0xFF) ∧
      ¬ StaysPreserved (fun _ => 0xFF) [bootWith bareImage 3, bootWith bareImage 0] := by
  have restored : Restored (fun _ => 0xFF) (bootWith bareImage 3) :=
    bootWith_restored bareImage_matched rfl
  obtain ⟨-, n, -, -, -, same⟩ := run_restored restored
  have bare : startsWith (readRegion bareImage .smbiosForBmc) smcSignature = false := rfl
  obtain ⟨front, -, events⟩ : ∃ front, NoWrite front ∧ (bootWith bareImage 0).events
      ((bootWith bareImage 3).run (fun _ => 0xFF)) = _ :=
    bootWith_events bareImage_matched (same.trans bare)
  have given : preserveOa 0 = false := by decide
  have erased : ∃ data, Event.write .oa2 data ∈
      (bootWith bareImage 0).events ((bootWith bareImage 3).run (fun _ => 0xFF)) ∧
      ∀ i < smcRomHoleSize .oa2, data i = 0xFF := by
    refine ⟨readRegion (oaPart 0 (smbiosPart 0 (imageAt (offering bareImage 0) (fun _ => 0) 0)))
      .oa2, ?_, ?_⟩
    · rw [events]
      apply List.mem_append_right
      simp [restoring, restoreRegions, offering]
    · intro i inside
      rw [oaPart, if_neg (by simp [given]), readRegion, shifted, clearRegion, setMem,
        overlayAt_inside (by omega) (by omega)]
  refine ⟨erased, ?_⟩
  intro stays
  obtain ⟨data, member, -⟩ := erased
  have none := stays [] (bootWith bareImage 3) [] (bootWith bareImage 0) [] rfl restored
  rw [List.nil_append, holeAfter, List.foldl_cons, List.foldl_nil] at none
  exact none .oa2 data member

/-- With an image that carries the signature the keys stay. -/
theorem boots_stay_preserved_signed :
    Restored (fun _ => 0xFF) (bootWith signedImage 3) ∧
      StaysPreserved (fun _ => 0xFF) [bootWith signedImage 3, bootWith signedImage 0] := by
  constructor
  · exact bootWith_restored signedImage_matched rfl
  · apply boots_stay_preserved
    intro boot member
    simp only [List.mem_cons, List.not_mem_nil, or_false] at member
    rcases member with rfl | rfl
    · exact ⟨rfl, fun _ _ _ _ _ _ => rfl⟩
    · exact ⟨rfl, fun _ _ _ _ _ _ => rfl⟩

end Offers

end SmcPkg.Download
