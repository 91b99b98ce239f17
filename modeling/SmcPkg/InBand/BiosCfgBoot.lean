import SmcPkg.InBand.BiosCfgRoundTrip
import SmcPkg.InBand.VarUpdate
import SmcPkg.InBand.SmiLaw

/-!
# Applying a staged image at boot

`InBandUpdateBiosCfg` looks for an image in the in-band region of the ROM hole. An image
whose flag says so is written to the variables, or the load of the defaults is armed; then
the region is erased and the system is reset. Neither of the checksums of the image is
looked at on this way.

The reads, writes and erases of the ROM hole, the pool and the variable services are inputs, and
each of them may fail. What the reset and the load of the defaults do is not covered.
`combineBiosCfg_verified` says that an image of `CombineBiosCfg` that fits the region is whole.
-/

namespace SmcPkg.BiosCfg

open Bytes Card Download RomHole

section Boot

/-- What the function works on: the ROM hole, the variable `SmcInBandLoadDefault`, and the
variable store. -/
structure System where
  hole : Memory
  armed : Bool
  store : Store

/-- What the function meets in a boot: the buffer and the read of the region, the statuses of
deleting and of setting `SmcInBandLoadDefault`, what the hole holds if the region is not
erased as asked, how many records the walk has the time for, the system it writes to, and what the
variable services answer for each record. -/
structure Boot where
  read : Upload.RegionRead
  deleteStatus : Status
  armStatus : Status
  left : Option Memory
  rounds : Nat
  table : PlatformVar
  raidDriver : Bool
  services : Nat → Services

/-- What the function has done: the records it has handed on, whether it has armed the load
of the defaults, and whether it has reset the system. -/
structure Booted where
  system : System
  walk : List Visit × Ending
  arms : Bool
  resets : Bool

/-- `Flag` of the header. -/
def headerFlag (buffer : Memory) : UInt8 := buffer 11

/-- The buffer holds an image that waits to be applied. -/
def waits (buffer : Memory) : Bool :=
  startsWith buffer binSignature && headerFlag buffer &&& 1 ≠ 0

/-- The image asks for the defaults. -/
def asksDefaults (buffer : Memory) : Bool := headerFlag buffer &&& 2 ≠ 0

/-- The hole after the in-band region was overwritten. -/
def eraseInBand (boot : Boot) (hole : Memory) : Memory :=
  boot.left.getD (writeRegion hole .inBand (fun _ => 0xFF))

/-- What follows the walk over the records. A walk that does not come to its end keeps the
boot. -/
def afterWalk (boot : Boot) (system : System) (walk : List Visit × Ending) : Booted :=
  match walk.2 with
  | .stopped _ => ⟨{ system with hole := eraseInBand boot system.hole }, walk, false, true⟩
  | _ => ⟨system, walk, false, false⟩

/-- The system after `SmcInBandLoadDefault` was deleted. -/
def disarm (boot : Boot) (system : System) : System :=
  { system with armed := system.armed && efiError boot.deleteStatus }

/-- `InBandUpdateBiosCfg`. -/
def inBandUpdateBiosCfg (boot : Boot) (system : System) : Booted :=
  let found := disarm boot system
  match boot.read.buffer noError system.hole .inBand with
  | none => ⟨found, ([], .running), false, false⟩
  | some buffer =>
    if waits buffer then
      if asksDefaults buffer then
        let armed := found.armed || !efiError boot.armStatus
        ⟨⟨eraseInBand boot system.hole, armed, system.store⟩, ([], .running), true, true⟩
      else
        let effects := applyImage boot.table boot.raidDriver boot.services buffer
          (boot.rounds + 1) system.store
        afterWalk boot { found with store := effects.store }
          (updateBiosCfgToSystem buffer (boot.rounds + 1))
    else ⟨found, ([], .running), false, false⟩

/-- Records are passed to `UpdateVariable` and, if it does not know them, to `CollectData`. A
name that does not fit its array is passed on behind the overrun. -/
def Booted.passes (booted : Booted) : Bool :=
  booted.walk.1 ≠ [] || booted.walk.2 = .overrun

end Boot

section Due

variable {boot : Boot} {system : System} {buffer : Memory}

/-- The records of an image start behind the header. -/
theorem updateBiosCfgToSystem_passes (rounds : Nat) :
    ((updateBiosCfgToSystem buffer (rounds + 1)).1 ≠ [] ∨
      (updateBiosCfgToSystem buffer (rounds + 1)).2 = .overrun) ↔
        18 < headerFileSize buffer + 18 := by
  rw [updateBiosCfgToSystem, updateLoop]
  by_cases more : 18 < headerFileSize buffer + 18
  · rw [if_pos more]
    by_cases fits : (buffer (18 : UInt32).toNat).toNat < nameCapacity
    · simp only [if_pos fits, more, iff_true]
      exact Or.inl (List.cons_ne_nil _ _)
    · simp only [if_neg fits, more, iff_true]
      exact Or.inr trivial
  · simp [more]

/-- What is done behind a walk keeps it. -/
theorem afterWalk_walk (boot : Boot) (system : System) (walk : List Visit × Ending) :
    (afterWalk boot system walk).walk = walk := by
  obtain ⟨visits, ending⟩ := walk
  cases ending with
  | running => rfl
  | overrun => rfl
  | stopped cursor => rfl

/-- A boot has passed something on exactly if it has visited a record or run over one. -/
theorem passes_iff (booted : Booted) :
    booted.passes = true ↔ booted.walk.1 ≠ [] ∨ booted.walk.2 = .overrun := by
  simp [Booted.passes]

/-- No image waits that could be read. -/
theorem inBandUpdateBiosCfg_idle
    (idle : ∀ buffer, boot.read.buffer noError system.hole .inBand = some buffer →
      waits buffer = false) :
    inBandUpdateBiosCfg boot system = ⟨disarm boot system, ([], .running), false, false⟩ := by
  rw [inBandUpdateBiosCfg]
  cases found : boot.read.buffer noError system.hole .inBand with
  | none => rfl
  | some buffer => simp only [idle buffer found, Bool.false_eq_true, if_false]

/-- An image that asks for the defaults. -/
theorem inBandUpdateBiosCfg_defaults
    (found : boot.read.buffer noError system.hole .inBand = some buffer)
    (waiting : waits buffer = true) (defaults : asksDefaults buffer = true) :
    inBandUpdateBiosCfg boot system =
      ⟨⟨eraseInBand boot system.hole, (disarm boot system).armed || !efiError boot.armStatus,
        system.store⟩, ([], .running), true, true⟩ := by
  simp only [inBandUpdateBiosCfg, found, waiting, defaults, if_true]

/-- An image that is applied. -/
theorem inBandUpdateBiosCfg_records
    (found : boot.read.buffer noError system.hole .inBand = some buffer)
    (waiting : waits buffer = true) (records : asksDefaults buffer = false) :
    ∃ store, inBandUpdateBiosCfg boot system =
      afterWalk boot { disarm boot system with store := store }
        (updateBiosCfgToSystem buffer (boot.rounds + 1)) := by
  simp only [inBandUpdateBiosCfg, found, waiting, records, if_true, Bool.false_eq_true, if_false]
  exact ⟨_, rfl⟩

/-- The function hands on records exactly when an image with records waits in the region. -/
theorem inBandUpdateBiosCfg_passes_iff :
    (inBandUpdateBiosCfg boot system).passes = true ↔
      ∃ buffer, boot.read.buffer noError system.hole .inBand = some buffer ∧
        waits buffer = true ∧ asksDefaults buffer = false ∧ 18 < headerFileSize buffer + 18 := by
  rw [passes_iff]
  by_cases idle : ∀ buffer, boot.read.buffer noError system.hole .inBand = some buffer →
      waits buffer = false
  · rw [inBandUpdateBiosCfg_idle idle]
    apply iff_of_false
    · simp
    · rintro ⟨buffer, found, waiting, -⟩
      exact Bool.noConfusion (waiting.symm.trans (idle buffer found))
  · obtain ⟨buffer, found, waiting⟩ : ∃ buffer,
        boot.read.buffer noError system.hole .inBand = some buffer ∧ waits buffer = true := by
      simpa using idle
    have same : ∀ other, boot.read.buffer noError system.hole .inBand = some other →
        other = buffer := fun other again => Option.some.inj (again.symm.trans found)
    cases defaults : asksDefaults buffer with
    | true =>
      rw [inBandUpdateBiosCfg_defaults found waiting defaults]
      apply iff_of_false
      · simp
      · rintro ⟨other, again, -, records, -⟩
        rw [same other again, defaults] at records
        exact Bool.noConfusion records
    | false =>
      obtain ⟨store, applied⟩ := inBandUpdateBiosCfg_records found waiting defaults
      rw [applied, afterWalk_walk, updateBiosCfgToSystem_passes]
      constructor
      · intro more
        exact ⟨buffer, found, waiting, defaults, more⟩
      · rintro ⟨other, again, -, -, more⟩
        rw [same other again] at more
        exact more

end Due

section Looks

variable {buffer other : Memory}

/-- What a boot looks at of an image lies in its first bytes. -/
theorem headerFileSize_congr (same : ∀ i < 12, buffer i = other i) :
    headerFileSize buffer = headerFileSize other := by
  rw [headerFileSize, headerFileSize, word32, word32, same 6 (by omega), same (6 + 1) (by omega),
    same (6 + 2) (by omega), same (6 + 3) (by omega)]

/-- Whether an image waits depends on its first bytes. -/
theorem waits_congr (same : ∀ i < 12, buffer i = other i) : waits buffer = waits other := by
  have signature : ∀ i < binSignature.length, buffer i = other i := by
    intro i below
    have length : binSignature.length = 4 := rfl
    exact same i (by omega)
  rw [waits, waits, headerFlag, headerFlag, same 11 (by omega), startsWith_congr signature]

/-- So does whether it asks for the defaults. -/
theorem asksDefaults_congr (same : ∀ i < 12, buffer i = other i) :
    asksDefaults buffer = asksDefaults other := by
  rw [asksDefaults, asksDefaults, headerFlag, headerFlag, same 11 (by omega)]

/-- The header of what was read is that of the region. -/
theorem overlay_same (hole pool : Memory) :
    ∀ i < 12, overlay (smcRomHoleSize .inBand) (readRegion hole .inBand) pool i =
      readRegion hole .inBand i := by
  intro i below
  have size : smcRomHoleSize .inBand = 12288 := rfl
  exact overlay_inside (by omega)

/-- They are the bytes of the region that was read. -/
theorem buffer_same {read : Upload.RegionRead} {hole : Memory}
    (found : read.buffer noError hole .inBand = some buffer) :
    ∀ i < 12, buffer i = readRegion hole .inBand i := by
  rw [Upload.RegionRead.buffer] at found
  cases taken : read.pool with
  | none =>
    simp [taken] at found
  | some pool =>
    simp only [taken] at found
    split_ifs at found
    rw [← Option.some.inj found]
    exact overlay_same hole pool

end Looks

section Verified

variable {boot : Boot} {system : System} {hole : Memory}

/-- The image in the in-band region is whole: it fits, and its checksums are those that
`CombineBiosCfg` computes. -/
structure Verified (hole : Memory) : Prop where
  fits : headerSize + (headerFileSize (readRegion hole .inBand)).toNat + 1 ≤
    smcRomHoleSize .inBand
  payload : byteSum (readRegion hole .inBand) headerSize
      (headerFileSize (readRegion hole .inBand)).toNat =
    headerChecksum (readRegion hole .inBand)
  trailing : byteSum (readRegion hole .inBand) 0
      (headerSize + (headerFileSize (readRegion hole .inBand)).toNat) =
    readRegion hole .inBand (headerSize + (headerFileSize (readRegion hole .inBand)).toNat)

/-- The layers of an image: the records, the header over them, and the last byte. -/
theorem combineBiosCfg_layers (version : UInt16) (vars : List EfiVar) (buffer : Memory) :
    ∃ data image, image =
        overlayAt 0 headerSize (memoryOf (biosCfgHeader version (payload vars).length
          (byteSum data headerSize (payload vars).length)) (fun _ => 0)) data ∧
      combineBiosCfg version vars buffer = setMem (headerSize + (payload vars).length) 1
        (byteSum image 0 (headerSize + (payload vars).length)) image :=
  ⟨_, _, rfl, rfl⟩

/-- The checksums of an image are those of its bytes. -/
theorem combineBiosCfg_checksums (version : UInt16) (vars : List EfiVar) (buffer : Memory) :
    headerChecksum (combineBiosCfg version vars buffer) =
        byteSum (combineBiosCfg version vars buffer) headerSize (payload vars).length ∧
      combineBiosCfg version vars buffer (headerSize + (payload vars).length) =
        byteSum (combineBiosCfg version vars buffer) 0 (headerSize + (payload vars).length) := by
  have header : headerSize = 18 := rfl
  obtain ⟨data, image, layer, whole⟩ := combineBiosCfg_layers version vars buffer
  have before : ∀ i < headerSize + (payload vars).length,
      combineBiosCfg version vars buffer i = image i := by
    intro i below
    rw [whole, setMem, overlayAt_outside (Or.inl below)]
  constructor
  · have checksum : headerChecksum (combineBiosCfg version vars buffer) =
        byteSum data headerSize (payload vars).length := by
      rw [headerChecksum, before 10 (by omega), layer, overlayAt_inside (by omega) (by omega)]
      rfl
    rw [checksum]
    apply byteSum_congr
    intro i below
    rw [before (headerSize + i) (by omega), layer, overlayAt_outside (Or.inr (by omega))]
  · have last : combineBiosCfg version vars buffer (headerSize + (payload vars).length) =
        byteSum image 0 (headerSize + (payload vars).length) := by
      rw [whole, setMem, overlayAt_inside (by omega) (by omega)]
    rw [last]
    apply byteSum_congr
    intro i below
    rw [Nat.zero_add, before i below]

/-- What `CombineBiosCfg` writes is whole, if it fits the region. -/
theorem combineBiosCfg_verified {version : UInt16} {vars : List EfiVar} {buffer : Memory}
    (fits : headerSize + (payload vars).length + 1 ≤ smcRomHoleSize .inBand)
    (stored : ∀ i < headerSize + (payload vars).length + 1,
      readRegion hole .inBand i = combineBiosCfg version vars buffer i) :
    Verified hole := by
  have region : smcRomHoleSize .inBand = 12288 := rfl
  have header : headerSize = 18 := rfl
  obtain ⟨checksum, last⟩ := combineBiosCfg_checksums version vars buffer
  have fileSize : headerFileSize (readRegion hole .inBand) =
      headerFileSize (combineBiosCfg version vars buffer) :=
    headerFileSize_congr (fun i below => stored i (by omega))
  have size : (headerFileSize (readRegion hole .inBand)).toNat = (payload vars).length := by
    rw [fileSize, combineBiosCfg_fileSize]
    exact UInt32.toNat_ofNat_of_lt' (show _ < 2 ^ 32 by omega)
  constructor
  · rw [size]
    exact fits
  · rw [size, headerChecksum, stored 10 (by omega)]
    rw [headerChecksum] at checksum
    rw [checksum]
    apply byteSum_congr
    intro i below
    exact stored (headerSize + i) (by omega)
  · rw [size, stored (headerSize + (payload vars).length) (by omega), last]
    apply byteSum_congr
    intro i below
    exact stored (0 + i) (by omega)

/-- An image with records in the in-band region is read and waits to be applied. -/
structure Due (boot : Boot) (hole : Memory) : Prop where
  pool : boot.read.pool.isSome = true
  read : noError boot.read.status = true
  waiting : waits (readRegion hole .inBand) = true
  records : asksDefaults (readRegion hole .inBand) = false
  more : 18 < headerFileSize (readRegion hole .inBand) + 18

/-- An image is due exactly if the read has brought its header, it waits, and it has records. -/
theorem due_iff :
    (∃ buffer, boot.read.buffer noError hole .inBand = some buffer ∧
      waits buffer = true ∧ asksDefaults buffer = false ∧ 18 < headerFileSize buffer + 18) ↔
        Due boot hole := by
  rw [Upload.RegionRead.buffer]
  cases taken : boot.read.pool with
  | none =>
    apply iff_of_false
    · simp
    · intro due
      have some := due.pool
      rw [taken] at some
      exact Bool.noConfusion some
  | some pool =>
    have same := overlay_same hole pool
    by_cases read : noError boot.read.status = true
    · simp only [if_pos read, Option.some.injEq, exists_eq_left', waits_congr same,
        asksDefaults_congr same, headerFileSize_congr same]
      constructor
      · rintro ⟨waiting, records, more⟩
        exact ⟨by rw [taken]; rfl, read, waiting, records, more⟩
      · rintro ⟨-, -, waiting, records, more⟩
        exact ⟨waiting, records, more⟩
    · apply iff_of_false
      · simp [read]
      · exact fun due => read due.read

/-- Only whole images are applied exactly as far as what waits in the region is whole: nothing on the
way through a boot makes sure of it. The boot and the contents of the region are arbitrary, so
this covers every way in which the region may have been filled. -/
theorem passes_verified_iff (boot : Boot) (system : System) :
    ((inBandUpdateBiosCfg boot system).passes = true → Verified system.hole) ↔
      ¬ Due boot system.hole ∨ Verified system.hole := by
  rw [inBandUpdateBiosCfg_passes_iff, due_iff, imp_iff_not_or]

end Verified

section Staged

open Smi

/-- A file with one record, whose checksum is not the one of the record. -/
def corruptFile : List UInt8 :=
  binSignature ++ ([1, 0] ++ (le32 20 ++ ([0, 1, 0, 0, 0, 0, 0, 0] ++
    (1 :: 0x41 :: List.replicate 18 0))))

/-- A request to stage the file, with the file in the communication buffer. -/
def corruptSpace : Space :=
  store
    (fun place =>
      memoryOf [17, 0, 1, 0, 0, 0, 0, 0, 0, 0, 0x20, 0, 0, 0, 0, 0, 0] (fun _ => 0)
        (place - 0x1000).toNat)
    0x2000 38 (memoryOf corruptFile (fun _ => 0))

/-- The memory after `ReturnStatus` was cleared. -/
def corruptCleared : Space := setReturnStatus corruptSpace 0x1000 0

/-- The corrupt image of the example gets into the region through the handler. -/
theorem corrupt_staged (hole : Memory) :
    (smcInBandSwSmiE6Handler lowMemoryHandler ⟨0, 0x1000, 0, efiSuccess⟩ corruptSpace hole).2.hole =
      writeRegion hole .inBand (view corruptCleared 0x2000) := by
  have header : Call.commBuff ⟨0, 0x1000, 0, efiSuccess⟩ = 0x1000 := by decide
  have accepted : efiError (lowMemoryHandler.validate 0x1000 communicationBufferSize) = false := by
    simp [lowMemoryHandler, communicationBufferSize]
    decide
  have download : view corruptSpace 0x1000 2 = 1 := by decide
  have fileType : view corruptSpace 0x1000 7 = 0 := by decide
  have data : dataBufferAddress corruptCleared 0x1000 = 0x2000 := by decide
  have length : headerFileSize (view corruptCleared 0x2000) + 18 + 1 = 39 := by decide
  have small : (39 : UInt32).toNat ≤ smcRomHoleSize .inBand := by
    simp [smcRomHoleSize]
  rw [handler_accepted (by decide) (by rw [header]; exact accepted), header, runCommand,
    if_pos download, fileType, downloadDataFromRAM, downloadBranch, if_pos rfl, stageFile]
  change Outcome.hole (if (headerFileSize (view corruptCleared
    (dataBufferAddress corruptCleared 0x1000)) + 18 + 1).toNat ≤ _ then _ else _) = _
  rw [data, length, if_pos small]
  rfl

/-- The file is applied at the next boot. -/
theorem not_verified_corrupt :
    ¬ ∀ handler call space hole boot armed store,
      (inBandUpdateBiosCfg boot
        ⟨(smcInBandSwSmiE6Handler handler call space hole).2.hole, armed, store⟩).passes = true →
      Verified (smcInBandSwSmiE6Handler handler call space hole).2.hole := by
  intro verified
  have image := verified lowMemoryHandler ⟨0, 0x1000, 0, efiSuccess⟩ corruptSpace (fun _ => 0xFF)
    ⟨⟨some (fun _ => 0), efiSuccess⟩, efiSuccess, efiSuccess, none, 1, ⟨[], by simp, by decide⟩,
      false, fun _ => Services.working⟩ false ⟨fun _ => none, by simp⟩
  rw [corrupt_staged, inBandUpdateBiosCfg_passes_iff, due_iff] at image
  have region : ∀ i < 12288,
      readRegion (writeRegion (fun _ => 0xFF) .inBand (view corruptCleared 0x2000)) .inBand i =
        view corruptCleared 0x2000 i := by
    intro i below
    exact readRegion_writeRegion below
  have looks : ∀ i < 12, _ := fun i below => region i (show i < 12288 by omega)
  have size := headerFileSize_congr looks
  have whole : Verified _ := image
    { pool := rfl
      read := by decide
      waiting := by
        rw [waits_congr looks]
        decide
      records := by
        rw [asksDefaults_congr looks]
        decide
      more := by
        rw [size]
        decide }
  have twenty : (headerFileSize (view corruptCleared 0x2000)).toNat = 20 := by decide
  have payload := whole.payload
  rw [size, twenty, headerChecksum, region 10 (by omega)] at payload
  rw [byteSum_congr (fun i below => region (headerSize + i)
    (by have header : headerSize = 18 := rfl; omega))] at payload
  exact absurd payload (by decide)

end Staged

end SmcPkg.BiosCfg
