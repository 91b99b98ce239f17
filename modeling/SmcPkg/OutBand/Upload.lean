import SmcPkg.OutBand.Download

/-!
# Uploads to the BMC

Five functions send a file to the BMC: the BIOS configuration, the SMBIOS file, the HII
database, the full SMBIOS table and the BIOS storage. Each compares the digest of the
file with the one stored for the last upload, and sends the file in up to three attempts
of three steps: prepare, start, done. The digest is stored when the last step succeeds.

The digest function is a parameter. The copies that the BMC holds, and the files that it
has acknowledged, are part of the world beside the variables.
-/

namespace SmcPkg.Upload

open Bytes Card RomHole Download

section Data

/-- The files with a digest, by their type. -/
inductive FileType
  | hii
  | bin
  | dmi
  | fullSmbios
  | biosStorage
  deriving DecidableEq, Repr

/-- `OOB_FILE_TYPE_HII` and its siblings. -/
def FileType.code : FileType → UInt32
  | .hii => 0
  | .bin => 1
  | .dmi => 2
  | .fullSmbios => 3
  | .biosStorage => 8

/-- The variable that holds the digest. -/
def FileType.variableName : FileType → String
  | .hii => "SMCOOBHII"
  | .bin => "SMCBIOSBIN"
  | .dmi => "SMCSMBIOS"
  | .fullSmbios => "SMCFULLSM"
  | .biosStorage => "SMCBIOSSTORAGE"

/-- The bytes of a file. -/
abbrev Image := List UInt8

/-- A digest of `MD5_DIGEST_SIZE` bytes. -/
abbrev Digest := Vector UInt8 16

/-- What outlasts a boot: the digests in the variables, the copies of the BMC, and for
each type the file that was acknowledged last. -/
structure World where
  nvram : String → Option Digest
  bmc : FileType → Option Image
  acknowledged : FileType → Option Image

/-- The BMC takes a file over. -/
def World.acknowledge (world : World) (type : FileType) (image : Image) : World :=
  { world with
    bmc := Function.update world.bmc type (some image)
    acknowledged := Function.update world.acknowledged type (some image) }

/-- `SetVariable` for a digest. -/
def World.setVariable (world : World) (name : String) (digest : Digest) (status : Status) : World :=
  if efiError status then world
  else { world with nvram := Function.update world.nvram name (some digest) }

end Data

section Protocol

/-- One poll of `DataToBMCDone`. -/
structure DonePoll where
  status : Status
  checksumStatus : UInt8

/-- How the steps of an attempt end. -/
structure AttemptReply where
  prepare : Status
  start : Status
  located : Bool
  polls : Nat → DonePoll

/-- What a call meets: the status of reading the old digest, the attempts, and the status
of storing the new digest. -/
structure Exchange where
  getStatus : Status
  attempts : Nat → AttemptReply
  setStatus : Status

/-- `EFI_ABORTED`. -/
def efiAborted : Status := 0x8000000000000015

/-- `EFI_NOT_READY`. -/
def efiNotReady : Status := 0x8000000000000006

/-- The loop of `DataToBMCDone`, with the retries left and the poll. -/
def donePolls (polls : Nat → DonePoll) : Nat → Nat → Status
  | 0, _ => efiAborted
  | commandRetry + 1, poll =>
    if (polls poll).status = efiSuccess then
      if (polls poll).checksumStatus = 2 then efiSuccess
      else if (polls poll).checksumStatus = 1 then efiAborted
      else donePolls polls commandRetry (poll + 1)
    else donePolls polls commandRetry (poll + 1)

/-- `DataToBMCDone`, which `UploadOobDataDone` calls. -/
def dataToBMCDone (reply : AttemptReply) : Status :=
  if reply.located then donePolls reply.polls (20 * 3) 0 else efiNotReady

/-- What the five functions share: the test for success, the type, and the file as it is
digested and as it is sent. -/
structure Job where
  succeeds : Status → Bool
  type : FileType
  digested : Image
  uploaded : Image

/-- The loop over the attempts, with the retries left and the attempt. The BMC takes the
file over when it acknowledges the last step. -/
def uploadAttempts (job : Job) (md5Support : Bool) (digest : Digest) (exchange : Exchange) :
    Nat → Nat → World → World
  | 0, _, world => world
  | fileRetry + 1, attempt, world =>
    let reply := exchange.attempts attempt
    if job.succeeds reply.prepare then
      if job.succeeds reply.start then
        let status := dataToBMCDone reply
        let told := if status = efiSuccess then world.acknowledge job.type job.uploaded else world
        if job.succeeds status then
          if md5Support then told.setVariable job.type.variableName digest exchange.setStatus
          else told
        else uploadAttempts job md5Support digest exchange fileRetry (attempt + 1) told
      else uploadAttempts job md5Support digest exchange fileRetry (attempt + 1) world
    else uploadAttempts job md5Support digest exchange fileRetry (attempt + 1) world

/-- `GetVariable` for a digest. -/
def getVariable (world : World) (name : String) (succeeds : Bool) : Option Digest :=
  if succeeds then world.nvram name else none

/-- The fields of `OobConfigurations` that the uploads read. -/
structure OobConfigurations where
  md5Support : Bool
  oobFileStatus0 : UInt32

/-- The BMC reports that it has the file. -/
def OobConfigurations.available (policy : OobConfigurations) (type : FileType) : Bool :=
  policy.oobFileStatus0 &&& (1 <<< type.code) ≠ 0

/-- How a call ends: there is no file, the upload is skipped, or it is attempted. -/
inductive Outcome
  | absent
  | skipped
  | attempted
  deriving DecidableEq, Repr

/-- What the five functions do with a file. -/
def uploadFile (md5 : Image → Digest) (policy : OobConfigurations) (job : Job)
    (exchange : Exchange) (world : World) : Outcome × World :=
  let digest := md5 job.digested
  if policy.md5Support && policy.available job.type &&
      getVariable world job.type.variableName (job.succeeds exchange.getStatus) = some digest then
    (.skipped, world)
  else (.attempted, uploadAttempts job policy.md5Support digest exchange 3 0 world)

/-- A call, which may find no file. -/
def uploadJob (md5 : Image → Digest) (policy : OobConfigurations) (job : Option Job)
    (exchange : Exchange) (world : World) : Outcome × World :=
  match job with
  | none => (.absent, world)
  | some job => uploadFile md5 policy job exchange world

end Protocol

section Functions

/-- `SMC_OOB_SMRAM_HII_OFFSET`. -/
def smramHiiOffset : Nat := 0

/-- `SMC_OOB_SMRAM_FULL_SMBIOS_OFFSET`. -/
def smramFullSmbiosOffset : Nat := smramHiiOffset + 384 * 1024

/-- `SMC_OOB_SMRAM_BIOS_CFG_OFFSET`. -/
def smramBiosCfgOffset : Nat := smramFullSmbiosOffset + 256 * 1024

/-- A file with a 64-bit size that is sent with the lower 32 bits of it. -/
def wideJob (type : FileType) (memory : Memory) (size : Nat) : Job :=
  ⟨noError, type, bytesOf memory size, bytesOf memory (size % 2 ^ 32)⟩

/-- A file in memory with a 32-bit size. -/
def memoryJob (type : FileType) (memory : Memory) : Job :=
  let size := (headerFileSize memory + 18).toNat
  ⟨noError, type, bytesOf memory size, bytesOf memory size⟩

/-- The file of `UploadBiosCfgToBMC`, with one byte of checksum at its end. -/
def biosCfgJob (smram : Memory) : Option Job :=
  let memory := shifted smramBiosCfgOffset smram
  if startsWith memory [0x5F, 0x42, 0x49, 0x4E] then
    some (wideJob .bin memory ((headerFileSize memory).toNat + headerSize + 1))
  else none

/-- The file of `UploadHiiToBMC`. -/
def hiiJob (smram : Memory) : Option Job :=
  let memory := shifted smramHiiOffset smram
  if startsWith memory [0x5F, 0x48, 0x49, 0x49] then some (memoryJob .hii memory) else none

/-- The file of `UploadFullSmBiosToBMC`. -/
def fullSmBiosJob (smram : Memory) : Option Job :=
  let memory := shifted smramFullSmbiosOffset smram
  if startsWith memory [0x5F, 0x53, 0x4D, 0x5F] then some (memoryJob .fullSmbios memory) else none

/-- A buffer that a region of the ROM hole is read into: the pool, if there is one, and
the status of the read. -/
structure RegionRead where
  pool : Option Memory
  status : Status

/-- The buffer after a region was read into it. -/
def RegionRead.buffer (read : RegionRead) (succeeds : Status → Bool) (hole : Memory)
    (region : Region) : Option Memory :=
  match read.pool with
  | none => none
  | some pool =>
    if succeeds read.status then
      some (overlay (smcRomHoleSize region) (readRegion hole region) pool)
    else none

/-- The file of `UploadSmbiosFileToBmc`. -/
def smbiosFileJob (read : RegionRead) (hole : Memory) : Option Job :=
  match read.buffer noError hole .currentSmbios with
  | none => none
  | some memory =>
    if startsWith memory [0x5F, 0x53, 0x4D, 0x42] then
      some (wideJob .dmi memory ((headerFileSize memory).toNat + headerSize))
    else none

/-- The file of `UploadBiosStorageToBMC`: the ROM hole with its checksum as the last byte. -/
def biosStorageJob (read : RegionRead) (hole : Memory) : Option Job :=
  let succeeds : Status → Bool := fun status => status = efiSuccess
  match read.buffer succeeds hole .full with
  | none => none
  | some memory =>
    let image := bytesOf (setMem (romHoleSize - 1) 1 (byteSum memory 0 (romHoleSize - 1)) memory)
      romHoleSize
    some ⟨succeeds, .biosStorage, image, image⟩

/-- Where the files of a boot come from: the memory that the in-band module has filled,
and the ROM hole. -/
structure Sources where
  smram : Memory
  hole : Memory
  smbiosRead : RegionRead
  storageRead : RegionRead

/-- The file of a type. -/
def Sources.job (sources : Sources) : FileType → Option Job
  | .hii => hiiJob sources.smram
  | .bin => biosCfgJob sources.smram
  | .dmi => smbiosFileJob sources.smbiosRead sources.hole
  | .fullSmbios => fullSmBiosJob sources.smram
  | .biosStorage => biosStorageJob sources.storageRead sources.hole

/-- What a boot uploads, and how the steps end. A file is shorter than 4 GiB: its length
is a 32-bit word in the protocol. -/
structure BootInput extends Sources where
  policy : OobConfigurations
  exchange : FileType → Exchange
  short : ∀ type job, toSources.job type = some job → job.digested.length < 2 ^ 32

/-- `UploadBiosCfgToBMC`. -/
def uploadBiosCfgToBMC (md5 : Image → Digest) (boot : BootInput) : World → Outcome × World :=
  uploadJob md5 boot.policy (biosCfgJob boot.smram) (boot.exchange .bin)

/-- `UploadHiiToBMC`. -/
def uploadHiiToBMC (md5 : Image → Digest) (boot : BootInput) : World → Outcome × World :=
  uploadJob md5 boot.policy (hiiJob boot.smram) (boot.exchange .hii)

/-- `UploadFullSmBiosToBMC`. -/
def uploadFullSmBiosToBMC (md5 : Image → Digest) (boot : BootInput) : World → Outcome × World :=
  uploadJob md5 boot.policy (fullSmBiosJob boot.smram) (boot.exchange .fullSmbios)

/-- `UploadSmbiosFileToBmc`. -/
def uploadSmbiosFileToBmc (md5 : Image → Digest) (boot : BootInput) : World → Outcome × World :=
  uploadJob md5 boot.policy (smbiosFileJob boot.smbiosRead boot.hole) (boot.exchange .dmi)

/-- `UploadBiosStorageToBMC`. -/
def uploadBiosStorageToBMC (md5 : Image → Digest) (boot : BootInput) : World → Outcome × World :=
  uploadJob md5 boot.policy (biosStorageJob boot.storageRead boot.hole) (boot.exchange .biosStorage)

/-- The upload of a type. -/
def uploadOf (md5 : Image → Digest) (boot : BootInput) : FileType → World → Outcome × World
  | .hii => uploadHiiToBMC md5 boot
  | .bin => uploadBiosCfgToBMC md5 boot
  | .dmi => uploadSmbiosFileToBmc md5 boot
  | .fullSmbios => uploadFullSmBiosToBMC md5 boot
  | .biosStorage => uploadBiosStorageToBMC md5 boot

/-- The order of the uploads in `UploadOobDataToBmc`. -/
def uploadOrder : List FileType := [.bin, .dmi, .hii, .fullSmbios, .biosStorage]

/-- The calls of some boots, one after the other. -/
def callsOf (boots : List BootInput) : List (BootInput × FileType) :=
  boots.flatMap (fun boot => uploadOrder.map (fun type => (boot, type)))

/-- The world after some calls. -/
def runCalls (md5 : Image → Digest) (calls : List (BootInput × FileType)) (world : World) :
    World :=
  calls.foldl (fun world call => (uploadOf md5 call.1 call.2 world).2) world

end Functions

end SmcPkg.Upload
