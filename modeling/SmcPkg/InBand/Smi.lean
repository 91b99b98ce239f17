import SmcPkg.OutBand.Upload

/-!
# The SMI of the in-band interface

A program of the operating system hands over the address of a communication buffer and
raises an SMI. The base header at the front of the buffer names a command, a file type
and the address of a second buffer, which data is copied from or to. The model keeps the
order of what is done in the memory of the caller.

The check of a memory range and the flash are parameters: any range may be refused, and any
operation may fail. Memory is one space of addresses; caches and other processors are not part
of the model.
-/

namespace SmcPkg.Smi

open Bytes Card Download RomHole Upload

section Space

/-- The memory of the machine. -/
abbrev Space := UInt64 → UInt8

/-- The memory from an address on. -/
def view (space : Space) (address : UInt64) : Memory :=
  fun i => space (address + UInt64.ofNat i)

/-- Write bytes at an address. -/
def store (space : Space) (address : UInt64) (count : Nat) (data : Memory) : Space :=
  fun place =>
    if (place - address).toNat < count then data (place - address).toNat else space place

end Space

section Flash

/-- What `SmcRomHoleReadRegion` and `SmcRomHoleWriteRegion` meet: whether there is a flash
protocol, the statuses of the steps, and what a step that fails leaves behind. -/
structure Flash where
  located : Bool
  allocate : Status
  writeEnable : Status
  read : Status
  erase : Status
  write : Status
  left : Memory

/-- `SmcRomHoleReadRegion`: the bytes that are put into the buffer. -/
def smcRomHoleReadRegion (flash : Flash) (hole : Memory) (region : Region) : Option Memory :=
  if flash.located then
    if flash.read = efiSuccess then some (readRegion hole region) else some flash.left
  else none

/-- The steps of `SmcRomHoleWriteRegion` before the hole is erased. -/
def Flash.opens (flash : Flash) : Bool :=
  flash.located && flash.allocate = efiSuccess && flash.writeEnable = efiSuccess &&
    flash.read = efiSuccess

/-- `SmcRomHoleWriteRegion` of the SMM library gets as far as the copy of the buffer. -/
def Flash.copies (flash : Flash) : Bool := flash.opens && flash.erase = efiSuccess

/-- The hole after `SmcRomHoleWriteRegion` of the SMM library. -/
def smcRomHoleWriteRegion (flash : Flash) (hole : Memory) (region : Region) (data : Memory) :
    Memory :=
  if flash.opens then
    if flash.erase = efiSuccess && flash.write = efiSuccess then writeRegion hole region data
    else flash.left
  else hole

end Flash

section Actions

/-- `SMM_COMMUNICATION_BUFFER_SIZE`. -/
def communicationBufferSize : Nat := 0x40000

/-- What the handler does in the memory of the caller: check a range, use bytes in their
place, copy data out to the caller or in from it, and set `ReturnStatus` of a header. -/
inductive Action
  | validate (start : UInt64) (count : Nat) (passed : Bool)
  | access (start : UInt64) (count : Nat)
  | copyOut (start : UInt64) (count : Nat)
  | copyIn (start : UInt64) (count : Nat)
  | report (header : UInt64) (status : UInt8)
  deriving DecidableEq

/-- The range that an action reads or writes. -/
def Action.touched : Action → UInt64 × Nat
  | .validate start _ _ => (start, 0)
  | .access start count => (start, count)
  | .copyOut start count => (start, count)
  | .copyIn start count => (start, count)
  | .report header _ => (header + 8, 1)

/-- How many bytes of data an action copies out. -/
def Action.copiedOut : Action → Nat
  | .copyOut _ count => count
  | _ => 0

/-- How many bytes of data an action copies. -/
def Action.copied : Action → Nat
  | .copyOut _ count => count
  | .copyIn _ count => count
  | _ => 0

/-- What a part of the handler leaves: the memory, the ROM hole, the size of the data, and
the actions in their order. -/
structure Outcome where
  space : Space
  hole : Memory
  totalLength : UInt32
  actions : List Action

end Actions

section Upload

/-- The feature flags of the platform policy, and the payload that `FsfPayload` makes of
them. -/
structure FeatureFlags where
  majorVersion : UInt8
  minorVersion : UInt16
  payload : Vector UInt8 24

/-- The state of the handler: `AmiValidateMemoryBuffer`, the buffer in SMRAM, the flash, and
the platform policy. -/
structure Handler where
  validate : UInt64 → Nat → Status
  smram : UInt64
  flash : Flash
  flags : FeatureFlags

/-- `DataBufferAddress` of a base header. -/
def dataBufferAddress (space : Space) (header : UInt64) : UInt64 := word64 (view space header) 9

/-- `ReturnStatus` of a base header is set. -/
def setReturnStatus (space : Space) (header : UInt64) (status : UInt8) : Space :=
  store space (header + 8) 1 (fun _ => status)

/-- `TotalDataSize` of a base header is set. -/
def setTotalDataSize (space : Space) (header : UInt64) (size : UInt32) : Space :=
  store space (header + 3) 4 (memoryOf (le32 size.toNat) (fun _ => 0))

/-- The size of a file in SMRAM, with the bytes behind its payload. -/
def smramLength (handler : Handler) (offset : Nat) (behind : UInt32) (space : Space) : UInt32 :=
  headerFileSize (view space (handler.smram + UInt64.ofNat offset)) + 18 + behind

/-- A file in SMRAM is copied to the data buffer. -/
def copySmram (handler : Handler) (header : UInt64) (offset : Nat) (behind : UInt32)
    (space : Space) (hole : Memory) : Outcome :=
  let data := dataBufferAddress space header
  let totalLength := smramLength handler offset behind space
  ⟨store space data totalLength.toNat (view space (handler.smram + UInt64.ofNat offset)), hole,
    totalLength, [.access (header + 9) 8, .copyOut data totalLength.toNat]⟩

/-- The current SMBIOS region is read into the data buffer. -/
def copySmbios (handler : Handler) (header : UInt64) (space : Space) (hole : Memory) : Outcome :=
  let data := dataBufferAddress space header
  match smcRomHoleReadRegion handler.flash hole .currentSmbios with
  | none =>
    ⟨space, hole, headerFileSize (view space data) + 18,
      [.access (header + 9) 8, .access (data + 6) 4]⟩
  | some bytes =>
    let size := smcRomHoleSize .currentSmbios
    ⟨store space data size bytes, hole, headerFileSize bytes + 18,
      [.access (header + 9) 8, .copyOut data size, .access (data + 6) 4]⟩

/-- `GenerateFeatureSupportFlags`: a buffer after it. -/
def featureSupportFlags (flags : FeatureFlags) (buffer : Memory) : Memory :=
  let front := flags.majorVersion :: (le16 flags.minorVersion.toNat ++ le16 24)
  let filled := overlayAt 16 24 (memoryOf flags.payload.toList (fun _ => 0))
    (overlayAt 0 5 (memoryOf front (fun _ => 0)) buffer)
  let summed := setMem 14 1 (byteSum filled 16 24) filled
  setMem 15 1 (byteSum summed 0 15) summed

/-- `GenerateFeatureSupportFlags` on the data buffer. -/
def copyFeatureFlags (handler : Handler) (header : UInt64) (space : Space) (hole : Memory) :
    Outcome :=
  let data := dataBufferAddress space header
  ⟨store space data 40 (featureSupportFlags handler.flags (view space data)), hole, 40,
    [.access (header + 9) 8, .copyOut data 3, .copyOut (data + 16) 24, .copyOut (data + 3) 2,
      .access (data + 16) 24, .copyOut (data + 14) 1, .access data 15, .copyOut (data + 15) 1]⟩

/-- The branches of `UploadDataToRAM` over the file type. -/
def uploadBranch (handler : Handler) (header : UInt64) (areaType : UInt8) (space : Space)
    (hole : Memory) : Outcome :=
  if areaType = 0 then copySmram handler header smramBiosCfgOffset 1 space hole
  else if areaType = 1 then copySmram handler header smramHiiOffset 0 space hole
  else if areaType = 2 then copySmbios handler header space hole
  else if areaType = 3 then copySmram handler header smramFullSmbiosOffset 0 space hole
  else if areaType = 0x80 then copyFeatureFlags handler header space hole
  else ⟨space, hole, 0, []⟩

/-- The `ReturnStatus` of an upload. -/
def uploadStatus (totalLength : UInt32) : UInt8 :=
  if communicationBufferSize < totalLength.toNat then 1 else if totalLength = 0 then 3 else 0

/-- `UploadDataToRAM`. -/
def uploadDataToRAM (handler : Handler) (header : UInt64) (areaType : UInt8) (space : Space)
    (hole : Memory) : Outcome :=
  let branch := uploadBranch handler header areaType (setReturnStatus space header 0) hole
  let sized := setTotalDataSize branch.space header branch.totalLength
  let status := uploadStatus branch.totalLength
  ⟨setReturnStatus sized header status, branch.hole, branch.totalLength,
    .report header 0 :: (branch.actions ++ [.access (header + 3) 4, .report header status])⟩

end Upload

section Download

/-- A file in the data buffer is written to a region, if it is not too large. -/
def stageFile (handler : Handler) (header : UInt64) (region : Region) (behind : UInt32)
    (space : Space) (hole : Memory) : Outcome :=
  let data := dataBufferAddress space header
  let file := view space data
  let totalLength := headerFileSize file + 18 + behind
  let size := smcRomHoleSize region
  if totalLength.toNat ≤ size then
    ⟨space, smcRomHoleWriteRegion handler.flash hole region file, totalLength,
      [.access (header + 9) 8, .access (data + 6) 4] ++
        if handler.flash.copies then [.copyIn data size] else []⟩
  else
    ⟨setReturnStatus space header 1, hole, totalLength,
      [.access (header + 9) 8, .access (data + 6) 4, .report header 1]⟩

/-- The branches of `DownloadDataFromRAM` over the file type. -/
def downloadBranch (handler : Handler) (header : UInt64) (areaType : UInt8) (space : Space)
    (hole : Memory) : Outcome :=
  if areaType = 0 then stageFile handler header .inBand 1 space hole
  else if areaType = 2 then stageFile handler header .currentSmbios 0 space hole
  else ⟨space, hole, 0, []⟩

/-- `DownloadDataFromRAM`. -/
def downloadDataFromRAM (handler : Handler) (header : UInt64) (areaType : UInt8) (space : Space)
    (hole : Memory) : Outcome :=
  let branch := downloadBranch handler header areaType (setReturnStatus space header 0) hole
  { branch with actions := .report header 0 :: branch.actions }

end Download

section Dispatch

/-- What is known of the processor that raised the SMI: its number, the registers that name
the communication buffer, and the status of reading the second one. -/
structure Call where
  cpu : UInt64
  low : UInt32
  high : UInt32
  saved : Status

/-- The address of the communication buffer. -/
def Call.commBuff (call : Call) : UInt64 :=
  call.high.toUInt64 <<< 32 + call.low.toUInt64

/-- `EFI_ACCESS_DENIED`. -/
def efiAccessDenied : Status := errorCode 15

/-- The switch over the commands. -/
def runCommand (handler : Handler) (header : UInt64) (space : Space) (hole : Memory) : Outcome :=
  let subCommand := view space header 2
  let fileType := view space header 7
  if subCommand = 1 then
    let ran := downloadDataFromRAM handler header fileType space hole
    { ran with actions := .access (header + 7) 1 :: ran.actions }
  else if subCommand = 3 then
    let ran := uploadDataToRAM handler header fileType space hole
    { ran with actions := .access (header + 7) 1 :: ran.actions }
  else ⟨space, hole, 0, []⟩

/-- `SmcInBandSwSmiE6Handler`. -/
def smcInBandSwSmiE6Handler (handler : Handler) (call : Call) (space : Space) (hole : Memory) :
    Status × Outcome :=
  if call.cpu = -1 then (efiSuccess, ⟨space, hole, 0, []⟩)
  else
    let header := call.commBuff
    let refused := efiError (handler.validate header communicationBufferSize)
    let check := Action.validate header communicationBufferSize (!refused)
    if refused then (efiAccessDenied, ⟨space, hole, 0, [check]⟩)
    else
      let ran := runCommand handler header space hole
      (call.saved, { ran with actions := check :: .access (header + 2) 1 :: ran.actions })

end Dispatch

end SmcPkg.Smi
