import SmcPkg.RaidOob.Card
import SmcPkg.RomHole

/-!
# Downloads from the BMC

Three functions fetch a file from the BMC: the BIOS configuration, the SMBIOS file and
the BIOS storage. Each makes up to five attempts. An attempt asks the BMC to open a
transfer, waits for the file, copies it into one buffer that all attempts share, and
tests a checksum. The result is reported to the BMC after the attempts, and the file
goes to the ROM hole.

The replies of the BMC are given for each attempt and each poll, so they stand for
every order of replies. A call leaves behind what it asked the BMC, with the replies,
and what it wrote to the ROM hole.
-/

namespace SmcPkg.Download

open Bytes Card RomHole

section Replies

/-- A reply to `DownloadOobDataStart`. -/
structure StartReply where
  status : Status
  fileSize : UInt32
  rspStatus : UInt8
  deriving DecidableEq

/-- A reply to `DownloadOobDataReady`, which may leave the status variable as it was. -/
structure ReadyReply where
  status : Status
  waitRspStatus : Option UInt8
  deriving DecidableEq

/-- A reply to `ReadDataToBios`. -/
structure ReadReply where
  status : Status
  data : Memory

/-- A reply to `SmibiosPreservation`. -/
structure PreservationReply where
  status : Status
  responseStatus : UInt8
  deriving DecidableEq

/-- The replies of the BMC in a call, by attempt and by poll. -/
structure Replies where
  start : Nat → StartReply
  ready : Nat → Nat → ReadyReply
  read : Nat → ReadReply
  done : Status
  preservation : PreservationReply

/-- What a call does that others can see: the requests with their replies, the tests of
a checksum with their results, and writes to the ROM hole. -/
inductive Event
  | start (reply : StartReply)
  | read (fileSize : UInt32) (reply : ReadReply)
  | checksum (passed : Bool)
  | preservation (operation flashFlag : UInt8)
  | done (updateStatus : UInt8) (status : Status)
  | write (region : Region) (data : Memory)

end Replies

section Attempts

/-- Where the three functions differ: which status counts as success, which announced
size is accepted, the test of the file, and what follows a passed test. -/
structure Kind where
  succeeds : Status → Bool
  accepts : UInt32 → Bool
  verify : Memory → UInt32 → Bool
  restore : Memory → List Event × Memory

/-- The loop that waits for the BMC, with the rounds left, the poll and the status
variable. -/
def waitBmc (kind : Kind) (ready : Nat → ReadyReply) : Nat → Nat → UInt8 → UInt8
  | 0, _, waitRspStatus => waitRspStatus
  | rounds + 1, poll, waitRspStatus =>
    let now := (ready poll).waitRspStatus.getD waitRspStatus
    if kind.succeeds (ready poll).status ∧ (now = 0 ∨ now = 2) then now
    else waitBmc kind ready rounds (poll + 1) now

/-- What an attempt leaves: the buffer, the two flags, and whether the loop is left. -/
structure Attempt where
  events : List Event
  buffer : Memory
  downloadProcess : Bool
  downloadSuccess : Bool
  stopped : Bool

/-- `ReadDataToBios` copies nothing when it fails. -/
def readDataToBios (fileSize : UInt32) (reply : ReadReply) (buffer : Memory) : Memory :=
  if efiError reply.status then buffer else overlay fileSize.toNat reply.data buffer

/-- One round of the loop over the attempts. -/
def tryDownload (kind : Kind) (replies : Replies) (attempt : Nat) (buffer : Memory) : Attempt :=
  let start := replies.start attempt
  if !(kind.succeeds start.status && kind.accepts start.fileSize) then
    ⟨[.start start], buffer, false, false, false⟩
  else if start.rspStatus = 1 then
    if waitBmc kind (replies.ready attempt) 200 0 0 = 2 then
      let read := replies.read attempt
      let filled := readDataToBios start.fileSize read buffer
      if kind.succeeds read.status then
        if kind.verify filled start.fileSize then
          let (restored, kept) := kind.restore filled
          ⟨[.start start, .read start.fileSize read, .checksum true] ++ restored, kept, true, true,
            true⟩
        else
          ⟨[.start start, .read start.fileSize read, .checksum false], filled, true, false, false⟩
      else ⟨[.start start, .read start.fileSize read], filled, true, false, false⟩
    else ⟨[.start start], buffer, true, false, false⟩
  else if start.rspStatus = 0 then ⟨[.start start], buffer, false, false, true⟩
  else ⟨[.start start], buffer, false, false, false⟩

/-- The loop over the attempts, with the rounds left after this one. The flags are those
of the last attempt. -/
def download (kind : Kind) (replies : Replies) : Nat → Nat → Memory → Attempt
  | 0, attempt, buffer => tryDownload kind replies attempt buffer
  | rounds + 1, attempt, buffer =>
    let made := tryDownload kind replies attempt buffer
    if made.stopped then made
    else
      let later := download kind replies rounds (attempt + 1) made.buffer
      { later with events := made.events ++ later.events }

end Attempts

section Functions

/-- A test for an error: a warning counts as success. -/
def noError (status : Status) : Bool := !efiError status

/-- The sum of all bytes but the last is the last byte. The count is a 32-bit word. -/
def lastByteChecksum (buffer : Memory) (fileSize : UInt32) : Bool :=
  byteSum buffer 0 (fileSize - 1).toNat = buffer (fileSize - 1).toNat

/-- `MAX_DOWNLOAD_SIZE`. -/
def maxDownloadSize : UInt32 := 256 * 1024

/-- The size of the headers of the files. -/
def headerSize : Nat := 18

/-- The field `FileSize` of a header. -/
def headerFileSize (buffer : Memory) : UInt32 := word32 buffer 6

/-- The field `Checksum` of a header. -/
def headerChecksum (buffer : Memory) : UInt8 := buffer 10

/-- The test of an SMBIOS file, over the size in its own header. -/
def smbiosChecksum (buffer : Memory) (_ : UInt32) : Bool :=
  headerFileSize buffer < maxDownloadSize &&
    byteSum buffer headerSize (headerFileSize buffer).toNat = headerChecksum buffer

/-- The BIOS configuration. -/
def biosCfgKind : Kind := ⟨noError, fun _ => true, lastByteChecksum, fun buffer => ([], buffer)⟩

/-- The SMBIOS file. -/
def smbiosKind : Kind := ⟨noError, fun _ => true, smbiosChecksum, fun buffer => ([], buffer)⟩

/-- The report to the BMC, and the write of a file whose success was acknowledged. -/
def reportAndStore (region : Region) (replies : Replies) (made : Attempt) : List Event :=
  if made.downloadProcess then
    if made.downloadSuccess then
      .done 0 replies.done :: if efiError replies.done then [] else [.write region made.buffer]
    else [.done 1 replies.done]
  else []

/-- `DownloadBiosCfgFromBMC`, with the pool it is given, if any. -/
def downloadBiosCfgFromBMC (pool : Option Memory) (replies : Replies) : List Event :=
  match pool with
  | none => []
  | some buffer =>
    let made := download biosCfgKind replies 4 0 buffer
    made.events ++ reportAndStore .inBand replies made

/-- `DownloadSmbiosFileFromBmc`. -/
def downloadSmbiosFileFromBmc (pool : Option Memory) (replies : Replies) : List Event :=
  match pool with
  | none => []
  | some buffer =>
    let made := download smbiosKind replies 4 0 buffer
    made.events ++ reportAndStore .currentSmbios replies made

/-- The signature `$SMC`. -/
def smcSignature : List UInt8 := [0x24, 0x53, 0x4D, 0x43]

/-- `Preserve_SMBIOS`. -/
def preserveSmbios (flashFlag : UInt8) : Bool := flashFlag &&& 1 ≠ 0

/-- `Preserve_OA`. -/
def preserveOa (flashFlag : UInt8) : Bool := flashFlag &&& 2 ≠ 0

/-- Clear a region in the image of the ROM hole. -/
def clearRegion (region : Region) (buffer : Memory) : Memory :=
  setMem (smcRomHoleOffset region) (smcRomHoleSize region) 0xFF buffer

/-- The SMBIOS region of the image: cleared but for the signature, or marked as
preserved. -/
def smbiosPart (flashFlag : UInt8) (buffer : Memory) : Memory :=
  if preserveSmbios flashFlag then
    setMem (smcRomHoleOffset .smbiosForBmc + 10) 1 1 buffer
  else
    overlayAt (smcRomHoleOffset .smbiosForBmc) smcSignature.length
      (memoryOf smcSignature (fun _ => 0)) (clearRegion .smbiosForBmc buffer)

/-- The OA regions of the image. -/
def oaPart (flashFlag : UInt8) (buffer : Memory) : Memory :=
  if preserveOa flashFlag then buffer else clearRegion .oa2 (clearRegion .oa3 buffer)

/-- What follows a verified image of the ROM hole: the user's flags decide about the
regions, and the flash flag is cleared. -/
def restoreRegions (replies : Replies) (buffer : Memory) : List Event × Memory :=
  let flashFlag := replies.preservation.responseStatus
  if replies.preservation.status = efiSuccess then
    let smbios := smbiosPart flashFlag buffer
    let oa := oaPart flashFlag smbios
    ([.preservation 0 0, .write .smbiosForBmc (readRegion smbios .smbiosForBmc),
      .write .oa3 (readRegion oa .oa3), .write .oa2 (readRegion oa .oa2),
      .preservation 1 flashFlag], oa)
  else ([.preservation 0 0, .preservation 1 flashFlag], buffer)

/-- The BIOS storage. Here a status other than success is a failure. -/
def biosStorageKind (replies : Replies) : Kind :=
  ⟨fun status => status = efiSuccess, fun fileSize => fileSize.toNat = romHoleSize,
    lastByteChecksum, restoreRegions replies⟩

/-- What `DownloadBiosStorageFromBmc` finds: the ROM hole, the status of reading the
SMBIOS region, and whether the platform is Bakerville. -/
structure StorageEnv where
  hole : Memory
  readStatus : Status
  bakerville : Bool

/-- The signature is there and can be read. -/
def StorageEnv.signed (env : StorageEnv) : Bool :=
  env.readStatus = efiSuccess && startsWith (readRegion env.hole .smbiosForBmc) smcSignature

/-- `DownloadBiosStorageFromBmc`. -/
def downloadBiosStorageFromBmc (pool : Option Memory) (env : StorageEnv) (replies : Replies) :
    List Event :=
  match pool with
  | none => []
  | some buffer =>
    if env.signed then []
    else
      let made := download (biosStorageKind replies) replies 4 0 (setMem 0 romHoleSize 0xFF buffer)
      made.events ++
        if made.downloadProcess then
          if made.downloadSuccess then
            (if env.bakerville then [.write .full made.buffer] else []) ++ [.done 0 replies.done]
          else [.done 1 replies.done]
        else []

end Functions

end SmcPkg.Download
