import SmcPkg.Lib.ReadRuns
import SmcPkg.TpmProvision

/-!
# A provisioning table in the storage of the management engine

The table is divided into the entries of the storage. The first one is read for the header,
which holds the length, and then as many are read as entries of the largest size hold that
length, each behind the one before. One variable takes the room to `MeStorageEntryRead` and the
number of bytes back, and moves the place where the next entry goes.

What is asked of the assembly: it ends, it writes inside of the table, the table is what all
the entries of the storage hold one behind the other, up to its length, the commands that are
sent lie in the table, and nothing is sent if a read failed.

Nothing is assumed of the storage but what `MeStorageEntryRead` is: an entry that fits is read
whole, one that does not fit is an error, and a call may fail for any other reason. What a
failed call leaves in the buffer and in the variable is open.
-/

namespace SmcPkg.TpmStorage

open Bytes Card ReadRuns TpmProvision

section Source

/-- A read that fails: what it leaves in the buffer, and whether the variable for the size keeps
the room or has the number of these bytes. The library leaves nothing and keeps the room. -/
structure FailedRead where
  status : Status
  data : List UInt8
  keepsSize : Bool
  failed : efiError status

/-- The storage: what its entries hold, which calls of `MeStorageEntryRead` fail whatever the
entry holds, and how a call fails that has no room for the entry. -/
structure MeStorage where
  entries : UInt8 → List UInt8
  failure : Nat → Option FailedRead
  bufferTooSmall : FailedRead

/-- What a call leaves: its status, the bytes in the buffer, and the variable for the size. -/
structure Reading where
  status : Status
  data : List UInt8
  size : Nat

/-- A failed call has no more room than another. -/
def FailedRead.reading (failed : FailedRead) (room : Nat) : Reading where
  status := failed.status
  data := failed.data.take room
  size := if failed.keepsSize then room else (failed.data.take room).length

/-- `MeStorageEntryRead`, by the number of the call. -/
def MeStorage.entryRead (storage : MeStorage) (call : Nat) (index : UInt8) (room : Nat) :
    Reading :=
  match storage.failure call with
  | some failed => failed.reading room
  | none =>
    if (storage.entries index).length ≤ room then
      ⟨efiSuccess, storage.entries index, (storage.entries index).length⟩
    else storage.bufferTooSmall.reading room

/-- The walk through the storage: the memory from the table on, and with `writes` and `failed`
    what became of it. -/
structure Walk where
  table : Memory
  tblWalkThrough : Nat
  meStorageEntryMaxBuffSize : Nat
  calls : Nat
  writes : List Extent
  failed : Bool

/-- One read of the walk. -/
def Walk.step (walk : Walk) (reading : Reading) : Walk where
  table := overlayAt walk.tblWalkThrough reading.data.length (memoryOf reading.data fun _ => 0)
    walk.table
  tblWalkThrough := walk.tblWalkThrough + reading.size
  meStorageEntryMaxBuffSize := reading.size
  calls := walk.calls + 1
  writes := walk.writes ++ [⟨walk.tblWalkThrough, reading.data.length⟩]
  failed := walk.failed || efiError reading.status

variable (storage : MeStorage)

/-- The loop, whose index has eight bits. -/
def walkThrough (tblEntries : Nat) : Nat → UInt8 → Walk → Option Walk
  | 0, _, _ => none
  | fuel + 1, index, walk =>
    if index.toNat < tblEntries then
      walkThrough tblEntries fuel (index + 1)
        (walk.step (storage.entryRead walk.calls index walk.meStorageEntryMaxBuffSize))
    else some walk

/-- The first read, with the whole header buffer as room. -/
def headerRead : Reading := storage.entryRead 0 0 meStorageMaxBuffer

/-- `TblHeaderBuffer`. -/
def tblHeaderBuffer : Memory := memoryOf (headerRead storage).data fun _ => 0

/-- `TblBufferSize`. -/
def tblBufferSize : Nat := (word32 (tblHeaderBuffer storage) 8).toNat

/-- `TblEntries`. -/
def tblEntries : Nat :=
  let size := tblBufferSize storage
  size / meStorageMaxBuffer + if size % meStorageMaxBuffer ≠ 0 then 1 else 0

/-- `TblBuffer`, with what lies behind it in the pool. -/
def tblBuffer (pool : Memory) : Memory := fun i => if i < tblBufferSize storage then 0 else pool i

/-- The walk at its start, with what the first read has left as room. -/
def startWalk (pool : Memory) : Walk where
  table := tblBuffer storage pool
  tblWalkThrough := 0
  meStorageEntryMaxBuffSize := (headerRead storage).size
  calls := 1
  writes := []
  failed := efiError (headerRead storage).status

/-- The tests on the header. -/
def headerAccepted (signature : List UInt8) : Bool :=
  startsWith (tblHeaderBuffer storage) signature && tblEntries storage ≤ meStorageMaxIndex + 1

/-- A command by its place in the table. -/
structure Place where
  offset : UInt16
  size : UInt32

/-- What a function does with a table: the commands it sends out of the table, by their places,
    and the events. -/
structure Provisioner where
  signature : List UInt8
  sent : Memory → List Place
  events : Memory → List Event

/-- What a call did: the walk, if there was one. -/
structure Run where
  walk : Option Walk
  sent : List Place
  events : List Event

/-- The body of the two functions. -/
def Provisioner.run (provisioner : Provisioner) (storage : MeStorage) (pool : Memory)
    (fuel : Nat) : Option Run :=
  if headerAccepted storage provisioner.signature then do
    let walk ← walkThrough storage (tblEntries storage) fuel 0 (startWalk storage pool)
    some ⟨some walk, provisioner.sent walk.table, provisioner.events walk.table⟩
  else some ⟨none, [], []⟩

end Source

section Commands

variable (image : Memory) (tpm : Tpm)

def createPlace (info : NvInfo) : Place := ⟨info.createCmdOffset, info.createCmdSize⟩

def writePlace (info : NvInfo) : Place := ⟨info.writeCmdOffset, info.writeCmdSize⟩

/-- Whether the command of an entry is one that creates an index. -/
def creates1 (info : NvInfo) : Bool := image (info.createCmdOffset.toNat + 0x9) = 0xCC

/-- The commands of a round of the loop over a TPM 1.2 table. -/
def sentIndex1 (index : Nat) : List Place :=
  let info := params1 image index
  (if creates1 image info then [createPlace info] else []) ++
    if info.bWrite && writes1 image info then [writePlace info] else []

/-- The commands of a TPM 1.2 table. -/
def sentIndexes1 : List Place :=
  if image 12 ≠ 1 then [] else (List.range (image 54).toNat).flatMap (sentIndex1 image)

/-- `SetPhPolOffset` and `SetPhPolSize` of an algorithm. -/
def policyPlace (algIndex : Nat) : Place :=
  ⟨word16 image (algParams algIndex + 8), word32 image (algParams algIndex + 4)⟩

/-- The TPM takes the policy of an algorithm. -/
def takesPolicy (algIndex : Nat) : Bool := (sendCommand (tpm.policy algIndex)).good

/-- The commands of the loop that looks for an algorithm. -/
def sentPolicies : Nat → Nat → List Place
  | 0, _ => []
  | count + 1, algIndex =>
    policyPlace image algIndex ::
      if takesPolicy tpm algIndex then [] else sentPolicies count (algIndex + 1)

/-- The entry of an algorithm in a TPM 2.0 table. -/
def params2 (algIndex index : Nat) : NvInfo :=
  nvInfoAt image ((word16 image (algParams algIndex + 14)).toNat +
    index * (image (algParams algIndex + 13)).toNat)

/-- The commands of a round of the loop over the entries of an algorithm. -/
def sentIndex2 (algIndex index : Nat) : List Place :=
  let info := params2 image algIndex index
  if tpm2IndexExist tpm index then []
  else createPlace info :: if info.bWrite then [writePlace info] else []

/-- The commands of a TPM 2.0 table. -/
def sentIndexes2 : List Place :=
  sentPolicies image tpm (image 54).toNat 0 ++
    match (searchAlg image tpm (image 54).toNat 0).2 with
    | none => []
    | some algIndex =>
      (List.range (image (algParams algIndex + 12)).toNat).flatMap (sentIndex2 image tpm algIndex)

/-- The bytes that an event sends out of the table. -/
def eventCommand : Event → Option (List UInt8)
  | .policySet command _ => some command
  | .created _ command _ => some command
  | .wrote _ command _ => some command
  | .locked _ | .finished => none

/-- The bytes of a command. -/
def Place.command (place : Place) : List UInt8 := commandAt image place.offset place.size

/-- `SmcTpm1ProvisionByPpiXOob` with the storage. -/
def tpm1ByPpiXOob : Provisioner :=
  ⟨tpm12Signature, sentIndexes1, fun image => provisionIndexes1 image tpm⟩

/-- `SmcTpm2ProvisionByPpiXOob` with the storage. -/
def tpm2ByPpiXOob : Provisioner :=
  ⟨tpm20Signature, fun image => sentIndexes2 image tpm, fun image => provisionIndexes2 image tpm⟩

end Commands

section Purpose

/-- A command lies in a table of a length. -/
def Place.Within (place : Place) (length : Nat) : Prop :=
  place.offset.toNat + place.size.toNat ≤ length

variable (storage : MeStorage) (pool : Memory)

/-- What all the entries of the storage hold, one behind the other. -/
def stored : List UInt8 :=
  (List.range (meStorageMaxIndex + 1)).flatMap fun k => storage.entries (UInt8.ofNat k)

/-- A call is as it should be: nothing is sent without a table, or the table is what the entries
    hold if no read failed, and nothing is sent otherwise, and writes and commands stay inside. -/
def Run.Sound (run : Run) : Prop :=
  match run.walk with
  | none => run.sent = [] ∧ run.events = []
  | some walk =>
    (walk.failed = false → ∀ i < tblBufferSize storage, walk.table i = (stored storage).getD i 0) ∧
    (∀ extent ∈ walk.writes, extent.BytesWithin (tblBufferSize storage)) ∧
    (∀ place ∈ run.sent, place.Within (tblBufferSize storage)) ∧
    (walk.failed = true → run.events = [])

/-- The call ends, and is as it should be. -/
def Provisioner.Sound (provisioner : Provisioner) : Prop :=
  ∃ fuel run, provisioner.run storage pool fuel = some run ∧ run.Sound storage

end Purpose

end SmcPkg.TpmStorage
