import SmcPkg.Lib.BitFields
import Mathlib.Tactic.Common

/-!
# Recorded cards and their lookup

Three producers of `SmcAOCPei.c` and `SmcRiserCardCommon.c` note what they find
behind the processors' root ports in two 64-bit masks, one byte for each IOU.
`SmcAOCCheck` of `PlatformSmBios.c` reads one port's bits of the masks back.

The buses are inputs: what a slot's multiplexer and EEPROM answer is a `Probe`,
what a bridge scan reads is a `BridgeReads`. The ports of the tables are members
of `SMC_IIO_PORT`; a code without an upper half is a port of the chipset.
-/

namespace SmcPkg.AocMasks

open BitFields

/-- `SMC_IIO_PORT`: the processors' root ports. Bits 20 to 23 name the processor,
    bits 16 to 19 the IOU, the low byte is the device and function of the port. -/
def smcIioPort : List UInt32 := [
  0x00110000, 0x00110008, 0x00110010, 0x00110018,
  0x00120000, 0x00120008, 0x00120010, 0x00120018,
  0x00130000, 0x00130008, 0x00130010, 0x00130018,
  0x00200000,
  0x00210000, 0x00210008, 0x00210010, 0x00210018,
  0x00220000, 0x00220008, 0x00220010, 0x00220018,
  0x00230000, 0x00230008, 0x00230010, 0x00230018]

/-- `PcdSmcAOCLocation` and `PcdSmcAOCExtendFlag`. -/
structure Masks where
  location : BitVec 64
  extendFlag : BitVec 64
deriving DecidableEq

/-- Widths of a slot, `Bifurcate` of its table entry. -/
abbrev x16 : UInt8 := 16
abbrev x8 : UInt8 := 8

/-- `SMC_SLOT_INFO`, an entry of a project's slot table. -/
structure SlotInfo where
  address : UInt8
  channel : UInt8
  bdf : UInt32
  bifurcate : UInt8
  /-- Port codes of a processor are members of the enumeration. -/
  known : bdf >>> 16 ≠ 0 → bdf ∈ smcIioPort

/-- What the buses answer for one slot: its multiplexer refuses, no EEPROM names a
    card of the table, or `SearchAOCTbl` knows the card and its number of ports. -/
inductive Probe where
  | muxFailed
  | noCard
  | card (portNum : UInt8)

section SmcAOCCardDetection

/-- The card's bits in the byte of its IOU, `j`. -/
def cardBits (bifurcate port portNum : UInt8) : BitVec 8 :=
  if bifurcate = x16 then
    if port = 0x00 then
      if portNum = 1 then 0x00 else if portNum = 2 then 0x02 else if portNum = 4 then 0x03 else 0x00
    else if port = 0x18 then
      if portNum = 1 then 0x00 else if portNum = 2 then 0x30 else if portNum = 4 then 0x03 else 0x00
    else 0x00
  else if bifurcate = x8 then
    if port = 0x00 ∨ port = 0x08 then
      if portNum = 1 then 0x00 else 0x02
    else if port = 0x10 ∨ port = 0x18 then
      if portNum = 1 then 0x00 else 0x20
    else 0x00
  else 0x00

/-- The card's bits in the second mask, `Extend_Flag`: lane reversal, or a bridge. -/
def extendBits (bifurcate port portNum : UInt8) : BitVec 8 :=
  if bifurcate = x16 then
    if port = 0x00 then
      if portNum = 1 then 0x02 else 0x00
    else if port = 0x18 then
      if portNum = 1 then 0x02 else 0x01
    else 0x00
  else if bifurcate = x8 then
    if port = 0x00 ∨ port = 0x08 then
      if portNum = 1 then 0x02 else if port = 0x08 then 0x01 else 0x00
    else if port = 0x10 ∨ port = 0x18 then
      if portNum = 1 then 0x20 else if port = 0x18 then 0x10 else 0x00
    else 0x00
  else 0x00

/-- `k`: where the byte of the slot's IOU stands. Both terms are cut to 8 bits. -/
def cardShift (bdf : UInt32) : Nat :=
  ((((bdf >>> 16 &&& 0x0f) - 1) * 8).toUInt8 + (((bdf >>> 20 &&& 0x0f) - 1) * 32).toUInt8).toNat

/-- A found card goes into the masks unless its slot hangs off the chipset. -/
def recordCard (slot : SlotInfo) (portNum : UInt8) (masks : Masks) : Masks :=
  if slot.bdf >>> 16 ≠ 0 then
    { location := masks.location |||
        place 64 (cardBits slot.bifurcate slot.bdf.toUInt8 portNum) (cardShift slot.bdf)
      extendFlag := masks.extendFlag |||
        place 64 (extendBits slot.bifurcate slot.bdf.toUInt8 portNum) (cardShift slot.bdf) }
  else masks

/-- An entry of the slot table that names nothing. -/
def SlotInfo.isEmpty (slot : SlotInfo) : Bool :=
  slot.address = 0 && slot.channel = 0 && slot.bifurcate = 0 && slot.bdf = 0

/-- The loop over the slot table with the masks collected so far. -/
def slotLoop : List (SlotInfo × Probe) → Masks → Masks
  | [], masks => masks
  | (slot, probe) :: rest, masks =>
    if slot.isEmpty then slotLoop rest masks
    else
      match probe with
      | .muxFailed => masks
      | .noCard => slotLoop rest masks
      | .card portNum => slotLoop rest (recordCard slot portNum masks)

/-- `SmcAOCCardDetection` behind its lookups of the services: the masks of this
    call are collected from zero and then added to what the PCDs hold. -/
def smcAOCCardDetection (slots : List (SlotInfo × Probe)) (pcds : Masks) : Masks :=
  let found := slotLoop slots ⟨0, 0⟩
  ⟨pcds.location ||| found.location, pcds.extendFlag ||| found.extendFlag⟩

end SmcAOCCardDetection

section SmcPLXDetection

/-- What the scan reads behind one root port. -/
structure BridgeReads where
  rootVidDid : UInt32
  rootClass : UInt16
  childClass : UInt16
  plxId : UInt16

/-- The tests a PLX bridge passes. -/
def BridgeReads.isPlx (reads : BridgeReads) : Bool :=
  reads.rootVidDid ≠ 0xFFFFFFFF && reads.rootClass = 0x0604 &&
    reads.childClass = 0x0604 && reads.plxId = 0x15D9

/-- `TempBDF`: the ports that are scanned. -/
def scannedPorts : List UInt32 := [
  0x00110000, 0x00110008, 0x00110010, 0x00110018,
  0x00120000, 0x00120008, 0x00120010, 0x00120018,
  0x00130000, 0x00130008, 0x00130010, 0x00130018,
  0x00210000, 0x00210008, 0x00210010, 0x00210018,
  0x00220000, 0x00220008, 0x00220010, 0x00220018,
  0x00230000, 0x00230008, 0x00230010, 0x00230018]

/-- `ShiftCount`, of 16 bits. -/
def plxShift (bdf : UInt32) : Nat :=
  ((((bdf >>> 20 &&& 0x0f) - 1) * 32).toUInt16 + (((bdf >>> 16 &&& 0x0f) - 1) * 8).toUInt16 +
    ((bdf >>> 3 &&& 0x07) * 2).toUInt16).toNat

/-- `SmcPLXDetection`: bridges are noted in the second mask only. -/
def smcPLXDetection (reads : UInt32 → BridgeReads) (pcds : Masks) : Masks :=
  let found := (scannedPorts.filter fun bdf => (reads bdf).isPlx).foldl
    (fun word bdf => word ||| (0x02#64 <<< plxShift bdf)) 0#64
  { pcds with extendFlag := pcds.extendFlag ||| found }

end SmcPLXDetection

section SetRiserCardNVMeLocation

/-- An entry of a board's port table with the riser card's `SLOT_NUM` for it. -/
structure RiserPort where
  bdf : UInt32
  slotNum : UInt8
  /-- Port codes of a processor are members of the enumeration. -/
  known : bdf ≠ 0xffffffff → bdf >>> 16 ≠ 0 → bdf ∈ smcIioPort

/-- The entries that are an NVMe port of a processor, `RC_NVME` in the upper half of
    `SLOT_NUM`. -/
def RiserPort.isNVMe (port : RiserPort) : Bool :=
  port.bdf ≠ 0xffffffff && port.slotNum ≠ 0 && port.slotNum ≠ 0xff && port.bdf >>> 16 ≠ 0 &&
    port.slotNum &&& 0xf0 = 0x30

/-- `j`: where the port's bits stand, of 8 bits. -/
def nvmeShift (bdf : UInt32) : Nat :=
  let cpuNum := ((bdf >>> 20).toUInt8 &&& 0x0f) - 1
  let iioNum := ((bdf >>> 16).toUInt8 &&& 0x0f) - 1
  (cpuNum * 32 + iioNum * 8 +
    (if bdf.toUInt8 = 0x08 then 2
     else if bdf.toUInt8 = 0x10 then 4
     else if bdf.toUInt8 = 0x18 then 6 else 0)).toNat

/-- `SetRiserCardNVMeLocation`. -/
def setRiserCardNVMeLocation (ports : List RiserPort) (pcds : Masks) : Masks :=
  let found := (ports.filter RiserPort.isNVMe).foldl
    (fun word port => word ||| (1#64 <<< nvmeShift port.bdf)) 0#64
  if found = 0 then pcds else { pcds with location := pcds.location ||| found }

end SetRiserCardNVMeLocation

section SmcAOCCheck

/-- `ShiftValue`, of 8 bits. -/
def checkShift (cpu iou : UInt8) : Nat :=
  ((cpu - 1) * 32 + (iou - 1) * 8).toNat

/-- `SmcAOCCheck`. The tests of the second mask repeat the conditions of the first
    four and are never reached. -/
def smcAOCCheck (bdf : UInt32) (pcds : Masks) : BitVec 8 :=
  let cpu := (bdf >>> 20).toUInt8 &&& 0x0f
  let iou := (bdf >>> 16).toUInt8 &&& 0x0f
  if cpu > 4 ∨ cpu < 1 ∨ iou > 5 then 0
  else
    let iouAoc := field 8 pcds.location (checkShift cpu iou)
    let iouPlx := field 8 pcds.extendFlag (checkShift cpu iou)
    if bdf.toUInt8 = 0x00 then iouAoc &&& 0x03
    else if bdf.toUInt8 = 0x08 then iouAoc &&& 0x0C
    else if bdf.toUInt8 = 0x10 then iouAoc &&& 0x30
    else if bdf.toUInt8 = 0x18 then iouAoc &&& 0xC0
    else if bdf.toUInt8 = 0x00 then iouPlx &&& 0x02
    else if bdf.toUInt8 = 0x08 then iouPlx &&& 0x08
    else if bdf.toUInt8 = 0x10 then iouPlx &&& 0x20
    else if bdf.toUInt8 = 0x18 then iouPlx &&& 0x80
    else 0

end SmcAOCCheck

section Runs

/-- One call of a producer. -/
inductive Producer where
  | cardDetection (slots : List (SlotInfo × Probe))
  | plxDetection (reads : UInt32 → BridgeReads)
  | riserCard (ports : List RiserPort)

/-- What one call makes of the PCDs. -/
def Producer.call : Producer → Masks → Masks
  | .cardDetection slots, pcds => smcAOCCardDetection slots pcds
  | .plxDetection reads, pcds => smcPLXDetection reads pcds
  | .riserCard ports, pcds => setRiserCardNVMeLocation ports pcds

/-- The PCDs after a boot's calls; both are zero at power on. -/
def run (producers : List Producer) : Masks :=
  producers.foldl (fun pcds producer => producer.call pcds) ⟨0, 0⟩

end Runs

end SmcPkg.AocMasks
