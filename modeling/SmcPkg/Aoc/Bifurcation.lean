import SmcPkg.Lib.BitFields
import Mathlib.Logic.Function.Basic
import Mathlib.Tactic.Common

/-!
# Bifurcation of the IIO ports for add-on cards

`SmcAOCBifurcation` of `SmcAOCCommon.c` reads the two masks of recorded cards,
one byte for each IIO of each processor, and sets the `IIO_CONFIG` fields of the
IIOs that hold a card: the lane split, the hot plug fields of the ports, and the
ports that a VMD controller owns.

The arrays of `IIO_CONFIG` that are indexed by root port are one array of rows
here, `SlotFields`; ports of an IIO count from 0, so that `j` of the source is
`port + 1`.

The two masks and the defaults of the setup are inputs, and nothing is assumed of them. What is
programmed from the fields later is not part of the model.
-/

namespace SmcPkg.Bifurcation

open BitFields

section Config

/-- `IIO_BIFURCATE_*`: the ways to split the 16 lanes of an IIO. -/
abbrev auto : UInt8 := 0xFF
abbrev x4x4x4x4 : UInt8 := 0
abbrev x4x4xxx8 : UInt8 := 1
abbrev xxx8x4x4 : UInt8 := 2
abbrev xxx8xxx8 : UInt8 := 3
abbrev xxxxxx16 : UInt8 := 4

/-- The fields of one root port in the `SLOT` arrays and in `VppEnable`. -/
structure SlotFields where
  slotImp : UInt8
  slotHpCap : UInt8
  slotHpSup : UInt8
  slotAip : UInt8
  slotPip : UInt8
  slotPsp : UInt16
  slotAbp : UInt8
  slotPcp : UInt8
  vppEnable : UInt8
deriving DecidableEq

/-- The fields of `IIO_CONFIG` that the function reads or writes. -/
structure IioConfig where
  configIou0 : Nat → UInt8
  configIou1 : Nat → UInt8
  configIou2 : Nat → UInt8
  slots : Nat → SlotFields
  vppPort : Nat → UInt8
  vppAddress : Nat → UInt8
  vmdEnabled : Nat → UInt8
  vmdPortEnable : Nat → UInt8
  pcieHotPlugEnable : UInt8

/-- `CPU_NUM` and `IIO_NUM`. -/
structure Iio where
  cpuNum : Fin 2
  iioNum : Fin 3
deriving DecidableEq

/-- The port's index in the arrays of `NUMBER_PORTS_PER_SOCKET` entries a processor. -/
def slotIndex (iio : Iio) (port : Fin 4) : Nat :=
  iio.iioNum.val * 4 + iio.cpuNum.val * 21 + (port.val + 1)

/-- The port's index in `VMDPortEnable`. -/
def vmdIndex (iio : Iio) (port : Fin 4) : Nat :=
  iio.iioNum.val * 4 + iio.cpuNum.val * 12 + port.val

/-- The IIO's index in `VMDEnabled`. -/
def vmdStack (iio : Iio) : Nat :=
  iio.iioNum.val + iio.cpuNum.val * 3

/-- The user's choices, `DefaultIOU0` to `DefaultIOU2`, indexed by processor. -/
structure Defaults where
  iou0 : Nat → UInt8
  iou1 : Nat → UInt8
  iou2 : Nat → UInt8

/-- The loop's state: the configuration, the counters of Vpp addresses and drives, and
    the mode word for the backplanes. -/
structure Work where
  config : IioConfig
  cpu1Vpp : UInt8
  cpu2Vpp : UInt8
  nvmeCount : UInt8
  nvmeMode : BitVec 64

/-- `ConfigIOU0` to `ConfigIOU2`. -/
def Work.configIou (work : Work) (iio : Iio) : UInt8 :=
  if iio.iioNum = 0 then work.config.configIou0 iio.cpuNum.val
  else if iio.iioNum = 1 then work.config.configIou1 iio.cpuNum.val
  else work.config.configIou2 iio.cpuNum.val

def Work.setConfigIou (iio : Iio) (split : UInt8) (work : Work) : Work :=
  if iio.iioNum = 0 then
    { work with config := { work.config with
        configIou0 := Function.update work.config.configIou0 iio.cpuNum.val split } }
  else if iio.iioNum = 1 then
    { work with config := { work.config with
        configIou1 := Function.update work.config.configIou1 iio.cpuNum.val split } }
  else
    { work with config := { work.config with
        configIou2 := Function.update work.config.configIou2 iio.cpuNum.val split } }

def Work.slot (work : Work) (iio : Iio) (port : Fin 4) : SlotFields :=
  work.config.slots (slotIndex iio port)

def Work.updateSlot (iio : Iio) (port : Fin 4) (change : SlotFields → SlotFields)
    (work : Work) : Work :=
  { work with config := { work.config with
      slots := Function.update work.config.slots (slotIndex iio port)
        (change (work.slot iio port)) } }

def Work.setVmdPort (iio : Iio) (port : Fin 4) (value : UInt8) (work : Work) : Work :=
  { work with config := { work.config with
      vmdPortEnable := Function.update work.config.vmdPortEnable (vmdIndex iio port) value } }

end Config

section Blocks

/-- The hot plug fields that every card switches on. -/
def SlotFields.hotPlug (slot : SlotFields) : SlotFields :=
  { slot with slotHpCap := 1, slotHpSup := 1, slotAip := 1, slotPip := 1 }

/-- A port of a split IIO: implemented, with the slot number of the card's first port. -/
def SlotFields.enabled (psp : UInt16) (slot : SlotFields) : SlotFields :=
  { slot.hotPlug with slotImp := 1, slotPsp := psp, vppEnable := 1 }

/-- A single x4 port. -/
def SlotFields.single (slot : SlotFields) : SlotFields :=
  { slot.hotPlug with vppEnable := 1 }

/-- A port that a VMD controller owns. -/
def SlotFields.ofVmd (slot : SlotFields) : SlotFields :=
  { slot with slotAbp := 0 }

/-- A port without a VMD controller. -/
def SlotFields.plain (slot : SlotFields) : SlotFields :=
  { slot with slotAbp := 1, slotPcp := 1, slotHpSup := 0 }

/-- The next Vpp address of the port's processor. -/
def assignVpp (iio : Iio) (port : Fin 4) (work : Work) : Work :=
  let vpp := if iio.cpuNum = 0 then work.cpu1Vpp else work.cpu2Vpp
  let config := { work.config with
    vppPort := Function.update work.config.vppPort (slotIndex iio port) (vpp &&& 0x01)
    vppAddress := Function.update work.config.vppAddress (slotIndex iio port) (vpp &&& 0x0e) }
  if iio.cpuNum = 0 then { work with config := config, cpu1Vpp := vpp + 1 }
  else { work with config := config, cpu2Vpp := vpp + 1 }

/-- The loops over `j` that enable the ports of a card. `SLOTPSP` is copied from one port. -/
def enablePorts (iio : Iio) (source : Fin 4) (ports : List (Fin 4)) (work : Work) : Work :=
  ports.foldl (fun work port =>
    assignVpp iio port
      (work.updateSlot iio port (SlotFields.enabled (work.slot iio source).slotPsp))) work

/-- Whether the IIO's VMD controller owns a port. -/
def vmdOwns (iio : Iio) (port : Fin 4) (work : Work) : Prop :=
  work.config.vmdEnabled (vmdStack iio) ≠ 0 ∧ work.config.vmdPortEnable (vmdIndex iio port) ≠ 0

instance (iio : Iio) (port : Fin 4) (work : Work) : Decidable (vmdOwns iio port work) :=
  inferInstanceAs (Decidable (_ ∧ _))

/-- The ports of a card go to the VMD controller with the tested port, or to none: which
    `VMDPortEnable` entries are set or cleared, and which ports follow. -/
structure VmdPorts where
  tested : Fin 4
  switchedOn : List (Fin 4)
  switchedOff : List (Fin 4)
  ports : List (Fin 4)

def assignVmd (iio : Iio) (vmd : VmdPorts) (work : Work) : Work :=
  if vmdOwns iio vmd.tested work then
    vmd.ports.foldl (fun work port => work.updateSlot iio port SlotFields.ofVmd)
      (vmd.switchedOn.foldl (fun work port => work.setVmdPort iio port 1) work)
  else
    vmd.ports.foldl (fun work port => work.updateSlot iio port SlotFields.plain)
      (vmd.switchedOff.foldl (fun work port => work.setVmdPort iio port 0) work)

/-- The same for drives of a card, which are counted and, under VMD, put into the mode. -/
def assignDrives (iio : Iio) (vmd : VmdPorts) (bits : BitVec 64) (count : UInt8)
    (work : Work) : Work :=
  let assigned := assignVmd iio vmd work
  { assigned with
    nvmeMode := if vmdOwns iio vmd.tested work then work.nvmeMode ||| bits <<< work.nvmeCount.toNat
      else work.nvmeMode
    nvmeCount := work.nvmeCount + count }

end Blocks

section Layouts

/-- A card of four drives, location byte `0x03`. -/
def x16Vmd : VmdPorts := ⟨0, [1, 2, 3], [0, 1, 2, 3], [0, 1, 2, 3]⟩

def x16Card (iio : Iio) (extendFlag : BitVec 8) (work : Work) : Work :=
  let split := work.setConfigIou iio x4x4x4x4
  let enabled :=
    if extendFlag = 0 then enablePorts iio 0 [0, 1, 2, 3] split
    else if extendFlag = 0x01 then enablePorts iio 0 [3, 2, 1, 0] split
    else split
  assignDrives iio x16Vmd 0x0f 4 enabled

/-- A card of two drives at the reversed end of an x16 slot, location byte `0x30`. The
    VMD test is on the first port of the IIO. -/
def reversedVmd : VmdPorts := ⟨0, [2, 3], [2, 3], [2, 3]⟩

def reversedCard (iio : Iio) (work : Work) : Work :=
  assignDrives iio reversedVmd 0x03 2
    (enablePorts iio 0 [3, 2] (work.setConfigIou iio x4x4xxx8))

/-- The split that comes of splitting one half of an IIO further: the other half of an
    IIO not yet split stays one port of 8 lanes. -/
def splitHalf (alone other : UInt8) (split : UInt8) : UInt8 :=
  if split = auto ∨ split = xxxxxx16 ∨ split = xxx8xxx8 then alone
  else if split = other then x4x4x4x4
  else split

/-- The lower half, low digit 2 of the location byte. -/
def lowVmd : VmdPorts := ⟨0, [1], [0, 1], [0, 1]⟩

def lowHalf (iio : Iio) (extendFlag : BitVec 8) (work : Work) : Work :=
  let split := work.setConfigIou iio (splitHalf xxx8x4x4 x4x4xxx8 (work.configIou iio))
  let enabled :=
    if extendFlag &&& 0x0f = 0 then enablePorts iio 0 [0, 1] split
    else if extendFlag &&& 0x0f = 0x01 then enablePorts iio 0 [1, 0] split
    else split
  assignDrives iio lowVmd 0x03 2 enabled

/-- The upper half, high digit 2 of the location byte. -/
def highVmd : VmdPorts := ⟨2, [3], [2, 3], [2, 3]⟩

def highHalf (iio : Iio) (extendFlag : BitVec 8) (work : Work) : Work :=
  let split := work.setConfigIou iio (splitHalf x4x4xxx8 xxx8x4x4 (work.configIou iio))
  let enabled :=
    if extendFlag &&& 0xf0 = 0 then enablePorts iio 2 [2, 3] split
    else if extendFlag &&& 0xf0 = 0x10 then enablePorts iio 2 [3, 2] split
    else split
  assignDrives iio highVmd 0x03 2 enabled

/-- One port on its own. -/
def portVmd (port : Fin 4) : VmdPorts := ⟨port, [], [port], [port]⟩

/-- A drive at one x4 port, location bits `0x01`, `0x04`, `0x10` and `0x40`. -/
def singleDrive (iio : Iio) (rpBifurcate : BitVec 8) (work : Work) (port : Fin 4) : Work :=
  if rpBifurcate.getLsbD (2 * port.val) then
    assignDrives iio (portVmd port) 0x01 1
      (assignVpp iio port (work.updateSlot iio port SlotFields.single))
  else work

/-- A PLX bridge behind one port. `SLOT_AOC_FLAG` is tested as a whole, not shifted to
    the byte of this IIO. -/
def plxPort (iio : Iio) (slotAocFlag : BitVec 64) (work : Work) (port : Fin 4) : Work :=
  if slotAocFlag.getLsbD (2 * port.val + 1) && !slotAocFlag.getLsbD (2 * port.val) then
    assignVmd iio (portVmd port) (work.updateSlot iio port SlotFields.hotPlug)
  else work

end Layouts

section SmcAOCBifurcation

/-- The user's choice for an IIO. -/
def Defaults.own (defaults : Defaults) (iio : Iio) : UInt8 :=
  if iio.iioNum = 0 then defaults.iou0 iio.cpuNum.val
  else if iio.iioNum = 1 then defaults.iou1 iio.cpuNum.val
  else defaults.iou2 iio.cpuNum.val

/-- The choice that the branches for two drives test: for IIO2 it is that of IIO1. -/
def Defaults.tested (defaults : Defaults) (iio : Iio) : UInt8 :=
  if iio.iioNum = 0 then defaults.iou0 iio.cpuNum.val
  else if iio.iioNum = 1 then defaults.iou1 iio.cpuNum.val
  else defaults.iou1 iio.cpuNum.val

/-- The end of the loop's body: the bridges, the hot plug switch. -/
def finishIio (iio : Iio) (slotAoc slotAocFlag : BitVec 64) (work : Work) : Work :=
  let bridged := [0, 1, 2, 3].foldl (plxPort iio slotAocFlag) work
  if slotAoc ≠ 0 ∨ slotAocFlag ≠ 0 then
    { bridged with config := { bridged.config with pcieHotPlugEnable := 1 } }
  else bridged

/-- The body of the loop for an IIO with its bytes of the masks. A choice other than
    AUTO continues with the next IIO. -/
def bifurcateIio (defaults : Defaults) (slotAoc slotAocFlag : BitVec 64) (iio : Iio)
    (rpBifurcate extendFlag : BitVec 8) (work : Work) : Work :=
  if rpBifurcate = 0x03 then
    if defaults.own iio ≠ auto then work
    else finishIio iio slotAoc slotAocFlag (x16Card iio extendFlag work)
  else if rpBifurcate = 0x30 then
    if defaults.tested iio ≠ auto then work
    else finishIio iio slotAoc slotAocFlag (reversedCard iio work)
  else if rpBifurcate &&& 0x0f = 0x02 ∧ defaults.tested iio ≠ auto then work
  else
    let lower := if rpBifurcate &&& 0x0f = 0x02 then lowHalf iio extendFlag work else work
    if rpBifurcate &&& 0xf0 = 0x20 ∧ defaults.tested iio ≠ auto then lower
    else
      let upper := if rpBifurcate &&& 0xf0 = 0x20 then highHalf iio extendFlag lower else lower
      finishIio iio slotAoc slotAocFlag ([0, 1, 2, 3].foldl (singleDrive iio rpBifurcate) upper)

/-- The IIO of a byte of the masks; the last byte of each processor has none. -/
def iioAt (i : Nat) : Option Iio :=
  if inside : i / 4 < 2 ∧ i % 4 < 3 then some ⟨⟨i / 4, inside.1⟩, ⟨i % 4, inside.2⟩⟩ else none

/-- One round of the loop. -/
def round (defaults : Defaults) (slotAoc slotAocFlag : BitVec 64) (work : Work) (i : Nat) : Work :=
  let rpBifurcate := field 8 slotAoc (i * 8)
  let extendFlag := field 8 slotAocFlag (i * 8)
  match iioAt i with
  | none => work
  | some iio =>
    if rpBifurcate = 0 ∧ extendFlag = 0 then work
    else bifurcateIio defaults slotAoc slotAocFlag iio rpBifurcate extendFlag work

/-- `SmcAOCBifurcation` on the two masks, the choices, the configuration and the mode
    word of the backplanes. -/
def smcAOCBifurcation (slotAoc slotAocFlag : BitVec 64) (defaults : Defaults)
    (config : IioConfig) (nvmeMode : BitVec 64) : Work :=
  (List.range 8).foldl (round defaults slotAoc slotAocFlag) ⟨config, 0, 0, 0, nvmeMode⟩

end SmcAOCBifurcation

end SmcPkg.Bifurcation
