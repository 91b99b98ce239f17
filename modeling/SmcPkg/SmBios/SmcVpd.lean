import SmcPkg.SmBios.Buffer

/-!
# The VPD of a card in its structure

`VPDDataCollect` reads the VPD of a LAN card through the capability of its function, a dword at a
time. It adds up the lengths of three resources, copies the dwords before the end tag, looks for
the maker's name in the identifier string, and puts the type and the number of the slot into the
item with the keyword `VB`, or adds a resource with such an item. `SmBiosType40Create` has the
bytes behind two headers in a structure of type 40, and counts them twice there.

What the device answers, and when it answers at all, are inputs. The other functions of the
device, and the driver that keeps the structures, are not part of the model.
-/

namespace SmcPkg.SmcVpd

open Bytes Buffer Card RaidCmd

section Model

/-- A card: the bytes of its VPD, in which of its polls a dword of a call is ready, and what is in
`Data[1]` before a call. -/
structure Device where
  vpd : Memory
  ready : Nat → Nat → Nat → Bool
  stale : Nat → UInt32

/-- The loop that waits for a dword. -/
def poll (ready : Nat → Bool) : Nat → Nat → Bool
  | 0, _ => false
  | count + 1, i => if ready i then true else poll ready count (i + 1)

/-- A dword of a call has been delivered. -/
def Device.delivers (device : Device) (call j : Nat) : Bool := poll (device.ready call j) 10000 0

/-- The dword of the device that a call asks for first or second. -/
def Device.dword (device : Device) (offset : UInt16) (j : UInt16) : UInt32 :=
  word32 device.vpd ((offset &&& 0xfffc) + 4 * j).toNat

/-- `Data32` of a call whose first dword is delivered. -/
def Device.answer (device : Device) (call : Nat) (offset : UInt16) : UInt32 :=
  let data0 := device.dword offset 0
  let data1 := if device.delivers call 1 then device.dword offset 1 else device.stale call
  if offset % 4 = 0 then data0
  else if offset % 4 = 1 then (data0 >>> 8) ||| (data1 <<< 24)
  else if offset % 4 = 2 then (data0 >>> 16) ||| (data1 <<< 16)
  else (data0 >>> 24) ||| (data1 <<< 8)

/-- `GetVpdData`. The status is set to `EFI_SUCCESS` by the first dword and kept for the second. -/
def getVpdData (device : Device) (call : Nat) (offset : UInt16) : Option UInt32 :=
  if device.delivers call 0 then some (device.answer call offset) else none

/-- The places and lengths of the resources, with `*VPD_Len`, and the offsets that were read. -/
structure Resources where
  vpdLen : UInt16
  vpdIdOffset : UInt16
  vpdIdLen : UInt16
  vpdVbOffset : UInt16
  vpdVbLen : UInt16
  offsets : List UInt16

/-- No resource has been read, and `SmcVPDPkgCollect` has set `*VPD_Len` to 0. -/
def noResources : Resources := ⟨0, 0, 0, 0, 0, []⟩

/-- What the first loop does with the first dword of a resource. -/
def Resources.step (resources : Resources) (data32 : UInt32) : Resources :=
  let tag := data32.toUInt8
  let length := (data32 >>> 8).toUInt16 + 1 + 2
  let read := resources.offsets ++ [resources.vpdLen]
  if tag = 0x82 then
    { resources with
      vpdIdOffset := resources.vpdLen, vpdIdLen := length,
      vpdLen := resources.vpdLen + length, offsets := read }
  else if tag = 0x90 then
    { resources with vpdLen := resources.vpdLen + length, offsets := read }
  else if tag = 0x91 then
    { resources with
      vpdVbOffset := resources.vpdLen, vpdVbLen := length,
      vpdLen := resources.vpdLen + length, offsets := read }
  else { resources with offsets := read }

/-- The loop over the resources. -/
def resourceLoop (device : Device) : Nat → Nat → Resources → Option Resources
  | 0, _, resources => some resources
  | count + 1, call, resources =>
    match getVpdData device call resources.vpdLen with
    | none => none
    | some data32 => resourceLoop device count (call + 1) (resources.step data32)

/-- The bytes of `TempType40` behind the two headers. -/
def space : Nat := 0xff - (10 + 17 + 6)

/-- The loop that copies the VPD, with a bound for its steps. -/
def copyLoop (device : Device) (vpdLen : UInt16) :
    Nat → Nat → UInt16 → Memory → Checked (Option Memory)
  | 0, _, _, _ => .error .outOfFuel
  | steps + 1, call, vpdOffset, vpdData =>
    if vpdOffset < vpdLen then
      match getVpdData device call vpdOffset with
      | none => .ok none
      | some data32 => do
        let vpdData ← write space vpdData vpdOffset.toNat (le32 data32.toNat)
        copyLoop device vpdLen steps (call + 1) (vpdOffset + 4) vpdData
    else .ok (some vpdData)

/-- `"Supermicro"`. -/
def supermicro : List UInt8 := [0x53, 0x75, 0x70, 0x65, 0x72, 0x6d, 0x69, 0x63, 0x72, 0x6f]

/-- The loop that looks for the name in the identifier string: the place is counted in 8 bits. -/
def idLoop (vpdData : Memory) (resources : Resources) : Nat → UInt8 → Checked Bool
  | 0, _ => .error .outOfFuel
  | steps + 1, i =>
    if i.toUInt16 < resources.vpdIdLen then
      if startsWith (shifted (resources.vpdIdOffset.toNat + i.toNat) vpdData) supermicro then
        .ok true
      else idLoop vpdData resources steps (i + 1)
    else .ok false

/-- The loop that fills in the slot: the place is counted in 8 bits. -/
def slotLoop (slotType slotID : UInt8) (resources : Resources) :
    Nat → UInt8 → Memory → Checked Memory
  | 0, _, _ => .error .outOfFuel
  | steps + 1, i, vpdData =>
    if i.toUInt16 < resources.vpdVbLen then
      let place := resources.vpdVbOffset.toNat + i.toNat
      if word16 vpdData place = 0x4256 then do
        let vpdData ← write space vpdData (place + 3) [slotType]
        let vpdData ← write space vpdData (place + 4) [slotID]
        slotLoop slotType slotID resources steps (i + 1) vpdData
      else slotLoop slotType slotID resources steps (i + 1) vpdData
    else .ok vpdData

/-- The resource that is added if the card has none with items to write, and the end tag. -/
def addedResource (slotType slotID : UInt8) : List UInt8 :=
  [0x91] ++ le16 5 ++ le16 0x4256 ++ [0x02] ++ [slotType] ++ [slotID] ++ [0x78]

/-- What the call leaves with `EFI_SUCCESS`, and the offsets that it has read before it copied. -/
structure Collected where
  vpdData : Memory
  vpdLen : UInt16
  offsets : List UInt16

/-- What follows the search for the name. -/
def fillSlot (slotType slotID : UInt8) (resources : Resources) (steps : Nat) (vpdData : Memory) :
    Checked Collected := do
  let filled ← slotLoop slotType slotID resources steps 0 vpdData
  if resources.vpdVbLen = 0 then
    let added ← write space filled resources.vpdLen.toNat (addedResource slotType slotID)
    return ⟨added, resources.vpdLen + 8 + 1, resources.offsets⟩
  else return ⟨filled, resources.vpdLen + 1, resources.offsets⟩

/-- `VPDDataCollect` from the copy on. -/
def collect (device : Device) (slotType slotID : UInt8) (steps : Nat) (resources : Resources)
    (vpdData : Memory) : Checked (Option Collected) := do
  match ← copyLoop device resources.vpdLen steps 4 0 vpdData with
  | none => return none
  | some copied =>
    let smcFlag ← idLoop copied resources steps 0
    if smcFlag then (fillSlot slotType slotID resources steps copied).map some
    else return none

/-- `VPDDataCollect`, which returns `EFI_UNSUPPORTED` in all of the cases with `none`. The data that
it prints at the end has less than 256 bytes. -/
def vpdDataCollect (device : Device) (slotType slotID : UInt8) (steps : Nat) (vpdData : Memory) :
    Checked (Option Collected) :=
  match resourceLoop device 3 0 noResources with
  | none => .ok none
  | some resources =>
    if 200 < resources.vpdLen then .ok none
    else
      match getVpdData device 3 resources.vpdLen with
      | none => .ok none
      | some data32 =>
        if data32.toUInt8 ≠ 0x78 then .ok none
        else
          collect device slotType slotID steps
            { resources with offsets := resources.offsets ++ [resources.vpdLen] } vpdData

/-- The bytes for the VPD in `TempType40`, which are set to 0, and the memory behind them. -/
def emptyData (behind : Memory) : Memory := setMem 0 space 0 behind

/-- `AssetInfo_Header`, with the identifiers and the class of a device. -/
structure AssetInfoHeader where
  vidDid : UInt32
  svidSsid : UInt32
  classCode : UInt8
  subClassCode : UInt8
  programInterface : UInt8

/-- The bytes of the header: `"_AST"`, its version and length, and its fields. -/
def AssetInfoHeader.bytes (header : AssetInfoHeader) : List UInt8 :=
  [0x5f, 0x41, 0x53, 0x54, 0x01, 17] ++ le32 header.vidDid.toNat ++ le32 header.svidSsid.toNat ++
    [header.classCode, header.subClassCode, header.programInterface]

/-- `SMBIOS_ADDITIONAL_INFO` and what follows in its entry. -/
structure AdditionalInfo where
  type : UInt8
  length : UInt8
  handle : UInt16
  numAdditionalInfoEntries : UInt8
  entryLength : UInt8
  refHandle : UInt16
  refOffset : UInt8
  stringNum : UInt8
  assetInfo : List UInt8
  vpdHeader : List UInt8
  vpd : List UInt8

/-- The structure that `SmBiosType40Create` adds for VPD that was collected. Its VPD header is
`"_VPD"` with a version and its own length. -/
def smBiosType40Create (updateHandle : UInt16) (header : AssetInfoHeader)
    (collected : Collected) : AdditionalInfo where
  type := 40
  length := 10 + 17 + (6 + collected.vpdLen.toUInt8)
  handle := 0xffff
  numAdditionalInfoEntries := 1
  entryLength := 6 + 17 + (6 + collected.vpdLen.toUInt8)
  refHandle := updateHandle
  refOffset := 0
  stringNum := 0
  assetInfo := header.bytes
  vpdHeader := [0x5f, 0x56, 0x50, 0x44, 0x02, 6]
  vpd := bytesOf collected.vpdData collected.vpdLen.toNat

end Model

section Result

/-- A large resource. -/
structure Resource where
  tag : UInt8
  data : List UInt8
  known : tag = 0x82 ∨ tag = 0x90 ∨ tag = 0x91
  short : data.length < 2 ^ 16

def Resource.bytes (resource : Resource) : List UInt8 :=
  resource.tag :: le16 resource.data.length ++ resource.data

/-- An item of a resource: two characters and data. -/
structure Item where
  first : UInt8
  second : UInt8
  data : List UInt8
  short : data.length < 2 ^ 8

def Item.bytes (item : Item) : List UInt8 :=
  [item.first, item.second, UInt8.ofNat item.data.length] ++ item.data

/-- VPD with a slot item: the resources before and behind the one with it, and the items there. -/
structure Layout where
  front : List Resource
  before : List Item
  more : List UInt8
  after : List Item
  back : List Resource
  item : more.length + 2 < 2 ^ 8

/-- The items of the resource with the slot item. -/
def Layout.items (layout : Layout) (slotType slotID : UInt8) : List UInt8 :=
  layout.before.flatMap Item.bytes ++
    ([0x56, 0x42, UInt8.ofNat (layout.more.length + 2), slotType, slotID] ++ layout.more) ++
    layout.after.flatMap Item.bytes

/-- The VPD with a slot type and number, up to its end tag. -/
def Layout.bytes (layout : Layout) (slotType slotID : UInt8) : List UInt8 :=
  layout.front.flatMap Resource.bytes ++
    (0x91 :: le16 (layout.items slotType slotID).length ++ layout.items slotType slotID) ++
    layout.back.flatMap Resource.bytes ++ [0x78]

/-- The layout of a resource that is added for the slot item alone. -/
def addedLayout (front : List Resource) : Layout := ⟨front, [], [], [], [], by decide⟩

/-- Data is a list of resources with an end tag and has the slot type and number. But for these two
it is the VPD of the card, or what stands before the end tag of the card with a resource added. -/
def Listed (device : Device) (slotType slotID : UInt8) (vpd : List UInt8) : Prop :=
  ∃ layout : Layout, layout.bytes slotType slotID = vpd ∧
    (layout.items slotType slotID).length < 2 ^ 16 ∧
    ((∃ otherType otherID, Stored device.vpd 0 (layout.bytes otherType otherID)) ∨
      ∃ front, layout = addedLayout front ∧
        Stored device.vpd 0 (front.flatMap Resource.bytes ++ [0x78]))

/-- The dwords that a call uses are delivered. -/
def Device.Delivered (device : Device) (call : Nat) (offset : UInt16) : Prop :=
  device.delivers call 0 = true ∧ (offset % 4 ≠ 0 → device.delivers call 1 = true)

/-- The bytes of the entry: `EntryLength`, `RefHandle`, `RefOffset`, `StringNum` and what follows. -/
def AdditionalInfo.entryBytes (info : AdditionalInfo) : Nat :=
  1 + 2 + 1 + 1 + info.assetInfo.length + info.vpdHeader.length + info.vpd.length

/-- The bytes of the structure: its header, the number of its entries, and the entry. -/
def AdditionalInfo.bytes (info : AdditionalInfo) : Nat := 4 + 1 + info.entryBytes

/-- The lengths are those of the bytes that are there. -/
structure AdditionalInfo.Counts (info : AdditionalInfo) : Prop where
  length : info.length.toNat = info.bytes
  entryLength : info.entryLength.toNat = info.entryBytes

/-- The call ends without a store outside of the bytes for the VPD. If it succeeds, the dwords that
it has used were delivered, the data is the VPD with the slot, and the structure counts it. -/
def Lawful (device : Device) (slotType slotID : UInt8) (behind : Memory) (updateHandle : UInt16)
    (header : AssetInfoHeader) : Prop :=
  ∃ steps result,
    vpdDataCollect device slotType slotID steps (emptyData behind) = .ok result ∧
    ∀ collected, result = some collected →
      (∀ call offset, collected.offsets[call]? = some offset → device.Delivered call offset) ∧
      Listed device slotType slotID (bytesOf collected.vpdData collected.vpdLen.toNat) ∧
      (smBiosType40Create updateHandle header collected).Counts

end Result

section Condition

/-- The resources that the answers of a card tell to a number of calls. -/
def Device.resources (device : Device) : Nat → Resources
  | 0 => noResources
  | call + 1 =>
    (device.resources call).step (device.answer call (device.resources call).vpdLen)

/-- The dwords of a card up to a length, and zeros behind them. -/
def Device.copied (device : Device) (vpdLen : Nat) (behind : Memory) : Memory := fun i =>
  if i < (vpdLen + 3) / 4 * 4 then device.vpd i else emptyData behind i

/-- A card is refused: a first dword is not delivered, the three lengths are more than 200 bytes,
there is no end tag behind them, or the name is not in an identifier string whose length fits in a
byte. -/
def Refused (device : Device) (behind : Memory) : Prop :=
  let resources := device.resources 3
  (∃ call < 4, device.delivers call 0 = false) ∨
    200 < resources.vpdLen.toNat ∨
    (device.answer 3 resources.vpdLen).toUInt8 ≠ 0x78 ∨
    (∃ n, 4 * n < resources.vpdLen.toNat ∧ device.delivers (4 + n) 0 = false) ∨
    (resources.vpdIdLen.toNat ≤ 255 ∧ ∀ i < resources.vpdIdLen.toNat,
      startsWith (shifted (resources.vpdIdOffset.toNat + i)
        (device.copied resources.vpdLen.toNat behind)) supermicro = false)

end Condition

end SmcPkg.SmcVpd
