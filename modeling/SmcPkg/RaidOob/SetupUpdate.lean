import SmcPkg.RaidOob.SetupFormsLaw

/-!
# The update of the setup page

The package list of the setup page is exported a second time, and its first form package
is replaced by the edited one in the exported buffer itself. The length of the new list is
the old one and what the edits have added.

The edits are those of `SmcLsiRaidLib_AddDynamicItems`: `initial_edited` starts them,
`insertItems_edited` makes one, and `addDynamicItems_updates` puts the pieces together for a
whole run. The exported list is assumed to have a form package and to lie in its buffer.
-/

namespace SmcPkg.SetupUpdate

open Bytes RaidCmd Card SetupForms

section Walk

/-- `Length` of the package at a place. -/
def lengthAt (memory : Memory) (place : Nat) : Nat :=
  (memory place).toNat + (memory (place + 1)).toNat * 0x100 +
    (memory (place + 2)).toNat * 0x10000

/-- `PackageLength` of a list. -/
def listLength (memory : Memory) : Nat :=
  (memory 16).toNat + ((memory 17).toNat + ((memory 18).toNat +
    (memory 19).toNat * 0x100) * 0x100) * 0x100

/-- The loop over the packages of a list, up to the first form package. Over packages
without a length it does not end, which the number of rounds cuts off. -/
def formsFrom (memory : Memory) (length : Nat) : Nat → Nat → Option Nat
  | 0, _ => none
  | rounds + 1, place =>
    if place < length then
      if memory (place + 3) = packageForms then some place
      else formsFrom memory length rounds (place + lengthAt memory place)
    else none

/-- The place of the first form package of a list. -/
def searchForms (memory : Memory) : Option Nat :=
  formsFrom memory (listLength memory) (listLength memory) 20

end Walk

section Update

/-- What is behind the replaced package, `RtELeng`. -/
def rtELeng (list : Memory) (replaceStart : Nat) : Nat :=
  listLength list - (replaceStart + lengthAt list replaceStart)

/-- The copies into the buffer of the list: the upper half, the edited package, the bottom
half, and the new length. Both halves were saved before. -/
def handedBuffer (list : Memory) (protocol : Protocol) (replaceStart : Nat) : Memory :=
  let edited := packageLength protocol.smcLsiCurrRAIDSetupData
  overlayAt 16 4 (memoryOf (le32 (word32 list 16 +
      protocol.smcLsiCurrRAIDSetupDataAddedSize).toNat) (fun _ => 0))
    (overlayAt (replaceStart + edited) (rtELeng list replaceStart)
      (shifted (replaceStart + lengthAt list replaceStart) list)
      (overlayAt replaceStart edited (packageMemory protocol.smcLsiCurrRAIDSetupData)
        (overlay replaceStart list list)))

/-- The size of the three copies. -/
def written (list : Memory) (protocol : Protocol) (replaceStart : Nat) : Nat :=
  replaceStart + packageLength protocol.smcLsiCurrRAIDSetupData + rtELeng list replaceStart

/-- `UpdateSmcRaidOOBSetupdata`, with the buffer of the exported list, the status of
`UpdatePackageList`, and the buffer that is handed to it. -/
def updateSmcRaidOOBSetupdata (updatePackageList : Memory → Status) (list : Memory)
    (protocol : Protocol) : Checked (Status × Option Memory) :=
  match searchForms list with
  | none => .ok (efiLoadError, none)
  | some replaceStart =>
    -- with its end behind the end of the list `RtELeng` would wrap around
    if replaceStart + lengthAt list replaceStart ≤ listLength list ∧
        written list protocol replaceStart ≤ maxHpkListSize then
      .ok (updatePackageList (handedBuffer list protocol replaceStart),
        some (handedBuffer list protocol replaceStart))
    else .error .overflow

/-- The list that a buffer holds, up to its `PackageLength`. -/
def handedList (buffer : Memory) : List UInt8 := bytesOf buffer (listLength buffer)

end Update

section Lists

/-- A package, as long as its header says. -/
structure Package where
  bytes : List UInt8
  length_eq : packageLength bytes = bytes.length
  header : 4 ≤ bytes.length

/-- The bytes of packages. -/
def packagesBytes (packages : List Package) : List UInt8 := (packages.map Package.bytes).flatten

/-- A list of packages with its header. -/
def listBytes (guid : Vector UInt8 16) (packages : List Package) : List UInt8 :=
  guid.toList ++ (le32 (20 + (packagesBytes packages).length) ++ packagesBytes packages)

/-- A package list of the setup page that fits its buffer, cut at its first form package. -/
structure SetupList where
  guid : Vector UInt8 16
  front : List Package
  forms : Package
  back : List Package
  others : ∀ package ∈ front, packageType package.bytes ≠ packageForms
  isForms : packageType forms.bytes = packageForms
  fits : (listBytes guid (front ++ forms :: back)).length ≤ maxHpkListSize

/-- The bytes of a list of the setup page. -/
def SetupList.bytes (list : SetupList) : List UInt8 :=
  listBytes list.guid (list.front ++ list.forms :: list.back)

/-- The buffer of an exported list, which is cleared before. -/
def SetupList.buffer (list : SetupList) : Memory := packageMemory list.bytes

/-- The setup data after edits of a form package, each of which puts bytes in at a place
behind the header. -/
inductive EditedFrom (package : Package) : Protocol → Prop where
  | initial (counters : Counters) : EditedFrom package ⟨package.bytes, 0, counters, []⟩
  | insert {protocol later : Protocol} {place : Nat} {items : List UInt8}
      (edited : EditedFrom package protocol) (behind : 4 ≤ place)
      (inside : place ≤ protocol.smcLsiCurrRAIDSetupData.length)
      (replaced : replaceBuffer protocol.smcLsiCurrRAIDSetupData place items =
        .ok later.smcLsiCurrRAIDSetupData)
      (added : later.smcLsiCurrRAIDSetupDataAddedSize =
        protocol.smcLsiCurrRAIDSetupDataAddedSize + UInt32.ofNat items.length) :
      EditedFrom package later

/-- What the edits keep: the setup data is a form package, and the added size is what it has
grown by. -/
structure EditedForms (package : Package) (protocol : Protocol) : Prop where
  length_eq : packageLength protocol.smcLsiCurrRAIDSetupData =
    protocol.smcLsiCurrRAIDSetupData.length
  growth : protocol.smcLsiCurrRAIDSetupData.length =
    package.bytes.length + protocol.smcLsiCurrRAIDSetupDataAddedSize.toNat
  type : packageType protocol.smcLsiCurrRAIDSetupData = packageType package.bytes

/-- The setup data as a package. -/
def EditedForms.package {package : Package} {protocol : Protocol}
    (edited : EditedForms package protocol) : Package where
  bytes := protocol.smcLsiCurrRAIDSetupData
  length_eq := edited.length_eq
  header := by
    have header := package.header
    have growth := edited.growth
    omega

/-- The update hands over the list with the setup data in place of its first form package. -/
def Updates (updatePackageList : Memory → Status) (list : SetupList) (protocol : Protocol) :
    Prop :=
  ∃ edited : Package, edited.bytes = protocol.smcLsiCurrRAIDSetupData ∧
    ∃ status handed,
      updateSmcRaidOOBSetupdata updatePackageList list.buffer protocol =
        .ok (status, some handed) ∧
      handedList handed = listBytes list.guid (list.front ++ edited :: list.back)

end Lists

section Edits

variable {package : Package} {protocol : Protocol} {memory : Memory} {place : Nat}
  {bytes : List UInt8}

/-- The bytes of a package lie in its memory. -/
theorem stored_packageMemory (bytes : List UInt8) : Stored (packageMemory bytes) 0 bytes := by
  intro i inside
  rw [Nat.zero_add, packageMemory, memoryOf, List.getElem?_eq_getElem inside, Option.getD_some]

/-- A byte of what is stored is that of the package. -/
theorem stored_byte (stored : Stored memory place bytes) {i : Nat} (inside : i < bytes.length) :
    memory (place + i) = packageMemory bytes i := by
  rw [stored i inside, packageMemory, memoryOf, List.getElem?_eq_getElem inside, Option.getD_some]

/-- A package in memory has the length and the type of its header. -/
theorem Package.stored (stored : Stored memory place package.bytes) :
    lengthAt memory place = package.bytes.length ∧
      memory (place + 3) = packageType package.bytes := by
  have header := package.header
  have first := @stored_byte _ _ _ stored 0 (by omega)
  have second := @stored_byte _ _ _ stored 1 (by omega)
  have third := @stored_byte _ _ _ stored 2 (by omega)
  have type := @stored_byte _ _ _ stored 3 (by omega)
  refine ⟨?_, type⟩
  rw [← package.length_eq, lengthAt, packageLength, second, third, ← first, Nat.add_zero]

/-- Bytes that are put in behind the header leave a package that has grown by them. -/
theorem replaceBuffer_package {data later items : List UInt8}
    (length_eq : packageLength data = data.length) (behind : 4 ≤ place)
    (inside : place ≤ data.length) (replaced : replaceBuffer data place items = .ok later) :
    packageLength later = later.length ∧ later.length = data.length + items.length ∧
      later.length ≤ maxHpkListSize ∧ packageType later = packageType data := by
  simp only [replaceBuffer, length_eq, List.take_length] at replaced
  split_ifs at replaced with fits
  cases replaced
  have joined : (data.take place ++ (items ++ data.drop place)).length =
      data.length + items.length := by
    simp only [List.length_append, List.length_take, List.length_drop]
    omega
  have limit : maxHpkListSize = 0x100000 := rfl
  have size : (le24 (data.length + items.length) ++
      (data.take place ++ (items ++ data.drop place)).drop 3).length =
        data.length + items.length := by
    rw [List.length_append, List.length_drop, joined]
    change 3 + (data.length + items.length - 3) = data.length + items.length
    omega
  refine ⟨?_, size, ?_, ?_⟩
  · rw [packageLength_le24 (by omega), size]
  · rw [size, ← joined]
    exact fits
  · have third : (le24 (data.length + items.length) ++
        (data.take place ++ (items ++ data.drop place)).drop 3)[3]? = data[3]? := by
      rw [List.getElem?_append_right (by change 3 ≤ 3; omega), List.getElem?_drop,
        List.getElem?_append_left (by simp [le24]; omega)]
      exact List.getElem?_take_of_lt (by simp [le24]; omega)
    have near : 3 < data.length := by omega
    simp only [packageType, packageMemory, memoryOf, third, List.getElem?_eq_getElem near,
      Option.getD_some]

/-- Edits keep the form package: its bytes are the old ones and those added. -/
theorem EditedFrom.forms (edited : EditedFrom package protocol) :
    EditedForms package protocol := by
  induction edited with
  | initial counters => exact ⟨package.length_eq, rfl, rfl⟩
  | @insert protocol later place items edited behind inside replaced added inductionHypothesis =>
    obtain ⟨length_eq, growth, type⟩ := inductionHypothesis
    obtain ⟨laterLength, size, short, laterType⟩ :=
      replaceBuffer_package length_eq behind inside replaced
    have limit : maxHpkListSize = 0x100000 := rfl
    refine ⟨laterLength, ?_, laterType.trans type⟩
    rw [added, UInt32.toNat_add, UInt32.toNat_ofNat']
    omega

end Edits

section Search

variable {memory : Memory} {length place : Nat} {front : List Package} {forms : Package}

/-- Packages lie one behind the other. -/
theorem packagesBytes_cons (package : Package) (packages : List Package) :
    packagesBytes (package :: packages) = package.bytes ++ packagesBytes packages := rfl

/-- So do two rows of packages. -/
theorem packagesBytes_append (packages more : List Package) :
    packagesBytes (packages ++ more) = packagesBytes packages ++ packagesBytes more := by
  simp [packagesBytes]

/-- The walk stops at the first form package. -/
theorem formsFrom_stops {rounds : Nat}
    (others : ∀ package ∈ front, packageType package.bytes ≠ packageForms)
    (isForms : packageType forms.bytes = packageForms)
    (stored : Stored memory place (packagesBytes front ++ forms.bytes))
    (inside : place + (packagesBytes front).length < length)
    (enough : (packagesBytes front).length < rounds) :
    formsFrom memory length rounds place = some (place + (packagesBytes front).length) := by
  induction front generalizing place rounds with
  | nil =>
    obtain ⟨-, type⟩ := Package.stored stored
    have here : place < length := inside
    cases rounds with
    | zero => omega
    | succ rounds =>
      rw [formsFrom, if_pos here, type, if_pos isForms]
      rfl
  | cons package front inductionHypothesis =>
    rw [packagesBytes_cons, List.length_append] at inside enough ⊢
    rw [packagesBytes_cons, List.append_assoc, stored_append] at stored
    rw [List.forall_mem_cons] at others
    obtain ⟨here, behind⟩ := stored
    obtain ⟨size, type⟩ := Package.stored here
    have header := package.header
    cases rounds with
    | zero => omega
    | succ rounds =>
      rw [formsFrom, if_pos (by omega), type, if_neg others.1, size,
        inductionHypothesis others.2 behind (by omega) (by omega), Nat.add_assoc]

end Search

section Handed

variable {updatePackageList : Memory → Status} {list : SetupList} {protocol : Protocol}

/-- The bytes of a list lie in its buffer part by part. -/
theorem SetupList.stored (list : SetupList) :
    Stored list.buffer 0 list.guid.toList ∧
      Stored list.buffer 16 (le32 list.bytes.length) ∧
      Stored list.buffer 20 (packagesBytes list.front ++ list.forms.bytes) ∧
      Stored list.buffer (20 + (packagesBytes list.front).length + list.forms.bytes.length)
        (packagesBytes list.back) := by
  have whole : Stored list.buffer 0 list.bytes := stored_packageMemory list.bytes
  have guidSize : list.guid.toList.length = 16 := by simp
  have total : list.bytes.length =
      20 + (packagesBytes (list.front ++ list.forms :: list.back)).length := by
    simp [SetupList.bytes, listBytes, le32]
    omega
  have parts := whole
  rw [SetupList.bytes, listBytes, stored_append, stored_append, guidSize, ← total,
    packagesBytes_append, packagesBytes_cons, ← List.append_assoc, stored_append] at parts
  obtain ⟨guid, size, front, back⟩ := parts
  refine ⟨guid, size, front, ?_⟩
  rw [List.length_append, ← Nat.add_assoc] at back
  exact back

/-- The length of the list, by its parts. -/
theorem SetupList.length_eq (list : SetupList) : list.bytes.length =
    20 + (packagesBytes list.front).length + list.forms.bytes.length +
      (packagesBytes list.back).length := by
  simp [SetupList.bytes, listBytes, le32, packagesBytes_append, packagesBytes_cons]
  omega

/-- The length of a list is the 32-bit field of its header. -/
theorem listLength_word32 (memory : Memory) : listLength memory = (word32 memory 16).toNat := by
  have first := UInt8.toNat_lt (memory 16)
  have second := UInt8.toNat_lt (memory 17)
  have third := UInt8.toNat_lt (memory 18)
  have fourth := UInt8.toNat_lt (memory 19)
  simp only [listLength, word32, UInt32.toNat_add, UInt32.toNat_mul, UInt8.toNat_toUInt32,
    UInt32.reduceToNat, Nat.reduceAdd]
  omega

/-- The header of the list has its length. -/
theorem SetupList.listLength_eq (list : SetupList) : listLength list.buffer = list.bytes.length := by
  have limit : maxHpkListSize = 0x100000 := rfl
  have fits : list.bytes.length ≤ maxHpkListSize := list.fits
  rw [listLength_word32, word32_stored list.stored.2.1, UInt32.toNat_ofNat']
  omega

/-- The loop finds the first form package. -/
theorem SetupList.searched (list : SetupList) :
    searchForms list.buffer = some (20 + (packagesBytes list.front).length) := by
  have size := list.length_eq
  have header := list.forms.header
  rw [searchForms, list.listLength_eq]
  exact formsFrom_stops list.others list.isForms list.stored.2.2.1 (by omega) (by omega)

/-- The parts of the list as the update sees them. -/
theorem SetupList.parts (list : SetupList) :
    lengthAt list.buffer (20 + (packagesBytes list.front).length) = list.forms.bytes.length ∧
      20 + (packagesBytes list.front).length + list.forms.bytes.length ≤ list.bytes.length ∧
      list.bytes.length - (20 + (packagesBytes list.front).length + list.forms.bytes.length) =
        (packagesBytes list.back).length := by
  have whole := list.length_eq
  exact ⟨(Package.stored (stored_append.mp list.stored.2.2.1).2).1, by omega, by omega⟩

/-- With the form package found, the update copies the edited one if the list lies in the buffer
and the new one fits it. -/
theorem update_searched {memory : Memory} {start : Nat} (searched : searchForms memory = some start) :
    updateSmcRaidOOBSetupdata updatePackageList memory protocol =
      if start + lengthAt memory start ≤ listLength memory ∧
          written memory protocol start ≤ maxHpkListSize then
        .ok (updatePackageList (handedBuffer memory protocol start),
          some (handedBuffer memory protocol start))
      else .error .overflow := by
  rw [updateSmcRaidOOBSetupdata, searched]

/-- What is written is as long as the old list and what the edits have added. -/
theorem written_eq (edited : EditedForms list.forms protocol) :
    written list.buffer protocol (20 + (packagesBytes list.front).length) =
      list.bytes.length + protocol.smcLsiCurrRAIDSetupDataAddedSize.toNat := by
  have whole := list.length_eq
  have growth := edited.growth
  obtain ⟨length, -, rest⟩ := list.parts
  rw [written, rtELeng, length, list.listLength_eq, edited.length_eq, rest]
  omega

/-- A list that grows beyond its buffer is not handed over. -/
theorem not_updates_of_overflow (edited : EditedForms list.forms protocol)
    (overflows : maxHpkListSize <
      list.bytes.length + protocol.smcLsiCurrRAIDSetupDataAddedSize.toNat) :
    ¬ Updates updatePackageList list protocol := by
  rintro ⟨package, -, status, handed, ran, -⟩
  have tooLong := written_eq edited
  rw [update_searched list.searched, if_neg] at ran
  · cases ran
  · rintro ⟨-, room⟩
    omega

/-- Bytes that are copied from other memory. -/
theorem stored_copied {data buffer : Memory} {origin place count : Nat} {bytes : List UInt8}
    (stored : Stored data origin bytes) (size : count = bytes.length) :
    Stored (overlayAt place count (shifted origin data) buffer) place bytes := by
  intro i inside
  rw [overlayAt_inside (by omega) (by omega), Nat.add_sub_cancel_left]
  exact stored i inside

/-- The buffer that is handed over holds the list with the setup data in it. -/
theorem handedBuffer_stored {base : Memory} {guid front back : List UInt8} {start : Nat}
    (guidStored : Stored base 0 guid) (guidSize : guid.length = 16)
    (frontStored : Stored base 20 front) (start_eq : start = 20 + front.length)
    (edited : packageLength protocol.smcLsiCurrRAIDSetupData =
      protocol.smcLsiCurrRAIDSetupData.length)
    (backStored : Stored base (start + lengthAt base start) back)
    (rest : rtELeng base start = back.length) :
    Stored (handedBuffer base protocol start) 0 (guid ++ (le32 (word32 base 16 +
      protocol.smcLsiCurrRAIDSetupDataAddedSize).toNat ++
        (front ++ (protocol.smcLsiCurrRAIDSetupData ++ back)))) := by
  have same : overlay start base base = base := by
    funext i
    rw [overlay, ite_self]
  simp only [handedBuffer, same, edited, rest]
  generalize protocol.smcLsiCurrRAIDSetupData = edited
  generalize (word32 base 16 + protocol.smcLsiCurrRAIDSetupDataAddedSize).toNat = grown
  have fourBytes : (le32 grown).length = 4 := rfl
  rw [stored_append, stored_append, stored_append, stored_append, fourBytes, guidSize]
  refine ⟨?_, stored_overlayAt rfl, ?_, ?_, ?_⟩
  · exact ((guidStored.overlayAt (Or.inl (by omega))).overlayAt (Or.inl (by omega))).overlayAt
      (Or.inl (by omega))
  · exact ((frontStored.overlayAt (Or.inl (by omega))).overlayAt (Or.inl (by omega))).overlayAt
      (Or.inr (by omega))
  · have editedStored : Stored (overlayAt start edited.length (packageMemory edited) base) start
        edited := stored_overlayAt rfl
    have place : 0 + 16 + 4 + front.length = start := by omega
    rw [place]
    exact (editedStored.overlayAt (Or.inl (by omega))).overlayAt (Or.inr (by omega))
  · have place : 0 + 16 + 4 + front.length + edited.length = start + edited.length := by omega
    rw [place]
    exact (stored_copied backStored rfl).overlayAt (Or.inr (by omega))

/-- A list that fits is handed over, with its parts around the setup data. -/
theorem update_ran (edited : EditedForms list.forms protocol)
    (fits : list.bytes.length + protocol.smcLsiCurrRAIDSetupDataAddedSize.toNat ≤ maxHpkListSize) :
    ∃ handed, updateSmcRaidOOBSetupdata updatePackageList list.buffer protocol =
        .ok (updatePackageList handed, some handed) ∧
      Stored handed 0 (list.guid.toList ++ (le32 (word32 list.buffer 16 +
        protocol.smcLsiCurrRAIDSetupDataAddedSize).toNat ++ (packagesBytes list.front ++
          (protocol.smcLsiCurrRAIDSetupData ++ packagesBytes list.back)))) := by
  obtain ⟨guid, -, front, back⟩ := list.stored
  obtain ⟨length, inside, rest⟩ := list.parts
  have guidSize : list.guid.toList.length = 16 := by simp
  rw [← length] at back
  rw [← length, ← list.listLength_eq] at inside rest
  have filled := handedBuffer_stored guid guidSize (stored_append.mp front).1 rfl
    edited.length_eq back rest
  have room := written_eq edited
  refine ⟨_, ?_, filled⟩
  rw [update_searched list.searched]
  exact if_pos ⟨inside, room.trans_le fits⟩

/-- The new length of the list is the size of its parts. -/
theorem grown_eq (edited : EditedForms list.forms protocol)
    (fits : list.bytes.length + protocol.smcLsiCurrRAIDSetupDataAddedSize.toNat ≤ maxHpkListSize) :
    (word32 list.buffer 16 + protocol.smcLsiCurrRAIDSetupDataAddedSize).toNat =
      20 + (packagesBytes (list.front ++ edited.package :: list.back)).length := by
  have whole := list.length_eq
  have growth := edited.growth
  have limit : maxHpkListSize = 0x100000 := rfl
  have parts : (packagesBytes (list.front ++ edited.package :: list.back)).length =
      (packagesBytes list.front).length + (protocol.smcLsiCurrRAIDSetupData.length +
        (packagesBytes list.back).length) := by
    rw [packagesBytes_append, packagesBytes_cons, List.length_append, List.length_append]
    rfl
  rw [word32_stored list.stored.2.1, UInt32.toNat_add, UInt32.toNat_ofNat', parts]
  omega

/-- A list that fits is handed over with the setup data in place of its first form package. -/
theorem updates_of_fits (edited : EditedForms list.forms protocol)
    (fits : list.bytes.length + protocol.smcLsiCurrRAIDSetupDataAddedSize.toNat ≤ maxHpkListSize) :
    Updates updatePackageList list protocol := by
  obtain ⟨handed, ran, stored⟩ := @update_ran updatePackageList list protocol edited fits
  refine ⟨edited.package, rfl, _, handed, ran, ?_⟩
  have target : list.guid.toList ++ (le32 (word32 list.buffer 16 +
      protocol.smcLsiCurrRAIDSetupDataAddedSize).toNat ++ (packagesBytes list.front ++
        (protocol.smcLsiCurrRAIDSetupData ++ packagesBytes list.back))) =
          listBytes list.guid (list.front ++ edited.package :: list.back) := by
    rw [grown_eq edited fits, listBytes, packagesBytes_append, packagesBytes_cons]
    rfl
  have guidSize : list.guid.toList.length = 16 := by simp
  have parts := (stored_append.mp stored).2
  rw [guidSize] at parts
  have size := word32_stored (stored_append.mp parts).1
  rw [UInt32.ofNat_toNat] at size
  have length : listLength handed =
      (listBytes list.guid (list.front ++ edited.package :: list.back)).length := by
    rw [listLength_word32, size, grown_eq edited fits, listBytes, List.length_append, List.length_append,
      guidSize]
    change _ = 16 + (4 + _)
    omega
  rw [target] at stored
  rw [handedList, length]
  have start : shifted 0 handed = handed := by
    funext i
    rw [shifted, Nat.zero_add]
  have copied := bytesOf_stored stored
  rw [start] at copied
  exact copied

/-- The list is handed over as it is meant exactly when its buffer has room for what the edits have
added. The edits are any of those that `EditedFrom` allows, and their added size is counted by the
code itself. -/
theorem updates_iff (edited : EditedFrom list.forms protocol) :
    Updates updatePackageList list protocol ↔
      list.bytes.length + protocol.smcLsiCurrRAIDSetupDataAddedSize.toNat ≤ maxHpkListSize := by
  constructor
  · intro updates
    by_contra overflows
    exact not_updates_of_overflow edited.forms (by omega) updates
  · exact updates_of_fits edited.forms

/-- The edits start from the first form package of the list. -/
theorem initial_edited {counters : Counters}
    (ran : initialSmcRaidSetupPageData ((list.front ++ list.forms :: list.back).map Package.bytes)
      counters = .ok (efiSuccess, some protocol)) : EditedFrom list.forms protocol := by
  have found : ((list.front ++ list.forms :: list.back).map Package.bytes).find?
      (fun package => packageType package = packageForms) = some list.forms.bytes := by
    have others : (list.front.map Package.bytes).find?
        (fun package => packageType package = packageForms) = none := by
      rw [List.find?_eq_none]
      intro bytes member
      obtain ⟨package, inside, rfl⟩ := List.mem_map.mp member
      rw [decide_eq_true_iff]
      exact list.others package inside
    rw [List.map_append, List.find?_append, others, List.map_cons, List.find?_cons, list.isForms]
    rfl
  rw [initialSmcRaidSetupPageData, found] at ran
  simp only at ran
  split_ifs at ran
  cases ran
  rw [list.forms.length_eq, List.take_length]
  exact EditedFrom.initial counters

/-- A card's opcodes are such an edit. -/
theorem insertItems_edited {α : Type} {package : Package} {later : Protocol} {place : Nat}
    {emission : Emission α} {value : α} (edited : EditedFrom package protocol)
    (short : ∀ chunk ∈ (emission protocol.counters).events, chunk.length < 128)
    (behind : 4 ≤ place) (inside : place ≤ protocol.smcLsiCurrRAIDSetupData.length)
    (ran : insertItems place emission protocol = .ok (value, later)) :
    EditedFrom package later := by
  obtain ⟨replaced, added, -⟩ := insertItems_ok short ran
  exact EditedFrom.insert edited behind inside replaced added

/-- The type of a form package is that of its header. -/
theorem FormsPackage.type_eq {data : List UInt8} {type : UInt8} {ops : List (List UInt8)}
    (package : FormsPackage data type ops) : packageType data = type := by
  have third : data[3]? = some type := by
    rw [package.bytes]
    rfl
  rw [packageType, packageMemory, memoryOf, third, Option.getD_some]

/-- A run that leaves a protocol has made the first one and loaded the cards into it. -/
theorem addDynamicItems_runs {env : FormsEnv} {packages : List (List UInt8)}
    {counters : Counters} {cards : List CardForms} {status : Status}
    (ran : addDynamicItems env packages counters cards = .ok (status, some protocol)) :
    ∃ initialStatus first,
      initialSmcRaidSetupPageData packages counters = .ok (initialStatus, some first) ∧
        loadCards env cards first = .ok (status, protocol) := by
  rw [addDynamicItems] at ran
  cases initial : initialSmcRaidSetupPageData packages counters with
  | error fault =>
    rw [initial] at ran
    cases ran
  | ok done =>
    obtain ⟨initialStatus, first⟩ := done
    rw [initial] at ran
    cases first with
    | none => cases ran
    | some first =>
      change (loadCards env cards first >>= fun done => Except.ok (done.1, some done.2)) = _ at ran
      cases loaded : loadCards env cards first with
      | error fault =>
        rw [loaded] at ran
        cases ran
      | ok done =>
        rw [loaded] at ran
        cases ran
        exact ⟨initialStatus, first, rfl, loaded⟩

/-- After the runs of `SmcLsiRaidLib_AddDynamicItems` the list is handed over as it is meant
exactly when its buffer has room. -/
theorem addDynamicItems_updates {env : FormsEnv} {packages original : List (List UInt8)}
    {counters : Counters} {cards : List CardForms} {status : Status}
    (found : packages.find? (fun package => packageType package = packageForms) =
      some list.forms.bytes)
    (wellFormed : FormsPackage list.forms.bytes packageForms original)
    (closes : ∀ card ∈ cards, Closes card.toInventory)
    (ran : addDynamicItems env packages counters cards = .ok (status, some protocol)) :
    Updates updatePackageList list protocol ↔
      list.bytes.length + protocol.smcLsiCurrRAIDSetupDataAddedSize.toNat ≤ maxHpkListSize := by
  obtain ⟨initialStatus, first, initial, loaded⟩ := addDynamicItems_runs ran
  have grown := loadCards_grown env original list.forms.bytes.length packageForms closes
    (initial_grown found wellFormed initial) loaded
  obtain ⟨marked, package, -, -, growth⟩ := grown
  have edited : EditedForms list.forms protocol :=
    ⟨package.length_eq, growth, (FormsPackage.type_eq package).trans list.isForms.symm⟩
  constructor
  · intro updates
    by_contra overflows
    exact not_updates_of_overflow edited (by omega) updates
  · exact updates_of_fits edited

end Handed

section Samples

/-- The form package of the setup page. -/
def pagePackage : Package := ⟨page, page_wellFormed.length_eq, by decide⟩

/-- The string package of the example has the size in its header. -/
theorem stringBytes_length {size : Nat} (header : 4 ≤ size) :
    (le24 size ++ (4 :: List.replicate (size - 4) 0)).length = size := by
  simp [le24]
  omega

/-- A package of strings with a size. -/
def stringPackage (size : Nat) (header : 4 ≤ size) (short : size < 2 ^ 24) : Package where
  bytes := le24 size ++ (4 :: List.replicate (size - 4) 0)
  length_eq := (packageLength_le24 short).trans (stringBytes_length header).symm
  header := (stringBytes_length header).ge.trans' header

/-- The form package of the setup page and strings behind it. -/
def pageList (size : Nat) (header : 4 ≤ size) (short : size ≤ 0x100000 - 86) : SetupList where
  guid := Vector.replicate 16 0
  front := []
  forms := pagePackage
  back := [stringPackage size header (by omega)]
  others := by simp
  isForms := by decide
  fits := by
    have limit : maxHpkListSize = 0x100000 := rfl
    have pageSize : page.length = 66 := by decide
    simp [listBytes, packagesBytes, pagePackage, stringPackage, le24, le32, pageSize]
    omega

/-- The list of the example is as long as its string package and 86 bytes. -/
theorem pageList_length (size : Nat) (header : 4 ≤ size) (short : size ≤ 0x100000 - 86) :
    (pageList size header short).bytes.length = 86 + size := by
  have pageSize : page.length = 66 := by decide
  simp [SetupList.bytes, listBytes, packagesBytes, pageList, pagePackage, stringPackage, le24,
    le32, pageSize]
  omega

/-- A variable store of a variable with one letter. -/
def oneVarStore : List UInt8 :=
  [0x24, 24] ++ (List.replicate 16 0 ++ (le16 1 ++ (le16 1 ++ [0x41, 0])))

/-- The setup page with a variable store behind its FORM_SET. -/
def editedPage : Protocol where
  smcLsiCurrRAIDSetupData :=
    le24 90 ++ (page.take 27 ++ (oneVarStore ++ page.drop 27)).drop 3
  smcLsiCurrRAIDSetupDataAddedSize := 24
  counters := plainCounters
  inserted := [oneVarStore]

/-- One variable is put in front of the forms of the example. -/
theorem editedPage_replaced :
    replaceBuffer page 27 oneVarStore = .ok editedPage.smcLsiCurrRAIDSetupData := by
  have fits : (page.take 27 ++ (oneVarStore ++ (page.take (packageLength page)).drop 27)).length ≤
      maxHpkListSize := by decide +kernel
  have same : le24 (packageLength page + oneVarStore.length) ++ (page.take 27 ++
      (oneVarStore ++ (page.take (packageLength page)).drop 27)).drop 3 =
        editedPage.smcLsiCurrRAIDSetupData := by decide +kernel
  simp only [replaceBuffer, same]
  exact if_pos fits

/-- That is an edit of the page. -/
theorem editedPage_edited : EditedFrom pagePackage editedPage :=
  @EditedFrom.insert pagePackage ⟨page, 0, plainCounters, []⟩ editedPage 27 oneVarStore
    (EditedFrom.initial plainCounters) (by decide) (by decide) editedPage_replaced rfl

/-- A list with few strings has room. -/
theorem pageList_updates :
    Updates (fun _ => efiSuccess) (pageList 4 (by decide) (by decide)) editedPage :=
  (updates_iff editedPage_edited).mpr (by rw [pageList_length]; decide)

/-- In a list that fills its buffer the bottom half is written behind the end. -/
theorem not_updates_full : ¬ ∀ (updatePackageList : Memory → Status) (list : SetupList)
    (protocol : Protocol), EditedFrom list.forms protocol →
    Updates updatePackageList list protocol := by
  intro claimed
  have updates := claimed (fun _ => efiSuccess)
    (pageList (0x100000 - 86) (by decide) (by decide)) editedPage editedPage_edited
  have size := pageList_length (0x100000 - 86) (by decide) (by decide)
  have limit : maxHpkListSize = 0x100000 := rfl
  have grown : editedPage.smcLsiCurrRAIDSetupDataAddedSize.toNat = 24 := rfl
  exact not_updates_of_overflow editedPage_edited.forms (by omega) updates

end Samples

end SmcPkg.SetupUpdate
