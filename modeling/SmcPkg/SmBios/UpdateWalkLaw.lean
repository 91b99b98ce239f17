import Mathlib
import SmcPkg.SmBios.UpdateWalk

/-!
# What the walk over the SMBIOS structures reaches

While a type is walked over, its structures are those that were kept and then those that are
still to come. The number is one more than the kept ones, and the other count is the position of
the next one, as long as neither of them passes what 8 bits and the table of the slots can hold.

The whole walk is right for all answers of the services if and only if the entries fit, no type
that is listed twice has structures, and whatever is written has room. For the first direction
three runs are enough: one in which every row calls its function once and nothing is changed, one
in which all services succeed, and that run again for what remains. What the update functions
write, and the names of manufacturers, are arbitrary.
-/

namespace SmcPkg.UpdateWalk

open Card RaidCmd SupGray

section Table

variable {smbios : Smbios} {type other : UInt8} {handle : UInt16} {found : Structure}
  {kept rest : List Structure}

/-- The structures of a type have handles of their own, as all structures do. -/
theorem handlesOf_nodup : (smbios.handlesOf type).Nodup :=
  (List.filter_sublist.map _).nodup smbios.distinct

/-- A structure is of one type, so that its handle is no handle of another type. -/
theorem handle_ne (member : found ∈ smbios.ofType type) (differs : other ≠ type) :
    ∀ s ∈ smbios.ofType other, s.handle ≠ found.handle := by
  intro s inOther same
  obtain ⟨foundIn, foundType⟩ := List.mem_filter.mp member
  obtain ⟨sIn, sType⟩ := List.mem_filter.mp inOther
  have equal : s = found := List.inj_on_of_nodup_map smbios.distinct sIn foundIn same
  subst equal
  simp only [decide_eq_true_eq] at foundType sType
  exact differs (sType.symm.trans foundType)

/-- The handles of different types are different. -/
theorem not_mem_handlesOf (listed : handle ∈ smbios.handlesOf type) (differs : other ≠ type) :
    handle ∉ smbios.handlesOf other := by
  intro inOther
  obtain ⟨found, member, rfl⟩ := List.mem_map.mp listed
  obtain ⟨s, inOther, same⟩ := List.mem_map.mp inOther
  exact handle_ne member differs s inOther same

/-- The structures before and behind one of its type have other handles. -/
theorem handle_ne_split (shape : smbios.ofType type = kept ++ found :: rest) :
    (∀ s ∈ kept, s.handle ≠ found.handle) ∧ ∀ s ∈ rest, s.handle ≠ found.handle := by
  have distinct : (smbios.handlesOf type).Nodup := handlesOf_nodup
  rw [Smbios.handlesOf, shape, List.map_append, List.map_cons, List.nodup_middle,
    List.nodup_cons, ← List.map_append] at distinct
  have absent := distinct.1
  constructor
  · intro s member same
    exact absent (List.mem_map.mpr ⟨s, List.mem_append_left rest member, same⟩)
  · intro s member same
    exact absent (List.mem_map.mpr ⟨s, List.mem_append_right kept member, same⟩)

/-- A structure between the others is not among them. -/
theorem not_mem_of_lost {after : Smbios} (shape : smbios.ofType type = kept ++ found :: rest)
    (left : after.ofType type = kept ++ rest) : found.handle ∉ after.handlesOf type := by
  intro listed
  rw [Smbios.handlesOf, left] at listed
  obtain ⟨s, there, same⟩ := List.mem_map.mp listed
  obtain ⟨before, behind⟩ := handle_ne_split shape
  rcases List.mem_append.mp there with first | last
  · exact before s first same
  · exact behind s last same

/-- Nothing is changed where the handle is not. -/
theorem map_absent {structures : List Structure} (buffer : List UInt8)
    (absent : ∀ s ∈ structures, s.handle ≠ handle) :
    structures.map (fun s => if s.handle = handle then { s with body := buffer } else s) =
      structures := by
  have same : ∀ s ∈ structures,
      (if s.handle = handle then { s with body := buffer } else s) = id s :=
    fun s member => if_neg (absent s member)
  rw [List.map_congr_left same, List.map_id]

/-- Nothing is taken out where the handle is not. -/
theorem filter_absent {structures : List Structure}
    (absent : ∀ s ∈ structures, s.handle ≠ handle) :
    structures.filter (fun s => s.handle ≠ handle) = structures := by
  rw [List.filter_eq_self]
  intro s member
  simpa using absent s member

/-- The structures of a type are changed as all structures are: the change leaves the types. -/
theorem ofType_overwrite (buffer : List UInt8) :
    (smbios.overwrite handle buffer).ofType type = (smbios.ofType type).map fun s =>
      if s.handle = handle then { s with body := buffer } else s := by
  simp only [Smbios.ofType, Smbios.overwrite, List.filter_map]
  congr 1
  refine List.filter_congr ?_
  intro s _
  simp only [Function.comp_apply]
  split_ifs <;> rfl

/-- A deletion takes the structure with the handle out of its type. -/
theorem ofType_delete :
    (smbios.deleteStructureByHandle handle).ofType type =
      (smbios.ofType type).filter (fun s => s.handle ≠ handle) := by
  simp only [Smbios.ofType, Smbios.deleteStructureByHandle, List.filter_filter]
  congr 1
  funext s
  exact Bool.and_comm _ _

/-- The structure that is changed keeps its place. -/
theorem ofType_overwrite_same (buffer : List UInt8)
    (shape : smbios.ofType type = kept ++ found :: rest) :
    (smbios.overwrite found.handle buffer).ofType type =
      kept ++ { found with body := buffer } :: rest := by
  obtain ⟨before, behind⟩ := handle_ne_split shape
  rw [ofType_overwrite, shape, List.map_append, List.map_cons, map_absent buffer before,
    map_absent buffer behind, if_pos rfl]

/-- What is behind a deleted structure moves up. -/
theorem ofType_delete_same (shape : smbios.ofType type = kept ++ found :: rest) :
    (smbios.deleteStructureByHandle found.handle).ofType type = kept ++ rest := by
  obtain ⟨before, behind⟩ := handle_ne_split shape
  rw [ofType_delete, shape, List.filter_append, List.filter_cons_of_neg (by simp),
    filter_absent before, filter_absent behind]

/-- A structure is written in its place: the bodies of the others stay. -/
theorem overwrite_structures (buffer : List UInt8) :
    (smbios.overwrite handle buffer).structures = smbios.structures.map fun s =>
      if s.handle = handle then { s with body := buffer } else s := rfl

/-- The other structures are kept in their order. -/
theorem delete_structures : (smbios.deleteStructureByHandle handle).structures =
    smbios.structures.filter fun s => s.handle ≠ handle := rfl

/-- The sizes of the table and of a structure in it, and what a change of the structure and its
deletion make of them. -/
theorem getTotalStructureSize_changed (member : found ∈ smbios.structures) (buffer : List UInt8) :
    (smbios.overwrite found.handle buffer).getTotalStructureSize =
        4 + buffer.length + (smbios.getTotalStructureSize - found.getStructureLength) ∧
      (smbios.deleteStructureByHandle found.handle).getTotalStructureSize =
        smbios.getTotalStructureSize - found.getStructureLength := by
  obtain ⟨before, behind, shape⟩ := List.append_of_mem member
  have distinct := smbios.distinct
  rw [shape, List.map_append, List.map_cons, List.nodup_middle, List.nodup_cons,
    ← List.map_append] at distinct
  have absent : ∀ s ∈ before ++ behind, s.handle ≠ found.handle :=
    fun s listed same => distinct.1 (List.mem_map.mpr ⟨s, listed, same⟩)
  have first : ∀ s ∈ before, s.handle ≠ found.handle :=
    fun s listed => absent s (List.mem_append_left behind listed)
  have last : ∀ s ∈ behind, s.handle ≠ found.handle :=
    fun s listed => absent s (List.mem_append_right before listed)
  have overwritten : (smbios.overwrite found.handle buffer).structures =
      before ++ { found with body := buffer } :: behind := by
    rw [overwrite_structures, shape, List.map_append, List.map_cons, map_absent buffer first,
      map_absent buffer last, if_pos rfl]
  have deleted : (smbios.deleteStructureByHandle found.handle).structures = before ++ behind := by
    rw [delete_structures, shape, List.filter_append,
      List.filter_cons_of_neg (by simp), filter_absent first, filter_absent last]
  simp only [Smbios.getTotalStructureSize, overwritten, deleted, shape, List.map_append,
    List.map_cons, List.sum_append, List.sum_cons]
  simp only [Smbios.overwrite, Smbios.deleteStructureByHandle, Structure.getStructureLength]
  omega

@[simp] theorem ofType_add (size : Nat) : (smbios.addStructure size).ofType type =
    smbios.ofType type := by
  unfold Smbios.addStructure
  split_ifs <;> rfl

/-- What is added takes room if it has it. -/
theorem getTotalStructureSize_add {updateFn : UpdateFn} :
    (smbios.addStructure (updateFn.adds found)).getTotalStructureSize =
      updateFn.sizeAdded smbios.maximumTableSize found smbios.getTotalStructureSize := by
  unfold Smbios.addStructure UpdateFn.sizeAdded
  split_ifs
  · simp only [Smbios.getTotalStructureSize]
    omega
  · rfl

/-- The number reads the structure at its place, or nothing behind the last one, as long as 8 bits
can tell the places apart. -/
theorem readStrucByType_number (notEnd : type ≠ 127) {count : Nat} (room : count < 256) :
    smbios.readStrucByType type (UInt8.ofNat (count + 1)) = (smbios.ofType type)[count]? := by
  have number : (UInt8.ofNat (count + 1) - 1).toNat = count := by
    rw [UInt8.ofNat_add]
    have one : UInt8.ofNat count + UInt8.ofNat 1 - 1 = UInt8.ofNat count := by
      exact UInt8.add_sub_cancel _ 1
    rw [one, UInt8.toNat_ofNat']
    exact Nat.mod_eq_of_lt room
  rw [Smbios.readStrucByType, if_neg notEnd, number]

/-- The number reads the first structure that is still to come. -/
theorem read_next (notEnd : type ≠ 127) (shape : smbios.ofType type = kept ++ found :: rest)
    (room : kept.length < 256) :
    smbios.readStrucByType type (UInt8.ofNat (kept.length + 1)) = some found := by
  rw [readStrucByType_number notEnd room, shape, List.getElem?_append_right (Nat.le_refl _),
    Nat.sub_self]
  rfl

/-- Behind the last structure of a type nothing is read. -/
theorem read_none (notEnd : type ≠ 127) {count : Nat} (room : count < 256)
    (behind : (smbios.ofType type).length ≤ count) :
    smbios.readStrucByType type (UInt8.ofNat (count + 1)) = none := by
  rw [readStrucByType_number notEnd room, List.getElem?_eq_none_iff]
  exact behind

/-- What is read is of the type, except at the end of the table. -/
theorem mem_of_read (notEnd : type ≠ 127) {inst : UInt8}
    (read : smbios.readStrucByType type inst = some found) : found ∈ smbios.ofType type := by
  rw [Smbios.readStrucByType, if_neg notEnd] at read
  exact List.mem_of_getElem? read

end Table

section Frame

variable {smbios middle after : Smbios} {type : UInt8} {found : Structure}

/-- What the services do not change when they deal with a structure of a type: the structures of
the other types, and where the table lies and how long it may be. Of the type there are never
more. -/
structure Frame (type : UInt8) (smbios after : Smbios) : Prop where
  others : ∀ other, other ≠ type → after.ofType other = smbios.ofType other
  fewer : (after.handlesOf type).Sublist (smbios.handlesOf type)
  maximum : after.maximumTableSize = smbios.maximumTableSize
  segment : after.smbiosTableAtE000 = smbios.smbiosTableAtE000

/-- Nothing done leaves everything. -/
theorem Frame.refl (type : UInt8) (smbios : Smbios) : Frame type smbios smbios :=
  ⟨fun _ _ => rfl, List.Sublist.refl _, rfl, rfl⟩

/-- Two steps on one type leave the structures of the other types. -/
theorem Frame.trans (first : Frame type smbios middle) (second : Frame type middle after) :
    Frame type smbios after :=
  ⟨fun other differs => (second.others other differs).trans (first.others other differs),
    second.fewer.trans first.fewer, second.maximum.trans first.maximum,
    second.segment.trans first.segment⟩

/-- A structure is added behind the others, so those of the other types stay. The type is that
of the row. -/
theorem add_frame (size : Nat) : Frame type smbios (smbios.addStructure size) := by
  unfold Smbios.addStructure
  split_ifs
  · exact ⟨fun _ _ => rfl, List.Sublist.refl _, rfl, rfl⟩
  · exact Frame.refl type smbios

/-- A structure that is written in its place is one of its type. -/
theorem overwrite_frame (member : found ∈ smbios.ofType type) (buffer : List UInt8) :
    Frame type smbios (smbios.overwrite found.handle buffer) := by
  refine ⟨?_, ?_, rfl, rfl⟩
  · intro other differs
    rw [ofType_overwrite, map_absent buffer (handle_ne member differs)]
  · obtain ⟨before, behind, shape⟩ := List.append_of_mem member
    rw [Smbios.handlesOf, ofType_overwrite_same buffer shape, Smbios.handlesOf, shape,
      List.map_append, List.map_append, List.map_cons, List.map_cons]

/-- A deletion of a structure of a type leaves the other types. -/
theorem delete_frame (member : found ∈ smbios.ofType type) :
    Frame type smbios (smbios.deleteStructureByHandle found.handle) := by
  refine ⟨?_, ?_, rfl, rfl⟩
  · intro other differs
    rw [ofType_delete, filter_absent (handle_ne member differs)]
  · rw [Smbios.handlesOf, ofType_delete]
    exact List.filter_sublist.map _

/-- Whatever comes of a write, in its place, out of room or refused, the other types are left.
-/
theorem write_frame {answer : Answer} {buffer : List UInt8} (member : found ∈ smbios.ofType type) :
    Frame type smbios (writeStructureByHandle answer smbios found buffer).2 := by
  unfold writeStructureByHandle
  simp only
  split_ifs
  · exact Frame.refl type smbios
  · exact Frame.refl type smbios
  · exact overwrite_frame member buffer
  · exact delete_frame member
  · exact delete_frame member

/-- A round changes the structures of its own type only. -/
theorem service_frame {answer : Answer} {updated : Updated}
    (member : found ∈ smbios.ofType type) :
    Frame type smbios (service answer updated found smbios).2 := by
  unfold service
  cases updated.smbFunc with
  | skipStructure => exact Frame.refl type smbios
  | writeStructure => exact write_frame member
  | deleteStructure =>
    simp only
    split_ifs
    · exact Frame.refl type smbios
    · exact delete_frame member

end Frame

section Calls

variable {imc : ImcDimm} {updateFn : UpdateFn} {inst tempInstance : UInt8} {found : Structure}
  {position : Nat} {updated : Updated}

/-- The positions that an update function can look up. -/
def UpdateFn.size : UpdateFn → Nat
  | .type16 => 4
  | .type17 _ => 24
  | .other _ _ => 256

/-- The second count at a position. The other functions do not use it. -/
def UpdateFn.temp (updateFn : UpdateFn) (position : Nat) : UInt8 :=
  match updateFn with
  | .other _ _ => 0
  | _ => UInt8.ofNat position

/-- What a call at a position does: it keeps the structure and the number, and writes what its
function writes, or it deletes the structure and takes one from the number. -/
structure Decides (imc : ImcDimm) (updateFn : UpdateFn) (position : Nat) (found : Structure)
    (inst : UInt8) (updated : Updated) : Prop where
  adds : updated.adds = updateFn.adds found
  temp : updated.tempInstance = updateFn.temp (position + 1)
  kept : updateFn.keeps imc position = true → updated.inst = inst
  skips : updateFn.keeps imc position = true → updateFn.written found = none →
    updated.smbFunc = .skipStructure
  writes : ∀ buffer, updateFn.keeps imc position = true → updateFn.written found = some buffer →
    updated.smbFunc = .writeStructure ∧ updated.buffer = buffer
  deletes : updateFn.keeps imc position = false →
    updated.smbFunc = .deleteStructure ∧ updated.inst = inst - 1

/-- A position with slots or without, for the functions that look up whether it has any. -/
theorem slotsUpdated_decides (adds : updateFn.adds found = 0)
    (temp : tempInstance + 1 = updateFn.temp (position + 1)) :
    Decides imc updateFn position found inst
      (slotsUpdated (updateFn.keeps imc position) (updateFn.written found) inst tempInstance
        found) := by
  cases keep : updateFn.keeps imc position with
  | true =>
    cases write : updateFn.written found with
    | none =>
      refine ⟨adds.symm, temp, fun _ => rfl, fun _ _ => rfl, ?_, ?_⟩
      · intro buffer _ written
        rw [write] at written
        cases written
      · intro deleted
        rw [keep] at deleted
        cases deleted
    | some buffer =>
      refine ⟨adds.symm, temp, fun _ => rfl, ?_, ?_, ?_⟩
      · intro _ written
        rw [write] at written
        cases written
      · intro other _ written
        rw [write] at written
        cases written
        exact ⟨rfl, rfl⟩
      · intro deleted
        rw [keep] at deleted
        cases deleted
  | false =>
    refine ⟨adds.symm, temp, ?_, ?_, ?_, fun _ => ⟨rfl, rfl⟩⟩
    · intro kept
      rw [keep] at kept
      cases kept
    · intro kept
      rw [keep] at kept
      cases kept
    · intro _ kept
      rw [keep] at kept
      cases kept

/-- The three columns of the first four rows are in the table of the modules. -/
theorem read_inside {entry channel : Nat} (row : entry < 4) (column : channel < 3) :
    imc.read entry channel = .ok (imc.dimmNum entry channel) :=
  if_pos ⟨row, column⟩

/-- Behind the fourth row the code reads over the end of the table. -/
theorem read_outside {entry channel : Nat} (outside : 4 ≤ entry) :
    imc.read entry channel = .error .overflow :=
  if_neg (by omega)

/-- A memory array at a position in the table. -/
theorem smBiosType16Update_inside (inside : position < 4) :
    ∃ updated, smBiosType16Update imc inst (UInt8.ofNat position) found = .ok updated ∧
      Decides imc .type16 position found inst updated := by
  have row : (UInt8.ofNat position).toNat = position := by
    rw [UInt8.toNat_ofNat']
    exact Nat.mod_eq_of_lt (by omega)
  have below : ¬ 4 < UInt8.ofNat position := by
    rw [UInt8.lt_iff_toNat_lt, row]
    exact Nat.not_lt.mpr (Nat.le_of_lt inside)
  refine ⟨_, ?_, @slotsUpdated_decides imc .type16 inst (UInt8.ofNat position) found position rfl
    (UInt8.ofNat_add position 1).symm⟩
  rw [smBiosType16Update, row, read_inside inside (by omega), read_inside inside (by omega),
    read_inside inside (by omega)]
  simp only [below, or_false, UInt8.zero_add]
  rfl

/-- The entry, the channel and the slot of a position. -/
theorem position_parts (inside : position < 24) :
    (UInt8.ofNat position / 6).toNat = position / 6 ∧
      ((UInt8.ofNat position - UInt8.ofNat position / 6 * 6) / 2).toNat = position % 6 / 2 ∧
      (UInt8.ofNat position - UInt8.ofNat position / 6 * 6 -
        (UInt8.ofNat position - UInt8.ofNat position / 6 * 6) / 2 * 2).toNat = position % 2 ∧
      ¬ 24 < UInt8.ofNat position := by
  have all : ∀ position < 24, (UInt8.ofNat position / 6).toNat = position / 6 ∧
      ((UInt8.ofNat position - UInt8.ofNat position / 6 * 6) / 2).toNat = position % 6 / 2 ∧
      (UInt8.ofNat position - UInt8.ofNat position / 6 * 6 -
        (UInt8.ofNat position - UInt8.ofNat position / 6 * 6) / 2 * 2).toNat = position % 2 ∧
      ¬ 24 < UInt8.ofNat position := by decide
  exact all position inside

/-- A memory device at a position in the table. -/
theorem smBiosType17Update_inside {manufacturer : Structure → Option (List UInt8)}
    (inside : position < 24) :
    ∃ updated, smBiosType17Update imc manufacturer inst (UInt8.ofNat position) found =
        .ok updated ∧
      Decides imc (.type17 manufacturer) position found inst updated := by
  obtain ⟨row, column, slot, below⟩ := position_parts inside
  refine ⟨_, ?_, @slotsUpdated_decides imc (.type17 manufacturer) inst (UInt8.ofNat position) found
    position rfl (UInt8.ofNat_add position 1).symm⟩
  rw [smBiosType17Update]
  simp only [row, column]
  rw [read_inside (by omega) (by omega)]
  simp only [bind, Except.bind, UInt8.lt_iff_toNat_lt, slot]
  simp only [UInt8.lt_iff_toNat_lt] at below
  simp only [below, or_false]
  rfl

/-- A call at a position that can be looked up. -/
theorem call_inside (inside : position < updateFn.size) :
    ∃ updated, updateFn.call imc inst (updateFn.temp position) found = .ok updated ∧
      Decides imc updateFn position found inst updated := by
  cases updateFn with
  | type16 => exact smBiosType16Update_inside inside
  | type17 manufacturer => exact smBiosType17Update_inside inside
  | other update adds =>
    refine ⟨_, rfl, rfl, rfl, fun _ => rfl, ?_, ?_, ?_⟩
    · intro _ written
      cases written
    · intro buffer _ written
      cases written
      exact ⟨rfl, rfl⟩
    · intro deleted
      cases deleted

/-- Behind the table of the slots the look-up leaves it. -/
theorem smBiosType16Update_outside :
    smBiosType16Update imc inst 4 found = .error .overflow := by
  rw [smBiosType16Update, read_outside (by decide)]
  rfl

/-- The update of the twenty-fourth and later modules reads over the end of the table. -/
theorem smBiosType17Update_outside {manufacturer : Structure → Option (List UInt8)} :
    smBiosType17Update imc manufacturer inst 24 found = .error .overflow := by
  rw [smBiosType17Update]
  simp only
  rw [read_outside (by decide)]
  rfl

end Calls

section Walk

variable {imc : ImcDimm} {entry : Entry} {answers : Nat → Answer} {smbios : Smbios}
  {answer : Answer} {updated : Updated} {found : Structure} {kept rest : List Structure}
  {position round : Nat} {inst tempInstance : UInt8}

/-- What a round comes to. A service fails, or the structure is kept or deleted and the size of the
table is the one foreseen, or what is written has no room and the structure is lost. -/
inductive Served (imc : ImcDimm) (entry : Entry) (position : Nat) (found : Structure)
    (kept rest : List Structure) (smbios after : Smbios) (failed : Bool) : Prop
  | refused (failed : failed = true)
  | kept (fine : failed = false) (keeps : entry.smBiosUpdateFn.keeps imc position = true)
    (other : Structure) (same : other.handle = found.handle)
    (shape : after.ofType entry.smBiosUpdateType = kept ++ other :: rest)
    (size : smbios.smbiosTableAtE000 = true ∨
      entry.smBiosUpdateFn.sizeServed imc smbios.maximumTableSize position found
        smbios.getTotalStructureSize = some after.getTotalStructureSize)
  | deleted (fine : failed = false) (drops : entry.smBiosUpdateFn.keeps imc position = false)
    (shape : after.ofType entry.smBiosUpdateType = kept ++ rest)
    (size : entry.smBiosUpdateFn.sizeServed imc smbios.maximumTableSize position found
      smbios.getTotalStructureSize = some after.getTotalStructureSize)
  | lost (fine : failed = false) (keeps : entry.smBiosUpdateFn.keeps imc position = true)
    (writes : entry.smBiosUpdateFn.written found ≠ none)
    (shape : after.ofType entry.smBiosUpdateType = kept ++ rest)
    (high : smbios.smbiosTableAtE000 = false)
    (short : entry.smBiosUpdateFn.sizeServed imc smbios.maximumTableSize position found
      smbios.getTotalStructureSize = none)

/-- A structure that is written: it is changed if there is room, and otherwise lost outside of the
segment E000. -/
theorem write_served {buffer : List UInt8}
    (shape : smbios.ofType entry.smBiosUpdateType = kept ++ found :: rest)
    (keeps : entry.smBiosUpdateFn.keeps imc position = true)
    (written : entry.smBiosUpdateFn.written found = some buffer) :
    Served imc entry position found kept rest smbios
      (writeStructureByHandle answer smbios found buffer).2
      (efiError (writeStructureByHandle answer smbios found buffer).1) := by
  have member : found ∈ smbios.structures := by
    have listed : found ∈ smbios.ofType entry.smBiosUpdateType := by
      rw [shape]
      simp
    exact (List.mem_filter.mp listed).1
  have good : efiError efiSuccess = false := by decide
  have poor : efiError efiOutOfResources = true := by decide
  unfold writeStructureByHandle
  simp only
  split_ifs with refused room copied copied
  · exact .refused refused
  · exact .refused poor
  · refine .kept good keeps { found with body := buffer } rfl (ofType_overwrite_same buffer shape)
      ?_
    refine room.imp id ?_
    intro room
    rw [UpdateFn.sizeServed, if_pos keeps, written]
    simp only
    rw [if_pos room, (getTotalStructureSize_changed member buffer).1]
  · exact .refused poor
  · obtain ⟨high, short⟩ := not_or.mp room
    refine .lost good keeps (by rw [written]; simp) (ofType_delete_same shape)
      (by simpa using high) ?_
    rw [UpdateFn.sizeServed, if_pos keeps, written]
    simp only
    rw [if_neg short]

/-- What a round comes to, once what its function adds has been added. -/
theorem service_served (shape : smbios.ofType entry.smBiosUpdateType = kept ++ found :: rest)
    (decides : Decides imc entry.smBiosUpdateFn position found inst updated) :
    Served imc entry position found kept rest smbios (service answer updated found smbios).2
      (efiError (service answer updated found smbios).1) := by
  have member : found ∈ smbios.structures := by
    have listed : found ∈ smbios.ofType entry.smBiosUpdateType := by
      rw [shape]
      simp
    exact (List.mem_filter.mp listed).1
  have good : efiError efiSuccess = false := by decide
  unfold service
  cases keep : entry.smBiosUpdateFn.keeps imc position with
  | true =>
    cases write : entry.smBiosUpdateFn.written found with
    | none =>
      rw [decides.skips keep write]
      refine .kept good keep found rfl shape (Or.inr ?_)
      rw [UpdateFn.sizeServed, if_pos keep, write]
    | some buffer =>
      obtain ⟨func, same⟩ := decides.writes buffer keep write
      rw [func, same]
      exact write_served shape keep write
  | false =>
    rw [(decides.deletes keep).1]
    simp only
    split_ifs with refused
    · exact .refused refused
    · refine .deleted (by simpa using refused) keep (ofType_delete_same shape) ?_
      rw [UpdateFn.sizeServed, if_neg (by rw [keep]; decide),
        (getTotalStructureSize_changed member []).2]

/-- With services that succeed no status is an error. -/
theorem service_succeeds (succeeds : Succeeds answers) :
    efiError (service (answers round) updated found smbios).1 = false := by
  obtain ⟨-, written, copied, deleted⟩ := succeeds round
  have good : efiError efiSuccess = false := by decide
  unfold service
  cases updated.smbFunc with
  | skipStructure => exact good
  | writeStructure =>
    unfold writeStructureByHandle
    simp only [written, copied, Bool.false_eq_true, if_false]
    split_ifs <;> exact good
  | deleteStructure => exact deleted

/-- One round of a walk that finds a structure. -/
theorem walk_found {rounds : Nat}
    (read : smbios.readStrucByType entry.smBiosUpdateType inst = some found)
    (allocated : efiError (answers round).allocatePool = false)
    (called : entry.smBiosUpdateFn.call imc inst tempInstance found = .ok updated) :
    walk imc entry answers (rounds + 1) round inst tempInstance smbios =
      if efiError (service (answers round) updated found
          (smbios.addStructure updated.adds)).1 then
        some (.ok ⟨[found.handle],
          (service (answers round) updated found (smbios.addStructure updated.adds)).2, true⟩)
      else
        calledFirst found.handle (walk imc entry answers rounds (round + 1) (updated.inst + 1)
          updated.tempInstance
          (service (answers round) updated found (smbios.addStructure updated.adds)).2) := by
  simp only [walk, read, allocated, called, Bool.false_eq_true, if_false]

/-- A walk that ends has ended behind its first call. -/
theorem calledFirst_ok {handle : UInt16} {later : Option (Checked Walked)} {walked : Walked}
    (ended : calledFirst handle later = some (.ok walked)) :
    ∃ less, later = some (.ok less) ∧ walked = { less with called := handle :: less.called } := by
  cases later with
  | none => cases ended
  | some result =>
    cases result with
    | error fault => cases ended
    | ok less =>
      cases ended
      exact ⟨less, rfl, rfl⟩

/-- What the rounds of a walk that has ended have done: it found nothing, or its buffer was not
allocated, or it called the function, after which a service failed or the walk went on. -/
theorem walk_ok {rounds : Nat} {walked : Walked}
    (ended : walk imc entry answers (rounds + 1) round inst tempInstance smbios =
      some (.ok walked)) :
    (smbios.readStrucByType entry.smBiosUpdateType inst = none ∧ walked = ⟨[], smbios, false⟩) ∨
      ∃ found, smbios.readStrucByType entry.smBiosUpdateType inst = some found ∧
        ((efiError (answers round).allocatePool = true ∧ walked = ⟨[], smbios, true⟩) ∨
          (efiError (answers round).allocatePool = false ∧
            ∃ updated, entry.smBiosUpdateFn.call imc inst tempInstance found = .ok updated ∧
              ((efiError (service (answers round) updated found
                    (smbios.addStructure updated.adds)).1 = true ∧
                  walked = ⟨[found.handle], (service (answers round) updated found
                    (smbios.addStructure updated.adds)).2, true⟩) ∨
                (efiError (service (answers round) updated found
                    (smbios.addStructure updated.adds)).1 = false ∧
                  ∃ less, walk imc entry answers rounds (round + 1) (updated.inst + 1)
                      updated.tempInstance (service (answers round) updated found
                        (smbios.addStructure updated.adds)).2 = some (.ok less) ∧
                    walked = { less with called := found.handle :: less.called })))) := by
  cases read : smbios.readStrucByType entry.smBiosUpdateType inst with
  | none =>
    simp only [walk, read] at ended
    cases ended
    exact Or.inl ⟨rfl, rfl⟩
  | some found =>
    refine Or.inr ⟨found, rfl, ?_⟩
    cases failed : efiError (answers round).allocatePool with
    | true =>
      simp only [walk, read, failed, if_true] at ended
      cases ended
      exact Or.inl ⟨rfl, rfl⟩
    | false =>
      refine Or.inr ⟨rfl, ?_⟩
      cases call : entry.smBiosUpdateFn.call imc inst tempInstance found with
      | error fault =>
        simp [walk, read, failed, call] at ended
      | ok updated =>
        refine ⟨updated, rfl, ?_⟩
        rw [walk_found read failed call] at ended
        split_ifs at ended with stopped
        · cases ended
          exact Or.inl ⟨stopped, rfl⟩
        · exact Or.inr ⟨by simpa using stopped, calledFirst_ok ended⟩

/-- A walk over a type changes the structures of that type only. -/
theorem walk_frame (notEnd : entry.smBiosUpdateType ≠ 127) {rounds : Nat} {walked : Walked}
    (ended : walk imc entry answers rounds round inst tempInstance smbios = some (.ok walked)) :
    Frame entry.smBiosUpdateType smbios walked.smbios := by
  induction rounds generalizing round inst tempInstance smbios walked with
  | zero => cases ended
  | succ rounds inductionHypothesis =>
    rcases walk_ok ended with ⟨-, rfl⟩ | ⟨found, read, rest⟩
    · exact Frame.refl _ _
    rcases rest with ⟨-, rfl⟩ | ⟨-, updated, -, rest⟩
    · exact Frame.refl _ _
    have member : found ∈ (smbios.addStructure updated.adds).ofType entry.smBiosUpdateType := by
      rw [ofType_add]
      exact mem_of_read notEnd read
    have served : Frame entry.smBiosUpdateType smbios (service (answers round) updated found
        (smbios.addStructure updated.adds)).2 :=
      (add_frame updated.adds).trans (service_frame member)
    rcases rest with ⟨-, rfl⟩ | ⟨-, less, ran, rfl⟩
    · exact served
    · have later : Frame entry.smBiosUpdateType _ less.smbios := inductionHypothesis ran
      exact served.trans later

/-- With services that succeed no walk fails. -/
theorem walk_unfailed (succeeds : Succeeds answers) {rounds : Nat} {walked : Walked}
    (ended : walk imc entry answers rounds round inst tempInstance smbios = some (.ok walked)) :
    walked.failed = false := by
  induction rounds generalizing round inst tempInstance smbios walked with
  | zero => cases ended
  | succ rounds inductionHypothesis =>
    rcases walk_ok ended with ⟨-, rfl⟩ | ⟨found, -, rest⟩
    · rfl
    rcases rest with ⟨failed, -⟩ | ⟨-, updated, -, rest⟩
    · rw [(succeeds round).1] at failed
      cases failed
    rcases rest with ⟨stopped, -⟩ | ⟨-, less, ran, rfl⟩
    · rw [service_succeeds succeeds] at stopped
      cases stopped
    · have later : less.failed = false := inductionHypothesis ran
      exact later

/-- How a walk over what is still to come ends. A service has failed, or the function was called for
all that was to come and what should remain remains, or a structure that should remain was lost
because what was written had no room. -/
inductive Ends (imc : ImcDimm) (entry : Entry) (smbios : Smbios) (kept rest : List Structure)
    (position : Nat) (walked : Walked) : Prop
  | failed (failed : walked.failed = true)
  | finished (fine : walked.failed = false) (all : walked.called = rest.map (·.handle))
    (remain : walked.smbios.handlesOf entry.smBiosUpdateType = kept.map (·.handle) ++
      keepMarked (entry.smBiosUpdateFn.keeps imc) entry.smBiosUpdateFn.size position
        (rest.map (·.handle)))
    (size : smbios.smbiosTableAtE000 = true ∨
      entry.smBiosUpdateFn.sizeAfter imc smbios.maximumTableSize position rest
        smbios.getTotalStructureSize = some walked.smbios.getTotalStructureSize)
  | lost (fine : walked.failed = false) (high : smbios.smbiosTableAtE000 = false)
    (short : entry.smBiosUpdateFn.sizeAfter imc smbios.maximumTableSize position rest
      smbios.getTotalStructureSize = none)
    (gone : ∃ handle ∈ keepMarked (entry.smBiosUpdateFn.keeps imc) entry.smBiosUpdateFn.size
      position (rest.map (·.handle)), handle ∉ walked.smbios.handlesOf entry.smBiosUpdateType)

/-- The size behind a structure and those that follow it, in terms of the table that has what is
added for it. -/
theorem sizeAfter_cons {size : Nat} (added : (smbios.addStructure
      (entry.smBiosUpdateFn.adds found)).getTotalStructureSize = size) :
    entry.smBiosUpdateFn.sizeAfter imc smbios.maximumTableSize position (found :: rest)
        smbios.getTotalStructureSize =
      (entry.smBiosUpdateFn.sizeServed imc smbios.maximumTableSize position found size).bind
        (entry.smBiosUpdateFn.sizeAfter imc smbios.maximumTableSize (position + 1) rest) := by
  rw [UpdateFn.sizeAfter, ← getTotalStructureSize_add, added]

/-- A walk goes on as one over what is behind a structure that was kept. -/
theorem ends_of_kept {after : Smbios} {walked : Walked} {other : Structure}
    (frame : Frame entry.smBiosUpdateType smbios after) (same : other.handle = found.handle)
    (keeps : entry.smBiosUpdateFn.keeps imc position = true)
    (size : smbios.smbiosTableAtE000 = true ∨
      entry.smBiosUpdateFn.sizeAfter imc smbios.maximumTableSize position (found :: rest)
          smbios.getTotalStructureSize =
        entry.smBiosUpdateFn.sizeAfter imc smbios.maximumTableSize (position + 1) rest
          after.getTotalStructureSize)
    (ends : Ends imc entry after (kept ++ [other]) rest (position + 1) walked) :
    Ends imc entry smbios kept (found :: rest) position
      { walked with called := found.handle :: walked.called } := by
  have marked : keepMarked (entry.smBiosUpdateFn.keeps imc) entry.smBiosUpdateFn.size position
      ((found :: rest).map (·.handle)) = found.handle ::
        keepMarked (entry.smBiosUpdateFn.keeps imc) entry.smBiosUpdateFn.size (position + 1)
          (rest.map (·.handle)) := by
    rw [List.map_cons, keepMarked, if_pos (Or.inl keeps)]
  cases ends with
  | failed failed => exact .failed failed
  | finished fine all remain last =>
    refine .finished fine (congrArg (found.handle :: ·) all) ?_ ?_
    · rw [marked, List.append_cons]
      rw [List.map_append, List.map_singleton, same] at remain
      exact remain
    · rw [frame.segment, frame.maximum] at last
      rcases last with low | last
      · exact Or.inl low
      · exact size.imp id fun size => size.trans last
  | lost fine high short gone =>
    rw [frame.segment] at high
    rw [frame.maximum] at short
    obtain ⟨handle, member, absent⟩ := gone
    refine .lost fine high ?_ ⟨handle, ?_, absent⟩
    · rw [high] at size
      exact (size.resolve_left (by decide)).trans short
    · rw [marked]
      exact List.mem_cons_of_mem _ member

/-- A walk goes on as one over what is behind a structure that was deleted. -/
theorem ends_of_deleted {after : Smbios} {walked : Walked}
    (frame : Frame entry.smBiosUpdateType smbios after)
    (drops : entry.smBiosUpdateFn.keeps imc position = false)
    (inside : position < entry.smBiosUpdateFn.size)
    (size : entry.smBiosUpdateFn.sizeAfter imc smbios.maximumTableSize position (found :: rest)
        smbios.getTotalStructureSize =
      entry.smBiosUpdateFn.sizeAfter imc smbios.maximumTableSize (position + 1) rest
        after.getTotalStructureSize)
    (ends : Ends imc entry after kept rest (position + 1) walked) :
    Ends imc entry smbios kept (found :: rest) position
      { walked with called := found.handle :: walked.called } := by
  have marked : keepMarked (entry.smBiosUpdateFn.keeps imc) entry.smBiosUpdateFn.size position
      ((found :: rest).map (·.handle)) =
        keepMarked (entry.smBiosUpdateFn.keeps imc) entry.smBiosUpdateFn.size (position + 1)
          (rest.map (·.handle)) := by
    have unmarked : ¬ (entry.smBiosUpdateFn.keeps imc position = true ∨
        entry.smBiosUpdateFn.size ≤ position) := by
      rw [drops]
      simp only [Bool.false_eq_true, false_or]
      omega
    rw [List.map_cons, keepMarked, if_neg unmarked]
  cases ends with
  | failed failed => exact .failed failed
  | finished fine all remain last =>
    refine .finished fine (congrArg (found.handle :: ·) all) ?_ ?_
    · rw [marked]
      exact remain
    · rw [frame.segment, frame.maximum] at last
      exact last.imp id fun last => size.trans last
  | lost fine high short gone =>
    rw [frame.segment] at high
    rw [frame.maximum] at short
    obtain ⟨handle, member, absent⟩ := gone
    refine .lost fine high (size.trans short) ⟨handle, ?_, absent⟩
    rw [marked]
    exact member

/-- A structure that is lost is never found again: what moves up into its place is skipped, and the
walk goes on behind it. -/
theorem ends_of_lost {after : Smbios} {walked : Walked}
    (shape : smbios.ofType entry.smBiosUpdateType = kept ++ found :: rest)
    (left : after.ofType entry.smBiosUpdateType = kept ++ rest)
    (keeps : entry.smBiosUpdateFn.keeps imc position = true)
    (high : smbios.smbiosTableAtE000 = false)
    (short : entry.smBiosUpdateFn.sizeAfter imc smbios.maximumTableSize position (found :: rest)
      smbios.getTotalStructureSize = none)
    (later : Frame entry.smBiosUpdateType after walked.smbios) :
    Ends imc entry smbios kept (found :: rest) position
      { walked with called := found.handle :: walked.called } := by
  by_cases failed : walked.failed = true
  · exact .failed failed
  have fine : walked.failed = false := by simpa using failed
  refine .lost fine high short ⟨found.handle, ?_, ?_⟩
  · rw [List.map_cons, keepMarked, if_pos (Or.inl keeps)]
    exact List.mem_cons_self
  · intro member
    exact not_mem_of_lost shape left (later.fewer.subset member)

/-- The calls of a walk that goes on behind the structure that has moved up into the place of a
lost one are calls for structures that were to come. -/
theorem called_of_lost {walked : Walked} {next : Structure} {others : List Structure}
    (called : walked.called.Sublist (others.map (·.handle))) :
    (found.handle :: walked.called).Sublist ((found :: next :: others).map (·.handle)) :=
  ((called.trans (List.sublist_cons_self next.handle _))).cons_cons found.handle

/-- Within a number of rounds every walk over what is left comes to its end, as long as 8 bits can
tell the structures apart and the function can look up their positions. -/
def WalksWithin (imc : ImcDimm) (entry : Entry) (answers : Nat → Answer) (rounds : Nat) : Prop :=
  ∀ (smbios : Smbios) (kept rest : List Structure) (position round : Nat),
    smbios.ofType entry.smBiosUpdateType = kept ++ rest →
    kept.length + rest.length < 256 → position + rest.length ≤ entry.smBiosUpdateFn.size →
    rest.length < rounds →
    ∃ walked, walk imc entry answers rounds round (UInt8.ofNat (kept.length + 1))
        (entry.smBiosUpdateFn.temp position) smbios = some (.ok walked) ∧
      walked.called.Sublist (rest.map (·.handle)) ∧
      Ends imc entry smbios kept rest position walked

/-- The walk behind a structure that is lost. The number passes over the structure that has moved
up, or finds nothing if there is none. -/
theorem walk_lost {rounds : Nat} (walks : WalksWithin imc entry answers rounds)
    (notEnd : entry.smBiosUpdateType ≠ 127)
    (left : smbios.ofType entry.smBiosUpdateType = kept ++ rest)
    (few : kept.length + (rest.length + 1) < 256)
    (inside : position + (rest.length + 1) ≤ entry.smBiosUpdateFn.size)
    (enough : rest.length < rounds) :
    ∃ walked, walk imc entry answers rounds round (UInt8.ofNat (kept.length + 1 + 1))
        (entry.smBiosUpdateFn.temp (position + 1)) smbios = some (.ok walked) ∧
      (found.handle :: walked.called).Sublist ((found :: rest).map (·.handle)) := by
  cases rest with
  | nil =>
    obtain ⟨rounds, rfl⟩ : ∃ less, rounds = less + 1 := ⟨rounds - 1, by omega⟩
    refine ⟨⟨[], smbios, false⟩, ?_, List.Sublist.refl _⟩
    rw [walk, read_none notEnd (by simp at few; omega) (by rw [left, List.append_nil]; omega)]
  | cons next others =>
    rw [List.length_cons] at few inside enough
    obtain ⟨walked, ran, called, -⟩ := walks smbios (kept ++ [next]) others (position + 1) round
      (by rw [left, ← List.append_cons]) (by simp; omega) (by omega) (by omega)
    rw [List.length_append, List.length_singleton] at ran
    exact ⟨walked, ran, called_of_lost called⟩

/-- The number behind a structure that is kept, and behind one that is deleted. -/
theorem Decides.number {count : Nat} (decides : Decides imc entry.smBiosUpdateFn position found
    (UInt8.ofNat (count + 1)) updated) :
    updated.inst + 1 = if entry.smBiosUpdateFn.keeps imc position then UInt8.ofNat (count + 1 + 1)
      else UInt8.ofNat (count + 1) := by
  split_ifs with keeps
  · rw [decides.kept keeps]
    exact (UInt8.ofNat_add (count + 1) 1).symm
  · rw [(decides.deletes (by simpa using keeps)).2]
    exact UInt8.sub_add_cancel _ 1

/-- Walks over what is left come to their ends. The induction is on the rounds: the structures that
are still to come become fewer with each of them, and one that is lost takes the next one with it,
which the number then passes over. -/
theorem walk_walks (notEnd : entry.smBiosUpdateType ≠ 127) (rounds : Nat) :
    WalksWithin imc entry answers rounds := by
  induction rounds with
  | zero =>
    intro smbios kept rest position round _ _ _ enough
    omega
  | succ rounds walks =>
    intro smbios kept rest position round shape few inside enough
    cases rest with
    | nil =>
      rw [List.append_nil] at shape
      refine ⟨⟨[], smbios, false⟩, ?_, List.nil_sublist _, .finished rfl rfl ?_ (Or.inr rfl)⟩
      · rw [walk, read_none notEnd (by simp at few; omega) (by rw [shape])]
      · rw [Smbios.handlesOf, shape, List.map_nil, keepMarked, List.append_nil]
    | cons found rest =>
      rw [List.length_cons] at few inside enough
      have read := read_next notEnd shape (by omega)
      by_cases failed : efiError (answers round).allocatePool = true
      · refine ⟨⟨[], smbios, true⟩, ?_, List.nil_sublist _, .failed rfl⟩
        simp only [walk, read, failed, if_true]
      obtain ⟨updated, call, decides⟩ := @call_inside imc entry.smBiosUpdateFn
        (UInt8.ofNat (kept.length + 1)) found position (by omega)
      rw [walk_found read (by simpa using failed) call, decides.temp, decides.number]
      have added : (smbios.addStructure updated.adds).ofType entry.smBiosUpdateType =
          kept ++ found :: rest := by
        rw [ofType_add, shape]
      have adding : Frame entry.smBiosUpdateType smbios (smbios.addStructure updated.adds) :=
        add_frame updated.adds
      have frame := adding.trans (@service_frame _ _ found (answers round) updated
        (by rw [added]; simp))
      have size := @sizeAfter_cons imc entry smbios found rest position _
        (congrArg (fun n => (smbios.addStructure n).getTotalStructureSize) decides.adds.symm)
      have served := @service_served imc entry _ (answers round) updated found kept rest position _
        added decides
      cases served with
      | refused stopped =>
        rw [if_pos stopped]
        refine ⟨_, rfl, ?_, .failed rfl⟩
        rw [List.map_cons]
        exact (List.nil_sublist _).cons_cons found.handle
      | kept fine keeps other same after last =>
        rw [List.append_cons] at after
        obtain ⟨walked, ran, called, ends⟩ := walks _ (kept ++ [other]) rest (position + 1)
          (round + 1) after (by simp; omega) (by omega) (by omega)
        rw [List.length_append, List.length_singleton] at ran
        rw [if_neg (by rw [fine]; decide), if_pos keeps, ran]
        refine ⟨_, rfl, called.cons_cons found.handle, ends_of_kept frame same keeps ?_ ends⟩
        rw [adding.segment, adding.maximum] at last
        refine last.imp id ?_
        intro last
        rw [size, last, Option.bind_some]
      | deleted fine drops after last =>
        obtain ⟨walked, ran, called, ends⟩ := walks _ kept rest (position + 1) (round + 1) after
          (by omega) (by omega) (by omega)
        rw [if_neg (by rw [fine]; decide), if_neg (by rw [drops]; decide), ran]
        refine ⟨_, rfl, called.cons_cons found.handle,
          ends_of_deleted frame drops (by omega) ?_ ends⟩
        rw [adding.maximum] at last
        rw [size, last, Option.bind_some]
      | lost fine keeps writes after high short =>
        obtain ⟨walked, ran, called⟩ := @walk_lost _ _ answers _ found kept rest position
          (round + 1) rounds walks notEnd after few inside (by omega)
        rw [if_neg (by rw [fine]; decide), if_pos keeps, ran]
        rw [adding.segment] at high
        rw [adding.maximum] at short
        refine ⟨_, rfl, called, ends_of_lost shape after keeps high ?_ (walk_frame notEnd ran)⟩
        rw [size, short, Option.bind_none]

/-- A walk whose buffer is not allocated calls nothing and leaves the table. -/
theorem walk_unallocated {rounds : Nat} {walked : Walked}
    (failed : efiError (answers round).allocatePool = true)
    (ended : walk imc entry answers rounds round inst tempInstance smbios = some (.ok walked)) :
    walked.called = [] ∧ walked.smbios = smbios := by
  cases rounds with
  | zero => cases ended
  | succ rounds =>
    rcases walk_ok ended with ⟨-, rfl⟩ | ⟨found, -, rest⟩
    · exact ⟨rfl, rfl⟩
    rcases rest with ⟨-, rfl⟩ | ⟨allocated, -⟩
    · exact ⟨rfl, rfl⟩
    · rw [failed] at allocated
      cases allocated

/-- The end of the table is found under every number, so that a walk over its type does not end if
the services succeed. -/
theorem walk_endOfTable (endRow : entry.smBiosUpdateType = 127) (succeeds : Succeeds answers)
    (rounds : Nat) (walked : Walked) :
    walk imc entry answers rounds round inst tempInstance smbios ≠ some (.ok walked) := by
  induction rounds generalizing round inst tempInstance smbios walked with
  | zero =>
    rw [walk]
    simp
  | succ rounds inductionHypothesis =>
    intro ended
    rcases walk_ok ended with ⟨read, -⟩ | ⟨found, -, rest⟩
    · rw [Smbios.readStrucByType, if_pos endRow] at read
      cases read
    rcases rest with ⟨failed, -⟩ | ⟨-, updated, -, rest⟩
    · rw [(succeeds round).1] at failed
      cases failed
    rcases rest with ⟨stopped, -⟩ | ⟨-, less, ran, -⟩
    · rw [service_succeeds succeeds] at stopped
      cases stopped
    · exact inductionHypothesis less ran

/-- If the services succeed, a walk ends only where the number finds nothing, and so leaves no more
than 255 structures. -/
theorem walk_few (notEnd : entry.smBiosUpdateType ≠ 127) (succeeds : Succeeds answers)
    {rounds : Nat} {walked : Walked}
    (ended : walk imc entry answers rounds round inst tempInstance smbios = some (.ok walked)) :
    (walked.smbios.handlesOf entry.smBiosUpdateType).length ≤ 255 := by
  induction rounds generalizing round inst tempInstance smbios walked with
  | zero => cases ended
  | succ rounds inductionHypothesis =>
    rcases walk_ok ended with ⟨read, rfl⟩ | ⟨found, -, rest⟩
    · rw [Smbios.readStrucByType, if_neg notEnd, List.getElem?_eq_none_iff] at read
      have below := UInt8.toNat_lt (inst - 1)
      rw [Smbios.handlesOf, List.length_map]
      simp only
      omega
    rcases rest with ⟨failed, -⟩ | ⟨-, updated, -, rest⟩
    · rw [(succeeds round).1] at failed
      cases failed
    rcases rest with ⟨stopped, -⟩ | ⟨-, less, ran, rfl⟩
    · rw [service_succeeds succeeds] at stopped
      cases stopped
    · have later : (less.smbios.handlesOf entry.smBiosUpdateType).length ≤ 255 :=
        inductionHypothesis ran
      exact later

/-- A round of a walk that ends while the services succeed. If the look-up faults behind the table
of the slots, the position is inside of it, and the rest of the walk ends too. -/
theorem walk_round (notEnd : entry.smBiosUpdateType ≠ 127) (succeeds : Succeeds answers)
    (outside : ∀ inst found updated, entry.smBiosUpdateFn.call imc inst
      (entry.smBiosUpdateFn.temp entry.smBiosUpdateFn.size) found ≠ .ok updated)
    (shape : smbios.ofType entry.smBiosUpdateType = kept ++ found :: rest)
    (room : kept.length < 256) (inside : position ≤ entry.smBiosUpdateFn.size)
    {rounds : Nat} {walked : Walked}
    (ended : walk imc entry answers (rounds + 1) round (UInt8.ofNat (kept.length + 1))
      (entry.smBiosUpdateFn.temp position) smbios = some (.ok walked)) :
    position < entry.smBiosUpdateFn.size ∧ ∃ after less,
      Served imc entry position found kept rest (smbios.addStructure
        (entry.smBiosUpdateFn.adds found)) after false ∧
      walk imc entry answers rounds (round + 1)
        (if entry.smBiosUpdateFn.keeps imc position then UInt8.ofNat (kept.length + 1 + 1)
          else UInt8.ofNat (kept.length + 1))
        (entry.smBiosUpdateFn.temp (position + 1)) after = some (.ok less) ∧
      walked.smbios = less.smbios := by
  have read := read_next notEnd shape room
  rcases walk_ok ended with ⟨nothing, -⟩ | ⟨other, there, later⟩
  · rw [read] at nothing
    cases nothing
  rw [read] at there
  cases there
  rcases later with ⟨failed, -⟩ | ⟨-, updated, call, later⟩
  · rw [(succeeds round).1] at failed
    cases failed
  have before : position < entry.smBiosUpdateFn.size := by
    rcases Nat.lt_or_eq_of_le inside with before | rfl
    · exact before
    · exact absurd call (outside _ _ _)
  obtain ⟨same, call', decides⟩ := @call_inside imc entry.smBiosUpdateFn
    (UInt8.ofNat (kept.length + 1)) found position before
  cases call.symm.trans call'
  have added : (smbios.addStructure updated.adds).ofType entry.smBiosUpdateType =
      kept ++ found :: rest := by
    rw [ofType_add, shape]
  have served := @service_served imc entry _ (answers round) updated found kept rest position _
    added decides
  rw [service_succeeds succeeds] at served
  rcases later with ⟨stopped, -⟩ | ⟨-, less, ran, rfl⟩
  · rw [service_succeeds succeeds] at stopped
    cases stopped
  rw [decides.temp, decides.number] at ran
  rw [decides.adds] at served ran
  exact ⟨before, _, less, served, ran, rfl⟩

/-- A walk that ends has not looked up more positions than the table of the slots has, if the
services succeed and nothing that should remain is lost. -/
theorem walk_within (notEnd : entry.smBiosUpdateType ≠ 127) (succeeds : Succeeds answers)
    (small : entry.smBiosUpdateFn.size < 256)
    (outside : ∀ inst found updated, entry.smBiosUpdateFn.call imc inst
      (entry.smBiosUpdateFn.temp entry.smBiosUpdateFn.size) found ≠ .ok updated)
    (shape : smbios.ofType entry.smBiosUpdateType = kept ++ rest)
    (few : kept.length ≤ position) (inside : position ≤ entry.smBiosUpdateFn.size)
    {rounds : Nat} {walked : Walked}
    (ended : walk imc entry answers rounds round (UInt8.ofNat (kept.length + 1))
      (entry.smBiosUpdateFn.temp position) smbios = some (.ok walked))
    (safe : (∀ s, entry.smBiosUpdateFn.written s = none) ∨
      ∀ handle ∈ keepMarked (entry.smBiosUpdateFn.keeps imc) entry.smBiosUpdateFn.size position
        (rest.map (·.handle)), handle ∈ walked.smbios.handlesOf entry.smBiosUpdateType) :
    position + rest.length ≤ entry.smBiosUpdateFn.size := by
  induction rounds generalizing smbios kept rest position round walked with
  | zero => cases ended
  | succ rounds inductionHypothesis =>
    cases rest with
    | nil => exact inside
    | cons found rest =>
      obtain ⟨before, after, less, served, ran, table⟩ :=
        walk_round notEnd succeeds outside shape (by omega) inside ended
      have further : (∀ s, entry.smBiosUpdateFn.written s = none) ∨
          ∀ handle ∈ keepMarked (entry.smBiosUpdateFn.keeps imc) entry.smBiosUpdateFn.size
            (position + 1) (rest.map (·.handle)),
            handle ∈ less.smbios.handlesOf entry.smBiosUpdateType := by
        refine safe.imp id ?_
        intro safe handle member
        rw [← table]
        refine safe handle ?_
        rw [List.map_cons, keepMarked]
        split_ifs
        · exact List.mem_cons_of_mem _ member
        · exact member
      rw [List.length_cons]
      cases served with
      | refused stopped => cases stopped
      | kept fine keeps other same after last =>
        rw [if_pos keeps, ← List.length_singleton (a := other), ← List.length_append] at ran
        rw [List.append_cons] at after
        have := inductionHypothesis after (by simp; omega) before ran further
        omega
      | deleted fine drops after last =>
        rw [if_neg (by rw [drops]; decide)] at ran
        have := inductionHypothesis after (by omega) before ran further
        omega
      | lost fine keeps writes after high short =>
        -- a structure that should remain is gone, and no walk brings it back
        rcases safe with unwritten | safe
        · exact absurd (unwritten found) writes
        have marked : found.handle ∈ keepMarked (entry.smBiosUpdateFn.keeps imc)
            entry.smBiosUpdateFn.size position ((found :: rest).map (·.handle)) := by
          rw [List.map_cons, keepMarked, if_pos (Or.inl keeps)]
          exact List.mem_cons_self
        have there := safe _ marked
        rw [table] at there
        exact absurd ((walk_frame notEnd ran).fewer.subset there) (not_mem_of_lost shape after)

/-- What is not written has room. -/
theorem sizeAfter_unwritten {updateFn : UpdateFn} {maximum size : Nat}
    (unwritten : ∀ s, updateFn.written s = none) :
    updateFn.sizeAfter imc maximum position rest size ≠ none := by
  induction rest generalizing position size with
  | nil => simp [UpdateFn.sizeAfter]
  | cons found rest inductionHypothesis =>
    rw [UpdateFn.sizeAfter, UpdateFn.sizeServed, unwritten]
    simp only
    split_ifs
    · exact inductionHypothesis
    · exact inductionHypothesis

end Walk

section Marks

variable {α : Type} {marks other : Nat → Bool} {size position : Nat} {xs : List α}

/-- What is kept depends on the marks of its places only. -/
theorem keepMarked_congr
    (same : ∀ i, position ≤ i → i < position + xs.length → marks i = other i) :
    keepMarked marks size position xs = keepMarked other size position xs := by
  induction xs generalizing position with
  | nil => rfl
  | cons x xs inductionHypothesis =>
    rw [List.length_cons] at same
    rw [keepMarked, keepMarked, same position (Nat.le_refl _) (by omega),
      inductionHypothesis (fun i above below => same i (by omega) (by omega))]

/-- Where every place is marked all is kept. -/
theorem keepMarked_true (xs : List α) (position : Nat) :
    keepMarked (fun _ => true) size position xs = xs := by
  induction xs generalizing position with
  | nil => rfl
  | cons x xs inductionHypothesis =>
    rw [keepMarked, if_pos (Or.inl rfl), inductionHypothesis]

/-- What is kept stands in its old order. -/
theorem keepMarked_sublist (xs : List α) (position : Nat) :
    (keepMarked marks size position xs).Sublist xs := by
  induction xs generalizing position with
  | nil => exact List.Sublist.refl []
  | cons x xs inductionHypothesis =>
    rw [keepMarked]
    split_ifs
    · exact (inductionHypothesis (position + 1)).cons_cons x
    · exact (inductionHypothesis (position + 1)).cons x

/-- What is kept of different things tells the marks. -/
theorem marks_of_keepMarked (distinct : xs.Nodup)
    (same : keepMarked marks size position xs = keepMarked other size position xs) :
    ∀ i, position ≤ i → i < position + xs.length → i < size → marks i = other i := by
  induction xs generalizing position with
  | nil =>
    intro i above below
    simp only [List.length_nil] at below
    omega
  | cons x xs inductionHypothesis =>
    obtain ⟨absent, distinct⟩ := List.nodup_cons.mp distinct
    have notKept : ∀ (flags : Nat → Bool), x ∉ keepMarked flags size (position + 1) xs :=
      fun flags member => absent ((keepMarked_sublist xs (position + 1)).subset member)
    rw [keepMarked, keepMarked] at same
    have both : (position < size → marks position = other position) ∧
        keepMarked marks size (position + 1) xs = keepMarked other size (position + 1) xs := by
      by_cases one : marks position = true ∨ size ≤ position
      · by_cases two : other position = true ∨ size ≤ position
        · rw [if_pos one, if_pos two] at same
          refine ⟨?_, (List.cons.inj same).2⟩
          intro inside
          rw [one.resolve_right (by omega), two.resolve_right (by omega)]
        · rw [if_pos one, if_neg two] at same
          exact absurd (same ▸ List.mem_cons_self) (notKept other)
      · by_cases two : other position = true ∨ size ≤ position
        · rw [if_neg one, if_pos two] at same
          exact absurd (same.symm ▸ List.mem_cons_self) (notKept marks)
        · rw [if_neg one, if_neg two] at same
          refine ⟨?_, same⟩
          intro _
          simp only [not_or, Bool.not_eq_true] at one two
          rw [one.1, two.1]
    intro i above below inside
    rw [List.length_cons] at below
    rcases Nat.lt_or_eq_of_le above with behind | rfl
    · exact inductionHypothesis distinct both.2 i behind (by omega) inside
    · exact both.1 inside

end Marks

section Entries

variable {imc : ImcDimm} {entry : Entry} {answers : Nat → Answer} {smbios : Smbios}
  {position round : Nat} {inst tempInstance : UInt8}

/-- An array is taken away exactly if none of its three modules is there. -/
theorem marks16_false_iff :
    imc.marks16 position = false ↔ imc.dimmNum position 0 = 0 ∧ imc.dimmNum position 1 = 0 ∧
      imc.dimmNum position 2 = 0 := by
  have channels : List.range 3 = [0, 1, 2] := by decide
  rw [ImcDimm.marks16, channels]
  simp

/-- The sum of the counts tells whether a controller has slots, unless it wraps. -/
theorem noWrap_iff :
    imc.NoWrap position ↔ imc.marks16 position = UpdateFn.type16.keeps imc position := by
  unfold ImcDimm.NoWrap
  have sum : UpdateFn.type16.keeps imc position = false ↔
      imc.dimmNum position 0 + imc.dimmNum position 1 + imc.dimmNum position 2 = 0 := by
    simp [UpdateFn.keeps]
  constructor
  · intro noWrap
    cases keep : UpdateFn.type16.keeps imc position with
    | false => exact noWrap (sum.mp keep)
    | true =>
      by_contra unmarked
      obtain ⟨first, second, third⟩ := marks16_false_iff.mp (by simpa using unmarked)
      have zero : UpdateFn.type16.keeps imc position = false := by
        rw [sum, first, second, third]
        rfl
      exact absurd (keep.symm.trans zero) (by decide)
  · intro same zero
    rw [same]
    exact sum.mpr zero

/-- What should remain is what is kept. -/
theorem remaining_keeps (fits : Fits imc smbios entry) :
    remaining imc entry.smBiosUpdateFn (smbios.handlesOf entry.smBiosUpdateType) =
      keepMarked (entry.smBiosUpdateFn.keeps imc) entry.smBiosUpdateFn.size 0
        (smbios.handlesOf entry.smBiosUpdateType) := by
  obtain ⟨-, fits⟩ := fits
  cases updateFn : entry.smBiosUpdateFn with
  | type16 =>
    rw [updateFn] at fits
    refine keepMarked_congr ?_
    intro i _ below
    exact noWrap_iff.mp (fits.2 i (by omega))
  | type17 manufacturer => rfl
  | other update adds => exact (keepMarked_true _ 0).symm

/-- A row that fits has fewer structures than a byte can count, and a buffer for each. -/
theorem Fits.count (fits : Fits imc smbios entry) :
    (smbios.handlesOf entry.smBiosUpdateType).length < 256 ∧
      (smbios.handlesOf entry.smBiosUpdateType).length ≤ entry.smBiosUpdateFn.size := by
  obtain ⟨-, fits⟩ := fits
  cases updateFn : entry.smBiosUpdateFn with
  | type16 =>
    rw [updateFn] at fits
    exact ⟨by have := fits.1; omega, fits.1⟩
  | type17 manufacturer =>
    rw [updateFn] at fits
    exact ⟨by simp only at fits; omega, fits⟩
  | other update adds =>
    rw [updateFn] at fits
    exact ⟨Nat.lt_succ_of_le fits, Nat.le_succ_of_le fits⟩

/-- The first counter of an update starts at zero. -/
theorem temp_zero (updateFn : UpdateFn) : updateFn.temp 0 = 0 := by
  cases updateFn with
  | type16 => rfl
  | type17 manufacturer => rfl
  | other update adds => rfl

/-- The walk for an entry whose structures can be told apart. -/
theorem walk_counted (notEnd : entry.smBiosUpdateType ≠ 127)
    (few : (smbios.handlesOf entry.smBiosUpdateType).length < 256)
    (inside : (smbios.handlesOf entry.smBiosUpdateType).length ≤ entry.smBiosUpdateFn.size)
    {rounds : Nat} (enough : 256 ≤ rounds) :
    ∃ walked, walk imc entry answers rounds 0 1 0 smbios = some (.ok walked) ∧
      walked.called.Sublist (smbios.handlesOf entry.smBiosUpdateType) ∧
      Ends imc entry smbios [] (smbios.ofType entry.smBiosUpdateType) 0 walked := by
  rw [Smbios.handlesOf, List.length_map] at few inside
  have walks := @walk_walks imc entry answers notEnd rounds smbios []
    (smbios.ofType entry.smBiosUpdateType) 0 0 rfl (by simpa using few) (by omega) (by omega)
  rw [temp_zero] at walks
  exact walks

/-- More rounds do not change a walk that has ended. -/
theorem walk_more {rounds : Nat} {walked : Walked}
    (ended : walk imc entry answers rounds round inst tempInstance smbios = some (.ok walked))
    (more : Nat) :
    walk imc entry answers (rounds + more) round inst tempInstance smbios =
      some (.ok walked) := by
  induction rounds generalizing round inst tempInstance smbios walked with
  | zero => cases ended
  | succ rounds inductionHypothesis =>
    rw [Nat.add_right_comm]
    rcases walk_ok ended with ⟨read, rfl⟩ | ⟨found, read, rest⟩
    · simp only [walk, read]
    rcases rest with ⟨failed, rfl⟩ | ⟨allocated, updated, call, rest⟩
    · simp only [walk, read, failed, if_true]
    rw [walk_found read allocated call]
    rcases rest with ⟨stopped, rfl⟩ | ⟨going, less, ran, rfl⟩
    · rw [if_pos stopped]
    · rw [if_neg (by rw [going]; decide), inductionHypothesis ran]
      rfl

/-- Two walks that have ended, from the same state and with the same answers, have ended alike. -/
theorem walk_unique {rounds others : Nat} {walked other : Walked}
    (ended : walk imc entry answers rounds round inst tempInstance smbios = some (.ok walked))
    (ran : walk imc entry answers others round inst tempInstance smbios = some (.ok other)) :
    walked = other := by
  have longer := walk_more ended others
  rw [Nat.add_comm, walk_more ran rounds] at longer
  cases longer
  rfl

/-- With services that succeed, and when what should remain is left, an entry whose walk ends has
no more structures than can be told apart, and the counts of its controllers add up. -/
theorem fits_of_ended (notEnd : entry.smBiosUpdateType ≠ 127) (succeeds : Succeeds answers)
    {rounds : Nat} {walked : Walked}
    (ended : walk imc entry answers rounds 0 1 0 smbios = some (.ok walked))
    (remain : walked.smbios.handlesOf entry.smBiosUpdateType =
      remaining imc entry.smBiosUpdateFn (smbios.handlesOf entry.smBiosUpdateType)) :
    Fits imc smbios entry := by
  have first := ended
  rw [← temp_zero entry.smBiosUpdateFn] at first
  refine ⟨notEnd, ?_⟩
  cases updateFn : entry.smBiosUpdateFn with
  | other update adds =>
    have few := walk_few notEnd succeeds ended
    rw [remain, updateFn] at few
    exact few
  | type17 manufacturer =>
    have within := @walk_within imc entry answers smbios []
      (smbios.ofType entry.smBiosUpdateType) 0 0 notEnd succeeds (by rw [updateFn, UpdateFn.size]; omega)
      (by
        rw [updateFn]
        intro inst found updated call
        cases smBiosType17Update_outside.symm.trans call)
      rfl (Nat.le_refl 0) (Nat.zero_le _) rounds walked first
      (Or.inr (by
        rw [remain, updateFn]
        exact fun handle member => member))
    rw [updateFn, Nat.zero_add] at within
    rw [Smbios.handlesOf, List.length_map]
    exact within
  | type16 =>
    have within := @walk_within imc entry answers smbios []
      (smbios.ofType entry.smBiosUpdateType) 0 0 notEnd succeeds (by rw [updateFn]; decide)
      (by
        rw [updateFn]
        intro inst found updated call
        cases smBiosType16Update_outside.symm.trans call)
      rfl (Nat.le_refl 0) (Nat.zero_le _) rounds walked first
      (Or.inl (by
        rw [updateFn]
        exact fun s => rfl))
    rw [updateFn, Nat.zero_add] at within
    have count : (smbios.handlesOf entry.smBiosUpdateType).length ≤ 4 := by
      rw [Smbios.handlesOf, List.length_map]
      exact within
    refine ⟨count, ?_⟩
    obtain ⟨other, ran, -, ends⟩ := @walk_counted imc entry answers smbios notEnd (by omega)
      (by rw [updateFn]; exact count) 256 (Nat.le_refl _)
    cases walk_unique ended ran
    cases ends with
    | failed failed =>
      rw [walk_unfailed succeeds ended] at failed
      cases failed
    | lost _ _ short _ =>
      exact absurd short (sizeAfter_unwritten (by
        rw [updateFn]
        exact fun s => rfl))
    | finished _ _ kept _ =>
      rw [remain, updateFn] at kept
      intro position below
      rw [noWrap_iff]
      exact marks_of_keepMarked handlesOf_nodup kept position (Nat.zero_le _) (by omega) (by omega)

/-- An entry that fits, and whose walk leaves what should remain, has room for what is written. -/
theorem size_of_ended (fits : Fits imc smbios entry) (succeeds : Succeeds answers)
    {rounds : Nat} {walked : Walked}
    (ended : walk imc entry answers rounds 0 1 0 smbios = some (.ok walked))
    (remain : walked.smbios.handlesOf entry.smBiosUpdateType =
      remaining imc entry.smBiosUpdateFn (smbios.handlesOf entry.smBiosUpdateType)) :
    smbios.smbiosTableAtE000 = true ∨
      entry.smBiosUpdateFn.sizeAfter imc smbios.maximumTableSize 0
        (smbios.ofType entry.smBiosUpdateType) smbios.getTotalStructureSize =
          some walked.smbios.getTotalStructureSize := by
  obtain ⟨few, inside⟩ := fits.count
  obtain ⟨other, ran, -, ends⟩ := @walk_counted imc entry answers smbios fits.1 few inside 256
    (Nat.le_refl _)
  cases walk_unique ended ran
  cases ends with
  | failed failed =>
    rw [walk_unfailed succeeds ended] at failed
    cases failed
  | lost _ _ _ gone =>
    obtain ⟨handle, member, absent⟩ := gone
    rw [remain, remaining_keeps fits] at absent
    exact absurd member absent
  | finished _ _ _ size => exact size

end Entries

section Runs

variable {imc : ImcDimm} {entry : Entry} {table : List Entry} {answers : Nat → Nat → Answer}
  {smbios after : Smbios} {i : Nat}

/-- The table behind a walk is that behind its last row. -/
theorem finalTable_cons (report : Report) (reports : List Report) :
    finalTable smbios (report :: reports) = finalTable report.after reports := by
  cases reports with
  | nil => rfl
  | cons next reports =>
    simp only [finalTable, List.getLast?_cons_cons]
    cases last : (next :: reports).getLast? with
    | none => simp at last
    | some found => rfl

/-- The entries one after another, without the number of the row. -/
def walkEach (imc : ImcDimm) (answers : Nat → Nat → Answer) (rounds : Nat) :
    Nat → List Entry → Smbios → Option (Checked (List Report))
  | _, [], _ => some (.ok [])
  | i, entry :: table, smbios =>
    match walk imc entry (answers i) rounds 0 1 0 smbios with
    | none => none
    | some (.error fault) => some (.error fault)
    | some (.ok walked) =>
      reportFirst entry walked (walkEach imc answers rounds (i + 1) table walked.smbios)

/-- A walk over the rows that ends has ended behind its first row. -/
theorem reportFirst_ok {rest : Option (Checked (List Report))} {walked : Walked}
    {reports : List Report} (ended : reportFirst entry walked rest = some (.ok reports)) :
    ∃ tail, rest = some (.ok tail) ∧
      reports = ⟨entry, walked.called, walked.failed, walked.smbios⟩ :: tail := by
  cases rest with
  | none => cases ended
  | some result =>
    cases result with
    | error fault => cases ended
    | ok tail =>
      cases ended
      exact ⟨tail, rfl, rfl⟩

/-- The first walk of a run that has ended, and the run behind it. -/
theorem walkEach_ok {rounds : Nat} {reports : List Report}
    (ended : walkEach imc answers rounds i (entry :: table) smbios = some (.ok reports)) :
    ∃ walked tail, walk imc entry (answers i) rounds 0 1 0 smbios = some (.ok walked) ∧
      walkEach imc answers rounds (i + 1) table walked.smbios = some (.ok tail) ∧
      reports = ⟨entry, walked.called, walked.failed, walked.smbios⟩ :: tail := by
  rw [walkEach] at ended
  cases ran : walk imc entry (answers i) rounds 0 1 0 smbios with
  | none =>
    rw [ran] at ended
    cases ended
  | some result =>
    rw [ran] at ended
    cases result with
    | error fault => cases ended
    | ok walked =>
      obtain ⟨tail, rest, rfl⟩ := reportFirst_ok ended
      exact ⟨walked, tail, rfl, rest, rfl⟩

/-- A table whose rows the number can tell apart is walked over row by row. -/
theorem smcSmBiosInit_each (short : table.length < 256) (inside : i ≤ table.length)
    {passes rounds : Nat} (enough : table.length - i < passes) :
    smcSmBiosInit imc table answers rounds passes i (UInt8.ofNat i) smbios =
      walkEach imc answers rounds i (table.drop i) smbios := by
  induction passes generalizing i smbios with
  | zero => omega
  | succ passes inductionHypothesis =>
    have row : (UInt8.ofNat i).toNat = i := by
      rw [UInt8.toNat_ofNat']
      exact Nat.mod_eq_of_lt (by omega)
    rw [smcSmBiosInit, row]
    rcases Nat.lt_or_eq_of_le inside with before | rfl
    · rw [List.getElem?_eq_getElem before, List.drop_eq_getElem_cons before, walkEach]
      simp only
      cases walk imc table[i] (answers i) rounds 0 1 0 smbios with
      | none => rfl
      | some result =>
        cases result with
        | error fault => rfl
        | ok walked =>
          have next : UInt8.ofNat i + 1 = UInt8.ofNat (i + 1) := (UInt8.ofNat_add i 1).symm
          simp only
          rw [next, inductionHypothesis (by omega) (by omega)]
    · rw [List.getElem?_eq_none (Nat.le_refl _), List.drop_length, walkEach]

/-- Of more than 255 rows there is always one under the number. -/
theorem smcSmBiosInit_endless (long : 256 ≤ table.length) (passes rounds : Nat) (row : UInt8)
    (reports : List Report) :
    smcSmBiosInit imc table answers rounds passes i row smbios ≠ some (.ok reports) := by
  induction passes generalizing i row smbios reports with
  | zero =>
    rw [smcSmBiosInit]
    simp
  | succ passes inductionHypothesis =>
    have below : row.toNat < table.length := Nat.lt_of_lt_of_le (UInt8.toNat_lt row) long
    rw [smcSmBiosInit, List.getElem?_eq_getElem below]
    simp only
    cases walk imc table[row.toNat] (answers i) rounds 0 1 0 smbios with
    | none => simp
    | some result =>
      cases result with
      | error fault => simp
      | ok walked =>
        intro ended
        obtain ⟨tail, ran, -⟩ := reportFirst_ok ended
        exact inductionHypothesis (row + 1) tail ran

/-- More passes do not change a run that has ended. -/
theorem smcSmBiosInit_more {passes rounds : Nat} {row : UInt8}
    {reports : List Report}
    (ended : smcSmBiosInit imc table answers rounds passes i row smbios = some (.ok reports))
    (more : Nat) :
    smcSmBiosInit imc table answers rounds (passes + more) i row smbios =
      some (.ok reports) := by
  induction passes generalizing i row smbios reports with
  | zero => cases ended
  | succ passes inductionHypothesis =>
    rw [Nat.add_right_comm]
    rw [smcSmBiosInit] at ended ⊢
    cases found : table[row.toNat]? with
    | none =>
      rw [found] at ended
      exact ended
    | some entry =>
      rw [found] at ended
      simp only at ended ⊢
      cases walked : walk imc entry (answers i) rounds 0 1 0 smbios with
      | none =>
        rw [walked] at ended
        cases ended
      | some result =>
        rw [walked] at ended
        cases result with
        | error fault => cases ended
        | ok walked =>
          obtain ⟨tail, ran, rfl⟩ := reportFirst_ok ended
          simp only
          rw [inductionHypothesis ran]
          rfl

/-- Where a type that is walked over has no structures if it is the one asked for, that type's
structures stay as they are. -/
theorem Frame.ofType_eq {type other : UInt8} (frame : Frame type smbios after)
    (apart : type = other → smbios.handlesOf other = []) :
    after.ofType other = smbios.ofType other := by
  by_cases same : other = type
  · subst same
    have nothing := apart rfl
    have fewer := frame.fewer
    rw [nothing, List.sublist_nil] at fewer
    rw [List.map_eq_nil_iff.mp nothing, List.map_eq_nil_iff.mp fewer]
  · exact frame.others other same

/-- The rows behind the first one find the structures of their types as they were before it. -/
theorem Apart.agree (apart : Apart smbios (entry :: table))
    (frame : Frame entry.smBiosUpdateType smbios after) :
    ∀ other ∈ table, after.ofType other.smBiosUpdateType =
      smbios.ofType other.smBiosUpdateType := by
  intro other member
  refine frame.ofType_eq ?_
  intro same
  rw [← same]
  exact (List.pairwise_cons.mp apart).1 other member same

/-- The handles of a type depend on its structures only. -/
theorem handlesOf_agree {type : UInt8} (same : after.ofType type = smbios.ofType type) :
    after.handlesOf type = smbios.handlesOf type := by
  rw [Smbios.handlesOf, same, Smbios.handlesOf]

/-- A row leaves the types of the rows behind it, so these are still apart. -/
theorem Apart.behind (apart : Apart smbios (entry :: table))
    (frame : Frame entry.smBiosUpdateType smbios after) : Apart after table := by
  refine (List.pairwise_cons.mp apart).2.imp_of_mem ?_
  intro first second member _ related same
  rw [handlesOf_agree (apart.agree frame first member)]
  exact related same

/-- An entry fits a table with the same structures of its type. -/
theorem Fits.congr (fits : Fits imc smbios entry)
    (same : after.ofType entry.smBiosUpdateType = smbios.ofType entry.smBiosUpdateType) :
    Fits imc after entry := by
  rw [Fits, handlesOf_agree same]
  exact fits

/-- A run leaves the structures of a type that no row walks over, or of which there are none. -/
theorem run_untouched {rounds : Nat} {reports : List Report} {type : UInt8}
    (notEnd : ∀ entry ∈ table, entry.smBiosUpdateType ≠ 127)
    (ended : walkEach imc answers rounds i table smbios = some (.ok reports))
    (untouched : ∀ entry ∈ table, entry.smBiosUpdateType = type →
      smbios.handlesOf type = []) :
    (finalTable smbios reports).ofType type = smbios.ofType type := by
  induction table generalizing i smbios reports with
  | nil =>
    cases ended
    rfl
  | cons entry table inductionHypothesis =>
    obtain ⟨walked, tail, ran, rest, rfl⟩ := walkEach_ok ended
    have frame := walk_frame (notEnd entry (by simp)) ran
    have same := frame.ofType_eq (untouched entry (by simp))
    rw [finalTable_cons, ← same]
    refine inductionHypothesis (fun other member => notEnd other (by simp [member])) rest ?_
    intro other member equal
    rw [handlesOf_agree same]
    exact untouched other (by simp [member]) equal

/-- What the first row leaves of its type is what is left at the end. -/
theorem run_first {rounds : Nat} {tail : List Report} {walked : Walked}
    (notEnd : ∀ other ∈ entry :: table, other.smBiosUpdateType ≠ 127)
    (apart : Apart smbios (entry :: table))
    (ran : walk imc entry (answers i) rounds 0 1 0 smbios = some (.ok walked))
    (rest : walkEach imc answers rounds (i + 1) table walked.smbios = some (.ok tail)) :
    (finalTable walked.smbios tail).handlesOf entry.smBiosUpdateType =
      walked.smbios.handlesOf entry.smBiosUpdateType := by
  have frame := walk_frame (notEnd entry (by simp)) ran
  refine handlesOf_agree (run_untouched (fun other member => notEnd other (by simp [member])) rest
    ?_)
  intro other member same
  have nothing := (List.pairwise_cons.mp apart).1 other member same.symm
  have fewer := frame.fewer
  rw [nothing, List.sublist_nil] at fewer
  exact fewer

/-- The room for the rows behind the first one does not depend on what that row has done, but for
the size that it leaves. -/
theorem tableAfter_congr (same : ∀ entry ∈ table, after.ofType entry.smBiosUpdateType =
      smbios.ofType entry.smBiosUpdateType)
    (maximum : after.maximumTableSize = smbios.maximumTableSize) (size : Nat) :
    tableAfter imc after table size = tableAfter imc smbios table size := by
  induction table generalizing size with
  | nil => rfl
  | cons entry table inductionHypothesis =>
    rw [tableAfter, tableAfter, same entry (by simp), maximum]
    congr 1
    funext size
    exact inductionHypothesis (fun other member => same other (by simp [member])) size

/-- There is room for all rows if there is room for those behind the first one, once that row is
done. -/
theorem hasRoom_cons (apart : Apart smbios (entry :: table))
    (frame : Frame entry.smBiosUpdateType smbios after)
    (size : smbios.smbiosTableAtE000 = true ∨
      entry.smBiosUpdateFn.sizeAfter imc smbios.maximumTableSize 0
        (smbios.ofType entry.smBiosUpdateType) smbios.getTotalStructureSize =
          some after.getTotalStructureSize) :
    HasRoom imc (entry :: table) smbios ↔ HasRoom imc table after := by
  unfold HasRoom
  rw [frame.segment]
  rcases size with low | size
  · exact ⟨fun _ => Or.inl low, fun _ => Or.inl low⟩
  · rw [tableAfter, size, Option.bind_some,
      tableAfter_congr (apart.agree frame) frame.maximum]

/-- How a run over all entries ends: a service has failed, or everything is called for and what
should remain remains, or there is no room for what is written. -/
inductive Comes (imc : ImcDimm) (table : List Entry) (smbios : Smbios) (reports : List Report) :
    Prop
  | failed (report : Report) (member : report ∈ reports) (failed : report.failed = true)
  | finished (all : ∀ entry ∈ table, ∀ handle ∈ smbios.handlesOf entry.smBiosUpdateType,
      handle ∈ allCalled reports)
    (remain : ∀ entry ∈ table, (finalTable smbios reports).handlesOf entry.smBiosUpdateType =
      remaining imc entry.smBiosUpdateFn (smbios.handlesOf entry.smBiosUpdateType))
  | crowded (crowded : ¬ HasRoom imc table smbios)

/-- What a run has called: for each row structures of its type, and none twice over all rows. -/
structure Calls (table : List Entry) (smbios : Smbios) (reports : List Report) : Prop where
  rows : reports.map (·.entry) = table
  ofType : ∀ report ∈ reports, ∀ handle ∈ report.called,
    handle ∈ smbios.handlesOf report.entry.smBiosUpdateType
  once : (allCalled reports).Nodup

/-- The calls of the first row and of those behind it. -/
theorem calls_cons {walked : Walked} {tail : List Report}
    (apart : Apart smbios (entry :: table))
    (frame : Frame entry.smBiosUpdateType smbios walked.smbios)
    (called : walked.called.Sublist (smbios.handlesOf entry.smBiosUpdateType))
    (calls : Calls table walked.smbios tail) :
    Calls (entry :: table) smbios
      (⟨entry, walked.called, walked.failed, walked.smbios⟩ :: tail) := by
  have listed : ∀ report ∈ tail, report.entry ∈ table := by
    intro report member
    rw [← calls.rows]
    exact List.mem_map.mpr ⟨report, member, rfl⟩
  have behind : ∀ report ∈ tail, ∀ handle ∈ report.called,
      handle ∈ smbios.handlesOf report.entry.smBiosUpdateType := by
    intro report member handle inCalled
    rw [← handlesOf_agree (apart.agree frame report.entry (listed report member))]
    exact calls.ofType report member handle inCalled
  refine ⟨?_, ?_, ?_⟩
  · rw [List.map_cons, calls.rows]
  · intro report member
    rcases List.mem_cons.mp member with rfl | member
    · exact fun handle inCalled => called.subset inCalled
    · exact behind report member
  · rw [allCalled, List.flatMap_cons, List.nodup_append]
    refine ⟨called.nodup handlesOf_nodup, calls.once, ?_⟩
    intro handle first other inTail same
    subst same
    obtain ⟨report, member, inCalled⟩ := List.mem_flatMap.mp inTail
    have there := behind report member handle inCalled
    by_cases equal : report.entry.smBiosUpdateType = entry.smBiosUpdateType
    · have nothing := (List.pairwise_cons.mp apart).1 report.entry (listed report member)
        equal.symm
      rw [equal, nothing] at there
      cases there
    · exact not_mem_handlesOf (called.subset first) equal there

/-- The run over entries that fit comes to its end. The induction is on the rows: none of them
changes the structures of another row's type. -/
theorem walkEach_fits (fits : ∀ entry ∈ table, Fits imc smbios entry) (apart : Apart smbios table)
    {rounds : Nat} (enough : 256 ≤ rounds) :
    ∃ reports, walkEach imc answers rounds i table smbios = some (.ok reports) ∧
      Calls table smbios reports ∧ Comes imc table smbios reports := by
  induction table generalizing i smbios with
  | nil =>
    refine ⟨[], rfl, ⟨rfl, ?_, List.nodup_nil⟩, .finished ?_ ?_⟩
    · simp
    · simp
    · simp
  | cons entry table inductionHypothesis =>
    have fitsFirst := fits entry (by simp)
    obtain ⟨few, inside⟩ := fitsFirst.count
    obtain ⟨walked, ran, called, ends⟩ := @walk_counted imc entry (answers i) smbios fitsFirst.1 few
      inside rounds enough
    have frame := walk_frame fitsFirst.1 ran
    have agree := apart.agree frame
    obtain ⟨tail, rest, calls, comes⟩ := @inductionHypothesis walked.smbios (i + 1)
      (fun other member => (fits other (by simp [member])).congr (agree other member))
      (apart.behind frame)
    have final := run_first (fun other member => (fits other member).1) apart ran rest
    refine ⟨⟨entry, walked.called, walked.failed, walked.smbios⟩ :: tail, ?_,
      calls_cons apart frame called calls, ?_⟩
    · rw [walkEach, ran]
      simp only
      rw [rest]
      rfl
    cases ends with
    | failed failed => exact .failed _ (List.mem_cons_self) failed
    | lost fine high short gone =>
      refine .crowded ?_
      rintro (low | room)
      · rw [high] at low
        cases low
      · rw [tableAfter, short] at room
        exact room rfl
    | finished fine all remain size =>
      cases comes with
      | failed report member failed => exact .failed report (List.mem_cons_of_mem _ member) failed
      | crowded crowded => exact .crowded ((hasRoom_cons apart frame size).not.mpr crowded)
      | finished allTail remainTail =>
        refine .finished ?_ ?_
        · intro other member handle listed
          rw [allCalled, List.flatMap_cons, List.mem_append]
          rcases List.mem_cons.mp member with rfl | member
          · exact Or.inl (all ▸ listed)
          · rw [← handlesOf_agree (agree other member)] at listed
            exact Or.inr (allTail other member handle listed)
        · intro other member
          rw [finalTable_cons]
          rcases List.mem_cons.mp member with rfl | member
          · rw [final, remaining_keeps fitsFirst]
            exact remain
          · rw [remainTail other member, handlesOf_agree (agree other member)]

/-- A run in which all services succeed and what should remain is left shows that the entries fit
and that there is room. -/
theorem fits_of_run (succeeds : ∀ i, Succeeds (answers i)) {rounds : Nat} {reports : List Report}
    (notEnd : ∀ entry ∈ table, entry.smBiosUpdateType ≠ 127) (apart : Apart smbios table)
    (ended : walkEach imc answers rounds i table smbios = some (.ok reports))
    (remain : ∀ entry ∈ table, (finalTable smbios reports).handlesOf entry.smBiosUpdateType =
      remaining imc entry.smBiosUpdateFn (smbios.handlesOf entry.smBiosUpdateType)) :
    (∀ entry ∈ table, Fits imc smbios entry) ∧ HasRoom imc table smbios := by
  induction table generalizing i smbios reports with
  | nil => exact ⟨by simp, Or.inr (by simp [tableAfter])⟩
  | cons entry table inductionHypothesis =>
    obtain ⟨walked, tail, ran, rest, rfl⟩ := walkEach_ok ended
    have frame := walk_frame (notEnd entry (by simp)) ran
    have agree := apart.agree frame
    have left := remain entry (by simp)
    rw [finalTable_cons, run_first notEnd apart ran rest] at left
    have fits := fits_of_ended (notEnd entry (by simp)) (succeeds i) ran left
    have size := size_of_ended fits (succeeds i) ran left
    obtain ⟨fitsTail, room⟩ := inductionHypothesis
      (fun other member => notEnd other (by simp [member])) (apart.behind frame) rest (by
        intro other member
        rw [handlesOf_agree (agree other member), ← remain other (by simp [member]),
          finalTable_cons])
    refine ⟨?_, (hasRoom_cons apart frame size).mpr room⟩
    intro other member
    rcases List.mem_cons.mp member with rfl | member
    · exact fits
    · exact (fitsTail other member).congr (agree other member).symm

/-- No walk of a run in which all services succeed fails, and none is over the end of the table. -/
theorem run_succeeds (succeeds : ∀ i, Succeeds (answers i)) {rounds : Nat} {reports : List Report}
    (ended : walkEach imc answers rounds i table smbios = some (.ok reports)) :
    (∀ report ∈ reports, report.failed = false) ∧
      ∀ entry ∈ table, entry.smBiosUpdateType ≠ 127 := by
  induction table generalizing i smbios reports with
  | nil =>
    cases ended
    simp
  | cons entry table inductionHypothesis =>
    obtain ⟨walked, tail, ran, rest, rfl⟩ := walkEach_ok ended
    obtain ⟨fine, notEnd⟩ := inductionHypothesis rest
    constructor
    · intro report member
      rcases List.mem_cons.mp member with rfl | member
      · exact walk_unfailed (succeeds i) ran
      · exact fine report member
    · intro other member
      rcases List.mem_cons.mp member with rfl | member
      · exact fun endRow => walk_endOfTable endRow (succeeds i) rounds walked ran
      · exact notEnd other member

/-- Every service succeeds in every round. -/
def allSucceed : Nat → Nat → Answer := fun _ _ => ⟨efiSuccess, efiSuccess, efiSuccess, efiSuccess⟩

/-- The answers that succeed do so at every place. -/
theorem allSucceed_succeeds (i : Nat) : Succeeds (allSucceed i) := by
  intro round
  rw [allSucceed]
  decide

/-- In every row one buffer is allocated, and nothing can be changed. -/
def onceAllocated : Nat → Nat → Answer := fun _ round =>
  ⟨if round = 0 then efiSuccess else efiLoadError, efiLoadError, efiSuccess, efiLoadError⟩

/-- Services that fail leave the structures. -/
theorem service_once {round : Nat} {updated : Updated} {found : Structure} :
    (service (onceAllocated i round) updated found smbios).2 = smbios := by
  have poor : efiError efiLoadError = true := by decide
  unfold service
  cases updated.smbFunc with
  | skipStructure => rfl
  | writeStructure =>
    simp only [writeStructureByHandle, onceAllocated, poor, if_true]
  | deleteStructure =>
    simp only [onceAllocated, poor, if_true]

/-- A row in which one buffer is allocated calls its function for the first structure of its type,
and leaves the structures. -/
theorem walk_once (notEnd : entry.smBiosUpdateType ≠ 127) {rounds : Nat} {walked : Walked}
    (ended : walk imc entry (onceAllocated i) rounds 0 1 0 smbios = some (.ok walked)) :
    walked.called = (smbios.handlesOf entry.smBiosUpdateType).head?.toList ∧
      ∀ type, walked.smbios.ofType type = smbios.ofType type := by
  have good : efiError (onceAllocated i 0).allocatePool = false := by
    rw [onceAllocated, if_pos rfl]
    decide
  have poor : efiError (onceAllocated i 1).allocatePool = true := by
    rw [onceAllocated, if_neg (by decide)]
    decide
  cases rounds with
  | zero => cases ended
  | succ rounds =>
    have first := @readStrucByType_number smbios entry.smBiosUpdateType notEnd 0 (by decide)
    rw [← List.head?_eq_getElem?] at first
    rcases walk_ok ended with ⟨nothing, rfl⟩ | ⟨found, read, rest⟩
    · have missing := first.symm.trans nothing
      rw [Smbios.handlesOf, List.head?_map, missing]
      exact ⟨rfl, fun _ => rfl⟩
    have head : (smbios.handlesOf entry.smBiosUpdateType).head?.toList = [found.handle] := by
      rw [Smbios.handlesOf, List.head?_map, first.symm.trans read]
      rfl
    rw [head]
    rcases rest with ⟨failed, -⟩ | ⟨-, updated, -, rest⟩
    · rw [good] at failed
      cases failed
    rcases rest with ⟨-, rfl⟩ | ⟨-, less, ran, rfl⟩
    · refine ⟨rfl, ?_⟩
      intro type
      simp only [service_once, ofType_add]
    · obtain ⟨called, same⟩ := walk_unallocated poor ran
      refine ⟨congrArg (found.handle :: ·) called, ?_⟩
      intro type
      simp only [same, service_once, ofType_add]

/-- A run in which one buffer is allocated for each row calls the functions for the first structure
of each type that is listed. -/
theorem run_once {rounds : Nat} {reports : List Report}
    (notEnd : ∀ entry ∈ table, entry.smBiosUpdateType ≠ 127)
    (ended : walkEach imc onceAllocated rounds i table smbios = some (.ok reports)) :
    allCalled reports = table.flatMap fun entry =>
      (smbios.handlesOf entry.smBiosUpdateType).head?.toList := by
  induction table generalizing i smbios reports with
  | nil =>
    cases ended
    rfl
  | cons entry table inductionHypothesis =>
    obtain ⟨walked, tail, ran, rest, rfl⟩ := walkEach_ok ended
    obtain ⟨called, same⟩ := walk_once (notEnd entry (by simp)) ran
    have later := inductionHypothesis (fun other member => notEnd other (by simp [member])) rest
    rw [allCalled] at later ⊢
    rw [List.flatMap_cons, List.flatMap_cons, later]
    simp only [called, handlesOf_agree (same _)]

/-- If no structure is called for twice in that run, no type that is listed twice has any. -/
theorem apart_of_once (once : (table.flatMap fun entry =>
    (smbios.handlesOf entry.smBiosUpdateType).head?.toList).Nodup) : Apart smbios table := by
  refine (List.nodup_flatMap.mp once).2.imp ?_
  intro entry other disjoint same
  cases handles : smbios.handlesOf entry.smBiosUpdateType with
  | nil => rfl
  | cons handle rest =>
    simp only [Function.onFun, ← same, handles] at disjoint
    exact absurd List.mem_cons_self (disjoint List.mem_cons_self)

end Runs

section Result

variable {imc : ImcDimm} {smbios : Smbios} {table : List Entry}

/-- A run of the table ends as one over its rows, unless the number of the row passes 8 bits. -/
theorem walkEach_of_ended {answers : Nat → Nat → Answer} (short : table.length < 256)
    {passes rounds : Nat} {reports : List Report}
    (ended : smcSmBiosInit imc table answers rounds passes 0 0 smbios = some (.ok reports)) :
    walkEach imc answers rounds 0 table smbios = some (.ok reports) := by
  have each := (smcSmBiosInit_more ended 256).symm.trans
    (@smcSmBiosInit_each imc table answers smbios 0 short (Nat.zero_le _) (passes + 256) rounds
      (by omega))
  rw [List.drop_zero] at each
  exact each.symm

/-- The walk is right for all answers of the services if and only if the table has at most 255
entries and each of them fits, no type that is listed twice has structures, and there is room for
whatever is written. -/
theorem walks_iff_fit :
    (∀ answers, Lawful imc table smbios answers) ↔
      table.length ≤ 255 ∧ (∀ entry ∈ table, Fits imc smbios entry) ∧ Apart smbios table ∧
        HasRoom imc table smbios := by
  constructor
  · intro lawful
    have short : table.length < 256 := by
      obtain ⟨passes, rounds, reports, ended, -⟩ := lawful allSucceed
      by_contra long
      exact smcSmBiosInit_endless (by omega) passes rounds 0 reports ended
    obtain ⟨passes, rounds, reports, ended, done⟩ := lawful allSucceed
    have each := walkEach_of_ended short ended
    obtain ⟨fine, notEnd⟩ := run_succeeds allSucceed_succeeds each
    have apart : Apart smbios table := by
      obtain ⟨passes, rounds, others, ended, once⟩ := lawful onceAllocated
      have called := run_once notEnd (walkEach_of_ended short ended)
      exact apart_of_once (called ▸ once.once)
    obtain ⟨fits, room⟩ := fits_of_run allSucceed_succeeds notEnd apart each (done.remain fine)
    exact ⟨by omega, fits, apart, room⟩
  · rintro ⟨short, fits, apart, room⟩ answers
    obtain ⟨reports, ran, calls, comes⟩ :=
      @walkEach_fits imc table answers smbios 0 fits apart 256 (Nat.le_refl _)
    have each := @smcSmBiosInit_each imc table answers smbios 0 (by omega) (Nat.zero_le _) 256 256
      (by omega)
    rw [List.drop_zero] at each
    refine ⟨256, 256, reports, each.trans ran, calls.rows, calls.ofType, calls.once, ?_, ?_⟩
    · intro fine
      cases comes with
      | failed report member failed =>
        rw [fine report member] at failed
        cases failed
      | finished all remain => exact all
      | crowded crowded => exact absurd room crowded
    · intro fine
      cases comes with
      | failed report member failed =>
        rw [fine report member] at failed
        cases failed
      | finished all remain => exact remain
      | crowded crowded => exact absurd room crowded

/-- Two slots for each channel. -/
def fullBoard : ImcDimm := ⟨fun _ => 2, fun _ => 2⟩

/-- Five memory arrays, one more than the table of the slots has entries. -/
def fiveArrays : Smbios where
  structures := (List.range 5).map fun i => ⟨16, UInt16.ofNat i, []⟩
  added := 0
  endOfTable := ⟨127, 5, []⟩
  maximumTableSize := 0x4000
  smbiosTableAtE000 := false
  distinct := by decide

/-- The entry for memory arrays. -/
def arraysEntry : Entry := ⟨16, .type16, by decide⟩

/-- A walk over five arrays looks up a fifth position, which the table of the slots does not have. -/
theorem not_every_walk :
    ¬ ∀ imc table smbios answers, Lawful imc table smbios answers := by
  intro lawful
  obtain ⟨passes, rounds, reports, ended, -⟩ :=
    lawful fullBoard [arraysEntry] fiveArrays allSucceed
  obtain ⟨walked, tail, ran, -, -⟩ := walkEach_ok (walkEach_of_ended (by decide) ended)
  have outside : ∀ inst found updated, arraysEntry.smBiosUpdateFn.call fullBoard inst
      (arraysEntry.smBiosUpdateFn.temp arraysEntry.smBiosUpdateFn.size) found ≠ .ok updated := by
    intro inst found updated call
    cases (@smBiosType16Update_outside fullBoard inst found).symm.trans call
  have within := @walk_within fullBoard arraysEntry (allSucceed 0) fiveArrays []
    (fiveArrays.ofType arraysEntry.smBiosUpdateType) 0 0 (by decide) (allSucceed_succeeds 0)
    (by decide) outside rfl (Nat.le_refl 0) (Nat.zero_le _) rounds walked ran
    (Or.inl fun s => rfl)
  exact absurd within (by decide)

end Result

end SmcPkg.UpdateWalk
