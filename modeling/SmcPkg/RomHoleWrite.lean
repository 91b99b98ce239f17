import SmcPkg.OutBand.Upload

/-!
# Writing a region of the ROM hole

The hole can be erased and written only as a whole, so a write of one region reads all of it,
puts the data in and programs all of it again. There is a library for the time before the
operating system, which asks a software SMI for the programming if it can, and a library for
system management mode.

The status of every operation and what a failed one leaves in the hole are inputs. An SMI may be
lost, and the handler may have been switched off by an earlier SMI.
-/

namespace SmcPkg.RomHoleWrite

open Bytes Card RomHole Upload

section Flash

/-- How an operation on the flash part ends, and what is in the hole if it failed. -/
structure Operation where
  status : Status
  left : Memory

/-- The outcomes of the functions of a flash protocol. -/
structure Flash where
  read : Status
  deviceWriteEnable : Status
  erase : Operation
  write : Operation
  deviceWriteDisable : Status

/-- The hole after a write that ignores all statuses: the image is in it for sure only if it was
erased before. -/
def Flash.programmed (flash : Flash) (image : Memory) : Memory :=
  if flash.erase.status = efiSuccess ∧ flash.write.status = efiSuccess then image
  else flash.write.left

end Flash

section Handler

/-- The hole, and `DisableSmcSwSmiFlash`. -/
structure SmmState where
  disabled : Bool
  hole : Memory

/-- `SWSMI_E9_SUBCMD_FLASH_WRITE`. -/
def subcmdFlashWrite : UInt8 := 1

/-- `SWSMI_E9_SUBCMD_UNREGISTER`. -/
def subcmdUnregister : UInt8 := 2

/-- What the handler of an SMI meets: whether there is a flash protocol for it, and what the
functions of that do. -/
structure SmmFlash where
  located : Status
  flash : Flash

/-- `SmcSwSmiFlashCallBack`. -/
def smcSwSmiFlashCallBack (smm : SmmFlash) (image : Memory) (dataPort : UInt8)
    (state : SmmState) : SmmState :=
  if state.disabled then state
  else if dataPort = subcmdFlashWrite then
    if efiError smm.located then state
    else { state with hole := smm.flash.programmed image }
  else if dataPort = subcmdUnregister then { state with disabled := true }
  else state

/-- An SMI of the past. -/
structure PastSmi where
  smm : SmmFlash
  image : Memory
  dataPort : UInt8

/-- The state after the SMIs of the past. -/
def stateAfter (past : List PastSmi) (hole : Memory) : SmmState :=
  past.foldl (fun state smi => smcSwSmiFlashCallBack smi.smm smi.image smi.dataPort state)
    ⟨false, hole⟩

end Handler

section Dxe

/-- What `SmcRomHoleWriteRegion` of the DXE library meets. -/
structure Dxe where
  smcFlash : Bool
  allocate : Status
  flash : Flash
  smcSwSmiFlashProtocol : Status
  smmControl2 : Status
  trigger : Status
  smm : SmmFlash

/-- `SmcSwSmiFlashWrite`. -/
def smcSwSmiFlashWrite (dxe : Dxe) (image : Memory) (state : SmmState) : Status × SmmState :=
  if efiError dxe.smmControl2 then (dxe.smmControl2, state)
  else if efiError dxe.trigger then (dxe.trigger, state)
  else (dxe.trigger, smcSwSmiFlashCallBack dxe.smm image subcmdFlashWrite state)

/-- The write without an SMI. -/
def writeDirectly (flash : Flash) (image hole : Memory) : Status × Memory :=
  if flash.deviceWriteEnable ≠ efiSuccess then (flash.deviceWriteEnable, hole)
  else if flash.erase.status ≠ efiSuccess then (flash.erase.status, flash.erase.left)
  else if flash.write.status ≠ efiSuccess then (flash.write.status, flash.write.left)
  else (flash.deviceWriteDisable, image)

/-- `SmcRomHoleWriteRegion` of the DXE library. -/
def dxeWriteRegion (dxe : Dxe) (region : Region) (data : Memory) (state : SmmState) :
    Status × Memory :=
  if !dxe.smcFlash then (efiNotReady, state.hole)
  else if dxe.allocate ≠ efiSuccess then (dxe.allocate, state.hole)
  else if dxe.flash.read ≠ efiSuccess then (dxe.flash.read, state.hole)
  else
    let image := writeRegion state.hole region data
    let sent := smcSwSmiFlashWrite dxe image state
    if !efiError dxe.smcSwSmiFlashProtocol && !efiError sent.1 then (sent.1, sent.2.hole)
    else writeDirectly dxe.flash image state.hole

end Dxe

section Smm

/-- What `SmcRomHoleWriteRegion` of the SMM library meets. The maps have no entry for the full
region, so what it takes for its size and offset was on the stack before. -/
structure Smm where
  smcFlash : Bool
  allocate : Status
  flash : Flash
  unsetSize : UInt32
  unsetOffset : UInt32

/-- `TempSize` in the SMM library. -/
def Smm.tempSize (smm : Smm) : Region → Nat
  | .full => smm.unsetSize.toNat
  | region => smcRomHoleSize region

/-- `Offset` in the SMM library. -/
def Smm.offset (smm : Smm) : Region → Nat
  | .full => smm.unsetOffset.toNat
  | region => smcRomHoleOffset region

/-- `SmcRomHoleWriteRegion` of the SMM library, or nothing if it writes behind its buffer. -/
def smmWriteRegion (smm : Smm) (region : Region) (data hole : Memory) :
    Option (Status × Memory) :=
  if !smm.smcFlash then some (efiNotReady, hole)
  else if smm.allocate ≠ efiSuccess then some (smm.allocate, hole)
  else if smm.flash.deviceWriteEnable ≠ efiSuccess then
    some (smm.flash.deviceWriteEnable, hole)
  else if smm.flash.read ≠ efiSuccess then some (smm.flash.read, hole)
  else if smm.flash.erase.status ≠ efiSuccess then
    some (smm.flash.erase.status, smm.flash.erase.left)
  else if romHoleSize < smm.offset region + smm.tempSize region then none
  else if smm.flash.write.status ≠ efiSuccess then
    some (smm.flash.write.status, smm.flash.write.left)
  else
    some (smm.flash.deviceWriteDisable,
      overlayAt (smm.offset region) (smm.tempSize region) data hole)

end Smm

section Law

/-- Two memories agree on the hole. -/
def SameHole (left right : Memory) : Prop := ∀ i < romHoleSize, left i = right i

/-- A place in a region. -/
def InRegion (region : Region) (i : Nat) : Prop :=
  smcRomHoleOffset region ≤ i ∧ i < smcRomHoleOffset region + smcRomHoleSize region

/-- Two memories agree on the hole outside a region. -/
def SameOthers (region : Region) (left right : Memory) : Prop :=
  ∀ i < romHoleSize, ¬ InRegion region i → left i = right i

/-- With success the region is replaced, and with an error the rest is as before. -/
def Keeps (hole : Memory) (region : Region) (data : Memory) (result : Status × Memory) : Prop :=
  (result.1 = efiSuccess → SameHole result.2 (writeRegion hole region data)) ∧
    (efiError result.1 → SameOthers region result.2 hole)

/-- What a step may leave behind if it fails. -/
def Harmless (region : Region) (hole : Memory) (operation : Operation) : Prop :=
  operation.status ≠ efiSuccess → efiError operation.status →
    SameOthers region operation.left hole

variable {hole data : Memory} {region : Region} {status : Status}

/-- A region is written without the bytes around it. -/
theorem sameOthers_writeRegion : SameOthers region (writeRegion hole region data) hole := by
  intro i _ outside
  refine overlayAt_outside ?_
  unfold InRegion at outside
  omega

/-- An old hole may be left behind unless that counts as success. -/
theorem keeps_unchanged (failed : status ≠ efiSuccess) : Keeps hole region data (status, hole) := by
  constructor
  · intro success
    exact absurd success failed
  · intro _ i _ _
    rfl

/-- A write that succeeds keeps the law. -/
theorem keeps_written : Keeps hole region data (status, writeRegion hole region data) := by
  constructor
  · intro _ i _
    rfl
  · intro _
    exact sameOthers_writeRegion

/-- A write that fails keeps the law exactly if what it has left is harmless. -/
theorem keeps_failed {operation : Operation} (failed : operation.status ≠ efiSuccess) :
    Keeps hole region data (operation.status, operation.left) ↔
      Harmless region hole operation := by
  constructor
  · intro keeps _ error
    exact keeps.2 error
  · intro harmless
    exact ⟨fun success => absurd success failed, harmless failed⟩

/-- A hole whose contents count only if the status is success. -/
theorem keeps_answered {left : Memory} (answered : ¬ efiError status) :
    Keeps hole region data (status, left) ↔
      (status = efiSuccess → SameHole left (writeRegion hole region data)) := by
  constructor
  · intro keeps
    exact keeps.1
  · intro same
    exact ⟨same, fun error => absurd error answered⟩

/-- The write without an SMI keeps the law exactly if the erase is harmless, and the write
behind a successful erase. -/
theorem keeps_writeDirectly (flash : Flash) :
    Keeps hole region data (writeDirectly flash (writeRegion hole region data) hole) ↔
      (flash.deviceWriteEnable = efiSuccess →
        Harmless region hole flash.erase ∧
          (flash.erase.status = efiSuccess → Harmless region hole flash.write)) := by
  unfold writeDirectly
  by_cases enabled : flash.deviceWriteEnable = efiSuccess
  case neg =>
    rw [if_pos enabled]
    exact iff_of_true (keeps_unchanged enabled) (fun success => absurd success enabled)
  rw [if_neg (not_not.mpr enabled)]
  simp only [enabled, true_implies]
  by_cases erased : flash.erase.status = efiSuccess
  case neg =>
    rw [if_pos erased, keeps_failed erased]
    constructor
    · intro harmless
      exact ⟨harmless, fun success => absurd success erased⟩
    · intro both
      exact both.1
  rw [if_neg (not_not.mpr erased)]
  have first : Harmless region hole flash.erase := fun failed => absurd erased failed
  simp only [first, erased, true_implies, true_and]
  by_cases written : flash.write.status = efiSuccess
  case neg => rw [if_pos written, keeps_failed written]
  rw [if_neg (not_not.mpr written)]
  exact iff_of_true keeps_written (fun failed => absurd written failed)

/-- What is switched off stays so, and an SMI of the past did it. -/
theorem stateAfter_disabled (past : List PastSmi) (hole : Memory) :
    (stateAfter past hole).disabled ↔ ∃ smi ∈ past, smi.dataPort = subcmdUnregister := by
  have step : ∀ (smi : PastSmi) (state : SmmState),
      (smcSwSmiFlashCallBack smi.smm smi.image smi.dataPort state).disabled ↔
        state.disabled ∨ smi.dataPort = subcmdUnregister := by
    intro smi state
    have apart : subcmdFlashWrite ≠ subcmdUnregister := by decide
    unfold smcSwSmiFlashCallBack
    by_cases off : state.disabled
    · simp [off]
    · by_cases write : smi.dataPort = subcmdFlashWrite
      · rw [if_neg off, if_pos write]
        split <;> simp [off, write, apart]
      · rw [if_neg off, if_neg write]
        split <;> simp [*]
  have run : ∀ state : SmmState,
      (past.foldl (fun state smi => smcSwSmiFlashCallBack smi.smm smi.image smi.dataPort state)
        state).disabled ↔ state.disabled ∨ ∃ smi ∈ past, smi.dataPort = subcmdUnregister := by
    induction past with
    | nil => simp
    | cons smi past ih =>
      intro state
      rw [List.foldl_cons, ih, step]
      simp [or_assoc]
  simpa [stateAfter] using run ⟨false, hole⟩

/-- The SMI was raised, and its answer is what the caller gets. -/
def Dxe.raises (dxe : Dxe) : Prop :=
  ¬ efiError dxe.smcSwSmiFlashProtocol ∧ ¬ efiError dxe.smmControl2 ∧ ¬ efiError dxe.trigger

/-- The data are in the region already. -/
def AlreadyThere (hole : Memory) (region : Region) (data : Memory) : Prop :=
  ∀ i < smcRomHoleSize region, hole (smcRomHoleOffset region + i) = data i

/-- A write changes nothing exactly if the data stand there already. -/
theorem sameHole_writeRegion_iff :
    SameHole hole (writeRegion hole region data) ↔ AlreadyThere hole region data := by
  have bound := smcRomHole_inside region
  constructor
  · intro same i inside
    have place := same (smcRomHoleOffset region + i) (by omega)
    rw [writeRegion, overlayAt_inside (by omega) (by omega)] at place
    rw [place]
    congr 1
    omega
  · intro there i _
    by_cases inside : smcRomHoleOffset region ≤ i ∧
        i < smcRomHoleOffset region + smcRomHoleSize region
    · rw [writeRegion, overlayAt_inside inside.1 inside.2]
      rw [← there (i - smcRomHoleOffset region) (by omega)]
      congr 1
      omega
    · rw [writeRegion, overlayAt_outside (by omega)]

/-- What has to hold of the handler, if `SmcRomHoleWriteRegion` takes its word. -/
def HandlerKeeps (smm : SmmFlash) (off : Prop) (hole : Memory) (region : Region)
    (data : Memory) : Prop :=
  (off ∨ efiError smm.located → AlreadyThere hole region data) ∧
    (¬ off → ¬ efiError smm.located →
      (smm.flash.erase.status = efiSuccess ∧ smm.flash.write.status = efiSuccess) ∨
        SameHole smm.flash.write.left (writeRegion hole region data))

/-- The handler keeps the law exactly if its condition holds: it is off, or it has written what
was asked. -/
theorem sameHole_callBack (smm : SmmFlash) (state : SmmState) :
    SameHole (smcSwSmiFlashCallBack smm (writeRegion state.hole region data) subcmdFlashWrite
        state).hole (writeRegion state.hole region data) ↔
      HandlerKeeps smm state.disabled state.hole region data := by
  unfold smcSwSmiFlashCallBack HandlerKeeps
  by_cases off : state.disabled
  · simp [off, sameHole_writeRegion_iff]
  rw [if_neg off, if_pos rfl]
  by_cases lost : efiError smm.located
  · simp [off, lost, sameHole_writeRegion_iff]
  have active : ¬ (state.disabled ∨ efiError smm.located) := by simp [off, lost]
  rw [if_neg lost]
  unfold Flash.programmed
  by_cases good : smm.flash.erase.status = efiSuccess ∧ smm.flash.write.status = efiSuccess
  · rw [if_pos good]
    exact iff_of_true (fun i _ => rfl)
      ⟨fun idle => absurd idle active, fun _ _ => Or.inl good⟩
  · simp [good, off, lost]

/-- The condition for the DXE library. -/
def DxeKeeps (dxe : Dxe) (off : Prop) (hole : Memory) (region : Region) (data : Memory) :
    Prop :=
  dxe.smcFlash → dxe.allocate = efiSuccess → dxe.flash.read = efiSuccess →
    (dxe.raises → dxe.trigger = efiSuccess → HandlerKeeps dxe.smm off hole region data) ∧
      (¬ dxe.raises → dxe.flash.deviceWriteEnable = efiSuccess →
        Harmless region hole dxe.flash.erase ∧
          (dxe.flash.erase.status = efiSuccess → Harmless region hole dxe.flash.write))

/-- The library of the DXE phase keeps the law exactly under its condition. -/
theorem keeps_dxeWriteRegion (dxe : Dxe) (state : SmmState) :
    Keeps state.hole region data (dxeWriteRegion dxe region data state) ↔
      DxeKeeps dxe state.disabled state.hole region data := by
  unfold dxeWriteRegion DxeKeeps
  by_cases present : dxe.smcFlash
  case neg =>
    rw [if_pos (by simp [present])]
    exact iff_of_true (keeps_unchanged (by decide)) (fun there => absurd there present)
  rw [if_neg (by simp [present])]
  by_cases allocated : dxe.allocate = efiSuccess
  case neg =>
    rw [if_pos allocated]
    exact iff_of_true (keeps_unchanged allocated) (fun _ there => absurd there allocated)
  rw [if_neg (not_not.mpr allocated)]
  by_cases read : dxe.flash.read = efiSuccess
  case neg =>
    rw [if_pos read]
    exact iff_of_true (keeps_unchanged read) (fun _ _ there => absurd there read)
  rw [if_neg (not_not.mpr read)]
  simp only [present, allocated, read, true_implies]
  by_cases raised : dxe.raises
  · obtain ⟨protocol, control, trigger⟩ := raised
    have sent : smcSwSmiFlashWrite dxe (writeRegion state.hole region data) state =
        (dxe.trigger, smcSwSmiFlashCallBack dxe.smm (writeRegion state.hole region data)
          subcmdFlashWrite state) := by
      rw [smcSwSmiFlashWrite, if_neg control, if_neg trigger]
    have taken : dxe.raises := ⟨protocol, control, trigger⟩
    rw [sent, if_pos (by simp [protocol, trigger]), keeps_answered trigger, sameHole_callBack]
    simp [taken]
  · have direct : (!efiError dxe.smcSwSmiFlashProtocol && !efiError (smcSwSmiFlashWrite dxe
        (writeRegion state.hole region data) state).1) = false := by
      unfold Dxe.raises at raised
      by_cases protocol : efiError dxe.smcSwSmiFlashProtocol
      · simp [protocol]
      · unfold smcSwSmiFlashWrite
        by_cases control : efiError dxe.smmControl2
        · simp [control]
        · have trigger : efiError dxe.trigger := by
            by_contra trigger
            exact raised ⟨protocol, control, trigger⟩
          simp [control, trigger]
    rw [if_neg (by simp [direct]), keeps_writeDirectly]
    simp [raised]

/-- What the SMM library has to find on its stack for the full region. -/
def StackFits (smm : Smm) : Prop :=
  smm.unsetOffset.toNat + smm.unsetSize.toNat ≤ romHoleSize

/-- A copy of the size and to the offset from the stack gives the whole data. -/
def CopiesFull (smm : Smm) (hole data : Memory) : Prop :=
  SameHole (overlayAt smm.unsetOffset.toNat smm.unsetSize.toNat data hole) data

/-- The condition for the SMM library. -/
def SmmKeeps (smm : Smm) (hole : Memory) (region : Region) (data : Memory) : Prop :=
  smm.smcFlash → smm.allocate = efiSuccess → smm.flash.deviceWriteEnable = efiSuccess →
    smm.flash.read = efiSuccess →
      Harmless region hole smm.flash.erase ∧
        (smm.flash.erase.status = efiSuccess →
          (region = .full → StackFits smm) ∧ Harmless region hole smm.flash.write ∧
            (smm.flash.write.status = efiSuccess → smm.flash.deviceWriteDisable = efiSuccess →
              region = .full → CopiesFull smm hole data))

/-- The offset and the size of a part are those of the region. -/
theorem smm_place (smm : Smm) (part : region ≠ .full) :
    smm.offset region = smcRomHoleOffset region ∧
      smm.tempSize region = smcRomHoleSize region := by
  cases region with
  | full => exact absurd rfl part
  | _ => exact ⟨rfl, rfl⟩

/-- What the last step of the SMM library returns. -/
theorem keeps_smmImage (smm : Smm) :
    Keeps hole region data (status, overlayAt (smm.offset region) (smm.tempSize region) data
        hole) ↔
      (status = efiSuccess → region = .full → CopiesFull smm hole data) := by
  by_cases full : region = .full
  · subst full
    have whole : SameHole (writeRegion hole .full data) data := fun i inside =>
      overlayAt_inside (Nat.zero_le i) (by change i < 0 + romHoleSize; omega)
    have nothing : SameOthers .full (overlayAt (smm.offset .full) (smm.tempSize .full) data hole)
        hole := by
      intro i inside outside
      exact absurd ⟨Nat.zero_le i, by change i < 0 + romHoleSize; omega⟩ outside
    constructor
    · intro keeps success _ i inside
      exact (keeps.1 success i inside).trans (whole i inside)
    · intro copies
      refine ⟨fun success i inside => ?_, fun _ => nothing⟩
      exact (copies success rfl i inside).trans (whole i inside).symm
  · obtain ⟨offset, size⟩ := smm_place smm full
    rw [offset, size]
    exact iff_of_true keeps_written (fun _ whole => absurd whole full)

/-- The library of the SMM phase ends and keeps the law exactly under its condition. -/
theorem keeps_smmWriteRegion (smm : Smm) :
    (∃ result, smmWriteRegion smm region data hole = some result ∧
        Keeps hole region data result) ↔ SmmKeeps smm hole region data := by
  unfold smmWriteRegion SmmKeeps
  by_cases present : smm.smcFlash
  case neg =>
    rw [if_pos (by simp [present])]
    exact iff_of_true ⟨_, rfl, keeps_unchanged (by decide)⟩ (fun there => absurd there present)
  rw [if_neg (by simp [present])]
  by_cases allocated : smm.allocate = efiSuccess
  case neg =>
    rw [if_pos allocated]
    exact iff_of_true ⟨_, rfl, keeps_unchanged allocated⟩ (fun _ there => absurd there allocated)
  rw [if_neg (not_not.mpr allocated)]
  by_cases enabled : smm.flash.deviceWriteEnable = efiSuccess
  case neg =>
    rw [if_pos enabled]
    exact iff_of_true ⟨_, rfl, keeps_unchanged enabled⟩ (fun _ _ there => absurd there enabled)
  rw [if_neg (not_not.mpr enabled)]
  by_cases read : smm.flash.read = efiSuccess
  case neg =>
    rw [if_pos read]
    exact iff_of_true ⟨_, rfl, keeps_unchanged read⟩ (fun _ _ _ there => absurd there read)
  rw [if_neg (not_not.mpr read)]
  simp only [present, allocated, enabled, read, true_implies]
  by_cases erased : smm.flash.erase.status = efiSuccess
  case neg =>
    rw [if_pos erased]
    simp only [Option.some.injEq, exists_eq_left', keeps_failed erased]
    constructor
    · intro harmless
      exact ⟨harmless, fun success => absurd success erased⟩
    · intro both
      exact both.1
  rw [if_neg (not_not.mpr erased)]
  have first : Harmless region hole smm.flash.erase := fun failed => absurd erased failed
  simp only [first, erased, true_implies, true_and]
  by_cases overrun : romHoleSize < smm.offset region + smm.tempSize region
  · rw [if_pos overrun]
    refine iff_of_false (by simp) ?_
    rintro ⟨fits, -⟩
    by_cases full : region = .full
    · subst full
      have bound : smm.unsetOffset.toNat + smm.unsetSize.toNat ≤ romHoleSize := fits rfl
      exact absurd overrun (Nat.not_lt.mpr bound)
    · obtain ⟨offset, size⟩ := smm_place smm full
      have bound := smcRomHole_inside region
      omega
  rw [if_neg overrun]
  have fits : region = .full → StackFits smm := by
    rintro rfl
    exact Nat.not_lt.mp overrun
  by_cases written : smm.flash.write.status = efiSuccess
  case neg =>
    rw [if_pos written]
    simp only [Option.some.injEq, exists_eq_left', keeps_failed written]
    constructor
    · intro harmless
      exact ⟨fits, harmless, fun success => absurd success written⟩
    · intro all
      exact all.2.1
  rw [if_neg (not_not.mpr written)]
  have second : Harmless region hole smm.flash.write := fun failed => absurd written failed
  simp only [Option.some.injEq, exists_eq_left', keeps_smmImage]
  constructor
  · intro copies
    exact ⟨fits, second, fun _ success => copies success⟩
  · intro all
    exact all.2.2 written

/-- When a write of a region keeps its word, in the two libraries and after any SMIs. The first part
is about the driver, whose SMI may be lost or meet a handler that is switched off, the second one
about the library inside of SMM. -/
theorem keeps_iff (past : List PastSmi) (first data hole : Memory) (region : Region) (dxe : Dxe)
    (smm : Smm) :
    (Keeps (stateAfter past first).hole region data
        (dxeWriteRegion dxe region data (stateAfter past first)) ↔
      DxeKeeps dxe (∃ smi ∈ past, smi.dataPort = subcmdUnregister) (stateAfter past first).hole
        region data) ∧
      ((∃ result, smmWriteRegion smm region data hole = some result ∧
          Keeps hole region data result) ↔ SmmKeeps smm hole region data) := by
  constructor
  · rw [keeps_dxeWriteRegion, propext (stateAfter_disabled past first)]
  · exact keeps_smmWriteRegion smm

/-- A flash part that does what it is asked to. -/
def goodFlash : Flash :=
  ⟨efiSuccess, efiSuccess, ⟨efiSuccess, fun _ => 0xFF⟩, ⟨efiSuccess, fun _ => 0xFF⟩, efiSuccess⟩

/-- A machine with the SMI. -/
def withSmi : Dxe :=
  ⟨true, efiSuccess, goodFlash, efiSuccess, efiSuccess, efiSuccess, ⟨efiSuccess, goodFlash⟩⟩

/-- The SMI that switches the handler off. -/
def unregister : PastSmi := ⟨⟨efiSuccess, goodFlash⟩, fun _ => 0, subcmdUnregister⟩

/-- A lost SMI makes the library of the DXE phase report a success for data that were not
written. -/
theorem not_always_keeps :
    ¬ ∀ (past : List PastSmi) (first data hole : Memory) (region : Region) (dxe : Dxe)
        (smm : Smm),
      Keeps (stateAfter past first).hole region data
          (dxeWriteRegion dxe region data (stateAfter past first)) ∧
        ∃ result, smmWriteRegion smm region data hole = some result ∧
          Keeps hole region data result := by
  intro always
  let smm : Smm := ⟨false, efiSuccess, goodFlash, 0, 0⟩
  have keeps := (always [unregister] (fun _ => 0xFF) (fun _ => 0) (fun _ => 0xFF) .oa3 withSmi
    smm).1
  have same := keeps.1 (by decide) 0 (by decide)
  exact absurd same (by decide)

end Law

end SmcPkg.RomHoleWrite
