import SmcPkg.Lib.Bytes
import SmcPkg.OutBand.Upload

/-!
# The memory window to the BMC

The BIOS and the BMC hand each other data through memory of the BMC. In one build it is the
video RAM of the BMC's graphics controller, in the other the last megabyte of its DRAM, which
is seen 64 KB at a time through an aperture whose place a register sets. The data that is
written goes through the aperture piece by piece. The data that is read goes through it only
when one piece is enough, and is taken from the video RAM otherwise.

The devices on the bus have any identities and addresses. The variables of the library are those
before its search or after it (`Settled`). Both builds are covered; the commands by which BIOS and
BMC agree on a transfer are not.
-/

namespace SmcPkg.BmcWindow

open Bytes Card Upload

section Model

/-- The two builds: `OOB_READ_DATA_FROM_DRAM` is not defined, or it is. -/
inductive Build where
  | videoRam
  | dram
  deriving DecidableEq

/-- The configuration space of device 0 on a bus. -/
structure PciDevice where
  id : UInt32
  revision : UInt8
  bar0 : UInt32
  bar1 : UInt32
  bar2 : UInt32

/-- What the board is. The identity of its graphics controller is `IPMI_VGA_SVID`, which its
build file gives. The byte at `0x1E6E0004` says how much DRAM there is, and `videoAt` is the
place in the memory of the BMC that shows at `IVBar`. -/
structure Board where
  ipmiVgaSvid : UInt32
  bus : Nat → PciDevice
  enterEnhanceMode : UInt16 → Status
  dramStrap : UInt8
  videoAt : Nat
  videoSize : Nat

/-- The memory of the BMC, and the registers of the bridge to it. -/
structure Bmc where
  memory : Memory
  remapping : UInt32
  enable : UInt32

/-- The variables of the library. A null pointer is 0. -/
structure Statics where
  ivBar : Nat
  astMmioBar : Nat
  astRevision : UInt8
  mDramBase : UInt32
  mDramSize : UInt32
  mRemappingBase : UInt32

/-- `IPMI_VIDEO_MEMORY_OFFSET`. -/
def ipmiVideoMemoryOffset : Nat := 0xF00000

/-- The base of the DRAM for a revision of the chip, 0 for one that is not known. -/
def dramBase (revision : UInt8) : UInt32 :=
  if revision >>> 4 = 4 then 0x80000000
  else if revision >>> 4 = 3 then 0x40000000
  else 0

/-- The size of the DRAM. The size so far stays for a revision that is not known. -/
def dramSize (revision dramConfig : UInt8) (before : UInt32) : UInt32 :=
  if revision >>> 4 = 4 then
    match dramConfig.toNat with
    | 3 => 0x40000000
    | 2 => 0x20000000
    | 1 => 0x10000000
    | 0 => 0x8000000
    | _ => before
  else if revision >>> 4 = 3 then
    match dramConfig.toNat with
    | 3 => 0x20000000
    | 2 => 0x10000000
    | 1 => 0x8000000
    | 0 => 0x4000000
    | _ => before
  else before

/-- Where the last megabyte begins. -/
def remappingBase (revision strap : UInt8) (before : UInt32) : UInt32 :=
  dramBase revision + dramSize revision (strap &&& 3) before - 0x100000

/-- The search for the graphics controller. -/
def findVga (board : Board) : Option PciDevice :=
  ((List.range' 1 254).map board.bus).find? (fun device => device.id = board.ipmiVgaSvid)

/-- What follows in the build for DRAM: the window is computed once. -/
def findDram (board : Board) (statics : Statics) (bmc : Bmc) : Statics × Bmc :=
  if statics.mDramBase = 0 ∧ statics.astMmioBar ≠ 0 ∧ statics.astRevision ≠ 0 then
    let base := remappingBase statics.astRevision board.dramStrap statics.mDramSize
    ({ statics with
        mDramBase := dramBase statics.astRevision
        mDramSize := dramSize statics.astRevision (board.dramStrap &&& 3) statics.mDramSize
        mRemappingBase := base },
      { bmc with remapping := base, enable := 0 })
  else (statics, bmc)

/-- `GetIPMIVideoBar`. The pointer it returns is `IVBar`. -/
def getIPMIVideoBar (build : Build) (board : Board) (statics : Statics) (bmc : Bmc) :
    Statics × Bmc :=
  if statics.ivBar ≠ 0 then (statics, bmc)
  else
    match findVga board with
    | none => ({ statics with ivBar := 0 }, bmc)
    | some device =>
      let found := { statics with
        ivBar := device.bar0.toNat + ipmiVideoMemoryOffset
        astMmioBar := device.bar1.toNat
        astRevision := device.revision }
      let ivio := device.bar2.toUInt16 &&& 0xFFF0
      if ivio = 0 ∨ ivio = 0xFFF0 then ({ found with ivBar := 0 }, bmc)
      else
        match build with
        | .dram => findDram board found bmc
        | .videoRam =>
          if efiError (board.enterEnhanceMode ivio) then ({ found with ivBar := 0 }, bmc)
          else (found, bmc)

/-- `CopyMem` to the BMC. -/
def Bmc.copyIn (bmc : Bmc) (place count : Nat) (buffer : Memory) : Bmc :=
  { bmc with memory := overlayAt place count buffer bmc.memory }

/-- The loop of `DataToBMCPrepareData`: copy a piece to the aperture, sum what stands in the
aperture then, and move the aperture on. -/
def prepareLoop (buffer : Memory) (bufferLength : Nat) (checkSum : UInt8) (bmc : Bmc) :
    UInt8 × Bmc :=
  if bufferLength ≠ 0 ∧ bufferLength ≤ 0x100000 then
    let count := min bufferLength 0x10000
    let copied := bmc.copyIn bmc.remapping.toNat count buffer
    let sum := checkSum + byteSum copied.memory bmc.remapping.toNat count
    if bufferLength ≤ 0x10000 then (sum, copied)
    else
      prepareLoop (shifted 0x10000 buffer) (bufferLength - 0x10000) sum
        { copied with remapping := copied.remapping + 0x10000 }
  else (checkSum, bmc)
  termination_by bufferLength
  decreasing_by omega

/-- What `DataToBMCPrepareData` leaves. -/
structure Prepared where
  status : Status
  vramCheckSum : UInt8
  statics : Statics
  bmc : Bmc

/-- `DataToBMCPrepareData`. -/
def dataToBMCPrepareData (build : Build) (board : Board) (statics : Statics) (bmc : Bmc)
    (buffer : Memory) (bufferLength : UInt32) (vramCheckSum : UInt8) : Prepared :=
  let (found, bmc) := getIPMIVideoBar build board statics bmc
  match build with
  | .dram =>
    if found.mDramBase ≠ 0 then
      let opened := { bmc with remapping := found.mRemappingBase, enable := 1 }
      let (checkSum, copied) := prepareLoop buffer bufferLength.toNat 0 opened
      ⟨efiSuccess, checkSum, found, { copied with enable := 0 }⟩
    else ⟨efiNotReady, vramCheckSum, found, bmc⟩
  | .videoRam =>
    if found.ivBar ≠ 0 then
      let copied := bmc.copyIn board.videoAt bufferLength.toNat buffer
      ⟨efiSuccess, byteSum copied.memory board.videoAt bufferLength.toNat, found, copied⟩
    else ⟨efiNotReady, vramCheckSum, found, bmc⟩

/-- What `DataToBIOSReadData` leaves. -/
structure BiosRead where
  status : Status
  buffer : Memory
  statics : Statics
  bmc : Bmc

/-- `CopyMem` from the BMC. -/
def Bmc.copyOut (bmc : Bmc) (place count : Nat) (buffer : Memory) : Memory :=
  overlay count (shifted place bmc.memory) buffer

/-- `DataToBIOSReadData`. It computes the window anew, and puts the registers of the bridge
back to what they were. Without a register bar the pointers to them are not set, and what
the source then does through them is left out: it computes no DRAM base there. -/
def dataToBIOSReadData (build : Build) (board : Board) (statics : Statics) (bmc : Bmc)
    (buffer : Memory) (bufferLength : UInt32) : BiosRead :=
  let (found, bmc) := getIPMIVideoBar build board statics bmc
  match build with
  | .dram =>
    let hasBridge := found.astMmioBar ≠ 0 ∧ found.astRevision ≠ 0
    let base := if hasBridge then dramBase found.astRevision else 0
    let remapping := remappingBase found.astRevision board.dramStrap 0
    if base ≠ 0 ∧ bufferLength.toNat ≤ 0x10000 then
      ⟨efiSuccess, bmc.copyOut remapping.toNat bufferLength.toNat buffer, found, bmc⟩
    else if found.ivBar ≠ 0 then
      ⟨efiSuccess, bmc.copyOut board.videoAt bufferLength.toNat buffer, found, bmc⟩
    else ⟨efiNotReady, buffer, found, bmc⟩
  | .videoRam =>
    if found.ivBar ≠ 0 then
      ⟨efiSuccess, bmc.copyOut board.videoAt bufferLength.toNat buffer, found, bmc⟩
    else ⟨efiNotReady, buffer, found, bmc⟩

end Model

section Result

/-- The place of the window in the memory of the BMC, and its size. -/
def window (build : Build) (board : Board) (statics : Statics) : Nat × Nat :=
  match build with
  | .dram => (statics.mRemappingBase.toNat, 0x100000)
  | .videoRam => (board.videoAt, board.videoSize)

/-- A transfer there and back: what is told to be in the window is in it, with its sum, the
same bytes come back from it, and what it cannot hold is refused. -/
structure Transfers (build : Build) (board : Board) (statics : Statics) (bmc : Bmc)
    (buffer : Memory) (bufferLength : UInt32) (vramCheckSum : UInt8) (received : Memory) :
    Prop where
  held :
    let prepared := dataToBMCPrepareData build board statics bmc buffer bufferLength vramCheckSum
    let (place, size) := window build board prepared.statics
    prepared.status = efiSuccess → bufferLength.toNat ≤ size ∧
      ∀ i < bufferLength.toNat, prepared.bmc.memory (place + i) = buffer i
  summed :
    let prepared := dataToBMCPrepareData build board statics bmc buffer bufferLength vramCheckSum
    prepared.status = efiSuccess → prepared.vramCheckSum = byteSum buffer 0 bufferLength.toNat
  returned :
    let prepared := dataToBMCPrepareData build board statics bmc buffer bufferLength vramCheckSum
    let read := dataToBIOSReadData build board prepared.statics prepared.bmc received bufferLength
    prepared.status = efiSuccess → read.status = efiSuccess →
      ∀ i < bufferLength.toNat, read.buffer i = buffer i
  refused :
    let prepared := dataToBMCPrepareData build board statics bmc buffer bufferLength vramCheckSum
    (window build board prepared.statics).2 < bufferLength.toNat → prepared.status ≠ efiSuccess

/-- A DRAM base that was computed belongs to the controller that was found. -/
structure Settled (board : Board) (statics : Statics) : Prop where
  bar : statics.mDramBase ≠ 0 → statics.ivBar ≠ 0
  bridge : statics.mDramBase ≠ 0 → statics.astMmioBar ≠ 0 ∧ statics.astRevision ≠ 0
  base : statics.mDramBase ≠ 0 → statics.mDramBase = dramBase statics.astRevision
  remapping : statics.mDramBase ≠ 0 →
    statics.mRemappingBase = remappingBase statics.astRevision board.dramStrap 0

/-- The library on a board, before or after its search. -/
structure Driver (board : Board) where
  statics : Statics
  settled : Settled board statics

/-- The variables after the search. -/
def searched (build : Build) (board : Board) (statics : Statics) : Statics :=
  (getIPMIVideoBar build board statics ⟨fun _ => 0, 0, 0⟩).1

/-- There is no window, or it holds the length. In the build for DRAM, what is longer than the
aperture comes back only if the video RAM is the same memory. -/
def Fits (build : Build) (board : Board) (found : Statics) (length : Nat) : Prop :=
  match build with
  | .videoRam => found.ivBar = 0 ∨ length ≤ board.videoSize
  | .dram => found.mDramBase = 0 ∨ length ≤ 0x10000 ∨
      (length ≤ 0x100000 ∧ board.videoAt = found.mRemappingBase.toNat)

end Result

section Search

variable {build : Build} {board : Board} {statics : Statics} {bmc other : Bmc}

/-- The size before is never needed: two bits have four values. -/
theorem remappingBase_before {revision strap : UInt8} (known : dramBase revision ≠ 0)
    (before : UInt32) :
    remappingBase revision strap before = remappingBase revision strap 0 := by
  have masked : (strap &&& 3).toNat ≤ 3 := by
    rw [UInt8.toNat_and]
    exact Nat.and_le_right
  have values : (strap &&& 3).toNat = 0 ∨ (strap &&& 3).toNat = 1 ∨ (strap &&& 3).toNat = 2 ∨
      (strap &&& 3).toNat = 3 := by
    omega
  unfold dramBase at known
  unfold remappingBase dramSize
  split_ifs at known ⊢ with ast2500 ast2400
  · rcases values with value | value | value | value <;> simp only [value]
  · rcases values with value | value | value | value <;> simp only [value]
  · exact absurd rfl known

/-- The last megabyte ends with the memory that 32 bits address. -/
theorem remappingBase_room {revision strap : UInt8} (known : dramBase revision ≠ 0) :
    (remappingBase revision strap 0).toNat + 0x100000 ≤ 2 ^ 32 := by
  unfold dramBase at known
  unfold remappingBase dramBase dramSize
  split_ifs at known ⊢ with ast2500 ast2400
  · split <;> decide
  · split <;> decide
  · exact absurd rfl known

/-- A window that was settled before stays so. -/
theorem findDram_settled (bar : statics.ivBar ≠ 0) (settled : Settled board statics) :
    Settled board (findDram board statics bmc).1 := by
  unfold findDram
  split_ifs with fresh
  · obtain ⟨-, mmio, revision⟩ := fresh
    refine ⟨fun _ => bar, fun _ => ⟨mmio, revision⟩, fun _ => rfl, ?_⟩
    intro known
    exact remappingBase_before known _
  · exact settled

/-- The search keeps the relation between the variables. -/
theorem getIPMIVideoBar_settled (settled : Settled board statics) :
    Settled board (getIPMIVideoBar build board statics bmc).1 := by
  unfold getIPMIVideoBar
  by_cases cached : statics.ivBar ≠ 0
  · rw [if_pos cached]
    exact settled
  rw [if_neg cached]
  have fresh : statics.mDramBase = 0 := by
    by_contra known
    exact cached (settled.bar known)
  have unknown : ∀ after : Statics, after.mDramBase = 0 → Settled board after := by
    intro after zero
    exact ⟨fun known => absurd zero known, fun known => absurd zero known,
      fun known => absurd zero known, fun known => absurd zero known⟩
  cases findVga board with
  | none => exact unknown _ fresh
  | some device =>
    cases build with
    | dram =>
      simp only
      split_ifs
      · exact unknown _ fresh
      · apply findDram_settled
        · simp [ipmiVideoMemoryOffset]
        · exact unknown _ fresh
    | videoRam =>
      simp only
      split_ifs
      · exact unknown _ fresh
      · exact unknown _ fresh
      · exact unknown _ fresh

/-- What is searched for does not depend on the memory. -/
theorem getIPMIVideoBar_searched :
    (getIPMIVideoBar build board statics bmc).1 = searched build board statics := by
  unfold searched getIPMIVideoBar findDram
  split_ifs
  · rfl
  cases findVga board with
  | none => rfl
  | some device =>
    simp only
    split_ifs
    all_goals cases build
    all_goals rfl

/-- The search leaves the memory of the BMC. -/
theorem getIPMIVideoBar_memory :
    (getIPMIVideoBar build board statics bmc).2.memory = bmc.memory := by
  unfold getIPMIVideoBar findDram
  split_ifs
  · rfl
  cases findVga board with
  | none => rfl
  | some device =>
    cases build
    all_goals simp only
    all_goals split_ifs
    all_goals rfl

/-- The search is made once. -/
theorem getIPMIVideoBar_cached (bar : statics.ivBar ≠ 0) :
    getIPMIVideoBar build board statics bmc = (statics, bmc) :=
  if_pos bar

end Search

section Loop

/-- What is summed in the aperture is what was copied to it. -/
theorem sum_copied {bmc : Bmc} {place count : Nat} {buffer : Memory} :
    byteSum (bmc.copyIn place count buffer).memory place count = byteSum buffer 0 count := by
  apply byteSum_moved
  intro i below
  refine (overlayAt_inside (by omega) (by omega)).trans ?_
  congr 1
  omega

/-- The pieces lie side by side in the window, and the sum is the sum of all of them. -/
theorem prepareLoop_copies {buffer : Memory} {bufferLength : Nat} {checkSum : UInt8} {bmc : Bmc}
    (limit : bufferLength ≤ 0x100000) (room : bmc.remapping.toNat + bufferLength ≤ 2 ^ 32) :
    (prepareLoop buffer bufferLength checkSum bmc).1 =
        checkSum + byteSum buffer 0 bufferLength ∧
      (prepareLoop buffer bufferLength checkSum bmc).2.memory =
        overlayAt bmc.remapping.toNat bufferLength buffer bmc.memory := by
  induction buffer, bufferLength, checkSum, bmc using prepareLoop.induct with
  | case1 buffer bufferLength checkSum bmc more last =>
    rw [prepareLoop, if_pos more]
    simp only
    rw [if_pos last]
    have whole : min bufferLength 0x10000 = bufferLength := Nat.min_eq_left last
    rw [whole]
    exact ⟨by rw [sum_copied], rfl⟩
  | case2 buffer bufferLength checkSum bmc more count copied sum further inductionHypothesis =>
    have piece : min bufferLength 0x10000 = 0x10000 := Nat.min_eq_right (by omega)
    have rest : 0x10000 + (bufferLength - 0x10000) = bufferLength := by omega
    have moved : (bmc.remapping + 0x10000).toNat = bmc.remapping.toNat + 0x10000 := by
      rw [UInt32.toNat_add]
      exact Nat.mod_eq_of_lt (by simp; omega)
    have room : (bmc.remapping + 0x10000).toNat + (bufferLength - 0x10000) ≤ 2 ^ 32 := by omega
    obtain ⟨summed, written⟩ := inductionHypothesis (by omega) room
    rw [prepareLoop, if_pos more]
    simp only
    rw [if_neg further]
    constructor
    · have behind : byteSum (shifted 0x10000 buffer) 0 (bufferLength - 0x10000) =
          byteSum buffer 0x10000 (bufferLength - 0x10000) :=
        byteSum_moved (fun i _ => by rw [shifted, Nat.zero_add])
      rw [← rest, byteSum_append, ← UInt8.add_assoc, Nat.zero_add, ← behind, rest]
      refine summed.trans ?_
      simp only [sum, copied, count]
      rw [piece, sum_copied]
    · refine written.trans ?_
      simp only [copied, Bmc.copyIn, count]
      rw [piece, moved, overlayAt_joined, rest]
  | case3 buffer bufferLength checkSum bmc done =>
    have empty : bufferLength = 0 := by omega
    subst empty
    rw [prepareLoop, if_neg done]
    refine ⟨(UInt8.add_zero _).symm, ?_⟩
    funext i
    rw [overlayAt_outside (by omega)]

end Loop

section Proof

variable {build : Build} {board : Board} {statics : Statics} {bmc : Bmc} {buffer received : Memory}
  {bufferLength : UInt32} {vramCheckSum : UInt8}

/-- Without the bar there is no window of video RAM. -/
theorem videoRam_notReady (absent : (searched .videoRam board statics).ivBar = 0) :
    (dataToBMCPrepareData .videoRam board statics bmc buffer bufferLength vramCheckSum).status =
      efiNotReady := by
  simp only [dataToBMCPrepareData, getIPMIVideoBar_searched, absent, ne_eq, not_true_eq_false,
    if_false]

/-- With the bar everything is copied to the video RAM. -/
theorem videoRam_prepared (bar : (searched .videoRam board statics).ivBar ≠ 0) :
    ∃ before : Bmc,
      dataToBMCPrepareData .videoRam board statics bmc buffer bufferLength vramCheckSum =
        ⟨efiSuccess, byteSum buffer 0 bufferLength.toNat, searched .videoRam board statics,
          before.copyIn board.videoAt bufferLength.toNat buffer⟩ := by
  refine ⟨(getIPMIVideoBar .videoRam board statics bmc).2, ?_⟩
  simp only [dataToBMCPrepareData, getIPMIVideoBar_searched]
  rw [if_pos bar, sum_copied]

/-- What was copied to a place is read from there. -/
theorem copyOut_copied {before : Memory} {place count i : Nat} (below : i < count)
    (copied : bmc.memory = overlayAt place count buffer before) :
    bmc.copyOut place count received i = buffer i := by
  rw [Bmc.copyOut, overlay_inside below, shifted, copied, overlayAt_inside (by omega) (by omega)]
  congr 1
  omega

/-- Without a DRAM base there is no window of DRAM. -/
theorem dram_notReady (absent : (searched .dram board statics).mDramBase = 0) :
    (dataToBMCPrepareData .dram board statics bmc buffer bufferLength vramCheckSum).status =
      efiNotReady := by
  simp only [dataToBMCPrepareData, getIPMIVideoBar_searched, absent, ne_eq, not_true_eq_false,
    if_false]

/-- With a DRAM base the answer is success, whatever the length. -/
theorem dram_success (base : (searched .dram board statics).mDramBase ≠ 0) :
    (dataToBMCPrepareData .dram board statics bmc buffer bufferLength vramCheckSum).status =
      efiSuccess := by
  simp only [dataToBMCPrepareData, getIPMIVideoBar_searched]
  rw [if_pos base]

/-- A length up to the limit is all copied to the window. -/
theorem dram_prepared (settled : Settled board statics)
    (base : (searched .dram board statics).mDramBase ≠ 0)
    (limit : bufferLength.toNat ≤ 0x100000) :
    let prepared := dataToBMCPrepareData .dram board statics bmc buffer bufferLength vramCheckSum
    prepared.vramCheckSum = byteSum buffer 0 bufferLength.toNat ∧
      prepared.statics = searched .dram board statics ∧
      prepared.bmc.memory =
        overlayAt (searched .dram board statics).mRemappingBase.toNat bufferLength.toNat buffer
          bmc.memory := by
  have found : Settled board (searched .dram board statics) := getIPMIVideoBar_settled settled
  have room : (searched .dram board statics).mRemappingBase.toNat + 0x100000 ≤ 2 ^ 32 := by
    rw [found.remapping base]
    apply remappingBase_room
    rw [← found.base base]
    exact base
  obtain ⟨summed, written⟩ := @prepareLoop_copies buffer bufferLength.toNat 0
    { (getIPMIVideoBar .dram board statics bmc).2 with
      remapping := (searched .dram board statics).mRemappingBase
      enable := 1 } limit (by simp only; omega)
  simp only [dataToBMCPrepareData, getIPMIVideoBar_searched]
  rw [if_pos base]
  rw [getIPMIVideoBar_memory] at written
  exact ⟨summed.trans (UInt8.zero_add _), rfl, written⟩

/-- The reader computes the same window as the search. -/
theorem dram_read (found : Settled board statics) (base : statics.mDramBase ≠ 0) :
    dataToBIOSReadData .dram board statics bmc received bufferLength =
      if bufferLength.toNat ≤ 0x10000 then
        ⟨efiSuccess, bmc.copyOut statics.mRemappingBase.toNat bufferLength.toNat received, statics,
          bmc⟩
      else
        ⟨efiSuccess, bmc.copyOut board.videoAt bufferLength.toNat received, statics, bmc⟩ := by
  have known : dramBase statics.astRevision ≠ 0 := by
    rw [← found.base base]
    exact base
  simp only [dataToBIOSReadData, getIPMIVideoBar_cached (found.bar base)]
  rw [if_pos (found.bridge base), if_pos (found.bar base), ← found.remapping base]
  by_cases small : bufferLength.toNat ≤ 0x10000
  · rw [if_pos small, if_pos ⟨known, small⟩]
  · rw [if_neg small, if_neg (fun both => small both.2)]

/-- Video RAM that holds the length gives back what it was given. -/
theorem videoRam_transfers
    (fits : Fits .videoRam board (searched .videoRam board statics) bufferLength.toNat) :
    Transfers .videoRam board statics bmc buffer bufferLength vramCheckSum received := by
  by_cases bar : (searched .videoRam board statics).ivBar = 0
  · have failed : (dataToBMCPrepareData .videoRam board statics bmc buffer bufferLength
        vramCheckSum).status ≠ efiSuccess := by
      rw [videoRam_notReady bar]
      decide
    exact ⟨fun success => absurd success failed, fun success => absurd success failed,
      fun success => absurd success failed, fun _ => failed⟩
  have small : bufferLength.toNat ≤ board.videoSize := fits.resolve_left bar
  obtain ⟨before, prepared⟩ := @videoRam_prepared board statics bmc buffer bufferLength
    vramCheckSum bar
  constructor
  · simp only [prepared, window]
    refine fun _ => ⟨small, ?_⟩
    intro i below
    exact (overlayAt_inside (by omega) (by omega)).trans (by congr 1; omega)
  · simp only [prepared, implies_true]
  · simp only [prepared, dataToBIOSReadData, getIPMIVideoBar_cached bar]
    rw [if_pos bar]
    intro _ _ i below
    exact copyOut_copied below rfl
  · simp only [prepared, window]
    intro large
    omega

/-- Nothing refuses a length that the video RAM does not hold. -/
theorem fits_videoRam
    (transfers : Transfers .videoRam board statics bmc buffer bufferLength vramCheckSum received) :
    Fits .videoRam board (searched .videoRam board statics) bufferLength.toNat := by
  by_cases bar : (searched .videoRam board statics).ivBar = 0
  · exact Or.inl bar
  obtain ⟨before, prepared⟩ := @videoRam_prepared board statics bmc buffer bufferLength
    vramCheckSum bar
  have held := transfers.held
  simp only [prepared, window] at held
  exact Or.inr (held trivial).1

/-- A length that fits the window of DRAM, and is read from the same memory, comes back. -/
theorem dram_transfers (settled : Settled board statics)
    (fits : Fits .dram board (searched .dram board statics) bufferLength.toNat) :
    Transfers .dram board statics bmc buffer bufferLength vramCheckSum received := by
  by_cases base : (searched .dram board statics).mDramBase = 0
  · have failed : (dataToBMCPrepareData .dram board statics bmc buffer bufferLength
        vramCheckSum).status ≠ efiSuccess := by
      rw [dram_notReady base]
      decide
    exact ⟨fun success => absurd success failed, fun success => absurd success failed,
      fun success => absurd success failed, fun _ => failed⟩
  have readable := fits.resolve_left base
  have limit : bufferLength.toNat ≤ 0x100000 := by
    rcases readable with small | ⟨limit, -⟩ <;> omega
  obtain ⟨summed, kept, written⟩ := @dram_prepared board statics bmc buffer bufferLength
    vramCheckSum settled base limit
  constructor
  · simp only [kept, written, window]
    refine fun _ => ⟨limit, ?_⟩
    intro i below
    exact (overlayAt_inside (by omega) (by omega)).trans (by congr 1; omega)
  · exact fun _ => summed
  · intro prepared read _ _ i below
    have found : Settled board (searched .dram board statics) := getIPMIVideoBar_settled settled
    have same : read.buffer i = buffer i := by
      simp only [read, prepared, kept]
      rw [dram_read found base]
      by_cases small : bufferLength.toNat ≤ 0x10000
      · rw [if_pos small]
        exact copyOut_copied below written
      · obtain ⟨-, shared⟩ := readable.resolve_left small
        rw [if_neg small, shared]
        exact copyOut_copied below written
    exact same
  · intro prepared large
    simp only [window] at large
    omega

/-- One byte that is set, in front of others that are not. -/
def firstByte : Memory := fun i => if i = 0 then 1 else 0

/-- A longer piece that is read from elsewhere does not come back, and a length beyond the
window is not refused. -/
theorem fits_dram (settled : Settled board statics)
    (transfers : ∀ bmc buffer received,
      Transfers .dram board statics bmc buffer bufferLength vramCheckSum received) :
    Fits .dram board (searched .dram board statics) bufferLength.toNat := by
  by_cases base : (searched .dram board statics).mDramBase = 0
  · exact Or.inl base
  by_cases small : bufferLength.toNat ≤ 0x10000
  · exact Or.inr (Or.inl small)
  have all := transfers ⟨fun _ => 0, 0, 0⟩ firstByte (fun _ => 0)
  have limit : bufferLength.toNat ≤ 0x100000 := by
    by_contra large
    exact all.refused (by simp only [window]; omega) (dram_success base)
  refine Or.inr (Or.inr ⟨limit, ?_⟩)
  by_contra elsewhere
  obtain ⟨-, kept, written⟩ := @dram_prepared board statics ⟨fun _ => 0, 0, 0⟩ firstByte
    bufferLength vramCheckSum settled base limit
  have found : Settled board (searched .dram board statics) := getIPMIVideoBar_settled settled
  have read := all.returned
  simp only [kept] at read
  rw [dram_read found base, if_neg small] at read
  have first := read (dram_success base) rfl 0 (by omega)
  simp only [Bmc.copyOut, written] at first
  rw [overlay_inside (by omega), shifted, Nat.add_zero] at first
  have zero : overlayAt (searched .dram board statics).mRemappingBase.toNat bufferLength.toNat
      firstByte (fun _ => 0) board.videoAt = 0 := by
    by_cases inside : (searched .dram board statics).mRemappingBase.toNat ≤ board.videoAt ∧
        board.videoAt < (searched .dram board statics).mRemappingBase.toNat + bufferLength.toNat
    · rw [overlayAt_inside inside.1 inside.2]
      exact if_neg (by omega)
    · rw [overlayAt_outside (by omega)]
  exact absurd (zero.symm.trans first) (by decide)

/-- A transfer there and back is right exactly if the window holds the length and, in the build for
DRAM, a length beyond the aperture is read from the memory it was written to. The condition is that
of the board and the length, for all buffers and all contents of the memory of the BMC. -/
theorem transfers_iff (build : Build) (board : Board) (driver : Driver board)
    (bufferLength : UInt32) :
    (∀ bmc buffer vramCheckSum received,
        Transfers build board driver.statics bmc buffer bufferLength vramCheckSum received) ↔
      Fits build board (searched build board driver.statics) bufferLength.toNat := by
  cases build with
  | videoRam =>
    constructor
    · intro transfers
      exact fits_videoRam (transfers ⟨fun _ => 0, 0, 0⟩ (fun _ => 0) 0 (fun _ => 0))
    · intro fits bmc buffer vramCheckSum received
      exact videoRam_transfers fits
  | dram =>
    constructor
    · intro transfers
      exact fits_dram driver.settled
        (fun bmc buffer received => transfers bmc buffer 0 received)
    · intro fits bmc buffer vramCheckSum received
      exact dram_transfers driver.settled fits

/-- A controller of the second kind on bus 1, with 1024 MB of DRAM. -/
def ast2500 : Board where
  ipmiVgaSvid := 0x20001A03
  bus _ := ⟨0x20001A03, 0x41, 0x90000000, 0x91000000, 0x2001⟩
  enterEnhanceMode _ := efiSuccess
  dramStrap := 3
  videoAt := 0xBF700000
  videoSize := 0x100000

/-- The library before its first call. -/
def unused : Statics := ⟨0, 0, 0, 0, 0, 0⟩

/-- A byte more than the window holds is told to be transferred. -/
theorem not_always_transfers :
    ¬ ∀ build board (driver : Driver board) bmc buffer bufferLength vramCheckSum received,
      Transfers build board driver.statics bmc buffer bufferLength vramCheckSum received := by
  intro always
  have settled : Settled ast2500 unused :=
    ⟨fun known => absurd rfl known, fun known => absurd rfl known, fun known => absurd rfl known,
      fun known => absurd rfl known⟩
  have all := always .dram ast2500 ⟨unused, settled⟩ ⟨fun _ => 0, 0, 0⟩ firstByte 0x100001 0
    (fun _ => 0)
  have base : (searched .dram ast2500 unused).mDramBase ≠ 0 := by
    decide
  exact all.refused (by simp only [window]; decide) (dram_success base)

end Proof

end SmcPkg.BmcWindow
