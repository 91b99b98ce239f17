import SmcPkg.InBand.BiosCfgBoot

/-!
# Consuming a staged image

The image is applied before the region is erased, and the status of the erase is not
looked at. Boots in which nothing new is staged therefore consume the image once as far as
the walk over the records comes to its end and the erase leaves no image that waits.
-/

namespace SmcPkg.BiosCfg

open Bytes Card Download RomHole

section Runs

/-- A boot, and what the rest of the firmware writes to the ROM hole before it. Nothing of it
goes to the in-band region. -/
structure Turn extends Boot where
  elsewhere : List (Region × Memory)
  apart : ∀ write ∈ elsewhere, Apart write.1 .inBand

/-- The hole after the writes to other regions. -/
def Turn.before (turn : Turn) (hole : Memory) : Memory :=
  turn.elsewhere.foldl (fun hole write => writeRegion hole write.1 write.2) hole

/-- The system when the in-band image is looked for. -/
def Turn.entry (turn : Turn) (system : System) : System :=
  { system with hole := turn.before system.hole }

/-- A boot of the run. -/
def takeTurn (turn : Turn) (system : System) : Booted :=
  inBandUpdateBiosCfg turn.toBoot (turn.entry system)

/-- The boots of a run, one after the other. -/
def runTurns : List Turn → System → List Booted
  | [], _ => []
  | turn :: turns, system =>
    let booted := takeTurn turn system
    booted :: runTurns turns booted.system

/-- The image is applied, or the load of the defaults is armed. -/
def Booted.applies (booted : Booted) : Bool := booted.passes || booted.arms

/-- The image is applied in at most one boot, and at most one boot resets the system. -/
def ConsumedOnce (run : List Booted) : Prop :=
  run.countP Booted.applies ≤ 1 ∧ run.countP Booted.resets ≤ 1

/-- An image waits in the in-band region. -/
def Waiting (hole : Memory) : Prop := waits (readRegion hole .inBand) = true

/-- The walk over the records of an image that is to be applied comes to its end. -/
def WalkEnds (boot : Boot) (hole : Memory) : Prop :=
  ∀ buffer, boot.read.buffer noError hole .inBand = some buffer → waits buffer = true →
    asksDefaults buffer = false →
      ∃ cursor, (updateBiosCfgToSystem buffer (boot.rounds + 1)).2 = .stopped cursor

/-- The erase leaves no image that waits. -/
def EraseHolds (boot : Boot) : Prop := ∀ left, boot.left = some left → ¬ Waiting left

/-- Every boot that is reached gets through its walk, and its erase holds. -/
def Completes : List Turn → System → Prop
  | [], _ => True
  | turn :: turns, system =>
    WalkEnds turn.toBoot (turn.before system.hole) ∧ EraseHolds turn.toBoot ∧
      Completes turns (takeTurn turn system).system

end Runs

section Step

variable {boot : Boot} {system : System} {hole : Memory}

/-- Writes to other regions leave the in-band region as it is. -/
theorem before_inBand (turn : Turn) {i : Nat} (inside : i < smcRomHoleSize .inBand) :
    readRegion (turn.before hole) .inBand i = readRegion hole .inBand i := by
  have apart := turn.apart
  rw [Turn.before]
  generalize turn.elsewhere = writes at apart
  induction writes generalizing hole with
  | nil => rfl
  | cons write writes inductionHypothesis =>
    rw [List.foldl_cons, inductionHypothesis (fun later member =>
      apart later (List.mem_cons_of_mem _ member))]
    exact readRegion_apart (apart write List.mem_cons_self) inside

/-- Nothing that happens before a boot makes an image wait. -/
theorem waiting_before (turn : Turn) : Waiting (turn.before hole) ↔ Waiting hole := by
  rw [Waiting, Waiting, waits_congr]
  intro i below
  have size : smcRomHoleSize .inBand = 12288 := rfl
  exact before_inBand turn (by omega)

/-- An erase that holds leaves nothing that waits. -/
theorem eraseInBand_done (holds : EraseHolds boot) : ¬ Waiting (eraseInBand boot hole) := by
  rw [eraseInBand]
  cases outcome : boot.left with
  | some left => exact holds left outcome
  | none =>
    have erased : ∀ i < 12,
        readRegion (writeRegion hole .inBand (fun _ => 0xFF)) .inBand i = 0xFF := by
      intro i below
      have size : smcRomHoleSize .inBand = 12288 := rfl
      exact readRegion_writeRegion (by omega)
    rw [Option.getD_none, Waiting, waits_congr erased]
    decide

/-- A boot in which no image waits does nothing with it. -/
theorem inBandUpdateBiosCfg_quiet (quiet : ¬ Waiting system.hole) :
    (inBandUpdateBiosCfg boot system).applies = false ∧
      (inBandUpdateBiosCfg boot system).resets = false ∧
      (inBandUpdateBiosCfg boot system).system.hole = system.hole := by
  rw [inBandUpdateBiosCfg_idle]
  · exact ⟨rfl, rfl, rfl⟩
  · intro buffer found
    rw [waits_congr (buffer_same found)]
    exact Bool.eq_false_iff.mpr quiet

/-- A boot either leaves the image alone, or it erases the region. -/
theorem inBandUpdateBiosCfg_cases (ends : WalkEnds boot system.hole) :
    ((inBandUpdateBiosCfg boot system).applies = false ∧
      (inBandUpdateBiosCfg boot system).resets = false ∧
      (inBandUpdateBiosCfg boot system).system.hole = system.hole) ∨
    (inBandUpdateBiosCfg boot system).system.hole = eraseInBand boot system.hole := by
  by_cases idle : ∀ buffer, boot.read.buffer noError system.hole .inBand = some buffer →
      waits buffer = false
  · rw [inBandUpdateBiosCfg_idle idle]
    exact Or.inl ⟨rfl, rfl, rfl⟩
  · obtain ⟨buffer, found, waiting⟩ : ∃ buffer,
        boot.read.buffer noError system.hole .inBand = some buffer ∧ waits buffer = true := by
      simpa using idle
    right
    cases defaults : asksDefaults buffer with
    | true => rw [inBandUpdateBiosCfg_defaults found waiting defaults]
    | false =>
      obtain ⟨store, applied⟩ := inBandUpdateBiosCfg_records found waiting defaults
      obtain ⟨cursor, stopped⟩ := ends buffer found waiting defaults
      rw [applied, afterWalk, stopped]
      rfl

end Step

section Law

/-- Where no image waits, the boots do nothing with it. -/
theorem runTurns_quiet {turns : List Turn} {system : System} (quiet : ¬ Waiting system.hole) :
    (runTurns turns system).countP Booted.applies = 0 ∧
      (runTurns turns system).countP Booted.resets = 0 := by
  induction turns generalizing system with
  | nil => exact ⟨rfl, rfl⟩
  | cons turn turns inductionHypothesis =>
    have entry : ¬ Waiting (turn.entry system).hole := fun waiting =>
      quiet ((waiting_before turn).mp waiting)
    obtain ⟨applies, resets, same⟩ := @inBandUpdateBiosCfg_quiet turn.toBoot _ entry
    have later : ¬ Waiting (takeTurn turn system).system.hole := by
      rw [takeTurn, same]
      exact entry
    obtain ⟨applied, reset⟩ := inductionHypothesis later
    rw [runTurns, List.countP_cons, List.countP_cons, applied, reset, takeTurn, applies, resets]
    exact ⟨rfl, rfl⟩

/-- At most one boot of a run counts, if none behind the first one does. -/
theorem count_head (booted : Booted) (run : List Booted) (p : Booted → Bool)
    (later : run.countP p = 0) : (booted :: run).countP p ≤ 1 := by
  rw [List.countP_cons, later]
  split_ifs
  · exact Nat.le_refl 1
  · exact Nat.zero_le 1

/-- In a run whose walks end and whose erases hold the image is consumed once: at most one boot
applies it or arms the defaults, and at most one boot resets. Between the boots the other regions
may be written, and each read and each pool may fail. -/
theorem boots_consume_once (turns : List Turn) (system : System)
    (completes : Completes turns system) : ConsumedOnce (runTurns turns system) := by
  induction turns generalizing system with
  | nil => exact ⟨Nat.zero_le 1, Nat.zero_le 1⟩
  | cons turn turns inductionHypothesis =>
    obtain ⟨ends, holds, rest⟩ := completes
    have later := inductionHypothesis _ rest
    rw [runTurns]
    rcases @inBandUpdateBiosCfg_cases turn.toBoot (turn.entry system) ends with idle | erased
    · obtain ⟨applies, resets, -⟩ := idle
      -- The boot leaves the image alone, so the later boots are all that counts.
      rw [ConsumedOnce, List.countP_cons, List.countP_cons, takeTurn, applies, resets]
      exact later
    · have quiet : ¬ Waiting (takeTurn turn system).system.hole := by
        rw [takeTurn, erased]
        exact eraseInBand_done holds
      obtain ⟨applied, reset⟩ := @runTurns_quiet turns _ quiet
      exact ⟨count_head _ _ _ applied, count_head _ _ _ reset⟩

/-- An image with one record and its checksums, which waits to be applied. -/
def sealedFile : List UInt8 :=
  binSignature ++ ([1, 0] ++ (le32 20 ++ ([0x42, 1, 0, 0, 0, 0, 0, 0] ++
    (1 :: 0x41 :: (List.replicate 18 0 ++ [0xD2])))))

/-- A system in which the image is staged. -/
def sealedSystem : System where
  hole := writeRegion (fun _ => 0xFF) .inBand (memoryOf sealedFile (fun _ => 0xFF))
  armed := false
  store := ⟨fun _ => none, by simp⟩

/-- A boot with the outcome of its erase. -/
def sealedTurn (left : Option Memory) : Turn where
  read := ⟨some (fun _ => 0), efiSuccess⟩
  deleteStatus := efiSuccess
  armStatus := efiSuccess
  left := left
  rounds := 1
  table := ⟨[], by simp, by decide⟩
  raidDriver := false
  services := fun _ => Services.working
  elsewhere := []
  apart := by simp

/-- Two boots consume the image once. -/
theorem boots_consume_once_sealed :
    Completes [sealedTurn none, sealedTurn none] sealedSystem ∧
      ConsumedOnce (runTurns [sealedTurn none, sealedTurn none] sealedSystem) := by
  have holds : EraseHolds (sealedTurn none).toBoot := by
    intro left outcome
    exact absurd outcome (by simp [sealedTurn])
  have first : WalkEnds (sealedTurn none).toBoot ((sealedTurn none).before sealedSystem.hole) := by
    intro buffer found waiting records
    have taken : (sealedTurn none).read.buffer noError sealedSystem.hole .inBand =
        some (overlay (smcRomHoleSize .inBand) (readRegion sealedSystem.hole .inBand)
          (fun _ => 0)) := rfl
    obtain rfl := Option.some.inj (taken.symm.trans found)
    exact ⟨38, by decide⟩
  have second : WalkEnds (sealedTurn none).toBoot ((sealedTurn none).before
      (takeTurn (sealedTurn none) sealedSystem).system.hole) := by
    intro buffer found waiting records
    rw [waits_congr (buffer_same found)] at waiting
    exact absurd waiting (by decide)
  have completes : Completes [sealedTurn none, sealedTurn none] sealedSystem :=
    ⟨first, holds, second, holds, trivial⟩
  exact ⟨completes, boots_consume_once _ _ completes⟩

/-- If the erase has no effect, the next boot applies the image again. -/
theorem not_consumed_once_kept :
    ¬ ∀ turns system, ConsumedOnce (runTurns turns system) := by
  intro once
  have run := once [sealedTurn (some sealedSystem.hole), sealedTurn (some sealedSystem.hole)]
    sealedSystem
  have applied : (runTurns [sealedTurn (some sealedSystem.hole),
      sealedTurn (some sealedSystem.hole)] sealedSystem).countP Booted.applies = 2 := by
    decide
  have limit := run.1
  rw [applied] at limit
  exact absurd limit (by decide)

end Law

end SmcPkg.BiosCfg
