import SmcPkg.InBand.BiosCfg

/-!
# The scan of the variable store

`CombineBiosCfg` asks the firmware for one variable name after the other and appends a
record for every variable that it can read. The firmware goes on from the name that it
handed out last. A name that does not fit the buffer leaves that name in place, and the
loop asks for the same one again.

The services are assumed to keep to their contract: names are handed out in one order, without a
variable being left out, and no variable is changed in between. `scan_emits` says that what the
scan combines is what an image is made of.
-/

namespace SmcPkg.BiosCfg

open Bytes

section Store

/-- What tells one variable from another. -/
structure VarKey where
  name : List UInt16
  guid : Guid
  deriving DecidableEq

/-- A variable of the store. -/
structure StoreVar where
  name : List UInt16
  guid : Guid
  data : List UInt8
  nonzero : ∀ c ∈ name, c ≠ 0
  named : name ≠ []
  deriving DecidableEq

/-- The key of a variable. -/
def StoreVar.key (var : StoreVar) : VarKey := ⟨var.name, var.guid⟩

/-- What `GetNextVariableName` comes back with: the next key, EFI_BUFFER_TOO_SMALL, or
another error. -/
inductive NextName
  | found (key : VarKey)
  | bufferTooSmall
  | failed
  deriving DecidableEq

/-- The answer for the next variable, by the size of the name buffer in bytes. -/
def answer (size : Nat) : Option StoreVar → NextName
  | none => .failed
  | some var => if 2 * (var.name.length + 1) ≤ size then .found var.key else .bufferTooSmall

/-- The variable services over a store: `GetNextVariableName` enumerates it, from the key
that is passed, and `GetVariable` reads what fits the buffer. -/
structure RuntimeServices where
  store : List StoreVar
  distinct : (store.map StoreVar.key).Nodup
  getNextVariableName : Nat → VarKey → NextName
  getVariable : Nat → VarKey → Option (List UInt8)
  first : ∀ size guid, getNextVariableName size ⟨[], guid⟩ = answer size store[0]?
  next : ∀ size i var, store[i]? = some var →
    getNextVariableName size var.key = answer size store[i + 1]?
  reads : ∀ size, ∀ var ∈ store,
    getVariable size var.key = if var.data.length ≤ size then some var.data else none

end Store

section Scan

/-- `VariableNameISize`. -/
def variableNameISize : Nat := 256 * 2

/-- The size of `TempBuffer`. -/
def tempBufferSize : Nat := 0x4000

/-- A variable that is handed to `CombineVariable`. -/
structure Combined where
  name : List UInt16
  guid : Guid
  data : List UInt8
  deriving DecidableEq

/-- One round of the loop: the key afterwards with what is combined, or the break. -/
def scanRound (services : RuntimeServices) (key : VarKey) : Option (VarKey × List Combined) :=
  match services.getNextVariableName variableNameISize key with
  | .bufferTooSmall => some (key, [])
  | .failed => none
  | .found key =>
    match services.getVariable tempBufferSize key with
    | none => some (key, [])
    | some data => some (key, [⟨key.name, key.guid, data⟩])

/-- The loop, for a number of rounds. It is `none` as long as there is no break. -/
def scan (services : RuntimeServices) : Nat → VarKey → Option (List Combined)
  | 0, _ => none
  | rounds + 1, key =>
    match scanRound services key with
    | none => some []
    | some (key, combined) => (scan services rounds key).map (combined ++ ·)

/-- What is combined of a variable. -/
def StoreVar.combined (var : StoreVar) : Combined := ⟨var.name, var.guid, var.data⟩

/-- The data of a variable fits the buffer. -/
def StoreVar.Readable (var : StoreVar) : Prop := var.data.length ≤ tempBufferSize

instance (var : StoreVar) : Decidable var.Readable := inferInstanceAs (Decidable (_ ≤ _))

/-- The scan ends, and every variable with a name of at most 255 characters whose data fits
the buffer is combined exactly once. -/
def ScansAll (services : RuntimeServices) (vendorGuidI : Guid) : Prop :=
  ∃ rounds combined, scan services rounds ⟨[], vendorGuidI⟩ = some combined ∧
    ∀ var ∈ services.store, var.name.length ≤ 255 → var.Readable →
      combined.count var.combined = 1

end Scan

section Law

variable {services : RuntimeServices} {key : VarKey} {i : Nat} {var : StoreVar}

/-- The enumeration stands before a position of the store. -/
def Before (services : RuntimeServices) (key : VarKey) (i : Nat) : Prop :=
  ∀ size, services.getNextVariableName size key = answer size services.store[i]?

/-- The empty name stands in front of the first variable. -/
theorem before_first (vendorGuidI : Guid) : Before services ⟨[], vendorGuidI⟩ 0 :=
  fun size => services.first size vendorGuidI

/-- The name of a variable stands in front of the next one. -/
theorem before_next (there : services.store[i]? = some var) : Before services var.key (i + 1) :=
  fun size => services.next size i var there

/-- A round at the end of the store breaks. -/
theorem scanRound_end (before : Before services key i) (ended : services.store[i]? = none) :
    scanRound services key = none := by
  rw [scanRound, before, ended]
  rfl

/-- A round goes on to the next variable, if its name fits. -/
theorem scanRound_next (before : Before services key i) (there : services.store[i]? = some var)
    (short : var.name.length ≤ 255) :
    scanRound services key =
      some (var.key, if var.Readable then [var.combined] else []) := by
  have fits : 2 * (var.name.length + 1) ≤ variableNameISize := by
    rw [variableNameISize]
    omega
  have read := services.reads tempBufferSize var (List.mem_of_getElem? there)
  rw [scanRound, before, there, answer, if_pos fits]
  by_cases readable : var.Readable
  · simp only [read, if_pos (show var.data.length ≤ tempBufferSize from readable), if_pos readable]
    rfl
  · simp only [read, if_neg (show ¬ var.data.length ≤ tempBufferSize from readable),
      if_neg readable]

/-- A round at a name that does not fit changes nothing. -/
theorem scanRound_stuck (before : Before services key i) (there : services.store[i]? = some var)
    (long : 255 < var.name.length) : scanRound services key = some (key, []) := by
  have large : ¬ 2 * (var.name.length + 1) ≤ variableNameISize := by
    rw [variableNameISize]
    omega
  rw [scanRound, before, there, answer, if_neg large]

/-- Where every name fits the scan combines what can be read, in the order of the store. -/
theorem scan_rest (rest : List StoreVar) (before : Before services key i)
    (stands : services.store.drop i = rest) (short : ∀ var ∈ rest, var.name.length ≤ 255) :
    scan services (rest.length + 1) key =
      some ((rest.filter (fun var => var.Readable)).map StoreVar.combined) := by
  induction rest generalizing key i with
  | nil =>
    have ended : services.store[i]? = none := by
      rw [← List.head?_drop, stands]
      rfl
    rw [List.length_nil, scan, scanRound_end before ended]
    rfl
  | cons var rest inductionHypothesis =>
    have there : services.store[i]? = some var := by
      rw [← List.head?_drop, stands]
      rfl
    have later : services.store.drop (i + 1) = rest := by
      rw [← List.tail_drop, stands]
      rfl
    have more := inductionHypothesis (before_next there) later
      (fun other member => short other (List.mem_cons_of_mem _ member))
    rw [List.length_cons, scan, scanRound_next before there (short var List.mem_cons_self)]
    simp only [more, Option.map_some, List.filter_cons, decide_eq_true_eq]
    split
    · rfl
    · rfl

/-- Before a name that does not fit the scan never ends. -/
theorem scan_never (rest : List StoreVar) (before : Before services key i)
    (stands : services.store.drop i = rest) (long : ∃ var ∈ rest, 255 < var.name.length)
    (rounds : Nat) : scan services rounds key = none := by
  induction rounds generalizing key i rest with
  | zero => rfl
  | succ rounds inductionHypothesis =>
    obtain ⟨var, rest, rfl⟩ : ∃ var more, rest = var :: more := by
      obtain ⟨var, member, -⟩ := long
      exact List.exists_cons_of_ne_nil (List.ne_nil_of_mem member)
    have there : services.store[i]? = some var := by
      rw [← List.head?_drop, stands]
      rfl
    rw [scan]
    by_cases fits : var.name.length ≤ 255
    · have later : services.store.drop (i + 1) = rest := by
        rw [← List.tail_drop, stands]
        rfl
      have longLater : ∃ var ∈ rest, 255 < var.name.length := by
        obtain ⟨other, member, tooLong⟩ := long
        rcases List.mem_cons.mp member with rfl | behind
        · omega
        · exact ⟨other, behind, tooLong⟩
      simp only [scanRound_next before there fits,
        inductionHypothesis rest (before_next there) later longLater, Option.map_none]
    · -- the next round meets the same name
      simp only [scanRound_stuck before there (Nat.lt_of_not_le fits),
        inductionHypothesis (var :: rest) before stands long, Option.map_none]

/-- No variable of the store is combined like another one. -/
theorem combined_distinct (services : RuntimeServices) :
    (services.store.map StoreVar.combined).Nodup := by
  apply List.Nodup.of_map (fun combined => VarKey.mk combined.name combined.guid)
  rw [List.map_map]
  exact services.distinct

/-- The scan of a store ends with every variable that it should include exactly when no name of the
store is longer than 255 characters. A longer one does not fit the array, and the services say so
again at every call, so the scan has no end. -/
theorem scansAll_iff (services : RuntimeServices) (vendorGuidI : Guid) :
    ScansAll services vendorGuidI ↔ ∀ var ∈ services.store, var.name.length ≤ 255 := by
  constructor
  · rintro ⟨rounds, combined, ended, -⟩ var member
    by_contra long
    have running := scan_never services.store (before_first vendorGuidI) List.drop_zero
      ⟨var, member, Nat.lt_of_not_le long⟩ rounds
    rw [running] at ended
    exact absurd ended (by simp)
  · intro short
    refine ⟨_, _, scan_rest services.store (before_first vendorGuidI) List.drop_zero short, ?_⟩
    intro var member _ readable
    apply List.count_eq_one_of_mem
    · exact (combined_distinct services).sublist (List.filter_sublist.map StoreVar.combined)
    · exact List.mem_map_of_mem (List.mem_filter.mpr ⟨member, by simpa using readable⟩)

/-- What is combined of an emitted variable. -/
def EfiVar.combined (var : EfiVar) : Combined := ⟨var.name, var.guid, var.data⟩

/-- Where the scan ends it hands `CombineVariable` what an image can be emitted of. -/
theorem scan_emits (vendorGuidI : Guid) (short : ∀ var ∈ services.store, var.name.length ≤ 255) :
    ∃ vars : List EfiVar,
      scan services (services.store.length + 1) ⟨[], vendorGuidI⟩ =
        some (vars.map EfiVar.combined) := by
  have each : (services.store.filter (fun var => var.Readable)).map StoreVar.combined ∈
      Set.range (List.map EfiVar.combined) := by
    rw [Set.range_list_map]
    intro combined member
    obtain ⟨var, kept, rfl⟩ := List.mem_map.mp member
    obtain ⟨inStore, readable⟩ := List.mem_filter.mp kept
    have small : var.data.length ≤ 0x4000 := of_decide_eq_true readable
    exact ⟨⟨var.name, var.guid, var.data, var.nonzero, short var inStore, by omega⟩, rfl⟩
  obtain ⟨vars, same⟩ := each
  refine ⟨vars, ?_⟩
  rw [scan_rest services.store (before_first vendorGuidI) List.drop_zero short, same]

/-- A variable with a name of 256 characters. -/
def longVar : StoreVar where
  name := List.replicate 256 65
  guid := Vector.replicate 16 0
  data := [1]
  nonzero := by
    intro c member
    rw [List.eq_of_mem_replicate member]
    decide
  named := List.cons_ne_nil 65 (List.replicate 255 65)

/-- A store with that variable only. -/
def longStore : RuntimeServices where
  store := [longVar]
  distinct := List.nodup_singleton _
  getNextVariableName := fun size key => answer size (if key.name = [] then some longVar else none)
  getVariable := fun size _ => if longVar.data.length ≤ size then some longVar.data else none
  first := fun _ _ => rfl
  next := by
    intro size i var there
    obtain ⟨below, rfl⟩ := List.getElem?_eq_some_iff.mp there
    have zero : i = 0 := by simpa using below
    subst zero
    exact congrArg (answer size) (if_neg longVar.named)
  reads := by
    intro size var member
    rw [List.mem_singleton.mp member]

/-- The loop asks for the name of that variable for ever. -/
theorem not_scansAll_long :
    ¬ ∀ (services : RuntimeServices) (vendorGuidI : Guid), ScansAll services vendorGuidI := by
  intro always
  obtain ⟨rounds, combined, ended, -⟩ := always longStore (Vector.replicate 16 0)
  have length : 255 < longVar.name.length := by
    rw [show longVar.name = List.replicate 256 65 from rfl, List.length_replicate]
    decide
  have running := scan_never [longVar] (before_first (Vector.replicate 16 0))
    (show longStore.store.drop 0 = [longVar] from rfl)
    ⟨longVar, List.mem_singleton_self _, length⟩ rounds
  rw [running] at ended
  exact absurd ended (by simp)

end Law

end SmcPkg.BiosCfg
