import SmcPkg.InBand.BiosCfg

/-!
# Writing the records of an image to the variables

`UpdateVariable` looks a record up in the table of the platform and rewrites the variable
of each entry with its name and GUID, if it has the size of the record. The old value is
read into a scratch buffer, whose size is not the one that `GetVariable` is told. The pool and
the variable services may fail at every call: their statuses are inputs, and a service that fails
leaves the store as it is. Where the status is no error, the services do what their contract
says of the store.
-/

namespace SmcPkg.BiosCfg

open Bytes Card Download

section Variables

/-- What names a variable. -/
abbrev Key := List UInt16 × Guid

/-- A variable in the store. -/
structure StoredVar where
  attributes : UInt32
  data : List UInt8
  deriving DecidableEq

/-- The variable store. A variable without data does not exist. -/
structure Store where
  lookup : Key → Option StoredVar
  nonempty : ∀ key var, lookup key = some var → var.data ≠ []

/-- The store with a variable set. -/
def Store.set (store : Store) (key : Key) (var : StoredVar) (nonempty : var.data ≠ []) : Store where
  lookup := Function.update store.lookup key (some var)
  nonempty := by
    intro other found member
    by_cases same : other = key
    · subst same
      obtain rfl : var = found := by simpa using member
      exact nonempty
    · rw [Function.update_of_ne same] at member
      exact store.nonempty other found member

/-- The store with a variable deleted. -/
def Store.delete (store : Store) (key : Key) : Store where
  lookup := Function.update store.lookup key none
  nonempty := by
    intro other found member
    by_cases same : other = key
    · subst same
      simp at member
    · rw [Function.update_of_ne same] at member
      exact store.nonempty other found member

/-- `EFI_BAD_BUFFER_SIZE`. -/
def efiBadBufferSize : Status := errorCode 4

/-- `EFI_BUFFER_TOO_SMALL`. -/
def efiBufferTooSmall : Status := errorCode 5

/-- `GetVariable` with the size that the caller gives for its buffer, unless it fails by itself. -/
def getVariable (answer : Status) (store : Store) (key : Key) (capacity : Nat) :
    Except Status StoredVar :=
  if efiError answer then .error answer
  else
    match store.lookup key with
    | none => .error efiNotFound
    | some var => if var.data.length ≤ capacity then .ok var else .error efiBufferTooSmall

/-- `SetVariable`, unless it fails by itself: for want of room, or for a variable that is locked. A
variable keeps its attributes, and no data deletes it. -/
def setVariable (answer : Status) (store : Store) (key : Key) (attributes : UInt32)
    (data : List UInt8) : Status × Store :=
  if efiError answer then (answer, store)
  else
    match store.lookup key with
    | none =>
      if nonempty : data ≠ [] then (efiSuccess, store.set key ⟨attributes, data⟩ nonempty)
      else (efiNotFound, store)
    | some old =>
      if old.attributes = attributes then
        if nonempty : data ≠ [] then (efiSuccess, store.set key ⟨attributes, data⟩ nonempty)
        else (efiSuccess, store.delete key)
      else (efiInvalidParameter, store)

end Variables

section Update

/-- The name of the last entry of the table. -/
def smcVarEnd : List UInt16 := CString.wide "SMC_VAR_END".toList

/-- `PlatformVar`: the entries before the last one. They are counted in one byte. -/
structure PlatformVar where
  entries : List Key
  ended : ∀ entry ∈ entries, entry.1 ≠ smcVarEnd
  counted : entries.length < 256

/-- What names the variable of a record. -/
def Visit.key (visit : Visit) : Key := (visit.name, visit.guid)

/-- `EFI_VARIABLE_NON_VOLATILE | EFI_VARIABLE_BOOTSERVICE_ACCESS`. -/
def defaultAttributes : UInt32 := 0x3

/-- What the pool and the variable services answer in a call of `UpdateVariable`: the allocation of
the scratch buffer and, for the entry at each place of the table, the read and the two writes. -/
structure Services where
  allocatePool : Status
  getVariable : Nat → Status
  setVariable : Nat → Status
  setAgain : Nat → Status

/-- No service fails by itself. -/
def Services.working : Services := ⟨efiSuccess, fun _ => efiSuccess, fun _ => efiSuccess,
  fun _ => efiSuccess⟩

/-- `SetVariable`, and once more with the old attributes if it fails. -/
def rewriteVariable (services : Services) (place : Nat) (store : Store) (key : Key)
    (old : StoredVar) (data : List UInt8) : Status × Store :=
  let first := setVariable (services.setVariable place) store key defaultAttributes data
  if efiError first.1 then
    setVariable (services.setAgain place) first.2 key old.attributes data
  else first

/-- What a call leaves: the status, the store, and how many bytes each read has put into
the scratch buffer. -/
structure Updated where
  status : Status
  store : Store
  reads : List Nat

/-- The loop of `UpdateVariable` over the entries of the table from a place on. -/
def updateEntries (services : Services) (visit : Visit) :
    Nat → List Key → Status → Store → Updated
  | _, [], status, store => ⟨status, store, []⟩
  | place, entry :: entries, status, store =>
    if entry = visit.key then
      match getVariable (services.getVariable place) store entry visit.size.toNat with
      | .error status => ⟨status, store, []⟩
      | .ok old =>
        if old.data.length ≠ visit.size.toNat then ⟨efiBadBufferSize, store, [old.data.length]⟩
        else
          let rewritten := rewriteVariable services place store entry old visit.data
          if efiError rewritten.1 then ⟨rewritten.1, rewritten.2, [old.data.length]⟩
          else
            let later := updateEntries services visit (place + 1) entries rewritten.1 rewritten.2
            { later with reads := old.data.length :: later.reads }
    else updateEntries services visit (place + 1) entries status store

/-- `UpdateVariable`. -/
def updateVariable (table : PlatformVar) (services : Services) (visit : Visit) (store : Store) :
    Updated :=
  if efiError services.allocatePool then ⟨services.allocatePool, store, []⟩
  else updateEntries services visit 0 table.entries efiNotFound store

/-- The size of the scratch buffer. -/
def scratchSize : Nat := 0x2000

/-- What the records of an image leave: the store, the reads into the scratch buffer, and
the records that the RAID driver collects. -/
structure Effects where
  store : Store
  reads : List Nat
  collected : List Visit

/-- What `UpdateBiosCfgToSystem` does with a record. -/
def handleVisit (table : PlatformVar) (raidDriver : Bool) (services : Services)
    (effects : Effects) (visit : Visit) : Effects :=
  let updated := updateVariable table services visit effects.store
  ⟨updated.store, effects.reads ++ updated.reads,
    if updated.status = efiNotFound ∧ raidDriver then effects.collected ++ [visit]
    else effects.collected⟩

/-- What the records do, one after the other, each with its own answers of the services. -/
def handleVisits (table : PlatformVar) (raidDriver : Bool) (services : Nat → Services)
    (visits : List Visit) (store : Store) : Effects :=
  visits.zipIdx.foldl (fun effects record =>
    handleVisit table raidDriver (services record.2) effects record.1) ⟨store, [], []⟩

/-- What `UpdateBiosCfgToSystem` does to the system. -/
def applyImage (table : PlatformVar) (raidDriver : Bool) (services : Nat → Services)
    (memory : Memory) (rounds : Nat) (store : Store) : Effects :=
  handleVisits table raidDriver services (updateBiosCfgToSystem memory rounds).1 store

end Update

end SmcPkg.BiosCfg
