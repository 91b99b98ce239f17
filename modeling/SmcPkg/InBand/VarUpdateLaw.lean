import SmcPkg.InBand.BiosCfgRoundTrip
import SmcPkg.InBand.VarUpdate

/-!
# What the records of an image change

A record rewrites the variable that it names if the variable is in the table, has the size of the
record, and is written, and it changes nothing else. Sizes and attributes stay as they are, so over
all records of an image a variable gets the data of the last record that is written to it.

Whether a record is written depends on the services, which may fail at every call. What the
platform hook and the RAID driver do to the store is not part of the model.
-/

namespace SmcPkg.BiosCfg

open Bytes Card Download

section Rewrite

variable {store : Store} {key : Key} {old : StoredVar} {data : List UInt8} {services : Services}
  {place : Nat}

/-- The services rewrite a variable: with the attributes that it is given first, if it has these,
or else with its own. -/
def Services.Rewrite (services : Services) (place : Nat) (old : StoredVar) : Prop :=
  (old.attributes = defaultAttributes ∧ efiError (services.setVariable place) = false) ∨
    efiError (services.setAgain place) = false

instance : Decidable (services.Rewrite place old) := inferInstanceAs (Decidable (_ ∨ _))

/-- A write with the stored attributes that the service takes replaces the data. -/
theorem setVariable_same {answer : Status} (works : efiError answer = false)
    (found : store.lookup key = some old) (nonempty : data ≠ []) :
    setVariable answer store key old.attributes data =
      (efiSuccess, store.set key ⟨old.attributes, data⟩ nonempty) := by
  rw [setVariable, found]
  simp [works, nonempty]

/-- The first write does all or nothing. -/
theorem setVariable_first (found : store.lookup key = some old) (nonempty : data ≠ []) :
    (old.attributes = defaultAttributes ∧ efiError (services.setVariable place) = false ∧
        setVariable (services.setVariable place) store key defaultAttributes data =
          (efiSuccess, store.set key ⟨old.attributes, data⟩ nonempty)) ∨
      (¬ (old.attributes = defaultAttributes ∧ efiError (services.setVariable place) = false) ∧
        efiError (setVariable (services.setVariable place) store key defaultAttributes data).1 =
          true ∧
        (setVariable (services.setVariable place) store key defaultAttributes data).2 = store) := by
  cases works : efiError (services.setVariable place) with
  | true =>
    refine Or.inr ⟨by simp, ?_⟩
    rw [setVariable, if_pos works]
    exact ⟨works, rfl⟩
  | false =>
    by_cases plain : old.attributes = defaultAttributes
    · rw [← plain]
      exact Or.inl ⟨rfl, rfl, setVariable_same works found nonempty⟩
    · refine Or.inr ⟨by simp [plain], ?_⟩
      rw [setVariable, found]
      simp only [works, Bool.false_eq_true, if_false, if_neg plain]
      exact ⟨by decide, trivial⟩

/-- A variable that exists is rewritten if the services do so, with the attributes that it has. -/
theorem rewriteVariable_written (found : store.lookup key = some old) (nonempty : data ≠ [])
    (written : services.Rewrite place old) :
    rewriteVariable services place store key old data =
      (efiSuccess, store.set key ⟨old.attributes, data⟩ nonempty) := by
  have success : efiError efiSuccess = false := by decide
  rw [rewriteVariable]
  rcases @setVariable_first store key old data services place found nonempty with
    ⟨-, -, first⟩ | ⟨fails, error, same⟩
  · simp only [first, success, Bool.false_eq_true, if_false]
  · simp only [error, if_true, same]
    exact setVariable_same (written.resolve_left fails) found nonempty

/-- Otherwise both writes fail, and the variable stays as it is. -/
theorem rewriteVariable_failed (found : store.lookup key = some old) (nonempty : data ≠ [])
    (failed : ¬ services.Rewrite place old) :
    efiError (rewriteVariable services place store key old data).1 = true ∧
      (rewriteVariable services place store key old data).2 = store := by
  obtain ⟨notFirst, notAgain⟩ := not_or.mp failed
  rw [rewriteVariable]
  rcases @setVariable_first store key old data services place found nonempty with
    ⟨plain, works, -⟩ | ⟨-, error, same⟩
  · exact absurd ⟨plain, works⟩ notFirst
  · simp only [error, if_true, same]
    rw [setVariable, if_pos (by simpa using notAgain)]
    exact ⟨by simpa using notAgain, rfl⟩

end Rewrite

section Entries

variable {store : Store} {visit : Visit} {old : StoredVar} {entries : List Key} {status : Status}
  {services : Services} {place : Nat}

/-- An entry for another variable. -/
theorem updateEntries_other {entry : Key} (other : entry ≠ visit.key) :
    updateEntries services visit place (entry :: entries) status store =
      updateEntries services visit (place + 1) entries status store := by
  rw [updateEntries, if_neg other]

/-- The variable is not read: the service fails, or it does not exist or is larger than the
record. -/
theorem updateEntries_unread (unread : efiError (services.getVariable place) = true ∨
      store.lookup visit.key = none ∨
      ∃ old, store.lookup visit.key = some old ∧ visit.size.toNat < old.data.length) :
    ∃ error, updateEntries services visit place (visit.key :: entries) status store =
      ⟨error, store, []⟩ := by
  by_cases fails : efiError (services.getVariable place) = true
  · exact ⟨services.getVariable place, by simp [updateEntries, getVariable, fails]⟩
  rcases unread with failed | absent | ⟨old, found, large⟩
  · exact absurd failed fails
  · exact ⟨efiNotFound, by simp [updateEntries, getVariable, fails, absent]⟩
  · exact ⟨efiBufferTooSmall,
      by simp [updateEntries, getVariable, fails, found, Nat.not_le.mpr large]⟩

/-- The variable is smaller than the record. -/
theorem updateEntries_small (works : efiError (services.getVariable place) = false)
    (found : store.lookup visit.key = some old) (small : old.data.length < visit.size.toNat) :
    updateEntries services visit place (visit.key :: entries) status store =
      ⟨efiBadBufferSize, store, [old.data.length]⟩ := by
  simp [updateEntries, getVariable, works, found, Nat.le_of_lt small, Nat.ne_of_lt small]

/-- The variable has the size of the record, and is written. -/
theorem updateEntries_sized (works : efiError (services.getVariable place) = false)
    (found : store.lookup visit.key = some old)
    (same : old.data.length = visit.size.toNat) (nonempty : visit.data ≠ [])
    (written : services.Rewrite place old) :
    updateEntries services visit place (visit.key :: entries) status store =
      let later := updateEntries services visit (place + 1) entries efiSuccess
        (store.set visit.key ⟨old.attributes, visit.data⟩ nonempty)
      { later with reads := old.data.length :: later.reads } := by
  have success : efiError efiSuccess = false := by decide
  simp [updateEntries, getVariable, works, found, same,
    rewriteVariable_written found nonempty written, success]

/-- The variable has the size of the record, and is not written: the loop ends. -/
theorem updateEntries_unwritten (works : efiError (services.getVariable place) = false)
    (found : store.lookup visit.key = some old)
    (same : old.data.length = visit.size.toNat) (nonempty : visit.data ≠ [])
    (failed : ¬ services.Rewrite place old) :
    ∃ error, updateEntries services visit place (visit.key :: entries) status store =
      ⟨error, store, [old.data.length]⟩ := by
  obtain ⟨error, kept⟩ := rewriteVariable_failed found nonempty failed
  refine ⟨(rewriteVariable services place store visit.key old visit.data).1, ?_⟩
  simp [updateEntries, getVariable, works, found, same, error, kept]

/-- A write is seen at its own key only. -/
theorem Store.set_lookup {key other : Key} {var : StoredVar} (nonempty : var.data ≠ []) :
    (store.set key var nonempty).lookup other =
      if other = key then some var else store.lookup other := by
  simp only [Store.set, Function.update_apply]

/-- A record of the size of a variable has data. -/
theorem record_nonempty (complete : visit.data.length = visit.size.toNat)
    (found : store.lookup visit.key = some old) (same : old.data.length = visit.size.toNat) :
    visit.data ≠ [] := by
  intro empty
  apply store.nonempty visit.key old found
  apply List.eq_nil_of_length_eq_zero
  rw [same, ← complete, empty]
  rfl

end Entries

section Record

variable {store : Store} {visit : Visit} {services : Services}

/-- The stored variable has the size of the record. -/
def Sized (store : Store) (visit : Visit) : Prop :=
  (store.lookup visit.key).map (fun old => old.data.length) = some visit.size.toNat

instance : Decidable (Sized store visit) := inferInstanceAs (Decidable (_ = _))

/-- A variable with the data of a record. -/
def rewritten (store : Store) (visit : Visit) (key : Key) : Option StoredVar :=
  (store.lookup key).map (fun old => { old with data := visit.data })

/-- At a place of the table, the services read the variable of a record, and rewrite it. -/
def WritesAt (services : Services) (store : Store) (visit : Visit) (place : Nat) : Prop :=
  efiError (services.getVariable place) = false ∧
    ∃ old ∈ store.lookup visit.key, services.Rewrite place old

instance {place : Nat} : Decidable (WritesAt services store visit place) :=
  inferInstanceAs (Decidable (_ ∧ _))

/-- What the loop does at an entry for the variable of the record: nothing is read, or it is read
and nothing is written, or it is written and the loop goes on. -/
theorem updateEntries_here (complete : visit.data.length = visit.size.toNat) (place : Nat)
    (entries : List Key) (status : Status) :
    (∃ error, updateEntries services visit place (visit.key :: entries) status store =
        ⟨error, store, []⟩ ∧ ¬ (Sized store visit ∧ WritesAt services store visit place) ∧
        ¬ (efiError (services.getVariable place) = false ∧ ∃ old,
          store.lookup visit.key = some old ∧ old.data.length ≤ visit.size.toNat)) ∨
      ∃ old, store.lookup visit.key = some old ∧ old.data.length ≤ visit.size.toNat ∧
        efiError (services.getVariable place) = false ∧
        ((∃ error, updateEntries services visit place (visit.key :: entries) status store =
            ⟨error, store, [old.data.length]⟩ ∧
            ¬ (Sized store visit ∧ WritesAt services store visit place)) ∨
          ∃ nonempty : visit.data ≠ [],
            Sized store visit ∧ WritesAt services store visit place ∧
            updateEntries services visit place (visit.key :: entries) status store =
              let later := updateEntries services visit (place + 1) entries efiSuccess
                (store.set visit.key ⟨old.attributes, visit.data⟩ nonempty)
              { later with reads := old.data.length :: later.reads }) := by
  cases works : efiError (services.getVariable place) with
  | true =>
    obtain ⟨error, unread⟩ := @updateEntries_unread store visit entries status services place
      (Or.inl works)
    exact Or.inl ⟨error, unread, by simp [WritesAt, works], by simp⟩
  | false =>
    cases found : store.lookup visit.key with
    | none =>
      obtain ⟨error, unread⟩ := @updateEntries_unread store visit entries status services place
        (Or.inr (Or.inl found))
      exact Or.inl ⟨error, unread, by simp [Sized, found], by simp⟩
    | some old =>
      rcases Nat.lt_trichotomy old.data.length visit.size.toNat with small | same | large
      · refine Or.inr ⟨old, rfl, Nat.le_of_lt small, rfl, Or.inl ⟨efiBadBufferSize,
          updateEntries_small works found small, ?_⟩⟩
        simp [Sized, found, Nat.ne_of_lt small]
      · have sized : Sized store visit := by simp [Sized, found, same]
        have nonempty := record_nonempty complete found same
        refine Or.inr ⟨old, rfl, Nat.le_of_eq same, rfl, ?_⟩
        by_cases written : services.Rewrite place old
        · exact Or.inr ⟨nonempty, sized, ⟨works, old, found, written⟩,
            updateEntries_sized works found same nonempty written⟩
        · obtain ⟨error, kept⟩ := @updateEntries_unwritten store visit old entries status services
            place works found same nonempty written
          exact Or.inl ⟨error, kept, by simp [WritesAt, found, written]⟩
      · obtain ⟨error, unread⟩ := @updateEntries_unread store visit entries status services place
          (Or.inr (Or.inr ⟨old, found, large⟩))
        exact Or.inl ⟨error, unread, by simp [Sized, found, Nat.ne_of_gt large],
          by simp [Nat.not_le.mpr large]⟩

/-- The loop over the entries rewrites the variable of the record, if it is in the table and has
the size and the services rewrite it at its first place, and nothing else. What they do at another
place of the same variable makes no difference: it has the data of the record already. -/
theorem updateEntries_lookup (complete : visit.data.length = visit.size.toNat)
    (entries : List Key) (place : Nat) (status : Status) (key : Key) :
    (updateEntries services visit place entries status store).store.lookup key =
      if key = visit.key ∧ visit.key ∈ entries ∧ Sized store visit ∧
          WritesAt services store visit (place + entries.idxOf visit.key) then
        rewritten store visit key
      else store.lookup key := by
  induction entries generalizing place status store with
  | nil => simp [updateEntries]
  | cons entry entries inductionHypothesis =>
    by_cases named : entry = visit.key
    · subst named
      rw [List.idxOf_cons_self, Nat.add_zero]
      rcases @updateEntries_here store visit services complete place entries status with
        ⟨error, kept, unwritten, -⟩ | ⟨old, found, -, -, ⟨error, kept, unwritten⟩ |
          ⟨nonempty, sized, written, goes⟩⟩
      · rw [kept, if_neg (fun writes => unwritten ⟨writes.2.2.1, writes.2.2.2⟩)]
      · rw [kept, if_neg (fun writes => unwritten ⟨writes.2.2.1, writes.2.2.2⟩)]
      · rw [goes]
        simp only [inductionHypothesis]
        by_cases here : key = visit.key
        · subst here
          simp [rewritten, Store.set_lookup, found, sized, written]
        · simp [here, Store.set_lookup]
    · rw [updateEntries_other named, inductionHypothesis, List.idxOf_cons_ne _ named]
      have further : place + 1 + entries.idxOf visit.key =
          place + (entries.idxOf visit.key).succ := by omega
      rw [further]
      simp [Ne.symm named]

/-- What the loop reads into the scratch buffer: the variable of the record, if it is in the table
and the service reads it at its first place, and it is not larger than the record. -/
theorem updateEntries_reads (complete : visit.data.length = visit.size.toNat)
    (entries : List Key) (place : Nat) (status : Status) (n : Nat) :
    n ∈ (updateEntries services visit place entries status store).reads ↔
      visit.key ∈ entries ∧
        efiError (services.getVariable (place + entries.idxOf visit.key)) = false ∧
        ∃ old, store.lookup visit.key = some old ∧
          old.data.length ≤ visit.size.toNat ∧ old.data.length = n := by
  induction entries generalizing place status store with
  | nil => simp [updateEntries]
  | cons entry entries inductionHypothesis =>
    by_cases named : entry = visit.key
    · subst named
      rw [List.idxOf_cons_self, Nat.add_zero]
      rcases @updateEntries_here store visit services complete place entries status with
        ⟨error, kept, -, unread⟩ | ⟨old, found, fits, works, ⟨error, kept, -⟩ |
          ⟨nonempty, sized, written, goes⟩⟩
      · rw [kept]
        refine iff_of_false List.not_mem_nil ?_
        rintro ⟨-, works, old, found, fits, -⟩
        exact unread ⟨works, old, found, fits⟩
      · rw [kept]
        simp [found, works, fits, eq_comm]
      · have same : old.data.length = visit.size.toNat := by
          rw [Sized, found] at sized
          simpa using sized
        rw [goes]
        simp only [List.mem_cons, inductionHypothesis, Store.set_lookup, if_true,
          Option.some.injEq, found, works]
        constructor
        · rintro (first | ⟨-, -, other, rfl, -, length⟩)
          · exact ⟨Or.inl trivial, trivial, old, rfl, fits, first.symm⟩
          · exact ⟨Or.inl trivial, trivial, old, rfl, fits,
              same.trans (complete.symm.trans length)⟩
        · rintro ⟨-, -, other, rfl, -, length⟩
          exact Or.inl length.symm
    · rw [updateEntries_other named, inductionHypothesis, List.idxOf_cons_ne _ named]
      have further : place + 1 + entries.idxOf visit.key =
          place + (entries.idxOf visit.key).succ := by omega
      rw [further]
      simp [Ne.symm named]

end Record

section Image

variable {table : PlatformVar} {raidDriver : Bool} {store : Store} {services : Nat → Services}

/-- The record is for a variable of the table, and the stored variable has its size. -/
def Applies (table : PlatformVar) (store : Store) (visit : Visit) : Prop :=
  visit.key ∈ table.entries ∧ Sized store visit

instance {visit : Visit} : Decidable (Applies table store visit) :=
  inferInstanceAs (Decidable (_ ∧ _))

/-- The last record that applies to a variable. -/
def lastRecord (table : PlatformVar) (store : Store) (visits : List Visit) (key : Key) :
    Option Visit :=
  (visits.filter (fun visit => visit.key = key ∧ Applies table store visit)).getLast?

/-- The variable after the records of an image: with the data of the last record that
applies to it, or as it was. -/
def expected (table : PlatformVar) (store : Store) (visits : List Visit) (key : Key) :
    Option StoredVar :=
  match lastRecord table store visits key with
  | none => store.lookup key
  | some visit => rewritten store visit key

/-- The services of a call read the variable of a record, at its first place in the table. -/
def Reads (table : PlatformVar) (services : Services) (visit : Visit) : Prop :=
  efiError services.allocatePool = false ∧
    efiError (services.getVariable (table.entries.idxOf visit.key)) = false

/-- The services of a call write a record, at the first place of its variable in the table. -/
def Writes (table : PlatformVar) (services : Services) (store : Store) (visit : Visit) : Prop :=
  efiError services.allocatePool = false ∧
    WritesAt services store visit (table.entries.idxOf visit.key)

instance {one : Services} {visit : Visit} : Decidable (Writes table one store visit) :=
  inferInstanceAs (Decidable (_ ∧ _))

/-- The last record that applies to a variable and is written to it. -/
def lastWritten (table : PlatformVar) (services : Nat → Services) (store : Store)
    (visits : List Visit) (key : Key) : Option Visit :=
  ((visits.zipIdx.filter fun record => record.1.key = key ∧ Applies table store record.1 ∧
    Writes table (services record.2) store record.1).getLast?).map (·.1)

/-- The variable with the data of the last record that is written to it, or as it was. -/
def left (table : PlatformVar) (services : Nat → Services) (store : Store) (visits : List Visit)
    (key : Key) : Option StoredVar :=
  match lastWritten table services store visits key with
  | none => store.lookup key
  | some visit => rewritten store visit key

/-- Two stores have variables of the same attributes and sizes. -/
def SameShapes (store other : Store) : Prop :=
  ∀ key, (other.lookup key).map (fun var => (var.attributes, var.data.length)) =
    (store.lookup key).map (fun var => (var.attributes, var.data.length))

/-- The data of a record has the size of the record. -/
def Complete (visits : List Visit) : Prop :=
  ∀ visit ∈ visits, visit.data.length = visit.size.toNat

/-- One more record leaves its data in its variable if it is written, and nothing else. -/
theorem left_append {visits : List Visit} {visit : Visit} {key : Key} :
    left table services store (visits ++ [visit]) key =
      if visit.key = key ∧ Applies table store visit ∧
          Writes table (services visits.length) store visit then rewritten store visit key
      else left table services store visits key := by
  by_cases writes : visit.key = key ∧ Applies table store visit ∧
      Writes table (services visits.length) store visit
  · rw [if_pos writes]
    simp [left, lastWritten, List.zipIdx_append, List.filter_append, writes]
  · rw [if_neg writes]
    simp [left, lastWritten, List.zipIdx_append, List.filter_append, writes]

/-- A record that is the last one written to a variable applies to it. -/
theorem lastWritten_applies {visits : List Visit} {key : Key} {visit : Visit}
    (last : lastWritten table services store visits key = some visit) :
    visit ∈ visits ∧ visit.key = key ∧ Applies table store visit := by
  obtain ⟨record, found, rfl⟩ := Option.map_eq_some_iff.mp last
  obtain ⟨member, writes⟩ := List.mem_filter.mp (List.mem_of_getLast? found)
  obtain ⟨named, applies, -⟩ := of_decide_eq_true writes
  exact ⟨List.fst_mem_of_mem_zipIdx member, named, applies⟩

/-- A variable to which a record applies is there, with the size of the record. -/
theorem Applies.found {visit : Visit} (applies : Applies table store visit) :
    ∃ old, store.lookup visit.key = some old ∧ old.data.length = visit.size.toNat :=
  Option.map_eq_some_iff.mp applies.2

/-- Complete visits leave every variable its attributes and the length of its data. -/
theorem left_sameShapes {visits : List Visit} (complete : Complete visits) {other : Store}
    (same : ∀ key, other.lookup key = left table services store visits key) :
    SameShapes store other := by
  intro key
  rw [same, left]
  cases last : lastWritten table services store visits key with
  | none => rfl
  | some visit =>
    obtain ⟨member, rfl, applies⟩ := lastWritten_applies last
    obtain ⟨old, found, length⟩ := applies.found
    simp [rewritten, found, length, complete visit member]

/-- Stores of one shape have data of the same sizes. -/
theorem SameShapes.sizes {other : Store} (same : SameShapes store other) (key : Key) :
    (other.lookup key).map (fun var => var.data.length) =
      (store.lookup key).map (fun var => var.data.length) := by
  have shapes := congrArg (Option.map Prod.snd) (same key)
  rwa [Option.map_map, Option.map_map] at shapes

/-- Whether a record applies depends on the shape of the store only. -/
theorem SameShapes.applies {other : Store} (same : SameShapes store other) (visit : Visit) :
    Applies table other visit ↔ Applies table store visit := by
  rw [Applies, Applies, Sized, Sized, same.sizes]

/-- Whether a record is written depends on the attributes of its variable only. -/
theorem SameShapes.writes {other : Store} (same : SameShapes store other) {one : Services}
    (visit : Visit) : Writes table one other visit ↔ Writes table one store visit := by
  have attributes : (other.lookup visit.key).map (fun var => var.attributes) =
      (store.lookup visit.key).map (fun var => var.attributes) := by
    have shapes := congrArg (Option.map Prod.fst) (same visit.key)
    rwa [Option.map_map, Option.map_map] at shapes
  have rewrites : ∀ (store : Store) (place : Nat),
      (∃ old ∈ store.lookup visit.key, one.Rewrite place old) ↔
        ∃ mask ∈ (store.lookup visit.key).map (fun var => var.attributes),
          (mask = defaultAttributes ∧ efiError (one.setVariable place) = false) ∨
            efiError (one.setAgain place) = false := by
    intro store place
    simp only [Option.mem_def, Option.map_eq_some_iff, Services.Rewrite]
    constructor
    · rintro ⟨old, found, rewrite⟩
      exact ⟨old.attributes, ⟨old, found, rfl⟩, rewrite⟩
    · rintro ⟨_, ⟨old, found, rfl⟩, rewrite⟩
      exact ⟨old, found, rewrite⟩
  rw [Writes, Writes, WritesAt, WritesAt, rewrites, rewrites, attributes]

/-- The sizes decide which reads fit. -/
theorem SameShapes.bounded {other : Store} (same : SameShapes store other) {key : Key}
    {capacity n : Nat} :
    (∃ old, other.lookup key = some old ∧ old.data.length ≤ capacity ∧ old.data.length = n) ↔
      ∃ old, store.lookup key = some old ∧ old.data.length ≤ capacity ∧ old.data.length = n := by
  have lengths : ∀ store : Store,
      (∃ old, store.lookup key = some old ∧ old.data.length ≤ capacity ∧ old.data.length = n) ↔
        (store.lookup key).map (fun var => var.data.length) = some n ∧ n ≤ capacity := by
    intro store
    rw [Option.map_eq_some_iff]
    constructor
    · rintro ⟨old, found, fits, rfl⟩
      exact ⟨⟨old, found, rfl⟩, fits⟩
    · rintro ⟨⟨old, found, rfl⟩, fits⟩
      exact ⟨old, found, fits, rfl⟩
  rw [lengths, lengths, same.sizes]

/-- One record: the store behind it. -/
theorem updateVariable_lookup {visit : Visit} {one : Services}
    (complete : visit.data.length = visit.size.toNat) (key : Key) :
    (updateVariable table one visit store).store.lookup key =
      if visit.key = key ∧ Applies table store visit ∧ Writes table one store visit then
        rewritten store visit key
      else store.lookup key := by
  rw [updateVariable]
  by_cases allocated : efiError one.allocatePool = true
  · rw [if_pos allocated, if_neg]
    rintro ⟨-, -, works, -⟩
    rw [allocated] at works
    cases works
  · have works : efiError one.allocatePool = false := by simpa using allocated
    rw [if_neg allocated, updateEntries_lookup complete, Nat.zero_add]
    simp only [Applies, Writes, works, true_and, and_assoc, eq_comm]

/-- One record: what is read into the scratch buffer. -/
theorem updateVariable_reads {visit : Visit} {one : Services}
    (complete : visit.data.length = visit.size.toNat) (n : Nat) :
    n ∈ (updateVariable table one visit store).reads ↔
      visit.key ∈ table.entries ∧ Reads table one visit ∧
        ∃ old, store.lookup visit.key = some old ∧ old.data.length ≤ visit.size.toNat ∧
          old.data.length = n := by
  rw [updateVariable]
  by_cases allocated : efiError one.allocatePool = true
  · rw [if_pos allocated]
    refine iff_of_false List.not_mem_nil ?_
    rintro ⟨-, ⟨works, -⟩, -⟩
    rw [allocated] at works
    cases works
  · have works : efiError one.allocatePool = false := by simpa using allocated
    rw [if_neg allocated, updateEntries_reads complete, Nat.zero_add]
    simp only [Reads, works, true_and]

/-- The last of complete visits is complete, and so are those before it. -/
theorem Complete.append {visits : List Visit} {visit : Visit}
    (complete : Complete (visits ++ [visit])) :
    Complete visits ∧ visit.data.length = visit.size.toNat :=
  ⟨fun other member => complete other (List.mem_append_left _ member), complete visit (by simp)⟩

/-- The last visit is handled in the store that those before it have left, with the services at
its own place. -/
theorem handleVisits_append (visits : List Visit) (visit : Visit) :
    handleVisits table raidDriver services (visits ++ [visit]) store =
      handleVisit table raidDriver (services visits.length)
        (handleVisits table raidDriver services visits store) visit := by
  simp [handleVisits, List.zipIdx_append, List.foldl_append]

/-- The store after the records of an image. The induction is on the records: each of them finds
variables of the attributes and sizes that they had at first. -/
theorem handleVisits_lookup {visits : List Visit} (complete : Complete visits) (key : Key) :
    (handleVisits table raidDriver services visits store).store.lookup key =
      left table services store visits key := by
  induction visits using List.reverseRecOn generalizing key with
  | nil => rfl
  | append_singleton visits visit inductionHypothesis =>
    obtain ⟨earlier, whole⟩ := complete.append
    have before := inductionHypothesis earlier
    have shapes := left_sameShapes earlier before
    rw [handleVisits_append, handleVisit]
    simp only [updateVariable_lookup whole, shapes.applies, shapes.writes, left_append]
    by_cases writes : visit.key = key ∧ Applies table store visit ∧
        Writes table (services visits.length) store visit
    · rw [if_pos writes, if_pos writes, rewritten, rewritten, before, left]
      cases lastWritten table services store visits key with
      | none => rfl
      | some last => simp [rewritten, Function.comp_def]
    · rw [if_neg writes, if_neg writes, before]

/-- What the records of an image read into the scratch buffer. -/
theorem handleVisits_reads {visits : List Visit} (complete : Complete visits) (n : Nat) :
    n ∈ (handleVisits table raidDriver services visits store).reads ↔
      ∃ record ∈ visits.zipIdx, record.1.key ∈ table.entries ∧
        Reads table (services record.2) record.1 ∧ ∃ old, store.lookup record.1.key = some old ∧
          old.data.length ≤ record.1.size.toNat ∧ old.data.length = n := by
  induction visits using List.reverseRecOn with
  | nil => simp [handleVisits]
  | append_singleton visits visit inductionHypothesis =>
    obtain ⟨earlier, whole⟩ := complete.append
    have before : ∀ key, (handleVisits table raidDriver services visits store).store.lookup key =
        left table services store visits key := handleVisits_lookup earlier
    rw [handleVisits_append, handleVisit]
    simp only [List.mem_append, inductionHypothesis earlier, updateVariable_reads whole,
      (left_sameShapes earlier before).bounded, List.zipIdx_append, List.zipIdx_singleton,
      Nat.zero_add, List.mem_singleton, or_and_right, exists_or, exists_eq_left]

end Image

section Frame

variable {memory : Memory} {totalSize : UInt32}

/-- The names of the records that a walk reaches fit the array. -/
def NamesFit (memory : Memory) (totalSize : UInt32) : Nat → UInt32 → Prop
  | 0, _ => True
  | rounds + 1, cursor => cursor < totalSize →
      (memory cursor.toNat).toNat < nameCapacity ∧
        NamesFit memory totalSize rounds (visitAt memory cursor).2

/-- The loop copies no name over the end of its buffer exactly if all names fit. -/
theorem namesFit_iff (rounds : Nat) (cursor : UInt32) :
    (updateLoop memory totalSize rounds cursor).2 ≠ .overrun ↔
      NamesFit memory totalSize rounds cursor := by
  induction rounds generalizing cursor with
  | zero => simp [updateLoop, NamesFit]
  | succ rounds inductionHypothesis =>
    rw [updateLoop, NamesFit]
    by_cases inside : cursor < totalSize
    · by_cases fits : (memory cursor.toNat).toNat < nameCapacity
      · simp only [inside, fits, if_true, true_and, forall_const]
        exact inductionHypothesis _
      · simp [inside, fits]
    · simp [inside]

/-- A visit has as many bytes of data as its record says. -/
theorem updateLoop_complete (rounds : Nat) (cursor : UInt32) :
    Complete (updateLoop memory totalSize rounds cursor).1 := by
  induction rounds generalizing cursor with
  | zero => simp [updateLoop, Complete]
  | succ rounds inductionHypothesis =>
    rw [updateLoop]
    split
    · split
      · intro visit member
        rcases List.mem_cons.mp member with rfl | later
        · simp [visitAt, bytesOf]
        · exact inductionHypothesis _ visit later
      · simp [Complete]
    · simp [Complete]

/-- A variable of the table that a record reads is not larger than the scratch buffer. -/
def ScratchFits (table : PlatformVar) (services : Nat → Services) (store : Store)
    (visits : List Visit) : Prop :=
  ∀ record ∈ visits.zipIdx, record.1.key ∈ table.entries →
    Reads table (services record.2) record.1 → ∀ old, store.lookup record.1.key = some old →
      old.data.length ≤ record.1.size.toNat → old.data.length ≤ scratchSize

/-- Of the records that apply to a variable the last one is written, or it makes no difference that
it is not: the last one that is written has the same data, or none is written and the variable has
the data. -/
def Delivered (table : PlatformVar) (services : Nat → Services) (store : Store)
    (visits : List Visit) : Prop :=
  ∀ key visit, lastRecord table store visits key = some visit →
    match lastWritten table services store visits key with
    | some written => written.data = visit.data
    | none => ∀ old, store.lookup key = some old → old.data = visit.data

/-- The last record for a variable has its key and applies. -/
theorem lastRecord_applies {table : PlatformVar} {store : Store} {visits : List Visit} {key : Key}
    {visit : Visit} (last : lastRecord table store visits key = some visit) :
    visit.key = key ∧ Applies table store visit :=
  of_decide_eq_true (List.mem_filter.mp (List.mem_of_getLast? last)).2

/-- A variable to which no record applies has none that is written to it. -/
theorem lastWritten_none {table : PlatformVar} {services : Nat → Services} {store : Store}
    {visits : List Visit} {key : Key} (nothing : lastRecord table store visits key = none) :
    lastWritten table services store visits key = none := by
  rw [lastRecord, List.getLast?_eq_none_iff] at nothing
  cases last : lastWritten table services store visits key with
  | none => rfl
  | some visit =>
    obtain ⟨member, applies⟩ := lastWritten_applies last
    have listed : visit ∈ visits.filter fun visit =>
        visit.key = key ∧ Applies table store visit :=
      List.mem_filter.mpr ⟨member, decide_eq_true applies⟩
    rw [nothing] at listed
    cases listed

/-- What is left is what is expected exactly when the last records are delivered. -/
theorem left_expected_iff {table : PlatformVar} {services : Nat → Services} {store : Store}
    {visits : List Visit} :
    (∀ key, left table services store visits key = expected table store visits key) ↔
      Delivered table services store visits := by
  refine forall_congr' ?_
  intro key
  cases last : lastRecord table store visits key with
  | none =>
    rw [left, expected, last, lastWritten_none last]
    simp
  | some visit =>
    obtain ⟨rfl, applies⟩ := lastRecord_applies last
    obtain ⟨old, found, -⟩ := applies.found
    rw [left, expected, last]
    cases written : lastWritten table services store visits visit.key with
    | none =>
      simp only [found, rewritten, Option.map_some, Option.some.injEq, forall_eq']
      constructor
      · intro same
        rw [same]
      · intro same
        rw [← same]
    | some other => simp [found, rewritten]

/-- The names stay in their array, the reads stay in the scratch buffer, and every
variable has the data of the last record that applies to it, or is as it was. -/
def Framed (table : PlatformVar) (raidDriver : Bool) (services : Nat → Services) (memory : Memory)
    (rounds : Nat) (store : Store) : Prop :=
  (updateBiosCfgToSystem memory rounds).2 ≠ .overrun ∧
    (∀ n ∈ (applyImage table raidDriver services memory rounds store).reads, n ≤ scratchSize) ∧
    ∀ key, (applyImage table raidDriver services memory rounds store).store.lookup key =
      expected table store (updateBiosCfgToSystem memory rounds).1 key

/-- An image changes what it should and nothing else exactly when its names fit the array, the
variables that it reads fit the scratch buffer, and the services write the last record that applies
to a variable, or leave the same data in another way. The pool and the services are inputs, and
each of their calls may fail. -/
theorem image_framed_iff (table : PlatformVar) (raidDriver : Bool) (services : Nat → Services)
    (memory : Memory) (rounds : Nat) (store : Store) :
    Framed table raidDriver services memory rounds store ↔
      NamesFit memory (headerFileSize memory + 18) rounds 18 ∧
        ScratchFits table services store (updateBiosCfgToSystem memory rounds).1 ∧
        Delivered table services store (updateBiosCfgToSystem memory rounds).1 := by
  have complete : Complete (updateBiosCfgToSystem memory rounds).1 := updateLoop_complete _ _
  rw [Framed, applyImage, ← namesFit_iff]
  simp only [handleVisits_lookup complete, left_expected_iff, handleVisits_reads complete]
  refine and_congr_right (fun _ => and_congr_left (fun _ => ?_))
  constructor
  · intro reads record member named reading old found fits
    exact reads _ ⟨record, member, named, reading, old, found, fits, rfl⟩
  · rintro scratch n ⟨record, inside, named, reading, old, found, fits, rfl⟩
    exact scratch record inside named reading old found fits

/-- A variable of some zero bytes. -/
def zeroVar (size : Nat) (small : size ≤ 65535) : EfiVar where
  name := [0x41]
  guid := Vector.replicate 16 0
  data := List.replicate size 0
  nonzero := CString.forall_mem_of_all (by decide)
  nameShort := by decide
  dataShort := by rwa [List.length_replicate]

/-- A table with that variable. -/
def zeroTable : PlatformVar where
  entries := [([0x41], Vector.replicate 16 0)]
  ended := by decide
  counted := by decide

/-- A store in which every variable has some zero bytes. -/
def zeroStore (size : Nat) (positive : 0 < size) : Store where
  lookup _ := some ⟨defaultAttributes, List.replicate size 0⟩
  nonempty := by
    rintro key var found empty
    obtain rfl : StoredVar.mk defaultAttributes (List.replicate size 0) = var := by
      simpa using found
    rw [List.replicate_eq_nil_iff] at empty
    omega

/-- The image of that variable reads it into the scratch buffer. -/
theorem zeroVar_reads (size : Nat) (small : size ≤ 65535) (positive : 0 < size) :
    size ∈ (applyImage zeroTable false (fun _ => Services.working)
      (combineBiosCfg 1 [zeroVar size small] (fun _ => 0)) 2 (zeroStore size positive)).reads := by
  have fits : headerSize + (payload [zeroVar size small]).length < 2 ^ 32 := by
    rw [payload_cons, List.length_append, combineVariable_length]
    simp [zeroVar, payload, headerSize]
    omega
  have survive : ∀ var ∈ [zeroVar size small], Survives var := by
    rw [List.forall_mem_singleton]
    exact ⟨by simp [zeroVar], CString.forall_mem_of_all (by rfl)⟩
  have walk : updateBiosCfgToSystem (combineBiosCfg 1 [zeroVar size small] (fun _ => 0)) 2 = _ :=
    updateBiosCfgToSystem_survives fits survive
  rw [applyImage, walk]
  apply (handleVisits_reads _ _).mpr
  · refine ⟨(visitOf (zeroVar size small), 0), List.mem_cons_self, List.mem_cons_self,
      ⟨by decide, (by decide : efiError efiSuccess = false)⟩, _, rfl, ?_, ?_⟩
    · simp [visitOf, zeroVar]
      omega
    · exact List.length_replicate
  · rw [← walk]
    exact updateLoop_complete _ _

/-- A variable of one byte more than the scratch buffer is read over its end. -/
theorem not_framed_large :
    ¬ Framed zeroTable false (fun _ => Services.working)
      (combineBiosCfg 1 [zeroVar 0x2001 (by decide)] (fun _ => 0)) 2
      (zeroStore 0x2001 (by decide)) := by
  rintro ⟨-, reads, -⟩
  exact absurd (reads 0x2001 (zeroVar_reads _ _ _)) (by decide)

end Frame

end SmcPkg.BiosCfg
