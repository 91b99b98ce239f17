import SmcPkg.RaidOob.ApplyData

/-!
# What applying collected variables changes

The decision is made item by item, the copy variable by variable. So a byte of a
buffer changes only inside a variable that is marked, and then the whole variable
becomes the submitted one; and every changeable item whose submitted value differs
has that value afterwards, since its variable is marked and nothing marked later
shares its buffer.
-/

namespace SmcPkg.ApplyData

open RaidCmd VarTable Card Folds

section Marking

/-- An entry without its mark. -/
def ChangedVar.unmarked (entry : ChangedVar) : ChangedVar := { entry with beUpdated := false }

/-- Whether an entry belongs to a variable does not depend on its mark. -/
theorem ofRaidVar_unmarked (var : RaidVar) (entry : ChangedVar) :
    ofRaidVar var entry.unmarked = ofRaidVar var entry := rfl

/-- An entry is the first that fits a variable. -/
def IsFirst (changed : List ChangedVar) (var : RaidVar) (position : Nat) (entry : ChangedVar) :
    Prop :=
  changed[position]? = some entry ∧ ofRaidVar var entry = true ∧
    ∀ earlier < position, ∀ other, changed[earlier]? = some other → ofRaidVar var other = false

/-- The search gives the first entry of the variable, and where there is none it gives nothing.
-/
theorem search_eq_some_iff (changed : List ChangedVar) (var : RaidVar) (position : Nat)
    (entry : ChangedVar) :
    searchSmcRaidVarInChangedVar changed var = some (position, entry) ↔
      IsFirst changed var position entry := by
  rw [searchSmcRaidVarInChangedVar, Option.bind_eq_some_iff]
  constructor
  · rintro ⟨place, found, taken⟩
    obtain ⟨other, here, same⟩ := Option.map_eq_some_iff.mp taken
    obtain ⟨rfl, rfl⟩ := Prod.mk.inj same
    obtain ⟨inside, fits, none⟩ := List.findIdx?_eq_some_iff_getElem.mp found
    rw [List.getElem?_eq_getElem inside] at here
    refine ⟨?_, ?_, ?_⟩
    · rw [List.getElem?_eq_getElem inside, here]
    · rw [← Option.some.inj here]
      exact fits
    · intro earlier before other there
      have bound : earlier < changed.length := Nat.lt_trans before inside
      rw [List.getElem?_eq_getElem bound] at there
      rw [← Option.some.inj there]
      exact Bool.eq_false_iff.mpr (none earlier before)
  · rintro ⟨here, fits, none⟩
    obtain ⟨inside, same⟩ := List.getElem?_eq_some_iff.mp here
    refine ⟨position, List.findIdx?_eq_some_iff_getElem.mpr ⟨inside, ?_, ?_⟩, ?_⟩
    · rw [same]
      exact fits
    · intro earlier before
      have absent := none earlier before _ (List.getElem?_eq_getElem (Nat.lt_trans before inside))
      rw [absent]
      exact Bool.false_ne_true
    · rw [here]
      rfl

/-- An item that may be changed differs from the entry at a position, the first one
for the item's variable. -/
def Differs (fuel : Nat) (tables : VarTables) (changed : List ChangedVar)
    (item : ItemsSet × ItemsBody) (position : Nat) : Prop :=
  isChangeable item.1.raidItemsType = true ∧ ∃ a entry,
    searchLsiVarById fuel tables item.2.smcLsiVarId = .ok (some a) ∧
    IsFirst changed (tables.node a) position entry ∧
    checkTheItemAlreadyBeChagned item.2.lsiItemOp ((tables.node a).raidVarBuffer.map tables.buffer)
      entry.changedVarBuffer = .ok true

/-- There is one first entry. -/
theorem IsFirst.unique {changed : List ChangedVar} {var : RaidVar} {position other : Nat}
    {entry entry' : ChangedVar} (first : IsFirst changed var position entry)
    (second : IsFirst changed var other entry') : position = other ∧ entry = entry' := by
  have found := (search_eq_some_iff changed var position entry).mpr first
  rw [(search_eq_some_iff changed var other entry').mpr second] at found
  obtain ⟨rfl, rfl⟩ := Prod.mk.inj (Option.some.inj found)
  exact ⟨rfl, rfl⟩

/-- One round of the check marks the entry of an item that differs, and nothing
else. -/
theorem checkItem_changed {fuel : Nat} {tables : VarTables} {marks next : Marks}
    {item : ItemsSet × ItemsBody} (done : checkItem fuel tables marks item = .ok next) :
    ((∀ position, ¬ Differs fuel tables marks.changed item position) ∧
        next.changed = marks.changed) ∨
      ∃ position, Differs fuel tables marks.changed item position ∧
        (∀ other, Differs fuel tables marks.changed item other → other = position) ∧
        next.changed = marks.changed.modify position markUpdated := by
  rw [checkItem] at done
  split at done
  case isFalse fixed =>
    rw [← Except.ok.inj done]
    exact Or.inl ⟨fun position differs => fixed differs.1, rfl⟩
  case isTrue changeable =>
    cases searched : searchLsiVarById fuel tables item.2.smcLsiVarId with
    | error fault => simp [searched, bind, Except.bind] at done
    | ok found =>
      -- what an item that differs is about is fixed by the two searches
      have about : ∀ position, Differs fuel tables marks.changed item position →
          ∃ a entry, found = some a ∧ IsFirst marks.changed (tables.node a) position entry ∧
            checkTheItemAlreadyBeChagned item.2.lsiItemOp
              ((tables.node a).raidVarBuffer.map tables.buffer) entry.changedVarBuffer =
                .ok true := by
        rintro position ⟨-, a, entry, other, first, differs⟩
        rw [searched] at other
        exact ⟨a, entry, Except.ok.inj other, first, differs⟩
      simp only [searched, bind, Except.bind] at done
      cases found with
      | none =>
        rw [← Except.ok.inj done]
        refine Or.inl ⟨fun position differs => ?_, rfl⟩
        obtain ⟨a, entry, impossible, -, -⟩ := about position differs
        exact absurd impossible (by simp)
      | some a =>
        cases search : searchSmcRaidVarInChangedVar marks.changed (tables.node a) with
        | none =>
          simp only [search] at done
          rw [← Except.ok.inj done]
          refine Or.inl ⟨fun position differs => ?_, rfl⟩
          obtain ⟨b, entry, same, first, -⟩ := about position differs
          rw [← Option.some.inj same] at first
          rw [(search_eq_some_iff _ _ _ _).mpr first] at search
          exact absurd search (by simp)
        | some place =>
          obtain ⟨position, entry⟩ := place
          have first := (search_eq_some_iff _ _ _ _).mp search
          simp only [search] at done
          cases compared : checkTheItemAlreadyBeChagned item.2.lsiItemOp
              ((tables.node a).raidVarBuffer.map tables.buffer) entry.changedVarBuffer with
          | error fault => simp [compared] at done
          | ok differs =>
            simp only [compared] at done
            cases differs with
            | true =>
              refine Or.inr ⟨position, ⟨changeable, a, entry, searched, first, compared⟩, ?_, ?_⟩
              · intro other differs
                obtain ⟨b, entry', same, second, -⟩ := about other differs
                rw [← Option.some.inj same] at second
                exact (second.unique first).1
              · rw [← Except.ok.inj done]
                rfl
            | false =>
              rw [← Except.ok.inj done]
              refine Or.inl ⟨fun other differs => ?_, rfl⟩
              obtain ⟨b, entry', same, second, differs⟩ := about other differs
              rw [← Option.some.inj same] at second differs
              rw [(second.unique first).2, compared] at differs
              exact absurd (Except.ok.inj differs) Bool.false_ne_true

/-- Marks do not change what is first for a variable. -/
theorem isFirst_unmarked {changed other : List ChangedVar} {var : RaidVar} {position : Nat}
    {entry : ChangedVar}
    (alike : changed.map ChangedVar.unmarked = other.map ChangedVar.unmarked)
    (first : IsFirst changed var position entry) :
    ∃ entry', IsFirst other var position entry' ∧
      entry'.changedVarBuffer = entry.changedVarBuffer := by
  have samePlace : ∀ place : Nat, (changed[place]?).map ChangedVar.unmarked =
      (other[place]?).map ChangedVar.unmarked := by
    intro place
    rw [← List.getElem?_map, ← List.getElem?_map, alike]
  obtain ⟨here, fits, none⟩ := first
  have same := samePlace position
  rw [here] at same
  cases there : other[position]? with
  | none =>
    rw [there] at same
    exact absurd same (by simp)
  | some entry' =>
    rw [there] at same
    have core : entry.unmarked = entry'.unmarked := Option.some.inj same
    refine ⟨entry', ⟨there, ?_, ?_⟩, ?_⟩
    · rw [← ofRaidVar_unmarked, ← core]
      exact fits
    · intro earlier before late found
      have sameEarlier := samePlace earlier
      rw [found] at sameEarlier
      cases origin : changed[earlier]? with
      | none =>
        rw [origin] at sameEarlier
        exact absurd sameEarlier (by simp)
      | some early =>
        rw [origin] at sameEarlier
        have coreEarlier : early.unmarked = late.unmarked := Option.some.inj sameEarlier
        rw [← ofRaidVar_unmarked, ← coreEarlier]
        exact none earlier before early origin
    · exact (congrArg ChangedVar.changedVarBuffer core).symm

/-- Whether a question differs does not depend on the marks. -/
theorem differs_unmarked {fuel : Nat} {tables : VarTables} {changed other : List ChangedVar}
    {item : ItemsSet × ItemsBody} {position : Nat}
    (alike : changed.map ChangedVar.unmarked = other.map ChangedVar.unmarked)
    (differs : Differs fuel tables changed item position) :
    Differs fuel tables other item position := by
  obtain ⟨changeable, a, entry, searched, first, compared⟩ := differs
  obtain ⟨entry', first', same⟩ := isFirst_unmarked alike first
  exact ⟨changeable, a, entry', searched, first', by rw [same]; exact compared⟩

/-- The list after the check: an entry is marked when it was marked before or when
an item differs from it, and nothing else has changed. -/
def Remarked (fuel : Nat) (tables : VarTables) (items : List (ItemsSet × ItemsBody))
    (before after : List ChangedVar) : Prop :=
  after.map ChangedVar.unmarked = before.map ChangedVar.unmarked ∧
    ∀ position old new, before[position]? = some old → after[position]? = some new →
      (new.beUpdated = true ↔ old.beUpdated = true ∨
        ∃ item ∈ items, Differs fuel tables before item position)

/-- A mark that is set changes nothing but the mark. -/
theorem modify_unmarked (changed : List ChangedVar) (position : Nat) :
    (changed.modify position markUpdated).map ChangedVar.unmarked =
      changed.map ChangedVar.unmarked := by
  apply List.ext_getElem?
  intro place
  rw [List.getElem?_map, List.getElem?_map, List.getElem?_modify]
  cases changed[place]? with
  | none => rfl
  | some entry =>
    by_cases same : position = place
    · simp [same, markUpdated, ChangedVar.unmarked]
    · simp [same]

/-- The whole check. -/
theorem checkChangeable_remarked {fuel : Nat} {tables : VarTables} {items : List ItemsSet}
    {marks marked : Marks}
    (done : checkChangeableItemsInChangedVar fuel tables items marks = .ok marked) :
    Remarked fuel tables (itemsOf items) marks.changed marked.changed := by
  refine foldlM_ok (motive := fun seen state => Remarked fuel tables seen marks.changed state.changed)
    ?_ ?_ done
  · refine ⟨rfl, fun position old new found there => ?_⟩
    obtain rfl := Option.some.inj (found.symm.trans there)
    simp
  · intro seen item rest state next _ remarked stepped
    obtain ⟨alike, marksOf⟩ := remarked
    have here : ∀ position, Differs fuel tables state.changed item position ↔
        Differs fuel tables marks.changed item position := fun position =>
      ⟨differs_unmarked alike, differs_unmarked alike.symm⟩
    have grown : ∀ position, (∃ other ∈ seen ++ [item], Differs fuel tables marks.changed other
        position) ↔ (∃ other ∈ seen, Differs fuel tables marks.changed other position) ∨
          Differs fuel tables state.changed item position := by
      intro position
      simp [or_and_right, exists_or, here]
    rcases checkItem_changed stepped with ⟨none, same⟩ | ⟨position, differs, only, same⟩
    · rw [same]
      refine ⟨alike, fun place old new found there => ?_⟩
      rw [marksOf place old new found there, grown place]
      simp [none place]
    · rw [same]
      refine ⟨(modify_unmarked _ _).trans alike, fun place old new found there => ?_⟩
      rw [List.getElem?_modify] at there
      obtain ⟨middle, current, rfl⟩ := Option.map_eq_some_iff.mp there
      rw [grown place]
      by_cases hit : position = place
      · rw [← hit]
        simp [markUpdated, differs]
      · have miss : ¬ Differs fuel tables state.changed item place := fun differs =>
          hit (only place differs).symm
        simp only [hit, if_false, miss, or_false]
        exact marksOf place old middle found current

end Marking

section Copying

/-- A changed entry names a variable. -/
def Names (tables : VarTables) (entry : ChangedVar) (a : Nat) : Prop :=
  (tables.node a).raidVarName = entry.changedVarName ∧
    (tables.node a).raidVarGuid = entry.changedVarGuid

/-- What is known about the variables of a card and the changed variables collected
for it. The tables hold the listed variables, each with a buffer and under a name
and GUID of its own; a changed variable has the size of the variable it names; two
variables that are named do not share a buffer; and a marked entry is the first
for its variable. -/
structure Collected (tables : VarTables) (entries : List Nat) (changed : List ChangedVar) :
    Prop where
  represents : Represents tables entries
  keyed : ∀ a ∈ entries, ∀ b ∈ entries,
    (tables.node a).raidVarName = (tables.node b).raidVarName →
    (tables.node a).raidVarGuid = (tables.node b).raidVarGuid → a = b
  buffered : ∀ a ∈ entries, ∃ p, (tables.node a).raidVarBuffer = some p
  fitting : ∀ entry ∈ changed, ∀ a ∈ entries, Names tables entry a →
    entry.changedVarBuffer.length = (tables.node a).raidVarSize.toNat
  unshared : ∀ entry ∈ changed, ∀ other ∈ changed, ∀ a ∈ entries, ∀ b ∈ entries,
    Names tables entry a → Names tables other b →
    (tables.node a).raidVarBuffer = (tables.node b).raidVarBuffer → a = b
  marked : ∀ (position : Nat) (entry : ChangedVar), changed[position]? = some entry →
    entry.beUpdated = true → ∀ earlier < position, ∀ other : ChangedVar,
      changed[earlier]? = some other → ¬ (other.changedVarName = entry.changedVarName ∧
        other.changedVarGuid = entry.changedVarGuid)

variable {tables : VarTables} {entries : List Nat} {changed : List ChangedVar}

/-- Two marked entries for one buffer are the same. -/
theorem Collected.one_mark (collected : Collected tables entries changed) {a b : Nat}
    {entry other : ChangedVar} (entryIn : entry ∈ changed) (otherIn : other ∈ changed)
    (entryMarked : entry.beUpdated = true) (otherMarked : other.beUpdated = true)
    (aIn : a ∈ entries) (bIn : b ∈ entries) (names : Names tables entry a)
    (otherNames : Names tables other b)
    (shared : (tables.node a).raidVarBuffer = (tables.node b).raidVarBuffer) : entry = other := by
  have same := collected.unshared entry entryIn other otherIn a aIn b bIn names otherNames shared
  subst same
  have alike : other.changedVarName = entry.changedVarName ∧
      other.changedVarGuid = entry.changedVarGuid :=
    ⟨otherNames.1.symm.trans names.1, otherNames.2.symm.trans names.2⟩
  obtain ⟨i, here⟩ := List.getElem?_of_mem entryIn
  obtain ⟨j, there⟩ := List.getElem?_of_mem otherIn
  rcases Nat.lt_trichotomy i j with before | same | after
  · exact absurd ⟨alike.1.symm, alike.2.symm⟩
      (collected.marked j other there otherMarked i before entry here)
  · rw [same, there] at here
    exact (Option.some.inj here).symm
  · exact absurd alike (collected.marked i entry here entryMarked j after other there)

/-- An entry of a list that differs only in its marks. -/
theorem unmarked_member {other : List ChangedVar}
    (alike : other.map ChangedVar.unmarked = changed.map ChangedVar.unmarked) {position : Nat}
    {entry : ChangedVar} (there : other[position]? = some entry) :
    ∃ old, changed[position]? = some old ∧ old.unmarked = entry.unmarked := by
  have same := congrArg (fun list => list[position]?) alike
  simp only [List.getElem?_map, there, Option.map_some] at same
  obtain ⟨old, here, core⟩ := Option.map_eq_some_iff.mp same.symm
  exact ⟨old, here, core⟩

/-- The check keeps what is known: an entry it marks is the first for its variable. -/
theorem Collected.remarked (collected : Collected tables entries changed) {fuel : Nat}
    (enough : entries.length ≤ fuel) {items : List (ItemsSet × ItemsBody)}
    {after : List ChangedVar} (remarked : Remarked fuel tables items changed after) :
    Collected tables entries after := by
  obtain ⟨alike, marksOf⟩ := remarked
  have origin : ∀ entry ∈ after, ∃ old ∈ changed, old.unmarked = entry.unmarked := by
    intro entry member
    obtain ⟨position, there⟩ := List.getElem?_of_mem member
    obtain ⟨old, here, core⟩ := unmarked_member alike there
    exact ⟨old, List.mem_of_getElem? here, core⟩
  have named : ∀ {entry old : ChangedVar} {a : Nat}, old.unmarked = entry.unmarked →
      Names tables entry a → Names tables old a := by
    intro entry old a core names
    exact ⟨names.1.trans (congrArg ChangedVar.changedVarName core).symm,
      names.2.trans (congrArg ChangedVar.changedVarGuid core).symm⟩
  refine ⟨collected.represents, collected.keyed, collected.buffered, ?_, ?_, ?_⟩
  · intro entry member a aIn names
    obtain ⟨old, oldIn, core⟩ := origin entry member
    have same : old.unmarked.changedVarBuffer = entry.unmarked.changedVarBuffer := by rw [core]
    change old.changedVarBuffer = entry.changedVarBuffer at same
    rw [← same]
    exact collected.fitting old oldIn a aIn (named core names)
  · intro entry member other otherMember a aIn b bIn names otherNames shared
    obtain ⟨old, oldIn, core⟩ := origin entry member
    obtain ⟨older, olderIn, otherCore⟩ := origin other otherMember
    exact collected.unshared old oldIn older olderIn a aIn b bIn (named core names)
      (named otherCore otherNames) shared
  · intro position entry there isMarked earlier before other otherThere same
    obtain ⟨old, here, core⟩ := unmarked_member alike there
    obtain ⟨older, olderHere, otherCore⟩ := unmarked_member alike otherThere
    have sameOld : older.changedVarName = old.changedVarName ∧
        older.changedVarGuid = old.changedVarGuid := by
      refine ⟨?_, ?_⟩
      · exact ((congrArg ChangedVar.changedVarName otherCore).trans same.1).trans
          (congrArg ChangedVar.changedVarName core).symm
      · exact ((congrArg ChangedVar.changedVarGuid otherCore).trans same.2).trans
          (congrArg ChangedVar.changedVarGuid core).symm
    rcases (marksOf position old entry here there).mp isMarked with markedBefore | ⟨item, -, differs⟩
    · exact collected.marked position old here markedBefore earlier before older olderHere sameOld
    · obtain ⟨-, a, first, searched, ⟨firstHere, fits, none⟩, -⟩ := differs
      obtain rfl := Option.some.inj (here.symm.trans firstHere)
      rw [searchLsiVarById_represents collected.represents _ enough] at searched
      have aIn := List.mem_of_find?_eq_some (Except.ok.inj searched)
      simp only [ofRaidVar, Bool.and_eq_true, decide_eq_true_eq] at fits
      have names : Names tables older a :=
        ⟨fits.1.1.symm.trans sameOld.1.symm, fits.1.2.symm.trans sameOld.2.symm⟩
      have length := collected.fitting older (List.mem_of_getElem? olderHere) a aIn names
      have absent := none earlier before older olderHere
      simp [ofRaidVar, names.1, names.2, length] at absent

/-- Copying an entry overwrites the front of one buffer. -/
theorem copyEntry_eq {a p : Nat} {entry : ChangedVar} {next : VarTables}
    (pointed : (tables.node a).raidVarBuffer = some p)
    (fits : entry.changedVarBuffer.length = (tables.node a).raidVarSize.toNat)
    (done : copyEntry tables a entry = .ok next) :
    entry.changedVarBuffer.length ≤ (tables.buffer p).length ∧
      next = tables.setBuffer p
        (entry.changedVarBuffer ++ (tables.buffer p).drop entry.changedVarBuffer.length) := by
  have read : readMemory (fun i => entry.changedVarBuffer.getD i 0)
      (tables.node a).raidVarSize.toNat = entry.changedVarBuffer := by
    rw [readMemory, ← fits]
    apply List.ext_getElem
    · simp
    · intro i _ inside
      simp [List.getD_eq_getElem?_getD, inside]
  rw [copyEntry, if_neg (by omega), setLsiVarBuffer] at done
  simp only [ensureBuffer, pointed, read, writeBuffer] at done
  split at done
  · exact absurd done (by simp)
  · exact ⟨by omega, (Except.ok.inj done).symm⟩

/-- The copy so far: only buffers have changed, a byte that differs comes from a marked
entry for a variable with that buffer, and a marked entry gone through stands in
the buffer of its variable. -/
structure Copied (tables : VarTables) (entries : List Nat) (seen : List ChangedVar)
    (now : VarTables) : Prop where
  others : now = { tables with buffer := now.buffer }
  lengths : ∀ p, (now.buffer p).length = (tables.buffer p).length
  byte : ∀ p i : Nat, (now.buffer p)[i]? ≠ (tables.buffer p)[i]? →
    ∃ entry ∈ seen, entry.beUpdated = true ∧ ∃ a ∈ entries, Names tables entry a ∧
      (tables.node a).raidVarBuffer = some p ∧ i < (tables.node a).raidVarSize.toNat ∧
      (now.buffer p)[i]? = entry.changedVarBuffer[i]?
  whole : ∀ entry ∈ seen, entry.beUpdated = true → ∀ a ∈ entries, Names tables entry a →
    ∀ p, (tables.node a).raidVarBuffer = some p →
      (now.buffer p).take entry.changedVarBuffer.length = entry.changedVarBuffer

/-- Only buffers have changed, so the tables hold the same variables. -/
theorem Copied.represents {seen : List ChangedVar} {now : VarTables}
    (copied : Copied tables entries seen now) (collected : Collected tables entries changed) :
    Represents now entries := by
  rw [copied.others]
  exact ⟨collected.represents.distinct, collected.represents.allocated,
    collected.represents.byName, collected.represents.byId⟩

/-- An entry that is not marked, or that no variable is named by, copies nothing. -/
theorem Copied.quiet {seen : List ChangedVar} {entry : ChangedVar} {now : VarTables}
    (copied : Copied tables entries seen now)
    (quiet : entry.beUpdated = false ∨ ∀ a ∈ entries, ¬ Names tables entry a) :
    Copied tables entries (seen ++ [entry]) now where
  others := copied.others
  lengths := copied.lengths
  byte p i differs := by
    obtain ⟨other, otherIn, rest⟩ := copied.byte p i differs
    exact ⟨other, List.mem_append_left _ otherIn, rest⟩
  whole other member otherMarked a aIn names p pointed := by
    rcases List.mem_append.mp member with inside | last
    · exact copied.whole other inside otherMarked a aIn names p pointed
    · rw [List.mem_singleton.mp last] at otherMarked names
      rcases quiet with unmarked | unnamed
      · rw [otherMarked] at unmarked
        exact absurd unmarked.symm Bool.false_ne_true
      · exact absurd names (unnamed a aIn)

/-- A marked entry is copied over the front of the buffer of its variable: no other buffer
changes, and no marked entry gone through before stands in this one, since of two marked entries
for one buffer the list has only one. -/
theorem Copied.wrote (collected : Collected tables entries changed) {seen : List ChangedVar}
    {entry : ChangedVar} {now : VarTables} (seenIn : ∀ other ∈ seen, other ∈ changed)
    (entryIn : entry ∈ changed) (copied : Copied tables entries seen now)
    (isMarked : entry.beUpdated = true) {a p : Nat} (aIn : a ∈ entries)
    (names : Names tables entry a) (pointed : (tables.node a).raidVarBuffer = some p)
    (fits : entry.changedVarBuffer.length = (tables.node a).raidVarSize.toNat)
    (room : entry.changedVarBuffer.length ≤ (now.buffer p).length) :
    Copied tables entries (seen ++ [entry]) (now.setBuffer p
      (entry.changedVarBuffer ++ (now.buffer p).drop entry.changedVarBuffer.length)) := by
  have here : (now.setBuffer p (entry.changedVarBuffer ++
      (now.buffer p).drop entry.changedVarBuffer.length)).buffer p =
        entry.changedVarBuffer ++ (now.buffer p).drop entry.changedVarBuffer.length :=
    Function.update_self ..
  have elsewhere : ∀ q, q ≠ p → (now.setBuffer p (entry.changedVarBuffer ++
      (now.buffer p).drop entry.changedVarBuffer.length)).buffer q = now.buffer q :=
    fun q other => Function.update_of_ne other ..
  refine ⟨?_, ?_, ?_, ?_⟩
  · rw [VarTables.setBuffer, copied.others]
  · intro q
    by_cases same : q = p
    · rw [same, here, ← copied.lengths p, List.length_append, List.length_drop]
      omega
    · rw [elsewhere q same, copied.lengths q]
  · intro q i differs
    by_cases same : q = p
    · subst same
      rw [here] at differs ⊢
      by_cases inside : i < entry.changedVarBuffer.length
      · rw [List.getElem?_append_left inside]
        exact ⟨entry, by simp, isMarked, a, aIn, names, pointed, by omega, rfl⟩
      · have behind : (entry.changedVarBuffer ++ (now.buffer q).drop
            entry.changedVarBuffer.length)[i]? = (now.buffer q)[i]? := by
          rw [List.getElem?_append_right (by omega), List.getElem?_drop]
          congr 1
          omega
        rw [behind] at differs ⊢
        obtain ⟨other, otherIn, rest⟩ := copied.byte q i differs
        exact ⟨other, List.mem_append_left _ otherIn, rest⟩
    · rw [elsewhere q same] at differs ⊢
      obtain ⟨other, otherIn, rest⟩ := copied.byte q i differs
      exact ⟨other, List.mem_append_left _ otherIn, rest⟩
  · intro other member otherMarked b bIn otherNames q otherPointed
    have otherInChanged : other ∈ changed := by
      rcases List.mem_append.mp member with inside | last
      · exact seenIn other inside
      · rw [List.mem_singleton.mp last]
        exact entryIn
    by_cases same : q = p
    · subst same
      have one := collected.one_mark otherInChanged entryIn otherMarked isMarked bIn aIn
        otherNames names (otherPointed.trans pointed.symm)
      rw [one, here, List.take_left]
    · rw [elsewhere q same]
      rcases List.mem_append.mp member with inside | last
      · exact copied.whole other inside otherMarked b bIn otherNames q otherPointed
      · rw [List.mem_singleton.mp last] at otherNames
        have one := collected.keyed a aIn b bIn (names.1.trans otherNames.1.symm)
          (names.2.trans otherNames.2.symm)
        rw [← one, pointed] at otherPointed
        exact absurd (Option.some.inj otherPointed).symm same

/-- One round of the copy. The entry is skipped if it is not marked or if the search by name
finds nothing, and is copied to the buffer of the variable that is found otherwise. -/
theorem applyEntry_copied (collected : Collected tables entries changed) {fuel : Nat}
    (enough : entries.length ≤ fuel) {seen : List ChangedVar} {entry : ChangedVar}
    {now next : VarTables} (seenIn : ∀ other ∈ seen, other ∈ changed) (entryIn : entry ∈ changed)
    (copied : Copied tables entries seen now) (done : applyEntry fuel now entry = .ok next) :
    Copied tables entries (seen ++ [entry]) next := by
  have nodes : now.node = tables.node := by rw [copied.others]
  have represents := copied.represents collected
  rw [applyEntry] at done
  split at done
  case isFalse unmarked =>
    rw [← Except.ok.inj done]
    exact copied.quiet (Or.inl (Bool.eq_false_iff.mpr unmarked))
  case isTrue isMarked =>
    rw [searchLsiVarByName_represents represents _ _ enough] at done
    simp only [bind, Except.bind] at done
    cases found : entries.find? (matchesName now entry.changedVarName
        (some entry.changedVarGuid)) with
    | none =>
      simp only [found] at done
      rw [← Except.ok.inj done]
      refine copied.quiet (Or.inr (fun a aIn names => ?_))
      have absent := List.find?_eq_none.mp found a aIn
      simp [matchesName, nodes, names.1, names.2] at absent
    | some a =>
      simp only [found] at done
      have aIn := List.mem_of_find?_eq_some found
      have names : Names tables entry a := by
        have fits := List.find?_some found
        simp only [matchesName, nodes, Bool.and_eq_true, decide_eq_true_eq, Bool.or_eq_true,
          reduceCtorEq, false_or, Option.some.injEq] at fits
        exact ⟨fits.1, fits.2.symm⟩
      have fits := collected.fitting entry entryIn a aIn names
      obtain ⟨p, pointed⟩ := collected.buffered a aIn
      obtain ⟨room, rfl⟩ := copyEntry_eq (by rw [nodes]; exact pointed) (by rw [nodes]; exact fits)
        done
      exact Copied.wrote collected seenIn entryIn copied isMarked aIn names pointed fits room

/-- The invariant of the copy starts with nothing copied. -/
theorem copied_nil (tables : VarTables) (entries : List Nat) : Copied tables entries [] tables :=
  ⟨rfl, fun _ => rfl, fun _ _ differs => absurd rfl differs,
    fun _ member => absurd member List.not_mem_nil⟩

/-- One round of the copy, at its place in the list. -/
theorem applyEntry_kept (collected : Collected tables entries changed) {fuel : Nat}
    (enough : entries.length ≤ fuel) (seen : List ChangedVar) (entry : ChangedVar)
    (rest : List ChangedVar) (now next : VarTables) (split : changed = seen ++ entry :: rest)
    (copied : Copied tables entries seen now) (done : applyEntry fuel now entry = .ok next) :
    Copied tables entries (seen ++ [entry]) next := by
  refine applyEntry_copied collected enough ?_ ?_ copied done
  · intro other otherIn
    rw [split]
    exact List.mem_append_left _ otherIn
  · rw [split]
    simp

/-- The whole copy. -/
theorem changedVarToOOBVarBuffer_copied (collected : Collected tables entries changed) {fuel : Nat}
    (enough : entries.length ≤ fuel) {after : VarTables}
    (done : changedVarToOOBVarBuffer fuel changed tables = .ok after) :
    Copied tables entries changed after :=
  foldlM_ok (motive := Copied tables entries) (copied_nil tables entries)
    (applyEntry_kept collected enough) done

/-- The searches of the copy end. -/
theorem changedVarToOOBVarBuffer_ends (collected : Collected tables entries changed) {fuel : Nat}
    (enough : entries.length ≤ fuel) :
    changedVarToOOBVarBuffer fuel changed tables ≠ .error .outOfFuel := by
  intro failed
  obtain ⟨seen, entry, rest, now, -, copied, stuck⟩ :=
    foldlM_error (motive := Copied tables entries) (copied_nil tables entries)
      (applyEntry_kept collected enough) failed
  rw [applyEntry, searchLsiVarByName_represents (copied.represents collected) _ _ enough] at stuck
  split at stuck
  · cases found : entries.find? (matchesName now entry.changedVarName
        (some entry.changedVarGuid)) with
    | none => simp [found, bind, Except.bind] at stuck
    | some a =>
      simp only [found, bind, Except.bind, copyEntry, setLsiVarBuffer, writeBuffer] at stuck
      split at stuck
      · simp at stuck
      · split at stuck <;> simp at stuck
  · simp at stuck

end Copying

section Applying

variable {tables : VarTables} {entries : List Nat}

/-- The comparison of two strings fails over their ends only. -/
theorem strCmp_error {ori ch : List UInt8} {fault : Fault} (failed : strCmp ori ch = .error fault) :
    fault = .overflow := by
  fun_induction strCmp ori ch with
  | case1 => simp at failed
  | case2 => simp at failed
  | case3 _ _ _ _ _ _ _ _ inductionHypothesis => exact inductionHypothesis failed
  | case4 => exact (Except.error.inj failed).symm

/-- So does the comparison of the bytes of a question. -/
theorem bytesDiffer_error {offset width : Nat} {ori ch : List UInt8} {fault : Fault}
    (failed : bytesDiffer offset width ori ch = .error fault) : fault = .overflow := by
  rw [bytesDiffer] at failed
  split at failed
  · exact (Except.error.inj failed).symm
  · simp at failed

/-- A comparison has no loop of its own that could run out of fuel. -/
theorem checkTheItemAlreadyBeChagned_ends (op : IfrOp) (ori : Option (List UInt8))
    (ch : List UInt8) : checkTheItemAlreadyBeChagned op ori ch ≠ .error .outOfFuel := by
  intro failed
  cases ori with
  | none =>
    rw [checkTheItemAlreadyBeChagned] at failed
    split at failed <;> simp at failed
  | some bytes =>
    rw [checkTheItemAlreadyBeChagned] at failed
    split at failed
    · exact absurd (strCmp_error failed) (by decide)
    · exact absurd (bytesDiffer_error failed) (by decide)
    · exact absurd (bytesDiffer_error failed) (by decide)
    · exact absurd (bytesDiffer_error failed) (by decide)
    · simp at failed

/-- The searches of the check end. -/
theorem checkChangeable_ends (represents : Represents tables entries) {fuel : Nat}
    (enough : entries.length ≤ fuel) (items : List ItemsSet) (marks : Marks) :
    checkChangeableItemsInChangedVar fuel tables items marks ≠ .error .outOfFuel := by
  intro failed
  obtain ⟨-, item, -, now, -, -, stuck⟩ := foldlM_error (motive := fun _ _ => True) trivial
    (fun _ _ _ _ _ _ _ _ => trivial) failed
  rw [checkItem, searchLsiVarById_represents represents _ enough] at stuck
  split at stuck
  case isFalse => simp at stuck
  case isTrue =>
    cases found : entries.find? (fun a => (tables.node a).raidVarId = item.2.smcLsiVarId) with
    | none => simp [found, bind, Except.bind] at stuck
    | some a =>
      simp only [found, bind, Except.bind] at stuck
      cases search : searchSmcRaidVarInChangedVar now.changed (tables.node a) with
      | none => simp [search] at stuck
      | some place =>
        simp only [search] at stuck
        split at stuck
        case h_1 fault compared =>
          rw [Except.error.inj stuck] at compared
          exact checkTheItemAlreadyBeChagned_ends _ _ _ compared
        case h_2 => simp at stuck

/-- Applying collected variables. An entry ends up marked when it was marked before or
when a changeable item differs from it; bytes change only inside variables with a
marked entry, which become that entry as a whole; and the variable of every
changeable item that differs has the submitted bytes. -/
theorem applyData_changes {items : List ItemsSet} {marks : Marks} {fuel : Nat}
    (collected : Collected tables entries marks.changed) (enough : entries.length ≤ fuel) :
    applyData fuel items marks tables ≠ .error .outOfFuel ∧
      ∀ marked after, applyData fuel items marks tables = .ok (marked, after) →
        Remarked fuel tables (itemsOf items) marks.changed marked.changed ∧
        Copied tables entries marked.changed after ∧
        ∀ item ∈ itemsOf items, ∀ position, Differs fuel tables marks.changed item position →
          ∃ a entry p, searchLsiVarById fuel tables item.2.smcLsiVarId = .ok (some a) ∧
            marks.changed[position]? = some entry ∧ (tables.node a).raidVarBuffer = some p ∧
            (after.buffer p).take entry.changedVarBuffer.length = entry.changedVarBuffer := by
  rw [applyData]
  cases checked : checkChangeableItemsInChangedVar fuel tables items marks with
  | error fault =>
    refine ⟨fun stuck => ?_, fun marked after done => by simp [bind, Except.bind] at done⟩
    rw [Except.error.inj stuck] at checked
    exact checkChangeable_ends collected.represents enough items marks checked
  | ok middle =>
    have remarked := checkChangeable_remarked checked
    have later := collected.remarked enough remarked
    simp only [bind, Except.bind]
    cases copy : changedVarToOOBVarBuffer fuel middle.changed tables with
    | error fault =>
      refine ⟨fun stuck => ?_, fun marked after done => by simp at done⟩
      rw [Except.error.inj stuck] at copy
      exact changedVarToOOBVarBuffer_ends later enough copy
    | ok final =>
      refine ⟨by simp, fun marked after done => ?_⟩
      obtain ⟨rfl, rfl⟩ := Prod.mk.inj (Except.ok.inj done)
      have copied := changedVarToOOBVarBuffer_copied later enough copy
      refine ⟨remarked, copied, ?_⟩
      intro item itemIn position differs
      obtain ⟨changeable, a, entry, searched, first, compared⟩ := differs
      have isVar := searched
      rw [searchLsiVarById_represents collected.represents _ enough] at isVar
      have aIn := List.mem_of_find?_eq_some (Except.ok.inj isVar)
      obtain ⟨p, pointed⟩ := collected.buffered a aIn
      obtain ⟨new, there, core⟩ := unmarked_member remarked.1.symm first.1
      have isMarked := (remarked.2 position entry new first.1 there).mpr
        (Or.inr ⟨item, itemIn, changeable, a, entry, searched, first, compared⟩)
      have fits : ofRaidVar (tables.node a) new = true := by
        rw [← ofRaidVar_unmarked, core]
        exact first.2.1
      simp only [ofRaidVar, Bool.and_eq_true, decide_eq_true_eq] at fits
      have whole := copied.whole new (List.mem_of_getElem? there) isMarked a aIn
        ⟨fits.1.1.symm, fits.1.2.symm⟩ p pointed
      have same : new.unmarked.changedVarBuffer = entry.unmarked.changedVarBuffer := by rw [core]
      change new.changedVarBuffer = entry.changedVarBuffer at same
      rw [same] at whole
      exact ⟨a, entry, p, searched, first.1, pointed, whole⟩

/-- The tables of a card with one variable. -/
def oneVar (name : List UInt8) (size : UInt16) (bytes : List UInt8) : VarTables where
  node := fun _ => ⟨name, 0, 1, size, some 0⟩
  nodes := 1
  buffer := fun _ => bytes
  buffers := 1
  byName := ⟨fun _ => none, fun bucket => if bucket = varHashByName name then some 0 else none⟩
  byId := ⟨fun _ => none, fun bucket => if bucket = varHashById 1 then some 0 else none⟩

/-- The tables of the example hold their variable. -/
theorem oneVar_represents (name : List UInt8) (size : UInt16) (bytes : List UInt8) :
    Represents (oneVar name size bytes) [0] where
  distinct := by simp
  allocated := by simp [oneVar]
  byName := by
    intro bucket
    by_cases same : bucket = varHashByName name
    · simp only [oneVar, VarTables.nameIndex, same, if_true, decide_true, List.filter_cons_of_pos,
        List.filter_nil]
      exact .cons _ _ .nil
    · simp only [oneVar, VarTables.nameIndex, same, Ne.symm same, if_false, decide_false,
        List.filter_cons, Bool.false_eq_true, List.filter_nil]
      exact .nil
  byId := by
    intro bucket
    by_cases same : bucket = varHashById 1
    · simp only [oneVar, VarTables.idIndex, same, if_true, decide_true, List.filter_cons_of_pos,
        List.filter_nil]
      exact .cons _ _ .nil
    · simp only [oneVar, VarTables.idIndex, same, Ne.symm same, if_false, decide_false,
        List.filter_cons, Bool.false_eq_true, List.filter_nil]
      exact .nil

/-- A submission of the right size is collected for it. -/
theorem oneVar_collected (name : List UInt8) (size : UInt16) (bytes submitted : List UInt8)
    (fits : submitted.length = size.toNat) :
    Collected (oneVar name size bytes) [0] [⟨name, 0, submitted, false⟩] where
  represents := oneVar_represents name size bytes
  keyed := by simp
  buffered := by simp [oneVar]
  fitting := by simp [oneVar, fits]
  unshared := by simp
  marked := by
    intro position entry there isMarked
    obtain rfl := List.mem_singleton.mp (List.mem_of_getElem? there)
    exact absurd isMarked (by simp)

/-- A question of one byte on the variable with identifier 1. -/
def byteItem (itemsType : ItemsType) (offset : Nat) : ItemsSet :=
  ⟨"FORM", "ITEM", itemsType, [⟨1, 0, ⟨.checkbox, 0, 0, 1, offset, 0, 0, 0, 0⟩⟩]⟩

/-- A changeable byte and behind it an informative one, in one variable. -/
def sharedItems : List ItemsSet := [byteItem .changeable 0, byteItem .information 1]

/-- A submission in which both bytes differ. -/
def sharedMarks : Marks := ⟨[⟨[65], 0, [1, 1], false⟩], []⟩

/-- Applying the submission succeeds and overwrites both bytes. -/
theorem applyData_shared : ∃ marked after,
    applyData 1 sharedItems sharedMarks (oneVar [65] 2 [0, 0]) = .ok (marked, after) ∧
      after.buffer 0 = [1, 1] := by
  have computed : (applyData 1 sharedItems sharedMarks (oneVar [65] 2 [0, 0])).toOption.map
      (fun result => result.2.buffer 0) = some [1, 1] := by decide
  cases applied : applyData 1 sharedItems sharedMarks (oneVar [65] 2 [0, 0]) with
  | error fault => simp [applied, Except.toOption] at computed
  | ok result =>
    simp only [applied, Except.toOption, Option.map_some, Option.some.injEq] at computed
    exact ⟨result.1, result.2, rfl, computed⟩

/-- The submission meets what is known about collected variables, and its one entry
is copied as a whole. -/
theorem applyData_changes_shared : ∃ marked after,
    applyData 1 sharedItems sharedMarks (oneVar [65] 2 [0, 0]) = .ok (marked, after) ∧
      Copied (oneVar [65] 2 [0, 0]) [0] marked.changed after := by
  obtain ⟨marked, after, applied, -⟩ := applyData_shared
  have collected := oneVar_collected [65] 2 [0, 0] [1, 1] (by decide)
  obtain ⟨-, changes⟩ := @applyData_changes _ _ sharedItems sharedMarks 1 collected (Nat.le_refl 1)
  exact ⟨marked, after, applied, (changes marked after applied).2.1⟩

/-- The bytes that an item is stored in. A string may take everything from its
offset on. -/
def storage (op : IfrOp) (i : Nat) : Prop :=
  match op.opCode with
  | .string => op.varOffset ≤ i
  | .oneOf => op.varOffset ≤ i ∧ i < op.varOffset + numericWidth op
  | .numeric => op.varOffset ≤ i ∧ i < op.varOffset + numericWidth op
  | .checkbox => i = op.varOffset
  | _ => False

/-- Only bytes that changeable items are stored in change. -/
def OnlyChangeable (fuel : Nat) (items : List ItemsSet) (marks : Marks) (tables : VarTables) :
    Prop :=
  ∀ marked after, applyData fuel items marks tables = .ok (marked, after) →
    ∀ p i : Nat, (after.buffer p)[i]? ≠ (tables.buffer p)[i]? →
      ∃ item ∈ itemsOf items, isChangeable item.1.raidItemsType = true ∧ ∃ a,
        searchLsiVarById fuel tables item.2.smcLsiVarId = .ok (some a) ∧
        (tables.node a).raidVarBuffer = some p ∧ storage item.2.lsiItemOp i

/-- The copy is per variable: the informative byte of the submission changes too. -/
theorem not_onlyChangeable_shared :
    Collected (oneVar [65] 2 [0, 0]) [0] sharedMarks.changed ∧
      ¬ OnlyChangeable 1 sharedItems sharedMarks (oneVar [65] 2 [0, 0]) := by
  refine ⟨oneVar_collected [65] 2 [0, 0] [1, 1] (by decide), fun only => ?_⟩
  obtain ⟨marked, after, applied, bytes⟩ := applyData_shared
  have differs : (after.buffer 0)[1]? ≠ ((oneVar [65] 2 [0, 0]).buffer 0)[1]? := by
    rw [bytes]
    decide
  obtain ⟨item, itemIn, changeable, a, -, -, stored⟩ := only marked after applied 0 1 differs
  have listed : itemsOf sharedItems = [(byteItem .changeable 0, ⟨1, 0, ⟨.checkbox, 0, 0, 1, 0, 0, 0,
      0, 0⟩⟩), (byteItem .information 1, ⟨1, 0, ⟨.checkbox, 0, 0, 1, 1, 0, 0, 0, 0⟩⟩)] := rfl
  rw [listed] at itemIn
  rcases List.mem_cons.mp itemIn with rfl | informative
  · exact absurd stored (by simp [storage])
  · obtain rfl := List.mem_singleton.mp informative
    exact absurd changeable (by decide)

end Applying

end SmcPkg.ApplyData
