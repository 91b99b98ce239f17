import SmcPkg.RaidOob.DriveItems

/-!
# Drive numbers from the scan to the commands

What the scan leaves in the sets is the list of recognised questions with their numbers,
sorted by set. The table of the commands is gathered from the sets in another order, but
the numbers are distinct, so that a number leads to the one drive that has it.
-/

namespace SmcPkg.DriveItems

open RaidCmd Card CmdExamine

section Filled

variable {table : ItemsTable} {strings : Strings} {items : List (Nat × ItemsBody)}
  {place : Nat} {body : ItemsBody}

/-- The sets with the items that were put into them so far. -/
def filled (table : ItemsTable) (items : List (Nat × ItemsBody)) : List FilledSet :=
  table.headers.mapIdx (fun place header =>
    ⟨header, (items.filter (fun item => item.1 = place)).map Prod.snd⟩)

/-- The sets have the headers of the table. -/
theorem filled_headers : (filled table items).map FilledSet.itemsHeader = table.headers := by
  apply List.ext_getElem?
  intro i
  rw [List.getElem?_map, filled, List.getElem?_mapIdx]
  cases table.headers[i]? with
  | none => rfl
  | some header => rfl

/-- Each set holds the items of its place, in their order. -/
theorem filled_sets : (filled table items).map FilledSet.itemsSet =
    table.headers.mapIdx (fun place header =>
      (⟨header, (items.filter (fun item => item.1 = place)).map Prod.snd⟩ :
        FilledSet).itemsSet) := by
  apply List.ext_getElem?
  intro i
  rw [List.getElem?_map, filled, List.getElem?_mapIdx, List.getElem?_mapIdx, Option.map_map]
  rfl

/-- One more item is put behind the others of its set. -/
theorem filled_append : filled table (items ++ [(place, body)]) =
    (filled table items).modify place (FilledSet.append body) := by
  apply List.ext_getElem?
  intro i
  rw [List.getElem?_modify, filled, filled, List.getElem?_mapIdx, List.getElem?_mapIdx]
  cases table.headers[i]? with
  | none => rfl
  | some header =>
    by_cases here : place = i
    · simp [here, FilledSet.append]
    · simp [here, List.filter_append]

/-- The first set that a question belongs to does not depend on the items so far. -/
theorem filled_findIdx (form text : String) (op : IfrOp) :
    (filled table items).findIdx? (fun set => belongs form text op set.itemsHeader) =
      table.headers.findIdx? (belongs form text op) := by
  have headers : (filled table items).map FilledSet.itemsHeader = table.headers := filled_headers
  rw [← headers, List.findIdx?_map]
  rfl

/-- The sets with a name of drives are those with a type of drives. -/
theorem filled_namesDrives : namesDrives (filled table items) place = holdsDrives table place := by
  rw [namesDrives, holdsDrives, typeAt, filled, List.getElem?_mapIdx]
  cases found : table.headers[place]? with
  | none => rfl
  | some header =>
    have named := table.named header (List.mem_of_getElem? found)
    exact decide_eq_decide.mpr named

end Filled

section Scanned

variable {table : ItemsTable} {strings : Strings}

/-- The items of recognised questions, with the counter of drives carried along. -/
def numberFrom (table : ItemsTable) : UInt16 → List Recognised → List (Nat × ItemsBody)
  | _, [] => []
  | count, (place, op) :: questions =>
    if holdsDrives table place then
      (place, ⟨0, (count + 1).toNat, op⟩) :: numberFrom table (count + 1) questions
    else (place, ⟨0, 0xFFFF, op⟩) :: numberFrom table count questions

/-- The scan of titled forms fills the sets with the recognised questions. -/
theorem scan_fills {ops : List IfrOp} (titled : Titled strings ops) (form : String)
    (count : UInt16) (items : List (Nat × ItemsBody)) :
    ∃ last counted, ops.foldlM (scanOp strings) ⟨form, count, filled table items⟩ =
      .ok ⟨last, counted, filled table (items ++
        numberFrom table count (recognised table strings form ops))⟩ := by
  induction ops generalizing form count items with
  | nil => exact ⟨form, count, by simp [recognised, numberFrom, pure, Except.pure]⟩
  | cons op ops inductionHypothesis =>
    rw [Titled, List.forall_mem_cons] at titled
    obtain ⟨here, titled⟩ := titled
    rw [List.foldlM_cons, scanOp, recognised]
    by_cases isForm : op.opCode = .form
    · obtain ⟨title, found, short⟩ := here isForm
      simp only [isForm, if_true, found, short, Option.getD_some]
      exact inductionHypothesis titled title count items
    · simp only [isForm, if_false]
      by_cases question : isQuestion op.opCode = true
      · simp only [question, if_true]
        cases found : strings op.prompt with
        | none => exact inductionHypothesis titled form count items
        | some text =>
          simp only [addItem, filled_findIdx, filled_namesDrives, Option.bind_some]
          cases belongsTo : table.headers.findIdx? (belongs form text op) with
          | none => exact inductionHypothesis titled form count items
          | some place =>
            by_cases drives : holdsDrives table place = true
            · simp only [drives, if_true, numberFrom, ← filled_append]
              obtain ⟨last, counted, ran⟩ := inductionHypothesis titled form (count + 1)
                (items ++ [(place, ⟨0, (count + 1).toNat, op⟩)])
              rw [List.append_assoc] at ran
              exact ⟨last, counted, ran⟩
            · simp only [drives, numberFrom, ← filled_append]
              obtain ⟨last, counted, ran⟩ := inductionHypothesis titled form count
                (items ++ [(place, ⟨0, 0xFFFF, op⟩)])
              rw [List.append_assoc] at ran
              exact ⟨last, counted, ran⟩
      · simp only [question]
        exact inductionHypothesis titled form count items

/-- A scan that ends has seen titled forms only. -/
theorem scan_titled {ops : List IfrOp} {state last : ScanState}
    (ran : ops.foldlM (scanOp strings) state = .ok last) : Titled strings ops := by
  induction ops generalizing state with
  | nil => simp [Titled]
  | cons op ops inductionHypothesis =>
    rw [List.foldlM_cons] at ran
    obtain ⟨next, step, rest⟩ := Checked.bind_ok ran
    rw [Titled, List.forall_mem_cons]
    refine ⟨?_, inductionHypothesis rest⟩
    intro isForm
    rw [scanOp, if_pos isForm] at step
    cases found : strings op.prompt with
    | none =>
      rw [found] at step
      cases step
    | some title =>
      simp only [found] at step
      split_ifs at step with short
      exact ⟨title, rfl, short⟩

/-- The numbers leave the questions as they are. -/
theorem numberFrom_questions (count : UInt16) (questions : List Recognised) :
    (numberFrom table count questions).map (fun item => (item.1, item.2.lsiItemOp)) =
      questions := by
  induction questions generalizing count with
  | nil => rfl
  | cons question questions inductionHypothesis =>
    rw [numberFrom]
    split_ifs
    · rw [List.map_cons, inductionHypothesis]
    · rw [List.map_cons, inductionHypothesis]

/-- The numbers have sixteen bits. -/
theorem numberFrom_small (count : UInt16) (questions : List Recognised) :
    ∀ item ∈ numberFrom table count questions, item.2.hdNum ≤ 0xFFFF := by
  induction questions generalizing count with
  | nil => simp [numberFrom]
  | cons question questions inductionHypothesis =>
    rw [numberFrom]
    split_ifs
    · rw [List.forall_mem_cons]
      exact ⟨Nat.le_of_lt_succ (UInt16.toNat_lt _), inductionHypothesis (count + 1)⟩
    · rw [List.forall_mem_cons]
      exact ⟨le_rfl, inductionHypothesis count⟩

/-- As long as the counter does not wrap around, the drives are numbered one by one. -/
theorem numberFrom_numbers (count : UInt16) (questions : List Recognised)
    (few : count.toNat + (driveQuestions table questions).length ≤ 0xFFFF) :
    ((numberFrom table count questions).filter (fun item => holdsDrives table item.1)).map
      (fun item => item.2.hdNum) =
        List.range' (count.toNat + 1) (driveQuestions table questions).length := by
  induction questions generalizing count with
  | nil => rfl
  | cons question questions inductionHypothesis =>
    rw [numberFrom]
    by_cases drives : holdsDrives table question.1 = true
    · have more : driveQuestions table (question :: questions) =
          question :: driveQuestions table questions := List.filter_cons_of_pos drives
      rw [more, List.length_cons] at few ⊢
      have next : (count + 1).toNat = count.toNat + 1 := by
        rw [UInt16.toNat_add]
        change (count.toNat + 1) % 2 ^ 16 = count.toNat + 1
        omega
      have rest := inductionHypothesis (count + 1) (by omega)
      simp only [drives, if_true, List.filter_cons, List.map_cons, rest, next, List.range'_succ]
    · have same : driveQuestions table (question :: questions) =
          driveQuestions table questions := List.filter_cons_of_neg drives
      rw [same] at few ⊢
      have rest := inductionHypothesis count few
      simp only [drives, List.filter_cons, rest, Bool.false_eq_true, if_false]

end Scanned

section Gathered

variable {table : ItemsTable} {strings : Strings} {items : List (Nat × ItemsBody)}

/-- The entry of the drive table for an item. -/
def driveEntry (strings : Strings) (item : ItemsType × ItemsBody) : GroupHdd :=
  ⟨item.2.hdNum, item.1, strings item.2.lsiItemOp.prompt⟩

/-- The items that stand for drives. -/
def driveItems (items : List (ItemsType × ItemsBody)) : List (ItemsType × ItemsBody) :=
  items.filter (fun item => isDriveItem item.1 item.2)

/-- An item with the type of its set. -/
def typed (table : ItemsTable) (item : Nat × ItemsBody) : ItemsType × ItemsBody :=
  (typeAt table item.1, item.2)

/-- The table takes the drives while there is room. -/
theorem gather_entries {gathered : List GroupHdd} {items : List (ItemsType × ItemsBody)}
    (texts : ∀ item ∈ items, (strings item.2.lsiItemOp.prompt).isSome)
    (few : gathered.length + (driveItems items).length ≤ groupHddNumber) :
    items.foldlM (gatherItem strings) gathered =
      .ok (gathered ++ (driveItems items).map (driveEntry strings)) := by
  induction items generalizing gathered with
  | nil => simp [driveItems, pure, Except.pure]
  | cons item items inductionHypothesis =>
    rw [List.forall_mem_cons] at texts
    obtain ⟨text, texts⟩ := texts
    obtain ⟨name, found⟩ := Option.isSome_iff_exists.mp text
    rw [List.foldlM_cons, gatherItem]
    by_cases drive : isDriveItem item.1 item.2 = true
    · have more : driveItems (item :: items) = item :: driveItems items :=
        List.filter_cons_of_pos drive
      rw [more, List.length_cons] at few
      have room : ¬ gathered.length ≥ groupHddNumber := by omega
      simp only [drive, if_true, found, room, if_false]
      have rest := @inductionHypothesis (gathered ++ [⟨item.2.hdNum, item.1, some name⟩]) texts
        (by rw [List.length_append, List.length_singleton]; omega)
      have entry : driveEntry strings item = ⟨item.2.hdNum, item.1, some name⟩ := by
        rw [driveEntry, found]
      rw [List.append_assoc, List.singleton_append] at rest
      rw [more, List.map_cons, entry]
      exact rest
    · have same : driveItems (item :: items) = driveItems items := List.filter_cons_of_neg drive
      rw [same] at few ⊢
      simp only [drive]
      exact inductionHypothesis texts few

/-- A table that was gathered had room for all drives. -/
theorem gather_few {gathered drives : List GroupHdd} {items : List (ItemsType × ItemsBody)}
    (room : gathered.length ≤ groupHddNumber)
    (ran : items.foldlM (gatherItem strings) gathered = .ok drives) :
    gathered.length + (driveItems items).length ≤ groupHddNumber := by
  induction items generalizing gathered with
  | nil => exact room
  | cons item items inductionHypothesis =>
    rw [List.foldlM_cons] at ran
    obtain ⟨next, step, rest⟩ := Checked.bind_ok ran
    rw [gatherItem] at step
    by_cases drive : isDriveItem item.1 item.2 = true
    · have more : driveItems (item :: items) = item :: driveItems items :=
        List.filter_cons_of_pos drive
      rw [if_pos drive] at step
      cases found : strings item.2.lsiItemOp.prompt with
      | none =>
        rw [found] at step
        cases step
      | some name =>
        simp only [found] at step
        split_ifs at step with full
        cases step
        have later := inductionHypothesis
          (by rw [List.length_append, List.length_singleton]; omega) rest
        rw [List.length_append, List.length_singleton] at later
        rw [more, List.length_cons]
        omega
    · have same : driveItems (item :: items) = driveItems items := List.filter_cons_of_neg drive
      rw [if_neg drive] at step
      cases step
      rw [same]
      exact inductionHypothesis room rest

/-- Putting an item into a set adds it to all items. -/
theorem allItems_modify (sets : List FilledSet) (place : Nat) (body : ItemsBody) {set : FilledSet}
    (found : sets[place]? = some set) :
    (allItems ((sets.modify place (FilledSet.append body)).map FilledSet.itemsSet)).Perm
      (allItems (sets.map FilledSet.itemsSet) ++ [(set.itemsHeader.raidItemsType, body)]) := by
  induction sets generalizing place with
  | nil => simp at found
  | cons first sets inductionHypothesis =>
    cases place with
    | zero =>
      obtain rfl : first = set := by simpa using found
      have parts : allItems (((first :: sets).modify 0 (FilledSet.append body)).map
          FilledSet.itemsSet) = first.itemsBody.map
            (fun body => (first.itemsHeader.raidItemsType, body)) ++
              ([(first.itemsHeader.raidItemsType, body)] ++
                allItems (sets.map FilledSet.itemsSet)) := by
        simp [allItems, FilledSet.append, FilledSet.itemsSet]
      have whole : allItems ((first :: sets).map FilledSet.itemsSet) = first.itemsBody.map
          (fun body => (first.itemsHeader.raidItemsType, body)) ++
            allItems (sets.map FilledSet.itemsSet) := rfl
      rw [parts, whole, List.append_assoc]
      exact List.perm_append_comm.append_left _
    | succ place =>
      have rest := inductionHypothesis place (by simpa using found)
      rw [List.modify_succ_cons]
      have split : ∀ sets : List FilledSet, allItems ((first :: sets).map FilledSet.itemsSet) =
          first.itemsBody.map (fun body => (first.itemsHeader.raidItemsType, body)) ++
            allItems (sets.map FilledSet.itemsSet) := fun _ => rfl
      rw [split, split, List.append_assoc]
      exact rest.append_left _

/-- The items of the filled sets, in another order. -/
theorem allItems_filled (inside : ∀ item ∈ items, item.1 < table.headers.length) :
    (allItems ((filled table items).map FilledSet.itemsSet)).Perm (items.map (typed table)) := by
  induction items using List.reverseRecOn with
  | nil =>
    have empty : allItems ((filled table []).map FilledSet.itemsSet) = [] := by
      rw [allItems, List.flatMap_eq_nil_iff]
      intro set member
      obtain ⟨filledSet, inSets, rfl⟩ := List.mem_map.mp member
      rw [filled, List.mem_mapIdx] at inSets
      obtain ⟨i, _, rfl⟩ := inSets
      rfl
    rw [empty]
    exact List.Perm.nil
  | append_singleton items item inductionHypothesis =>
    have here := inside item (by simp)
    have before := inductionHypothesis (fun item member => inside item (by simp [member]))
    have found : (filled table items)[item.1]? = some
        ⟨table.headers[item.1], (items.filter (fun other => other.1 = item.1)).map Prod.snd⟩ := by
      rw [filled, List.getElem?_mapIdx, List.getElem?_eq_getElem here]
      rfl
    have type : typed table item = (table.headers[item.1].raidItemsType, item.2) := by
      rw [typed, typeAt, List.getElem?_eq_getElem here]
    rw [filled_append, List.map_append, List.map_singleton, type]
    exact (allItems_modify _ _ _ found).trans (before.append_right _)

end Gathered

section Resolved

variable {table : ItemsTable} {strings : Strings} {items : List (Nat × ItemsBody)}

/-- In a list with distinct keys an entry is found by its key. -/
theorem find_key {α : Type} {key : α → Nat} {list : List α} {entry : α}
    (distinct : (list.map key).Nodup) (member : entry ∈ list) :
    list.find? (fun other => key other = key entry) = some entry := by
  cases found : list.find? (fun other => key other = key entry) with
  | none => exact absurd (List.find?_eq_none.mp found entry member) (by simp)
  | some other =>
    have same : key other = key entry := by simpa using List.find?_some found
    rw [List.inj_on_of_nodup_map distinct (List.mem_of_find?_eq_some found) member same]

/-- What the numbers of the questions of the sets of drives say. -/
structure DriveNumbers (table : ItemsTable) (questions : List Recognised)
    (items : List (Nat × ItemsBody)) : Prop where
  questions_eq : items.map (fun item => (item.1, item.2.lsiItemOp)) = questions
  numbers : (items.filter (fun item => holdsDrives table item.1)).map (fun item => item.2.hdNum) =
    List.range' 1 (driveQuestions table questions).length

variable {questions : List Recognised}

/-- The drives are the questions that stand for one. -/
theorem DriveNumbers.drives (numbers : DriveNumbers table questions items) :
    (items.filter (fun item => holdsDrives table item.1)).map
      (fun item => (item.1, item.2.lsiItemOp)) = driveQuestions table questions := by
  rw [← numbers.questions_eq, driveQuestions, List.filter_map]
  rfl

/-- An item is one of a drive exactly if its set holds drives and its question stands for one.
-/
theorem isDriveItem_typed (item : Nat × ItemsBody) :
    isDriveItem (typed table item).1 (typed table item).2 =
      (holdsDrives table item.1 && standsForDrive (item.1, item.2.lsiItemOp)) := by
  rw [isDriveItem, typed, holdsDrives, standsForDrive, Bool.and_comm]
  simp [driveTypes, Bool.or_assoc]

/-- The drive with a number is the question at that place among those of the sets of drives. -/
theorem DriveNumbers.at (numbers : DriveNumbers table questions items) {item : Nat × ItemsBody}
    (member : item ∈ items) (drives : holdsDrives table item.1 = true)
    (stands : standsForDrive (item.1, item.2.lsiItemOp) = true) :
    driveNumbered table questions item.2.hdNum = some (item.1, item.2.lsiItemOp) := by
  obtain ⟨place, inside, same⟩ := List.mem_iff_getElem.mp
    (List.mem_filter.mpr ⟨member, drives⟩ : item ∈ items.filter (fun item =>
      holdsDrives table item.1))
  have sizes : (items.filter (fun item => holdsDrives table item.1)).length =
      (driveQuestions table questions).length := by
    rw [← numbers.drives, List.length_map]
  have number : item.2.hdNum = place + 1 := by
    have listed := List.getElem_of_eq numbers.numbers (by rw [List.length_map]; exact inside)
    rw [List.getElem_map, same, List.getElem_range'] at listed
    omega
  have question : (driveQuestions table questions)[place]? = some (item.1, item.2.lsiItemOp) := by
    rw [← numbers.drives, List.getElem?_map, List.getElem?_eq_getElem inside, same]
    rfl
  rw [driveNumbered, number, if_neg (by omega), Nat.add_sub_cancel, question,
    Option.filter_some_pos stands]

/-- A number of a drive is the number of one of the items. -/
theorem DriveNumbers.of_numbered (numbers : DriveNumbers table questions items) {number : Nat}
    {question : Recognised} (numbered : driveNumbered table questions number = some question) :
    ∃ item ∈ items, holdsDrives table item.1 = true ∧ item.2.hdNum = number ∧
      (item.1, item.2.lsiItemOp) = question ∧ standsForDrive question = true := by
  rw [driveNumbered] at numbered
  split_ifs at numbered with zero
  obtain ⟨found, stands⟩ := Option.filter_eq_some_iff.mp numbered
  rw [← numbers.drives, List.getElem?_map, Option.map_eq_some_iff] at found
  obtain ⟨item, atPlace, same⟩ := found
  obtain ⟨member, drives⟩ := List.mem_filter.mp (List.mem_of_getElem? atPlace)
  refine ⟨item, member, drives, ?_, same, stands⟩
  have listed := congrArg (fun list => list[number - 1]?) numbers.numbers
  simp only [List.getElem?_map, atPlace, Option.map_some] at listed
  have value := List.getElem?_eq_some_iff.mp listed.symm
  obtain ⟨inside, value⟩ := value
  rw [List.getElem_range'] at value
  omega

/-- The table names every drive by its number. -/
theorem resolveHdd_eq (numbers : DriveNumbers table questions items) {drives : List GroupHdd}
    (gathered : drives.Perm ((driveItems (items.map (typed table))).map (driveEntry strings)))
    (type : ItemsType) (drive : GroupHdd) :
    resolveHdd drives type drive = nameDrive table strings questions type drive := by
  have entries : ∀ entry, entry ∈ drives ↔ ∃ item ∈ items, holdsDrives table item.1 = true ∧
      standsForDrive (item.1, item.2.lsiItemOp) = true ∧
        driveEntry strings (typed table item) = entry := by
    intro entry
    rw [gathered.mem_iff, List.mem_map]
    constructor
    · rintro ⟨typedItem, member, rfl⟩
      obtain ⟨inside, isDrive⟩ := List.mem_filter.mp member
      obtain ⟨item, inItems, rfl⟩ := List.mem_map.mp inside
      rw [isDriveItem_typed, Bool.and_eq_true] at isDrive
      exact ⟨item, inItems, isDrive.1, isDrive.2, rfl⟩
    · rintro ⟨item, member, holds, stands, rfl⟩
      refine ⟨typed table item, List.mem_filter.mpr ⟨List.mem_map_of_mem member, ?_⟩, rfl⟩
      rw [isDriveItem_typed, holds, stands, Bool.and_self]
  have distinct : (drives.map GroupHdd.hdNum).Nodup := by
    rw [(gathered.map GroupHdd.hdNum).nodup_iff, List.map_map]
    have part : ((driveItems (items.map (typed table))).map
        (GroupHdd.hdNum ∘ driveEntry strings)).Sublist
          ((items.filter (fun item => holdsDrives table item.1)).map
            (fun item => item.2.hdNum)) := by
      rw [driveItems, List.filter_map, List.map_map]
      have weaker : items.filter ((fun item => isDriveItem item.1 item.2) ∘ typed table) =
          (items.filter (fun item => holdsDrives table item.1)).filter
            (fun item => standsForDrive (item.1, item.2.lsiItemOp)) := by
        rw [List.filter_filter]
        apply List.filter_congr
        intro item _
        rw [Function.comp_apply, isDriveItem_typed, Bool.and_comm]
      rw [weaker]
      exact List.filter_sublist.map _
    exact part.nodup (numbers.numbers ▸ List.nodup_range')
  rw [resolveHdd, nameDrive]
  cases numbered : driveNumbered table questions drive.hdNum with
  | some question =>
    obtain ⟨item, member, holds, number, rfl, stands⟩ := numbers.of_numbered numbered
    have found := find_key distinct ((entries _).mpr ⟨item, member, holds, stands, rfl⟩)
    have key : (driveEntry strings (typed table item)).hdNum = drive.hdNum := number
    rw [key] at found
    rw [found]
    change (⟨drive.hdNum, if type = typeAt table item.1 then type else .null,
      strings item.2.lsiItemOp.prompt⟩ : GroupHdd) = ⟨drive.hdNum,
        if typeAt table item.1 = type then type else .null, strings item.2.lsiItemOp.prompt⟩
    simp only [eq_comm]
  | none =>
    have absent : drives.find? (fun entry => entry.hdNum = drive.hdNum) = none := by
      rw [List.find?_eq_none]
      intro entry member same
      obtain ⟨item, inItems, holds, stands, rfl⟩ := (entries entry).mp member
      have number : item.2.hdNum = drive.hdNum := of_decide_eq_true same
      have found := numbers.at inItems holds stands
      rw [number, numbered] at found
      cases found
    rw [absent]

end Resolved

section Consistency

variable {table : ItemsTable} {strings : Strings}

/-- A recognised question is in a set of the card and has a text. -/
theorem recognised_mem (form : String) (ops : List IfrOp) :
    ∀ question ∈ recognised table strings form ops,
      question.1 < table.headers.length ∧ (strings question.2.prompt).isSome = true := by
  induction ops generalizing form with
  | nil => exact fun _ member => nomatch member
  | cons op ops inductionHypothesis =>
    rw [recognised]
    by_cases isForm : op.opCode = .form
    · rw [if_pos isForm]
      exact inductionHypothesis _
    · rw [if_neg isForm]
      by_cases question : isQuestion op.opCode = true
      · simp only [question, if_true]
        cases found : strings op.prompt with
        | none => exact inductionHypothesis form
        | some text =>
          rw [Option.bind_some]
          cases belongsTo : table.headers.findIdx? (belongs form text op) with
          | none => exact inductionHypothesis form
          | some place =>
            obtain ⟨inside, -, -⟩ := List.findIdx?_eq_some_iff_getElem.mp belongsTo
            rw [List.forall_mem_cons]
            exact ⟨⟨inside, by rw [found]; rfl⟩, inductionHypothesis form⟩
      · simp only [question]
        exact inductionHypothesis form

/-- What holds of the recognised questions holds of the items. -/
theorem numberFrom_mem {questions : List Recognised} {P : Nat → IfrOp → Prop} (count : UInt16)
    (all : ∀ question ∈ questions, P question.1 question.2) :
    ∀ item ∈ numberFrom table count questions, P item.1 item.2.lsiItemOp := by
  intro item member
  have question : (item.1, item.2.lsiItemOp) ∈ questions := by
    rw [← @numberFrom_questions table count questions]
    exact List.mem_map_of_mem member
  exact all _ question

/-- The items are as many drives as there are questions that stand for one. -/
theorem driveItems_length {questions : List Recognised} {items : List (Nat × ItemsBody)}
    (same : items.map (fun item => (item.1, item.2.lsiItemOp)) = questions) :
    (driveItems (items.map (typed table))).length =
      ((driveQuestions table questions).filter standsForDrive).length := by
  have drives : (fun item => isDriveItem item.1 item.2) ∘ typed table =
      (fun question => standsForDrive question && holdsDrives table question.1) ∘
        fun item : Nat × ItemsBody => (item.1, item.2.lsiItemOp) := by
    funext item
    rw [Function.comp_apply, isDriveItem_typed, Bool.and_comm]
    rfl
  rw [driveItems, driveQuestions, List.filter_filter, ← same, List.filter_map, List.filter_map,
    List.length_map, List.length_map, drives]

/-- The scan puts items into the sets and leaves nothing else there. -/
theorem scanned (before : String) (ops : List IfrOp) (titled : Titled strings ops) :
    collectInformationItems table strings before ops =
      .ok ((filled table (numberFrom table 0 (recognised table strings before ops))).map
        FilledSet.itemsSet) := by
  have empty : table.headers.map (fun header => (⟨header, []⟩ : FilledSet)) = filled table [] := by
    rw [filled]
    apply List.ext_getElem?
    intro i
    rw [List.getElem?_map, List.getElem?_mapIdx]
    rfl
  obtain ⟨last, counted, ran⟩ := @scan_fills table strings ops titled before 0 []
  rw [collectInformationItems, empty, ran]
  rfl

/-- A scan that ends has titled forms. -/
theorem titled_of_scanned {before : String} {ops : List IfrOp} {sets : List ItemsSet}
    (ran : collectInformationItems table strings before ops = .ok sets) : Titled strings ops := by
  rw [collectInformationItems] at ran
  obtain ⟨state, scanned, -⟩ := Checked.bind_ok ran
  exact scan_titled scanned

/-- A command by the table of drives. -/
theorem resolveCmd_eq {questions : List Recognised} {items : List (Nat × ItemsBody)}
    (numbers : DriveNumbers table questions items) {drives : List GroupHdd}
    (gathered : drives.Perm ((driveItems (items.map (typed table))).map (driveEntry strings)))
    (cmd : CmdSet) : resolveCmd drives cmd = nameDrives table strings questions cmd := by
  rw [resolveCmd, nameDrives]
  congr 1
  apply List.map_congr_left
  intro part _
  cases part with
  | group hdds =>
    exact congrArg CmdSection.group (List.map_congr_left fun drive _ =>
      resolveHdd_eq numbers gathered _ drive)
  | _ => rfl

/-- With the numbers one by one and room in the table, the commands get the names. -/
theorem collect_names {questions : List Recognised} {items : List (Nat × ItemsBody)}
    (numbers : DriveNumbers table questions items)
    (inside : ∀ item ∈ items, item.1 < table.headers.length)
    (texts : ∀ item ∈ items, (strings item.2.lsiItemOp.prompt).isSome = true)
    (few : ((driveQuestions table questions).filter standsForDrive).length ≤ groupHddNumber)
    (commands : List CmdSet) :
    collectCfgCmdData strings ((filled table items).map FilledSet.itemsSet) commands =
      .ok (commands.map (nameDrives table strings questions)) := by
  have order := @allItems_filled table _ inside
  by_cases empty : commands = []
  · rw [empty]
    rfl
  · have gathered := @gather_entries strings []
      (allItems ((filled table items).map FilledSet.itemsSet)) ?_ ?_
    · rw [collectCfgCmdData, if_neg empty, gatherDrives, gathered, List.nil_append]
      change Except.ok (commands.map (resolveCmd _)) = _
      have named : resolveCmd ((driveItems (allItems ((filled table items).map
          FilledSet.itemsSet))).map (driveEntry strings)) = nameDrives table strings questions := by
        funext cmd
        exact resolveCmd_eq numbers ((order.filter _).map _) cmd
      rw [named]
    · intro item member
      obtain ⟨source, inItems, rfl⟩ := List.mem_map.mp (order.mem_iff.mp member)
      exact texts source inItems
    · rw [List.length_nil, Nat.zero_add, driveItems, (order.filter _).length_eq]
      exact (driveItems_length numbers.questions_eq).trans_le few

/-- Where the drives are numbered one by one, there are no more than the counter can count. -/
theorem counted_of_numbered {questions : List Recognised}
    {items other : List (Nat × ItemsBody)} (small : ∀ item ∈ items, item.2.hdNum ≤ 0xFFFF)
    (numbers : DriveNumbers table questions other)
    (inside : ∀ item ∈ other, item.1 < table.headers.length)
    (same : (filled table items).map FilledSet.itemsSet =
      (filled table other).map FilledSet.itemsSet) :
    (driveQuestions table questions).length ≤ 0xFFFF := by
  by_contra many
  have last : (driveQuestions table questions).length ∈
      (other.filter (fun item => holdsDrives table item.1)).map (fun item => item.2.hdNum) := by
    rw [numbers.numbers, List.mem_range'_1]
    omega
  obtain ⟨item, member, number⟩ := List.mem_map.mp last
  have inItems := (List.mem_filter.mp member).1
  have below := inside item inItems
  -- The item lies in a set, and the same set of the scan holds it.
  have body : item.2 ∈ (items.filter (fun other => other.1 = item.1)).map Prod.snd := by
    have sets := congrArg (fun sets => (sets[item.1]?).map ItemsSet.itemsBody) same
    simp only [List.getElem?_map, filled, List.getElem?_mapIdx, List.getElem?_eq_getElem below,
      Option.map_some, FilledSet.itemsSet, Option.some.injEq] at sets
    rw [sets]
    exact List.mem_map_of_mem (List.mem_filter.mpr ⟨inItems, by simp⟩)
  obtain ⟨found, inFiltered, equal⟩ := List.mem_map.mp body
  have bound := small found (List.mem_filter.mp inFiltered).1
  rw [equal, number] at bound
  exact many bound

/-- Where a command is resolved, the table had room for the drives. -/
theorem room_of_collected {before : String} {ops : List IfrOp} {sets : List ItemsSet}
    {commands : List CmdSet} (ran : collectInformationItems table strings before ops = .ok sets)
    (resolved : collectCfgCmdData strings sets [⟨[], [], true⟩] = .ok commands) :
    ((driveQuestions table (recognised table strings before ops)).filter standsForDrive).length ≤
      groupHddNumber := by
  have inside : ∀ item ∈ numberFrom table 0 (recognised table strings before ops),
      item.1 < table.headers.length :=
    numberFrom_mem (P := fun place _ => place < table.headers.length) 0
      fun question member => (recognised_mem before ops question member).1
  rw [scanned before ops (titled_of_scanned ran)] at ran
  rw [collectCfgCmdData, if_neg (List.cons_ne_nil _ _)] at resolved
  obtain ⟨drives, gathered, -⟩ := Checked.bind_ok resolved
  rw [gatherDrives, ← Except.ok.inj ran] at gathered
  have few := gather_few (Nat.zero_le _) gathered
  have order := @allItems_filled table _ inside
  rw [List.length_nil, Nat.zero_add, driveItems, (order.filter _).length_eq] at few
  exact (driveItems_length (numberFrom_questions 0 _)).symm.trans_le few

/-- The drives are numbered and named consistently exactly when every form has a title that
    fits, the counter can count the questions of the sets of drives, and the table has room for
    the references and checkboxes among them. -/
theorem consistent_iff (table : ItemsTable) (strings : Strings) (before : String)
    (ops : List IfrOp) :
    Consistent table strings before ops ↔
      Titled strings ops ∧
      (driveQuestions table (recognised table strings before ops)).length ≤ 0xFFFF ∧
      ((driveQuestions table (recognised table strings before ops)).filter standsForDrive).length ≤
        groupHddNumber := by
  let questions := recognised table strings before ops
  let items := numberFrom table 0 questions
  have known := @recognised_mem table strings before ops
  have inside : ∀ item ∈ items, item.1 < table.headers.length :=
    numberFrom_mem (P := fun place _ => place < table.headers.length) 0
      fun question member => (known question member).1
  have texts : ∀ item ∈ items, (strings item.2.lsiItemOp.prompt).isSome = true :=
    numberFrom_mem (P := fun _ op => (strings op.prompt).isSome = true) 0
      fun question member => (known question member).2
  have same : items.map (fun item => (item.1, item.2.lsiItemOp)) = questions :=
    numberFrom_questions 0 questions
  constructor
  · rintro ⟨sets, ran, ⟨other, otherSame, setsEq, otherNumbers⟩, resolved⟩
    have titled := titled_of_scanned ran
    rw [scanned before ops titled] at ran
    have filledSets := Except.ok.inj ran
    refine ⟨titled, ?_, ?_⟩
    · have otherFilled : sets = (filled table other).map FilledSet.itemsSet := by
        rw [setsEq, filled_sets]
      have otherInside : ∀ item ∈ other, item.1 < table.headers.length := by
        intro item member
        have question := List.mem_map_of_mem (f := fun item : Nat × ItemsBody =>
          (item.1, item.2.lsiItemOp)) member
        rw [otherSame] at question
        exact (known _ question).1
      exact counted_of_numbered (numberFrom_small 0 questions) ⟨otherSame, otherNumbers⟩ otherInside
        (filledSets.trans otherFilled)
    · exact room_of_collected (by rw [scanned before ops titled, filledSets]) (resolved _)
  · rintro ⟨titled, counted, few⟩
    have numbers : DriveNumbers table questions items := by
      refine ⟨same, ?_⟩
      have listed := @numberFrom_numbers table 0 questions
        (by rw [UInt16.toNat_zero, Nat.zero_add]; exact counted)
      rw [UInt16.toNat_zero, Nat.zero_add] at listed
      exact listed
    refine ⟨_, scanned before ops titled, ⟨items, same, ?_, numbers.numbers⟩, ?_⟩
    · exact filled_sets
    · exact collect_names numbers inside texts few

/-- A form of an RSTe card with 129 drives. -/
def crowdedForm : List IfrOp :=
  ⟨.form, 0, 0, 0, 0, 0, 0, 0, 0⟩ :: List.replicate 129 ⟨.checkbox, 1, 0, 0, 0, 0, 0, 0, 0⟩

/-- The texts of that form. -/
def crowdedStrings : Strings := fun id =>
  some (if id = 0 then "Intel(R) RSTe" else "HARD DRIVES GROUP")

/-- With 129 drives the table overflows. -/
theorem not_consistent_crowded :
    ¬ ∀ (table : ItemsTable) (strings : Strings) (before : String) (ops : List IfrOp),
      Consistent table strings before ops := by
  intro always
  obtain ⟨sets, ran, -, resolved⟩ := always (itemsTable .raidRste) crowdedStrings "" crowdedForm
  have few := room_of_collected ran (resolved _)
  revert few
  decide +kernel

end Consistency

end SmcPkg.DriveItems
