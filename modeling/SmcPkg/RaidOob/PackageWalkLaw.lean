import SmcPkg.RaidOob.PackageWalk

/-!
# When the walks over a package list are safe

What a walk reads of an opcode depends on what it is told, but no more than the fields of
the opcode's kind, and told the best it reads them all. So the walks are safe exactly on
the lists that are well formed.
-/

namespace SmcPkg.PackageWalk

open Bytes SetupForms ReadRuns Walks

variable {list : Memory}

section Packages

/-- A package is followed by the next one at its length. -/
theorem packagePlace_succ (n : Nat) :
    packagePlace list (n + 1) = packagePlace list n + packageLengthAt list (packagePlace list n) :=
  rfl

/-- The places of the packages grow. -/
theorem packagePlace_mono {m n : Nat} (upTo : m ≤ n) : packagePlace list m ≤ packagePlace list n :=
  element_mono _ _ upTo

/-- The package that the loop returns is the first one with forms. -/
theorem firstForms_of_formsFrom {rounds k package : Nat}
    (before : ∀ m < k, packageTypeAt list (packagePlace list m) ≠ packageForms)
    (found : formsFrom list rounds (packagePlace list k) = some package) :
    FirstForms list package := by
  induction rounds generalizing k with
  | zero => cases found
  | succ rounds inductionHypothesis =>
    rw [formsFrom] at found
    by_cases inside : packagePlace list k < packageListLength list
    · rw [if_pos inside] at found
      by_cases forms : packageTypeAt list (packagePlace list k) = packageForms
      · rw [if_pos forms] at found
        obtain rfl := Option.some.inj found
        exact ⟨k, rfl, before, inside, forms⟩
      · rw [if_neg forms, ← packagePlace_succ] at found
        refine inductionHypothesis (fun m below => ?_) found
        rcases Nat.lt_succ_iff_lt_or_eq.mp below with earlier | rfl
        · exact before m earlier
        · exact forms
    · rw [if_neg inside] at found
      cases found

/-- The loop returns the first package with forms. -/
theorem formsFrom_of_firstForms {package : Nat} (first : FirstForms list package) :
    ∃ rounds, formsFrom list rounds listHeaderSize = some package := by
  obtain ⟨n, rfl, before, inside, forms⟩ := first
  have back (count : Nat) (upTo : count ≤ n) :
      formsFrom list (count + 1) (packagePlace list (n - count)) = some (packagePlace list n) := by
    induction count with
    | zero => rw [Nat.sub_zero, formsFrom, if_pos inside, if_pos forms]
    | succ count inductionHypothesis =>
      have below : packagePlace list (n - (count + 1)) < packageListLength list :=
        (packagePlace_mono (Nat.sub_le n (count + 1))).trans_lt inside
      have following : n - (count + 1) + 1 = n - count := by omega
      rw [formsFrom, if_pos below, if_neg (before _ (by omega)), ← packagePlace_succ, following]
      exact inductionHypothesis (by omega)
  have whole := back n le_rfl
  rw [Nat.sub_self] at whole
  exact ⟨n + 1, whole⟩

/-- The walk over the packages. -/
theorem packageWalk_safe :
    (packageWalk list).loop.Safe (packageListLength list) (0, listHeaderSize) ↔
      ∀ n, (∀ m < n, packageTypeAt list (packagePlace list m) ≠ packageForms) →
        packagePlace list n < packageListLength list →
        packagePlace list n + packageHeaderSize ≤ packageListLength list ∧
        (packageTypeAt list (packagePlace list n) ≠ packageForms →
          0 < packageLengthAt list (packagePlace list n)) := by
  rw [Walk.safe_iff (fun _ _ => rfl)]
  simp only [packageWalk, decide_eq_false_iff_not, List.mem_singleton, forall_eq, Extent.Within]
  rfl

end Packages

section Fields

variable {place : Nat}

/-- Every opcode has its two bytes. -/
theorem two_le_fieldsLength : 2 ≤ fieldsLength list place := by
  rw [fieldsLength]
  split_ifs <;> omega

/-- The fields of a FORM. -/
theorem fieldsLength_form (code : list place = ifrFormOp) : fieldsLength list place = 6 :=
  if_pos code

/-- The fields of a ONE_OF or NUMERIC, up to the flags. -/
theorem fieldsLength_number (code : list place = ifrOneOfOp ∨ list place = ifrNumericOp) :
    fieldsLength list place = 14 := by
  rw [fieldsLength]
  rcases code with code | code <;> rw [code] <;> rfl

/-- The fields of a CHECKBOX. -/
theorem fieldsLength_checkBox (code : list place = ifrCheckBoxOp) :
    fieldsLength list place = 12 := by
  rw [fieldsLength, code]
  rfl

/-- The fields of a REF, up to the number of the form. -/
theorem fieldsLength_ref (code : list place = ifrRefOp) : fieldsLength list place = 15 := by
  rw [fieldsLength, code]
  rfl

/-- The fields of a STRING or an ACTION, up to the number of the question. -/
theorem fieldsLength_text (code : list place = ifrStringOp ∨ list place = ifrActionOp) :
    fieldsLength list place = 8 := by
  rw [fieldsLength]
  rcases code with code | code <;> rw [code] <;> rfl

/-- The fields of a VARSTORE, up to the end of its name. -/
theorem fieldsLength_varStore (code : list place = ifrVarStoreOp) :
    fieldsLength list place =
      23 + textLength list (packageListLength list + 1) (place + 22) := by
  rw [fieldsLength, code]
  rfl

/-- A question has at least its prompt and its id. -/
theorem fieldsLength_question
    (code : list place ∈ [ifrStringOp, ifrOneOfOp, ifrNumericOp, ifrCheckBoxOp, ifrRefOp,
      ifrActionOp]) : 8 ≤ fieldsLength list place := by
  simp only [List.mem_cons, List.not_mem_nil, or_false] at code
  rcases code with code | code | code | code | code | code
  · exact (fieldsLength_text (Or.inl code)).ge
  · rw [fieldsLength_number (Or.inl code)]
    decide
  · rw [fieldsLength_number (Or.inr code)]
    decide
  · rw [fieldsLength_checkBox code]
    decide
  · rw [fieldsLength_ref code]
    decide
  · exact (fieldsLength_text (Or.inr code)).ge

end Fields

section Visits

variable {place limit : Nat} (answer : Answer)

/-- The walk that fills the table of the questions reads fields of their kind only. -/
theorem initialItemsQIdTable_inside (fits : place + fieldsLength list place ≤ limit) :
    ∀ extent ∈ (initialItemsQIdTable answer (list place) place).1, extent.Within limit := by
  rw [initialItemsQIdTable]
  split
  · rename_i code
    have question : 12 ≤ fieldsLength list place := by
      rcases code with code | code | code
      · rw [fieldsLength_number (Or.inl code)]
        decide
      · rw [fieldsLength_number (Or.inr code)]
        decide
      · exact (fieldsLength_checkBox code).ge
    split
    · intro extent member
      rcases List.mem_append.mp member with member | member
      · simp only [List.mem_cons, List.not_mem_nil, or_false] at member
        rcases member with rfl | rfl | rfl | rfl | rfl <;>
          simp only [Extent.Within, questionId, prompt, opCodeField, varStoreId, varOffset] <;> omega
      · split at member
        · cases member
        · rename_i noCheckBox
          have number : fieldsLength list place = 14 :=
            fieldsLength_number (code.imp_right (fun code => code.resolve_right noCheckBox))
          obtain rfl := List.mem_singleton.mp member
          simp only [Extent.Within, numericFlags]
          omega
    · intro extent member
      obtain rfl := List.mem_singleton.mp member
      simp only [Extent.Within, questionId]
      omega
  · simp

/-- The walk over the forms reads fields of their kind only. -/
theorem collectInformationForm_inside (fits : place + fieldsLength list place ≤ limit) :
    ∀ extent ∈ (collectInformationForm list answer (list place) place).1,
      extent.Within limit := by
  rw [collectInformationForm]
  split
  · rename_i code
    have question := fieldsLength_ref code
    have first : (prompt place).Within limit := by
      simp only [Extent.Within, prompt]
      omega
    split
    · rw [List.forall_mem_cons]
      refine ⟨first, ?_⟩
      split
      · intro extent member
        simp only [List.mem_cons, List.not_mem_nil, or_false] at member
        rcases member with rfl | rfl | rfl | rfl | rfl <;>
          simp only [Extent.Within, refFormId, questionId, varStoreId, varOffset,
            questionFlags] <;> omega
      · simp
    · rw [List.forall_mem_singleton]
      exact first
  · split
    · rename_i code
      have whole := fieldsLength_varStore code
      intro extent member
      simp only [varStoreFields, List.mem_cons, List.not_mem_nil, or_false] at member
      rcases member with rfl | rfl | rfl | rfl <;>
        simp only [Extent.Within, varStoreName] <;> omega
    · simp

/-- The title of a form. -/
theorem formTitle_inside (code : list place = ifrFormOp)
    (fits : place + fieldsLength list place ≤ limit) : (formTitle place).Within limit := by
  have form := fieldsLength_form code
  simp only [Extent.Within, formTitle]
  omega

/-- The text and the id of a question. -/
theorem question_inside {placeOf : Nat → Extent}
    (code : list place ∈ [ifrStringOp, ifrOneOfOp, ifrNumericOp, ifrCheckBoxOp, ifrRefOp,
      ifrActionOp]) (fits : place + fieldsLength list place ≤ limit)
    (either : placeOf = prompt ∨ placeOf = questionId) : (placeOf place).Within limit := by
  have question := fieldsLength_question code
  rcases either with rfl | rfl <;> simp only [Extent.Within, prompt, questionId] <;> omega

/-- The walk over the items of information reads fields of their kind only. -/
theorem collectInformationItems_inside (fits : place + fieldsLength list place ≤ limit) :
    ∀ extent ∈ (collectInformationItems answer (list place) place).1, extent.Within limit := by
  rw [collectInformationItems]
  split
  · rename_i code
    rw [List.forall_mem_singleton]
    exact formTitle_inside code fits
  · split
    · rename_i code
      have question : list place ∈ [ifrStringOp, ifrOneOfOp, ifrNumericOp, ifrCheckBoxOp, ifrRefOp,
          ifrActionOp] := by
        simp only [List.mem_cons, List.not_mem_nil, or_false]
        tauto
      rw [List.forall_mem_cons]
      refine ⟨question_inside question fits (Or.inl rfl), ?_⟩
      split
      · rw [List.forall_mem_singleton]
        exact question_inside question fits (Or.inr rfl)
      · simp
    · simp

/-- The walk over the questions that can be changed reads fields of their kind only. -/
theorem collectInformationChRec_inside (fits : place + fieldsLength list place ≤ limit) :
    ∀ extent ∈ (collectInformationChRec answer (list place) place).1, extent.Within limit := by
  rw [collectInformationChRec]
  split
  · rename_i code
    rw [List.forall_mem_singleton]
    exact formTitle_inside code fits
  · split
    · rename_i code
      have question := fieldsLength_ref code
      rw [List.forall_mem_cons]
      constructor
      · simp only [Extent.Within, prompt]
        omega
      · split
        · intro extent member
          simp only [List.mem_cons, List.not_mem_nil, or_false] at member
          rcases member with rfl | rfl | rfl <;>
            simp only [Extent.Within, opCodeField, questionId, varStoreId] <;> omega
        · simp
    · simp

/-- The search for an item reads fields of their kind only, for each opcode that it is called
with. -/
theorem getTargetItemOpHeader_inside {target : UInt8} (known : target ∈ targetOpCodes)
    (fits : place + fieldsLength list place ≤ limit) :
    ∀ extent ∈ (getTargetItemOpHeader target answer (list place) place).1,
      extent.Within limit := by
  rw [getTargetItemOpHeader, List.forall_mem_append]
  constructor
  · split
    · rename_i code
      have form := fieldsLength_form code
      rw [List.forall_mem_cons, List.forall_mem_singleton]
      refine ⟨formTitle_inside code fits, ?_⟩
      simp only [Extent.Within, formId]
      omega
    · simp
  · split
    · rename_i code
      have question : list place ∈ [ifrStringOp, ifrOneOfOp, ifrNumericOp, ifrCheckBoxOp, ifrRefOp,
          ifrActionOp] := by
        rw [code]
        revert known
        simp only [targetOpCodes, List.mem_cons, List.not_mem_nil, or_false]
        tauto
      rw [List.forall_mem_cons]
      refine ⟨question_inside question fits (Or.inl rfl), ?_⟩
      split
      · rw [List.forall_mem_singleton]
        exact question_inside question fits (Or.inr rfl)
      · simp
    · simp

/-- The walks, one by one. -/
theorem forall_visits {holds : Visit → Prop} :
    (∀ visit ∈ visits list, holds visit) ↔
      holds initialItemsQIdTable ∧ holds (collectInformationForm list) ∧
        holds collectInformationItems ∧ holds collectInformationChRec ∧
        ∀ target ∈ targetOpCodes, holds (getTargetItemOpHeader target) := by
  rw [visits, List.forall_mem_append, List.forall_mem_map]
  simp only [List.forall_mem_cons, List.not_mem_nil, false_implies, implies_true, and_true,
    and_assoc]

/-- Whatever it is told, a walk reads no more of an opcode than its fields. -/
theorem visit_inside (fits : place + fieldsLength list place ≤ limit) :
    ∀ visit ∈ visits list, ∀ extent ∈ (visit answer (list place) place).1,
      extent.Within limit :=
  forall_visits.mpr ⟨initialItemsQIdTable_inside answer fits,
    collectInformationForm_inside answer fits, collectInformationItems_inside answer fits,
    collectInformationChRec_inside answer fits,
    fun _ known => getTargetItemOpHeader_inside answer known fits⟩

/-- The answers under which everything is read. -/
def granted : Answer := ⟨true, true, true⟩

/-- Told the best, no walk is left at an opcode. -/
theorem visit_granted (code : UInt8) :
    ∀ visit ∈ visits list, (visit granted code place).2 = false := by
  refine forall_visits.mpr ⟨?_, ?_, ?_, ?_, fun target known => rfl⟩
  · rw [initialItemsQIdTable]
    split <;> rfl
  · rw [collectInformationForm]
    split
    · rfl
    · split <;> rfl
  · rw [collectInformationItems]
    split
    · rfl
    · split <;> rfl
  · rw [collectInformationChRec]
    split
    · rfl
    · split <;> rfl

/-- Told the best, the walks read all fields of an opcode. -/
theorem fields_of_granted (header : place + 2 ≤ limit)
    (inside : ∀ visit ∈ visits list, ∀ extent ∈ (visit granted (list place) place).1,
      extent.Within limit) :
    place + fieldsLength list place ≤ limit := by
  obtain ⟨questions, forms, items, -, targets⟩ := forall_visits.mp inside
  by_cases form : list place = ifrFormOp
  · have last := items (formTitle place) (by simp [collectInformationItems, form])
    rw [fieldsLength_form form]
    exact last
  by_cases number : list place = ifrOneOfOp ∨ list place = ifrNumericOp
  · have noCheckBox : list place ≠ ifrCheckBoxOp := by
      rcases number with code | code <;> rw [code] <;> decide
    have last := questions (numericFlags place)
      (by simp [initialItemsQIdTable, number, noCheckBox, granted])
    rw [fieldsLength_number number]
    exact last
  by_cases checkBox : list place = ifrCheckBoxOp
  · have last := questions (varOffset place) (by simp [initialItemsQIdTable, checkBox, granted])
    rw [fieldsLength_checkBox checkBox]
    exact last
  by_cases ref : list place = ifrRefOp
  · have last := forms (refFormId place) (by simp [collectInformationForm, ref, granted])
    rw [fieldsLength_ref ref]
    exact last
  by_cases text : list place = ifrStringOp ∨ list place = ifrActionOp
  · have known : list place ∈ targetOpCodes := by
      rcases text with code | code <;> rw [code] <;> decide
    have last := targets (list place) known (questionId place)
      (by simp [getTargetItemOpHeader, granted])
    rw [fieldsLength_text text]
    exact last
  by_cases varStore : list place = ifrVarStoreOp
  · have last := forms (varStoreName place list)
      (by
        rw [collectInformationForm, if_neg ref, if_pos varStore]
        simp [varStoreFields])
    rw [fieldsLength_varStore varStore]
    simp only [Extent.Within, varStoreName] at last
    omega
  · rw [fieldsLength, if_neg form, if_neg number, if_neg checkBox, if_neg ref, if_neg text,
      if_neg varStore]
    exact header

end Visits

section Opcodes

variable {package limit : Nat}

/-- The walks over the opcodes of a package, whatever they are told. -/
theorem opcodeWalks_safe :
    (∀ visit ∈ visits list, ∀ answers,
      (opcodeWalk list package answers visit).loop.Safe limit (0, package + packageHeaderSize)) ↔
      ∀ n, opcodePlace list package n < package + packageLengthAt list package →
        0 < opLengthAt list (opcodePlace list package n) ∧
        opcodePlace list package n + fieldsLength list (opcodePlace list package n) ≤ limit := by
  constructor
  · intro safe n inside
    have visited : ∀ visit ∈ visits list,
        (∀ extent ∈ opCodeField (opcodePlace list package n) ::
          (visit granted (list (opcodePlace list package n)) (opcodePlace list package n)).1 ++
            [lengthField (opcodePlace list package n)], extent.Within limit) ∧
        0 < opLengthAt list (opcodePlace list package n) := by
      intro visit member
      have stays (place : Nat) : (visit granted (list place) place).2 = false :=
        visit_granted (list place) visit member
      have walked := (Walk.safe_iff (fun _ _ => rfl)).mp (safe visit member (fun _ => granted)) n
        (fun m _ => stays _) inside
      obtain ⟨reads, progress⟩ := walked
      refine ⟨fun extent member => reads extent ?_, progress (stays _)⟩
      have goes := stays (opcodePlace list package n)
      change extent ∈ opCodeField (opcodePlace list package n) :: _ ++
        (if (visit granted (list (opcodePlace list package n)) (opcodePlace list package n)).2
          then _ else _)
      rw [goes, if_neg Bool.false_ne_true]
      exact member
    have first := visited initialItemsQIdTable (by simp [visits])
    refine ⟨first.2, fields_of_granted ?_ (fun visit member extent read => ?_)⟩
    · exact first.1 (lengthField (opcodePlace list package n)) (by simp)
    · exact (visited visit member).1 extent (by simp [read])
  · intro sound visit member answers
    refine Walk.safe_of_elements (fun n _ inside => ?_)
    obtain ⟨progress, fits⟩ := sound n inside
    have header := @two_le_fieldsLength list (opcodePlace list package n)
    refine ⟨?_, fun _ => progress⟩
    change ∀ extent ∈ opCodeField (opcodePlace list package n) :: _ ++ _, extent.Within limit
    rw [List.forall_mem_append, List.forall_mem_cons]
    refine ⟨⟨?_, visit_inside (answers n) fits visit member⟩, ?_⟩
    · simp only [Extent.Within, opCodeField]
      omega
    · split
      · simp
      · rw [List.forall_mem_singleton]
        simp only [Extent.Within, lengthField]
        change opcodePlace list package n + 1 + 1 ≤ limit
        omega

end Opcodes

section Options

/-- The reads behind a ONE_OF. -/
theorem optionReads_inside (place limit : Nat) (scope : UInt8) :
    (∀ extent ∈ (recurseOneOfOption list).reads (place, scope), extent.Within limit) ↔
      place + 2 ≤ limit ∧ place + opLengthAt list place +
        optionLength list (place + opLengthAt list place) ≤ limit := by
  rw [recurseOneOfOption]
  simp only
  generalize place + opLengthAt list place = op
  rw [List.forall_mem_append, List.forall_mem_cons, List.forall_mem_singleton, optionLength]
  simp only [Extent.Within, lengthField, opCodeField]
  split_ifs with option ends
  · simp only [List.forall_mem_cons, List.not_mem_nil, false_implies, implies_true, and_true]
    omega
  · simp only [List.not_mem_nil, false_implies, implies_true, and_true]
  · rw [List.forall_mem_singleton]
    change _ ∧ op + 1 + 1 ≤ limit ↔ _
    omega

/-- The walk behind a ONE_OF with a scope is safe exactly if the scope is closed. -/
theorem recurseOneOfOption_safe (place : Nat) :
    (recurseOneOfOption list).Safe (packageListLength list) (place, 1) ↔ Closed list place := by
  have next (n : Nat) : (recurseOneOfOption list).next
      (element (opLengthAt list) place n, openScopes list place n) =
      some (element (opLengthAt list) place (n + 1), openScopes list place (n + 1)) := rfl
  have walked := @Loop.safe_iff_states _ (recurseOneOfOption list) (packageListLength list)
    (fun n => (element (opLengthAt list) place n, openScopes list place n)) next
  refine walked.trans (exists_congr (fun n => and_congr ?_ ?_))
  · simp [recurseOneOfOption]
  · refine forall_congr' (fun m => imp_congr_right (fun _ => ?_))
    exact optionReads_inside _ _ _

end Options

section Lists

/-- The walks over a package list end and stay inside exactly if the list is well formed. All of the
walks are meant at once, and the memory behind the list is arbitrary, as none of them may read it. -/
theorem walkersSafe_iff (list : Memory) : WalkersSafe list ↔ WellFormed list := by
  constructor
  · intro safe
    have found {package : Nat} (first : FirstForms list package) :
        ∃ rounds, formsFrom list rounds listHeaderSize = some package :=
      formsFrom_of_firstForms first
    refine ⟨safe.header, packageWalk_safe.mp safe.packages, ?_, ?_⟩
    · intro package first
      obtain ⟨rounds, returned⟩ := found first
      exact opcodeWalks_safe.mp (safe.opcodes rounds package returned)
    · intro package first n inside oneOf scope
      obtain ⟨rounds, returned⟩ := found first
      have walked := safe.options rounds package returned n inside oneOf
      rw [if_pos scope] at walked
      exact (recurseOneOfOption_safe _).mp walked
  · intro wellFormed
    have first {rounds package : Nat} (returned : formsFrom list rounds listHeaderSize =
        some package) : FirstForms list package :=
      firstForms_of_formsFrom (k := 0) (fun m below => absurd below (Nat.not_lt_zero m)) returned
    refine ⟨wellFormed.header, packageWalk_safe.mpr wellFormed.packages, ?_, ?_⟩
    · intro rounds package returned
      exact opcodeWalks_safe.mpr (wellFormed.opcodes package (first returned))
    · intro rounds package returned n inside oneOf
      by_cases scope : hasScopeAt list (opcodePlace list package n) = true
      · rw [if_pos scope]
        exact (recurseOneOfOption_safe _).mpr
          (wellFormed.options package (first returned) n inside oneOf scope)
      · rw [if_neg scope]
        exact Loop.safe_of_stopped rfl

/-- A list of 88 bytes with one form, and on it a ONE_OF with one option of a byte. Behind
the option there are only the ENDs and the package that ends the list. -/
def oneOptionList : Memory :=
  memoryOf (List.replicate 16 0 ++ le32 88 ++ le24 64 ++ [packageForms] ++
    [0x0E, 0x98] ++ List.replicate 22 0 ++ [ifrFormOp, 0x86, 1, 0, 2, 0] ++
    [ifrOneOfOp, 0x91, 3, 0, 3, 0, 1, 0, 1, 0, 0, 0, 0, 0, 0, 1, 1] ++
    [ifrOneOfOptionOp, 7, 4, 0, 0x10, 0, 1] ++
    [ifrEndOp, 2, ifrEndOp, 2, ifrEndOp, 2] ++ le24 4 ++ [0xDF]) (fun _ => 0)

/-- The value of an option is copied in the size of the largest one, from behind the list. -/
theorem not_always_safe : ¬ ∀ list : Memory, WalkersSafe list := by
  intro safe
  have returned : formsFrom oneOptionList 1 listHeaderSize = some 20 := by decide +kernel
  have oneOf : oneOptionList (opcodePlace oneOptionList 20 2) = ifrOneOfOp := by decide +kernel
  have inside : opcodePlace oneOptionList 20 2 < 20 + packageLengthAt oneOptionList 20 := by
    decide +kernel
  have walked := ((safe oneOptionList).options 1 20 returned 2 inside oneOf).inside 1
  revert walked
  decide +kernel

end Lists

end SmcPkg.PackageWalk
