import SmcPkg.Lib.Descent
import SmcPkg.InBand.FormLayout

/-!
# The calls of the layout

The loop over the opcodes of a form comes down to the references that it visits, and each of
them to the form that it leads to, if there is one. These are the calls of `ParseRefNode`. The
layout is finished exactly if no form that is reached by them leads back to itself.
-/

namespace SmcPkg.FormLayout

open RaidCmd BiosCfg SetupForms Descent Relation

section References

/-- A reference that is visited, with the title of its prompt. -/
structure Ref where
  guid : Guid
  formId : UInt16
  title : List UInt8

variable (setup : Setup)

/-- The references that the loop of `ParseRefNode` visits. -/
def visitedRefs (guid : Guid) (formId : UInt16) : List Op → Nat → List UInt8 → List Ref
  | [], _, _ => []
  | op :: ops, scope, title =>
    let next := if hasScope op.bytes then scope + 1 else scope
    if isRef op then
      if !op.hidden && refFormId op ≠ formId then
        let title := smcGetString setup (setup.hiiHandle guid) (refPrompt op) title
        ⟨guid, refFormId op, title⟩ :: visitedRefs guid formId ops next title
      else visitedRefs guid formId ops next title
    else if isRef3 op then
      if !op.hidden then
        let title := smcGetString setup (setup.hiiHandle guid) (refPrompt op) title
        ⟨refFormSetId op, refFormId op, title⟩ :: visitedRefs guid formId ops next title
      else visitedRefs guid formId ops next title
    else if isEnd op.bytes then
      if scope = 0 then []
      else
        let next := if hasScope op.bytes then scope - 1 + 1 else scope - 1
        visitedRefs guid formId ops next title
    else visitedRefs guid formId ops next title

/-- The form that a reference leads to, unless it is hidden. -/
def target (ref : Ref) : Option Node :=
  if isHideFormForSum setup ref.guid ref.title ref.formId then none
  else (getForm setup ref.guid ref.formId).map (fun form => ⟨ref.guid, ref.formId, form.body⟩)

/-- The references of a form that lead to a form. -/
def children (node : Node) : List (Ref × Node) :=
  (visitedRefs setup node.guid node.formId node.body.ops 0 []).filterMap
    (fun ref => (target setup ref).map (fun child => (ref, child)))

/-- `ParseRefNode` of one form calls itself with another. -/
def Calls (node child : Node) : Prop := ∃ ref, (ref, child) ∈ children setup node

variable (size : Nat) (parse : Nat → Node → Checked (List UInt8))

/-- The references one after another. -/
def printRefs (level : Nat) : List Ref → Checked Printed
  | [] => .ok Printed.none
  | ref :: refs => do
    let here ← visitRef setup size parse level ref.guid ref.formId ref.title
    let later ← printRefs level refs
    .ok (here.append later)

/-- Over a form that is closed, the loop does nothing but to visit the references. -/
theorem refLoop_eq (level : Nat) (guid : Guid) (formId : UInt16) {ops : List Op} {scope : Nat}
    (closed : closes ops scope = true) (title : List UInt8) :
    refLoop setup size parse level guid formId ops scope title =
      printRefs setup size parse level (visitedRefs setup guid formId ops scope title) := by
  induction ops generalizing scope title with
  | nil => exact Bool.noConfusion closed
  | cons op ops inductionHypothesis =>
    have plain (notEnd : isEnd op.bytes = false) :
        closes ops (if hasScope op.bytes then scope + 1 else scope) = true := by
      simpa [closes, notEnd] using closed
    by_cases ref : isRef op = true
    · have notEnd : isEnd op.bytes = false := by
        simp only [isRef, Bool.and_eq_true, decide_eq_true_eq] at ref
        simp [isEnd, ref.1, ifrEndOp]
      have later := inductionHypothesis (plain notEnd)
      by_cases shown : (!op.hidden && refFormId op ≠ formId) = true
      · simp only [refLoop, visitedRefs, ref, shown, if_true, printRefs, later]
      · simp only [refLoop, visitedRefs, ref, if_true, if_neg shown]
        exact later title
    · by_cases ref3 : isRef3 op = true
      · have notEnd : isEnd op.bytes = false := by
          simp only [isRef3, Bool.and_eq_true, decide_eq_true_eq] at ref3
          simp [isEnd, ref3.1, ifrEndOp]
        have later := inductionHypothesis (plain notEnd)
        by_cases shown : (!op.hidden) = true
        · simp only [refLoop, visitedRefs, if_neg ref, ref3, shown, if_true, printRefs, later]
        · simp only [refLoop, visitedRefs, if_neg ref, ref3, if_true, if_neg shown]
          exact later title
      · simp only [refLoop, visitedRefs, ref, ref3, Bool.false_eq_true, if_false]
        cases ends : isEnd op.bytes with
        | false =>
          simp only [Bool.false_eq_true, if_false]
          exact inductionHypothesis (plain ends) title
        | true =>
          simp only [if_true]
          by_cases outermost : scope = 0
          · simp [outermost, printRefs]
          · simp only [outermost, if_false]
            apply inductionHypothesis
            simpa [closes, ends, outermost] using closed

/-- Where the prefix fits, a line is printed. -/
theorem printLine_ok {size level : Nat} (fits : 2 * level < size) (line : List UInt8) :
    printLine size level line = .ok (sprintfS (List.replicate (2 * level) 0x20 ++ line)) := by
  simp only [printLine, buildPrefix, if_pos fits]
  rfl

/-- The start of an object is printed, where its indents fit. -/
theorem printObject_ok {size braceLevel level : Nat} (braceFits : 2 * braceLevel < size)
    (fits : 2 * level < size) (guid : Guid) (formId : UInt16) (title : List UInt8) :
    ∃ start, printObject size braceLevel level guid formId title = .ok start := by
  simp only [printObject, printLine_ok braceFits, printLine_ok fits]
  exact ⟨_, rfl⟩

/-- So is its end. -/
theorem printObjectEnd_ok {size braceLevel : Nat} (fits : 2 * braceLevel < size)
    (start inner : List UInt8) :
    ∃ text, printObjectEnd size braceLevel start inner = .ok text := by
  simp only [printObjectEnd, printLine_ok fits]
  exact ⟨_, rfl⟩

/-- A reference without a form adds nothing, as long as its lines can be printed. -/
theorem visitRef_none {ref : Ref} (missing : target setup ref = none) {level : Nat}
    (fits : 2 * level < size) :
    visitRef setup size parse level ref.guid ref.formId ref.title = .ok Printed.none := by
  simp only [target] at missing
  simp only [visitRef]
  split_ifs at missing ⊢ with hides
  · rfl
  · obtain ⟨start, printed⟩ := printObject_ok fits fits ref.guid ref.formId ref.title
    rw [Option.map_eq_none_iff] at missing
    simp only [printRef, printed, missing]
    rfl

/-- A reference with a form is an object with the text of the form. -/
theorem visitRef_some {ref : Ref} {child : Node} (found : target setup ref = some child)
    (level : Nat) :
    visitRef setup size parse level ref.guid ref.formId ref.title =
      (printObject size level level ref.guid ref.formId ref.title).bind fun start =>
        (parse (level + 1) child).bind fun inner =>
          (printObjectEnd size level start inner).bind fun text => .ok ⟨1, text⟩ := by
  simp only [target] at found
  split_ifs at found with hides
  obtain ⟨form, isForm, rfl⟩ := Option.map_eq_some_iff.mp found
  simp only [visitRef, hides, Bool.false_eq_true, if_false, printRef, isForm]
  rfl

end References

section Termination

variable (setup : Setup) {size fuel level : Nat} {node : Node}

/-- Every form that is called is in the table. -/
theorem calls_finite :
    { child | ∃ node, Calls setup node child }.Finite := by
  have inTable : { child | ∃ node, Calls setup node child } ⊆
      { child | child ∈ (formTable setup.forms).map
        (fun form => (⟨form.guid, form.formId, form.body⟩ : Node)) } := by
    rintro child ⟨node, ref, isChild⟩
    obtain ⟨visited, _, isTarget⟩ := List.mem_filterMap.mp isChild
    obtain ⟨found, isFound, same⟩ := Option.map_eq_some_iff.mp isTarget
    obtain ⟨rfl, rfl⟩ := Prod.mk.inj same
    simp only [target] at isFound
    split_ifs at isFound
    obtain ⟨form, isForm, rfl⟩ := Option.map_eq_some_iff.mp isFound
    have isKey := List.find?_some isForm
    simp only [decide_eq_true_eq] at isKey
    exact List.mem_map.mpr ⟨form, List.mem_of_find?_eq_some isForm, by rw [isKey.1, isKey.2]⟩
  exact (List.finite_toSet _).subset inTable

/-- References that were printed: the forms they lead to were parsed. -/
theorem printRefs_parsed {parse : Nat → Node → Checked (List UInt8)} {refs : List Ref}
    {printed : Printed} (finished : printRefs setup size parse level refs = .ok printed)
    {ref : Ref} (isRef : ref ∈ refs) {child : Node} (found : target setup ref = some child) :
    ∃ inner, parse (level + 1) child = .ok inner := by
  induction refs generalizing printed with
  | nil => cases isRef
  | cons first refs inductionHypothesis =>
    obtain ⟨here, visited, finished⟩ := Checked.bind_ok finished
    obtain ⟨later, finishedLater, _⟩ := Checked.bind_ok finished
    rcases List.mem_cons.mp isRef with rfl | isLater
    · rw [visitRef_some setup size parse found level] at visited
      obtain ⟨start, _, visited⟩ := Checked.bind_ok visited
      obtain ⟨inner, isParsed, _⟩ := Checked.bind_ok visited
      exact ⟨inner, isParsed⟩
    · exact inductionHypothesis finishedLater isLater

/-- References can be printed if the forms they lead to can be parsed. -/
theorem printRefs_ok {parse : Nat → Node → Checked (List UInt8)} {refs : List Ref}
    (fits : 2 * level < size)
    (parsed : ∀ ref ∈ refs, ∀ child, target setup ref = some child →
      ∃ inner, parse (level + 1) child = .ok inner) :
    ∃ printed, printRefs setup size parse level refs = .ok printed := by
  induction refs with
  | nil => exact ⟨Printed.none, rfl⟩
  | cons ref refs inductionHypothesis =>
    rw [List.forall_mem_cons] at parsed
    obtain ⟨later, finishedLater⟩ := inductionHypothesis parsed.2
    have here : ∃ here,
        visitRef setup size parse level ref.guid ref.formId ref.title = .ok here := by
      cases found : target setup ref with
      | none => exact ⟨_, visitRef_none setup size parse found fits⟩
      | some child =>
        obtain ⟨inner, isParsed⟩ := parsed.1 child found
        obtain ⟨start, isStart⟩ := printObject_ok fits fits ref.guid ref.formId ref.title
        obtain ⟨text, isText⟩ := printObjectEnd_ok fits start inner
        rw [visitRef_some setup size parse found, isStart]
        exact ⟨⟨1, text⟩, by simp only [isParsed, isText, Except.bind]⟩
    obtain ⟨here, visited⟩ := here
    exact ⟨here.append later, by simp only [printRefs, visited, finishedLater, bind, Except.bind]⟩

/-- The children of a form are those of the references that are followed. -/
theorem mem_children {ref : Ref} {child : Node} :
    (ref, child) ∈ children setup node ↔
      ref ∈ visitedRefs setup node.guid node.formId node.body.ops 0 [] ∧
        target setup ref = some child := by
  simp [children]

/-- A form that was parsed has calls of that depth only. -/
theorem bounded_of_parsed {text : List UInt8}
    (finished : parseRefNode setup size fuel level node = .ok text) :
    Bounded (Calls setup) fuel node := by
  induction fuel generalizing level node text with
  | zero => cases finished
  | succ fuel inductionHypothesis =>
    rintro child ⟨ref, isChild⟩
    obtain ⟨visited, found⟩ := (mem_children setup).mp isChild
    obtain ⟨start, _, finished⟩ := Checked.bind_ok finished
    obtain ⟨printed, isPrinted, _⟩ := Checked.bind_ok finished
    rw [refLoop_eq setup size _ level node.guid node.formId node.body.closed] at isPrinted
    obtain ⟨inner, isParsed⟩ := printRefs_parsed setup isPrinted visited found
    exact inductionHypothesis isParsed

/-- A form with calls of some depth only is parsed, if the prefixes of its levels fit. -/
theorem parsed_of_bounded {depth : Nat} (bounded : Bounded (Calls setup) depth node)
    (enough : depth ≤ fuel) (fits : 2 * (level + depth) < size) :
    ∃ text, parseRefNode setup size fuel level node = .ok text := by
  induction fuel generalizing level node depth with
  | zero =>
    obtain rfl : depth = 0 := by omega
    exact bounded.elim
  | succ fuel inductionHypothesis =>
    cases depth with
    | zero => exact bounded.elim
    | succ depth =>
      have parsed : ∀ ref ∈ visitedRefs setup node.guid node.formId node.body.ops 0 [],
          ∀ child, target setup ref = some child →
            ∃ inner, parseRefNode setup size fuel (level + 1) child = .ok inner := by
        intro ref visited child found
        have isCall : Calls setup node child := ⟨ref, (mem_children setup).mpr ⟨visited, found⟩⟩
        exact inductionHypothesis (bounded child isCall) (by omega) (by omega)
      have fitsHere : 2 * level < size := by omega
      have outer : 2 * (level - 1) < size := by omega
      obtain ⟨printed, isPrinted⟩ := printRefs_ok setup fitsHere parsed
      simp only [parseRefNode, printLine_ok outer,
        refLoop_eq setup size _ level node.guid node.formId node.body.closed, isPrinted, bind,
        Except.bind]
      split_ifs
      · exact ⟨_, rfl⟩
      · exact ⟨_, rfl⟩

/-- The root forms that were found, as `ParseRefNode` is called with them. -/
def foundRoots (roots : List RootForm) : List Node :=
  roots.filterMap (fun root => root.form.bind (fun form =>
    if root.formId = 0 then none else some ⟨root.guid, root.formId, form.2⟩))

/-- Root forms that were printed were parsed. -/
theorem rootLoop_parsed {roots : List RootForm} {strBuff : List UInt8} {printed : Printed}
    (finished : rootLoop setup size fuel roots strBuff = .ok printed) :
    ∀ root ∈ foundRoots roots, ∃ text, parseRefNode setup size fuel 5 root = .ok text := by
  induction roots generalizing strBuff printed with
  | nil => simp [foundRoots]
  | cons root roots inductionHypothesis =>
    cases isForm : root.form with
    | none =>
      simp only [rootLoop, isForm] at finished
      simpa [foundRoots, isForm] using inductionHypothesis finished
    | some form =>
      obtain ⟨formTitle, body⟩ := form
      simp only [rootLoop, isForm] at finished
      by_cases noForm : root.formId = 0
      · rw [if_pos noForm] at finished
        simpa [foundRoots, isForm, noForm] using inductionHypothesis finished
      · rw [if_neg noForm] at finished
        obtain ⟨start, _, finished⟩ := Checked.bind_ok finished
        obtain ⟨inner, isParsed, finished⟩ := Checked.bind_ok finished
        obtain ⟨text, _, finished⟩ := Checked.bind_ok finished
        obtain ⟨later, finishedLater, _⟩ := Checked.bind_ok finished
        have all := inductionHypothesis finishedLater
        intro node isRoot
        have cases : node = ⟨root.guid, root.formId, body⟩ ∨ node ∈ foundRoots roots := by
          simpa [foundRoots, isForm, noForm] using isRoot
        rcases cases with rfl | isLater
        · exact ⟨inner, isParsed⟩
        · exact all node isLater

/-- Root forms can be printed if they can be parsed. -/
theorem rootLoop_ok {roots : List RootForm} (fits : 8 < size)
    (parsed : ∀ root ∈ foundRoots roots, ∃ text, parseRefNode setup size fuel 5 root = .ok text)
    (strBuff : List UInt8) :
    ∃ printed, rootLoop setup size fuel roots strBuff = .ok printed := by
  induction roots generalizing strBuff with
  | nil => exact ⟨Printed.none, rfl⟩
  | cons root roots inductionHypothesis =>
    cases isForm : root.form with
    | none =>
      simp only [rootLoop, isForm]
      exact inductionHypothesis (by simpa [foundRoots, isForm] using parsed) strBuff
    | some form =>
      obtain ⟨formTitle, body⟩ := form
      simp only [rootLoop, isForm]
      by_cases noForm : root.formId = 0
      · rw [if_pos noForm]
        exact inductionHypothesis (by simpa [foundRoots, isForm, noForm] using parsed) strBuff
      · have both :
            (∃ text, parseRefNode setup size fuel 5 ⟨root.guid, root.formId, body⟩ = .ok text) ∧
              ∀ node ∈ foundRoots roots,
                ∃ text, parseRefNode setup size fuel 5 node = .ok text := by
          simpa [foundRoots, isForm, noForm] using parsed
        rw [if_neg noForm]
        generalize (if setup.debugMessages then
          smcGetString setup (setup.hiiHandle root.guid) formTitle strBuff else strBuff) = title
        obtain ⟨inner, isParsed⟩ := both.1
        obtain ⟨later, isLater⟩ := inductionHypothesis both.2 title
        have braceFits : 2 * 3 < size := by omega
        have fieldsFit : 2 * 4 < size := fits
        obtain ⟨start, isStart⟩ := printObject_ok braceFits fieldsFit root.guid root.formId title
        obtain ⟨text, isText⟩ := printObjectEnd_ok braceFits start inner
        exact ⟨Printed.append ⟨1, text⟩ later, by
          simp only [isStart, isParsed, isText, isLater, bind, Except.bind]⟩

/-- A form with calls of some depth only does not reach a form that leads back to itself. -/
theorem bounded_iff (root : Node) :
    (∃ depth, Bounded (Calls setup) depth root) ↔
      ∀ node, ReflTransGen (Calls setup) root node → ¬ TransGen (Calls setup) node node :=
  exists_bounded_iff (calls_finite setup) (fun node _ isCall => ⟨node, isCall⟩)

/-- A layout that is finished was made of forms that do not lead back to themselves. -/
theorem acyclic_of_finishes {hiiData image : List UInt8} {roots : List RootForm}
    (finished : genFormLayout setup size fuel hiiData roots = .ok image) {root : Node}
    (isRoot : root ∈ foundRoots roots) :
    ∀ node, ReflTransGen (Calls setup) root node → ¬ TransGen (Calls setup) node node := by
  obtain ⟨text, isText, _⟩ := Checked.bind_ok finished
  obtain ⟨printed, isPrinted, _⟩ := Checked.bind_ok isText
  obtain ⟨rootText, isParsed⟩ := rootLoop_parsed setup isPrinted root isRoot
  exact (bounded_iff setup root).mp ⟨fuel, bounded_of_parsed setup isParsed⟩

/-- The layout is finished exactly if no form that is reached from a root form leads back to itself.
The graph is that of the references which the code follows; a prefix of any size is allowed, so
the overflow of that array does not hide a recursion without an end. -/
theorem finishes_iff (setup : Setup) (hiiData : List UInt8) (roots : List RootForm) :
    (∃ size fuel image, genFormLayout setup size fuel hiiData roots = .ok image) ↔
      ∀ root ∈ foundRoots roots, ∀ node, ReflTransGen (Calls setup) root node →
        ¬ TransGen (Calls setup) node node := by
  constructor
  · rintro ⟨size, fuel, image, finished⟩ root isRoot
    exact acyclic_of_finishes setup finished isRoot
  · intro acyclic
    have each : ∀ root ∈ foundRoots roots, ∃ depth, Bounded (Calls setup) depth root :=
      fun root isRoot => (bounded_iff setup root).mpr (acyclic root isRoot)
    obtain ⟨depth, all⟩ := exists_common_bound each
    have parsed : ∀ root ∈ foundRoots roots,
        ∃ text, parseRefNode setup (2 * (5 + depth) + 1) depth 5 root = .ok text :=
      fun root isRoot => parsed_of_bounded setup (all root isRoot) (Nat.le_refl depth) (by omega)
    obtain ⟨printed, isPrinted⟩ := rootLoop_ok setup (by omega) parsed
      (if setup.debugMessages then setup.formSetString else [])
    refine ⟨2 * (5 + depth) + 1, depth, ?_⟩
    simp only [genFormLayout, layoutText, isPrinted, bind, Except.bind]
    exact ⟨_, rfl⟩

/-- A reference to a form. -/
def linkOp (formId : UInt8) : Op where
  bytes := [0x0F, 15, 0, 0, 0, 0, 0, 0, 0, 0, 0, 0, 0, formId, 0]
  valid := ⟨0x0F, 15, _, rfl, rfl⟩
  hidden := false

/-- The end of a form. -/
def endOp : Op := ⟨⟨[0x29, 2], ⟨0x29, 2, [], rfl, by decide⟩⟩, false⟩

/-- A form with nothing but a reference to a form. -/
def linkBody (formId : UInt8) : FormBody := ⟨[linkOp formId, endOp], rfl⟩

/-- Two forms that refer to each other. -/
def pairSetup : Setup where
  forms := [⟨Vector.replicate 16 1, 1, linkBody 2⟩, ⟨Vector.replicate 16 1, 2, linkBody 1⟩]
  hiiHandle := fun _ => none
  string := fun _ _ => none
  hideForms := []
  debugMessages := false
  formSetString := []

/-- The layout of two forms that refer to each other is not finished. -/
theorem not_always_finishes :
    ¬ ∀ (setup : Setup) (hiiData : List UInt8) (roots : List RootForm),
      ∃ size fuel image, genFormLayout setup size fuel hiiData roots = .ok image := by
  intro always
  let guid : Guid := Vector.replicate 16 1
  obtain ⟨size, fuel, image, finished⟩ := always pairSetup [] [⟨guid, 1, some (0, linkBody 2)⟩]
  let first : Node := ⟨guid, 1, linkBody 2⟩
  let second : Node := ⟨guid, 2, linkBody 1⟩
  have onward : Calls pairSetup first second := ⟨⟨guid, 2, []⟩, List.Mem.head _⟩
  have back : Calls pairSetup second first := ⟨⟨guid, 1, []⟩, List.Mem.head _⟩
  have isRoot : first ∈ foundRoots [⟨guid, 1, some (0, linkBody 2)⟩] := List.Mem.head _
  exact acyclic_of_finishes pairSetup finished isRoot first ReflTransGen.refl
    ((TransGen.single onward).tail back)

end Termination

end SmcPkg.FormLayout
