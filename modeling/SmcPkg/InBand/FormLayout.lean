import SmcPkg.RaidOob.IfrPackage
import SmcPkg.InBand.BiosCfg

/-!
# The layout of the forms

`GenFormLayout` writes a text that says which form is reached from which. It starts at the
root forms and `ParseRefNode` calls itself for every reference that it follows. The text is
printed line by line, and what turns out to be too much is taken back: the comma behind the
last object, an array without objects, an object whose form does not exist.

The setup data are any forms with any references between them. The pools for the nodes and for
the lines are assumed to have room.
-/

namespace SmcPkg.FormLayout

open Bytes Card RaidCmd BiosCfg SetupForms

section Forms

/-- An opcode of a form, and the flag that `GetOpFlag` finds for it. -/
structure Op extends SetupForms.Op where
  hidden : Bool

/-- Whether the END of a form is among opcodes. -/
def closes : List Op → Nat → Bool
  | [], _ => false
  | op :: ops, scope =>
    if isEnd op.bytes then
      if scope = 0 then true
      else closes ops (if hasScope op.bytes then scope - 1 + 1 else scope - 1)
    else closes ops (if hasScope op.bytes then scope + 1 else scope)

/-- What lies behind the opcode of a form. -/
structure FormBody where
  ops : List Op
  closed : closes ops 0 = true

/-- `SMC_FORM_DATA`. -/
structure FormData where
  guid : Guid
  formId : UInt16
  body : FormBody

/-- `SMC_ROOT_FORM_DATA`: the form is the one that was found for it, with the string of its
title. -/
structure RootForm where
  guid : Guid
  formId : UInt16
  form : Option (UInt16 × FormBody)

/-- An entry of `HideFormForSum`. -/
structure HideForm where
  guid : Guid
  formTitle : List UInt8
  formId : UInt16

/-- `MAX_FORM_COUNT`. -/
def maxFormCount : Nat := 1024

/-- `AddForm`. -/
def addForm (table : List FormData) (form : FormData) : List FormData :=
  if table.length < maxFormCount then table ++ [form] else table

/-- The table that `InitFormData` makes. -/
def formTable (forms : List FormData) : List FormData := forms.foldl addForm []

/-- What the functions read. With debug messages, the loop over the form sets leaves a string
in the buffer for titles. -/
structure Setup where
  forms : List FormData
  hiiHandle : Guid → Option Nat
  string : Option Nat → UInt16 → Option (List UInt8)
  hideForms : List HideForm
  debugMessages : Bool
  formSetString : List UInt8

variable (setup : Setup)

/-- `GetForm`. -/
def getForm (guid : Guid) (formId : UInt16) : Option FormData :=
  (formTable setup.forms).find? (fun form => form.guid = guid ∧ form.formId = formId)

/-- `IsHideFormForSum`. -/
def isHideFormForSum (guid : Guid) (formTitle : List UInt8) (targetFormId : UInt16) : Bool :=
  setup.hideForms.any (fun hide => hide.guid = guid && hide.formTitle = formTitle &&
    (hide.formId = 0 || hide.formId = targetFormId))

/-- `SmcGetString`: the buffer stays as it is if there is no string. -/
def smcGetString (handle : Option Nat) (stringId : UInt16) (strBuff : List UInt8) : List UInt8 :=
  (setup.string handle stringId).getD strBuff

end Forms

section References

/-- The memory of an opcode. -/
def opMemory (op : Op) : Memory := memoryOf op.bytes (fun _ => 0)

/-- `EFI_IFR_REF`, by opcode and length. -/
def isRef (op : Op) : Bool := opCode op.bytes = 0x0F && op.bytes.length = 15

/-- `EFI_IFR_REF3`. -/
def isRef3 (op : Op) : Bool := opCode op.bytes = 0x0F && op.bytes.length = 33

/-- `Question.Header.Prompt`. -/
def refPrompt (op : Op) : UInt16 := word16 (opMemory op) 2

/-- `FormId`, of both kinds of references. -/
def refFormId (op : Op) : UInt16 := word16 (opMemory op) 13

/-- `FormSetId`. -/
def refFormSetId (op : Op) : Guid := guidAt (opMemory op) 17

end References

section Text

/-- Characters of a text. -/
def ascii (text : String) : List UInt8 := text.toList.map (fun c => UInt8.ofNat c.toNat)

/-- A digit of a hexadecimal number. -/
def hexDigit (value : Nat) : UInt8 :=
  UInt8.ofNat (if value < 10 then 0x30 + value else 0x57 + value)

/-- A byte in two digits. -/
def hexByte (byte : UInt8) : List UInt8 := [hexDigit (byte.toNat / 16), hexDigit (byte.toNat % 16)]

/-- `ToGuidString`. -/
def toGuidString (guid : Guid) : List UInt8 :=
  let part (places : List (Fin 16)) := places.flatMap (fun i => hexByte (guid.get i))
  part [3, 2, 1, 0] ++ ascii "-" ++ part [5, 4] ++ ascii "-" ++ part [7, 6] ++ ascii "-" ++
    part [8, 9] ++ ascii "-" ++ part [10, 11, 12, 13, 14, 15]

/-- The format `%x`. -/
def hexText (value : UInt16) : List UInt8 :=
  let digits := hexByte (UInt8.ofNat (value.toNat / 0x100)) ++ hexByte (UInt8.ofNat value.toNat)
  if value.toNat < 0x10 then digits.drop 3
  else if value.toNat < 0x100 then digits.drop 2
  else if value.toNat < 0x1000 then digits.drop 1
  else digits

/-- `BuildPrefix`, into an array of a size: two blanks for each level and an end. -/
def buildPrefix (size count : Nat) : Checked (List UInt8) :=
  if 2 * count < size then .ok (List.replicate (2 * count) 0x20) else .error .overflow

/-- The size that `Sprintf_s` is given. -/
def lineSize : Nat := 128

/-- `Sprintf_s`: the line up to the size of the buffer, which ends with a zero. -/
def sprintfS (line : List UInt8) : List UInt8 := line.take (lineSize - 1)

/-- A line with its prefix. -/
def printLine (size level : Nat) (line : List UInt8) : Checked (List UInt8) := do
  let strPrefix ← buildPrefix size level
  .ok (sprintfS (strPrefix ++ line))

/-- The cursor moves back over the comma behind the last line, which ends without it. -/
def clearTail (text : List UInt8) : List UInt8 := text.dropLast.dropLast ++ [0x0A]

/-- The lines that an object starts with: the brace on one level, its fields on another. -/
def printObject (size braceLevel level : Nat) (guid : Guid) (formId : UInt16)
    (title : List UInt8) : Checked (List UInt8) := do
  let brace ← printLine size braceLevel (ascii "\x7b\n")
  let guidLine ← printLine size level (ascii "\"GUID\": \"" ++ toGuidString guid ++ ascii "\",\n")
  let formIdLine ← printLine size level
    (ascii "\"FormId\": \"0x" ++ hexText formId ++ ascii "\",\n")
  let titleLine ← printLine size level (ascii "\"Title\": \"" ++ title ++ ascii "\",\n")
  .ok (brace ++ guidLine ++ formIdLine ++ titleLine)

/-- The rest of an object: the array of its form, if there is one, and the brace. -/
def printObjectEnd (size braceLevel : Nat) (start inner : List UInt8) :
    Checked (List UInt8) := do
  let text := if inner = [] then clearTail start else start ++ inner
  let brace ← printLine size braceLevel (ascii "\x7d,\n")
  .ok (text ++ brace)

end Text

section Parse

/-- What `ParseRefNode` is called with, apart from the buffer and the level. The handle is that
of the form set. -/
structure Node where
  guid : Guid
  formId : UInt16
  body : FormBody

/-- Objects as they were printed, and their count. -/
structure Printed where
  refCount : Nat
  text : List UInt8

/-- Nothing is printed. -/
def Printed.none : Printed := ⟨0, []⟩

/-- One behind the other. -/
def Printed.append (first second : Printed) : Printed :=
  ⟨first.refCount + second.refCount, first.text ++ second.text⟩

variable (setup : Setup) (size : Nat) (parse : Nat → Node → Checked (List UInt8))

/-- What a reference adds: an object, which is taken back if there is no form. -/
def printRef (level : Nat) (guid : Guid) (formId : UInt16) (title : List UInt8) :
    Checked Printed := do
  let start ← printObject size level level guid formId title
  match getForm setup guid formId with
  | some form => do
    let inner ← parse (level + 1) ⟨guid, formId, form.body⟩
    let text ← printObjectEnd size level start inner
    .ok ⟨1, text⟩
  | none => .ok Printed.none

/-- What a reference that is not hidden adds, with the title of its prompt. -/
def visitRef (level : Nat) (guid : Guid) (formId : UInt16) (title : List UInt8) :
    Checked Printed :=
  if isHideFormForSum setup guid title formId then .ok Printed.none
  else printRef setup size parse level guid formId title

/-- The loop of `ParseRefNode`, with the buffer for titles. -/
def refLoop (level : Nat) (guid : Guid) (formId : UInt16) :
    List Op → Nat → List UInt8 → Checked Printed
  | [], _, _ => .error .overflow
  | op :: ops, scope, title =>
    let next := if hasScope op.bytes then scope + 1 else scope
    if isRef op then
      if !op.hidden && refFormId op ≠ formId then do
        let title := smcGetString setup (setup.hiiHandle guid) (refPrompt op) title
        let here ← visitRef setup size parse level guid (refFormId op) title
        let later ← refLoop level guid formId ops next title
        .ok (here.append later)
      else refLoop level guid formId ops next title
    else if isRef3 op then
      if !op.hidden then do
        let title := smcGetString setup (setup.hiiHandle guid) (refPrompt op) title
        let here ← visitRef setup size parse level (refFormSetId op) (refFormId op) title
        let later ← refLoop level guid formId ops next title
        .ok (here.append later)
      else refLoop level guid formId ops next title
    else if isEnd op.bytes then
      if scope = 0 then .ok Printed.none
      else
        let next := if hasScope op.bytes then scope - 1 + 1 else scope - 1
        refLoop level guid formId ops next title
    else refLoop level guid formId ops next title

end Parse

section Layout

variable (setup : Setup) (size : Nat)

/-- `ParseRefNode`. The fuel bounds how deep the calls go. -/
def parseRefNode : Nat → Nat → Node → Checked (List UInt8)
  | 0, _, _ => .error .outOfFuel
  | fuel + 1, level, node => do
    let start ← printLine size (level - 1) (ascii "\"Form\":[\n")
    let printed ← refLoop setup size (parseRefNode fuel) level node.guid node.formId
      node.body.ops 0 []
    if printed.refCount ≠ 0 then do
      let bracket ← printLine size (level - 1) (ascii "]\n")
      .ok (clearTail (start ++ printed.text) ++ bracket)
    else .ok []

/-- The loop over the root forms. Only with debug messages the title is read. -/
def rootLoop (fuel : Nat) : List RootForm → List UInt8 → Checked Printed
  | [], _ => .ok Printed.none
  | root :: roots, strBuff =>
    match root.form with
    | none => rootLoop fuel roots strBuff
    | some (formTitle, body) =>
      if root.formId = 0 then rootLoop fuel roots strBuff
      else do
        let strBuff := if setup.debugMessages then
            smcGetString setup (setup.hiiHandle root.guid) formTitle strBuff
          else strBuff
        let start ← printObject size 3 4 root.guid root.formId strBuff
        let inner ← parseRefNode setup size fuel 5 ⟨root.guid, root.formId, body⟩
        let text ← printObjectEnd size 3 start inner
        let later ← rootLoop fuel roots strBuff
        .ok (Printed.append ⟨1, text⟩ later)

/-- `FormLayoutGuid`. -/
def formLayoutGuid : List UInt8 :=
  [0x7D, 0x89, 0xB0, 0xFD, 0x99, 0xB4, 0x9F, 0x4B, 0x96, 0xF7, 0x50, 0xC6, 0x99, 0x68, 0x35, 0xF5]

/-- The text of the layout. -/
def layoutText (fuel : Nat) (roots : List RootForm) : Checked (List UInt8) := do
  let start := sprintfS (ascii "\x7b\n") ++ sprintfS (ascii "  \"FormLayout\":\x7b\n") ++
    sprintfS (ascii "    \"Form\":[\n")
  let printed ← rootLoop setup size fuel roots
    (if setup.debugMessages then setup.formSetString else [])
  let text := if printed.refCount ≠ 0 then clearTail (start ++ printed.text)
    else start ++ printed.text
  .ok (text ++ sprintfS (ascii "    ]\n") ++ sprintfS (ascii "  \x7d\n") ++
    sprintfS (ascii "\x7d\n"))

/-- The package list with a text: both headers hold its length. -/
def layoutList (text : List UInt8) : List UInt8 :=
  formLayoutGuid ++ le32 (24 + text.length) ++ le24 (4 + text.length) ++ [0xF0] ++ text

/-- `GenFormLayout`: the output buffer up to its size. -/
def genFormLayout (fuel : Nat) (hiiData : List UInt8) (roots : List RootForm) :
    Checked (List UInt8) := do
  let text ← layoutText setup size fuel roots
  .ok (hiiData ++ layoutList text)

end Layout

end SmcPkg.FormLayout
