import SmcPkg.Lib.Walks
import SmcPkg.RaidOob.IfrPackage

/-!
# Walking over an exported package list

The module exports the package list of a RAID driver, walks over its packages to the first
one with forms, and walks over the opcodes of that one several times: for the variables and
the forms, for the items, for the change records, for the questions and for the target of a
command. Behind a ONE_OF it walks on over the options until its scope is closed. Every walk
advances by the length that the element itself tells, and compares only the start of the
next one with the end.

Places are offsets from the start of the list, which lies so low that no sum passes 32 bits.
-/

namespace SmcPkg.PackageWalk

open Bytes SetupForms ReadRuns Walks

section Headers

variable (list : Memory)

/-- `PackageLength` of the list. -/
def packageListLength : Nat := (word32 list 16).toNat

/-- The size of `EFI_HII_PACKAGE_LIST_HEADER`, whose last field is the length. -/
def listHeaderSize : Nat := 20

/-- `Length` of the package at a place. -/
def packageLengthAt (place : Nat) : Nat :=
  (list place).toNat + (list (place + 1)).toNat * 0x100 + (list (place + 2)).toNat * 0x10000

/-- `Type` of the package at a place. -/
def packageTypeAt (place : Nat) : UInt8 := list (place + 3)

/-- The size of `EFI_HII_PACKAGE_HEADER`. -/
def packageHeaderSize : Nat := 4

/-- `EFI_HII_PACKAGE_FORMS`. -/
def packageForms : UInt8 := 0x02

/-- `Length` of the opcode at a place. -/
def opLengthAt (place : Nat) : Nat := opLength (list (place + 1))

/-- `Scope` of the opcode at a place. -/
def hasScopeAt (place : Nat) : Bool := 128 ≤ list (place + 1)

end Headers

section Codes

/-- `EFI_IFR_ONE_OF_OP`. -/
def ifrOneOfOp : UInt8 := 0x05

/-- `EFI_IFR_CHECKBOX_OP`. -/
def ifrCheckBoxOp : UInt8 := 0x06

/-- `EFI_IFR_NUMERIC_OP`. -/
def ifrNumericOp : UInt8 := 0x07

/-- `EFI_IFR_ONE_OF_OPTION_OP`. -/
def ifrOneOfOptionOp : UInt8 := 0x09

/-- `EFI_IFR_ACTION_OP`. -/
def ifrActionOp : UInt8 := 0x0C

/-- `EFI_IFR_REF_OP`. -/
def ifrRefOp : UInt8 := 0x0F

/-- `EFI_IFR_STRING_OP`. -/
def ifrStringOp : UInt8 := 0x1C

/-- `EFI_IFR_VARSTORE_OP`. -/
def ifrVarStoreOp : UInt8 := 0x24

end Codes

section Fields

variable (place : Nat)

/-- `Header.OpCode`. -/
def opCodeField : Extent := ⟨place, 1⟩

/-- The byte of `Header.Length` and `Header.Scope`. -/
def lengthField : Extent := ⟨place + 1, 1⟩

/-- `Question.Header.Prompt`. -/
def prompt : Extent := ⟨place + 2, 2⟩

/-- `Question.QuestionId`. -/
def questionId : Extent := ⟨place + 6, 2⟩

/-- `Question.VarStoreId`. -/
def varStoreId : Extent := ⟨place + 8, 2⟩

/-- `Question.VarStoreInfo.VarOffset`. -/
def varOffset : Extent := ⟨place + 10, 2⟩

/-- `Question.Flags`. -/
def questionFlags : Extent := ⟨place + 12, 1⟩

/-- The byte behind the question header, with the size of a number. -/
def numericFlags : Extent := ⟨place + 13, 1⟩

/-- `FormId` of a REF. -/
def refFormId : Extent := ⟨place + 13, 2⟩

/-- `FormId` of a FORM. -/
def formId : Extent := ⟨place + 2, 2⟩

/-- `FormTitle` of a FORM. -/
def formTitle : Extent := ⟨place + 4, 2⟩

/-- The characters of a text before its terminator, as far as some bytes reach. -/
def textLength (list : Memory) : Nat → Nat → Nat
  | 0, _ => 0
  | bytes + 1, place => if list place = 0 then 0 else textLength list bytes (place + 1) + 1

/-- `Name` of a VARSTORE with its terminator. A name without one is read on behind the list. -/
def varStoreName (list : Memory) : Extent :=
  ⟨place + 22, textLength list (packageListLength list + 1) (place + 22) + 1⟩

/-- The fields of a VARSTORE. -/
def varStoreFields (list : Memory) : List Extent :=
  [⟨place + 2, 16⟩, ⟨place + 18, 2⟩, ⟨place + 20, 2⟩, varStoreName place list]

end Fields

section Visits

/-- What a visit is told by the rest of the module: whether an allocation or a variable is
granted, whether a string id has a text, and whether a table has an entry for it. -/
structure Answer where
  stored : Bool
  named : Bool
  listed : Bool

/-- What a walk reads of an opcode behind its code, and whether it is left there. -/
abbrev Visit := Answer → UInt8 → Nat → List Extent × Bool

/-- `InitialItemsQIdTable` with `AddItemsQId`. -/
def initialItemsQIdTable : Visit := fun answer code place =>
  if code = ifrOneOfOp ∨ code = ifrNumericOp ∨ code = ifrCheckBoxOp then
    if answer.stored then
      ([questionId place, prompt place, opCodeField place, varStoreId place, varOffset place] ++
        (if code = ifrCheckBoxOp then [] else [numericFlags place]), false)
    else ([questionId place], true)
  else ([], false)

/-- `SmcLsiRaidOOB_CollectInformation_Form` with `SetLsiRaidFormInformTable` and `AddLsiVar`. -/
def collectInformationForm (list : Memory) : Visit := fun answer code place =>
  if code = ifrRefOp then
    if answer.named then
      (prompt place :: (if answer.listed then
        [refFormId place, questionId place, varStoreId place, varOffset place,
          questionFlags place] else []), false)
    else ([prompt place], true)
  else if code = ifrVarStoreOp then (varStoreFields place list, !answer.stored)
  else ([], false)

/-- `SmcLsiRaidOOB_CollectInformation_Items`. -/
def collectInformationItems : Visit := fun answer code place =>
  if code = ifrFormOp then ([formTitle place], false)
  else if code = ifrStringOp ∨ code = ifrOneOfOp ∨ code = ifrNumericOp ∨ code = ifrCheckBoxOp ∨
      code = ifrRefOp then
    (prompt place :: (if answer.named && answer.listed then [questionId place] else []), false)
  else ([], false)

/-- `SmcLsiRaidOOB_CollectInformation_ChRec`. -/
def collectInformationChRec : Visit := fun answer code place =>
  if code = ifrFormOp then ([formTitle place], false)
  else if code = ifrRefOp then
    (prompt place :: (if answer.named && answer.listed then
      [opCodeField place, questionId place, varStoreId place] else []), false)
  else ([], false)

/-- `SmcLsiRaidOOB_GetTargetItemOpHeader` for a target opcode. -/
def getTargetItemOpHeader (target : UInt8) : Visit := fun answer code place =>
  ((if code = ifrFormOp then [formTitle place, formId place] else []) ++
    (if code = target then
      prompt place :: (if answer.named && answer.listed then [questionId place] else [])
    else []), false)

/-- The target opcodes in the tables of the commands. -/
def targetOpCodes : List UInt8 :=
  [ifrRefOp, ifrCheckBoxOp, ifrOneOfOp, ifrStringOp, ifrActionOp]

/-- The walks over the opcodes of a package. -/
def visits (list : Memory) : List Visit :=
  [initialItemsQIdTable, collectInformationForm list, collectInformationItems,
    collectInformationChRec] ++ targetOpCodes.map getTargetItemOpHeader

end Visits

section Walkers

variable (list : Memory)

/-- The loop of `SmcLsiRaidOOB_GetCurrentPackageForm`. -/
def packageWalk : Walk where
  stop := packageListLength list
  length := packageLengthAt list
  reads _ place := [⟨place, packageHeaderSize⟩]
  leaves _ place := packageTypeAt list place = packageForms

/-- What that loop returns, with a bound on its rounds. -/
def formsFrom : Nat → Nat → Option Nat
  | 0, _ => none
  | rounds + 1, place =>
    if place < packageListLength list then
      if packageTypeAt list place = packageForms then some place
      else formsFrom rounds (place + packageLengthAt list place)
    else none

/-- A loop over the opcodes of a package. The length of an opcode is read behind the visit. -/
def opcodeWalk (package : Nat) (answers : Nat → Answer) (visit : Visit) : Walk where
  stop := package + packageLengthAt list package
  length := opLengthAt list
  reads round place :=
    let visited := visit (answers round) (list place) place
    opCodeField place :: visited.1 ++ (if visited.2 then [] else [lengthField place])
  leaves round place := (visit (answers round) (list place) place).2

/-- The place of an opcode of a package. -/
def opcodePlace (package : Nat) : Nat → Nat :=
  element (opLengthAt list) (package + packageHeaderSize)

/-- `RecurseOneOfOption`, by the place of the opcode that it steps behind and by its
`OneOfScope`. The value of an option is copied in full, and the scope of an option is not
counted. -/
def recurseOneOfOption : Loop (Nat × UInt8) where
  running state := state.2 ≠ 0
  reads state :=
    let op := state.1 + opLengthAt list state.1
    [lengthField state.1, opCodeField op] ++
      (if list op = ifrOneOfOptionOp then
        [⟨op, 2⟩, ⟨op + 2, 2⟩, ⟨op + 4, 1⟩, ⟨op + 5, 1⟩, ⟨op + 6, 22⟩]
      else if list op = ifrEndOp then []
      else [lengthField op])
  next state :=
    let op := state.1 + opLengthAt list state.1
    some (op,
      if list op = ifrOneOfOptionOp then state.2
      else if list op = ifrEndOp then state.2 - 1
      else if hasScopeAt list op then state.2 + 1
      else state.2)

/-- Every walk ends and stays inside the list, whatever it is told: the one over the
packages, those over the opcodes of the package that is found, and the one behind each of
its ONE_OFs. -/
structure WalkersSafe : Prop where
  header : (⟨16, 4⟩ : Extent).Within (packageListLength list)
  packages : (packageWalk list).loop.Safe (packageListLength list) (0, listHeaderSize)
  opcodes : ∀ rounds package, formsFrom list rounds listHeaderSize = some package →
    ∀ visit ∈ visits list, ∀ answers,
      (opcodeWalk list package answers visit).loop.Safe (packageListLength list)
        (0, package + packageHeaderSize)
  options : ∀ rounds package, formsFrom list rounds listHeaderSize = some package →
    ∀ n, opcodePlace list package n < package + packageLengthAt list package →
      list (opcodePlace list package n) = ifrOneOfOp →
      (recurseOneOfOption list).Safe (packageListLength list)
        (opcodePlace list package n, if hasScopeAt list (opcodePlace list package n) then 1 else 0)

end Walkers

section Format

variable (list : Memory)

/-- The place of a package of the list. -/
def packagePlace : Nat → Nat := element (packageLengthAt list) listHeaderSize

/-- The first package with forms. -/
def FirstForms (package : Nat) : Prop :=
  ∃ n, packagePlace list n = package ∧
    (∀ m < n, packageTypeAt list (packagePlace list m) ≠ packageForms) ∧
    package < packageListLength list ∧ packageTypeAt list package = packageForms

/-- The length of the fields that an opcode of a kind has to have. -/
def fieldsLength (place : Nat) : Nat :=
  if list place = ifrFormOp then 6
  else if list place = ifrOneOfOp ∨ list place = ifrNumericOp then 14
  else if list place = ifrCheckBoxOp then 12
  else if list place = ifrRefOp then 15
  else if list place = ifrStringOp ∨ list place = ifrActionOp then 8
  else if list place = ifrVarStoreOp then
    23 + textLength list (packageListLength list + 1) (place + 22)
  else 2

/-- The length of the fields of an opcode behind a ONE_OF. -/
def optionLength (place : Nat) : Nat :=
  if list place = ifrOneOfOptionOp then 28
  else if list place = ifrEndOp then 1
  else 2

/-- The scopes that are open behind a ONE_OF with a scope and some more opcodes, counted in
one byte. -/
def openScopes (place : Nat) : Nat → UInt8
  | 0 => 1
  | n + 1 =>
    let op := element (opLengthAt list) place (n + 1)
    if list op = ifrOneOfOptionOp then openScopes place n
    else if list op = ifrEndOp then openScopes place n - 1
    else if hasScopeAt list op then openScopes place n + 1
    else openScopes place n

/-- The scope of a ONE_OF is closed by one of the opcodes behind it, and these lie in the list
up to there. -/
def Closed (place : Nat) : Prop :=
  ∃ n, openScopes list place n = 0 ∧ ∀ m < n,
    element (opLengthAt list) place m + 2 ≤ packageListLength list ∧
    element (opLengthAt list) place (m + 1) +
      optionLength list (element (opLengthAt list) place (m + 1)) ≤ packageListLength list

/-- A list that can be walked over: the packages up to the first one with forms have their
headers in the list and lengths, the opcodes of that one have lengths and their fields in
the list, and every ONE_OF with a scope is closed. -/
structure WellFormed : Prop where
  header : listHeaderSize ≤ packageListLength list
  packages : ∀ n, (∀ m < n, packageTypeAt list (packagePlace list m) ≠ packageForms) →
    packagePlace list n < packageListLength list →
    packagePlace list n + packageHeaderSize ≤ packageListLength list ∧
    (packageTypeAt list (packagePlace list n) ≠ packageForms →
      0 < packageLengthAt list (packagePlace list n))
  opcodes : ∀ package, FirstForms list package → ∀ n,
    opcodePlace list package n < package + packageLengthAt list package →
    0 < opLengthAt list (opcodePlace list package n) ∧
    opcodePlace list package n + fieldsLength list (opcodePlace list package n) ≤
      packageListLength list
  options : ∀ package, FirstForms list package → ∀ n,
    opcodePlace list package n < package + packageLengthAt list package →
    list (opcodePlace list package n) = ifrOneOfOp →
    hasScopeAt list (opcodePlace list package n) = true →
    Closed list (opcodePlace list package n)

end Format

end SmcPkg.PackageWalk
