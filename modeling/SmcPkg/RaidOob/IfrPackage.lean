import SmcPkg.Lib.Bytes
import SmcPkg.Lib.Nesting
import SmcPkg.RaidOob.Card

/-!
# Form packages

A form package is a header with the length of the package and a sequence of opcodes. An
opcode starts with its code and a byte that holds its length and, in the highest bit,
whether it opens a scope. The package is searched opcode by opcode, and new opcodes are
spliced in at the place that was found.
-/

namespace SmcPkg.SetupForms

open Bytes RaidCmd Card Nesting

section Opcodes

/-- `Header.Length` of an opcode, from the second byte. -/
def opLength (flags : UInt8) : Nat := flags.toNat % 128

/-- The bytes are an opcode, with the length that its header names. -/
def IsOpcode (bytes : List UInt8) : Prop :=
  ∃ code flags body, bytes = code :: flags :: body ∧ opLength flags = bytes.length

/-- `Header.OpCode`. -/
def opCode (bytes : List UInt8) : UInt8 := bytes.headD 0

/-- `Header.Scope`. -/
def hasScope : List UInt8 → Bool
  | _ :: flags :: _ => 128 ≤ flags
  | _ => false

/-- `EFI_IFR_END_OP`. -/
def ifrEndOp : UInt8 := 0x29

/-- The bytes are an END. -/
def isEnd (bytes : List UInt8) : Bool := opCode bytes = ifrEndOp

/-- An opcode. -/
structure Op where
  bytes : List UInt8
  valid : IsOpcode bytes

/-- Every opcode with a scope is closed by one END, and every END closes one. -/
def WellScoped (ops : List (List UInt8)) : Prop := Nested hasScope isEnd ops

/-- `Cte_Buffer`: the bytes that are copied of an item, as many as its header names. -/
def cteBuffer (item : Memory) : List UInt8 := bytesOf item (opLength (item 1))

end Opcodes

section Package

/-- The bytes of a 24-bit word. -/
def le24 (value : Nat) : List UInt8 :=
  [UInt8.ofNat value, UInt8.ofNat (value / 0x100), UInt8.ofNat (value / 0x10000)]

/-- The bytes of a package in their buffer. -/
def packageMemory (data : List UInt8) : Memory := memoryOf data (fun _ => 0)

/-- `Length` of a package header. -/
def packageLength (data : List UInt8) : Nat :=
  let memory := packageMemory data
  (memory 0).toNat + (memory 1).toNat * 0x100 + (memory 2).toNat * 0x10000

/-- `Type` of a package header. -/
def packageType (data : List UInt8) : UInt8 := packageMemory data 3

/-- A well-formed form package with its opcodes: their lengths add up to the length of the
package, and their scopes are closed. -/
structure FormsPackage (data : List UInt8) (type : UInt8) (ops : List (List UInt8)) : Prop where
  bytes : data = le24 data.length ++ type :: ops.flatten
  short : data.length < 2 ^ 24
  opcodes : ∀ op ∈ ops, IsOpcode op
  nested : WellScoped ops

end Package

section Search

/-- `EFI_IFR_FORM_OP`. -/
def ifrFormOp : UInt8 := 0x01

/-- `EFI_IFR_GUID_OP`. -/
def ifrGuidOp : UInt8 := 0x5F

/-- `EFI_IFR_FORM_SET_OP`. -/
def ifrFormSetOp : UInt8 := 0x0E

/-- `EFI_IFR_TIANO_GUID`. -/
def ifrTianoGuid : List UInt8 :=
  [0x35, 0x17, 0x0B, 0x0F, 0xA0, 0x87, 0x93, 0x41, 0xB2, 0x66, 0x53, 0x8C, 0x38, 0xAF, 0x48, 0xCE]

/-- The test of the search on an opcode in memory. -/
def isWanted (op : Memory) (code : UInt8) (label : UInt16) : Bool :=
  if op 0 = code then
    if code = ifrGuidOp then
      startsWith (shifted 2 op) ifrTianoGuid && op 18 = 0 && word16 op 19 = label
    else if code = ifrFormOp then word16 op 2 = label
    else true
  else false

/-- The loop of `SearchOpCodeInFormData` from a place on. Over opcodes without a length it
does not end, which the number of rounds cuts off. -/
def searchFrom (memory : Memory) (length : Nat) (code : UInt8) (label : UInt16) :
    Nat → Nat → Option Nat
  | 0, _ => none
  | rounds + 1, place =>
    if place < length then
      if isWanted (shifted place memory) code label then some place
      else searchFrom memory length code label rounds (place + opLength (memory (place + 1)))
    else none

/-- `SearchOpCodeInFormData`: the place of the first opcode that is wanted. -/
def searchOpCodeInFormData (data : List UInt8) (code : UInt8) (label : UInt16) : Option Nat :=
  searchFrom (packageMemory data) (packageLength data) code label (packageLength data) 4

end Search

section Splice

/-- `SMC_LSI_ITEMS_MEM`: the size that is allocated and the bytes in use. -/
structure ItemsMem where
  alSize : Nat
  buffer : List UInt8

/-- `SMC_LSI_ADD_ITEMS_MEM_SIZE`. -/
def addItemsMemSize : Nat := 0x1000

/-- `CopyAndExtMem` of a null pointer. -/
def newItemsMem : ItemsMem := ⟨addItemsMemSize, []⟩

/-- `CopyAndExtMem`. -/
def copyAndExtMem (mem : ItemsMem) (bytes : List UInt8) : Checked ItemsMem :=
  let needed := mem.buffer.length + bytes.length
  let alSize :=
    if mem.alSize ≤ needed ∧ needed < mem.alSize + addItemsMemSize then
      mem.alSize + addItemsMemSize
    else mem.alSize
  if needed ≤ alSize then .ok ⟨alSize, mem.buffer ++ bytes⟩ else .error .overflow

/-- `MAX_HPK_LIST_SIZE`. -/
def maxHpkListSize : Nat := 0x100000

/-- `MACRO_CAULBUFFER_INITIAL` and `MACRO_CAULBUFFER_REPLACE`: the package with bytes put in
at a place. -/
def replaceBuffer (data : List UInt8) (place : Nat) (items : List UInt8) : Checked (List UInt8) :=
  let length := packageLength data
  let joined := data.take place ++ (items ++ (data.take length).drop place)
  if joined.length ≤ maxHpkListSize then .ok (le24 (length + items.length) ++ joined.drop 3)
  else .error .overflow

end Splice

end SmcPkg.SetupForms
