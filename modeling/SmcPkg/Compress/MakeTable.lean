import SmcPkg.Compress.FillBuf
import SmcPkg.Lib.Cells

/-!
# The tables of the decompression

`MakeTable` makes a table from the lengths of the codes. The table is indexed by the first
bits of the input. For a code with no more bits each index that starts with it holds its
symbol. For a longer code an index holds a node, and the further bits lead from node to
node by `mLeft` and `mRight`. Node numbers start behind the symbols.

`Count` has cells for lengths up to 16, and longer ones are not covered. Lengths whose codes do
not fit side by side make the code fill its table over the end before it refuses them. The cells
here have no end, so of such lengths only the refusal is told.
-/

namespace SmcPkg.UefiDecompress

section Tables

/-- `NC`. -/
def nc : Nat := 510

/-- A table and the two arrays of nodes. -/
structure Tables where
  table : Cells Nat
  mLeft : Cells Nat
  mRight : Cells Nat

/-- What `Pointer` points to. -/
inductive Place
  | table (index : Nat)
  | left (node : Nat)
  | right (node : Nat)
  deriving DecidableEq

/-- `*Pointer`. -/
def Tables.cellAt (tables : Tables) : Place → Nat
  | .table index => tables.table index
  | .left node => tables.mLeft node
  | .right node => tables.mRight node

/-- `*Pointer = value`. -/
def Tables.put (tables : Tables) (value : Nat) : Place → Tables
  | .table index => { tables with table := tables.table.write index value }
  | .left node => { tables with mLeft := tables.mLeft.write node value }
  | .right node => { tables with mRight := tables.mRight.write node value }

/-- A node is made where the pointer finds none and the arrays have room. -/
def grow (pointer : Place) (grown : Tables × Nat) : Tables × Nat :=
  if grown.1.cellAt pointer = 0 ∧ grown.2 < 2 * nc - 1 then
    (({ grown.1 with
        mRight := grown.1.mRight.write grown.2 0
        mLeft := grown.1.mLeft.write grown.2 0 } : Tables).put grown.2 pointer, grown.2 + 1)
  else grown

/-- The pointer goes on to a child of the node that it finds. -/
def follow (tables : Tables) (pointer : Place) (bit : Bool) : Place :=
  if tables.cellAt pointer < 2 * nc - 1 then
    if bit then .right (tables.cellAt pointer) else .left (tables.cellAt pointer)
  else pointer

/-- The loop over the bits of a code behind those of the table. -/
def walkTo (mask : Nat) : Nat → Nat → Place → Tables × Nat → Place × (Tables × Nat)
  | 0, _, pointer, grown => (pointer, grown)
  | index + 1, index3, pointer, grown =>
    walkTo mask index ((index3 <<< 1) % 2 ^ 16)
      (follow (grow pointer grown).1 pointer (index3 &&& mask ≠ 0)) (grow pointer grown)

/-- `Table[Index] = Char` for a range of indices. -/
def fillTable (char first upTo : Nat) (table : Cells Nat) : Cells Nat :=
  ⟨fun index => if first ≤ index ∧ index < upTo then char else table index⟩

/-- `Start`, aligned to 16 bits. -/
def startTable (counts : Nat → Nat) : Nat → Nat
  | 0 => 0
  | 1 => 0
  | index + 2 =>
    (startTable counts (index + 1) + counts (index + 1) <<< (16 - (index + 1))) % 2 ^ 16

/-- `Weight`. -/
def weightTable (tableBits index : Nat) : Nat :=
  if index = 0 then 0
  else if index ≤ tableBits then 1 <<< (tableBits - index)
  else 1 <<< (16 - index)

/-- `Count[BitLen[Index]]++`. -/
def countLens (numOfChar : Nat) (bitLen : Cells Nat) : Cells Nat :=
  (List.range numOfChar).foldl
    (fun counts index => counts.write (bitLen index) (counts (bitLen index) + 1)) ⟨fun _ => 0⟩

/-- The loop over the symbols: what it works on besides the tables. -/
structure Entering where
  tables : Tables
  avail : Nat
  start : Cells Nat

/-- A symbol is entered. -/
def enterChar (bitLen : Cells Nat) (tableBits : Nat) (state : Entering) (char : Nat) :
    Entering :=
  let len := bitLen char
  if len = 0 ∨ 17 ≤ len then state
  else
    let nextCode := (state.start len + weightTable tableBits len) % 2 ^ 16
    if len ≤ tableBits then
      { state with
        tables := { state.tables with
          table := fillTable char (state.start len) nextCode state.tables.table }
        start := state.start.write len nextCode }
    else
      let walked := walkTo (1 <<< (15 - tableBits)) (len - tableBits) (state.start len)
        (.table (state.start len >>> (16 - tableBits))) (state.tables, state.avail)
      { tables := walked.2.1.put char walked.1
        avail := walked.2.2
        start := state.start.write len nextCode }

/-- `MakeTable`. There are no tables if the lengths are corrupted. -/
def makeTable (numOfChar : Nat) (bitLen : Cells Nat) (tableBits : Nat) (tables : Tables) :
    Option Tables :=
  let start := startTable (countLens numOfChar bitLen)
  if start 17 ≠ 0 then none
  else
    let juBits := 16 - tableBits
    let index := start (tableBits + 1) >>> juBits
    let table :=
      if index ≠ 0 ∧ index < 1 <<< tableBits then
        fillTable 0 index (1 <<< tableBits) tables.table
      else tables.table
    let shifted : Cells Nat := ⟨fun index =>
      if 1 ≤ index ∧ index ≤ tableBits then start index >>> juBits else start index⟩
    some ((List.range numOfChar).foldl (enterChar bitLen tableBits)
      ⟨{ tables with table := table }, numOfChar, shifted⟩).tables

end Tables

section Lookup

/-- The loop that follows the nodes. With the mask used up it goes left only, so after as
many rounds as there are nodes it is at one again. -/
def descend (tables : Tables) (number mBitBuf : Nat) : Nat → Nat → Nat → Option Nat
  | 0, _, value => if number ≤ value then none else some value
  | rounds + 1, mask, value =>
    if number ≤ value then
      descend tables number mBitBuf rounds (mask >>> 1)
        (if mBitBuf &&& mask ≠ 0 then tables.mRight value else tables.mLeft value)
    else some value

/-- The symbol that the buffer starts with. -/
def lookup (tables : Tables) (number tableBits mBitBuf : Nat) : Option Nat :=
  descend tables number mBitBuf (32 + (2 * nc - 1)) (1 <<< (31 - tableBits))
    (tables.table (mBitBuf >>> (32 - tableBits)))

end Lookup

end SmcPkg.UefiDecompress
