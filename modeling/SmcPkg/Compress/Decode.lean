import SmcPkg.Compress.MakeTable

/-!
# The decompression

`Decode` takes symbols off the input. A symbol below 256 is a character, a greater one the
length of a part that lies before, and its position follows. At the begin of a block the
lengths of the codes are read, and tables are made from them. A table that cannot be made
ends the decompression.

The arrays of the decompression are cells without an end here. A source that the compression has
made keeps inside of the arrays of the code; for other sources the code may leave them, and
nothing is said about what it does then.
-/

namespace SmcPkg.UefiDecompress

open Bytes

section Sizes

/-- `CBIT`. -/
def cbit : Nat := 9

/-- `MAXNP`. -/
def maxnp : Nat := 31

/-- `NT`. -/
def nt : Nat := 16 + 3

/-- `TBIT`. -/
def tbit : Nat := 5

/-- `NPT`. -/
def npt : Nat := 31

end Sizes

section State

/-- `SCRATCH_DATA`. -/
structure Scratch where
  source : Source
  mDstBase : Cells UInt8
  mOutBuf : Nat
  mOrigSize : Nat
  mBlockSize : Nat
  mLeft : Cells Nat
  mRight : Cells Nat
  mCLen : Cells Nat
  mPTLen : Cells Nat
  mCTable : Cells Nat
  mPTTable : Cells Nat
  mPBit : Nat

/-- Why a decompression does not go on: a table is bad, or a loop over the nodes of a table
does not end. -/
inductive Stop
  | badTable
  | endless

/-- `GetBits`. -/
def Scratch.getBits (numOfBits : Nat) (sd : Scratch) : Nat × Scratch :=
  ((UefiDecompress.getBits numOfBits sd.source).1,
    { sd with source := (UefiDecompress.getBits numOfBits sd.source).2 })

/-- `FillBuf`. -/
def Scratch.fillBuf (numOfBits : Nat) (sd : Scratch) : Scratch :=
  { sd with source := UefiDecompress.fillBuf numOfBits sd.source }

/-- `mPTTable` and the nodes. -/
def Scratch.tablesPT (sd : Scratch) : Tables := ⟨sd.mPTTable, sd.mLeft, sd.mRight⟩

/-- `mCTable` and the nodes. -/
def Scratch.tablesC (sd : Scratch) : Tables := ⟨sd.mCTable, sd.mLeft, sd.mRight⟩

/-- `Len[Index] = 0` for a range of indices. -/
def zeroLens (first upTo : Nat) (len : Cells Nat) : Cells Nat :=
  ⟨fun index => if first ≤ index ∧ index < upTo then 0 else len index⟩

end State

section Lengths

/-- `while (Mask & mBitBuf) { Mask >>= 1; CharC += 1; }`, from the bit below on. -/
def onesBelow (mBitBuf : Nat) : Nat → Nat
  | 0 => 0
  | bit + 1 => if mBitBuf.testBit bit then onesBelow mBitBuf bit + 1 else 0

/-- A length of the extra set or the position set. -/
def readLength (source : Source) : Nat × Source :=
  let charC := source.peek 3
  let charC := if charC = 7 then charC + onesBelow source.mBitBuf 29 else charC
  (charC % 2 ^ 8, UefiDecompress.fillBuf (if charC < 7 then 3 else charC - 3) source)

/-- The loop of `ReadPTLen`. -/
def readPTLenLoop (number special : Nat) :
    Nat → Nat → Source × Cells Nat → Nat × (Source × Cells Nat)
  | 0, index, read => (index, read)
  | rounds + 1, index, read =>
    if index < number ∧ index < npt then
      let (charC, source) := readLength read.1
      let mPTLen := read.2.write index charC
      if index + 1 = special then
        let zeros := min (source.peek 2) (npt - (index + 1))
        readPTLenLoop number special rounds (index + 1 + zeros)
          (UefiDecompress.fillBuf 2 source, zeroLens (index + 1) (index + 1 + zeros) mPTLen)
      else readPTLenLoop number special rounds (index + 1) (source, mPTLen)
    else (index, read)

/-- `MakeTable` for `mPTTable`. -/
def Scratch.makePT (nn : Nat) (sd : Scratch) : Except Stop Scratch :=
  (makeTable nn sd.mPTLen 8 sd.tablesPT).elim (.error .badTable) fun tables =>
    .ok { sd with mPTTable := tables.table, mLeft := tables.mLeft, mRight := tables.mRight }

/-- `ReadPTLen`. -/
def readPTLen (nn nbit special : Nat) (sd : Scratch) : Except Stop Scratch :=
  let (number, sd) := sd.getBits nbit
  if number = 0 then
    let (charC, sd) := sd.getBits nbit
    .ok { sd with mPTTable := ⟨fun _ => charC⟩, mPTLen := zeroLens 0 nn sd.mPTLen }
  else
    let (index, source, mPTLen) := readPTLenLoop number special npt 0 (sd.source, sd.mPTLen)
    ({ sd with source := source, mPTLen := zeroLens index (min nn npt) mPTLen }).makePT nn

/-- A symbol of the extra set. -/
def Scratch.symbolT (sd : Scratch) : Option (Nat × Source) :=
  (lookup sd.tablesPT nt 8 sd.source.mBitBuf).map fun charC =>
    (charC, UefiDecompress.fillBuf (sd.mPTLen charC) sd.source)

/-- How many zeros a symbol of the extra set stands for. -/
def zerosOf (charC : Nat) (source : Source) : Nat × Source :=
  if charC = 0 then (1, source)
  else if charC = 1 then ((UefiDecompress.getBits 4 source).1 + 3,
    (UefiDecompress.getBits 4 source).2)
  else ((UefiDecompress.getBits cbit source).1 + 20, (UefiDecompress.getBits cbit source).2)

/-- The loop of `ReadCLen`. -/
def readCLenLoop (number : Nat) : Nat → Nat → Scratch → Except Stop (Nat × Scratch)
  | 0, index, sd => .ok (index, sd)
  | rounds + 1, index, sd =>
    if index < number ∧ index < nc then
      match sd.symbolT with
      | none => .error .endless
      | some (charC, source) =>
        if charC ≤ 2 then
          let (count, source) := zerosOf charC source
          let zeros := min count (nc - index)
          readCLenLoop number rounds (index + zeros)
            { sd with source := source, mCLen := zeroLens index (index + zeros) sd.mCLen }
        else
          readCLenLoop number rounds (index + 1)
            { sd with source := source, mCLen := sd.mCLen.write index ((charC - 2) % 2 ^ 8) }
    else .ok (index, sd)

/-- `MakeTable` for `mCTable`. Whether the table is bad is not looked at. -/
def Scratch.makeC (sd : Scratch) : Scratch :=
  (makeTable nc sd.mCLen 12 sd.tablesC).elim sd fun tables =>
    { sd with mCTable := tables.table, mLeft := tables.mLeft, mRight := tables.mRight }

/-- `ReadCLen`. -/
def readCLen (sd : Scratch) : Except Stop Scratch :=
  let (number, sd) := sd.getBits cbit
  if number = 0 then
    let (charC, sd) := sd.getBits cbit
    .ok { sd with mCLen := zeroLens 0 nc sd.mCLen, mCTable := ⟨fun _ => charC⟩ }
  else
    (readCLenLoop number nc 0 sd).map fun read =>
      ({ read.2 with mCLen := zeroLens read.1 nc read.2.mCLen }).makeC

end Lengths

section Symbols

/-- The part of `DecodeC` at the begin of a block. -/
def readBlock (sd : Scratch) : Except Stop Scratch :=
  let (size, sd) := sd.getBits 16
  (readPTLen nt tbit 3 { sd with mBlockSize := size }).bind fun sd =>
    (readCLen sd).bind fun sd => readPTLen maxnp sd.mPBit 65535 sd

/-- The part of `DecodeC` in a block. -/
def symbolC (sd : Scratch) : Except Stop (Nat × Scratch) :=
  match lookup sd.tablesC nc 12 sd.source.mBitBuf with
  | none => .error .endless
  | some index2 =>
    .ok (index2, { sd.fillBuf (sd.mCLen index2) with
      mBlockSize := (sd.mBlockSize + 65535) % 65536 })

/-- `DecodeC`. -/
def decodeC (sd : Scratch) : Except Stop (Nat × Scratch) :=
  if sd.mBlockSize = 0 then (readBlock sd).bind symbolC else symbolC sd

/-- `DecodeP`. -/
def decodeP (sd : Scratch) : Except Stop (Nat × Scratch) :=
  match lookup sd.tablesPT maxnp 8 sd.source.mBitBuf with
  | none => .error .endless
  | some val =>
    let sd := sd.fillBuf (sd.mPTLen val)
    if 1 < val then
      .ok ((1 <<< (val - 1) + (sd.getBits (val - 1)).1) % 2 ^ 32, (sd.getBits (val - 1)).2)
    else .ok (val, sd)

/-- The loop that copies a part, up to the end of the destination. -/
def copyPart : Nat → Nat → Scratch → Scratch
  | 0, _, sd => sd
  | bytesRemain + 1, dataIdx, sd =>
    let sd := { sd with
      mDstBase := sd.mDstBase.write sd.mOutBuf (sd.mDstBase dataIdx)
      mOutBuf := sd.mOutBuf + 1 }
    if sd.mOrigSize ≤ sd.mOutBuf then sd
    else copyPart bytesRemain ((dataIdx + 1) % 2 ^ 32) sd

/-- `Decode`. Each round puts a byte out or is the last one. -/
def decodeLoop : Nat → Scratch → Except Stop Scratch
  | 0, sd => .ok sd
  | rounds + 1, sd =>
    (decodeC sd).bind fun (charC, sd) =>
      if charC < 256 then
        if sd.mOrigSize ≤ sd.mOutBuf then .ok sd
        else
          decodeLoop rounds { sd with
            mDstBase := sd.mDstBase.write sd.mOutBuf (UInt8.ofNat charC)
            mOutBuf := sd.mOutBuf + 1 }
      else
        (decodeP sd).bind fun (pos, sd) =>
          let copied := copyPart (charC - 253) ((sd.mOutBuf + 2 ^ 32 - pos - 1) % 2 ^ 32) sd
          if copied.mOrigSize ≤ copied.mOutBuf then .ok copied else decodeLoop rounds copied

/-- `Decode`. -/
def decode (sd : Scratch) : Except Stop Scratch := decodeLoop (sd.mOrigSize + 1) sd

end Symbols

section Buffers

/-- The scratch buffer after `SetMem` and the assignments. -/
def initialScratch (src : Memory) (compSize origSize version : Nat) (destination : Cells UInt8) :
    Scratch where
  source := UefiDecompress.fillBuf 32 (initialSource src compSize)
  mDstBase := destination
  mOutBuf := 0
  mOrigSize := origSize
  mBlockSize := 0
  mLeft := ⟨fun _ => 0⟩
  mRight := ⟨fun _ => 0⟩
  mCLen := ⟨fun _ => 0⟩
  mPTLen := ⟨fun _ => 0⟩
  mCTable := ⟨fun _ => 0⟩
  mPTTable := ⟨fun _ => 0⟩
  mPBit := if version = 1 then 4 else 5

/-- A size in the header. -/
def sizeAt (src : Memory) (place : Nat) : Nat :=
  ((src place).toNat + (src (place + 1)).toNat <<< 8 + (src (place + 2)).toNat <<< 16 +
    (src (place + 3)).toNat <<< 24) % 2 ^ 32

/-- `UefiTianoDecompress`: what is in the destination afterwards. It returns
`RETURN_INVALID_PARAMETER` where a table is bad. -/
def uefiTianoDecompress (source : Memory) (destination : Cells UInt8) (version : Nat) :
    Except Stop (Cells UInt8) :=
  if sizeAt source 4 = 0 then .ok destination
  else
    (decode (initialScratch (shifted 8 source) (sizeAt source 0) (sizeAt source 4) version
      destination)).map Scratch.mDstBase

/-- What `UefiDecompressGetInfo` returns beside its status. -/
structure Info where
  destinationSize : Nat
  scratchSize : Nat
  deriving DecidableEq

/-- `UefiDecompressGetInfo`, where `SCRATCH_DATA` takes `sizeOfScratch` bytes. It returns
`RETURN_INVALID_PARAMETER` where there is no result. -/
def uefiDecompressGetInfo (source : Memory) (sourceSize sizeOfScratch : Nat) : Option Info :=
  if sourceSize < 8 then none
  else if sourceSize < (sizeAt source 0 + 8) % 2 ^ 32 then none
  else some { destinationSize := sizeAt source 4, scratchSize := sizeOfScratch }

end Buffers

end SmcPkg.UefiDecompress
