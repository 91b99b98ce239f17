import SmcPkg.Compress.MakeTree
import SmcPkg.Compress.PutBits

/-!
# The blocks of the compression

`Output` collects characters and pointers in `mBuf`, eight of them behind a byte of flags,
and counts how often each occurs. `SendBlock` sends what is collected: the number of items,
the lengths of the codes of the characters, coded themselves by a code of their own, the
lengths of the codes of the positions, and the items.

The buffer and the counts are those that `AllocateMemory` and `HufEncodeStart` leave. The search
for matches, which calls `Output`, is not part of the model.
-/

namespace SmcPkg.TianoCompress

section Sizes

/-- `NC`. -/
def nc : Nat := 0xff + 256 + 2 - 3

/-- `CBIT`. -/
def cbit : Nat := 9

/-- `NP`. -/
def np : Nat := 19 + 1

/-- `PBIT`. -/
def pbit : Nat := 5

/-- `NT`. -/
def nt : Nat := 16 + 3

/-- `TBIT`. -/
def tbit : Nat := 5

end Sizes

section Lengths

/-- `while (Number > 0 && Len[Number - 1] == 0) Number--`. -/
def trimZeros (len : Cells Nat) : Nat → Nat
  | 0 => 0
  | number + 1 => if len number = 0 then trimZeros len number else number + 1

/-- How many zeros there are from an index on, up to a bound. -/
def zeroRun (len : Cells Nat) (upTo : Nat) : Nat → Nat → Nat
  | 0, _ => 0
  | rounds + 1, index =>
    if index < upTo ∧ len index = 0 then zeroRun len upTo rounds (index + 1) + 1 else 0

/-- `Freq[Index] = (UINT16) (Freq[Index] + Count)`. -/
def bump (index count : Nat) (freq : Cells Nat) : Cells Nat :=
  freq.write index ((freq index + count) % 2 ^ 16)

/-- What `CountTFreq` counts for a run of zeros. -/
def countRun (count : Nat) (mTFreq : Cells Nat) : Cells Nat :=
  if count ≤ 2 then bump 0 count mTFreq
  else if count ≤ 18 then bump 1 1 mTFreq
  else if count = 19 then bump 1 1 (bump 0 1 mTFreq)
  else bump 2 1 mTFreq

/-- The loop of `CountTFreq`. -/
def countTFreqLoop (mCLen : Cells Nat) (number : Nat) : Nat → Nat → Cells Nat → Cells Nat
  | 0, _, mTFreq => mTFreq
  | rounds + 1, index, mTFreq =>
    if index < number then
      if mCLen index = 0 then
        countTFreqLoop mCLen number rounds (index + 1 + zeroRun mCLen number number (index + 1))
          (countRun (zeroRun mCLen number number (index + 1) + 1) mTFreq)
      else countTFreqLoop mCLen number rounds (index + 1) (bump (mCLen index + 2) 1 mTFreq)
    else mTFreq

/-- `Freq[Index] = 0` for the first indices. -/
def clearFreq (number : Nat) (freq : Cells Nat) : Cells Nat :=
  ⟨fun index => if index < number then 0 else freq index⟩

/-- `CountTFreq`. -/
def countTFreq (mCLen mTFreq : Cells Nat) : Cells Nat :=
  countTFreqLoop mCLen (trimZeros mCLen nc) nc 0 (clearFreq nt mTFreq)

/-- A length of the extra set or the position set. -/
def putLength (index3 : Nat) (dst : Dst) : Dst :=
  if index3 ≤ 6 then putBits 3 index3 dst
  else putBits (index3 - 3) ((1 <<< (index3 - 3)) - 2) dst

/-- The loop of `WritePTLen`. -/
def writePTLenLoop (mPTLen : Cells Nat) (number : Nat) (special : Int) :
    Nat → Nat → Dst → Dst
  | 0, _, dst => dst
  | rounds + 1, index, dst =>
    if index < number then
      if ((index + 1 : Nat) : Int) = special then
        writePTLenLoop mPTLen number special rounds (index + 1 + zeroRun mPTLen 6 6 (index + 1))
          (putBits 2 ((index + 1 + zeroRun mPTLen 6 6 (index + 1) - 3) &&& 3)
            (putLength (mPTLen index) dst))
      else writePTLenLoop mPTLen number special rounds (index + 1) (putLength (mPTLen index) dst)
    else dst

/-- `WritePTLen`. -/
def writePTLen (mPTLen : Cells Nat) (number nbit : Nat) (special : Int) (dst : Dst) : Dst :=
  writePTLenLoop mPTLen (trimZeros mPTLen number) special number 0
    (putBits nbit (trimZeros mPTLen number) dst)

/-- What `WriteCLen` writes for a run of zeros. -/
def writeRun (mPTLen mPTCode : Cells Nat) (count : Nat) (dst : Dst) : Dst :=
  if count ≤ 2 then
    (List.range count).foldl (fun dst _ => putBits (mPTLen 0) (mPTCode 0) dst) dst
  else if count ≤ 18 then
    putBits 4 (count - 3) (putBits (mPTLen 1) (mPTCode 1) dst)
  else if count = 19 then
    putBits 4 15 (putBits (mPTLen 1) (mPTCode 1) (putBits (mPTLen 0) (mPTCode 0) dst))
  else putBits cbit (count - 20) (putBits (mPTLen 2) (mPTCode 2) dst)

/-- The loop of `WriteCLen`. -/
def writeCLenLoop (mCLen mPTLen mPTCode : Cells Nat) (number : Nat) : Nat → Nat → Dst → Dst
  | 0, _, dst => dst
  | rounds + 1, index, dst =>
    if index < number then
      if mCLen index = 0 then
        writeCLenLoop mCLen mPTLen mPTCode number rounds
          (index + 1 + zeroRun mCLen number number (index + 1))
          (writeRun mPTLen mPTCode (zeroRun mCLen number number (index + 1) + 1) dst)
      else
        writeCLenLoop mCLen mPTLen mPTCode number rounds (index + 1)
          (putBits (mPTLen (mCLen index + 2)) (mPTCode (mCLen index + 2)) dst)
    else dst

/-- `WriteCLen`. -/
def writeCLen (mCLen mPTLen mPTCode : Cells Nat) (dst : Dst) : Dst :=
  writeCLenLoop mCLen mPTLen mPTCode (trimZeros mCLen nc) nc 0
    (putBits cbit (trimZeros mCLen nc) dst)

end Lengths

section Items

/-- `while (Pos) { Pos >>= 1; CharC++; }`, for a word of 32 bits. -/
def bitsIn : Nat → Nat → Nat
  | 0, _ => 0
  | rounds + 1, pos => if pos = 0 then 0 else bitsIn rounds (pos >>> 1) + 1

/-- `EncodeC`. -/
def encodeC (mCLen mCCode : Cells Nat) (value : Nat) (dst : Dst) : Dst :=
  putBits (mCLen value) (mCCode value) dst

/-- `EncodeP`. -/
def encodeP (mPTLen mPTCode : Cells Nat) (value : Nat) (dst : Dst) : Dst :=
  let index := bitsIn 32 value
  let dst := putBits (mPTLen index) (mPTCode index) dst
  if 1 < index then putBits (index - 1) (value &&& 0xFFFFFFFF >>> (32 - index + 1)) dst else dst

/-- The arrays of the codes. -/
structure Codes where
  mCLen : Cells Nat
  mCCode : Cells Nat
  mPTLen : Cells Nat
  mPTCode : Cells Nat

/-- `Index3` of a pointer in `mBuf`. -/
def positionAt (mBuf : Cells Nat) (pos : Nat) : Nat :=
  ((mBuf pos <<< 8 + mBuf (pos + 1)) <<< 8 + mBuf (pos + 2)) <<< 8 + mBuf (pos + 3)

/-- An item of `mBuf` is coded. -/
def sendItem (codes : Codes) (mBuf : Cells Nat) (flags : Nat) (posDst : Nat × Dst) : Nat × Dst :=
  if flags &&& 1 <<< 7 ≠ 0 then
    (posDst.1 + 5, encodeP codes.mPTLen codes.mPTCode (positionAt mBuf (posDst.1 + 1))
      (encodeC codes.mCLen codes.mCCode (mBuf posDst.1 + 1 <<< 8) posDst.2))
  else (posDst.1 + 1, encodeC codes.mCLen codes.mCCode (mBuf posDst.1) posDst.2)

/-- The loop of `SendBlock` over the items. -/
def sendItems (codes : Codes) (mBuf : Cells Nat) : Nat → Nat → Nat → Nat × Dst → Dst
  | 0, _, _, posDst => posDst.2
  | rounds + 1, index, flags, posDst =>
    if index % 8 = 0 then
      sendItems codes mBuf rounds (index + 1) (mBuf posDst.1)
        (sendItem codes mBuf (mBuf posDst.1) (posDst.1 + 1, posDst.2))
    else
      sendItems codes mBuf rounds (index + 1) ((flags <<< 1) % 2 ^ 32)
        (sendItem codes mBuf ((flags <<< 1) % 2 ^ 32) posDst)

end Items

section Blocks

/-- The globals of the compression. `stack` is what the element of `Start` that `MakeCode`
does not initialise holds at each call. -/
structure Huf where
  dst : Dst
  globals : Globals
  stack : Nat → Nat
  calls : Nat
  mBuf : Cells Nat
  mBufSiz : Nat
  mOutputPos : Nat
  mOutputMask : Nat
  cPos : Nat
  mCFreq : Cells Nat
  mPFreq : Cells Nat
  mTFreq : Cells Nat
  codes : Codes

/-- A call of `MakeTree`. -/
def Huf.makeTree (huf : Huf) (nParm : Nat) (freqParm lenParm codeParm : Cells Nat) : Option Tree :=
  TianoCompress.makeTree huf.globals (huf.stack huf.calls) nParm freqParm lenParm codeParm

/-- What a call leaves to the next one. -/
def Huf.called (huf : Huf) (tree : Tree) : Huf :=
  { huf with globals := tree.globals, calls := huf.calls + 1 }

/-- The codes of the characters. -/
def Huf.treeC (huf : Huf) (tree : Tree) : Huf :=
  { huf.called tree with
    mCFreq := tree.freq
    codes := { huf.codes with mCLen := tree.len, mCCode := tree.code } }

/-- The codes of the lengths. -/
def Huf.treeT (huf : Huf) (tree : Tree) : Huf :=
  { huf.called tree with
    mTFreq := tree.freq
    codes := { huf.codes with mPTLen := tree.len, mPTCode := tree.code } }

/-- The codes of the positions. -/
def Huf.treeP (huf : Huf) (tree : Tree) : Huf :=
  { huf.called tree with
    mPFreq := tree.freq
    codes := { huf.codes with mPTLen := tree.len, mPTCode := tree.code } }

/-- What has been put out is that of a destination. -/
def Huf.into (dst : Dst) (huf : Huf) : Huf := { huf with dst := dst }

/-- A step of the output. -/
def Huf.write (huf : Huf) (step : Dst → Dst) : Huf := { huf with dst := step huf.dst }

/-- The lengths of a set are written, or its only symbol. -/
def writeSet (n nbit : Nat) (special : Int) (tree : Tree) (dst : Dst) : Dst :=
  if n ≤ tree.root then writePTLen tree.len n nbit special dst
  else putBits nbit tree.root (putBits nbit 0 dst)

/-- The part of `SendBlock` for the codes of the characters. -/
def sendC (tree : Tree) (huf : Huf) : Option Huf :=
  if nc ≤ tree.root then
    (huf.makeTree nt (countTFreq huf.codes.mCLen huf.mTFreq) huf.codes.mPTLen
      huf.codes.mPTCode).map fun extra =>
        ((huf.treeT extra).write (writeSet nt tbit 3 extra)).write
          (writeCLen huf.codes.mCLen extra.len extra.code)
  else
    some (huf.write fun dst =>
      putBits cbit tree.root (putBits cbit 0 (putBits tbit 0 (putBits tbit 0 dst))))

/-- The part of `SendBlock` for the codes of the positions. -/
def sendP (huf : Huf) : Option Huf :=
  (huf.makeTree np huf.mPFreq huf.codes.mPTLen huf.codes.mPTCode).map fun tree =>
    (huf.treeP tree).write (writeSet np pbit (-1) tree)

/-- The end of `SendBlock`: the items, and the counts for the next block. -/
def sendRest (size : Nat) (huf : Huf) : Huf :=
  { huf.write fun dst => sendItems huf.codes huf.mBuf size 0 0 (0, dst) with
    mCFreq := clearFreq nc huf.mCFreq
    mPFreq := clearFreq np huf.mPFreq }

/-- `SendBlock`. There is no result if a loop of `MakeTree` runs on. -/
def sendBlock (huf : Huf) : Option Huf :=
  (huf.makeTree nc huf.mCFreq huf.codes.mCLen huf.codes.mCCode).bind fun tree =>
    (sendC tree ((huf.treeC tree).write (putBits 16 (tree.freq tree.root)))).bind fun huf =>
      (sendP huf).map (sendRest (tree.freq tree.root))

end Blocks

section Output

/-- The part of `Output` before an item: every eighth one begins a byte of flags, in a new
block if the buffer might not hold eight more. -/
def beginItem (huf : Huf) : Option Huf :=
  if huf.mOutputMask >>> 1 = 0 then
    (if huf.mBufSiz - 5 * 8 ≤ huf.mOutputPos then
      (sendBlock huf).map fun huf => { huf with mOutputPos := 0 }
    else some huf).map fun huf =>
      { huf with
        mOutputMask := 1 <<< 7
        cPos := huf.mOutputPos
        mOutputPos := huf.mOutputPos + 1
        mBuf := huf.mBuf.write huf.mOutputPos 0 }
  else some { huf with mOutputMask := huf.mOutputMask >>> 1 }

/-- `mBuf[mOutputPos++] = (UINT8) Value`. -/
def Huf.store (value : Nat) (huf : Huf) : Huf :=
  { huf with
    mBuf := huf.mBuf.write huf.mOutputPos (value % 2 ^ 8)
    mOutputPos := huf.mOutputPos + 1 }

/-- The part of `Output` for the item. -/
def storeItem (charC pos : Nat) (huf : Huf) : Huf :=
  let huf := huf.store charC
  let huf := { huf with mCFreq := bump charC 1 huf.mCFreq }
  if 1 <<< 8 ≤ charC then
    let huf := { huf with mBuf := huf.mBuf.write huf.cPos (huf.mBuf huf.cPos ||| huf.mOutputMask) }
    let huf := (((huf.store (pos >>> 24)).store (pos >>> 16)).store (pos >>> 8)).store pos
    { huf with mPFreq := bump (bitsIn 32 pos) 1 huf.mPFreq }
  else huf

/-- `Output`. -/
def output (charC pos : Nat) (huf : Huf) : Option Huf :=
  (beginItem huf).map (storeItem charC pos)

/-- `HufEncodeStart`. -/
def hufEncodeStart (huf : Huf) : Huf :=
  { huf with
    mCFreq := clearFreq nc huf.mCFreq
    mPFreq := clearFreq np huf.mPFreq
    mOutputPos := 0
    mOutputMask := 0
    dst := initPutBits huf.dst }

/-- `HufEncodeEnd`. -/
def hufEncodeEnd (huf : Huf) : Option Huf :=
  (sendBlock huf).map fun huf => huf.write (putBits 7 0)

end Output

section Compression

/-- The calls of `Output` that `Encode` makes. -/
def outputs : List (Nat × Nat) → Huf → Option Huf
  | [], huf => some huf
  | item :: items, huf => (output item.1 item.2 huf).bind (outputs items)

/-- What `TianoCompress` returns. -/
inductive Status
  | success
  | bufferTooSmall
  deriving DecidableEq

/-- What `TianoCompress` leaves: its status, the destination up to `mDst`, and `*DstSize`. -/
structure Compressed where
  status : Status
  bytes : List UInt8
  dstSize : Nat

/-- The end of `TianoCompress`: a zero behind the data, and the sizes in front of them. -/
def finish (mOrigSize : Nat) (dst : Dst) : Compressed :=
  let dst := dst.put 0
  let front := putDword mOrigSize (putDword ((dst.mCompSize + 1) % 2 ^ 32) { dst with bytes := [] })
  let needed := (dst.mCompSize + 1 + 8) % 2 ^ 32
  { status := if dst.dstSize < needed then .bufferTooSmall else .success
    bytes := front.bytes ++ dst.bytes.drop front.bytes.length
    dstSize := needed }

/-- `TianoCompress`, where `Encode` reads a number of bytes and puts them out as items. There
is no result if a loop of `MakeTree` runs on. -/
def tianoCompress (items : List (Nat × Nat)) (mOrigSize dstSize : Nat) (huf : Huf) :
    Option Compressed :=
  let dst := putDword 0 (putDword 0 { huf.dst with bytes := [], dstSize := dstSize })
  ((outputs items (hufEncodeStart (huf.into { dst with mCompSize := 0 }))).bind hufEncodeEnd).map
    fun huf => finish mOrigSize huf.dst

end Compression

end SmcPkg.TianoCompress
