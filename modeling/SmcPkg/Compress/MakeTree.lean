import SmcPkg.Lib.Cells

/-!
# The trees of the compression

`MakeTree` turns the frequencies of symbols into code words. It merges the two entries of
least frequency in a heap until one is left, counts the leaves of the tree by their depth,
takes leaves from the depth 16 until no code is longer than that, hands the lengths out to
the symbols in the order they left the heap, and numbers the codes. The arrays are the
globals of the source: what a call does not write they keep from earlier ones.

The frequencies are arbitrary numbers of sixteen bits. More than `NC` symbols are not covered:
the arrays of the source have no cells for them.
-/

namespace SmcPkg.TianoCompress

section Heap

/-- The child of less frequency. -/
def lesserChild (mFreq : Cells Nat) (mHeapSize index : Nat) (mHeap : Cells Nat) : Nat :=
  if 2 * index < mHeapSize ∧ mFreq (mHeap (2 * index + 1)) < mFreq (mHeap (2 * index)) then
    2 * index + 1
  else 2 * index

/-- The loop of `DownHeap`: the hole moves down until the entry fits. The hole at least
doubles its place, so as many rounds as the heap has entries are enough. -/
def downHeapLoop (mFreq : Cells Nat) (mHeapSize index3 : Nat) :
    Nat → Nat → Cells Nat → Cells Nat
  | 0, index, mHeap => mHeap.write index index3
  | rounds + 1, index, mHeap =>
    if 2 * index ≤ mHeapSize then
      if mFreq index3 ≤ mFreq (mHeap (lesserChild mFreq mHeapSize index mHeap)) then
        mHeap.write index index3
      else
        downHeapLoop mFreq mHeapSize index3 rounds (lesserChild mFreq mHeapSize index mHeap)
          (mHeap.write index (mHeap (lesserChild mFreq mHeapSize index mHeap)))
    else mHeap.write index index3

/-- `DownHeap`. -/
def downHeap (mFreq : Cells Nat) (mHeapSize index : Nat) (mHeap : Cells Nat) : Cells Nat :=
  downHeapLoop mFreq mHeapSize (mHeap index) mHeapSize index mHeap

end Heap

section Lengths

/-- `CountLen`. A node has a greater index than its children. -/
def countLen (mN : Nat) (mLeft mRight : Cells Nat) :
    Nat → Nat → Nat → Cells Nat → Cells Nat
  | 0, _, _, mLenCnt => mLenCnt
  | rounds + 1, index, depth, mLenCnt =>
    if index < mN then
      let place := if depth < 16 then depth else 16
      mLenCnt.write place (mLenCnt place + 1)
    else
      countLen mN mLeft mRight rounds (mRight index) (depth + 1)
        (countLen mN mLeft mRight rounds (mLeft index) (depth + 1) mLenCnt)

/-- The sum of the counts, each leaf weighed by what it takes of the codes of 16 bits. -/
def cumulate (mLenCnt : Cells Nat) : Nat → Nat
  | 0 => 0
  | index + 1 => cumulate mLenCnt index + mLenCnt (index + 1) <<< (16 - (index + 1))

/-- The greatest length up to a bound that a leaf has, or zero. -/
def longestUsed (mLenCnt : Cells Nat) : Nat → Nat
  | 0 => 0
  | index + 1 => if mLenCnt (index + 1) ≠ 0 then index + 1 else longestUsed mLenCnt index

/-- A round of the loop that adjusts the counts: a leaf of length 16 is taken away, and
beside another one, which moves one down, it is put back. -/
def adjust (mLenCnt : Cells Nat) : Cells Nat :=
  let mLenCnt := mLenCnt.write 16 ((mLenCnt 16 + 65535) % 65536)
  let index := longestUsed mLenCnt 15
  if index = 0 then mLenCnt
  else
    let mLenCnt := mLenCnt.write index (mLenCnt index - 1)
    mLenCnt.write (index + 1) (mLenCnt (index + 1) + 2)

/-- The loop that adjusts the counts. A round takes one from the sum. -/
def adjustLoop : Nat → Nat → Cells Nat → Option (Cells Nat)
  | rounds, cum, mLenCnt =>
    if cum = 1 <<< 16 then some mLenCnt
    else
      match rounds with
      | 0 => none
      | rounds + 1 => adjustLoop rounds (cum - 1) (adjust mLenCnt)

/-- The lengths from a greatest one down, each as often as it is counted. -/
def lengthRow (mLenCnt : Cells Nat) : Nat → List Nat
  | 0 => []
  | index + 1 => List.replicate (mLenCnt (index + 1)) (index + 1) ++ lengthRow mLenCnt index

/-- `mLen[*mSortPtr++] = Index`. -/
def assignLens (code : Cells Nat) : List Nat → Nat → Cells Nat → Cells Nat
  | [], _, mLen => mLen
  | index :: row, mSortPtr, mLen =>
    assignLens code row (mSortPtr + 1) (mLen.write (code mSortPtr) index)

/-- `MakeLen`: the counts of the lengths and the lengths. -/
def makeLen (mN : Nat) (mLeft mRight code : Cells Nat) (root : Nat) (mLen : Cells Nat) :
    Option (Cells Nat × Cells Nat) :=
  let counted := countLen mN mLeft mRight (root + 1) root 0 ⟨fun _ => 0⟩
  let cum := cumulate counted 16
  (adjustLoop cum cum counted).map fun mLenCnt =>
    (mLenCnt, assignLens code (lengthRow mLenCnt 16) 0 mLen)

end Lengths

section Codes

/-- `Start` of `MakeCode`. Its first element is not initialised. -/
def startOf (start0 : Nat) (mLenCnt : Cells Nat) : Nat → Nat
  | 0 => start0
  | 1 => 0
  | index + 2 => ((startOf start0 mLenCnt (index + 1) + mLenCnt (index + 1)) <<< 1) % 2 ^ 16

/-- `Code[Index] = Start[Len[Index]]++`. -/
def numberCode (len : Cells Nat) (arrays : Cells Nat × Cells Nat) (index : Nat) :
    Cells Nat × Cells Nat :=
  (arrays.1.write (len index) ((arrays.1 (len index) + 1) % 2 ^ 16),
    arrays.2.write index (arrays.1 (len index)))

/-- `MakeCode`. -/
def makeCode (number start0 : Nat) (mLenCnt len code : Cells Nat) : Cells Nat :=
  ((List.range number).foldl (numberCode len) (⟨startOf start0 mLenCnt⟩, code)).2

end Codes

section Tree

/-- The arrays of `MakeTree` while it merges. The symbols that have left the heap are
written to the array of the codes. -/
structure Merging where
  mHeap : Cells Nat
  mHeapSize : Nat
  mFreq : Cells Nat
  mLeft : Cells Nat
  mRight : Cells Nat
  avail : Nat
  code : Cells Nat
  mSortPtr : Nat

/-- `*mSortPtr++ = Index`, for a symbol. -/
def Merging.sort (mN index : Nat) (merging : Merging) : Merging :=
  if index < mN then
    { merging with
      code := merging.code.write merging.mSortPtr index
      mSortPtr := merging.mSortPtr + 1 }
  else merging

/-- The first entry is taken off the heap. -/
def Merging.takeFirst (mN : Nat) (merging : Merging) : Merging :=
  let merging := merging.sort mN (merging.mHeap 1)
  let mHeap := merging.mHeap.write 1 (merging.mHeap merging.mHeapSize)
  { merging with
    mHeap := downHeap merging.mFreq (merging.mHeapSize - 1) 1 mHeap
    mHeapSize := merging.mHeapSize - 1 }

/-- The first entry is joined with one that was taken off before. -/
def Merging.join (mN index : Nat) (merging : Merging) : Merging :=
  let index2 := merging.mHeap 1
  let merging := merging.sort mN index2
  let index3 := merging.avail
  let mFreq := merging.mFreq.write index3
    ((merging.mFreq index + merging.mFreq index2) % 2 ^ 16)
  { merging with
    avail := merging.avail + 1
    mFreq := mFreq
    mHeap := downHeap mFreq merging.mHeapSize 1 (merging.mHeap.write 1 index3)
    mLeft := merging.mLeft.write index3 index
    mRight := merging.mRight.write index3 index2 }

/-- A round of the loop that merges. -/
def Merging.round (mN : Nat) (merging : Merging) : Merging :=
  (merging.takeFirst mN).join mN (merging.mHeap 1)

/-- The loop that merges. A round takes one entry from the heap. -/
def mergeLoop (mN : Nat) : Nat → Merging → Merging
  | 0, merging => merging
  | rounds + 1, merging =>
    let merging := merging.round mN
    if 1 < merging.mHeapSize then mergeLoop mN rounds merging else merging

/-- The symbols that occur are put on the heap. -/
def collect (mFreq : Cells Nat) (heap : Cells Nat × Nat) (index : Nat) : Cells Nat × Nat :=
  if mFreq index ≠ 0 then (heap.1.write (heap.2 + 1) index, heap.2 + 1) else heap

/-- The heap is ordered from its last parent up. -/
def heapify (mFreq : Cells Nat) (mHeapSize : Nat) : Nat → Cells Nat → Cells Nat
  | 0, mHeap => mHeap
  | index + 1, mHeap =>
    heapify mFreq mHeapSize index (downHeap mFreq mHeapSize (index + 1) mHeap)

/-- The globals that `MakeTree` works on besides its arguments. -/
structure Globals where
  mHeap : Cells Nat
  mLeft : Cells Nat
  mRight : Cells Nat

/-- What `MakeTree` leaves: the root that it returns, the frequencies, the lengths, the
codes and the globals. -/
structure Tree where
  root : Nat
  freq : Cells Nat
  len : Cells Nat
  code : Cells Nat
  globals : Globals

/-- `mLen[Index] = 0` for all symbols. -/
def clearLens (mN : Nat) (mLen : Cells Nat) : Cells Nat :=
  ⟨fun index => if index < mN then 0 else mLen index⟩

/-- `MakeTree`. There is no result if the loop of `MakeLen` runs on. -/
def makeTree (globals : Globals) (start0 nParm : Nat) (freqParm lenParm codeParm : Cells Nat) :
    Option Tree :=
  let mLen := clearLens nParm lenParm
  let heap := (List.range nParm).foldl (collect freqParm)
    (globals.mHeap.write 1 0, 0)
  if heap.2 < 2 then
    some ⟨heap.1 1, freqParm, mLen, codeParm.write (heap.1 1) 0,
      ⟨heap.1, globals.mLeft, globals.mRight⟩⟩
  else
    let merged := mergeLoop nParm heap.2
      { mHeap := heapify freqParm heap.2 (heap.2 / 2) heap.1
        mHeapSize := heap.2
        mFreq := freqParm
        mLeft := globals.mLeft
        mRight := globals.mRight
        avail := nParm
        code := codeParm
        mSortPtr := 0 }
    let root := merged.avail - 1
    (makeLen nParm merged.mLeft merged.mRight merged.code root mLen).map fun lens =>
      ⟨root, merged.mFreq, lens.2, makeCode nParm start0 lens.1 lens.2 merged.code,
        ⟨merged.mHeap, merged.mLeft, merged.mRight⟩⟩

end Tree

end SmcPkg.TianoCompress
