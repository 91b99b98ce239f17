import SmcPkg.Compress.OutputLaw

/-!
# The format is read back

`TianoCompress` puts items out behind a header with the sizes, as far as the destination has
room. From what it puts out `UefiTianoDecompress` makes the bytes that the items stand for.

The items are any sequence in which every pointer refers to bytes before it, with at least one
item. Which of these sequences `Encode` chooses for given bytes is not part of the model, nor
are the pools that `TianoCompress` allocates.
-/

namespace SmcPkg.UefiDecompress

open BitRows Cells Bytes PrefixCode TianoCompress

section Encoding

variable {huf : Huf} {items : List (Nat × Nat)}

/-- The globals as `Encode` finds them: the buffer has a size that `AllocateMemory` gives it,
and the frequencies are words of 16 bits. -/
structure Allocated (huf : Huf) : Prop where
  room : 4 * 1024 ≤ huf.mBufSiz
  atMost : huf.mBufSiz ≤ 2 ^ 14
  narrowC : ∀ index, huf.mCFreq index < 2 ^ 16
  narrowP : ∀ index, huf.mPFreq index < 2 ^ 16
  narrowT : ∀ index, huf.mTFreq index < 2 ^ 16

/-- Globals before the first compression. -/
def freshHuf : Huf where
  dst := ⟨[], 0, 0, 0, 0⟩
  globals := ⟨⟨fun _ => 0⟩, ⟨fun _ => 0⟩, ⟨fun _ => 0⟩⟩
  stack := fun _ => 0
  calls := 0
  mBuf := ⟨fun _ => 0⟩
  mBufSiz := 2 ^ 14
  mOutputPos := 0
  mOutputMask := 0
  cPos := 0
  mCFreq := ⟨fun _ => 0⟩
  mPFreq := ⟨fun _ => 0⟩
  mTFreq := ⟨fun _ => 0⟩
  codes := ⟨⟨fun _ => 0⟩, ⟨fun _ => 0⟩, ⟨fun _ => 0⟩, ⟨fun _ => 0⟩⟩

/-- The globals behind `AllocateMemory` and `HufEncodeStart`. -/
theorem freshHuf_allocated : Allocated freshHuf :=
  ⟨by decide, le_rfl, fun _ => Nat.two_pow_pos 16, fun _ => Nat.two_pow_pos 16,
    fun _ => Nat.two_pow_pos 16⟩

/-- At the start nothing waits. -/
theorem start_waiting (allocated : Allocated huf) : Waiting [] (hufEncodeStart huf) where
  counts := ⟨fun _ inside => clearFreq_below _ inside, fun _ inside => clearFreq_below _ inside,
    clearFreq_narrow allocated.narrowC, clearFreq_narrow allocated.narrowP, allocated.narrowT⟩
  formed := fun _ member => absurd member List.not_mem_nil
  collected := Or.inl ⟨rfl, rfl, rfl⟩
  room := (by decide : 41 ≤ 4 * 1024).trans allocated.room
  atMost := allocated.atMost

/-- A block leaves the size of the buffer. -/
theorem sendBlock_mBufSiz {later : Huf} (sent : sendBlock huf = some later) :
    later.mBufSiz = huf.mBufSiz := by
  rw [sendBlock, Option.bind_eq_some_iff] at sent
  obtain ⟨tree, -, rest⟩ := sent
  obtain ⟨second, sentC, rest⟩ := Option.bind_eq_some_iff.mp rest
  obtain ⟨third, sentP, rfl⟩ := Option.map_eq_some_iff.mp rest
  obtain ⟨treeP, -, rfl⟩ := Option.map_eq_some_iff.mp sentP
  change second.mBufSiz = huf.mBufSiz
  rw [sendC] at sentC
  split at sentC
  · obtain ⟨extra, -, rfl⟩ := Option.map_eq_some_iff.mp sentC
    rfl
  · obtain rfl := Option.some.inj sentC
    rfl

/-- So does an item that is put out. -/
theorem output_mBufSiz {later : Huf} {charC pos : Nat} (put : output charC pos huf = some later) :
    later.mBufSiz = huf.mBufSiz := by
  obtain ⟨begun, begins, rfl⟩ := Option.map_eq_some_iff.mp put
  rw [(storeItem_counts charC pos begun).2.2.2.1]
  rw [beginItem] at begins
  split at begins
  · obtain ⟨ready, made, rfl⟩ := Option.map_eq_some_iff.mp begins
    change ready.mBufSiz = huf.mBufSiz
    split at made
    · obtain ⟨sent, sends, rfl⟩ := Option.map_eq_some_iff.mp made
      have size := sendBlock_mBufSiz sends
      exact size
    · rw [Option.some.inj made]
  · obtain rfl := Option.some.inj begins
    rfl

/-- So do all of them. -/
theorem outputs_mBufSiz {later : Huf} (put : outputs items huf = some later) :
    later.mBufSiz = huf.mBufSiz := by
  induction items generalizing huf with
  | nil => rw [Option.some.inj put]
  | cons item items inductionHypothesis =>
    obtain ⟨next, first, rest⟩ := Option.bind_eq_some_iff.mp put
    exact (inductionHypothesis rest).trans (output_mBufSiz first)

/-- After any calls of `Output` the position in `mBuf` is inside the buffer, and the counts are
those of the items that wait there, no more of them than bytes. -/
theorem outputs_inBuffer (huf : Huf) (allocated : Allocated huf) (items : List (Nat × Nat))
    (formed : ∀ item ∈ items, Formed item) :
    ∃ later, outputs items (hufEncodeStart huf) = some later ∧
      later.mOutputPos ≤ huf.mBufSiz ∧
      ∃ pending sent, items = sent ++ pending ∧ pending.length ≤ later.mOutputPos ∧
        (∀ symbol < nc, later.mCFreq symbol = pending.countP fun item => item.1 = symbol) ∧
        ∀ bits < TianoCompress.np, later.mPFreq bits =
          pending.countP fun item => 256 ≤ item.1 ∧ bitsIn 32 item.2 = bits := by
  have start : Sent [] [] (hufEncodeStart huf) :=
    ⟨[], [], rfl, rfl, fun _ member => absurd member List.not_mem_nil, start_waiting allocated, id⟩
  obtain ⟨later, step, row, ran, -, blocks, pending, split, -, -, waiting, -⟩ :=
    outputs_sent start formed
  have put := ran (hufEncodeStart huf).dst
  have size : later.mBufSiz = huf.mBufSiz := by
    have same := outputs_mBufSiz put
    exact same
  refine ⟨_, put, size ▸ waiting.inBuffer, pending, blocks.flatMap Prod.snd, split,
    waiting.length_le, waiting.counts.characters, waiting.counts.positions⟩

/-- A character and a pointer wait in the buffer. -/
theorem outputs_inBuffer_pointer :
    ∃ later, outputs [(97, 0), (256, 0)] (hufEncodeStart freshHuf) = some later ∧
      later.mOutputPos ≤ 2 ^ 14 ∧
      ∃ pending sent, [(97, 0), (256, 0)] = sent ++ pending ∧
        pending.length ≤ later.mOutputPos ∧
        (∀ symbol < nc, later.mCFreq symbol = pending.countP fun item => item.1 = symbol) ∧
        ∀ bits < TianoCompress.np, later.mPFreq bits =
          pending.countP fun item => 256 ≤ item.1 ∧ bitsIn 32 item.2 = bits :=
  outputs_inBuffer freshHuf freshHuf_allocated [(97, 0), (256, 0)]
    (List.forall_mem_cons.mpr ⟨⟨by decide, by decide⟩,
      List.forall_mem_cons.mpr ⟨⟨by decide, by decide⟩,
        fun _ member => absurd member List.not_mem_nil⟩⟩)

/-- `Encode` sends all items in blocks and flushes the last bits. -/
theorem encode_sends (allocated : Allocated huf) (formed : ∀ item ∈ items, Formed item)
    (nonempty : items ≠ []) :
    ∃ later : Huf, ∃ step, ∃ blocks : List (List Bool × List (Nat × Nat)),
      (∀ dst, (outputs items (hufEncodeStart (huf.into dst))).bind hufEncodeEnd =
        some (later.into (step (initPutBits dst)))) ∧
      Puts step (blocks.flatMap Prod.fst ++ bitsOf 7 0) ∧ items = blocks.flatMap Prod.snd ∧
      ∀ block ∈ blocks, block.2 ≠ [] ∧ Sends block.1 block.2 := by
  have start : Sent [] [] (hufEncodeStart huf) :=
    ⟨[], [], rfl, rfl, fun _ member => absurd member List.not_mem_nil, start_waiting allocated, id⟩
  obtain ⟨between, first, row, ran, putsFirst, blocks, pending, split, rows, sends, waiting,
    left⟩ := outputs_sent start formed
  rw [List.nil_append] at split rows left
  obtain ⟨later, last, rowLast, sent, putsLast, sendsLast, -⟩ :=
    sendBlock_sends waiting.counts waiting.formed waiting.few waiting.sendItems
  have flush : Puts (putBits 7 0) (bitsOf 7 0) := puts_putBits (Nat.two_pow_pos 7)
  have puts := (putsFirst.andThen putsLast).andThen flush
  refine ⟨later, fun dst => putBits 7 0 (last (first dst)), blocks ++ [(rowLast, pending)],
    fun dst => ?_, ?_, ?_, ?_⟩
  · have begun : hufEncodeStart (huf.into dst) = (hufEncodeStart huf).into (initPutBits dst) := rfl
    rw [begun, ran, Option.bind_some, hufEncodeEnd, sent]
    rfl
  · rw [List.flatMap_append, List.flatMap_singleton, ← rows]
    exact puts
  · rw [List.flatMap_append, List.flatMap_singleton]
    exact split
  · intro block member
    rcases List.mem_append.mp member with before | last
    · exact sends block before
    · rw [List.mem_singleton.mp last]
      exact ⟨left nonempty, sendsLast⟩

end Encoding

section Streams

variable {header bytes : List UInt8} {bits : List Bool} {dst : Dst}

/-- Bytes are known from their bits. -/
theorem byteRow_injective {first second : List UInt8} (same : byteRow first = byteRow second) :
    first = second := by
  have length := congrArg List.length same
  rw [byteRow_length, byteRow_length] at length
  induction first generalizing second with
  | nil => exact (List.length_eq_zero_iff.mp (by simpa using length.symm)).symm
  | cons byte first inductionHypothesis =>
    cases second with
    | nil => exact absurd length (by simp)
    | cons other second =>
      rw [byteRow_cons, byteRow_cons] at same
      have fits : ∀ byte : UInt8, byte.toNat < 2 ^ 8 := fun byte => byte.toNat_lt
      obtain ⟨head, tail⟩ := List.append_inj same (by rw [bitsOf_length, bitsOf_length])
      have value : byte = other := by
        refine UInt8.toNat_inj.mp ?_
        rw [← front_number (fits byte) [], head, front_number (fits other) []]
      rw [value, inductionHypothesis tail (by simpa using length)]

/-- The bytes that hold some bits behind a flush are known from the bits. -/
theorem flushed_row (putOut : PutOut header bytes (bits ++ bitsOf 7 0) dst) :
    byteRow bytes = bits ++ List.replicate (8 * ((bits.length + 7) / 8) - bits.length) false := by
  obtain ⟨zeros, row⟩ := putOut_flushed putOut
  have lengths := congrArg List.length putOut.row
  have rowLengths := congrArg List.length row
  have free := putOut.free
  have inByte := putOut.inByte
  rw [List.length_append, List.length_append, bitsOf_length, bitsOf_length,
    byteRow_length] at lengths
  rw [byteRow_length, List.length_append, List.length_replicate] at rowLengths
  have count : zeros = 8 * ((bits.length + 7) / 8) - bits.length := by omega
  rw [row, count]

/-- `PutDword` puts four bytes behind the others. -/
theorem putDword_bytes {written : List UInt8} (data : Nat)
    (holds : dst.bytes = written.take dst.dstSize) :
    (putDword data dst).bytes = (written ++ le32 data).take dst.dstSize ∧
      (putDword data dst).dstSize = dst.dstSize := by
  have first := put_bytes (UInt8.ofNat data) holds
  rw [← put_dstSize dst (UInt8.ofNat data)] at first
  have second := put_bytes (UInt8.ofNat (data >>> 0x08)) first
  rw [← put_dstSize _ (UInt8.ofNat (data >>> 0x08))] at second
  have third := put_bytes (UInt8.ofNat (data >>> 0x10)) second
  rw [← put_dstSize _ (UInt8.ofNat (data >>> 0x10))] at third
  have fourth := put_bytes (UInt8.ofNat (data >>> 0x18)) third
  rw [put_dstSize, put_dstSize, put_dstSize] at fourth
  refine ⟨?_, ?_⟩
  · rw [putDword, fourth]
    simp only [List.append_assoc, List.cons_append, List.nil_append, le32,
      Nat.shiftRight_eq_div_pow]
  · rw [putDword, put_dstSize, put_dstSize, put_dstSize, put_dstSize]

/-- Room for the sizes is left at the begin of the destination. -/
theorem reserved (fresh : Dst) (empty : fresh.bytes = []) :
    PutOut (le32 0 ++ le32 0) [] []
        (initPutBits { putDword 0 (putDword 0 fresh) with mCompSize := 0 }) ∧
      (initPutBits { putDword 0 (putDword 0 fresh) with mCompSize := 0 }).dstSize =
        fresh.dstSize := by
  have start : fresh.bytes = ([] : List UInt8).take fresh.dstSize := by
    rw [empty, List.take_nil]
  obtain ⟨first, sizeFirst⟩ := putDword_bytes 0 start
  rw [← sizeFirst] at first
  obtain ⟨second, sizeSecond⟩ := putDword_bytes 0 first
  rw [← sizeSecond, List.nil_append] at second
  have size := sizeSecond.trans sizeFirst
  generalize putDword 0 (putDword 0 fresh) = dst at second size ⊢
  have written : ({ dst with mCompSize := 0 } : Dst).bytes =
    (le32 0 ++ le32 0).take ({ dst with mCompSize := 0 } : Dst).dstSize := second
  exact ⟨initPutBits_putOut written rfl, size⟩

/-- What is put in front of the bytes replaces as many of them. -/
theorem take_front {front old rest : List UInt8} (length : front.length = old.length)
    (count : Nat) :
    front.take count ++ ((old ++ rest).take count).drop (front.take count).length =
      (front ++ rest).take count := by
  by_cases few : count ≤ front.length
  · rw [List.take_append_of_le_length few, List.take_append_of_le_length (length ▸ few),
      List.drop_eq_nil_of_le, List.append_nil]
    rw [List.length_take, List.length_take, length]
  · have whole : front.take count = front := List.take_of_length_le (by omega)
    have wholeOld : old.take count = old := List.take_of_length_le (by omega)
    rw [whole, List.take_append, wholeOld, List.take_append, whole, length, List.drop_left]

/-- What `TianoCompress` puts out in a destination with room. -/
def stream (mOrigSize : Nat) (bytes : List UInt8) : List UInt8 :=
  le32 ((bytes.length + 1) % 2 ^ 32) ++ le32 mOrigSize ++ (bytes ++ [0])

/-- A stream has two sizes in front of its data and a byte behind them. -/
theorem stream_length (mOrigSize : Nat) (bytes : List UInt8) :
    (stream mOrigSize bytes).length = bytes.length + 9 := by
  rw [stream, List.length_append, List.length_append, List.length_append]
  simp only [le32, List.length_cons, List.length_nil]
  omega

/-- The sizes are put at the begin of the destination. -/
theorem header_bytes (fresh : Dst) (empty : fresh.bytes = []) (first second : Nat) :
    (putDword second (putDword first fresh)).bytes =
      (le32 first ++ le32 second).take fresh.dstSize := by
  have start : fresh.bytes = ([] : List UInt8).take fresh.dstSize := by
    rw [empty, List.take_nil]
  obtain ⟨one, size⟩ := putDword_bytes first start
  rw [← size] at one
  obtain ⟨both, -⟩ := putDword_bytes second one
  rw [both, size, List.nil_append]

/-- The end of a compression. -/
theorem finish_stream (mOrigSize : Nat) (putOut : PutOut (le32 0 ++ le32 0) bytes bits dst) :
    finish mOrigSize dst =
      { status := if dst.dstSize < (stream mOrigSize bytes).length % 2 ^ 32 then .bufferTooSmall
          else .success
        bytes := (stream mOrigSize bytes).take dst.dstSize
        dstSize := (stream mOrigSize bytes).length % 2 ^ 32 } := by
  have counted : (dst.put 0).mCompSize = bytes.length % 2 ^ 32 := by
    rw [← putOut.counted, Dst.put]
    split <;> rfl
  have written := put_bytes 0 putOut.written
  have size := put_dstSize dst 0
  have first : ((dst.put 0).mCompSize + 1) % 2 ^ 32 = (bytes.length + 1) % 2 ^ 32 := by
    rw [counted, Nat.mod_add_mod]
  have needed : ((dst.put 0).mCompSize + 1 + 8) % 2 ^ 32 =
      (stream mOrigSize bytes).length % 2 ^ 32 := by
    rw [counted, stream_length, Nat.add_assoc, Nat.mod_add_mod]
  rw [finish, header_bytes _ rfl]
  simp only [first, needed, size, written]
  have sizes : (le32 ((bytes.length + 1) % 2 ^ 32) ++ le32 mOrigSize).length =
    (le32 0 ++ le32 0).length := rfl
  rw [List.append_assoc, take_front sizes, stream]

end Streams

section Decoding

variable {items : List (Nat × Nat)} {out bytes : List UInt8} {memory : Memory}

/-- Each item stands for a byte at least. -/
theorem length_le_expand : items.length + out.length ≤ (expand out items).length := by
  induction items generalizing out with
  | nil => exact (Nat.zero_add _).le
  | cons item items inductionHypothesis =>
    have longer : out.length < (expandItem out item).length := expandItem_length
    have rest : items.length + (expandItem out item).length ≤
        (expand out (item :: items)).length := inductionHypothesis
    rw [List.length_cons]
    omega

/-- Items that fit are those of the format. -/
theorem formed_of_fitAll (fit : FitAll out items) : ∀ item ∈ items, Formed item := by
  induction items generalizing out with
  | nil => exact fun item member => absurd member List.not_mem_nil
  | cons item items inductionHypothesis =>
    rw [List.forall_mem_cons]
    exact ⟨⟨fit.1.inC, fit.1.inWindow⟩, inductionHypothesis fit.2⟩

/-- A size is read from the header. -/
theorem sizeAt_stored {place value : Nat} (stored : Stored memory place (le32 value))
    (fits : value < 2 ^ 32) : sizeAt memory place = value := by
  obtain ⟨first, rest⟩ := stored_cons.mp stored
  obtain ⟨second, rest⟩ := stored_cons.mp rest
  obtain ⟨third, rest⟩ := stored_cons.mp rest
  obtain ⟨fourth, -⟩ := stored_cons.mp rest
  rw [Nat.add_assoc] at third
  rw [Nat.add_assoc, Nat.add_assoc] at fourth
  rw [sizeAt, first, second, third, fourth]
  simp only [UInt8.toNat_ofNat', Nat.shiftLeft_eq]
  omega

/-- The sizes in front of a stream are those of its data and of the bytes it stands for. Only
the first eight bytes of the stream have to lie in memory. -/
theorem stream_sizes {mOrigSize : Nat} (small : mOrigSize < 2 ^ 32)
    (short : (stream mOrigSize bytes).length < 2 ^ 32)
    (stored : Stored memory 0 ((stream mOrigSize bytes).take 8)) :
    sizeAt memory 0 = bytes.length + 1 ∧ sizeAt memory 4 = mOrigSize := by
  rw [stream_length] at short
  rw [stream, List.take_left' (by rfl), stored_append] at stored
  obtain ⟨compSize, origSize⟩ := stored
  have compSizeIs := sizeAt_stored compSize (Nat.mod_lt _ (Nat.two_pow_pos 32))
  have origSizeIs := sizeAt_stored origSize small
  rw [Nat.mod_eq_of_lt (by omega)] at compSizeIs
  have whole : (le32 ((bytes.length + 1) % 2 ^ 32)).length = 4 := rfl
  rw [whole, Nat.zero_add] at origSizeIs
  exact ⟨compSizeIs, origSizeIs⟩

/-- The sizes of a stream are given to a caller who has all of it, and to no other. Of the
stream only the bytes that the caller has lie in memory, so nothing is assumed of what stands
behind a source that is cut short. -/
theorem getInfo_stream {mOrigSize : Nat} (small : mOrigSize < 2 ^ 32)
    (short : (stream mOrigSize bytes).length < 2 ^ 32) {sourceSize : Nat}
    (stored : Stored memory 0 ((stream mOrigSize bytes).take sourceSize)) (sizeOfScratch : Nat) :
    uefiDecompressGetInfo memory sourceSize sizeOfScratch =
      if (stream mOrigSize bytes).length ≤ sourceSize then some ⟨mOrigSize, sizeOfScratch⟩
      else none := by
  rw [uefiDecompressGetInfo, stream_length]
  by_cases header : sourceSize < 8
  · rw [if_pos header, if_neg (by omega : ¬bytes.length + 9 ≤ sourceSize)]
  · have sizes : Stored memory 0 ((stream mOrigSize bytes).take 8) := by
      have front := stored.take 8
      rwa [List.take_take, Nat.min_eq_left (by omega : 8 ≤ sourceSize)] at front
    obtain ⟨compSizeIs, origSizeIs⟩ := stream_sizes small short sizes
    rw [stream_length] at short
    rw [if_neg header, compSizeIs, origSizeIs,
      Nat.mod_eq_of_lt (by omega : bytes.length + 1 + 8 < 2 ^ 32)]
    by_cases whole : bytes.length + 9 ≤ sourceSize
    · have data : ¬sourceSize < bytes.length + 1 + 8 := by omega
      rw [if_neg data, if_pos whole]
    · have data : sourceSize < bytes.length + 1 + 8 := by omega
      rw [if_pos data, if_neg whole]

/-- From a stream the decompression makes what the items stand for. -/
theorem decompress_stream {blocks : List (List Bool × List (Nat × Nat))} {zeros : Nat}
    (sends : ∀ block ∈ blocks, block.2 ≠ [] ∧ Sends block.1 block.2)
    (split : items = blocks.flatMap Prod.snd)
    (row : byteRow bytes = blocks.flatMap Prod.fst ++ List.replicate zeros false)
    (fit : FitAll [] items) (nonempty : items ≠ []) (small : (expand [] items).length < 2 ^ 32)
    (short : (stream (expand [] items).length bytes).length < 2 ^ 32)
    (stored : Stored memory 0 (stream (expand [] items).length bytes))
    (destination : Cells UInt8) :
    ∃ final, uefiTianoDecompress memory destination 2 = .ok final ∧
      ∀ i < (expand [] items).length, final i = (expand [] items).getD i 0 := by
  have atLeast : items.length + ([] : List UInt8).length ≤ (expand [] items).length :=
    length_le_expand
  rw [List.length_nil, Nat.add_zero] at atLeast
  have positive : 0 < items.length := List.length_pos_of_ne_nil nonempty
  obtain ⟨compSizeIs, origSizeIs⟩ := stream_sizes small short (stored.take 8)
  rw [stream, stored_append] at stored
  have data := stored.2
  have dataStored : Stored (shifted 8 memory) 0 (bytes ++ [0]) := by
    intro i inside
    have there := data i inside
    rw [← there, shifted, Nat.zero_add]
    rfl
  have ahead := ahead_start dataStored
  rw [byteRow_snoc, row, List.append_assoc, UInt8.toNat_zero, bitsOf_zero,
    List.replicate_append_replicate, Ahead.padded] at ahead
  rw [List.length_append, List.length_singleton] at ahead
  have coming : Coming items (initialScratch (shifted 8 memory) (bytes.length + 1)
      (expand [] items).length 2 destination) :=
    ⟨rfl, [], blocks, split, sends, Or.inr ⟨rfl, rfl, ahead⟩⟩
  have holds : Holds [] (initialScratch (shifted 8 memory) (bytes.length + 1)
      (expand [] items).length 2 destination) :=
    ⟨rfl, fun i below => absurd below (Nat.not_lt_zero i)⟩
  obtain ⟨later, ran, held⟩ := decodeLoop_run coming holds fit rfl small
    (Nat.lt_succ_of_le atLeast)
  refine ⟨later.mDstBase, ?_, held.bytes⟩
  have notEmpty : ¬(expand [] items).length = 0 := by omega
  rw [uefiTianoDecompress, origSizeIs, compSizeIs, if_neg notEmpty, decode]
  refine congrArg (Except.map Scratch.mDstBase) ran

end Decoding

section Compressing

variable {huf : Huf} {items : List (Nat × Nat)}

/-- What is put out for items does not depend on the destination. -/
theorem tianoCompress_stream (allocated : Allocated huf) (formed : ∀ item ∈ items, Formed item)
    (nonempty : items ≠ []) (mOrigSize : Nat) :
    ∃ bytes, ∃ blocks : List (List Bool × List (Nat × Nat)), ∃ zeros,
      (∀ dstSize, tianoCompress items mOrigSize dstSize huf = some
        { status := if dstSize < (stream mOrigSize bytes).length % 2 ^ 32 then .bufferTooSmall
            else .success
          bytes := (stream mOrigSize bytes).take dstSize
          dstSize := (stream mOrigSize bytes).length % 2 ^ 32 }) ∧
      (∀ block ∈ blocks, block.2 ≠ [] ∧ Sends block.1 block.2) ∧
      items = blocks.flatMap Prod.snd ∧
      byteRow bytes = blocks.flatMap Prod.fst ++ List.replicate zeros false := by
  obtain ⟨later, step, blocks, ran, puts, split, sends⟩ := encode_sends allocated formed nonempty
  have start : Out [] [] (initPutBits ⟨[], 0, 0, 0, 0⟩) :=
    ⟨[], initPutBits_putOut rfl rfl⟩
  obtain ⟨⟨bytes, flushed⟩, -⟩ := puts _ _ _ start
  have row := flushed_row flushed
  refine ⟨bytes, blocks, _, fun dstSize => ?_, sends, split, row⟩
  obtain ⟨begun, size⟩ := reserved { huf.dst with bytes := [], dstSize := dstSize } rfl
  obtain ⟨⟨written, out⟩, same⟩ := puts _ _ _ ⟨[], begun⟩
  have whole : written = bytes := byteRow_injective ((flushed_row out).trans row.symm)
  rw [whole] at out
  have ended := finish_stream mOrigSize out
  rw [same, size] at ended
  rw [tianoCompress, ran, Option.map_some, ← ended]
  rfl

/-- For characters and pointers of the format that fit together, `TianoCompress` ends with the
status and the size it promises, for a destination of any size, and what it puts out in one
with room is decompressed to the bytes that they stand for. -/
theorem tianoCompress_roundTrip (huf : Huf) (allocated : Allocated huf)
    (items : List (Nat × Nat)) (fit : FitAll [] items) (nonempty : items ≠ [])
    (small : (expand [] items).length < 2 ^ 32) :
    ∃ sent : List UInt8,
      (∀ dstSize, tianoCompress items (expand [] items).length dstSize huf = some
        { status := if dstSize < sent.length % 2 ^ 32 then .bufferTooSmall else .success
          bytes := sent.take dstSize
          dstSize := sent.length % 2 ^ 32 }) ∧
      (sent.length < 2 ^ 32 → ∀ memory destination, Stored memory 0 sent →
        ∃ final, uefiTianoDecompress memory destination 2 = .ok final ∧
          ∀ i < (expand [] items).length, final i = (expand [] items).getD i 0) := by
  obtain ⟨bytes, blocks, zeros, compresses, sends, split, row⟩ :=
    tianoCompress_stream allocated (formed_of_fitAll fit) nonempty (expand [] items).length
  exact ⟨_, compresses, fun short memory destination stored =>
    decompress_stream sends split row fit nonempty small short stored destination⟩

/-- Three characters, and a pointer of length five to the first of them. -/
theorem fitAll_abcabcab : FitAll [] [(97, 0), (98, 0), (99, 0), (258, 2)] :=
  ⟨⟨by decide, by decide, by decide⟩, ⟨by decide, by decide, by decide⟩,
    ⟨by decide, by decide, by decide⟩, ⟨by decide, by decide, by decide⟩, trivial⟩

/-- The items of `abcabcab` are put out and decompressed. -/
theorem tianoCompress_roundTrip_abcabcab :
    ∃ sent : List UInt8,
      (∀ dstSize, tianoCompress [(97, 0), (98, 0), (99, 0), (258, 2)] 8 dstSize freshHuf = some
        { status := if dstSize < sent.length % 2 ^ 32 then .bufferTooSmall else .success
          bytes := sent.take dstSize
          dstSize := sent.length % 2 ^ 32 }) ∧
      (sent.length < 2 ^ 32 → ∀ memory destination, Stored memory 0 sent →
        ∃ final, uefiTianoDecompress memory destination 2 = .ok final ∧
          ∀ i < 8, final i = [97, 98, 99, 97, 98, 99, 97, 98].getD i 0) :=
  tianoCompress_roundTrip freshHuf freshHuf_allocated [(97, 0), (98, 0), (99, 0), (258, 2)]
    fitAll_abcabcab (List.cons_ne_nil _ _) (by decide)

/-- `UefiDecompressGetInfo` accepts what `TianoCompress` put out, with the size in `*DstSize` or
a larger one, and gives the size of the bytes; it refuses a source that is cut short. Of the
source only its first `sourceSize` bytes are those that were put out. -/
theorem getInfo_compressed (huf : Huf) (allocated : Allocated huf) (items : List (Nat × Nat))
    (formed : ∀ item ∈ items, Formed item) (nonempty : items ≠ []) (mOrigSize : Nat)
    (small : mOrigSize < 2 ^ 32) (sizeOfScratch : Nat) :
    ∃ sent : List UInt8,
      (∀ dstSize, tianoCompress items mOrigSize dstSize huf = some
        { status := if dstSize < sent.length % 2 ^ 32 then .bufferTooSmall else .success
          bytes := sent.take dstSize
          dstSize := sent.length % 2 ^ 32 }) ∧
      (sent.length < 2 ^ 32 → ∀ memory sourceSize, Stored memory 0 (sent.take sourceSize) →
        uefiDecompressGetInfo memory sourceSize sizeOfScratch =
          if sent.length ≤ sourceSize then some ⟨mOrigSize, sizeOfScratch⟩ else none) := by
  obtain ⟨bytes, -, -, compresses, -⟩ := tianoCompress_stream allocated formed nonempty mOrigSize
  exact ⟨stream mOrigSize bytes, compresses, fun short memory sourceSize stored =>
    getInfo_stream small short stored sizeOfScratch⟩

/-- The sizes of that stream are given to a caller who has all of it. -/
theorem getInfo_compressed_abcabcab :
    ∃ sent : List UInt8,
      (∀ dstSize, tianoCompress [(97, 0), (98, 0), (99, 0), (258, 2)] 8 dstSize freshHuf = some
        { status := if dstSize < sent.length % 2 ^ 32 then .bufferTooSmall else .success
          bytes := sent.take dstSize
          dstSize := sent.length % 2 ^ 32 }) ∧
      (sent.length < 2 ^ 32 → ∀ memory sourceSize, Stored memory 0 (sent.take sourceSize) →
        uefiDecompressGetInfo memory sourceSize 13376 =
          if sent.length ≤ sourceSize then some ⟨8, 13376⟩ else none) :=
  getInfo_compressed freshHuf freshHuf_allocated [(97, 0), (98, 0), (99, 0), (258, 2)]
    (formed_of_fitAll fitAll_abcabcab) (List.cons_ne_nil _ _) 8 (by decide) 13376

end Compressing

end SmcPkg.UefiDecompress
