import SmcPkg.InBand.Blowfish

/-!
# The cipher as it is called

The functions of `CBlowfish.c` share their tables and the size of a block, which the
initialization sets. They work in place on a buffer, block by block, and return 0 for a size
that they do not take. Enciphering and deciphering take each other back, block by block and
on every part of a buffer that is made of whole blocks.
-/

namespace SmcPkg.Blowfish

open Bytes

section Calls

/-- The variables of the file. -/
structure Globals where
  good : UInt8
  chunkSize : Nat
  tables : Tables

/-- A string that `CBlowFishInit` takes as a key. -/
structure Key where
  chars : List UInt8
  sized : 4 ≤ chars.length ∧ chars.length ≤ 54
  ended : 0 ∉ chars

/-- `CBlowFishInit` on the variables of the file. -/
def Globals.init (seed : Tables) (globals : Globals) (key : List UInt8) : Globals :=
  if key.length > 54 ∨ key.length < 4 then { globals with good := 0 }
  else ⟨1, Blowfish.chunkSize, cBlowFishInit seed globals.tables key⟩

/-- A word of a buffer is replaced. -/
def putWord (buffer : List UInt8) (place : Nat) (value : UInt32) : List UInt8 :=
  buffer.take place ++ le32 value.toNat ++ buffer.drop (place + 4)

/-- A round of the loop over the blocks: the two words of a block are replaced. -/
def cipherBlockAt (cipher : Halves → Halves) (chunkSize : Nat) (buffer : List UInt8) (i : Nat) :
    List UInt8 :=
  let memory := memoryOf buffer (fun _ => 0)
  let halves := cipher (word32 memory (i * chunkSize), word32 memory (i * chunkSize + chunkSize / 2))
  putWord (putWord buffer (i * chunkSize) halves.1) (i * chunkSize + chunkSize / 2) halves.2

/-- What both functions do with a buffer: the value they return, and the buffer behind it.
There is no result before the initialization, where the size of a block is zero. -/
def charArrayCall (cipher : Halves → Halves) (chunkSize : Nat) (buffer : List UInt8)
    (bSize : Nat) : Option (UInt8 × List UInt8) :=
  if bSize = 0 then some (0, buffer)
  else if bSize > buffer.length then some (0, buffer)
  else if chunkSize = 0 then none
  else if bSize % chunkSize ≠ 0 then some (0, buffer)
  else some (1, (List.range (bSize / chunkSize)).foldl (cipherBlockAt cipher chunkSize) buffer)

/-- `CBlowFishEncipherCharArray` as a call. -/
def Globals.encipherCharArray (globals : Globals) : List UInt8 → Nat → Option (UInt8 × List UInt8) :=
  charArrayCall (cBlowFishEncipher globals.tables) globals.chunkSize

/-- `CBlowFishDecipherChararray` as a call. -/
def Globals.decipherChararray (globals : Globals) : List UInt8 → Nat → Option (UInt8 × List UInt8) :=
  charArrayCall (cBlowFishDecipher globals.tables) globals.chunkSize

end Calls

section InPlace

variable {cipher back : Halves → Halves} {front rest : List UInt8}

/-- Behind a front the bytes are those of the rest. -/
theorem memoryOf_behind (tail : Memory) (i : Nat) :
    memoryOf (front ++ rest) tail (front.length + i) = memoryOf rest tail i := by
  rw [memoryOf, memoryOf, List.getElem?_append_right (by omega), List.length_append]
  congr 2 <;> omega

/-- So are the words. -/
theorem word32_behind (tail : Memory) (i : Nat) :
    word32 (memoryOf (front ++ rest) tail) (front.length + i) = word32 (memoryOf rest tail) i := by
  simp only [word32, Nat.add_assoc, memoryOf_behind]

/-- A word that is put behind a front leaves the front. -/
theorem putWord_behind (value : UInt32) (place : Nat) :
    putWord (front ++ rest) (front.length + place) value = front ++ putWord rest place value := by
  rw [putWord, putWord, List.take_length_add_append, Nat.add_assoc, List.drop_length_add_append]
  simp only [List.append_assoc]

/-- Both words of the first block. -/
theorem putWord_block (long : chunkSize ≤ rest.length) (left right : UInt32) :
    putWord (putWord rest 0 left) (chunkSize / 2) right =
      le32 left.toNat ++ le32 right.toNat ++ rest.drop chunkSize := by
  match rest, long with
  | _ :: _ :: _ :: _ :: _ :: _ :: _ :: _ :: _, _ => rfl

/-- A block behind finished blocks. -/
theorem cipherBlockAt_behind {i : Nat} (finished : front.length = i * chunkSize)
    (long : chunkSize ≤ rest.length) :
    cipherBlockAt cipher chunkSize (front ++ rest) i =
      front ++ cipherBlocks cipher 1 rest := by
  have first : word32 (memoryOf (front ++ rest) (fun _ => 0)) (front.length + 0) = _ :=
    word32_behind (fun _ => 0) 0
  have left : ∀ value, putWord (front ++ rest) front.length value = front ++ putWord rest 0 value :=
    fun value => putWord_behind value 0
  rw [Nat.add_zero] at first
  simp only [cipherBlockAt, ← finished, first, word32_behind, left, putWord_behind, cipherBlocks,
    putWord_block long]

/-- The loop behind finished blocks. -/
theorem cipherBlocks_inPlace {i count : Nat} (finished : front.length = i * chunkSize)
    (fits : chunkSize * count ≤ rest.length) :
    (List.range' i count).foldl (cipherBlockAt cipher chunkSize) (front ++ rest) =
      front ++ cipherBlocks cipher count rest := by
  induction count generalizing i front rest with
  | zero => rfl
  | succ count inductionHypothesis =>
    have long : chunkSize ≤ rest.length := by
      rw [chunkSize] at *
      omega
    have split : cipherBlocks cipher 1 rest =
        (cipherBlocks cipher 1 rest).take chunkSize ++ rest.drop chunkSize := rfl
    have taken : ((cipherBlocks cipher 1 rest).take chunkSize).length = chunkSize := rfl
    have done : (front ++ (cipherBlocks cipher 1 rest).take chunkSize).length =
        (i + 1) * chunkSize := by
      rw [List.length_append, taken, finished, Nat.succ_mul]
    have fitsRest : chunkSize * count ≤ (rest.drop chunkSize).length := by
      rw [List.length_drop, chunkSize] at *
      omega
    rw [List.range'_succ, List.foldl_cons, cipherBlockAt_behind finished long, split,
      ← List.append_assoc, inductionHypothesis done fitsRest, List.append_assoc]
    rfl

/-- A call is the loop over the blocks of the buffer, or returns 0. -/
theorem charArrayCall_eq (buffer : List UInt8) (bSize : Nat) :
    charArrayCall cipher chunkSize buffer bSize = some
      (match cipherCharArray cipher buffer bSize with
        | some changed => (1, changed)
        | none => (0, buffer)) := by
  have positive : chunkSize ≠ 0 := by decide
  have place : ([] : List UInt8).length = 0 * chunkSize := rfl
  rw [charArrayCall, cipherCharArray]
  by_cases empty : bSize = 0
  · simp only [empty, if_true]
  by_cases exceeds : bSize > buffer.length
  · simp only [empty, exceeds, if_true, if_false]
  by_cases odd : bSize % chunkSize ≠ 0
  · rw [if_neg empty, if_neg exceeds, if_neg positive, if_pos odd, if_neg empty, if_neg exceeds,
      if_pos odd]
  · have fits : chunkSize * (bSize / chunkSize) ≤ buffer.length :=
      (Nat.mul_div_le bSize chunkSize).trans (Nat.le_of_not_gt exceeds)
    have loop : (List.range' 0 _).foldl (cipherBlockAt cipher chunkSize) ([] ++ buffer) = _ :=
      cipherBlocks_inPlace place fits
    rw [if_neg empty, if_neg exceeds, if_neg positive, if_neg odd, if_neg empty, if_neg exceeds,
      if_neg odd, List.range_eq_range']
    exact congrArg (fun changed => some ((1 : UInt8), changed)) loop

end InPlace

section Inverse

variable (tables : Tables)

/-- `CBlowFishEncipher` takes `CBlowFishDecipher` back. -/
theorem encipher_decipher (halves : Halves) :
    cBlowFishEncipher tables (cBlowFishDecipher tables halves) = halves := by
  have reversed : tables.p.toList.reverse =
      (tables.p.toList.drop 2).reverse ++ [tables.p.get 1, tables.p.get 0] := by
    conv_lhs => rw [keys_split_front, List.reverse_cons, List.reverse_cons, List.append_assoc]
    rfl
  have cancelled := Feistel.crypt_reverse (f tables) UInt32.xor_assoc xor_cancelLeft
    xor_cancelRight (tables.p.toList.drop 2).reverse (tables.p.get 1) (tables.p.get 0) halves
  rw [← reversed, List.reverse_reverse] at cancelled
  rw [encipher_crypt, decipher_crypt]
  exact cancelled

/-- The bytes behind the blocks stay. -/
theorem cipherBlocks_drop {cipher : Halves → Halves} (count : Nat) (buffer : List UInt8) :
    (cipherBlocks cipher count buffer).drop (chunkSize * count) =
      buffer.drop (chunkSize * count) := by
  induction count generalizing buffer with
  | zero => rfl
  | succ count inductionHypothesis =>
    have more : chunkSize * (count + 1) = chunkSize + chunkSize * count := by
      rw [Nat.mul_succ, Nat.add_comm]
    have block : (cipherBlocks cipher (count + 1) buffer).drop chunkSize =
        cipherBlocks cipher count (buffer.drop chunkSize) := rfl
    rw [more, ← List.drop_drop, block, inductionHypothesis, List.drop_drop]

/-- Some whole blocks of a buffer. -/
def WholeBlocks (buffer : List UInt8) (bSize : Nat) : Prop :=
  0 < bSize ∧ bSize % chunkSize = 0 ∧ bSize ≤ buffer.length

/-- Whole blocks are enciphered. -/
theorem cipherCharArray_whole {cipher : Halves → Halves} {buffer : List UInt8} {bSize : Nat}
    (whole : WholeBlocks buffer bSize) :
    cipherCharArray cipher buffer bSize =
      some (cipherBlocks cipher (bSize / chunkSize) buffer) := by
  obtain ⟨positive, even, fits⟩ := whole
  rw [cipherCharArray, if_neg (by omega), if_neg (by omega), if_neg (not_not.mpr even)]

/-- Other sizes are refused. -/
theorem cipherCharArray_refused {cipher : Halves → Halves} {buffer : List UInt8} {bSize : Nat}
    (refused : ¬ WholeBlocks buffer bSize) : cipherCharArray cipher buffer bSize = none := by
  rw [cipherCharArray]
  split_ifs with empty exceeds odd
  · rfl
  · rfl
  · rfl
  · exact absurd ⟨by omega, not_not.mp odd, by omega⟩ refused

/-- The first call of the cipher makes its tables of the key. -/
theorem init_key (seed : Tables) (globals : Globals) (key : Key) :
    globals.init seed key.chars =
      ⟨1, chunkSize, cBlowFishInit seed globals.tables key.chars⟩ := by
  have short : ¬ (key.chars.length > 54 ∨ key.chars.length < 4) := by
    have sized := key.sized
    omega
  rw [Globals.init, if_neg short]

/-- The ciphers of a block take each other back with all tables. After the initialization with
any key, what was enciphered in a buffer is deciphered again and the bytes behind it stay, and
a size that is not one of whole blocks of the buffer is refused. -/
theorem charArrays_roundTrip (seed : Tables) (globals : Globals) (key : Key)
    (buffer : List UInt8) (bSize : Nat) :
    (∀ tables halves, cBlowFishDecipher tables (cBlowFishEncipher tables halves) = halves ∧
        cBlowFishEncipher tables (cBlowFishDecipher tables halves) = halves) ∧
      let initialized := globals.init seed key.chars
      (WholeBlocks buffer bSize → ∃ enciphered,
        initialized.encipherCharArray buffer bSize = some (1, enciphered) ∧
          enciphered.length = buffer.length ∧
          enciphered.drop bSize = buffer.drop bSize ∧
          initialized.decipherChararray enciphered bSize = some (1, buffer)) ∧
      (¬ WholeBlocks buffer bSize →
        initialized.encipherCharArray buffer bSize = some (0, buffer) ∧
          initialized.decipherChararray buffer bSize = some (0, buffer)) := by
  refine ⟨fun tables halves => ⟨decipher_encipher tables halves, encipher_decipher tables halves⟩,
    ?_⟩
  rw [init_key]
  constructor
  · intro whole
    let tables := cBlowFishInit seed globals.tables key.chars
    let enciphered := cipherBlocks (cBlowFishEncipher tables) (bSize / chunkSize) buffer
    have blocks : chunkSize * (bSize / chunkSize) = bSize :=
      Nat.mul_div_cancel' (Nat.dvd_of_mod_eq_zero whole.2.1)
    have fits : chunkSize * (bSize / chunkSize) ≤ buffer.length := blocks.symm ▸ whole.2.2
    have length : enciphered.length = buffer.length := cipherBlocks_length fits
    have behind : enciphered.drop bSize = buffer.drop bSize := by
      rw [← blocks]
      exact cipherBlocks_drop _ _
    have wholeAgain : WholeBlocks enciphered bSize := by
      rw [WholeBlocks, length]
      exact whole
    refine ⟨enciphered, ?_, length, behind, ?_⟩
    · rw [Globals.encipherCharArray, charArrayCall_eq, cipherCharArray_whole whole]
    · rw [Globals.decipherChararray, charArrayCall_eq, cipherCharArray_whole wholeAgain]
      exact congrArg (fun deciphered => some ((1 : UInt8), deciphered))
        (cipherBlocks_back (decipher_encipher tables) fits)
  · intro refused
    rw [Globals.encipherCharArray, Globals.decipherChararray, charArrayCall_eq, charArrayCall_eq,
      cipherCharArray_refused refused, cipherCharArray_refused refused]
    exact ⟨rfl, rfl⟩

end Inverse

end SmcPkg.Blowfish
