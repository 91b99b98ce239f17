import SmcPkg.Lib.BitFields
import SmcPkg.Lib.Bytes
import SmcPkg.Lib.Feistel

/-!
# The cipher of the published data

The cipher of `CBlowfish.c` works on blocks of two words. Its tables are made from a seed and a
key, and the cipher itself fills them. With the same tables, a data area that was enciphered
is deciphered again.

The seed of the tables is arbitrary, and nothing is said about how hard the cipher is to break.
-/

namespace SmcPkg.Blowfish

open Bytes

section Cipher

/-- The tables `P` and `S`. -/
structure Tables where
  p : Vector UInt32 18
  s : Vector (Vector UInt32 256) 4

/-- Two words. -/
abbrev Halves := UInt32 × UInt32

variable (tables : Tables)

/-- `F`. -/
def f (x : UInt32) : UInt32 :=
  let d := x.toUInt8
  let c := (x >>> 8).toUInt8
  let b := (x >>> 16).toUInt8
  let a := (x >>> 24).toUInt8
  let y := (tables.s.get 0).get a.toFin + (tables.s.get 1).get b.toFin
  let y := y ^^^ (tables.s.get 2).get c.toFin
  y + (tables.s.get 3).get d.toFin

/-- A round of the loop over `P`. -/
def round (halves : Halves) (p : UInt32) : Halves :=
  let xl := halves.1 ^^^ p
  let xr := f tables xl ^^^ halves.2
  (xr, xl)

/-- `CBlowFishEncipher`. -/
def cBlowFishEncipher (halves : Halves) : Halves :=
  let (xr, xl) := (tables.p.toList.take 16).foldl (round tables) halves
  (xl ^^^ tables.p.get 17, xr ^^^ tables.p.get 16)

/-- `CBlowFishDecipher`. -/
def cBlowFishDecipher (halves : Halves) : Halves :=
  let (xr, xl) := (tables.p.toList.drop 2).reverse.foldl (round tables) halves
  (xl ^^^ tables.p.get 0, xr ^^^ tables.p.get 1)

end Cipher

section Init

/-- Four characters of the key, which starts again at its end. A `CHAR8` is signed, so a
character from 0x80 on sets all bits above its own. -/
def keyWord (key : List UInt8) (i : Nat) : UInt32 :=
  (List.range 4).foldl (fun data k =>
    data <<< 8 ||| (key.getD ((4 * i + k) % key.length) 0).toInt8.toInt32.toUInt32) 0

/-- The next two words of `P`. -/
def fillP (state : Tables × Halves) (i : Fin 9) : Tables × Halves :=
  let halves := cBlowFishEncipher state.1 state.2
  let p := (state.1.p.set (2 * i) halves.1).set (2 * i + 1) halves.2
  ({ state.1 with p := p }, halves)

/-- The next two words of a part of `S`. -/
def fillS (state : Tables × Halves) (i : Fin 4) (j : Fin 128) : Tables × Halves :=
  let halves := cBlowFishEncipher state.1 state.2
  let part := ((state.1.s.get i).set (2 * j) halves.1).set (2 * j + 1) halves.2
  ({ state.1 with s := state.1.s.set i part }, halves)

/-- `CBlowFishInit`, from the tables `SEED_P` and `SEED_S`: the key must have 4 to 54 bytes, or
else the tables stay as they are. -/
def cBlowFishInit (seed tables : Tables) (key : List UInt8) : Tables :=
  if key.length > 54 ∨ key.length < 4 then tables
  else
    let keyed : Tables := { seed with p := Vector.ofFn (fun i => seed.p.get i ^^^ keyWord key i) }
    let filled := (List.finRange 9).foldl fillP (keyed, (0, 0))
    let filled := (List.finRange 4).foldl
      (fun state i => (List.finRange 128).foldl (fun state j => fillS state i j) state) filled
    filled.1

end Init

section Blocks

/-- `chunkSize`. -/
def chunkSize : Nat := 8

/-- The loop over the blocks of a buffer. -/
def cipherBlocks (cipher : Halves → Halves) : Nat → List UInt8 → List UInt8
  | 0, buffer => buffer
  | count + 1, buffer =>
    let memory := memoryOf buffer (fun _ => 0)
    let halves := cipher (word32 memory 0, word32 memory (chunkSize / 2))
    le32 halves.1.toNat ++ le32 halves.2.toNat ++
      cipherBlocks cipher count (buffer.drop chunkSize)

/-- The tests of both functions on the sizes, and the loop. -/
def cipherCharArray (cipher : Halves → Halves) (buffer : List UInt8) (bSize : Nat) :
    Option (List UInt8) :=
  if bSize = 0 then none
  else if bSize > buffer.length then none
  else if bSize % chunkSize ≠ 0 then none
  else some (cipherBlocks cipher (bSize / chunkSize) buffer)

/-- `CBlowFishEncipherCharArray`. -/
def cBlowFishEncipherCharArray (tables : Tables) (buffer : List UInt8) (bSize : Nat) :
    Option (List UInt8) :=
  cipherCharArray (cBlowFishEncipher tables) buffer bSize

/-- `CBlowFishDecipherChararray`. -/
def cBlowFishDecipherChararray (tables : Tables) (buffer : List UInt8) (bSize : Nat) :
    Option (List UInt8) :=
  cipherCharArray (cBlowFishDecipher tables) buffer bSize

end Blocks

section Inverse

variable (tables : Tables)

/-- The keys of the rounds, and the last two. -/
theorem keys_split :
    tables.p.toList = tables.p.toList.take 16 ++ [tables.p.get 16, tables.p.get 17] := by
  have length : tables.p.toList.length = 18 := Vector.length_toList
  have last : tables.p.toList.drop 16 = [tables.p.get 16, tables.p.get 17] := by
    rw [List.drop_eq_getElem_cons (by omega), List.drop_eq_getElem_cons (by omega),
      List.drop_of_length_le (by omega)]
    rfl
  rw [← last, List.take_append_drop]

/-- The first two keys, and those of the other rounds. -/
theorem keys_split_front :
    tables.p.toList = tables.p.get 0 :: tables.p.get 1 :: tables.p.toList.drop 2 := by
  have length : tables.p.toList.length = 18 := Vector.length_toList
  have first : tables.p.toList = tables.p.toList.drop 0 := rfl
  rw [List.drop_eq_getElem_cons (by omega), List.drop_eq_getElem_cons (by omega)] at first
  exact first

/-- A round of the cipher is a step of a Feistel network. -/
theorem round_step : round tables = Feistel.step (· ^^^ ·) (f tables) := rfl

/-- The encryption runs the network with the keys in their order. -/
theorem encipher_crypt (halves : Halves) :
    cBlowFishEncipher tables halves =
      Feistel.crypt (· ^^^ ·) (f tables) tables.p.toList halves := by
  rw [keys_split, Feistel.crypt_append, cBlowFishEncipher, round_step]
  rfl

/-- The decryption runs the network with the keys in the reverse order. -/
theorem decipher_crypt (halves : Halves) :
    cBlowFishDecipher tables halves =
      Feistel.crypt (· ^^^ ·) (f tables) tables.p.toList.reverse halves := by
  have reversed : tables.p.toList.reverse =
      (tables.p.toList.drop 2).reverse ++ [tables.p.get 1, tables.p.get 0] := by
    rw [keys_split_front, List.reverse_cons, List.reverse_cons, List.append_assoc]
    rfl
  rw [reversed, Feistel.crypt_append, cBlowFishDecipher, round_step]
  rfl

/-- An exclusive or cancels itself from the left. -/
theorem xor_cancelLeft (a b : UInt32) : a ^^^ (a ^^^ b) = b := by
  rw [← UInt32.xor_assoc, UInt32.xor_self, UInt32.zero_xor]

/-- It cancels itself from the right. -/
theorem xor_cancelRight (a b : UInt32) : (a ^^^ b) ^^^ b = a := by
  rw [UInt32.xor_assoc, UInt32.xor_self, UInt32.xor_zero]

/-- `CBlowFishDecipher` takes `CBlowFishEncipher` back. -/
theorem decipher_encipher (halves : Halves) :
    cBlowFishDecipher tables (cBlowFishEncipher tables halves) = halves := by
  rw [decipher_crypt, encipher_crypt, keys_split]
  exact Feistel.crypt_reverse (f tables) UInt32.xor_assoc xor_cancelLeft xor_cancelRight _ _ _
    halves

variable {cipher back : Halves → Halves}

/-- A cipher leaves the length of the buffer. -/
theorem cipherBlocks_length {count : Nat} {buffer : List UInt8}
    (fits : chunkSize * count ≤ buffer.length) :
    (cipherBlocks cipher count buffer).length = buffer.length := by
  induction count generalizing buffer with
  | zero => rfl
  | succ count inductionHypothesis =>
    have fitsRest : chunkSize * count ≤ (buffer.drop chunkSize).length := by
      rw [List.length_drop, chunkSize] at *
      omega
    simp only [cipherBlocks, List.length_append, le32, List.length_cons, List.length_nil,
      inductionHypothesis fitsRest, List.length_drop]
    simp only [chunkSize] at *
    omega

/-- The words of a block are the bytes of the block. -/
theorem block_words {buffer : List UInt8} (long : chunkSize ≤ buffer.length) :
    le32 (word32 (memoryOf buffer (fun _ => 0)) 0).toNat ++
      le32 (word32 (memoryOf buffer (fun _ => 0)) (chunkSize / 2)).toNat =
        buffer.take chunkSize := by
  rw [le32_word32, le32_word32]
  match buffer, long with
  | _ :: _ :: _ :: _ :: _ :: _ :: _ :: _ :: _, _ => rfl

/-- Words that lie at the front of a buffer are read back. -/
theorem front_words (halves : Halves) (rest : List UInt8) :
    (word32 (memoryOf (le32 halves.1.toNat ++ le32 halves.2.toNat ++ rest) (fun _ => 0)) 0,
      word32 (memoryOf (le32 halves.1.toNat ++ le32 halves.2.toNat ++ rest) (fun _ => 0))
        (chunkSize / 2)) = halves := by
  have stored : Stored (memoryOf (le32 halves.1.toNat ++ le32 halves.2.toNat ++ rest)
      (fun _ => 0)) 0 (le32 halves.1.toNat ++ le32 halves.2.toNat ++ rest) := by
    intro i inside
    rw [memoryOf, Nat.zero_add, List.getElem?_eq_getElem inside]
    rfl
  obtain ⟨both, _⟩ := stored_append.mp stored
  obtain ⟨left, right⟩ := stored_append.mp both
  have place : 0 + (le32 halves.1.toNat).length = chunkSize / 2 := by simp [le32, chunkSize]
  rw [place] at right
  rw [word32_stored left, word32_stored right, UInt32.ofNat_toNat, UInt32.ofNat_toNat]

/-- Blocks that were enciphered are deciphered again. -/
theorem cipherBlocks_back (inverse : ∀ halves, back (cipher halves) = halves) {count : Nat}
    {buffer : List UInt8} (fits : chunkSize * count ≤ buffer.length) :
    cipherBlocks back count (cipherBlocks cipher count buffer) = buffer := by
  induction count generalizing buffer with
  | zero => rfl
  | succ count inductionHypothesis =>
    have long : chunkSize ≤ buffer.length := by
      rw [chunkSize] at *
      omega
    have fitsRest : chunkSize * count ≤ (buffer.drop chunkSize).length := by
      rw [List.length_drop, chunkSize] at *
      omega
    rw [cipherBlocks, cipherBlocks, front_words, inverse, List.drop_left' (by rfl),
      inductionHypothesis fitsRest, block_words long, List.take_append_drop]

/-- An area that was enciphered has its size and is deciphered again. -/
theorem decipher_charArray {buffer enciphered : List UInt8}
    (done : cBlowFishEncipherCharArray tables buffer buffer.length = some enciphered) :
    enciphered.length = buffer.length ∧
      cBlowFishDecipherChararray tables enciphered enciphered.length = some buffer := by
  rw [cBlowFishEncipherCharArray, cipherCharArray] at done
  split_ifs at done with empty exceeds odd
  have fits : chunkSize * (buffer.length / chunkSize) ≤ buffer.length :=
    Nat.mul_div_le buffer.length chunkSize
  obtain rfl := Option.some.inj done
  have length : (cipherBlocks (cBlowFishEncipher tables) (buffer.length / chunkSize)
      buffer).length = buffer.length := cipherBlocks_length fits
  refine ⟨length, ?_⟩
  rw [cBlowFishDecipherChararray, cipherCharArray, length, if_neg empty, if_neg (by omega),
    if_neg odd, cipherBlocks_back (decipher_encipher tables) fits]

/-- Whole blocks are enciphered, unless there are none. -/
theorem encipher_whole {buffer : List UInt8} (whole : buffer.length % 8 = 0)
    (some : buffer.length ≠ 0) :
    ∃ enciphered, cBlowFishEncipherCharArray tables buffer buffer.length = .some enciphered ∧
      enciphered.length = buffer.length := by
  have fits : chunkSize * (buffer.length / chunkSize) ≤ buffer.length :=
    Nat.mul_div_le buffer.length chunkSize
  refine ⟨cipherBlocks (cBlowFishEncipher tables) (buffer.length / chunkSize) buffer, ?_,
    cipherBlocks_length fits⟩
  rw [cBlowFishEncipherCharArray, cipherCharArray, if_neg some, if_neg (by omega), chunkSize,
    if_neg (by omega)]

end Inverse

end SmcPkg.Blowfish
