import SmcPkg.Compress.CLenLaw

/-!
# Characters and pointers

An item is what `Output` is called with: a character, or the length of a part with its
position. The bits of an item are its symbol and, for a position, the number of its bits and
these without the first one. What items stand for is said by `expand`: a character is a
byte, and a pointer repeats bytes that lie before.
-/

namespace SmcPkg.UefiDecompress

open BitRows Cells PrefixCode TianoCompress

section Positions

/-- A word and the number of its bits. -/
theorem bitsIn_bounds {rounds pos : Nat} (fits : pos < 2 ^ rounds) :
    bitsIn rounds pos ≤ rounds ∧ pos < 2 ^ bitsIn rounds pos ∧
      (pos ≠ 0 → 2 ^ bitsIn rounds pos ≤ 2 * pos) ∧ (pos = 0 → bitsIn rounds pos = 0) := by
  induction rounds generalizing pos with
  | zero =>
    have zero : pos = 0 := by omega
    rw [zero]
    decide
  | succ rounds inductionHypothesis =>
    rw [bitsIn]
    split
    · rename_i zero
      rw [zero]
      exact ⟨Nat.zero_le _, Nat.one_pos, fun nonzero => absurd rfl nonzero, fun _ => rfl⟩
    · rename_i nonzero
      have half : pos >>> 1 = pos / 2 := by rw [Nat.shiftRight_eq_div_pow]
      have small : pos / 2 < 2 ^ rounds := by
        rw [Nat.pow_succ] at fits
        omega
      obtain ⟨atMost, below, above, none⟩ := inductionHypothesis small
      rw [half]
      refine ⟨Nat.succ_le_succ atMost, ?_, fun _ => ?_, fun zero => absurd zero nonzero⟩
      · rw [Nat.pow_succ]
        omega
      · rw [Nat.pow_succ]
        by_cases one : pos / 2 = 0
        · rw [none one]
          omega
        · have twice := above one
          omega

/-- A position of the window has less than 20 bits. -/
theorem bitsIn_lt {pos : Nat} (fits : pos < 2 ^ 19) : bitsIn 32 pos < TianoCompress.np := by
  obtain ⟨-, -, above, none⟩ := bitsIn_bounds (fits.trans (by decide : 2 ^ 19 < 2 ^ 32))
  have inNp : TianoCompress.np = 20 := rfl
  by_contra many
  by_cases zero : pos = 0
  · have few := none zero
    omega
  · have twice := above zero
    have more : 2 ^ 20 ≤ 2 ^ bitsIn 32 pos := Nat.pow_le_pow_right (by decide) (by omega)
    omega

/-- A position is its first bit and the others. -/
theorem position_split {pos : Nat} (fits : pos < 2 ^ 19) (many : 1 < bitsIn 32 pos) :
    pos &&& 0xFFFFFFFF >>> (32 - bitsIn 32 pos + 1) < 2 ^ (bitsIn 32 pos - 1) ∧
      1 <<< (bitsIn 32 pos - 1) + (pos &&& 0xFFFFFFFF >>> (32 - bitsIn 32 pos + 1)) = pos := by
  have few := bitsIn_lt fits
  have inNp : TianoCompress.np = 20 := rfl
  obtain ⟨-, below, above, none⟩ := bitsIn_bounds (fits.trans (by decide : 2 ^ 19 < 2 ^ 32))
  have nonzero : pos ≠ 0 := by
    intro zero
    have no := none zero
    omega
  have twice := above nonzero
  generalize bitsIn 32 pos = bits at many few below twice ⊢
  obtain ⟨lower, rfl⟩ : ∃ lower, bits = lower + 1 := ⟨bits - 1, by omega⟩
  have shift : 32 - (lower + 1) + 1 = 32 - lower := by omega
  have ones : 0xFFFFFFFF >>> (32 - lower) = 2 ^ lower - 1 := by
    have parts : 2 ^ 32 = 2 ^ lower * 2 ^ (32 - lower) := by
      rw [← Nat.pow_add, Nat.add_sub_cancel' (by omega)]
    have positive := Nat.two_pow_pos (32 - lower)
    have nonzero := Nat.two_pow_pos lower
    have whole : 0xFFFFFFFF = (2 ^ lower - 1) * 2 ^ (32 - lower) + (2 ^ (32 - lower) - 1) := by
      rw [Nat.sub_mul, ← parts]
      have fits : 2 ^ (32 - lower) ≤ 2 ^ 32 := Nat.pow_le_pow_right (by decide) (Nat.sub_le _ _)
      omega
    rw [Nat.shiftRight_eq_div_pow, whole, Nat.mul_comm, Nat.mul_add_div positive,
      Nat.div_eq_of_lt (by omega), Nat.add_zero]
  rw [shift, ones, Nat.and_two_pow_sub_one_eq_mod, Nat.add_sub_cancel, Nat.one_shiftLeft]
  rw [Nat.pow_succ] at below twice
  have quotient : pos / 2 ^ lower = 1 := by
    refine Nat.div_eq_of_lt_le ?_ ?_
    · omega
    · omega
  have divided := Nat.div_add_mod pos (2 ^ lower)
  rw [quotient, Nat.mul_one] at divided
  exact ⟨Nat.mod_lt _ (Nat.two_pow_pos lower), divided⟩

end Positions

section Items

/-- The bits of a position. -/
def rowP (tree : Tree) (pos : Nat) : List Bool :=
  rowT tree (bitsIn 32 pos) ++
    if 1 < bitsIn 32 pos then
      bitsOf (bitsIn 32 pos - 1) (pos &&& 0xFFFFFFFF >>> (32 - bitsIn 32 pos + 1))
    else []

/-- The bits of an item. -/
def rowItem (treeC treeP : Tree) (item : Nat × Nat) : List Bool :=
  rowT treeC item.1 ++ if 256 ≤ item.1 then rowP treeP item.2 else []

/-- An item that the counts of a block know. -/
structure Counted (freqC freqP : Cells Nat) (item : Nat × Nat) : Prop where
  inC : item.1 < nc
  inWindow : item.2 < 2 ^ 19
  occurs : freqC item.1 ≠ 0
  occursP : 256 ≤ item.1 → freqP (bitsIn 32 item.2) ≠ 0

variable {freqC freqP : Cells Nat} {treeC treeP : Tree} {number : Nat} {tables : Tables}
  {lens : Cells Nat} {item : Nat × Nat} {rest : List Bool} {sd : Scratch}

/-- A symbol is put out. -/
theorem puts_encodeC {value : Nat} (fits : treeC.code value < 2 ^ treeC.len value) :
    Puts (encodeC treeC.len treeC.code value) (rowT treeC value) :=
  puts_putBits fits

/-- A position is put out. -/
theorem puts_encodeP {pos : Nat} (inWindow : pos < 2 ^ 19)
    (fits : treeP.code (bitsIn 32 pos) < 2 ^ treeP.len (bitsIn 32 pos)) :
    Puts (encodeP treeP.len treeP.code pos) (rowP treeP pos) := by
  have symbol := puts_putBits fits
  by_cases many : 1 < bitsIn 32 pos
  · have writes : encodeP treeP.len treeP.code pos = fun dst =>
        putBits (bitsIn 32 pos - 1) (pos &&& 0xFFFFFFFF >>> (32 - bitsIn 32 pos + 1))
          (putBits (treeP.len (bitsIn 32 pos)) (treeP.code (bitsIn 32 pos)) dst) := by
      funext dst
      exact if_pos many
    rw [writes, rowP, if_pos many]
    exact symbol.andThen (puts_putBits (position_split inWindow many).1)
  · have writes : encodeP treeP.len treeP.code pos =
        putBits (treeP.len (bitsIn 32 pos)) (treeP.code (bitsIn 32 pos)) := by
      funext dst
      exact if_neg many
    rw [writes, rowP, if_neg many, List.append_nil]
    exact symbol

/-- A symbol is decoded. -/
theorem symbolC_row {value : Nat} (knows : Knows nc nc 12 freqC treeC sd.tablesC sd.mCLen)
    (inside : value < nc) (occurs : freqC value ≠ 0)
    (ahead : Ahead (rowT treeC value ++ rest) sd.source) :
    ∃ source, symbolC sd = .ok (value, { sd with
        source := source
        mBlockSize := (sd.mBlockSize + 65535) % 65536 }) ∧ Ahead rest source := by
  have passed := ahead.fillBuf
  rw [rowT, bitsOf_length] at passed
  refine ⟨_, ?_, passed⟩
  rw [symbolC, knows.found value inside occurs rest _ ahead]
  simp only [Scratch.fillBuf, knows.lens value inside occurs]

/-- A position is decoded. -/
theorem decodeP_row {pos : Nat}
    (knows : Knows TianoCompress.np maxnp 8 freqP treeP sd.tablesPT sd.mPTLen)
    (inWindow : pos < 2 ^ 19) (occurs : freqP (bitsIn 32 pos) ≠ 0)
    (ahead : Ahead (rowP treeP pos ++ rest) sd.source) :
    ∃ source, decodeP sd = .ok (pos, { sd with source := source }) ∧ Ahead rest source := by
  have few := bitsIn_lt inWindow
  have inNp : TianoCompress.np = 20 := rfl
  rw [rowP, List.append_assoc] at ahead
  have found := knows.found _ few occurs _ _ ahead
  have width := knows.lens _ few occurs
  have passed := ahead.fillBuf
  rw [rowT, bitsOf_length, ← width] at passed
  by_cases many : 1 < bitsIn 32 pos
  · obtain ⟨small, whole⟩ := position_split inWindow many
    rw [if_pos many] at passed
    obtain ⟨value, behind⟩ := passed.getBits small (by omega)
    refine ⟨_, ?_, behind⟩
    rw [decodeP, found]
    simp only [if_pos many, Scratch.fillBuf, Scratch.getBits, value, whole]
    rw [Nat.mod_eq_of_lt (inWindow.trans (by decide))]
  · rw [if_neg many, List.nil_append] at passed
    obtain ⟨-, below, above, none⟩ :=
      bitsIn_bounds (inWindow.trans (by decide : 2 ^ 19 < 2 ^ 32))
    have same : bitsIn 32 pos = pos := by
      by_cases zero : pos = 0
      · rw [none zero, zero]
      · have twice := above zero
        have one : bitsIn 32 pos = 0 ∨ bitsIn 32 pos = 1 := by omega
        rcases one with no | one
        · rw [no] at below
          omega
        · rw [one] at below ⊢
          omega
    refine ⟨_, ?_, passed⟩
    rw [same] at many found
    rw [decodeP, found, same]
    simp only [if_neg many, Scratch.fillBuf]

end Items

section Expansion

/-- Bytes are repeated from some way back, one after the other. -/
def copyBack : Nat → Nat → List UInt8 → List UInt8
  | 0, _, out => out
  | count + 1, back, out => copyBack count back (out ++ [out.getD (out.length - back) 0])

/-- What an item adds. -/
def expandItem (out : List UInt8) (item : Nat × Nat) : List UInt8 :=
  if item.1 < 256 then out ++ [UInt8.ofNat item.1]
  else copyBack (item.1 - 253) (item.2 + 1) out

/-- What items stand for. -/
def expand (out : List UInt8) (items : List (Nat × Nat)) : List UInt8 :=
  items.foldl expandItem out

/-- An item that can come next: a character, or a pointer to what is there. -/
structure Fits (out : List UInt8) (item : Nat × Nat) : Prop where
  inC : item.1 < TianoCompress.nc
  inWindow : item.2 < 2 ^ 19
  there : 256 ≤ item.1 → item.2 < out.length

/-- Items that can come one after the other. -/
def FitAll (out : List UInt8) : List (Nat × Nat) → Prop
  | [] => True
  | item :: items => Fits out item ∧ FitAll (expandItem out item) items

variable {out : List UInt8} {item : Nat × Nat} {items more : List (Nat × Nat)}

@[simp] theorem copyBack_length (count back : Nat) (out : List UInt8) :
    (copyBack count back out).length = out.length + count := by
  induction count generalizing out with
  | zero => rfl
  | succ count inductionHypothesis =>
    rw [copyBack, inductionHypothesis, List.length_append, List.length_singleton]
    omega

/-- An item stands for a byte at least. -/
theorem expandItem_length : out.length < (expandItem out item).length := by
  rw [expandItem]
  split
  · rw [List.length_append, List.length_singleton]
    exact Nat.lt_succ_self _
  · rw [copyBack_length]
    omega

/-- So the output grows. -/
theorem expand_length_le : out.length ≤ (expand out items).length := by
  induction items generalizing out with
  | nil => exact le_rfl
  | cons item items inductionHypothesis =>
    exact expandItem_length.le.trans inductionHypothesis

end Expansion

end SmcPkg.UefiDecompress
