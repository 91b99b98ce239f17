import Mathlib

/-!
# Tokens of CMOS items

A token of 16 bits names an item in CMOS: by its documentation, a bit offset of three bits, a
byte offset of nine, and a size of four. The functions that read and write an item go through
the index port and the data port. The index port takes seven bits of an address and the NMI
bit, so the byte offsets of a token address 128 bytes only.

The contents of CMOS are arbitrary, and between the accesses of one call nobody else is assumed
to use the ports. `lawful_always_iff` gives the condition on two tokens for all contents at
once.
-/

namespace SmcPkg.CmosTokens

section Machine

/-- The CMOS behind its two ports: what the index port holds, and the bytes. -/
structure Cmos where
  index : BitVec 8
  cells : BitVec 7 → BitVec 8

/-- `CMOS_ADDR_PORT`. -/
def cmosAddrPort : BitVec 16 := 0x70

/-- `CMOS_DATA_PORT`. -/
def cmosDataPort : BitVec 16 := 0x71

/-- The byte that the index port selects. Its upper bit disables NMI. -/
def Cmos.selected (cmos : Cmos) : BitVec 7 := cmos.index.setWidth 7

/-- `IoWrite8`. -/
def ioWrite8 (port : BitVec 16) (value : BitVec 8) (cmos : Cmos) : Cmos :=
  if port = cmosAddrPort then { cmos with index := value }
  else if port = cmosDataPort then
    { cmos with cells := Function.update cmos.cells cmos.selected value }
  else cmos

/-- `IoRead8` of the data port. -/
def ioRead8 (cmos : Cmos) : BitVec 8 := cmos.cells cmos.selected

end Machine

section Functions

/-- `maskbit`: ones for the size of an item. -/
def maskbit (tokenID : BitVec 32) : BitVec 8 :=
  ((0xff : BitVec 32) >>> ((8 : BitVec 32) - tokenID >>> 12)).setWidth 8

/-- `Index`: the byte offset of an item, cut to eight bits. -/
def tokenIndex (tokenID : BitVec 32) : BitVec 8 :=
  ((tokenID >>> 3) &&& 0xff).setWidth 8

/-- `OobGetCmosTokensValue`: the value, and the CMOS behind the access. -/
def oobGetCmosTokensValue (tokenID : BitVec 32) (cmos : Cmos) : BitVec 8 × Cmos :=
  let cmos := ioWrite8 cmosAddrPort (tokenIndex tokenID ||| 0x80) cmos
  ((ioRead8 cmos >>> (tokenID &&& 0x7)) &&& maskbit tokenID, cmos)

/-- `OobSetCmosTokensValue`. -/
def oobSetCmosTokensValue (tokenID : BitVec 32) (value : BitVec 8) (cmos : Cmos) : Cmos :=
  let maskbit := maskbit tokenID <<< (tokenID &&& 0x7)
  let temp := (value <<< (tokenID &&& 0x7)) &&& maskbit
  let cmos := ioWrite8 cmosAddrPort (tokenIndex tokenID ||| 0x80) cmos
  ioWrite8 cmosDataPort ((ioRead8 cmos &&& ~~~maskbit) ||| temp) cmos

end Functions

section Layout

/-- A token whose item is in one byte, by the documented layout. -/
structure Token where
  code : BitVec 16
  sized : 1 ≤ (code >>> 12).toNat
  fits : (code &&& 0x7).toNat + (code >>> 12).toNat ≤ 8

/-- `Token[2:0]`. -/
def Token.bitOffset (token : Token) : Nat := (token.code &&& 0x7).toNat

/-- `Token[11:3]`. -/
def Token.byteOffset (token : Token) : Nat := ((token.code >>> 3) &&& 0x1ff).toNat

/-- `Token[15:12]`. -/
def Token.size (token : Token) : Nat := (token.code >>> 12).toNat

/-- The token as an argument. -/
def Token.id (token : Token) : BitVec 32 := token.code.setWidth 32

/-- The item has this bit of its byte. -/
def Token.Covers (token : Token) (bit : Nat) : Prop :=
  token.bitOffset ≤ bit ∧ bit < token.bitOffset + token.size

/-- Two items have no bit in common, by the documented layout. -/
def Token.Apart (token other : Token) : Prop :=
  token.byteOffset = other.byteOffset → ∀ bit, ¬ (token.Covers bit ∧ other.Covers bit)

/-- What was set is read, and an item that is apart keeps its value. -/
def Lawful (cmos : Cmos) (value : BitVec 8) (token other : Token) : Prop :=
  let written := oobSetCmosTokensValue token.id value cmos
  (oobGetCmosTokensValue token.id written).1.toNat = value.toNat % 2 ^ token.size ∧
    (token.Apart other →
      (oobGetCmosTokensValue other.id written).1 = (oobGetCmosTokensValue other.id cmos).1)

/-- The byte that the ports give for a token. -/
def Token.cell (token : Token) : BitVec 7 := BitVec.ofNat 7 token.byteOffset

/-- The bits of the other item that are written already have the value that they get. -/
def Keeps (cmos : Cmos) (value : BitVec 8) (token other : Token) : Prop :=
  token.byteOffset % 128 = other.byteOffset % 128 → ∀ bit, token.Covers bit → other.Covers bit →
    value.getLsbD (bit - token.bitOffset) = (cmos.cells token.cell).getLsbD bit

end Layout

section Bits

variable (token : Token)

/-- The identifier of a token is its code. -/
theorem token_id : token.id.toNat = token.code.toNat := by
  rw [Token.id, BitVec.toNat_setWidth]
  exact Nat.mod_eq_of_lt (by omega)

/-- An item has eight bits at most. -/
theorem size_le : token.size ≤ 8 := by
  have fits := token.fits
  rw [Token.size]
  omega

/-- The shift of the mask, by the size. -/
theorem token_shift : ((8 : BitVec 32) - token.id >>> 12).toNat = 8 - token.size := by
  have small := size_le token
  have size : (token.id >>> 12).toNat = token.size := by
    rw [BitVec.toNat_ushiftRight, token_id, Token.size, BitVec.toNat_ushiftRight]
  have eight : (8 : BitVec 32).toNat = 8 := rfl
  rw [BitVec.toNat_sub, size, eight]
  omega

/-- The mask has as many bits as the item. -/
theorem maskbit_bit {bit : Nat} (inside : bit < 8) :
    (maskbit token.id).getLsbD bit = decide (bit < token.size) := by
  have small := size_le token
  have ones : (0xff : BitVec 32) = (BitVec.allOnes 8).setWidth 32 := rfl
  have wide : 8 - token.size + bit < 32 := by omega
  rw [maskbit, BitVec.getLsbD_setWidth, BitVec.ushiftRight_eq', token_shift,
    BitVec.getLsbD_ushiftRight, ones, BitVec.getLsbD_setWidth, BitVec.getLsbD_allOnes]
  simp only [inside, wide, decide_true, Bool.true_and]
  exact decide_eq_decide.mpr (by omega)

/-- The low bits of a token are the bit offset. -/
theorem token_bits : (token.id &&& 0x7).toNat = token.bitOffset := by
  have seven : (7 : BitVec 32).toNat = (7 : BitVec 16).toNat := rfl
  rw [BitVec.toNat_and, token_id, seven, ← BitVec.toNat_and, Token.bitOffset]

/-- The ports address a byte by the lower seven bits of its offset. -/
theorem token_selects (cmos : Cmos) :
    ioWrite8 cmosAddrPort (tokenIndex token.id ||| 0x80) cmos =
      ⟨tokenIndex token.id ||| 0x80, cmos.cells⟩ ∧
    (tokenIndex token.id ||| 0x80).setWidth 7 = token.cell := by
  refine ⟨rfl, ?_⟩
  have ones : (0xff : BitVec 32) = (BitVec.allOnes 8).setWidth 32 := rfl
  have more : (0x1ff : BitVec 16) = (BitVec.allOnes 9).setWidth 16 := rfl
  have upper : (0x80 : BitVec 8) = BitVec.twoPow 8 7 := rfl
  rw [Token.cell, Token.byteOffset, BitVec.ofNat_toNat, tokenIndex, Token.id, ones, more, upper]
  apply BitVec.eq_of_getLsbD_eq
  intro bit inside
  have narrow : bit < 8 ∧ bit < 9 ∧ bit < 16 ∧ bit < 32 ∧ 3 + bit < 32 ∧ 7 ≠ bit := by omega
  simp only [BitVec.getLsbD_setWidth, BitVec.getLsbD_or, BitVec.getLsbD_and,
    BitVec.getLsbD_ushiftRight, BitVec.getLsbD_allOnes, BitVec.getLsbD_twoPow, inside, narrow,
    decide_true, Bool.true_and, Bool.and_true, decide_false, Bool.and_false, Bool.or_false]

/-- What is read of an item. -/
theorem get_bit (cmos : Cmos) {bit : Nat} (inside : bit < 8) :
    (oobGetCmosTokensValue token.id cmos).1.getLsbD bit =
      (decide (bit < token.size) && (cmos.cells token.cell).getLsbD (token.bitOffset + bit)) := by
  obtain ⟨selects, cell⟩ := token_selects token cmos
  rw [oobGetCmosTokensValue, selects, ioRead8, Cmos.selected, cell, BitVec.getLsbD_and,
    maskbit_bit token inside, BitVec.ushiftRight_eq', token_bits, BitVec.getLsbD_ushiftRight,
    Bool.and_comm]

/-- What a write leaves in the bytes. -/
theorem set_bit (value : BitVec 8) (cmos : Cmos) (cell : BitVec 7) {bit : Nat}
    (inside : bit < 8) :
    ((oobSetCmosTokensValue token.id value cmos).cells cell).getLsbD bit =
      if cell = token.cell ∧ token.bitOffset ≤ bit ∧ bit < token.bitOffset + token.size then
        value.getLsbD (bit - token.bitOffset)
      else (cmos.cells cell).getLsbD bit := by
  obtain ⟨selects, same⟩ := token_selects token cmos
  rw [oobSetCmosTokensValue, selects, ioWrite8, if_neg (by decide), if_pos rfl, ioRead8,
    Cmos.selected, same]
  by_cases own : cell = token.cell
  · subst own
    dsimp only
    rw [Function.update_self]
    have below : bit - token.bitOffset < 8 := by omega
    simp only [BitVec.getLsbD_or, BitVec.getLsbD_and, BitVec.getLsbD_not, BitVec.shiftLeft_eq',
      BitVec.getLsbD_shiftLeft, token_bits, inside, decide_true, Bool.true_and,
      maskbit_bit token below]
    by_cases low : bit < token.bitOffset
    · have out : ¬ token.bitOffset ≤ bit := by omega
      simp [low, out]
    · have up : token.bitOffset ≤ bit := by omega
      by_cases covered : bit < token.bitOffset + token.size
      · have short : bit - token.bitOffset < token.size := by omega
        simp [low, up, covered, short]
      · have long : ¬ bit - token.bitOffset < token.size := by omega
        simp [low, covered, long]
  · dsimp only
    rw [Function.update_of_ne own, if_neg (fun both => own both.1)]

end Bits

section Laws

variable (cmos : Cmos) (value : BitVec 8) (token other : Token)

/-- Two tokens address the same byte exactly if their offsets agree in seven bits. -/
theorem cell_eq_iff : token.cell = other.cell ↔ token.byteOffset % 128 = other.byteOffset % 128 := by
  rw [Token.cell, Token.cell, ← BitVec.toNat_inj, BitVec.toNat_ofNat, BitVec.toNat_ofNat]

/-- What was set is read. -/
theorem get_set : (oobGetCmosTokensValue token.id (oobSetCmosTokensValue token.id value cmos)).1.toNat =
    value.toNat % 2 ^ token.size := by
  have fits := token.fits
  have same : (oobGetCmosTokensValue token.id (oobSetCmosTokensValue token.id value cmos)).1 =
      (value.setWidth token.size).setWidth 8 := by
    apply BitVec.eq_of_getLsbD_eq
    intro bit inside
    simp only [get_bit token _ inside, BitVec.getLsbD_setWidth, inside, decide_true, Bool.true_and]
    by_cases small : bit < token.size
    · have within : token.bitOffset + bit < 8 := by
        rw [Token.bitOffset, Token.size] at *
        omega
      rw [set_bit token value cmos _ within, if_pos ⟨rfl, by omega, by omega⟩,
        Nat.add_sub_cancel_left]
    · simp only [small, decide_false, Bool.false_and]
  rw [same, BitVec.toNat_setWidth, BitVec.toNat_setWidth]
  exact Nat.mod_eq_of_lt (Nat.lt_of_le_of_lt (Nat.mod_le _ _) value.isLt)

/-- A write leaves another item alone exactly when it changes no bit of it. -/
theorem get_other_iff :
    (oobGetCmosTokensValue other.id (oobSetCmosTokensValue token.id value cmos)).1 =
        (oobGetCmosTokensValue other.id cmos).1 ↔
      Keeps cmos value token other := by
  have fits := other.fits
  have changed : ∀ bit, other.Covers bit → bit < 8 := by
    intro bit covers
    rw [Token.Covers, Token.bitOffset, Token.size] at covers
    omega
  constructor
  · intro same address bit own covers
    have inside := changed bit covers
    have cell := (cell_eq_iff token other).mpr address
    have read := congrArg (fun item => item.getLsbD (bit - other.bitOffset)) same
    have place : other.bitOffset + (bit - other.bitOffset) = bit := Nat.add_sub_cancel' covers.1
    have sized : bit - other.bitOffset < other.size := by
      rw [Token.Covers] at covers
      omega
    have below : bit - other.bitOffset < 8 := by omega
    simp only [get_bit other _ below, place, sized, decide_true, Bool.true_and,
      set_bit token value cmos _ inside] at read
    rw [if_pos ⟨cell.symm, own⟩, ← cell] at read
    exact read
  · intro keeps
    apply BitVec.eq_of_getLsbD_eq
    intro bit inside
    rw [get_bit other _ inside, get_bit other _ inside]
    by_cases sized : bit < other.size
    · have covers : other.Covers (other.bitOffset + bit) := ⟨by omega, by omega⟩
      rw [set_bit token value cmos _ (changed _ covers)]
      split
      case isTrue written =>
        have address := (cell_eq_iff token other).mp written.1.symm
        rw [keeps address _ written.2 covers, ← written.1]
      case isFalse => rfl
    · simp only [sized, decide_false, Bool.false_and]

/-- The laws of two tokens hold exactly when a write changes no bit of an item that is apart. Tokens
that overlap by their layout are not compared; of tokens that are apart the code may still mean the
same byte, as it uses seven bits of the offset. -/
theorem lawful_iff :
    Lawful cmos value token other ↔ (token.Apart other → Keeps cmos value token other) := by
  rw [Lawful, get_other_iff]
  exact and_iff_right (get_set cmos value token)

/-- The laws hold for all contents and values exactly when items that are apart do not share a
bit of a byte that the ports address alike. -/
theorem lawful_always_iff : (∀ cmos value, Lawful cmos value token other) ↔
    (token.Apart other → token.byteOffset % 128 = other.byteOffset % 128 →
      ∀ bit, ¬ (token.Covers bit ∧ other.Covers bit)) := by
  simp only [Lawful, get_set, get_other_iff, true_and]
  constructor
  · rintro lawful apart address bit ⟨own, covers⟩
    have zero := lawful ⟨0, fun _ => 0⟩ (BitVec.allOnes 8) apart address bit own covers
    have fits := token.fits
    rw [Token.Covers, Token.bitOffset, Token.size] at own
    have inside : bit - token.bitOffset < 8 := by omega
    rw [BitVec.getLsbD_allOnes] at zero
    simp [inside] at zero
  · intro separate _ _ apart address bit own covers
    exact absurd ⟨own, covers⟩ (separate apart address bit)

end Laws

/-- A whole byte, at offset 5. -/
def lowToken : Token := ⟨0x8028, by decide, by decide⟩

/-- A whole byte, at offset 0x105. -/
def highToken : Token := ⟨0x8828, by decide, by decide⟩

/-- Two items apart whose bytes are 128 apart share a byte of CMOS. -/
theorem not_always_lawful : ¬ ∀ cmos value token other, Lawful cmos value token other := by
  intro always
  have lawful := always ⟨0, fun _ => 0⟩ 1 lowToken highToken
  have apart : lowToken.Apart highToken := fun same => absurd same (by decide)
  have kept := lawful.2 apart
  exact absurd kept (by decide)

end SmcPkg.CmosTokens
