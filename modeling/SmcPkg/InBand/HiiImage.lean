import SmcPkg.InBand.Blowfish
import SmcPkg.InBand.FormLayout

/-!
# The published HII data

`CombineHiiData` compresses the HII data with its layout into a buffer of the same size, pads
the result to whole blocks of the cipher, enciphers it and puts it behind a header into the
HII area. What the compression returned is not looked at.

`TianoCompress` is a parameter with the outcomes that its comment lists. The three allocations
of the function itself may fail, those inside of `GenFormLayout` are assumed to succeed.
-/

namespace SmcPkg.HiiImage

open Bytes RaidCmd Blowfish FormLayout

section Image

/-- What `TianoCompress` returns for a buffer of a size: the compressed data, or the size that
is needed, or an error that leaves the size as it was. In both other cases the buffer is left
with some bytes. -/
inductive Compression (size : Nat)
  | success (data : List UInt8) (fits : data.length ≤ size)
  | tooSmall (needed : Nat) (exceeds : size < needed) (buffer : Vector UInt8 size)
  | outOfResources (buffer : Vector UInt8 size)

/-- `DstSize` after the call. -/
def Compression.dstSize {size : Nat} : Compression size → Nat
  | success data _ => data.length
  | tooSmall needed _ _ => needed
  | outOfResources _ => size

/-- The bytes of `DstBuffer`, up to `DstSize` at most. -/
def Compression.dstBuffer {size : Nat} : Compression size → List UInt8
  | success data _ => data
  | tooSmall _ _ buffer => buffer.toList
  | outOfResources buffer => buffer.toList

/-- What the function meets: which allocations succeed, the compression, the tables of the
cipher and the version. -/
structure HiiEnv where
  allocates : Fin 3 → Bool
  tianoCompress : List UInt8 → (size : Nat) → Compression size
  seed : Tables
  tables : Tables
  hiiVersion : UInt16

/-- `INBAND_HII_FILE_HEADER` without its unused fields, and the data behind it. -/
structure InBandHiiFile where
  signature : List UInt8
  version : UInt16
  fileSize : UInt32
  checksum : UInt8
  data : List UInt8

/-- What is left in `BuffSize`, and what was written to the HII area. -/
structure Combined where
  buffSize : Nat
  file : Option InBandHiiFile

/-- The size of `INBAND_HII_FILE_HEADER`. -/
def hiiHeaderSize : Nat := 18

/-- `SMC_OOB_SMRAM_HII_SIZE`. -/
def smramHiiSize : Nat := 384 * 1024

/-- `MAX_HII_COMBINE_SIZE`. -/
def maxHiiCombineSize : Nat := 0x200000

/-- The key. -/
def smcIKey : List UInt8 := ascii "SMCIKEY"

variable (env : HiiEnv)

/-- The tables that are made from the key. -/
def hiiTables : Tables := cBlowFishInit env.seed env.tables smcIKey

/-- The HII data with the layout behind it, as it was written into `OriDataBuffer`. -/
def oriData (hiiData text : List UInt8) : Checked (List UInt8) :=
  let data := hiiData ++ layoutList text
  if data.length ≤ maxHiiCombineSize then .ok data else .error .overflow

/-- The padding to whole blocks, in a buffer of a size. -/
def padDst (size dstSize : Nat) (dstBuffer : List UInt8) : Checked (List UInt8 × Nat) :=
  let rem := dstSize % 8
  if rem = 0 then .ok (dstBuffer, dstSize)
  else if dstSize + (8 - rem) ≤ size then
    .ok (dstBuffer ++ List.replicate (8 - rem) 0x0A, dstSize + (8 - rem))
  else .error .overflow

/-- The enciphering of the data in a buffer of a size. -/
def encipherDst (size dstSize : Nat) (dstBuffer : List UInt8) : Checked (Option (List UInt8)) :=
  if dstSize ≤ size then .ok (cBlowFishEncipherCharArray (hiiTables env) dstBuffer dstSize)
  else .error .overflow

/-- The 8-bit sum of the data. -/
def checksumOf (data : List UInt8) : UInt8 := data.foldl (· + ·) 0

/-- The header and the data in the HII area. -/
def writeFile (data : List UInt8) : Checked Combined :=
  let total := data.length + hiiHeaderSize
  if total ≤ smramHiiSize then
    .ok ⟨total,
      some ⟨ascii "_HII", env.hiiVersion, UInt32.ofNat data.length, checksumOf data, data⟩⟩
  else .error .overflow

/-- `CombineHiiData`, with the HII data and the text of the layout. -/
def combineHiiData (hiiData text : List UInt8) : Checked Combined :=
  if !env.allocates 0 || !env.allocates 1 then .ok ⟨0, none⟩
  else do
    let data ← oriData hiiData text
    if data.length > maxHiiCombineSize then .ok ⟨0, none⟩
    else if !env.allocates 2 then .ok ⟨0, none⟩
    else do
      let compression := env.tianoCompress data data.length
      let (dstBuffer, dstSize) ← padDst data.length compression.dstSize compression.dstBuffer
      let enciphered ← encipherDst env data.length dstSize dstBuffer
      match enciphered with
      | none => .ok ⟨dstSize, none⟩
      | some enciphered => writeFile env enciphered

end Image

section Law

variable (env : HiiEnv)

/-- A published file: its data lie in the HII area with their size and sum, and deciphering them
gives what was compressed and at most seven bytes of padding. -/
structure Sound (data : List UInt8) (file : InBandHiiFile) : Prop where
  size : file.data.length = file.fileSize.toNat
  inside : hiiHeaderSize + file.fileSize.toNat ≤ smramHiiSize
  checksum : file.checksum = file.data.sum
  deciphers : ∃ compressed fits padding,
    env.tianoCompress data data.length = .success compressed fits ∧ padding ≤ 7 ∧
      cBlowFishDecipherChararray (hiiTables env) file.data file.data.length =
        some (compressed ++ List.replicate padding 0x0A)

/-- The size of whole blocks. -/
def paddedSize (size : Nat) : Nat := size + (8 - size % 8) % 8

/-- The data can be compressed into their own size with the padding, and the result fits the
HII area. -/
def Publishable (data : List UInt8) : Prop :=
  ∃ compressed fits, env.tianoCompress data data.length = .success compressed fits ∧
    paddedSize compressed.length ≤ data.length ∧
      paddedSize compressed.length + hiiHeaderSize ≤ smramHiiSize

/-- Bytes are padded to whole blocks if the buffer has room for them. -/
theorem padDst_ok {size : Nat} {dst : List UInt8} (room : paddedSize dst.length ≤ size) :
    padDst size dst.length dst = .ok
      (dst ++ List.replicate ((8 - dst.length % 8) % 8) 0x0A, paddedSize dst.length) := by
  simp only [padDst]
  unfold paddedSize at *
  by_cases whole : dst.length % 8 = 0
  · rw [if_pos whole, whole]
    simp
  · have below : (8 - dst.length % 8) % 8 = 8 - dst.length % 8 := by omega
    rw [below] at room ⊢
    rw [if_neg whole, if_pos room]

/-- What was padded had room. -/
theorem padDst_room {size dstSize paddedTo : Nat} {dst padded : List UInt8}
    (done : padDst size dstSize dst = .ok (padded, paddedTo)) :
    paddedTo = paddedSize dstSize ∧
      (dst.length = dstSize → padded.length = paddedSize dstSize) := by
  simp only [padDst] at done
  unfold paddedSize
  split_ifs at done with whole room
  · obtain ⟨rfl, rfl⟩ := Prod.mk.inj (Except.ok.inj done)
    rw [whole]
    simp
  · obtain ⟨rfl, rfl⟩ := Prod.mk.inj (Except.ok.inj done)
    have below : (8 - dstSize % 8) % 8 = 8 - dstSize % 8 := by omega
    rw [below, List.length_append, List.length_replicate]
    exact ⟨rfl, fun length => by rw [length]⟩

/-- What is written to the HII area fits it, and its header tells its size and its sum. -/
theorem writeFile_ok {data : List UInt8} (fits : data.length + hiiHeaderSize ≤ smramHiiSize) :
    ∃ file, writeFile env data = .ok ⟨data.length + hiiHeaderSize, some file⟩ ∧
      file.data = data ∧ file.data.length = file.fileSize.toNat ∧
        hiiHeaderSize + file.fileSize.toNat ≤ smramHiiSize ∧ file.checksum = file.data.sum := by
  have size : (UInt32.ofNat data.length).toNat = data.length := by
    apply UInt32.toNat_ofNat_of_lt'
    simp only [smramHiiSize] at fits
    exact show data.length < 2 ^ 32 by omega
  refine ⟨_, if_pos fits, rfl, size.symm, ?_, ?_⟩
  · rw [size, Nat.add_comm]
    exact fits
  · exact List.sum_eq_foldl.symm

/-- The rest of the function, from the compression on. -/
theorem combineHiiData_eq {hiiData text : List UInt8} (first : env.allocates 0 = true)
    (second : env.allocates 1 = true) (third : env.allocates 2 = true)
    (short : (hiiData ++ layoutList text).length ≤ maxHiiCombineSize)
    {data : List UInt8} (isData : data = hiiData ++ layoutList text) :
    combineHiiData env hiiData text =
      (padDst data.length (env.tianoCompress data data.length).dstSize
        (env.tianoCompress data data.length).dstBuffer).bind fun padded =>
          (encipherDst env data.length padded.2 padded.1).bind fun enciphered =>
            match enciphered with
            | none => .ok ⟨padded.2, none⟩
            | some enciphered => writeFile env enciphered := by
  subst isData
  simp only [combineHiiData, first, second, third, oriData, if_pos short, Nat.not_lt.mpr short,
    Bool.not_true, Bool.or_self, Bool.false_eq_true, if_false, bind, Except.bind]

/-- Data that can be published are published, unless there is nothing to publish. -/
theorem sound_of_publishable {hiiData text : List UInt8} (first : env.allocates 0 = true)
    (second : env.allocates 1 = true) (third : env.allocates 2 = true)
    (short : (hiiData ++ layoutList text).length ≤ maxHiiCombineSize)
    (publishable : Publishable env (hiiData ++ layoutList text)) :
    ∃ combined, combineHiiData env hiiData text = .ok combined ∧
      ∀ file, combined.file = some file → Sound env (hiiData ++ layoutList text) file := by
  rw [combineHiiData_eq env first second third short rfl]
  generalize hiiData ++ layoutList text = data at *
  obtain ⟨compressed, fits, succeeded, room, area⟩ := publishable
  rw [succeeded, Compression.dstSize, Compression.dstBuffer, padDst_ok room]
  let padding := (8 - compressed.length % 8) % 8
  have padded : (compressed ++ List.replicate padding 0x0A).length =
      paddedSize compressed.length := by
    rw [List.length_append, List.length_replicate, paddedSize]
  have ran : encipherDst env data.length (paddedSize compressed.length)
      (compressed ++ List.replicate padding 0x0A) = .ok (cBlowFishEncipherCharArray (hiiTables env)
        (compressed ++ List.replicate padding 0x0A) (paddedSize compressed.length)) := if_pos room
  simp only [Except.bind]
  rw [ran, ← padded]
  cases done : cBlowFishEncipherCharArray (hiiTables env)
      (compressed ++ List.replicate padding 0x0A)
      (compressed ++ List.replicate padding 0x0A).length with
  | none => exact ⟨_, rfl, by simp⟩
  | some enciphered =>
    obtain ⟨sameLength, back⟩ := decipher_charArray (hiiTables env) done
    have areaHere : enciphered.length + hiiHeaderSize ≤ smramHiiSize := by
      rw [sameLength, padded]
      exact area
    obtain ⟨file, isWritten, isData, size, inside, checksum⟩ := writeFile_ok env areaHere
    refine ⟨_, isWritten, ?_⟩
    rintro _ ⟨⟩
    refine ⟨size, inside, checksum, compressed, fits, padding, succeeded, by omega, ?_⟩
    rw [isData]
    exact back

/-- Where everything was allocated, only data that can be published leave nothing undone. -/
theorem publishable_of_sound {hiiData text : List UInt8} {combined : Combined}
    (first : env.allocates 0 = true) (second : env.allocates 1 = true)
    (third : env.allocates 2 = true)
    (short : (hiiData ++ layoutList text).length ≤ maxHiiCombineSize)
    (ran : combineHiiData env hiiData text = .ok combined)
    (sound : ∀ file, combined.file = some file → Sound env (hiiData ++ layoutList text) file) :
    Publishable env (hiiData ++ layoutList text) := by
  rw [combineHiiData_eq env first second third short rfl] at ran
  have nonempty : 0 < (hiiData ++ layoutList text).length := by
    simp [layoutList, formLayoutGuid]
  generalize hiiData ++ layoutList text = data at *
  obtain ⟨⟨padded, paddedTo⟩, isPadded, ran⟩ := Checked.bind_ok ran
  obtain ⟨enciphered, isEnciphered, ran⟩ := Checked.bind_ok ran
  obtain ⟨rfl, paddedLength⟩ := padDst_room isPadded
  simp only [encipherDst] at isEnciphered
  split_ifs at isEnciphered with room
  obtain rfl := Except.ok.inj isEnciphered
  have whole (size : Nat) : paddedSize size % 8 = 0 := by
    unfold paddedSize
    omega
  -- what was enciphered was published, and fits the area
  have publishes (length : padded.length = paddedSize
      (env.tianoCompress data data.length).dstSize) (some : padded.length ≠ 0) :
      ∃ file, combined.file = .some file ∧ padded.length + hiiHeaderSize ≤ smramHiiSize := by
    rw [← length] at ran
    obtain ⟨file, done, sameLength⟩ :=
      encipher_whole (hiiTables env) (by rw [length]; exact whole _) some
    rw [done] at ran
    simp only [writeFile] at ran
    split_ifs at ran with area
    obtain rfl := Except.ok.inj ran
    exact ⟨_, rfl, by rw [← sameLength]; exact area⟩
  cases result : env.tianoCompress data data.length with
  | success compressed fits =>
    rw [result] at room paddedLength publishes
    have length := paddedLength rfl
    refine ⟨compressed, fits, result, room, ?_⟩
    by_cases none : padded.length = 0
    · have empty : paddedSize compressed.length = 0 := length.symm.trans none
      rw [empty, smramHiiSize, hiiHeaderSize]
      omega
    · obtain ⟨_, _, area⟩ := publishes length none
      rw [length] at area
      exact area
  | tooSmall needed exceeds buffer =>
    rw [result, Compression.dstSize, paddedSize] at room
    omega
  | outOfResources buffer =>
    rw [result] at room paddedLength publishes
    have length := paddedLength Vector.length_toList
    rw [Compression.dstSize, paddedSize] at room length
    obtain ⟨file, written, _⟩ := publishes length (by omega)
    obtain ⟨compressed, fits, _, succeeded, _⟩ := (sound file written).deciphers
    rw [result] at succeeded
    cases succeeded

/-- The function stays inside its buffers and publishes nothing but sound files exactly if an
allocation fails early enough, or the data fit their buffers and can be published. The environment
says which allocations succeed and what the compression answers. -/
theorem combineHiiData_sound_iff (env : HiiEnv) (hiiData text : List UInt8) :
    (∃ combined, combineHiiData env hiiData text = .ok combined ∧
      ∀ file, combined.file = some file → Sound env (hiiData ++ layoutList text) file) ↔
      (env.allocates 0 = true → env.allocates 1 = true →
        (hiiData ++ layoutList text).length ≤ maxHiiCombineSize ∧
          (env.allocates 2 = true → Publishable env (hiiData ++ layoutList text))) := by
  by_cases early : env.allocates 0 = true ∧ env.allocates 1 = true
  · obtain ⟨first, second⟩ := early
    constructor
    · rintro ⟨combined, ran, sound⟩ _ _
      have short : (hiiData ++ layoutList text).length ≤ maxHiiCombineSize := by
        by_contra long
        simp only [combineHiiData, first, second, oriData, if_neg long] at ran
        cases ran
      exact ⟨short, fun third => publishable_of_sound env first second third short ran sound⟩
    · intro good
      obtain ⟨short, publishable⟩ := good first second
      by_cases third : env.allocates 2 = true
      · exact sound_of_publishable env first second third short (publishable third)
      · refine ⟨⟨0, none⟩, ?_, by simp⟩
        simp only [combineHiiData, first, second, third, oriData, if_pos short,
          Nat.not_lt.mpr short, bind, Except.bind, Bool.not_true, Bool.or_self,
          Bool.false_eq_true, Bool.not_false, if_false, if_true]
  · constructor
    · intro _ first second
      exact absurd ⟨first, second⟩ early
    · intro _
      refine ⟨⟨0, none⟩, if_pos ?_, by simp⟩
      simpa [imp_iff_not_or] using early

/-- A compression that always needs one byte more than there is. -/
def tightEnv : HiiEnv where
  allocates := fun _ => true
  tianoCompress := fun _ size => .tooSmall (size + 1) (Nat.lt_succ_self size)
    (Vector.replicate size 0)
  seed := ⟨Vector.replicate 18 0, Vector.replicate 4 (Vector.replicate 256 0)⟩
  tables := ⟨Vector.replicate 18 0, Vector.replicate 4 (Vector.replicate 256 0)⟩
  hiiVersion := 1

/-- Data that cannot be compressed into their own size are enciphered behind their buffer. -/
theorem not_always_sound :
    ¬ ∀ (env : HiiEnv) (hiiData text : List UInt8),
      ∃ combined, combineHiiData env hiiData text = .ok combined ∧
        ∀ file, combined.file = some file → Sound env (hiiData ++ layoutList text) file := by
  intro always
  obtain ⟨combined, ran, sound⟩ := always tightEnv [] []
  have publishable := publishable_of_sound tightEnv rfl rfl rfl (by decide) ran sound
  obtain ⟨compressed, fits, succeeded, _⟩ := publishable
  cases succeeded

end Law

end SmcPkg.HiiImage
