import SmcPkg.Compress.FillBuf
import SmcPkg.Compress.PutBits

/-!
# What is put out is read back

The output of the compression and the input of the decompression fit together: numbers of
any widths that `PutBits` has packed into bytes come out of `GetBits` in their order. This
holds across the bytes, and for the last byte, which zeros fill up.

The widths are those of the model, up to 32. The code is only meant for widths from 1 to 31: at
the others it shifts a word by its own width, which C leaves open.
-/

namespace SmcPkg.UefiDecompress

open BitRows Bytes TianoCompress

/-- Numbers of some widths are read one after the other. -/
def getAll : List Nat → Source → List Nat × Source
  | [], source => ([], source)
  | width :: widths, source =>
    let (value, source) := getBits width source
    let (values, source) := getAll widths source
    (value :: values, source)

/-- Numbers that are ahead are read in their order. -/
theorem Ahead.getAll {fields : List (Nat × Nat)} {rest : List Bool} {source : Source}
    (short : ∀ field ∈ fields, field.2 < 2 ^ field.1 ∧ field.1 ≤ 32)
    (ahead : Ahead (fields.flatMap (fun field => bitsOf field.1 field.2) ++ rest) source) :
    (getAll (fields.map Prod.fst) source).1 = fields.map Prod.snd ∧
      Ahead rest (getAll (fields.map Prod.fst) source).2 := by
  induction fields generalizing source with
  | nil => exact ⟨rfl, ahead⟩
  | cons field fields inductionHypothesis =>
    rw [List.forall_mem_cons] at short
    rw [List.flatMap_cons, List.append_assoc] at ahead
    obtain ⟨value, behind⟩ := ahead.getBits short.1.1 short.1.2
    obtain ⟨values, later⟩ := inductionHypothesis short.2 behind
    rw [List.map_cons, List.map_cons, UefiDecompress.getAll]
    exact ⟨by rw [← value, ← values], later⟩

/-- Numbers of some widths are put out one after the other and flushed. -/
def packAll (fields : List (Nat × Nat)) (start : Dst) : Dst :=
  putBits 7 0 (fields.foldl (fun dst field => putBits field.1 field.2 dst) (initPutBits start))

/-- Numbers that are packed with `PutBits` and flushed are read back with `GetBits`, where
the destination has room for them. -/
theorem putBits_getBits (fields : List (Nat × Nat))
    (short : ∀ field ∈ fields, field.2 < 2 ^ field.1 ∧ field.1 ≤ 32) (start : Dst)
    (fresh : start.mCompSize = 0)
    (room : start.bytes.length + ((fields.map Prod.fst).sum + 7) / 8 ≤ start.dstSize)
    (small : start.dstSize < 2 ^ 32) (base : Memory)
    (stored : Stored base 0 ((packAll fields start).bytes.drop start.bytes.length)) :
    (getAll (fields.map Prod.fst)
        (fillBuf 32 (initialSource base (packAll fields start).mCompSize))).1 =
      fields.map Prod.snd := by
  have inside : start.bytes.length ≤ start.dstSize := by omega
  have begun : Out start.bytes [] (initPutBits start) :=
    ⟨[], initPutBits_putOut (List.take_of_length_le inside).symm fresh⟩
  have packs := (puts_foldl fields fun field member => puts_putBits (short field member).1).andThen
    (puts_putBits (Nat.two_pow_pos 7))
  obtain ⟨out, size⟩ := packs _ _ _ begun
  change Out _ _ (packAll fields start) at out
  change (packAll fields start).dstSize = start.dstSize at size
  have width : (fields.flatMap fun field => bitsOf field.1 field.2).length =
      (fields.map Prod.fst).sum := by
    simp [List.length_flatMap]
  obtain ⟨bytes, zeros, written, counted, -, row⟩ := out.flushed
    (by rw [width, size]; exact room) (by rw [size]; exact small)
  rw [written, List.drop_left] at stored
  have ahead := ahead_start stored
  rw [row, Ahead.padded] at ahead
  rw [← List.append_nil (fields.flatMap _)] at ahead
  rw [counted]
  exact (Ahead.getAll short ahead).1

/-- Three numbers, in a destination with a byte in front of them. -/
theorem putBits_getBits_three :
    (getAll [3, 9, 6] (fillBuf 32 (initialSource
        (fun i => (packAll [(3, 5), (9, 300), (6, 1)] ⟨[7], 4, 0, 0, 0⟩).bytes.getD (1 + i) 0)
        (packAll [(3, 5), (9, 300), (6, 1)] ⟨[7], 4, 0, 0, 0⟩).mCompSize))).1 = [5, 300, 1] := by
  refine putBits_getBits [(3, 5), (9, 300), (6, 1)] (by decide) ⟨[7], 4, 0, 0, 0⟩ rfl (by decide)
    (by decide) _ fun i inside => ?_
  rw [List.getElem_drop, Nat.zero_add]
  exact List.getD_eq_getElem _ _ _

end SmcPkg.UefiDecompress
