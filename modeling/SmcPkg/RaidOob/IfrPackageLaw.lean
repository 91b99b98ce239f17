import SmcPkg.RaidOob.IfrPackage

/-!
# Putting opcodes into a form package

The search of a well-formed package stops at the start of an opcode. Opcodes that are
spliced in there, or behind that opcode, and whose scopes are closed leave a well-formed
package, whose length has grown by theirs.
-/

namespace SmcPkg.SetupForms

open Bytes RaidCmd Card Nesting

section Opcodes

variable {op : List UInt8} {memory item : Memory} {place : Nat}

/-- An opcode in memory has its length in its second byte. -/
theorem IsOpcode.length_eq (opcode : IsOpcode op) (stored : Stored memory place op) :
    opLength (memory (place + 1)) = op.length := by
  obtain ⟨code, flags, body, rfl, size⟩ := opcode
  rw [stored 1 (by simp)]
  exact size

/-- An opcode has two bytes at least. -/
theorem IsOpcode.two_le (opcode : IsOpcode op) : 2 ≤ op.length := by
  obtain ⟨code, flags, body, rfl, -⟩ := opcode
  simp

/-- What an opcode is, by its bytes. -/
theorem isOpcode_iff : IsOpcode op ↔ 2 ≤ op.length ∧ opLength (op.getD 1 0) = op.length := by
  constructor
  · intro opcode
    refine ⟨opcode.two_le, ?_⟩
    obtain ⟨code, flags, body, rfl, size⟩ := opcode
    exact size
  · rintro ⟨long, size⟩
    match op with
    | code :: flags :: body => exact ⟨code, flags, body, rfl, size⟩

instance : DecidablePred IsOpcode := fun _ => decidable_of_iff _ isOpcode_iff.symm

/-- The length of an opcode has seven bits. -/
theorem opLength_lt (flags : UInt8) : opLength flags < 128 := Nat.mod_lt _ (by omega)

/-- So an opcode has fewer than 128 bytes. -/
theorem IsOpcode.length_lt (opcode : IsOpcode op) : op.length < 128 := by
  obtain ⟨code, flags, body, rfl, size⟩ := opcode
  rw [← size]
  exact opLength_lt flags

/-- The copy of an item starts with its header. -/
theorem cteBuffer_eq (long : 2 ≤ opLength (item 1)) :
    ∃ body, cteBuffer item = item 0 :: item 1 :: body ∧
      opLength (item 1) = (cteBuffer item).length := by
  obtain ⟨more, size⟩ := Nat.exists_eq_add_of_le' long
  refine ⟨(List.range more).map (fun i => item (i + 2)), ?_, ?_⟩
  · rw [cteBuffer, size, bytesOf, List.range_succ_eq_map, List.range_succ_eq_map]
    simp
  · simp [cteBuffer, bytesOf]

/-- What is cut out of an item by its length is an opcode. -/
theorem isOpcode_cteBuffer (long : 2 ≤ opLength (item 1)) : IsOpcode (cteBuffer item) := by
  obtain ⟨body, same, size⟩ := cteBuffer_eq long
  exact ⟨item 0, item 1, body, same, size⟩

/-- It is an END if the item is. -/
theorem isEnd_cteBuffer (long : 2 ≤ opLength (item 1)) :
    isEnd (cteBuffer item) = decide (item 0 = ifrEndOp) := by
  obtain ⟨body, same, -⟩ := cteBuffer_eq long
  rw [same, isEnd, opCode, List.headD_cons]

/-- It has a scope if the item has. -/
theorem hasScope_cteBuffer (long : 2 ≤ opLength (item 1)) :
    hasScope (cteBuffer item) = decide (128 ≤ item 1) := by
  obtain ⟨body, same, -⟩ := cteBuffer_eq long
  rw [same, hasScope]

end Opcodes

section Package

variable {data later : List UInt8} {type : UInt8} {ops front items back : List (List UInt8)}

/-- A 24-bit word is read back. -/
theorem packageLength_le24 {value : Nat} {rest : List UInt8} (short : value < 2 ^ 24) :
    packageLength (le24 value ++ rest) = value := by
  change (UInt8.ofNat value).toNat + (UInt8.ofNat (value / 0x100)).toNat * 0x100 +
    (UInt8.ofNat (value / 0x10000)).toNat * 0x10000 = value
  rw [UInt8.toNat_ofNat', UInt8.toNat_ofNat', UInt8.toNat_ofNat']
  omega

/-- A form package is as long as its header says. -/
theorem FormsPackage.length_eq (package : FormsPackage data type ops) :
    packageLength data = data.length := by
  have same := @packageLength_le24 data.length (type :: ops.flatten) package.short
  rw [← package.bytes] at same
  exact same

/-- The length of a form package, by its opcodes. -/
theorem FormsPackage.size (package : FormsPackage data type ops) :
    data.length = 4 + ops.flatten.length := by
  have same := congrArg List.length package.bytes
  rw [List.length_append, List.length_cons] at same
  change data.length = 3 + (ops.flatten.length + 1) at same
  omega

/-- The opcodes lie behind the header. -/
theorem FormsPackage.stored (package : FormsPackage data type ops) :
    Stored (packageMemory data) 4 ops.flatten := by
  intro i inside
  have found : data[4 + i]? = some ops.flatten[i] := by
    rw [package.bytes, List.getElem?_append_right (by simp [le24]; omega)]
    have behind : 4 + i - (le24 data.length).length = i + 1 := by
      simp [le24]
      omega
    rw [behind, List.getElem?_cons_succ, List.getElem?_eq_getElem inside]
  rw [packageMemory, memoryOf, found, Option.getD_some]

/-- The search stops at the start of an opcode. -/
theorem searchFrom_stops {memory : Memory} {length rounds place found : Nat} {code : UInt8}
    {label : UInt16} (stored : Stored memory place ops.flatten) (opcodes : ∀ op ∈ ops, IsOpcode op)
    (ends : length = place + ops.flatten.length)
    (finds : searchFrom memory length code label rounds place = some found) :
    ∃ front op back, ops = front ++ op :: back ∧ found = place + front.flatten.length := by
  induction ops generalizing rounds place with
  | nil =>
    cases rounds with
    | zero => cases finds
    | succ rounds =>
      rw [searchFrom, if_neg (by simp [ends])] at finds
      cases finds
  | cons op ops inductionHypothesis =>
    rw [List.flatten_cons] at stored ends
    rw [List.length_append] at ends
    obtain ⟨here, behind⟩ := stored_append.mp stored
    have isOpcode := opcodes op List.mem_cons_self
    cases rounds with
    | zero => cases finds
    | succ rounds =>
      have size := isOpcode.two_le
      rw [searchFrom, if_pos (by omega)] at finds
      split_ifs at finds with wanted
      · cases finds
        exact ⟨[], op, ops, rfl, rfl⟩
      · rw [isOpcode.length_eq here] at finds
        obtain ⟨front, next, back, rfl, rfl⟩ := inductionHypothesis behind
          (fun op member => opcodes op (List.mem_cons_of_mem _ member)) (by omega) finds
        refine ⟨op :: front, next, back, rfl, ?_⟩
        rw [List.flatten_cons, List.length_append]
        omega

/-- A search of a well-formed package stops at the start of an opcode. -/
theorem FormsPackage.search (package : FormsPackage data type ops) {code : UInt8} {label : UInt16}
    {place : Nat} (finds : searchOpCodeInFormData data code label = some place) :
    ∃ front op back, ops = front ++ op :: back ∧ place = 4 + front.flatten.length ∧
      opLength (packageMemory data (place + 1)) = op.length := by
  have ends : packageLength data = 4 + ops.flatten.length := by
    rw [package.length_eq, package.size]
  obtain ⟨front, op, back, rfl, rfl⟩ :=
    searchFrom_stops package.stored package.opcodes ends finds
  refine ⟨front, op, back, rfl, rfl, ?_⟩
  have stored := package.stored
  rw [List.flatten_append, stored_append, List.flatten_cons, stored_append] at stored
  exact (package.opcodes op (by simp)).length_eq stored.2.1

/-- Opcodes with closed scopes may be put in between the opcodes of a package. -/
theorem FormsPackage.replace (package : FormsPackage data type (front ++ back))
    (opcodes : ∀ op ∈ items, IsOpcode op) (nested : WellScoped items)
    (replaced : replaceBuffer data (4 + front.flatten.length) items.flatten = .ok later) :
    FormsPackage later type (front ++ (items ++ back)) ∧
      later.length = data.length + items.flatten.length := by
  have header : (le24 data.length ++ type :: front.flatten).length = 4 + front.flatten.length := by
    simp [le24]
    omega
  have parts : data = (le24 data.length ++ type :: front.flatten) ++ back.flatten := by
    rw [List.append_assoc, List.cons_append, ← List.flatten_append]
    exact package.bytes
  have upper : data.take (4 + front.flatten.length) = le24 data.length ++ type :: front.flatten := by
    conv_lhs => rw [parts]
    exact List.take_left' header
  have lower : (data.take (packageLength data)).drop (4 + front.flatten.length) = back.flatten := by
    rw [package.length_eq, List.take_length]
    conv_lhs => rw [parts]
    exact List.drop_left' header
  simp only [replaceBuffer] at replaced
  rw [upper, lower, package.length_eq] at replaced
  split_ifs at replaced with fits
  have grown : later = le24 (data.length + items.flatten.length) ++
      type :: (front ++ (items ++ back)).flatten := by
    cases replaced
    simp [le24]
  have size : later.length = data.length + items.flatten.length := by
    rw [grown, package.size]
    simp [le24]
    omega
  refine ⟨⟨?_, ?_, ?_, ?_⟩, size⟩
  · rw [size]
    exact grown
  · have limit : maxHpkListSize = 0x100000 := rfl
    have whole := package.size
    simp only [List.length_append, header, List.flatten_append] at fits whole
    omega
  · intro op member
    have apart := package.opcodes op
    simp only [List.mem_append] at member apart
    rcases member with before | inside | behind
    · exact apart (Or.inl before)
    · exact opcodes op inside
    · exact apart (Or.inr behind)
  · exact package.nested.insert nested

end Package

section Buffer

variable {chunks : List (List UInt8)}

/-- A copy of an opcode leaves room for one more byte. -/
theorem copyAndExtMem_ok {mem : ItemsMem} {chunk : List UInt8}
    (room : mem.buffer.length < mem.alSize) (short : chunk.length < 128) :
    ∃ alSize, copyAndExtMem mem chunk = .ok ⟨alSize, mem.buffer ++ chunk⟩ ∧
      (mem.buffer ++ chunk).length < alSize := by
  have step : addItemsMemSize = 0x1000 := rfl
  rw [List.length_append]
  by_cases full : mem.alSize ≤ mem.buffer.length + chunk.length
  · have extended : mem.buffer.length + chunk.length < mem.alSize + addItemsMemSize := by omega
    refine ⟨mem.alSize + addItemsMemSize, ?_, extended⟩
    simp only [copyAndExtMem, full, extended, and_self, if_true]
    rw [if_pos extended.le]
  · refine ⟨mem.alSize, ?_, by omega⟩
    simp only [copyAndExtMem, full, false_and, if_false]
    rw [if_pos (by omega)]

/-- The items buffer takes any number of opcodes. -/
theorem itemsMem_filled {mem : ItemsMem} (room : mem.buffer.length < mem.alSize)
    (short : ∀ chunk ∈ chunks, chunk.length < 128) :
    ∃ filled, chunks.foldlM copyAndExtMem mem = .ok filled ∧
      filled.buffer = mem.buffer ++ chunks.flatten := by
  induction chunks generalizing mem with
  | nil => exact ⟨mem, rfl, by simp⟩
  | cons chunk chunks inductionHypothesis =>
    rw [List.forall_mem_cons] at short
    obtain ⟨alSize, copied, roomLater⟩ := copyAndExtMem_ok room short.1
    obtain ⟨filled, ran, same⟩ :=
      @inductionHypothesis ⟨alSize, mem.buffer ++ chunk⟩ roomLater short.2
    refine ⟨filled, ?_, ?_⟩
    · rw [List.foldlM_cons, copied]
      exact ran
    · rw [same, List.flatten_cons, List.append_assoc]

end Buffer

end SmcPkg.SetupForms
