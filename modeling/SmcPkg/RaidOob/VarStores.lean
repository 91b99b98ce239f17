import SmcPkg.RaidOob.SetupFormsLaw

/-!
# The variable stores of a card

Every setup variable of a card is written as one opcode with its name behind the fixed
part. A browser reads the opcodes back by their lengths, which have seven bits: names of
more than 104 characters do not fit.

`fits_of_reads` says that the bound is not only enough: what is read back as it was written has
names that fit. A name is a text without a zero.
-/

namespace SmcPkg.VarStores

open Bytes Card Traced SetupForms

section Reading

/-- What a variable store tells a browser. -/
structure Declaration where
  guid : List UInt8
  varStoreId : UInt16
  size : UInt16
  name : List UInt8
deriving DecidableEq

/-- The declaration in the bytes of an opcode. The name ends at a zero inside the opcode. -/
def readVarStore (op : List UInt8) : Option Declaration :=
  let memory := packageMemory op
  let text := op.drop 22
  if 23 ≤ op.length ∧ opCode op = 0x24 ∧ 0 ∈ text then
    some ⟨bytesOf (shifted 2 memory) 16, word16 memory 18, word16 memory 20,
      text.takeWhile (fun byte => byte ≠ 0)⟩
  else none

/-- The declarations in a run of opcodes, walked by the lengths of the opcodes. -/
def readVarStores : Nat → List UInt8 → Option (List Declaration)
  | _, [] => some []
  | 0, _ :: _ => none
  | rounds + 1, bytes => do
    let length := opLength (bytes.getD 1 0)
    if 2 ≤ length ∧ length ≤ bytes.length then do
      let first ← readVarStore (bytes.take length)
      let rest ← readVarStores rounds (bytes.drop length)
      some (first :: rest)
    else none

/-- The bytes that declarations occupy at least. -/
def occupied (declarations : List Declaration) : Nat :=
  (declarations.map (fun declaration => 23 + declaration.name.length)).sum

variable {op bytes : List UInt8} {chunks : List (List UInt8)} {declaration : Declaration}
  {declarations : List Declaration} {rounds : Nat}

/-- An opcode that is read as a declaration has room for its name. -/
theorem readVarStore_size (reads : readVarStore op = some declaration) :
    23 + declaration.name.length ≤ op.length := by
  simp only [readVarStore] at reads
  split_ifs at reads with valid
  obtain ⟨long, -, ended⟩ := valid
  cases reads
  have shorter : ((op.drop 22).takeWhile (fun byte => byte ≠ 0)).length < (op.drop 22).length := by
    apply lt_of_le_of_ne (List.takeWhile_prefix _).length_le
    intro whole
    have same : (op.drop 22).takeWhile (fun byte => byte ≠ 0) = op.drop 22 :=
      (List.takeWhile_prefix _).eq_of_length whole
    have none_zero := List.takeWhile_eq_self_iff.mp same 0 ended
    simp at none_zero
  rw [List.length_drop] at shorter
  change 23 + ((op.drop 22).takeWhile (fun byte => byte ≠ 0)).length ≤ op.length
  omega

/-- Declarations are not read from fewer bytes than they occupy. -/
theorem readVarStores_size (reads : readVarStores rounds bytes = some declarations) :
    occupied declarations ≤ bytes.length := by
  induction rounds generalizing bytes declarations with
  | zero =>
    cases bytes with
    | nil => cases reads; simp [occupied]
    | cons byte bytes => cases reads
  | succ rounds inductionHypothesis =>
    cases bytes with
    | nil => cases reads; simp [occupied]
    | cons byte bytes =>
      simp only [readVarStores] at reads
      split_ifs at reads with valid
      obtain ⟨first, readFirst, reads⟩ := Option.bind_eq_some_iff.mp reads
      obtain ⟨rest, readRest, same⟩ := Option.bind_eq_some_iff.mp reads
      cases same
      have front := readVarStore_size readFirst
      have behind := inductionHypothesis readRest
      simp only [List.length_take, List.length_drop] at front behind
      simp only [occupied, List.map_cons, List.sum_cons] at behind ⊢
      omega

/-- A run of opcodes is read opcode by opcode. -/
theorem readVarStores_flatten (opcodes : ∀ chunk ∈ chunks, IsOpcode chunk)
    (enough : chunks.length ≤ rounds) :
    readVarStores rounds chunks.flatten = chunks.mapM readVarStore := by
  induction chunks generalizing rounds with
  | nil => cases rounds <;> rfl
  | cons chunk chunks inductionHypothesis =>
    rw [List.forall_mem_cons] at opcodes
    obtain ⟨isOpcode, opcodes⟩ := opcodes
    obtain ⟨more, rfl⟩ := Nat.exists_eq_add_of_le' enough
    rw [List.length_cons, ← Nat.add_assoc]
    have rest := @inductionHypothesis (more + chunks.length) opcodes (by omega)
    have long := isOpcode.two_le
    obtain ⟨code, flags, body, rfl, size⟩ := isOpcode
    rw [List.flatten_cons]
    have fits : 2 ≤ opLength flags ∧
        opLength flags ≤ (code :: flags :: body ++ chunks.flatten).length := by
      rw [List.length_append]
      omega
    have front : (code :: flags :: body ++ chunks.flatten).take (opLength flags) =
        code :: flags :: body := List.take_left' size.symm
    have behind : (code :: flags :: body ++ chunks.flatten).drop (opLength flags) =
        chunks.flatten := List.drop_left' size.symm
    rw [List.mapM_cons, ← rest]
    simp only [List.cons_append] at fits front behind ⊢
    simp only [readVarStores, List.getD_cons_succ, List.getD_cons_zero, if_pos fits, front, behind]
    rfl

end Reading

section Writing

/-- A setup variable whose name is a text. -/
structure TextVar extends SetupVar where
  text : 0 ∉ raidVarName

/-- What is declared of a setup variable. -/
def declarationOf (var : SetupVar) : Declaration :=
  ⟨var.raidVarGuid.toList, var.raidVarId, var.raidVarSize, var.raidVarName⟩

/-- The name fits into an opcode. -/
def Fits (var : SetupVar) : Prop := var.raidVarName.length ≤ 104

variable {var : SetupVar} {vars : List TextVar} {behind : Memory}

/-- The length of the opcode, by the name. -/
theorem varStore_length (var : SetupVar) : (varStore var).length = 23 + var.raidVarName.length := by
  simp [varStore, le16]
  omega

/-- The length in the header, of which seven bits are kept. -/
theorem opLength_varStore (var : SetupVar) :
    opLength ((varStore var).getD 1 0) = (23 + var.raidVarName.length) % 128 := by
  have mask : (0x7F : UInt8).toNat = 2 ^ 7 - 1 := rfl
  change (UInt8.ofNat (23 + var.raidVarName.length) &&& 0x7F).toNat % 128 = _
  rw [UInt8.toNat_and, mask, Nat.and_two_pow_sub_one_eq_mod, UInt8.toNat_ofNat']
  omega

/-- What is written for a variable is an opcode exactly if its name fits. -/
theorem isOpcode_varStore : IsOpcode (varStore var) ↔ Fits var := by
  have short := var.short
  rw [isOpcode_iff, opLength_varStore, varStore_length, Fits]
  omega

/-- The bytes that are copied of a variable store. -/
theorem cteBuffer_varStore_length :
    (cteBuffer (memoryOf (varStore var) behind)).length = (23 + var.raidVarName.length) % 128 := by
  have header : memoryOf (varStore var) behind 1 = (varStore var).getD 1 0 := rfl
  rw [cteBuffer, bytesOf, List.length_map, List.length_range, header, opLength_varStore]

/-- A variable store that fits is copied as it is. -/
theorem cteBuffer_varStore (fits : Fits var) :
    cteBuffer (memoryOf (varStore var) behind) = varStore var := by
  have size : opLength (memoryOf (varStore var) behind 1) = (varStore var).length :=
    (isOpcode_iff.mp (isOpcode_varStore.mpr fits)).2
  have stored : Stored (memoryOf (varStore var) behind) 0 (varStore var) := by
    intro i inside
    rw [Nat.zero_add, memoryOf, List.getElem?_eq_getElem inside, Option.getD_some]
  have start : shifted 0 (memoryOf (varStore var) behind) = memoryOf (varStore var) behind := by
    funext i
    rw [shifted, Nat.zero_add]
  rw [cteBuffer, size]
  have copied := bytesOf_stored stored
  rw [start] at copied
  exact copied

/-- The name is read up to its end. -/
theorem takeWhile_name {name rest : List UInt8} (text : 0 ∉ name) :
    (name ++ 0 :: rest).takeWhile (fun byte => byte ≠ 0) = name := by
  rw [List.takeWhile_append_of_pos]
  · simp
  · intro byte member
    rw [decide_eq_true_iff]
    rintro rfl
    exact text member

/-- The declaration of a variable is read back, where the name has no zero in it. -/
theorem readVarStore_varStore (var : TextVar) :
    readVarStore (varStore var.toSetupVar) = some (declarationOf var.toSetupVar) := by
  have guidSize : var.raidVarGuid.toList.length = 16 := by simp
  have stored : Stored (packageMemory (varStore var.toSetupVar)) 0 (varStore var.toSetupVar) := by
    intro i inside
    rw [Nat.zero_add, packageMemory, memoryOf, List.getElem?_eq_getElem inside, Option.getD_some]
  have parts := stored
  rw [varStore, stored_append, stored_append, stored_append, stored_append] at parts
  obtain ⟨-, guid, varId, size, -⟩ := parts
  have name : (varStore var.toSetupVar).drop 22 = var.raidVarName ++ [0] := by
    have front : varStore var.toSetupVar =
        ([0x24, UInt8.ofNat (23 + var.raidVarName.length) &&& 0x7F] ++
          (var.raidVarGuid.toList ++ (le16 var.raidVarId.toNat ++ le16 var.raidVarSize.toNat))) ++
            (var.raidVarName ++ [0]) := by
      simp [varStore]
    rw [front]
    exact List.drop_left' (by simp [le16])
  have guidRead := bytesOf_stored guid
  have varIdRead := word16_stored varId
  have sizeRead := word16_stored size
  rw [guidSize] at guidRead varIdRead sizeRead
  rw [UInt16.ofNat_toNat] at varIdRead sizeRead
  have valid : 23 ≤ (varStore var.toSetupVar).length ∧ opCode (varStore var.toSetupVar) = 0x24 ∧
      0 ∈ var.raidVarName ++ [(0 : UInt8)] := by
    rw [varStore_length]
    exact ⟨by omega, rfl, by simp⟩
  simp only [readVarStore, name, if_pos valid, takeWhile_name var.text]
  exact congrArg some (Declaration.mk.injEq .. |>.mpr ⟨guidRead, varIdRead, sizeRead, rfl⟩)

end Writing

section Inserting

variable (env : FormsEnv)

/-- A card with setup variables whose names are texts. -/
def withVars (card : CardForms) (vars : List TextVar) : CardForms :=
  { card with raidSetupVarSet := vars.map TextVar.toSetupVar }

/-- The opcodes that were put in declare the variables in their order, and every opcode has
the length that it occupies. -/
def InsertsVarStores (vars : List TextVar) (protocol later : Protocol) : Prop :=
  ∃ place items,
    searchOpCodeInFormData protocol.smcLsiCurrRAIDSetupData ifrFormSetOp 0 = some place ∧
    replaceBuffer protocol.smcLsiCurrRAIDSetupData
      (behindOp protocol.smcLsiCurrRAIDSetupData place) items =
        .ok later.smcLsiCurrRAIDSetupData ∧
    readVarStores items.length items =
      some (vars.map (fun var => declarationOf var.toSetupVar)) ∧
    ∀ var ∈ vars, IsOpcode (varStore var.toSetupVar)

variable {env} {card cardLater : CardForms} {vars : List TextVar} {protocol later : Protocol}

/-- The variables of a card are put out in their order, each cut to its length. -/
theorem forM_put_events (stores : List SetupVar) (counters : Counters) :
    (stores.forM (fun var => put env (varStore var)) counters).events =
      stores.map (fun var => cteBuffer (memoryOf (varStore var) env.behind)) := by
  induction stores generalizing counters with
  | nil => rfl
  | cons var stores inductionHypothesis =>
    rw [List.map_cons, ← inductionHypothesis counters]
    rfl

/-- What is put out is as long as the lengths in the opcodes say, which have seven bits. -/
theorem chunks_length (stores : List SetupVar) :
    ((stores.map (fun var => cteBuffer (memoryOf (varStore var) env.behind))).flatten).length =
      (stores.map (fun var => (23 + var.raidVarName.length) % 128)).sum := by
  rw [List.length_flatten, List.map_map]
  congr 1
  apply List.map_congr_left
  intro var _
  exact cteBuffer_varStore_length

/-- A run of `InsertRaidSetupVariable` puts in the copies of the variable stores. -/
theorem inserted_chunks
    (succeeds : insertRaidSetupVariable env protocol card = .ok (efiSuccess, later, cardLater)) :
    ∃ place, searchOpCodeInFormData protocol.smcLsiCurrRAIDSetupData ifrFormSetOp 0 = some place ∧
      replaceBuffer protocol.smcLsiCurrRAIDSetupData
        (behindOp protocol.smcLsiCurrRAIDSetupData place)
        (card.raidSetupVarSet.map
          (fun var => cteBuffer (memoryOf (varStore var) env.behind))).flatten =
          .ok later.smcLsiCurrRAIDSetupData := by
  cases searched : searchOpCodeInFormData protocol.smcLsiCurrRAIDSetupData ifrFormSetOp 0 with
  | none =>
    simp only [insertRaidSetupVariable, searched] at succeeds
    cases succeeds
  | some place =>
    refine ⟨place, rfl, ?_⟩
    simp only [insertRaidSetupVariable, searched] at succeeds
    cases ran : insertItems (behindOp protocol.smcLsiCurrRAIDSetupData place)
        (variableItems env card) protocol with
    | error fault =>
      rw [ran] at succeeds
      cases succeeds
    | ok result =>
      rw [ran] at succeeds
      cases succeeds
      have events := @forM_put_events env card.raidSetupVarSet protocol.counters
      have short : ∀ chunk ∈ (variableItems env card protocol.counters).events,
          chunk.length < 128 := by
        intro chunk member
        rw [variableItems, events, List.mem_map] at member
        obtain ⟨var, -, rfl⟩ := member
        rw [cteBuffer_varStore_length]
        omega
      obtain ⟨replaced, -⟩ := insertItems_ok short ran
      rw [← events]
      exact replaced

/-- Opcodes that all fit are read back. -/
theorem chunks_read (fits : ∀ var ∈ vars, Fits var.toSetupVar) {rounds : Nat}
    (enough : vars.length ≤ rounds) :
    readVarStores rounds ((vars.map TextVar.toSetupVar).map
      (fun var => cteBuffer (memoryOf (varStore var) env.behind))).flatten =
        some (vars.map (fun var => declarationOf var.toSetupVar)) := by
  have copies : (vars.map TextVar.toSetupVar).map
      (fun var => cteBuffer (memoryOf (varStore var) env.behind)) =
        vars.map (fun var => varStore var.toSetupVar) := by
    rw [List.map_map]
    apply List.map_congr_left
    intro var member
    exact cteBuffer_varStore (fits var member)
  rw [copies, readVarStores_flatten]
  · have reads : (readVarStore ∘ fun var : TextVar => varStore var.toSetupVar) =
        fun var => pure (declarationOf var.toSetupVar) := funext readVarStore_varStore
    rw [List.mapM_map, reads]
    exact List.mapM_pure
  · intro chunk member
    rw [List.mem_map] at member
    obtain ⟨var, member, rfl⟩ := member
    exact isOpcode_varStore.mpr (fits var member)
  · rw [List.length_map]
    exact enough

/-- A name that does not fit loses bytes, so the whole run is too short for its declarations. -/
theorem fits_of_reads {rounds : Nat}
    (reads : readVarStores rounds ((vars.map TextVar.toSetupVar).map
      (fun var => cteBuffer (memoryOf (varStore var) env.behind))).flatten =
        some (vars.map (fun var => declarationOf var.toSetupVar))) :
    ∀ var ∈ vars, Fits var.toSetupVar := by
  have enough := readVarStores_size reads
  rw [chunks_length, occupied, List.map_map, List.map_map] at enough
  have shrinks : ∀ vars : List TextVar,
      (vars.map (fun var => (23 + var.raidVarName.length) % 128)).sum ≤
        (vars.map (fun var => 23 + var.raidVarName.length)).sum := by
    intro vars
    exact List.sum_le_sum (fun var _ => Nat.mod_le _ _)
  clear reads
  induction vars with
  | nil => simp
  | cons var vars inductionHypothesis =>
    have rest := shrinks vars
    have short := var.short
    simp only [List.map_cons, List.sum_cons, Function.comp_apply, declarationOf] at enough
    rw [List.forall_mem_cons]
    constructor
    · change (23 + var.raidVarName.length) + (vars.map
        (fun var => 23 + var.raidVarName.length)).sum ≤ (23 + var.raidVarName.length) % 128 +
          (vars.map (fun var => (23 + var.raidVarName.length) % 128)).sum at enough
      rw [Fits]
      omega
    · apply inductionHypothesis
      change (vars.map (fun var => 23 + var.raidVarName.length)).sum ≤
        (vars.map (fun var => (23 + var.raidVarName.length) % 128)).sum
      change (23 + var.raidVarName.length) + (vars.map
        (fun var => 23 + var.raidVarName.length)).sum ≤ (23 + var.raidVarName.length) % 128 +
          (vars.map (fun var => (23 + var.raidVarName.length) % 128)).sum at enough
      have less := Nat.mod_le (23 + var.raidVarName.length) 128
      omega

/-- The variable stores are put in as they are meant exactly when every name fits. The length of an
opcode has seven bits, and 23 of the 127 bytes are not those of the name. That the insertion
comes to its end is assumed: in a package without a form set there is no place for it. -/
theorem insertsVarStores_iff
    (succeeds : insertRaidSetupVariable env protocol (withVars card vars) =
      .ok (efiSuccess, later, cardLater)) :
    InsertsVarStores vars protocol later ↔ ∀ var ∈ vars, var.raidVarName.length ≤ 104 := by
  constructor
  · rintro ⟨place, items, -, -, -, opcodes⟩ var member
    exact isOpcode_varStore.mp (opcodes var member)
  · intro fits
    obtain ⟨place, searched, replaced⟩ := inserted_chunks succeeds
    refine ⟨place, _, searched, replaced, chunks_read fits ?_, ?_⟩
    · change vars.length ≤ (((vars.map TextVar.toSetupVar).map _).flatten).length
      rw [chunks_length, List.map_map]
      have one : ∀ count ∈ vars.map ((fun var : SetupVar => (23 + var.raidVarName.length) % 128) ∘
          TextVar.toSetupVar), 1 ≤ count := by
        intro count member
        rw [List.mem_map] at member
        obtain ⟨var, member, rfl⟩ := member
        have short := fits var member
        change 1 ≤ (23 + var.raidVarName.length) % 128
        omega
      have total := List.length_le_sum_of_one_le _ one
      rw [List.length_map] at total
      exact total
    · intro var member
      exact isOpcode_varStore.mpr (fits var member)

end Inserting

section Samples

/-- A variable whose name has a number of characters. -/
def namedVar (count : Nat) (short : count < 128) : TextVar where
  raidVarName := List.replicate count 0x41
  raidVarGuid := Vector.replicate 16 0
  raidVarId := 1
  raidVarSize := 1
  short := by
    rw [List.length_replicate]
    exact short
  text := by
    intro zero
    have same := List.eq_of_mem_replicate zero
    cases same

/-- The setup data before the first card. -/
def pageProtocol : Protocol := ⟨page, 0, plainCounters, []⟩

/-- A short name, and one with a number of characters. -/
def twoVars (count : Nat) (short : count < 128) : List TextVar :=
  [namedVar 5 (by decide), namedVar count short]

/-- A run with names of 104 characters, which are read back. -/
theorem twoVars_runs :
    (match insertRaidSetupVariable plainEnv pageProtocol
      (withVars plainNumericCard (twoVars 104 (by decide))) with
    | .ok (status, _, _) => decide (status = efiSuccess)
    | .error _ => false) = true := by decide +kernel

/-- Names of five and of 104 characters fit. -/
theorem insertsVarStores_twoVars : ∃ later cardLater,
    insertRaidSetupVariable plainEnv pageProtocol
      (withVars plainNumericCard (twoVars 104 (by decide))) =
        .ok (efiSuccess, later, cardLater) ∧
      InsertsVarStores (twoVars 104 (by decide)) pageProtocol later := by
  have runs := twoVars_runs
  rcases ran : insertRaidSetupVariable plainEnv pageProtocol
      (withVars plainNumericCard (twoVars 104 (by decide))) with fault | ⟨status, later, cardLater⟩
  · rw [ran] at runs
    cases runs
  · rw [ran] at runs
    obtain rfl : status = efiSuccess := of_decide_eq_true runs
    exact ⟨later, cardLater, rfl, (insertsVarStores_iff ran).mpr (by decide)⟩

/-- A run with names of 105 characters, of which nothing is left. -/
theorem overlongVar_runs :
    (match insertRaidSetupVariable plainEnv pageProtocol
      (withVars plainNumericCard (twoVars 105 (by decide))) with
    | .ok (status, _, _) => decide (status = efiSuccess)
    | .error _ => false) = true := by decide +kernel

/-- The length of a variable store with a name of 105 characters is kept as 0. -/
theorem not_insertsVarStores_overlong : ¬ ∀ (env : FormsEnv) (card cardLater : CardForms)
    (vars : List TextVar) (protocol later : Protocol),
    insertRaidSetupVariable env protocol (withVars card vars) =
      .ok (efiSuccess, later, cardLater) →
    InsertsVarStores vars protocol later := by
  intro claimed
  have runs := overlongVar_runs
  rcases ran : insertRaidSetupVariable plainEnv pageProtocol
      (withVars plainNumericCard (twoVars 105 (by decide))) with fault | ⟨status, later, cardLater⟩
  · rw [ran] at runs
    cases runs
  · rw [ran] at runs
    obtain rfl : status = efiSuccess := of_decide_eq_true runs
    obtain ⟨place, items, -, -, -, opcodes⟩ := claimed _ _ _ _ _ _ ran
    have fits := isOpcode_varStore.mp (opcodes (namedVar 105 (by decide)) (by simp [twoVars]))
    exact absurd fits (by simp [Fits, namedVar])

end Samples

end SmcPkg.VarStores
