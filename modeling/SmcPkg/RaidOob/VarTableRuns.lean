import SmcPkg.RaidOob.VarTable

/-!
# Runs of adds on the variable tables

Seen from outside, the two tables are a log: the variables successfully added, in
order, and a search returns the first one in the log that fits. `Represents`
connects the tables with the addresses of that log, and every add of a variable
that is not in the log extends it by one entry or, when it fails, leaves it as it
was.

An add of a variable that is already in the log breaks this. `VarInitial` clears
the links of the node while it is still in both chains, and the walk to the end
of the name chain then ends at the node itself, which becomes its own successor.

Nothing else is assumed of the variables: `repeated_add_not_finite` shows that the condition on
the runs is needed.
-/

namespace SmcPkg.VarTable

open RaidCmd Buckets

/-- The bucket of an entry by name. -/
def VarTables.nameIndex (tables : VarTables) (a : Nat) : Nat :=
  varHashByName (tables.node a).raidVarName

/-- The bucket of an entry by identifier. -/
def VarTables.idIndex (tables : VarTables) (a : Nat) : Nat :=
  varHashById (tables.node a).raidVarId

/-- Both tables hold the listed nodes, in this order. -/
structure Represents (tables : VarTables) (entries : List Nat) : Prop where
  distinct : entries.Nodup
  allocated : ∀ a ∈ entries, a < tables.nodes
  byName : tables.byName.Holds tables.nameIndex entries
  byId : tables.byId.Holds tables.idIndex entries

/-- Nothing that was allocated before has changed. -/
structure Keeps (tables later : VarTables) : Prop where
  nodes : tables.nodes ≤ later.nodes
  node : ∀ b, b < tables.nodes → later.node b = tables.node b
  buffers : tables.buffers ≤ later.buffers
  buffer : ∀ p, p < tables.buffers → later.buffer p = tables.buffer p

/-- The new tables contain one more node, which is not linked yet. -/
structure Extends (tables extended : VarTables) (entries : List Nat) : Prop where
  keeps : Keeps tables extended
  inside : tables.nodes < extended.nodes
  byName : extended.byName.Holds tables.nameIndex entries
  byId : extended.byId.Holds tables.idIndex entries
  unlinkedName : extended.byName.next tables.nodes = none
  unlinkedId : extended.byId.next tables.nodes = none

section Search

variable {tables : VarTables} {entries : List Nat}

/-- A search by name is a search in the log. -/
theorem searchLsiVarByName_represents (represents : Represents tables entries)
    (name : List UInt8) (guid : Option Guid) {fuel : Nat} (enough : entries.length ≤ fuel) :
    searchLsiVarByName fuel tables name guid =
      .ok (entries.find? (matchesName tables name guid)) := by
  have found := Links.search_holds represents.byName (matchesName tables name guid)
    (varHashByName name) fuel (fun a _ fits => by
      have named : (tables.node a).raidVarName = name := by
        simp only [matchesName, Bool.and_eq_true, decide_eq_true_eq] at fits
        exact fits.1
      rw [VarTables.nameIndex, named]) enough
  rw [searchLsiVarByName, found]
  rfl

/-- A search by identifier is a search in the log. -/
theorem searchLsiVarById_represents (represents : Represents tables entries) (varId : UInt16)
    {fuel : Nat} (enough : entries.length ≤ fuel) :
    searchLsiVarById fuel tables varId =
      .ok (entries.find? (fun a => (tables.node a).raidVarId = varId)) := by
  have found := Links.search_holds represents.byId
    (fun a => decide ((tables.node a).raidVarId = varId)) (varHashById varId) fuel
    (fun a _ fits => by
      have identified : (tables.node a).raidVarId = varId := by simpa using fits
      rw [VarTables.idIndex, identified]) enough
  rw [searchLsiVarById, found]
  rfl

end Search

section Node

variable {tables extended : VarTables} {entries : List Nat} {key : AddKey}

/-- A state keeps itself. -/
theorem Keeps.refl (tables : VarTables) : Keeps tables tables :=
  ⟨Nat.le_refl _, fun _ _ => rfl, Nat.le_refl _, fun _ _ => rfl⟩

/-- Keeping composes. -/
theorem Keeps.trans {middle later : VarTables} (first : Keeps tables middle)
    (second : Keeps middle later) : Keeps tables later where
  nodes := Nat.le_trans first.nodes second.nodes
  node := fun b below => (second.node b (Nat.lt_of_lt_of_le below first.nodes)).trans
    (first.node b below)
  buffers := Nat.le_trans first.buffers second.buffers
  buffer := fun p below => (second.buffer p (Nat.lt_of_lt_of_le below first.buffers)).trans
    (first.buffer p below)

/-- Tables that keep the listed nodes and their chains represent the same log. -/
theorem Keeps.represents {later : VarTables} (keeps : Keeps tables later)
    (represents : Represents tables entries)
    (byName : later.byName.Holds tables.nameIndex entries)
    (byId : later.byId.Holds tables.idIndex entries) : Represents later entries where
  distinct := represents.distinct
  allocated := fun a member => Nat.lt_of_lt_of_le (represents.allocated a member) keeps.nodes
  byName := Links.holds_congr byName (fun a member => by
    rw [VarTables.nameIndex, keeps.node a (represents.allocated a member)]; rfl)
  byId := Links.holds_congr byId (fun a member => by
    rw [VarTables.idIndex, keeps.node a (represents.allocated a member)]; rfl)

/-- For a variable that is not in the log the search fails, and a new node is taken
unless the pool is exhausted. -/
theorem takeNode_fresh (represents : Represents tables entries)
    (fresh : ∀ a ∈ entries, matchesName tables key.name (some key.guid) a = false)
    {fuel : Nat} (enough : entries.length ≤ fuel) :
    takeNode fuel tables key =
      .ok (if key.allocated then some (tables.nodes, tables.allocateNode) else none) := by
  have absent : entries.find? (matchesName tables key.name (some key.guid)) = none := by
    rw [List.find?_eq_none]
    intro a member
    simp [fresh a member]
  have missed := searchLsiVarByName_represents represents key.name (some key.guid) enough
  rw [absent] at missed
  simp only [takeNode, missed, bind, Except.bind]
  split <;> rfl

/-- A new node is not in the log. -/
theorem Represents.fresh (represents : Represents tables entries) : tables.nodes ∉ entries :=
  fun member => Nat.lt_irrefl _ (represents.allocated _ member)

/-- Writing a node leaves all older nodes. -/
theorem update_older {later : Nat → RaidVar} (kept : ∀ b, b < tables.nodes → later b = tables.node b)
    (var : RaidVar) (b : Nat) (below : b < tables.nodes) :
    Function.update later tables.nodes var b = tables.node b := by
  rw [Function.update_of_ne (Nat.ne_of_lt below)]
  exact kept b below

/-- Allocating a node adds one that is not linked. -/
theorem allocateNode_extends (represents : Represents tables entries) :
    Extends tables tables.allocateNode entries where
  keeps := ⟨Nat.le_succ _, update_older (fun _ _ => rfl) _, Nat.le_refl _, fun _ _ => rfl⟩
  inside := Nat.lt_succ_self _
  byName := Links.clear_holds represents.byName represents.fresh
  byId := Links.clear_holds represents.byId represents.fresh
  unlinkedName := Function.update_self ..
  unlinkedId := Function.update_self ..

/-- Initialising the new node keeps it unlinked. -/
theorem resetNode_extends (represents : Represents tables entries)
    (grown : Extends tables extended entries) (var : RaidVar) :
    Extends tables (extended.resetNode tables.nodes var) entries where
  keeps := ⟨grown.keeps.nodes, update_older grown.keeps.node _, grown.keeps.buffers,
    grown.keeps.buffer⟩
  inside := grown.inside
  byName := Links.clear_holds grown.byName represents.fresh
  byId := Links.clear_holds grown.byId represents.fresh
  unlinkedName := Function.update_self ..
  unlinkedId := Function.update_self ..

/-- Giving the new node a buffer keeps it unlinked. -/
theorem setNode_extends (grown : Extends tables extended entries) (var : RaidVar) :
    Extends tables (extended.setNode tables.nodes var) entries where
  keeps := ⟨grown.keeps.nodes, update_older grown.keeps.node _, grown.keeps.buffers,
    grown.keeps.buffer⟩
  inside := grown.inside
  byName := grown.byName
  byId := grown.byId
  unlinkedName := grown.unlinkedName
  unlinkedId := grown.unlinkedId

/-- Allocating a buffer for the new node leaves all older buffers. -/
theorem allocateBuffer_extends (grown : Extends tables extended entries) (size : Nat) :
    Extends tables (extended.allocateBuffer tables.nodes size) entries where
  keeps := ⟨grown.keeps.nodes, update_older grown.keeps.node _,
    Nat.le_succ_of_le grown.keeps.buffers, fun p below => by
      have older : p ≠ extended.buffers := Nat.ne_of_lt (Nat.lt_of_lt_of_le below grown.keeps.buffers)
      exact (Function.update_of_ne older _ _).trans (grown.keeps.buffer p below)⟩
  inside := grown.inside
  byName := grown.byName
  byId := grown.byId
  unlinkedName := grown.unlinkedName
  unlinkedId := grown.unlinkedId

/-- Filling a new buffer leaves all older buffers. -/
theorem setBuffer_extends (grown : Extends tables extended entries) (p : Nat) (bytes : List UInt8)
    (later : tables.buffers ≤ p) : Extends tables (extended.setBuffer p bytes) entries where
  keeps := ⟨grown.keeps.nodes, grown.keeps.node, grown.keeps.buffers, fun q below => by
      have older : q ≠ p := Nat.ne_of_lt (Nat.lt_of_lt_of_le below later)
      exact (Function.update_of_ne older _ _).trans (grown.keeps.buffer q below)⟩
  inside := grown.inside
  byName := grown.byName
  byId := grown.byId
  unlinkedName := grown.unlinkedName
  unlinkedId := grown.unlinkedId

/-- A new node that is left unlinked, because its add failed, is not in the log. -/
theorem Extends.unlinked (grown : Extends tables extended entries)
    (represents : Represents tables entries) : Represents extended entries :=
  grown.keeps.represents represents grown.byName grown.byId

/-- Linking the new node appends it to the log and changes nothing else. -/
theorem addLsiVarToTable_extends (grown : Extends tables extended entries)
    (represents : Represents tables entries) {fuel : Nat} (enough : entries.length ≤ fuel) :
    ∃ linked, addLsiVarToTable fuel extended tables.nodes = .ok linked ∧
      Represents linked (entries ++ [tables.nodes]) ∧ linked.nodes = extended.nodes ∧
      linked.node = extended.node ∧ linked.buffers = extended.buffers ∧
      linked.buffer = extended.buffer := by
  have unlinked := grown.unlinked represents
  obtain ⟨names, appended, named⟩ := Links.append_holds unlinked.byName represents.distinct
    represents.fresh grown.unlinkedName enough
  obtain ⟨ids, appended', identified⟩ := Links.append_holds unlinked.byId represents.distinct
    represents.fresh grown.unlinkedId enough
  simp only [VarTables.nameIndex] at appended
  simp only [VarTables.idIndex] at appended'
  refine ⟨{ extended with byName := names, byId := ids }, ?_, ?_, rfl, rfl, rfl, rfl⟩
  · simp only [addLsiVarToTable, addLsiVarByName, addLsiVarByVId, appended, bind, Except.bind,
      appended']
  · constructor
    · refine List.nodup_append.mpr ⟨represents.distinct, List.nodup_singleton _, ?_⟩
      intro a member b single
      rw [List.mem_singleton.mp single]
      exact Nat.ne_of_lt (represents.allocated a member)
    · intro a member
      rcases List.mem_append.mp member with inside | single
      · exact unlinked.allocated a inside
      · rw [List.mem_singleton.mp single]
        exact grown.inside
    · exact named
    · exact identified

end Node

section Contents

/-- What a variable's buffer pointer stands for. -/
inductive Stored
  | nothing
  | copied (bytes : List UInt8)
  | shared (p : Nat)

/-- The contents an add gives to its variable. -/
structure Contents where
  name : List UInt8
  guid : Guid
  varId : UInt16
  varSize : UInt16
  stored : Stored

/-- The parameters common to the three calls. -/
def Request.key : Request → AddKey
  | .addLsiVar key _ => key
  | .addLsiVarByBuffer key _ => key
  | .addLsiVarByBuffer2 key _ => key

/-- Whether a call returns a variable. -/
def Request.succeeds : Request → Bool
  | .addLsiVar key (.block _) => key.allocated
  | .addLsiVar _ _ => false
  | .addLsiVarByBuffer key _ => key.allocated
  | .addLsiVarByBuffer2 key _ => key.allocated

/-- The buffer a call leaves behind: a copy of the caller's bytes, the driver's
block on a zeroed buffer, or the caller's own pointer. -/
def Request.stored : Request → Stored
  | .addLsiVar key (.block bytes) =>
    let size := key.varSize.toNat + varUnusedSpace
    .copied (bytes.take size ++ List.replicate (size - (bytes.take size).length) 0)
  | .addLsiVar _ _ => .nothing
  | .addLsiVarByBuffer key (some memory) => .copied (readMemory memory key.varSize.toNat)
  | .addLsiVarByBuffer _ none => .nothing
  | .addLsiVarByBuffer2 _ (some p) => .shared p
  | .addLsiVarByBuffer2 _ none => .nothing

/-- The contents a successful call adds. -/
def Request.contents (request : Request) : Contents :=
  ⟨request.key.name, request.key.guid, request.key.varId, request.key.varSize, request.stored⟩

/-- A buffer pointer is as an add left it. -/
def BufferShows (tables : VarTables) (pointer : Option Nat) : Stored → Prop
  | .nothing => pointer = none
  | .copied bytes => ∃ p, p < tables.buffers ∧ pointer = some p ∧ tables.buffer p = bytes
  | .shared p => pointer = some p

/-- A node has the contents an add gave it. -/
structure Shows (tables : VarTables) (a : Nat) (contents : Contents) : Prop where
  name : (tables.node a).raidVarName = contents.name
  guid : (tables.node a).raidVarGuid = contents.guid
  varId : (tables.node a).raidVarId = contents.varId
  varSize : (tables.node a).raidVarSize = contents.varSize
  stored : BufferShows tables (tables.node a).raidVarBuffer contents.stored

variable {tables : VarTables} {entries : List Nat}

/-- Contents survive whatever keeps the node and its buffer. -/
theorem Shows.keeps {later : VarTables} {a : Nat} {contents : Contents}
    (shows' : Shows tables a contents) (below : a < tables.nodes) (keeps : Keeps tables later) :
    Shows later a contents := by
  have same := keeps.node a below
  constructor
  · rw [same]; exact shows'.name
  · rw [same]; exact shows'.guid
  · rw [same]; exact shows'.varId
  · rw [same]; exact shows'.varSize
  · have stored := shows'.stored
    rw [same]
    cases kind : contents.stored with
    | nothing => rw [kind] at stored; exact stored
    | shared p => rw [kind] at stored; exact stored
    | copied bytes =>
      rw [kind] at stored
      obtain ⟨p, inside, pointer, holds⟩ := stored
      exact ⟨p, Nat.lt_of_lt_of_le inside keeps.buffers, pointer,
        (keeps.buffer p inside).trans holds⟩

/-- The tables after a new node was taken and initialised. -/
def prepared (tables : VarTables) (key : AddKey) : VarTables :=
  tables.allocateNode.resetNode tables.nodes (key.assign (tables.allocateNode.node tables.nodes))

/-- The initialised node has the fields of the call and no buffer. -/
theorem prepared_node (tables : VarTables) (key : AddKey) :
    (prepared tables key).node tables.nodes =
      ⟨key.name, key.guid, key.varId, key.varSize, none⟩ := by
  simp [prepared, VarTables.allocateNode, VarTables.resetNode, VarTables.setNode, AddKey.assign,
    RaidVar.zero]

/-- The initialised node is not linked yet. -/
theorem prepared_extends (represents : Represents tables entries) (key : AddKey) :
    Extends tables (prepared tables key) entries :=
  resetNode_extends represents (allocateNode_extends represents) _

/-- The shared beginning of the adds, for a variable outside the log. -/
theorem withNode_fresh (represents : Represents tables entries) (key : AddKey)
    (fits : key.name.length < nameLength)
    (fresh : ∀ a ∈ entries, matchesName tables key.name (some key.guid) a = false)
    {fuel : Nat} (enough : entries.length ≤ fuel)
    (finish : Nat → VarTables → Checked (AddResult × VarTables)) :
    withNode fuel key tables finish =
      if key.allocated then finish tables.nodes (prepared tables key)
      else .ok (.failed 0x30, tables) := by
  have short : ¬ key.name.length ≥ nameLength := by omega
  rw [withNode, takeNode_fresh represents fresh enough]
  cases key.allocated with
  | false => rfl
  | true =>
    change (do finish tables.nodes (← varInitial tables.allocateNode tables.nodes key)) = _
    rw [varInitial, if_neg short]
    rfl

end Contents

section Step

variable {tables : VarTables} {entries : List Nat}

/-- What one add of a variable outside the log does. -/
structure Stepped (tables : VarTables) (entries : List Nat) (request : Request)
    (result : AddResult) (later : VarTables) : Prop where
  keeps : Keeps tables later
  success : request.succeeds = true → result = .added tables.nodes ∧
    Represents later (entries ++ [tables.nodes]) ∧ Shows later tables.nodes request.contents
  failure : request.succeeds = false → (∃ code, result = .failed code) ∧ Represents later entries

/-- An add whose node cannot be allocated changes nothing. -/
theorem stepped_exhausted (represents : Represents tables entries) (request : Request)
    (failing : request.succeeds = false) (code : Nat) :
    Stepped tables entries request (.failed code) tables :=
  ⟨.refl tables, fun success => absurd success (by rw [failing]; decide),
    fun _ => ⟨⟨code, rfl⟩, represents⟩⟩

/-- An add that fails after its node was taken leaves the node outside the log. -/
theorem stepped_failed (represents : Represents tables entries) (request : Request)
    {extended : VarTables} (grown : Extends tables extended entries)
    (failing : request.succeeds = false) (code : Nat) :
    Stepped tables entries request (.failed code) extended :=
  ⟨grown.keeps, fun success => absurd success (by rw [failing]; decide),
    fun _ => ⟨⟨code, rfl⟩, grown.unlinked represents⟩⟩

/-- An add whose buffer is in place links its node and so appends it to the log. -/
theorem stepped_linked (represents : Represents tables entries) (request : Request)
    {extended : VarTables} (grown : Extends tables extended entries)
    (shown : Shows extended tables.nodes request.contents)
    (succeeding : request.succeeds = true) {fuel : Nat} (enough : entries.length ≤ fuel) :
    ∃ linked, addLsiVarToTable fuel extended tables.nodes = .ok linked ∧
      Stepped tables entries request (.added tables.nodes) linked := by
  obtain ⟨linked, added, represented, nodes, node, buffers, buffer⟩ :=
    addLsiVarToTable_extends grown represents enough
  have keeps : Keeps extended linked :=
    ⟨Nat.le_of_eq nodes.symm, fun b _ => by rw [node], Nat.le_of_eq buffers.symm,
      fun p _ => by rw [buffer]⟩
  exact ⟨linked, added, grown.keeps.trans keeps,
    fun _ => ⟨rfl, represented, shown.keeps grown.inside keeps⟩,
    fun failing => absurd failing (by rw [succeeding]; decide)⟩

/-- Giving the initialised node a buffer pointer. -/
theorem prepared_shows (tables : VarTables) (key : AddKey) (later : VarTables)
    (pointer : Option Nat) (stored : Stored)
    (node : later.node tables.nodes =
      ⟨key.name, key.guid, key.varId, key.varSize, pointer⟩)
    (buffer : BufferShows later pointer stored) :
    Shows later tables.nodes ⟨key.name, key.guid, key.varId, key.varSize, stored⟩ := by
  constructor
  · rw [node]
  · rw [node]
  · rw [node]
  · rw [node]
  · rw [node]
    exact buffer

/-- The initialised node with a newly allocated buffer of the given contents. -/
def filled (tables : VarTables) (key : AddKey) (size : Nat) (bytes : List UInt8) : VarTables :=
  ((prepared tables key).allocateBuffer tables.nodes size).setBuffer
    (prepared tables key).buffers bytes

/-- A filled node is not linked yet and shows its bytes. -/
theorem filled_shows (represents : Represents tables entries) (key : AddKey) (size : Nat)
    (bytes : List UInt8) :
    Extends tables (filled tables key size bytes) entries ∧
      Shows (filled tables key size bytes) tables.nodes
        ⟨key.name, key.guid, key.varId, key.varSize, .copied bytes⟩ := by
  have grown := prepared_extends represents key
  constructor
  · exact setBuffer_extends (allocateBuffer_extends grown size) _ bytes grown.keeps.buffers
  · refine prepared_shows tables key _ (some (prepared tables key).buffers) _ ?_ ?_
    · simp [filled, VarTables.setBuffer, VarTables.allocateBuffer, VarTables.setNode, prepared_node]
    · exact ⟨_, Nat.lt_succ_self _, rfl, Function.update_self ..⟩

/-- Writing as many bytes as a new buffer has fills it. -/
theorem write_allocated (tables : VarTables) (key : AddKey) (size : Nat) (bytes : List UInt8)
    (full : bytes.length = size) :
    writeBuffer ((prepared tables key).allocateBuffer tables.nodes size)
      (prepared tables key).buffers bytes = .ok (filled tables key size bytes) := by
  have length : (((prepared tables key).allocateBuffer tables.nodes size).buffer
      (prepared tables key).buffers) = List.replicate size 0 := Function.update_self ..
  rw [writeBuffer, length, if_neg (by simp [full])]
  simp [filled, full]

/-- The initialised node has no buffer, so one is allocated. -/
theorem ensureBuffer_prepared (tables : VarTables) (key : AddKey) (size : Nat) :
    ensureBuffer (prepared tables key) tables.nodes size =
      ((prepared tables key).buffers, (prepared tables key).allocateBuffer tables.nodes size) := by
  simp [ensureBuffer, prepared_node]

/-- The driver's block on a zeroed buffer. -/
theorem setLsiVarBufferByString_prepared (tables : VarTables) (key : AddKey)
    (block : Option (List UInt8)) :
    setLsiVarBufferByString (prepared tables key) tables.nodes block =
      .ok (filled tables key (key.varSize.toNat + varUnusedSpace)
        ((block.getD []).take (key.varSize.toNat + varUnusedSpace) ++
          List.replicate (key.varSize.toNat + varUnusedSpace -
            ((block.getD []).take (key.varSize.toNat + varUnusedSpace)).length) 0)) := by
  have sized : ((prepared tables key).node tables.nodes).raidVarSize = key.varSize := by
    rw [prepared_node]
  simp only [setLsiVarBufferByString, sized]
  generalize key.varSize.toNat + varUnusedSpace = size
  rw [ensureBuffer_prepared]
  simp only [write_allocated tables key size _ List.length_replicate, bind, Except.bind]
  have zeroed : (filled tables key size (List.replicate size 0)).buffer
      (prepared tables key).buffers = List.replicate size 0 := Function.update_self ..
  have short : ¬ (List.replicate size (0 : UInt8)).length < ((block.getD []).take size).length := by
    simp only [List.length_replicate, List.length_take]
    omega
  rw [writeBuffer, zeroed, if_neg short]
  simp [filled, VarTables.setBuffer]

/-- `AddLsiVarByBuffer2` of a variable outside the log. -/
theorem addLsiVarByBuffer2_fresh (represents : Represents tables entries) (key : AddKey)
    (fits : key.name.length < nameLength)
    (fresh : ∀ a ∈ entries, matchesName tables key.name (some key.guid) a = false)
    {fuel : Nat} (enough : entries.length ≤ fuel) (pBuffer : Option Nat) :
    ∃ result later, addLsiVarByBuffer2 fuel key pBuffer tables = .ok (result, later) ∧
      Stepped tables entries (.addLsiVarByBuffer2 key pBuffer) result later := by
  rw [addLsiVarByBuffer2, withNode_fresh represents key fits fresh enough]
  by_cases allocated : key.allocated = true
  · rw [if_pos allocated]
    have grown := setNode_extends (prepared_extends represents key)
      { (prepared tables key).node tables.nodes with raidVarBuffer := pBuffer }
    have shown := prepared_shows tables key ((prepared tables key).setNode tables.nodes
      { (prepared tables key).node tables.nodes with raidVarBuffer := pBuffer }) pBuffer
      (Request.addLsiVarByBuffer2 key pBuffer).stored
      (by simp [VarTables.setNode, prepared_node]) (by cases pBuffer <;> rfl)
    obtain ⟨linked, added, stepped⟩ := stepped_linked represents
      (.addLsiVarByBuffer2 key pBuffer) grown shown allocated enough
    refine ⟨_, linked, ?_, stepped⟩
    simp only [added, bind, Except.bind]
  · rw [if_neg allocated]
    exact ⟨_, _, rfl, stepped_exhausted represents _
      (by simpa [Request.succeeds] using allocated) 0x30⟩

/-- `AddLsiVarByBuffer` of a variable outside the log. -/
theorem addLsiVarByBuffer_fresh (represents : Represents tables entries) (key : AddKey)
    (fits : key.name.length < nameLength)
    (fresh : ∀ a ∈ entries, matchesName tables key.name (some key.guid) a = false)
    {fuel : Nat} (enough : entries.length ≤ fuel) (source : Option (Nat → UInt8)) :
    ∃ result later, addLsiVarByBuffer fuel key source tables = .ok (result, later) ∧
      Stepped tables entries (.addLsiVarByBuffer key source) result later := by
  rw [addLsiVarByBuffer, withNode_fresh represents key fits fresh enough]
  by_cases allocated : key.allocated = true
  · rw [if_pos allocated]
    cases source with
    | none =>
      have shown := prepared_shows tables key (prepared tables key) none .nothing
        (prepared_node tables key) rfl
      obtain ⟨linked, added, stepped⟩ := stepped_linked represents
        (.addLsiVarByBuffer key none) (prepared_extends represents key) shown allocated enough
      refine ⟨_, linked, ?_, stepped⟩
      simp only [setLsiVarBuffer, added, bind, Except.bind]
    | some memory =>
      have sized : ((prepared tables key).node tables.nodes).raidVarSize = key.varSize := by
        rw [prepared_node]
      obtain ⟨grown, shown⟩ := filled_shows represents key key.varSize.toNat
        (readMemory memory key.varSize.toNat)
      obtain ⟨linked, added, stepped⟩ := stepped_linked represents
        (.addLsiVarByBuffer key (some memory)) grown shown allocated enough
      refine ⟨_, linked, ?_, stepped⟩
      simp only [setLsiVarBuffer, sized, ensureBuffer_prepared]
      rw [write_allocated tables key _ _ (by simp [readMemory])]
      simp only [added, bind, Except.bind]
  · rw [if_neg allocated]
    exact ⟨_, _, rfl, stepped_exhausted represents _
      (by simpa [Request.succeeds] using allocated) 0x30⟩

/-- `AddLsiVar` of a variable outside the log. -/
theorem addLsiVar_fresh (represents : Represents tables entries) (key : AddKey)
    (fits : key.name.length < nameLength)
    (fresh : ∀ a ∈ entries, matchesName tables key.name (some key.guid) a = false)
    {fuel : Nat} (enough : entries.length ≤ fuel) (config : ConfigAnswer) :
    ∃ result later, addLsiVar fuel key config tables = .ok (result, later) ∧
      Stepped tables entries (.addLsiVar key config) result later := by
  rw [addLsiVar, withNode_fresh represents key fits fresh enough]
  by_cases allocated : key.allocated = true
  · rw [if_pos allocated]
    cases config with
    | extractError =>
      exact ⟨_, _, rfl, stepped_failed represents _ (prepared_extends represents key) rfl 0x31⟩
    | blockError =>
      simp only [setLsiVarBufferByString_prepared]
      exact ⟨_, _, rfl, stepped_failed represents _ (filled_shows represents key _ _).1 rfl 0x32⟩
    | block bytes =>
      obtain ⟨grown, shown⟩ := filled_shows represents key (key.varSize.toNat + varUnusedSpace)
        (((some bytes).getD []).take (key.varSize.toNat + varUnusedSpace) ++
          List.replicate (key.varSize.toNat + varUnusedSpace -
            (((some bytes).getD []).take (key.varSize.toNat + varUnusedSpace)).length) 0)
      obtain ⟨linked, added, stepped⟩ := stepped_linked represents
        (.addLsiVar key (.block bytes)) grown shown allocated enough
      refine ⟨_, linked, ?_, stepped⟩
      simp only [setLsiVarBufferByString_prepared, added, bind, Except.bind]
  · rw [if_neg allocated]
    have failing : (Request.addLsiVar key config).succeeds = false := by
      cases config <;> simp [Request.succeeds, allocated]
    exact ⟨_, _, rfl, stepped_exhausted represents _ failing 0x30⟩

/-- One add of a variable outside the log, whichever function is called. -/
theorem step_fresh (represents : Represents tables entries) (request : Request)
    (fits : request.key.name.length < nameLength)
    (fresh : ∀ a ∈ entries,
      matchesName tables request.key.name (some request.key.guid) a = false)
    {fuel : Nat} (enough : entries.length ≤ fuel) :
    ∃ result later, step fuel request tables = .ok (result, later) ∧
      Stepped tables entries request result later := by
  cases request with
  | addLsiVar key config => exact addLsiVar_fresh represents key fits fresh enough config
  | addLsiVarByBuffer key source =>
    exact addLsiVarByBuffer_fresh represents key fits fresh enough source
  | addLsiVarByBuffer2 key pBuffer =>
    exact addLsiVarByBuffer2_fresh represents key fits fresh enough pBuffer

end Step

section Runs

/-- Two adds are of the same variable: name and GUID agree. -/
def SameVar (first second : Request) : Prop :=
  first.key.name = second.key.name ∧ first.key.guid = second.key.guid

/-- No add is of a variable that an earlier add has already put into the tables. -/
def NoneRepeated (requests : List Request) : Prop :=
  requests.Pairwise (fun earlier later => earlier.succeeds = true → ¬ SameVar earlier later)

/-- Every name fits the name array with its terminator. -/
def NamesFit (requests : List Request) : Prop :=
  ∀ request ∈ requests, request.key.name.length < nameLength

/-- Different variables have different identifiers. -/
def IdsSeparate (requests : List Request) : Prop :=
  ∀ first ∈ requests, ∀ second ∈ requests,
    first.key.varId = second.key.varId → SameVar first second

/-- The contents of the successful adds, in order. -/
def added (requests : List Request) : List Contents :=
  (requests.filter Request.succeeds).map Request.contents

/-- The latest added contents that pass a test. -/
def latest (test : Contents → Bool) (requests : List Request) : Option Contents :=
  ((added requests).filter test).getLast?

/-- The test for a variable's contents. -/
def ofVar (name : List UInt8) (guid : Guid) (contents : Contents) : Bool :=
  contents.name = name && contents.guid = guid

/-- A test for a variable compares name and GUID. -/
theorem ofVar_iff (name : List UInt8) (guid : Guid) (contents : Contents) :
    ofVar name guid contents = true ↔ contents.name = name ∧ contents.guid = guid := by
  simp [ofVar]

/-- The tables after a run of adds: every chain is finite, and for every key a
search ends and returns the contents of the latest successful add, if any. -/
structure Lawful (requests : List Request) (tables : VarTables) : Prop where
  nameFinite : ∀ bucket, ∃ entries, Chain tables.byName.next (tables.byName.head bucket) entries
  idFinite : ∀ bucket, ∃ entries, Chain tables.byId.next (tables.byId.head bucket) entries
  byName : ∀ name guid fuel, requests.length ≤ fuel →
    ∃ found, searchLsiVarByName fuel tables name (some guid) = .ok found ∧
      Option.Rel (Shows tables) found (latest (ofVar name guid) requests)
  byId : ∀ varId fuel, requests.length ≤ fuel →
    ∃ found, searchLsiVarById fuel tables varId = .ok found ∧
      Option.Rel (Shows tables) found
        (latest (fun contents => contents.varId = varId) requests)

/-- A node fits a variable when its contents do. -/
theorem matchesName_shows {tables : VarTables} {a : Nat} {contents : Contents}
    (shown : Shows tables a contents) (name : List UInt8) (guid : Guid) :
    matchesName tables name (some guid) a = ofVar name guid contents := by
  simp [matchesName, ofVar, shown.name, shown.guid, eq_comm]

/-- A run of adds, none of a variable already there, extends the log by the
successful ones. -/
theorem run_log (requests : List Request) {tables : VarTables} {entries : List Nat}
    {log : List Contents} {fuel : Nat} (represents : Represents tables entries)
    (logged : List.Forall₂ (Shows tables) entries log)
    (unlogged : ∀ request ∈ requests, ∀ contents ∈ log,
      ofVar request.key.name request.key.guid contents = false)
    (once : NoneRepeated requests) (fits : NamesFit requests)
    (enough : entries.length + requests.length ≤ fuel) :
    ∃ later entries', run fuel requests tables = .ok later ∧ Represents later entries' ∧
      List.Forall₂ (Shows later) entries' (log ++ added requests) := by
  induction requests generalizing tables entries log with
  | nil => exact ⟨tables, entries, rfl, represents, by simpa [added] using logged⟩
  | cons request requests inductionHypothesis =>
    obtain ⟨distinct, onceTail⟩ := List.pairwise_cons.mp once
    have fitsTail : NamesFit requests := fun other member =>
      fits other (List.mem_cons_of_mem request member)
    simp only [List.length_cons] at enough
    have fresh : ∀ a ∈ entries,
        matchesName tables request.key.name (some request.key.guid) a = false := by
      intro a member
      obtain ⟨contents, inside, shown⟩ : ∃ contents ∈ log, Shows tables a contents := by
        obtain ⟨index, bound, rfl⟩ := List.mem_iff_getElem.mp member
        have bound' : index < log.length := logged.length_eq ▸ bound
        exact ⟨log[index], List.getElem_mem bound', logged.get bound bound'⟩
      have other := unlogged request List.mem_cons_self contents inside
      rw [← Bool.not_eq_true, ofVar_iff] at other
      rw [matchesName_shows shown, ← Bool.not_eq_true, ofVar_iff]
      exact other
    obtain ⟨result, later, stepped, outcome⟩ := step_fresh represents request
      (fits request List.mem_cons_self) fresh (Nat.le_trans (Nat.le_add_right _ _) enough)
    have kept : List.Forall₂ (Shows later) entries log := by
      have below := (List.forall₂_and_left entries log).mpr ⟨represents.allocated, logged⟩
      exact below.imp (fun a contents shown => shown.2.keeps shown.1 outcome.keeps)
    have unloggedTail : ∀ other ∈ requests, ∀ contents ∈ log,
        ofVar other.key.name other.key.guid contents = false := fun other member =>
      unlogged other (List.mem_cons_of_mem request member)
    cases success : request.succeeds with
    | true =>
      obtain ⟨-, represented, shown⟩ := outcome.success success
      have extendedLog : List.Forall₂ (Shows later) (entries ++ [tables.nodes])
          (log ++ [request.contents]) :=
        List.rel_append kept (.cons shown .nil)
      obtain ⟨final, entries', ran, holds, full⟩ := inductionHypothesis represented extendedLog
        (by
          intro other member contents inside
          rcases List.mem_append.mp inside with old | single
          · exact unloggedTail other member contents old
          · rw [List.mem_singleton.mp single, ← Bool.not_eq_true, ofVar_iff]
            exact distinct other member success)
        onceTail fitsTail (by simp; omega)
      refine ⟨final, entries', ?_, holds, ?_⟩
      · simp only [run, stepped, bind, Except.bind, ran]
      · simpa [added, List.filter_cons, success] using full
    | false =>
      obtain ⟨-, represented⟩ := outcome.failure success
      obtain ⟨final, entries', ran, holds, full⟩ := inductionHypothesis represented kept
        unloggedTail onceTail fitsTail (by omega)
      refine ⟨final, entries', ?_, holds, ?_⟩
      · simp only [run, stepped, bind, Except.bind, ran]
      · simpa [added, List.filter_cons, success] using full

/-- Searching nodes by what they show is searching the log. -/
theorem find_log {tables : VarTables} {entries : List Nat} {log : List Contents}
    {test : Nat → Bool} {shown : Contents → Bool}
    (logged : List.Forall₂ (Shows tables) entries log)
    (agree : ∀ a contents, Shows tables a contents → test a = shown contents) :
    Option.Rel (Shows tables) (entries.find? test) (log.find? shown) := by
  induction logged with
  | nil => exact .none
  | cons first rest inductionHypothesis =>
    rename_i a contents entries log
    have same := agree a contents first
    by_cases found : test a = true
    · rw [List.find?_cons_of_pos found, List.find?_cons_of_pos (same ▸ found)]
      exact .some first
    · rw [List.find?_cons_of_neg found, List.find?_cons_of_neg (same ▸ found)]
      exact inductionHypothesis

/-- Where a test accepts at most one entry of a log, the first is the latest. -/
theorem find_eq_latest {test : Contents → Bool} {requests : List Request}
    (single : ((added requests).filter test).length ≤ 1) :
    (added requests).find? test = latest test requests := by
  rw [latest, ← List.head?_filter]
  cases filtered : (added requests).filter test with
  | nil => rfl
  | cons contents rest =>
    rw [filtered] at single
    have empty : rest = [] := List.eq_nil_of_length_eq_zero (by simpa using single)
    rw [empty]
    rfl

/-- When no variable is added twice, a test that tells variables apart accepts at
most one entry of the log. -/
theorem single_match {requests : List Request} (test : Contents → Bool)
    (once : NoneRepeated requests)
    (tells : ∀ first ∈ requests, ∀ second ∈ requests, test first.contents = true →
      test second.contents = true → SameVar first second) :
    ((added requests).filter test).length ≤ 1 := by
  induction requests with
  | nil => simp [added]
  | cons request requests inductionHypothesis =>
    obtain ⟨distinct, onceTail⟩ := List.pairwise_cons.mp once
    have tail := inductionHypothesis onceTail (fun first inFirst second inSecond =>
      tells first (List.mem_cons_of_mem _ inFirst) second (List.mem_cons_of_mem _ inSecond))
    by_cases success : request.succeeds = true
    · by_cases accepted : test request.contents = true
      · have others : (added requests).filter test = [] := by
          rw [List.filter_eq_nil_iff]
          intro contents member again
          obtain ⟨other, inside, rfl⟩ := List.mem_map.mp member
          have listed := List.mem_of_mem_filter inside
          exact distinct other listed success (tells request List.mem_cons_self other
            (List.mem_cons_of_mem _ listed) accepted again)
        have alone : (added (request :: requests)).filter test = [request.contents] := by
          simp only [added] at others ⊢
          simp [success, accepted, others]
        rw [alone]
        exact Nat.le_refl 1
      · simpa [added, success, accepted] using tail
    · simpa [added, success] using tail

/-- After every run of adds in which no add is of a variable already in the tables
and all names fit, the tables are lawful, and so are they after every part of the
run. -/
theorem run_lawful (buffer : Nat → List UInt8) (buffers fuel : Nat) (requests : List Request)
    (separate : IdsSeparate requests) (once : NoneRepeated requests) (fits : NamesFit requests)
    (enough : requests.length ≤ fuel) :
    ∀ done, done <+: requests →
      ∃ tables, run fuel done (VarTables.initial buffer buffers) = .ok tables ∧
        Lawful done tables := by
  intro done part
  have onceDone : NoneRepeated done := once.sublist part.sublist
  have fitsDone : NamesFit done := fun request member => fits request (part.subset member)
  have empty : Represents (VarTables.initial buffer buffers) [] :=
    ⟨List.nodup_nil, fun _ member => absurd member List.not_mem_nil, Links.empty_holds _,
      Links.empty_holds _⟩
  obtain ⟨tables, entries, ran, represents, logged⟩ := run_log done empty .nil
    (fun _ _ _ member => absurd member List.not_mem_nil) onceDone fitsDone
    (Nat.le_trans (by simpa using part.length_le) enough)
  rw [List.nil_append] at logged
  have short : entries.length ≤ done.length := by
    rw [logged.length_eq, added, List.length_map]
    exact List.length_filter_le ..
  refine ⟨tables, ran, ?_⟩
  constructor
  · exact fun bucket => ⟨_, represents.byName bucket⟩
  · exact fun bucket => ⟨_, represents.byId bucket⟩
  · intro name guid fuel' enough'
    refine ⟨_, searchLsiVarByName_represents represents name (some guid)
      (Nat.le_trans short enough'), ?_⟩
    have single := single_match (ofVar name guid) onceDone (by
      intro first _ second _ accepted again
      obtain ⟨firstName, firstGuid⟩ := (ofVar_iff _ _ _).mp accepted
      obtain ⟨secondName, secondGuid⟩ := (ofVar_iff _ _ _).mp again
      exact ⟨firstName.trans secondName.symm, firstGuid.trans secondGuid.symm⟩)
    rw [← find_eq_latest single]
    exact find_log logged (fun a contents shown => matchesName_shows shown name guid)
  · intro varId fuel' enough'
    refine ⟨_, searchLsiVarById_represents represents varId (Nat.le_trans short enough'), ?_⟩
    have single := single_match (fun contents => contents.varId = varId) onceDone (by
      intro first inFirst second inSecond accepted again
      exact separate first (part.subset inFirst) second (part.subset inSecond)
        ((of_decide_eq_true accepted).trans (of_decide_eq_true again).symm))
    rw [← find_eq_latest single]
    refine find_log logged ?_
    intro a contents shown
    simp [shown.varId]

/-- The condition on runs is needed: an add of a variable that is already in the
tables, if it reaches them at all, leaves a bucket by name that is not finite. -/
theorem repeated_add_not_finite {tables initialised later : VarTables} {entries : List Nat}
    {key : AddKey} {a fuel : Nat} (represents : Represents tables entries) (listed : a ∈ entries)
    (matched : matchesName tables key.name (some key.guid) a = true)
    (ready : varInitial tables a key = .ok initialised)
    (added : addLsiVarByName fuel initialised a = .ok later) :
    ¬ ∀ bucket, ∃ chain, Chain later.byName.next (later.byName.head bucket) chain := by
  intro finite
  have named : tables.nameIndex a = varHashByName key.name := by
    simp only [matchesName, Bool.and_eq_true, decide_eq_true_eq] at matched
    rw [VarTables.nameIndex, matched.1]
  have reset : initialised = tables.resetNode a (key.assign (tables.node a)) := by
    rw [varInitial] at ready
    split at ready
    · exact absurd ready (by simp)
    · exact (Except.ok.inj ready).symm
  have bucket : varHashByName (initialised.node a).raidVarName = tables.nameIndex a := by
    rw [named, reset]
    simp [VarTables.resetNode, VarTables.setNode, AddKey.assign]
  rw [addLsiVarByName, bucket, reset] at added
  split at added
  · rename_i links appended
    obtain ⟨chain, reaches⟩ := finite (tables.nameIndex a)
    rw [← Except.ok.inj added] at reaches
    exact Links.append_listed represents.byName represents.distinct listed appended chain reaches
  · exact absurd added (by simp)

/-- An add of the variable with a one-letter name. -/
def addLetter (letter : UInt8) (varId : UInt16) : Request :=
  .addLsiVarByBuffer2 ⟨[letter], 0, varId, 4, true⟩ none

/-- Two variables that share the bucket by name. -/
theorem run_lawful_two : ∃ tables,
    run 2 [addLetter 65 1, addLetter 34 2] (VarTables.initial (fun _ => []) 0) = .ok tables ∧
      Lawful [addLetter 65 1, addLetter 34 2] tables := by
  refine run_lawful (fun _ => []) 0 2 [addLetter 65 1, addLetter 34 2] ?_ ?_ ?_ (by decide) _
    List.prefix_rfl
  · simp only [IdsSeparate, List.forall_mem_cons, List.not_mem_nil, false_implies, implies_true,
      and_true, SameVar]
    decide
  · simp only [NoneRepeated, List.pairwise_cons, List.mem_singleton, forall_eq, List.not_mem_nil,
      false_implies, implies_true, List.Pairwise.nil, and_true, SameVar]
    decide
  · simp only [NamesFit, List.forall_mem_cons, List.not_mem_nil, false_implies, implies_true,
      and_true]
    decide

/-- A search never ends in a bucket that starts at its own successor. -/
theorem searchLsiVarByName_cycle {tables : VarTables} {name : List UInt8} {guid : Option Guid}
    {a : Nat} (start : tables.byName.head (varHashByName name) = some a)
    (cycle : tables.byName.next a = some a) (other : matchesName tables name guid a = false)
    (fuel : Nat) : searchLsiVarByName fuel tables name guid = .error .outOfFuel := by
  rw [searchLsiVarByName, Links.search, start, findFrom_self_cycle cycle other]
  rfl

/-- Adding a variable a second time makes its node its own successor: a search for
another name of the same bucket never ends. -/
theorem repeated_add_diverges :
    IdsSeparate [addLetter 65 1, addLetter 65 1] ∧
      ∃ tables, run 2 [addLetter 65 1, addLetter 65 1] (VarTables.initial (fun _ => []) 0) =
        .ok tables ∧ ∀ fuel, searchLsiVarByName fuel tables [34] (some 0) = .error .outOfFuel := by
  constructor
  · simp only [IdsSeparate, List.forall_mem_cons, List.not_mem_nil, false_implies, implies_true,
      and_true, SameVar]
  · have computed : (run 2 [addLetter 65 1, addLetter 65 1]
        (VarTables.initial (fun _ => []) 0)).toOption.map (fun tables =>
          (tables.byName.head (varHashByName [34]), tables.byName.next 0,
            matchesName tables [34] (some 0) 0)) = some (some 0, some 0, false) := by decide
    cases ran : run 2 [addLetter 65 1, addLetter 65 1] (VarTables.initial (fun _ => []) 0) with
    | error fault => simp [ran, Except.toOption] at computed
    | ok tables =>
      simp only [ran, Except.toOption, Option.map_some, Option.some.injEq, Prod.mk.injEq] at computed
      obtain ⟨start, cycle, other⟩ := computed
      exact ⟨tables, rfl, searchLsiVarByName_cycle start cycle other⟩

end Runs

end SmcPkg.VarTable
