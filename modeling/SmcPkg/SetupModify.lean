import SmcPkg.Lib.Folds
import SmcPkg.Lib.Slots

/-!
# Hidden items and replaced strings of the setup

The module keeps two tables, each under titles of formsets: items to hide, and strings to put
in the place of others. A scan of the HII database finds out which handle belongs to a title,
and replaces the strings.

A table has 512 entries, and an entry has arrays of fixed sizes for its texts, which are copied
without a test of their lengths. A call for which there is no entry left never returns, and
nothing is said about what a text does that is longer than its array: such a call has no result
here. The services of the database are assumed to find what is in it.
-/

namespace SmcPkg.SetupModify

open Folds Slots

section Database

/-- A string of wide characters, without its end. -/
abbrev WideText := List UInt16

/-- A package: a forms package whose first opcode is a formset, with its title if there is such a
string, or any other. -/
inductive Package
  | formSet (title : Option WideText)
  | other
  deriving DecidableEq

/-- A package list, and whether it can be exported. -/
structure PackageList where
  hiiHandle : UInt64
  exported : Bool
  packages : List Package

/-- The package lists of the database in its order. -/
structure HiiDatabase where
  lists : List PackageList
  distinct : (lists.map PackageList.hiiHandle).Nodup
  proper : ∀ list ∈ lists, list.hiiHandle ≠ 0

/-- `MAX_STRING_SIZE`, in bytes where a title is read, in characters in the arrays for titles. -/
def maxStringSize : Nat := 256

/-- `MAX_ITEM_STRING_SIZE`. -/
def maxItemStringSize : Nat := 64

/-- `HiiLibGetString` into a buffer of this size. -/
def readTitle : Option WideText → Option WideText
  | none => none
  | some title => if 2 * (title.length + 1) ≤ maxStringSize then some title else none

end Database

section Tables

/-- `SetupMenuHideItemNumber`. -/
def setupMenuHideItemNumber : Nat := 512

/-- `HiddenItemMap`. -/
structure HiddenItemMap where
  hiiHandle : UInt64
  formsetTitle : WideText
  stringId : UInt16
  deriving DecidableEq

/-- `SetItemStringMap`. -/
structure SetItemStringMap where
  formsetTitle : WideText
  stringId : UInt16
  toString : List UInt8
  deriving DecidableEq

/-- The string id of a free entry. -/
def freeId : UInt16 := 0xFFFF

/-- An entry of the hide list is free. -/
def HiddenItemMap.isFree (item : HiddenItemMap) : Bool := item.stringId = freeId

/-- An entry of the string list is free. -/
def SetItemStringMap.isFree (item : SetItemStringMap) : Bool := item.stringId = freeId

/-- `AsciiStrToUnicodeStr`. -/
def asciiStrToUnicodeStr (text : List UInt8) : WideText := text.map UInt8.toUInt16

/-- The hide list as `SmcSetupModifyInit` leaves it. -/
def hiddenItemList : List HiddenItemMap :=
  List.replicate setupMenuHideItemNumber ⟨0, [], freeId⟩

/-- The string list as `SmcSetupModifyInit` leaves it. -/
def setItemStringList : List SetItemStringMap :=
  List.replicate setupMenuHideItemNumber ⟨[], freeId, []⟩

/-- The arguments of `Add2HideList`. -/
structure HideCall where
  formsetTitle : List UInt8
  stringId : UInt16

/-- The arguments of `SetString`. -/
structure SetCall where
  formsetTitle : List UInt8
  stringId : UInt16
  toString : List UInt8

/-- Why a call does not come back with a table: `EFI_DEADLOOP` where no entry is free, or a text
that is copied over the end of its array. -/
inductive Stop
  | deadLoop
  | overflow
  deriving DecidableEq

/-- The loop of `Add2HideList` and of `SetString`: the first free entry is filled. Whether the
texts fit their arrays matters only where there is an entry. -/
def putEntry {α : Type} (free : α → Bool) (fill : α → α) (fits : Bool) (items : List α) :
    Except Stop (List α) :=
  match fillFirst free fill items with
  | none => .error .deadLoop
  | some items => if fits then .ok items else .error .overflow

/-- Calls, one after another. -/
def putEntries {α ι : Type} (put : ι → List α → Except Stop (List α)) :
    List ι → List α → Except Stop (List α)
  | [], items => .ok items
  | call :: calls, items => (put call items).bind (putEntries put calls)

/-- What `Add2HideList` writes into an entry. -/
def HideCall.fill (call : HideCall) (item : HiddenItemMap) : HiddenItemMap :=
  { item with
    stringId := call.stringId
    formsetTitle := asciiStrToUnicodeStr call.formsetTitle }

/-- The title fits `FormsetTitle`, with its end. -/
def HideCall.fits (call : HideCall) : Bool := call.formsetTitle.length < maxStringSize

/-- `Add2HideList`. -/
def add2HideList (call : HideCall) : List HiddenItemMap → Except Stop (List HiddenItemMap) :=
  putEntry HiddenItemMap.isFree call.fill call.fits

/-- What `SetString` writes into an entry. -/
def SetCall.fill (call : SetCall) (item : SetItemStringMap) : SetItemStringMap :=
  { item with
    stringId := call.stringId
    formsetTitle := asciiStrToUnicodeStr call.formsetTitle
    toString := call.toString }

/-- The title fits `FormsetTitle` and the text fits `ToString`, each with its end. Then the text
fits `StrBuff` of `UpdateStringInHii` as well, which is as long. -/
def SetCall.fits (call : SetCall) : Bool :=
  call.formsetTitle.length < maxStringSize && call.toString.length < maxItemStringSize

/-- `SetString`. -/
def setString (call : SetCall) : List SetItemStringMap → Except Stop (List SetItemStringMap) :=
  putEntry SetItemStringMap.isFree call.fill call.fits

/-- Calls of `Add2HideList`, one after another. -/
def add2HideLists : List HideCall → List HiddenItemMap → Except Stop (List HiddenItemMap) :=
  putEntries add2HideList

/-- Calls of `SetString`, one after another. -/
def setStrings : List SetCall → List SetItemStringMap → Except Stop (List SetItemStringMap) :=
  putEntries setString

/-- The calls find their entries: those before the last one that take an entry are fewer than the
entries. A call with the id of a free entry leaves it free. -/
def InCapacity (stringIds : List UInt16) : Prop :=
  stringIds.dropLast.countP (fun stringId => stringId ≠ freeId) < setupMenuHideItemNumber

instance (stringIds : List UInt16) : Decidable (InCapacity stringIds) :=
  inferInstanceAs (Decidable (_ < _))

/-- `SearchForHideList`. -/
def searchForHideList (items : List HiddenItemMap) (hiiHandle : UInt64) (stringId : UInt16) :
    Bool :=
  (occupied HiddenItemMap.isFree items).any fun item =>
    item.stringId = stringId && item.hiiHandle = hiiHandle

/-- `SearchForHideListByString`. -/
def searchForHideListByString (items : List HiddenItemMap) (formsetTitleWide : WideText)
    (stringId : UInt16) : Bool :=
  (occupied HiddenItemMap.isFree items).any fun item =>
    item.stringId = stringId && item.formsetTitle = formsetTitleWide

end Tables

section Update

/-- A call of `HiiSetString`. -/
structure HiiSetString where
  hiiHandle : UInt64
  stringId : UInt16
  text : WideText
  deriving DecidableEq

/-- `UpdateStringInHii`. -/
def updateStringInHii (items : List SetItemStringMap) (formsetTitleWide : WideText)
    (hiiHandle : UInt64) : List HiiSetString :=
  ((occupied SetItemStringMap.isFree items).filter
      fun item => item.formsetTitle = formsetTitleWide).map
    fun item => ⟨hiiHandle, item.stringId, asciiStrToUnicodeStr item.toString⟩

/-- The handle of a formset is put into the entries of its title. -/
def updateHandle (formsetTitleWide : WideText) (hiiHandle : UInt64) (item : HiddenItemMap) :
    HiddenItemMap :=
  if item.formsetTitle = formsetTitleWide then { item with hiiHandle := hiiHandle } else item

/-- What `Update` works on: the hide list, its local buffer for a title, and what it has sent to
the database. -/
structure UpdateState where
  hidden : List HiddenItemMap
  formSetTitleWide : WideText
  sent : List HiiSetString

/-- `Update` on a package. The buffer is cleared before a title is read. -/
def updatePackage (hiiHandle : UInt64) (state : UpdateState) : Package → UpdateState
  | .other => state
  | .formSet title =>
    match readTitle title with
    | none => { state with formSetTitleWide := [] }
    | some text =>
      { state with
        formSetTitleWide := text
        hidden := mapOccupied HiddenItemMap.isFree (updateHandle text hiiHandle) state.hidden }

/-- `Update` on a package list. -/
def updateList (sets : List SetItemStringMap) (state : UpdateState) (list : PackageList) :
    UpdateState :=
  if list.exported then
    let scanned := list.packages.foldl (updatePackage list.hiiHandle) state
    { scanned with
      sent := scanned.sent ++
        updateStringInHii sets scanned.formSetTitleWide list.hiiHandle }
  else state

/-- `Update`. -/
def update (database : HiiDatabase) (hidden : List HiddenItemMap)
    (sets : List SetItemStringMap) : UpdateState :=
  database.lists.foldl (updateList sets) ⟨hidden, [], []⟩

end Update

section Calls

variable {α ι : Type} {free : α → Bool} {fill : ι → α → α} {fits : ι → Bool}

/-- Calls come back with a table exactly if the entries are found and every text fits; the table
is then the one with the entries filled in order. -/
theorem putEntries_ok_iff (calls : List ι) (items after : List α) :
    putEntries (fun call => putEntry free (fill call) (fits call)) calls items = .ok after ↔
      fillAll free fill calls items = some after ∧ ∀ call ∈ calls, fits call := by
  induction calls generalizing items with
  | nil => simp [putEntries, fillAll]
  | cons call calls ih =>
    rw [putEntries, fillAll, putEntry]
    cases filled : fillFirst free (fill call) items with
    | none => simp [Except.bind]
    | some middle =>
      by_cases fit : fits call
      · simp [fit, Except.bind, ih]
      · simp [fit, Except.bind]

/-- The entries of calls that come back. -/
theorem occupied_putEntries {clean : α → Prop} {item : ι → α}
    (exact : ∀ call slot, clean slot → fill call slot = item call)
    (cleanItem : ∀ call, clean (item call)) {items after : List α}
    (empty : ∀ slot ∈ items, free slot) (cleanItems : ∀ slot ∈ items, clean slot)
    {calls : List ι}
    (ran : putEntries (fun call => putEntry free (fill call) (fits call)) calls items =
      .ok after) :
    occupied free after = (calls.map item).filter fun slot => !free slot := by
  have packed : Packed free ([] ++ items) := packed_append (by simp) empty
  have unoccupied : occupied free ([] ++ items) = [] := occupied_append (by simp) empty
  rw [List.nil_append] at packed unoccupied
  obtain ⟨filled, -⟩ := (putEntries_ok_iff calls items after).mp ran
  obtain ⟨taken, -, -⟩ := occupied_fillAll exact cleanItem calls packed cleanItems filled
  rw [taken, unoccupied, List.nil_append]

/-- Calls come back with some table exactly if there is room for them and every text fits. -/
theorem putEntries_comes_back_iff {clean : α → Prop} {item : ι → α}
    (exact : ∀ call slot, clean slot → fill call slot = item call)
    (cleanItem : ∀ call, clean (item call)) {items : List α} (empty : ∀ slot ∈ items, free slot)
    (cleanItems : ∀ slot ∈ items, clean slot) (nonempty : items ≠ []) (calls : List ι) :
    (∃ after, putEntries (fun call => putEntry free (fill call) (fits call)) calls items =
        .ok after) ↔
      calls.dropLast.countP (fun call => !free (item call)) < items.length ∧
        ∀ call ∈ calls, fits call := by
  rw [← fillAll_ne_none_iff exact cleanItem empty cleanItems nonempty calls]
  constructor
  · rintro ⟨after, ran⟩
    obtain ⟨filled, fit⟩ := (putEntries_ok_iff calls items after).mp ran
    exact ⟨by simp [filled], fit⟩
  · rintro ⟨found, fit⟩
    obtain ⟨after, filled⟩ := Option.ne_none_iff_exists'.mp found
    exact ⟨after, (putEntries_ok_iff calls items after).mpr ⟨filled, fit⟩⟩

end Calls

section Titles

/-- The titles of the formsets of a list. -/
def titles (list : PackageList) : List WideText :=
  list.packages.filterMap fun package =>
    match package with
    | .formSet title => title
    | .other => none

/-- The titles that `Update` can read. -/
def readTitles (packages : List Package) : List WideText :=
  packages.filterMap fun package =>
    match package with
    | .formSet title => readTitle title
    | .other => none

/-- `Update` finds a title in a list. -/
def Finds (title : WideText) (list : PackageList) : Bool :=
  list.exported && title ∈ readTitles list.packages

/-- The handle of the last list a title is found in. -/
def lastHandle (lists : List PackageList) (title : WideText) : Option UInt64 :=
  (lists.filter (Finds title)).getLast?.map PackageList.hiiHandle

/-- The title that is read of a form set is the one it has. -/
theorem readTitle_eq {title : Option WideText} {text : WideText}
    (read : readTitle title = some text) : title = some text := by
  cases title with
  | none => exact absurd read (by simp [readTitle])
  | some title =>
    rw [readTitle] at read
    split at read
    · exact read
    · exact absurd read (by simp)

/-- Only titles of the list are read. -/
theorem readTitles_subset (list : PackageList) : readTitles list.packages ⊆ titles list := by
  intro text member
  obtain ⟨package, inside, read⟩ := List.mem_filterMap.mp member
  refine List.mem_filterMap.mpr ⟨package, inside, ?_⟩
  cases package with
  | formSet title => exact readTitle_eq read
  | other => exact absurd read (by simp)

/-- The last list a title is found in is one of the lists. -/
theorem lastHandle_mem {lists : List PackageList} {title : WideText} {handle : UInt64}
    (last : lastHandle lists title = some handle) :
    ∃ list ∈ lists, Finds title list ∧ list.hiiHandle = handle := by
  obtain ⟨list, found, same⟩ := Option.map_eq_some_iff.mp last
  have member := List.mem_of_getLast? found
  obtain ⟨inside, finds⟩ := List.mem_filter.mp member
  exact ⟨list, inside, finds, same⟩

end Titles

section HideLaw

/-- A handle that is noted leaves a row occupied or free. -/
theorem isFree_updateHandle (title : WideText) (handle : UInt64) (item : HiddenItemMap) :
    (updateHandle title handle item).isFree = item.isFree := by
  unfold updateHandle
  split <;> rfl

/-- An entry after the scan of some packages. -/
def scanned (packages : List Package) (handle : UInt64) (item : HiddenItemMap) : HiddenItemMap :=
  if item.formsetTitle ∈ readTitles packages then { item with hiiHandle := handle } else item

/-- Over the packages of a list the occupied rows get the handle, and stay the same rows
otherwise. -/
theorem occupied_scan (handle : UInt64) (packages : List Package) (state : UpdateState) :
    occupied HiddenItemMap.isFree (packages.foldl (updatePackage handle) state).hidden =
      (occupied HiddenItemMap.isFree state.hidden).map (scanned packages handle) := by
  induction packages generalizing state with
  | nil =>
    have same : scanned [] handle = id := by
      funext item
      simp [scanned, readTitles]
    simp [same]
  | cons package packages ih =>
    rw [List.foldl_cons, ih]
    cases package with
    | other =>
      congr 1
    | formSet title =>
      cases read : readTitle title with
      | none =>
        have same : scanned (.formSet title :: packages) handle = scanned packages handle := by
          funext item
          simp [scanned, readTitles, read]
        simp only [updatePackage, read, same]
      | some text =>
        simp only [updatePackage, read]
        rw [occupied_mapOccupied (isFree_updateHandle text handle), List.map_map]
        congr 1
        funext item
        have split : readTitles (.formSet title :: packages) = text :: readTitles packages := by
          simp [readTitles, read]
        by_cases first : item.formsetTitle = text
        · by_cases later : item.formsetTitle ∈ readTitles packages
          · simp [scanned, updateHandle, split, first]
          · simp [scanned, updateHandle, split, first]
        · simp [scanned, updateHandle, split, first]

/-- An entry after the scan of some lists. -/
def resolved (lists : List PackageList) (item : HiddenItemMap) : HiddenItemMap :=
  { item with hiiHandle := (lastHandle lists item.formsetTitle).getD item.hiiHandle }

/-- The last list with a title gives the handle. -/
theorem lastHandle_append (lists : List PackageList) (list : PackageList) (title : WideText) :
    lastHandle (lists ++ [list]) title =
      if Finds title list then some list.hiiHandle else lastHandle lists title := by
  unfold lastHandle
  by_cases finds : Finds title list
  · simp [List.filter_append, finds]
  · simp [List.filter_append, finds]

/-- The scan leaves in each entry the last handle of its title. -/
theorem occupied_update (sets : List SetItemStringMap) (lists : List PackageList)
    (state : UpdateState) :
    occupied HiddenItemMap.isFree (lists.foldl (updateList sets) state).hidden =
      (occupied HiddenItemMap.isFree state.hidden).map (resolved lists) := by
  induction lists using List.reverseRecOn with
  | nil =>
    have same : resolved [] = id := by
      funext item
      simp [resolved, lastHandle]
    simp [same]
  | append_singleton lists list ih =>
    rw [List.foldl_append, List.foldl_cons, List.foldl_nil]
    by_cases exported : list.exported
    · simp only [updateList, if_pos exported]
      rw [occupied_scan, ih, List.map_map]
      congr 1
      funext item
      by_cases finds : item.formsetTitle ∈ readTitles list.packages
      · simp [scanned, resolved, lastHandle_append, Finds, exported, finds]
      · simp [scanned, resolved, lastHandle_append, Finds, exported, finds]
    · simp only [updateList, if_neg exported]
      rw [ih]
      congr 1
      funext item
      simp [resolved, lastHandle_append, Finds, exported]

/-- The entry of a call. -/
def HideCall.item (call : HideCall) : HiddenItemMap :=
  ⟨0, asciiStrToUnicodeStr call.formsetTitle, call.stringId⟩

/-- At the start all rows are free. -/
theorem hiddenItemList_free : ∀ item ∈ hiddenItemList, item.isFree := by
  intro item member
  rw [(List.mem_replicate.mp member).2]
  rfl

/-- At the start no row has a handle. -/
theorem hiddenItemList_clean : ∀ item ∈ hiddenItemList, item.hiiHandle = 0 := by
  intro item member
  rw [(List.mem_replicate.mp member).2]

/-- A call leaves its entry in a slot that no scan has given a handle. -/
theorem HideCall.fill_clean (call : HideCall) (item : HiddenItemMap) (zero : item.hiiHandle = 0) :
    call.fill item = call.item := by
  rw [HideCall.fill, HideCall.item, ← zero]

/-- The entries of the hide list are those of the calls, in their order. -/
theorem occupied_add2HideLists {calls : List HideCall} {items : List HiddenItemMap}
    (added : add2HideLists calls hiddenItemList = .ok items) :
    occupied HiddenItemMap.isFree items =
      (calls.map HideCall.item).filter fun item => !item.isFree :=
  occupied_putEntries HideCall.fill_clean (fun _ => rfl) hiddenItemList_free hiddenItemList_clean
    added

/-- The calls of `Add2HideList` come back exactly if there is room for them in the list and each
title fits its array. -/
theorem add2HideLists_comes_back_iff (calls : List HideCall) :
    (∃ items, add2HideLists calls hiddenItemList = .ok items) ↔
      InCapacity (calls.map HideCall.stringId) ∧ ∀ call ∈ calls, call.fits := by
  have nonempty : hiddenItemList ≠ [] := List.cons_ne_nil _ _
  have room := @putEntries_comes_back_iff _ _ HiddenItemMap.isFree HideCall.fill HideCall.fits
    (fun item => item.hiiHandle = 0) HideCall.item HideCall.fill_clean (fun _ => rfl) _
    hiddenItemList_free hiddenItemList_clean nonempty calls
  have size : hiddenItemList.length = setupMenuHideItemNumber := List.length_replicate
  rw [size] at room
  rw [InCapacity, ← List.map_dropLast, List.countP_map]
  refine room.trans (and_congr_left fun _ => ?_)
  have same : (fun call : HideCall => !call.item.isFree) =
      (fun stringId : UInt16 => decide (stringId ≠ freeId)) ∘ HideCall.stringId := by
    funext call
    exact (@decide_not (call.stringId = freeId) _ _).symm
  rw [same]

/-- Each formset that is hidden by its title belongs to the last handle of a title under which
the same item is hidden. -/
def HandlesCover (calls : List HideCall) (database : HiiDatabase) : Prop :=
  ∀ call ∈ calls, call.stringId ≠ freeId → ∀ list ∈ database.lists,
    asciiStrToUnicodeStr call.formsetTitle ∈ titles list →
      ∃ other ∈ calls, other.stringId = call.stringId ∧
        lastHandle database.lists (asciiStrToUnicodeStr other.formsetTitle) = some list.hiiHandle

section AfterUpdate

variable {calls : List HideCall} {items : List HiddenItemMap} {database : HiiDatabase}
  {sets : List SetItemStringMap}

/-- A handle and a number are found exactly if a call has the number and the last list with its
title has the handle. -/
theorem search_update (added : add2HideLists calls hiddenItemList = .ok items)
    (stringId : UInt16) {handle : UInt64} (proper : handle ≠ 0) :
    searchForHideList (update database items sets).hidden handle stringId ↔
      stringId ≠ freeId ∧ ∃ call ∈ calls, call.stringId = stringId ∧
        lastHandle database.lists (asciiStrToUnicodeStr call.formsetTitle) = some handle := by
  unfold searchForHideList update
  rw [occupied_update, occupied_add2HideLists added]
  simp only [List.any_map, List.any_eq_true, List.mem_filter, List.mem_map, Function.comp_apply]
  constructor
  · rintro ⟨_, ⟨⟨call, member, rfl⟩, busy⟩, hit⟩
    obtain ⟨first, second⟩ := Bool.and_eq_true_iff.mp hit
    have same : call.stringId = stringId := of_decide_eq_true first
    have found : (lastHandle database.lists (asciiStrToUnicodeStr call.formsetTitle)).getD 0 =
        handle := of_decide_eq_true second
    refine ⟨?_, call, member, same, ?_⟩
    · simpa [HiddenItemMap.isFree, HideCall.item, same] using busy
    · cases last : lastHandle database.lists (asciiStrToUnicodeStr call.formsetTitle) with
      | none =>
        rw [last] at found
        exact absurd found.symm proper
      | some other =>
        rw [last] at found
        exact congrArg some found
  · rintro ⟨busy, call, member, same, found⟩
    refine ⟨call.item, ⟨⟨call, member, rfl⟩, ?_⟩, ?_⟩
    · simpa [HiddenItemMap.isFree, HideCall.item, same] using busy
    · simp [resolved, HideCall.item, same, found]

/-- A title and a number are found exactly if they are those of a call, whatever the handles
are. -/
theorem searchByString_update (added : add2HideLists calls hiddenItemList = .ok items)
    (stringId : UInt16) (title : WideText) :
    searchForHideListByString (update database items sets).hidden title stringId ↔
      stringId ≠ freeId ∧ ∃ call ∈ calls, call.stringId = stringId ∧
        asciiStrToUnicodeStr call.formsetTitle = title := by
  unfold searchForHideListByString update
  rw [occupied_update, occupied_add2HideLists added]
  simp only [List.any_map, List.any_eq_true, List.mem_filter, List.mem_map, Function.comp_apply]
  constructor
  · rintro ⟨_, ⟨⟨call, member, rfl⟩, busy⟩, hit⟩
    obtain ⟨first, second⟩ := Bool.and_eq_true_iff.mp hit
    have same : call.stringId = stringId := of_decide_eq_true first
    have found : asciiStrToUnicodeStr call.formsetTitle = title := of_decide_eq_true second
    refine ⟨?_, call, member, same, found⟩
    simpa [HiddenItemMap.isFree, HideCall.item, same] using busy
  · rintro ⟨busy, call, member, same, found⟩
    refine ⟨call.item, ⟨⟨call, member, rfl⟩, ?_⟩, ?_⟩
    · simpa [HiddenItemMap.isFree, HideCall.item, same] using busy
    · simp [resolved, HideCall.item, same, found]

/-- The two lookups agree on every handle of the database: by the handle an item is hidden exactly
if it is by the title of one of its formsets. -/
def Agree (database : HiiDatabase) (hidden : List HiddenItemMap) : Prop :=
  ∀ list ∈ database.lists, ∀ stringId : UInt16,
    (searchForHideList hidden list.hiiHandle stringId ↔
      ∃ title ∈ titles list, searchForHideListByString hidden title stringId)

/-- When the lookups agree after calls that have come back. -/
theorem agree_iff (added : add2HideLists calls hiddenItemList = .ok items) :
    Agree database (update database items sets).hidden ↔ HandlesCover calls database := by
  have byString : ∀ list : PackageList, ∀ stringId, (∃ title ∈ titles list,
      searchForHideListByString (update database items sets).hidden title stringId) ↔
        stringId ≠ freeId ∧ ∃ call ∈ calls, call.stringId = stringId ∧
          asciiStrToUnicodeStr call.formsetTitle ∈ titles list := by
    intro list stringId
    constructor
    · rintro ⟨title, inside, hit⟩
      obtain ⟨busy, call, member, same, rfl⟩ := (searchByString_update added _ _).mp hit
      exact ⟨busy, call, member, same, inside⟩
    · rintro ⟨busy, call, member, same, inside⟩
      exact ⟨_, inside, (searchByString_update added _ _).mpr ⟨busy, call, member, same, rfl⟩⟩
  constructor
  · intro agree call member busy list inside titled
    have found := (agree list inside call.stringId).mpr
      ((byString list _).mpr ⟨busy, call, member, rfl, titled⟩)
    exact ((search_update added _ (database.proper list inside)).mp found).2
  · intro cover list inside stringId
    rw [byString, search_update added _ (database.proper list inside)]
    constructor
    · rintro ⟨busy, call, member, same, last⟩
      obtain ⟨other, otherInside, finds, handle⟩ := lastHandle_mem last
      obtain rfl : other = list :=
        List.inj_on_of_nodup_map database.distinct otherInside inside handle
      obtain ⟨-, title⟩ := Bool.and_eq_true_iff.mp finds
      exact ⟨busy, call, member, same, readTitles_subset other (by simpa using title)⟩
    · rintro ⟨busy, call, member, same, titled⟩
      obtain ⟨other, otherMember, equal, last⟩ :=
        cover call member (by rw [same]; exact busy) list inside titled
      exact ⟨busy, other, otherMember, equal.trans same, last⟩

/-- For calls within the capacity of the list: they come back and the lookups agree afterwards on
every handle of the database, exactly if each title fits its array and the handles that are left
in the entries cover the formsets. -/
theorem lookups_agree_iff (within : InCapacity (calls.map HideCall.stringId)) :
    (∃ items, add2HideLists calls hiddenItemList = .ok items ∧
        Agree database (update database items sets).hidden) ↔
      (∀ call ∈ calls, call.fits) ∧ HandlesCover calls database := by
  constructor
  · rintro ⟨items, added, agree⟩
    exact ⟨((add2HideLists_comes_back_iff calls).mp ⟨items, added⟩).2, (agree_iff added).mp agree⟩
  · rintro ⟨fit, cover⟩
    obtain ⟨items, added⟩ := (add2HideLists_comes_back_iff calls).mpr ⟨within, fit⟩
    exact ⟨items, added, (agree_iff added).mpr cover⟩

end AfterUpdate

/-- A package list with a formset, and one without. -/
def oneSetup : HiiDatabase where
  lists := [⟨1, true, [.formSet (some [0x53]), .other]⟩, ⟨2, true, [.other]⟩]
  distinct := by decide
  proper := by decide

/-- The two sides for one call and one list of packages. -/
theorem lookups_agree_iff_oneSetup :
    (∃ items, add2HideLists [⟨[0x53], 5⟩] hiddenItemList = .ok items ∧
        Agree oneSetup (update oneSetup items []).hidden) ↔
      (∀ call ∈ [(⟨[0x53], 5⟩ : HideCall)], call.fits) ∧ HandlesCover [⟨[0x53], 5⟩] oneSetup :=
  lookups_agree_iff (by decide)

/-- Two package lists whose formsets have the same title. -/
def twoSetups : HiiDatabase where
  lists := [⟨1, true, [.formSet (some [0x53])]⟩, ⟨2, true, [.formSet (some [0x53])]⟩]
  distinct := by decide
  proper := by decide

/-- A title that two lists have is found by its text in the first one, and by no handle there.
-/
theorem not_always_agree :
    ¬ ∀ (calls : List HideCall) (database : HiiDatabase) (sets : List SetItemStringMap),
        InCapacity (calls.map HideCall.stringId) →
      ∃ items, add2HideLists calls hiddenItemList = .ok items ∧
        Agree database (update database items sets).hidden := by
  intro always
  obtain ⟨items, added, agrees⟩ := always [⟨[0x53], 5⟩] twoSetups [] (by decide)
  have agree := agrees ⟨1, true, [.formSet (some [0x53])]⟩ (List.mem_cons_self ..) 5
  have byString : searchForHideListByString (update twoSetups items []).hidden [0x53] 5 :=
    (searchByString_update added 5 [0x53]).mpr ⟨by decide, _, List.mem_singleton_self _, rfl, rfl⟩
  obtain ⟨-, call, member, -, last⟩ :=
    (search_update added 5 (by decide)).mp (agree.mpr ⟨[0x53], by decide, byString⟩)
  obtain rfl := List.mem_singleton.mp member
  exact absurd last (by decide)

end HideLaw

section StringLaw

/-- What the buffer for a title holds after each formset. -/
def attempts (packages : List Package) : List WideText :=
  packages.filterMap fun package =>
    match package with
    | .formSet title => some ((readTitle title).getD [])
    | .other => none

/-- What the buffer for a title holds after some lists: what the last formset has left there. -/
def bufferAfter (lists : List PackageList) : WideText :=
  ((lists.filter PackageList.exported).flatMap fun list =>
    attempts list.packages).getLast?.getD []

/-- A list that is exported leaves the last title it was asked for, another one nothing new. -/
theorem bufferAfter_append (lists : List PackageList) (list : PackageList) :
    bufferAfter (lists ++ [list]) =
      if list.exported then (attempts list.packages).getLast?.getD (bufferAfter lists)
      else bufferAfter lists := by
  unfold bufferAfter
  rw [List.filter_append, List.flatMap_append]
  by_cases exported : list.exported
  · have only : List.filter PackageList.exported [list] = [list] := by simp [exported]
    rw [only, List.flatMap_singleton, List.getLast?_append, if_pos exported]
    cases (attempts list.packages).getLast? <;> simp
  · have only : List.filter PackageList.exported [list] = [] := by simp [exported]
    rw [only, List.flatMap_nil, List.append_nil, if_neg exported]

/-- Over the packages of a list the buffer keeps the last title, and nothing is sent. -/
theorem buffer_scan (handle : UInt64) (packages : List Package) (state : UpdateState) :
    (packages.foldl (updatePackage handle) state).formSetTitleWide =
        (attempts packages).getLast?.getD state.formSetTitleWide ∧
      (packages.foldl (updatePackage handle) state).sent = state.sent := by
  induction packages generalizing state with
  | nil => exact ⟨rfl, rfl⟩
  | cons package packages ih =>
    rw [List.foldl_cons]
    obtain ⟨buffer, sent⟩ := ih (updatePackage handle state package)
    rw [buffer, sent]
    cases package with
    | other => exact ⟨rfl, rfl⟩
    | formSet title =>
      have split : attempts (.formSet title :: packages) =
          (readTitle title).getD [] :: attempts packages := rfl
      rw [split, List.getLast?_cons]
      cases read : readTitle title with
      | none => simp [updatePackage, read]
      | some text => simp [updatePackage, read]

/-- What is sent, list by list. -/
theorem mem_sent (sets : List SetItemStringMap) (lists : List PackageList)
    (hidden : List HiddenItemMap) (call : HiiSetString) :
    (lists.foldl (updateList sets) ⟨hidden, [], []⟩).formSetTitleWide = bufferAfter lists ∧
      (call ∈ (lists.foldl (updateList sets) ⟨hidden, [], []⟩).sent ↔
        ∃ before list after, lists = before ++ list :: after ∧ list.exported ∧
          call ∈ updateStringInHii sets (bufferAfter (before ++ [list])) list.hiiHandle) := by
  induction lists using List.reverseRecOn with
  | nil => simp [bufferAfter]
  | append_singleton lists list ih =>
    obtain ⟨buffer, sent⟩ := ih
    rw [List.foldl_append, List.foldl_cons, List.foldl_nil, exists_split_concat lists list,
      bufferAfter_append, ← sent]
    generalize lists.foldl (updateList sets) ⟨hidden, [], []⟩ = state at buffer
    by_cases exported : list.exported
    · obtain ⟨title, same⟩ := buffer_scan list.hiiHandle list.packages state
      rw [updateList, if_pos exported, if_pos exported]
      simp only [title, same, buffer, List.mem_append, exported, true_and]
    · rw [updateList, if_neg exported, if_neg exported]
      exact ⟨buffer, by simp [exported]⟩

/-- The entry of a call. -/
def SetCall.item (call : SetCall) : SetItemStringMap :=
  ⟨asciiStrToUnicodeStr call.formsetTitle, call.stringId, call.toString⟩

/-- At the start all rows are free. -/
theorem setItemStringList_free : ∀ item ∈ setItemStringList, item.isFree := by
  intro item member
  rw [(List.mem_replicate.mp member).2]
  rfl

/-- The entries of the string list are those of the calls, in their order. -/
theorem occupied_setStrings {calls : List SetCall} {items : List SetItemStringMap}
    (added : setStrings calls setItemStringList = .ok items) :
    occupied SetItemStringMap.isFree items =
      (calls.map SetCall.item).filter fun item => !item.isFree :=
  @occupied_putEntries _ _ SetItemStringMap.isFree SetCall.fill SetCall.fits (fun _ => True)
    SetCall.item (fun _ _ _ => rfl) (fun _ => trivial) _ _ setItemStringList_free
    (fun _ _ => trivial) calls added

/-- The calls of `SetString` come back exactly if there is room for them in the list and each
title and text fits its array. -/
theorem setStrings_comes_back_iff (calls : List SetCall) :
    (∃ items, setStrings calls setItemStringList = .ok items) ↔
      InCapacity (calls.map SetCall.stringId) ∧ ∀ call ∈ calls, call.fits := by
  have nonempty : setItemStringList ≠ [] := List.cons_ne_nil _ _
  have room := @putEntries_comes_back_iff _ _ SetItemStringMap.isFree SetCall.fill SetCall.fits
    (fun _ => True) SetCall.item (fun _ _ _ => rfl) (fun _ => trivial) _ setItemStringList_free
    (fun _ _ => trivial) nonempty calls
  have size : setItemStringList.length = setupMenuHideItemNumber := List.length_replicate
  rw [size] at room
  rw [InCapacity, ← List.map_dropLast, List.countP_map]
  refine room.trans (and_congr_left fun _ => ?_)
  have same : (fun call : SetCall => !call.item.isFree) =
      (fun stringId : UInt16 => decide (stringId ≠ freeId)) ∘ SetCall.stringId := by
    funext call
    exact (@decide_not (call.stringId = freeId) _ _).symm
  rw [same]

/-- A call asks for the text of a string id. -/
def SetCall.Asks (call : SetCall) (stringId : UInt16) (text : WideText) : Prop :=
  call.stringId = stringId ∧ stringId ≠ freeId ∧ asciiStrToUnicodeStr call.toString = text

/-- A string is sent to a list exactly if a call names the title, the number and the text. -/
theorem mem_updateStringInHii {calls : List SetCall} {items : List SetItemStringMap}
    (added : setStrings calls setItemStringList = .ok items) (title : WideText)
    (list handle : UInt64) (stringId : UInt16) (text : WideText) :
    ⟨handle, stringId, text⟩ ∈ updateStringInHii items title list ↔
      list = handle ∧ ∃ call ∈ calls, call.Asks stringId text ∧
        asciiStrToUnicodeStr call.formsetTitle = title := by
  unfold updateStringInHii
  rw [occupied_setStrings added]
  simp only [List.mem_map, List.mem_filter, HiiSetString.mk.injEq]
  constructor
  · rintro ⟨_, ⟨⟨⟨call, member, rfl⟩, busy⟩, titled⟩, rfl, rfl, rfl⟩
    have occupied : call.item.isFree = false := by simpa using busy
    exact ⟨rfl, call, member, ⟨rfl, of_decide_eq_false occupied, rfl⟩, of_decide_eq_true titled⟩
  · rintro ⟨rfl, call, member, ⟨rfl, busy, rfl⟩, rfl⟩
    have occupied : call.item.isFree = false := decide_eq_false busy
    refine ⟨call.item, ⟨⟨⟨call, member, rfl⟩, ?_⟩, ?_⟩, rfl, rfl, rfl⟩
    · simp [occupied]
    · simp [SetCall.item]

/-- Whenever a list is done, the title that is left in the buffer asks for the same texts as the
titles of the formsets of the list do. -/
def BufferFits (calls : List SetCall) (database : HiiDatabase) : Prop :=
  ∀ before list after, database.lists = before ++ list :: after → list.exported →
    ∀ stringId text,
      (∃ call ∈ calls, call.Asks stringId text ∧
        asciiStrToUnicodeStr call.formsetTitle = bufferAfter (before ++ [list])) ↔
      ∃ call ∈ calls, call.Asks stringId text ∧
        asciiStrToUnicodeStr call.formsetTitle ∈ titles list

/-- The strings that are sent are those that are asked for under the title of a formset of the
handle, and no others. -/
def SendsRight (calls : List SetCall) (database : HiiDatabase) (sent : List HiiSetString) : Prop :=
  ∀ handle stringId text, ⟨handle, stringId, text⟩ ∈ sent ↔
    ∃ list ∈ database.lists, list.hiiHandle = handle ∧ list.exported ∧
      ∃ call ∈ calls, call.Asks stringId text ∧
        asciiStrToUnicodeStr call.formsetTitle ∈ titles list

/-- When the strings of exactly the right handles are replaced, after calls that have come back. -/
theorem sendsRight_iff {calls : List SetCall} {sets : List SetItemStringMap}
    {hidden : List HiddenItemMap} {database : HiiDatabase}
    (added : setStrings calls setItemStringList = .ok sets) :
    SendsRight calls database (update database hidden sets).sent ↔ BufferFits calls database := by
  have sent : ∀ handle stringId text,
      ⟨handle, stringId, text⟩ ∈ (update database hidden sets).sent ↔
        ∃ before list after, database.lists = before ++ list :: after ∧ list.exported ∧
          list.hiiHandle = handle ∧ ∃ call ∈ calls, call.Asks stringId text ∧
            asciiStrToUnicodeStr call.formsetTitle = bufferAfter (before ++ [list]) := by
    intro handle stringId text
    rw [update, (mem_sent sets database.lists hidden _).2]
    simp only [mem_updateStringInHii added]
  simp only [SendsRight, sent]
  constructor
  · intro agree before list after split exported stringId text
    have inside : list ∈ database.lists := by simp [split]
    have same := agree list.hiiHandle stringId text
    constructor
    · intro asked
      obtain ⟨other, otherInside, handle, -, right⟩ :=
        same.mp ⟨before, list, after, split, exported, rfl, asked⟩
      obtain rfl : other = list :=
        List.inj_on_of_nodup_map database.distinct otherInside inside handle
      exact right
    · intro right
      obtain ⟨front, other, back, otherSplit, -, handle, asked⟩ :=
        same.mpr ⟨list, inside, rfl, exported, right⟩
      have otherInside : other ∈ database.lists := by simp [otherSplit]
      obtain rfl : other = list :=
        List.inj_on_of_nodup_map database.distinct otherInside inside handle
      have distinct : database.lists.Nodup := List.Nodup.of_map _ database.distinct
      rw [split] at distinct otherSplit
      have once : other ∉ before ++ after :=
        (List.nodup_cons.mp (List.nodup_middle.mp distinct)).1
      rw [List.mem_append, not_or] at once
      obtain ⟨rfl, -, -⟩ := (List.append_cons_inj_of_notMem once.1 once.2).mp otherSplit
      exact asked
  · intro fits handle stringId text
    constructor
    · rintro ⟨before, list, after, split, exported, rfl, asked⟩
      exact ⟨list, by simp [split], rfl, exported,
        (fits before list after split exported stringId text).mp asked⟩
    · rintro ⟨list, inside, rfl, exported, right⟩
      obtain ⟨before, after, split⟩ := List.append_of_mem inside
      exact ⟨before, list, after, split, exported, rfl,
        (fits before list after split exported stringId text).mpr right⟩

/-- The calls of `SetString` come back, and `Update` then replaces the strings of exactly the right
handles, exactly if there is room in the list for the calls, each title and text fits its array,
and the title that is left in the buffer fits each list. -/
theorem sent_iff (calls : List SetCall) (hidden : List HiddenItemMap) (database : HiiDatabase) :
    (∃ sets, setStrings calls setItemStringList = .ok sets ∧
        SendsRight calls database (update database hidden sets).sent) ↔
      InCapacity (calls.map SetCall.stringId) ∧ (∀ call ∈ calls, call.fits) ∧
        BufferFits calls database := by
  constructor
  · rintro ⟨sets, added, right⟩
    obtain ⟨within, fit⟩ := (setStrings_comes_back_iff calls).mp ⟨sets, added⟩
    exact ⟨within, fit, (sendsRight_iff added).mp right⟩
  · rintro ⟨within, fit, buffer⟩
    obtain ⟨sets, added⟩ := (setStrings_comes_back_iff calls).mpr ⟨within, fit⟩
    exact ⟨sets, added, (sendsRight_iff added).mpr buffer⟩

/-- The title of the first handle is still in the buffer when the second one is done. -/
theorem not_always_sent :
    ¬ ∀ (calls : List SetCall) (hidden : List HiddenItemMap) (database : HiiDatabase),
      ∃ sets, setStrings calls setItemStringList = .ok sets ∧
        SendsRight calls database (update database hidden sets).sent := by
  intro always
  obtain ⟨sets, added, right⟩ := always [⟨[0x53], 5, [0x78]⟩] [] oneSetup
  have fits := (sendsRight_iff added).mp right
  obtain ⟨call, -, -, title⟩ := (fits [⟨1, true, [.formSet (some [0x53]), .other]⟩]
    ⟨2, true, [.other]⟩ [] rfl rfl 5 [0x78]).mp
      ⟨_, List.mem_singleton_self _, ⟨rfl, by decide, rfl⟩, by decide⟩
  exact absurd title (by simp [titles])

end StringLaw

end SmcPkg.SetupModify
