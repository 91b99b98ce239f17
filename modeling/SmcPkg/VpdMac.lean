import SmcPkg.Lib.Bytes
import SmcPkg.RaidOob.CmdParse

/-!
# The MAC address in the VPD of a LAN card

A card has a list of capabilities in its configuration space, each with a pointer to the next.
One of them is the VPD, 256 bytes in which an item for each LAN port holds its MAC address as
text, and one item tells how many of them there are. The items are searched for byte by byte,
with a look at the bytes behind.

The configuration space and the 256 bytes of the VPD are arbitrary, and the device delivers each
dword that it is asked for.
-/

namespace SmcPkg.VpdMac

open Bytes RaidCmd

section Model

/-- Where port 0xcfc looks: the two lowest bits of the address are not used. -/
def aligned (capoff : UInt8) : Nat := (capoff &&& 0xFC).toNat

/-- `GetVPDCap` on the configuration space of a function, with a bound for the recursion. -/
def getVPDCap (config : Memory) : Nat → UInt8 → Option UInt8
  | 0, _ => none
  | depth + 1, capoff =>
    let temp := word32 config (aligned capoff)
    if capoff = 0x34 then getVPDCap config depth (temp &&& 0xff).toUInt8
    else if temp &&& 0xff = 3 then some capoff
    else if temp &&& 0xff00 ≠ 0 then
      getVPDCap config depth ((temp >>> (8 : UInt32)) &&& 0xff).toUInt8
    else some 0

/-- A read of the buffer, which has 256 bytes. -/
def readAt (buffer : Memory) (i : Nat) : Checked UInt8 :=
  if i < 256 then .ok (buffer i) else .error .overflow

/-- The comparisons for an item: `V` and another letter, and then the length. -/
def matchesAt (buffer : Memory) (second length : UInt8) (i : Nat) : Checked Bool := do
  if (← readAt buffer i) = 0x56 then
    if (← readAt buffer (i + 1)) = second then
      return decide ((← readAt buffer (i + 2)) = length)
    else return false
  else return false

/-- The number `va`, and the places `v2` to `v5` by the number of the LAN port. -/
structure Found where
  va : UInt32
  place : Nat → Nat

/-- The letter behind the `V`: `2` for the first port. -/
def keyword (lanNum : Nat) : UInt8 := UInt8.ofNat (0x31 + lanNum)

/-- The comparison for `V2` to `V5`. -/
def notePlace (buffer : Memory) (i : Nat) (found : Found) (lanNum : Nat) : Checked Found := do
  if ← matchesAt buffer (keyword lanNum) 0x0c i then
    return { found with place := Function.update found.place lanNum (i + 3) }
  else return found

/-- The comparison for `VA`. -/
def noteCount (buffer : Memory) (i : Nat) (found : Found) : Checked Found := do
  if ← matchesAt buffer 0x41 1 i then
    return { found with va := (← readAt buffer (i + 3)).toUInt32 - 0x30 }
  else return found

/-- The body of the loop over the buffer. -/
def scanAt (buffer : Memory) (found : Found) (i : Nat) : Checked Found := do
  let counted ← noteCount buffer i found
  let first ← notePlace buffer i counted 1
  let second ← notePlace buffer i first 2
  let third ← notePlace buffer i second 3
  notePlace buffer i third 4

/-- The loop over the buffer. -/
def scan (buffer : Memory) : Checked Found :=
  (List.range 256).foldlM (scanAt buffer) ⟨0, fun _ => 0⟩

/-- A digit of `ConvertASCII2HEX`. What is none stays as it is. -/
def hexDigit (char : UInt8) : UInt8 :=
  if 0x30 ≤ char ∧ char ≤ 0x39 then char - 0x30
  else if 0x41 ≤ char ∧ char ≤ 0x46 then char - 0x37
  else char

/-- `ConvertASCII2HEX`, with the number of bytes. -/
def convertASCII2HEX (sourceBuffer : Memory) : Nat → Nat → Checked (List UInt8)
  | 0, _ => .ok []
  | count + 1, ioff => do
    let high ← readAt sourceBuffer ioff
    let low ← readAt sourceBuffer (ioff + 1)
    let rest ← convertASCII2HEX sourceBuffer count (ioff + 2)
    return (hexDigit high <<< (4 : UInt8) ||| hexDigit low) :: rest

/-- What follows `GetVPDData` in `SmcGetMacFrVpd`. -/
def macFromBuffer (buffer : Memory) (lanNum : UInt16) (lanMacAddress : Memory) :
    Checked Memory := do
  let found ← scan buffer
  if 1 ≤ lanNum ∧ lanNum ≤ 4 ∧ lanNum.toUInt32 ≤ found.va then
    let bytes ← convertASCII2HEX buffer (0x0c / 2) (found.place lanNum.toNat)
    return overlay bytes.length (memoryOf bytes lanMacAddress) lanMacAddress
  else return lanMacAddress

/-- A card: the configuration space of its function, and what it delivers as VPD through the
registers at a place in there. -/
structure LanCard where
  config : Memory
  vpd : UInt8 → Memory

/-- `SmcGetMacFrVpd`, once `GetVPDCap` has returned. -/
def smcGetMacFrVpd (depth : Nat) (card : LanCard) (lanNum : UInt16) (lanMacAddress : Memory) :
    Option (Checked Memory) :=
  (getVPDCap card.config depth 0x34).map fun cappointer =>
    if cappointer ≠ 0 then macFromBuffer (card.vpd cappointer) lanNum lanMacAddress
    else .ok lanMacAddress

end Model

section Result

/-- The identity of a capability. -/
def capId (config : Memory) (pointer : UInt8) : UInt8 := config (aligned pointer)

/-- The pointer to the capability behind one, 0 behind the last. -/
def nextPointer (config : Memory) (pointer : UInt8) : UInt8 := config (aligned pointer + 1)

/-- The capabilities of a function. -/
inductive OnList (config : Memory) : UInt8 → Prop where
  | first (nonzero : config 0x34 ≠ 0) : OnList config (config 0x34)
  | next {pointer : UInt8} (before : OnList config pointer)
      (nonzero : nextPointer config pointer ≠ 0) : OnList config (nextPointer config pointer)

/-- The search ends, and finds the VPD exactly if there is one. -/
def Finds (config : Memory) : Prop :=
  ∃ cappointer, (∃ depth, getVPDCap config depth 0x34 = some cappointer) ∧
    (cappointer ≠ 0 → OnList config cappointer ∧ capId config cappointer = 3) ∧
    ((∃ pointer, OnList config pointer ∧ capId config pointer = 3) → cappointer ≠ 0)

/-- Whether an item begins at a place. -/
def hasItem (buffer : Memory) (second length : UInt8) (i : Nat) : Bool :=
  buffer i = 0x56 && buffer (i + 1) = second && buffer (i + 2) = length

/-- The last place below a bound with a property. -/
def lastPlace (property : Nat → Bool) : Nat → Option Nat
  | 0 => none
  | bound + 1 => if property bound then some bound else lastPlace property bound

/-- The place of an item, the last one if there are several. -/
def itemPlace (buffer : Memory) (second length : UInt8) : Option Nat :=
  lastPlace (hasItem buffer second length) 254

/-- An upper-case hexadecimal digit. -/
def isUpperHex (char : UInt8) : Bool :=
  (0x30 ≤ char && char ≤ 0x39) || (0x41 ≤ char && char ≤ 0x46)

/-- The value of an upper-case hexadecimal digit. -/
def hexValue (char : UInt8) : Nat :=
  if char ≤ 0x39 then char.toNat - 0x30 else char.toNat - 0x41 + 10

/-- The item of a LAN port is at a place in the buffer, with twelve digits in it. -/
structure HoldsMac (buffer : Memory) (lanNum : UInt16) (place : Nat) : Prop where
  port : 1 ≤ lanNum ∧ lanNum ≤ 4
  item : itemPlace buffer (keyword lanNum.toNat) 0x0c = some place
  inside : place + 3 + 12 ≤ 256
  digits : ∀ i < 12, isUpperHex (buffer (place + 3 + i))

/-- The six bytes that an item writes. -/
def macByte (buffer : Memory) (place i : Nat) : UInt8 :=
  UInt8.ofNat
    (16 * hexValue (buffer (place + 3 + 2 * i)) + hexValue (buffer (place + 3 + 2 * i + 1)))

/-- What an address becomes: the six bytes of the item of the port if the item is there with its
digits, and otherwise what it was. -/
structure Becomes (buffer : Memory) (lanNum : UInt16) (lanMacAddress after : Memory) : Prop where
  read : ∀ place, HoldsMac buffer lanNum place → ∀ i < 6, after i = macByte buffer place i
  kept : (¬ ∃ place, HoldsMac buffer lanNum place) → ∀ i < 6, after i = lanMacAddress i

/-- The VPD is found exactly if there is one. It is read inside the buffer, and the address becomes
the one in the item of the port exactly if the item is there; without a VPD it stays. -/
structure Lawful (card : LanCard) (lanNum : UInt16) : Prop where
  finds : Finds card.config
  changes : ∀ depth cappointer, getVPDCap card.config depth 0x34 = some cappointer →
    ∀ lanMacAddress, ∃ after, smcGetMacFrVpd depth card lanNum lanMacAddress = some (.ok after) ∧
      (cappointer ≠ 0 → Becomes (card.vpd cappointer) lanNum lanMacAddress after) ∧
      (cappointer = 0 → ∀ i < 6, after i = lanMacAddress i)

end Result

section Search

variable {config : Memory} {cappointer : UInt8} {n : Nat}

/-- The pointers that the search follows. -/
def pointerAt (config : Memory) : Nat → UInt8
  | 0 => config 0x34
  | n + 1 => nextPointer config (pointerAt config n)

/-- The search stops at a pointer: there is the VPD or the end of the list there, and neither of
them before. It has not come back to the place of the first pointer. -/
structure StopsAt (config : Memory) (n : Nat) : Prop where
  away : ∀ k ≤ n, pointerAt config k ≠ 0x34
  onward : ∀ k < n, capId config (pointerAt config k) ≠ 3 ∧ pointerAt config (k + 1) ≠ 0
  last : capId config (pointerAt config n) = 3 ∨ pointerAt config (n + 1) = 0

/-- What the search returns from where it stops. -/
def stopValue (config : Memory) (n : Nat) : UInt8 :=
  if capId config (pointerAt config n) = 3 then pointerAt config n else 0

/-- One call of `GetVPDCap` in terms of the bytes of the configuration space. -/
theorem getVPDCap_succ (depth : Nat) (capoff : UInt8) :
    getVPDCap config (depth + 1) capoff =
      if capoff = 0x34 then getVPDCap config depth (config 0x34)
      else if capId config capoff = 3 then some capoff
      else if nextPointer config capoff = 0 then some 0
      else getVPDCap config depth (nextPointer config capoff) := by
  have vpd : (config (aligned capoff)).toUInt32 = 3 ↔ capId config capoff = 3 := by
    rw [← UInt32.toNat_inj, UInt8.toNat_toUInt32, ← UInt8.toNat_inj]
    exact Iff.rfl
  simp only [getVPDCap, word32_low, word32_second, ne_eq, word32_second_zero, vpd, ite_not,
    UInt8.toUInt8_toUInt32]
  by_cases start : capoff = 0x34
  · subst start
    rfl
  · rw [if_neg start, if_neg start]
    rfl

/-- A search that does not come back to the place of the first pointer. -/
theorem getVPDCap_pointerAt (stops : StopsAt config n) (k : Nat) (upTo : k ≤ n) :
    getVPDCap config (n - k + 1) (pointerAt config k) = some (stopValue config n) := by
  induction upTo using Nat.decreasingInduction with
  | self =>
    rw [getVPDCap_succ, if_neg (stops.away n (Nat.le_refl n)), stopValue]
    by_cases vpd : capId config (pointerAt config n) = 3
    · rw [if_pos vpd, if_pos vpd]
    · have ended : nextPointer config (pointerAt config n) = 0 := stops.last.resolve_left vpd
      rw [if_neg vpd, if_neg vpd, if_pos ended]
  | of_succ k below inductionHypothesis =>
    obtain ⟨other, next⟩ := stops.onward k below
    have more : nextPointer config (pointerAt config k) ≠ 0 := next
    have left : n - k = n - (k + 1) + 1 := by omega
    rw [getVPDCap_succ, if_neg (stops.away k (by omega)), if_neg other, if_neg more, left]
    exact inductionHypothesis

/-- A search that ends stops at a pointer, or comes back to the place of the first pointer with
less depth left. -/
theorem stopsAt_or_again {depth k : Nat}
    (before : ∀ j < k, pointerAt config j ≠ 0x34 ∧ capId config (pointerAt config j) ≠ 3 ∧
      pointerAt config (j + 1) ≠ 0)
    (ended : getVPDCap config depth (pointerAt config k) = some cappointer) :
    (∃ n, StopsAt config n ∧ cappointer = stopValue config n) ∨
      ∃ less ≤ depth, getVPDCap config less 0x34 = some cappointer := by
  induction depth generalizing k with
  | zero => cases ended
  | succ depth inductionHypothesis =>
    by_cases back : pointerAt config k = 0x34
    · rw [back] at ended
      exact Or.inr ⟨depth + 1, Nat.le_refl _, ended⟩
    have away : ∀ j ≤ k, pointerAt config j ≠ 0x34 := by
      intro j upTo
      rcases Nat.lt_or_eq_of_le upTo with below | rfl
      · exact (before j below).1
      · exact back
    have onward : ∀ j < k, capId config (pointerAt config j) ≠ 3 ∧ pointerAt config (j + 1) ≠ 0 :=
      fun j below => (before j below).2
    rw [getVPDCap_succ, if_neg back] at ended
    by_cases vpd : capId config (pointerAt config k) = 3
    · rw [if_pos vpd] at ended
      cases ended
      exact Or.inl ⟨k, ⟨away, onward, Or.inl vpd⟩, (if_pos vpd).symm⟩
    rw [if_neg vpd] at ended
    by_cases last : nextPointer config (pointerAt config k) = 0
    · rw [if_pos last] at ended
      cases ended
      exact Or.inl ⟨k, ⟨away, onward, Or.inr last⟩, (if_neg vpd).symm⟩
    rw [if_neg last] at ended
    have further : ∀ j < k + 1, pointerAt config j ≠ 0x34 ∧
        capId config (pointerAt config j) ≠ 3 ∧ pointerAt config (j + 1) ≠ 0 := by
      intro j below
      rcases Nat.lt_or_eq_of_le (Nat.le_of_lt_succ below) with below | rfl
      · exact before j below
      · exact ⟨back, vpd, last⟩
    rcases inductionHypothesis further ended with stopped | ⟨less, upTo, again⟩
    · exact Or.inl stopped
    · exact Or.inr ⟨less, by omega, again⟩

/-- What ends has stopped. -/
theorem stopsAt_of_getVPDCap (depth : Nat)
    (ended : getVPDCap config depth 0x34 = some cappointer) :
    ∃ n, StopsAt config n ∧ cappointer = stopValue config n := by
  induction depth using Nat.strongRecOn with
  | ind depth inductionHypothesis =>
    cases depth with
    | zero => cases ended
    | succ depth =>
      rw [getVPDCap_succ, if_pos rfl] at ended
      have none : ∀ j < 0, pointerAt config j ≠ 0x34 ∧ capId config (pointerAt config j) ≠ 3 ∧
          pointerAt config (j + 1) ≠ 0 := fun j below => absurd below (Nat.not_lt_zero j)
      rcases @stopsAt_or_again config cappointer depth 0 none ended with
        stopped | ⟨less, upTo, again⟩
      · exact stopped
      · exact inductionHypothesis less (by omega) again

/-- The search returns a pointer exactly if it stops with it. -/
theorem getVPDCap_iff :
    (∃ depth, getVPDCap config depth 0x34 = some cappointer) ↔
      ∃ n, StopsAt config n ∧ cappointer = stopValue config n := by
  constructor
  · rintro ⟨depth, ended⟩
    exact stopsAt_of_getVPDCap depth ended
  · rintro ⟨n, stops, rfl⟩
    refine ⟨n + 1 + 1, ?_⟩
    rw [getVPDCap_succ, if_pos rfl]
    exact getVPDCap_pointerAt stops 0 (Nat.zero_le n)

/-- There is one place to stop. -/
theorem StopsAt.unique {m : Nat} (stops : StopsAt config n) (other : StopsAt config m) : n = m := by
  have first : ∀ {a b : Nat}, StopsAt config a → StopsAt config b → ¬ a < b := by
    intro a b one two below
    obtain ⟨noVpd, more⟩ := two.onward a below
    rcases one.last with vpd | ended
    · exact noVpd vpd
    · exact more ended
  have notBefore := first stops other
  have notBehind := first other stops
  omega

/-- The pointers are the list, if it is not empty. -/
theorem onList_pointerAt (nonempty : config 0x34 ≠ 0) {k : Nat}
    (onward : ∀ j < k, pointerAt config (j + 1) ≠ 0) : OnList config (pointerAt config k) := by
  induction k with
  | zero => exact OnList.first nonempty
  | succ k inductionHypothesis =>
    have before := inductionHypothesis (fun j below => onward j (by omega))
    exact OnList.next before (onward k (Nat.lt_succ_self k))

/-- A pointer on the list is reached from its head, and no pointer before it is zero. -/
theorem pointerAt_of_onList {pointer : UInt8} (listed : OnList config pointer) :
    config 0x34 ≠ 0 ∧ ∃ k, pointerAt config k = pointer ∧
      ∀ j < k, pointerAt config (j + 1) ≠ 0 := by
  induction listed with
  | first nonzero => exact ⟨nonzero, 0, rfl, fun j below => absurd below (Nat.not_lt_zero j)⟩
  | next before nonzero inductionHypothesis =>
    obtain ⟨nonempty, k, rfl, onward⟩ := inductionHypothesis
    refine ⟨nonempty, k + 1, rfl, ?_⟩
    intro j below
    rcases Nat.lt_or_eq_of_le (Nat.le_of_lt_succ below) with below | rfl
    · exact onward j below
    · exact nonzero

/-- The list comes to the VPD or to its end. An empty list does not lead to something that looks
like the VPD. -/
def ListGood (config : Memory) : Prop :=
  ∃ n, StopsAt config n ∧
    (config 0x34 = 0 → capId config (pointerAt config n) = 3 → pointerAt config n = 0)

/-- The walk over the capabilities finds the VPD exactly if the list is good. -/
theorem finds_iff : Finds config ↔ ListGood config := by
  constructor
  · rintro ⟨cappointer, ended, sound, -⟩
    obtain ⟨n, stops, rfl⟩ := getVPDCap_iff.mp ended
    refine ⟨n, stops, ?_⟩
    intro empty vpd
    by_contra nonzero
    rw [stopValue, if_pos vpd] at sound
    exact (pointerAt_of_onList (sound nonzero).1).1 empty
  · rintro ⟨n, stops, empty⟩
    refine ⟨stopValue config n, getVPDCap_iff.mpr ⟨n, stops, rfl⟩, ?_, ?_⟩
    · intro nonzero
      rw [stopValue] at nonzero ⊢
      by_cases vpd : capId config (pointerAt config n) = 3
      · rw [if_pos vpd] at nonzero ⊢
        have nonempty : config 0x34 ≠ 0 := fun zero => nonzero (empty zero vpd)
        exact ⟨onList_pointerAt nonempty (fun j below => (stops.onward j below).2), vpd⟩
      · rw [if_neg vpd] at nonzero
        exact absurd rfl nonzero
    · rintro ⟨pointer, listed, vpd⟩
      obtain ⟨nonempty, k, rfl, onward⟩ := pointerAt_of_onList listed
      rw [stopValue]
      by_cases stopped : capId config (pointerAt config n) = 3
      · rw [if_pos stopped]
        cases n with
        | zero => exact nonempty
        | succ n => exact (stops.onward n (Nat.lt_succ_self n)).2
      · have ended := stops.last.resolve_left stopped
        rcases Nat.lt_trichotomy k n with before | rfl | behind
        · exact absurd vpd (stops.onward k before).1
        · exact absurd vpd stopped
        · exact absurd ended (onward n behind)

end Search

section Scan

variable {buffer : Memory} {i place : Nat} {second length : UInt8} {found : Found}

/-- A byte of the buffer is read. -/
theorem readAt_inside (inside : i < 256) : readAt buffer i = .ok (buffer i) := if_pos inside

/-- Behind the buffer the read is a fault. -/
theorem readAt_outside (outside : 256 ≤ i) : readAt buffer i = .error .overflow :=
  if_neg (by omega)

/-- Up to the last two places the comparisons stay inside the buffer. -/
theorem matchesAt_inside (inside : i < 254) :
    matchesAt buffer second length i = .ok (hasItem buffer second length i) := by
  rw [matchesAt, readAt_inside (by omega), readAt_inside (by omega), readAt_inside (by omega)]
  by_cases first : buffer i = 0x56
  · by_cases next : buffer (i + 1) = second
    · simp [hasItem, first, next, bind, Except.bind, pure, Except.pure]
    · simp [hasItem, first, next, bind, Except.bind, pure, Except.pure]
  · simp [hasItem, first, bind, Except.bind, pure, Except.pure]

/-- There they go on behind its end if there is something to compare with. -/
theorem matchesAt_last :
    matchesAt buffer second length 255 =
      if buffer 255 = 0x56 then .error .overflow else .ok false := by
  rw [matchesAt, readAt_inside (by omega), readAt_outside (by omega)]
  by_cases first : buffer 255 = 0x56
  · simp [first, bind, Except.bind]
  · simp [first, bind, Except.bind, pure, Except.pure]

/-- At the last place but one a keyword can begin, and its length is read over the end. -/
theorem matchesAt_beforeLast :
    matchesAt buffer second length 254 =
      if buffer 254 = 0x56 ∧ buffer 255 = second then .error .overflow else .ok false := by
  rw [matchesAt, readAt_inside (by omega), readAt_inside (by omega), readAt_outside (by omega)]
  by_cases first : buffer 254 = 0x56
  · by_cases next : buffer 255 = second
    · simp [first, next, bind, Except.bind]
    · simp [first, next, bind, Except.bind, pure, Except.pure]
  · simp [first, bind, Except.bind, pure, Except.pure]

/-- What is noted for one port. -/
def noted (holds : Bool) (i : Nat) (found : Found) (lanNum : Nat) : Found where
  va := found.va
  place := if holds then Function.update found.place lanNum (i + 3) else found.place

/-- The place of a keyword is noted where it matches. -/
theorem noted_same (holds : Bool) (found : Found) (lanNum : Nat) :
    (noted holds i found lanNum).place lanNum =
      if holds then i + 3 else found.place lanNum := by
  cases holds with
  | false => rfl
  | true => exact Function.update_self lanNum (i + 3) found.place

/-- The places of the other keywords stay. -/
theorem noted_other (holds : Bool) (found : Found) {lanNum other : Nat} (differs : other ≠ lanNum) :
    (noted holds i found lanNum).place other = found.place other := by
  cases holds with
  | false => rfl
  | true => exact Function.update_of_ne differs (i + 3) found.place

/-- Where the bytes can be read a keyword is noted if it matches. -/
theorem notePlace_ok {holds : Bool} {lanNum : Nat}
    (matched : matchesAt buffer (keyword lanNum) 0x0c i = .ok holds) :
    notePlace buffer i found lanNum = .ok (noted holds i found lanNum) := by
  rw [notePlace, matched]
  cases holds with
  | false => rfl
  | true => rfl

/-- The number of the ports is noted where its item matches. -/
theorem noteCount_ok {counts : Bool} (matched : matchesAt buffer 0x41 1 i = .ok counts)
    (room : counts = true → i + 3 < 256) :
    noteCount buffer i found =
      .ok ⟨if counts then (buffer (i + 3)).toUInt32 - 0x30 else found.va, found.place⟩ := by
  rw [noteCount, matched]
  cases counts with
  | false => rfl
  | true =>
    rw [readAt_inside (room rfl)]
    rfl

/-- The comparisons of one place. -/
theorem scanAt_ok {counts : Bool} {holds : Nat → Bool}
    (matched : matchesAt buffer 0x41 1 i = .ok counts) (room : counts = true → i + 3 < 256)
    (places : ∀ lanNum, 1 ≤ lanNum → lanNum ≤ 4 →
      matchesAt buffer (keyword lanNum) 0x0c i = .ok (holds lanNum)) :
    ∃ after, scanAt buffer found i = .ok after ∧
      after.va = (if counts then (buffer (i + 3)).toUInt32 - 0x30 else found.va) ∧
      ∀ lanNum, 1 ≤ lanNum → lanNum ≤ 4 →
        after.place lanNum = if holds lanNum then i + 3 else found.place lanNum := by
  have first := places 1 (by omega) (by omega)
  have second := places 2 (by omega) (by omega)
  have third := places 3 (by omega) (by omega)
  have fourth := places 4 (by omega) (by omega)
  simp only [scanAt, noteCount_ok matched room, notePlace_ok first, notePlace_ok second,
    notePlace_ok third, notePlace_ok fourth, bind, Except.bind]
  refine ⟨_, rfl, rfl, ?_⟩
  intro lanNum above below
  have ports : lanNum = 1 ∨ lanNum = 2 ∨ lanNum = 3 ∨ lanNum = 4 := by omega
  rcases ports with rfl | rfl | rfl | rfl
  · rw [noted_other _ _ (by decide), noted_other _ _ (by decide), noted_other _ _ (by decide),
      noted_same]
  · rw [noted_other _ _ (by decide), noted_other _ _ (by decide), noted_same,
      noted_other _ _ (by decide)]
  · rw [noted_other _ _ (by decide), noted_same, noted_other _ _ (by decide),
      noted_other _ _ (by decide)]
  · rw [noted_same, noted_other _ _ (by decide), noted_other _ _ (by decide),
      noted_other _ _ (by decide)]

/-- The letters behind a `V` that are looked for. -/
def letters : List UInt8 := [0x41, 0x32, 0x33, 0x34, 0x35]

/-- No item begins so close to the end that its comparison goes on behind it. -/
structure Inside (buffer : Memory) : Prop where
  last : buffer 255 ≠ 0x56
  beforeLast : buffer 254 = 0x56 → buffer 255 ∉ letters
  count : hasItem buffer 0x41 1 253 = false

/-- What was found in the places below a bound. -/
structure Noted (buffer : Memory) (bound : Nat) (found : Found) : Prop where
  va : found.va = match lastPlace (hasItem buffer 0x41 1) bound with
    | some i => (buffer (i + 3)).toUInt32 - 0x30
    | none => 0
  place : ∀ lanNum, 1 ≤ lanNum → lanNum ≤ 4 → found.place lanNum =
    match lastPlace (hasItem buffer (keyword lanNum) 0x0c) bound with
    | some i => i + 3
    | none => 0

/-- One place more. -/
theorem scanAt_noted (inside : i < 254) (room : hasItem buffer 0x41 1 i = true → i + 3 < 256)
    (before : Noted buffer i found) :
    ∃ after, scanAt buffer found i = .ok after ∧ Noted buffer (i + 1) after := by
  obtain ⟨after, ran, va, place⟩ := @scanAt_ok buffer i found _
    (fun lanNum => hasItem buffer (keyword lanNum) 0x0c i) (matchesAt_inside inside) room
    (fun lanNum _ _ => matchesAt_inside inside)
  refine ⟨after, ran, ?_, ?_⟩
  · rw [va, before.va, lastPlace]
    split_ifs <;> rfl
  · intro lanNum above below
    rw [place lanNum above below, before.place lanNum above below, lastPlace]
    split_ifs <;> rfl

/-- The places up to the last three. -/
theorem scan_places (bound : Nat) (upTo : bound ≤ 253) :
    ∃ found, (List.range bound).foldlM (scanAt buffer) ⟨0, fun _ => 0⟩ = .ok found ∧
      Noted buffer bound found := by
  induction bound with
  | zero => exact ⟨⟨0, fun _ => 0⟩, rfl, rfl, fun _ _ _ => rfl⟩
  | succ bound inductionHypothesis =>
    obtain ⟨found, ran, noted⟩ := inductionHypothesis (by omega)
    obtain ⟨after, step, next⟩ := scanAt_noted (by omega) (by omega) noted
    refine ⟨after, ?_, next⟩
    rw [List.range_succ, List.foldlM_append, ran]
    simp only [bind, Except.bind, List.foldlM_cons, List.foldlM_nil, step]
    rfl

/-- Nothing is noted at a place where nothing matches. -/
theorem scanAt_nothing (before : Noted buffer 254 found)
    (count : matchesAt buffer 0x41 1 i = .ok false)
    (places : ∀ lanNum, 1 ≤ lanNum → lanNum ≤ 4 →
      matchesAt buffer (keyword lanNum) 0x0c i = .ok false) :
    ∃ after, scanAt buffer found i = .ok after ∧ Noted buffer 254 after := by
  obtain ⟨after, ran, va, place⟩ := @scanAt_ok buffer i found false (fun _ => false) count
    (by simp) places
  refine ⟨after, ran, ?_, ?_⟩
  · rw [va]
    exact before.va
  · intro lanNum above below
    rw [place lanNum above below]
    exact before.place lanNum above below

/-- The keywords of the four ports have letters of their own. -/
theorem keyword_letters {lanNum : Nat} (above : 1 ≤ lanNum) (below : lanNum ≤ 4) :
    keyword lanNum ∈ letters := by
  have ports : lanNum = 1 ∨ lanNum = 2 ∨ lanNum = 3 ∨ lanNum = 4 := by omega
  rcases ports with rfl | rfl | rfl | rfl <;> decide

/-- The loop over the buffer in its two parts. -/
theorem scan_parts :
    scan buffer = (List.range 253).foldlM (scanAt buffer) ⟨0, fun _ => 0⟩ >>= fun found =>
      scanAt buffer found 253 >>= fun found =>
        scanAt buffer found 254 >>= fun found => scanAt buffer found 255 := by
  have places : List.range 256 = List.range 253 ++ [253, 254, 255] := by
    rw [List.range_succ, List.range_succ, List.range_succ, List.append_assoc, List.append_assoc]
    rfl
  rw [scan, places, List.foldlM_append]
  simp only [List.foldlM_cons, List.foldlM_nil, bind_pure]

/-- A loop that stays inside notes every item. -/
theorem scan_inside (inside : Inside buffer) :
    ∃ found, scan buffer = .ok found ∧ Noted buffer 254 found := by
  obtain ⟨found, ran, noted⟩ := @scan_places buffer 253 (Nat.le_refl _)
  obtain ⟨later, third, noted⟩ := @scanAt_noted buffer 253 found (by omega)
    (fun counts => absurd (counts.symm.trans inside.count) (by decide)) noted
  have beforeLast : ∀ second ∈ letters, ∀ length,
      matchesAt buffer second length 254 = .ok false := by
    intro second letter length
    rw [matchesAt_beforeLast, if_neg]
    rintro ⟨first, same⟩
    exact inside.beforeLast first (same ▸ letter)
  have last : ∀ second length, matchesAt buffer second length 255 = .ok false := by
    intro second length
    rw [matchesAt_last, if_neg inside.last]
  obtain ⟨next, second, noted⟩ := scanAt_nothing noted (beforeLast 0x41 (by decide) 1)
    (fun lanNum above below => beforeLast _ (keyword_letters above below) _)
  obtain ⟨after, first, noted⟩ := scanAt_nothing noted (last 0x41 1)
    (fun lanNum _ _ => last _ _)
  refine ⟨after, ?_, noted⟩
  rw [scan_parts, ran]
  simp only [bind, Except.bind, third, second, first]

/-- A round that ends has read the three bytes of the keyword. -/
theorem notePlace_matches {after : Found} {lanNum : Nat}
    (ran : notePlace buffer i found lanNum = .ok after) :
    ∃ holds, matchesAt buffer (keyword lanNum) 0x0c i = .ok holds := by
  obtain ⟨holds, matched, -⟩ := Checked.bind_ok ran
  exact ⟨holds, matched⟩

/-- A round that ends has read the item of the number, and its digit where it matches. -/
theorem noteCount_matches {after : Found} (ran : noteCount buffer i found = .ok after) :
    ∃ counts, matchesAt buffer 0x41 1 i = .ok counts ∧ (counts = true → i + 3 < 256) := by
  obtain ⟨counts, matched, rest⟩ := Checked.bind_ok ran
  refine ⟨counts, matched, ?_⟩
  rintro rfl
  rw [if_pos rfl] at rest
  obtain ⟨char, read, -⟩ := Checked.bind_ok rest
  by_contra outside
  rw [readAt_outside (by omega)] at read
  cases read

/-- The comparisons of a place that stays inside. -/
theorem scanAt_matches {after : Found} (ran : scanAt buffer found i = .ok after) :
    (∃ counts, matchesAt buffer 0x41 1 i = .ok counts ∧ (counts = true → i + 3 < 256)) ∧
      ∀ letter ∈ letters, ∃ length holds, matchesAt buffer letter length i = .ok holds := by
  obtain ⟨counted, count, ran⟩ := Checked.bind_ok ran
  obtain ⟨one, first, ran⟩ := Checked.bind_ok ran
  obtain ⟨two, second, ran⟩ := Checked.bind_ok ran
  obtain ⟨three, third, fourth⟩ := Checked.bind_ok ran
  have counts := noteCount_matches count
  refine ⟨counts, ?_⟩
  intro letter member
  simp only [letters, List.mem_cons, List.not_mem_nil, or_false] at member
  rcases member with rfl | rfl | rfl | rfl | rfl
  · obtain ⟨holds, matched, -⟩ := counts
    exact ⟨_, _, matched⟩
  · exact ⟨_, notePlace_matches first⟩
  · exact ⟨_, notePlace_matches second⟩
  · exact ⟨_, notePlace_matches third⟩
  · exact ⟨_, notePlace_matches fourth⟩

/-- A loop that ends has stayed inside. -/
theorem inside_of_scan (ran : scan buffer = .ok found) : Inside buffer := by
  rw [scan_parts] at ran
  obtain ⟨before, -, ran⟩ := Checked.bind_ok ran
  obtain ⟨one, third, ran⟩ := Checked.bind_ok ran
  obtain ⟨two, second, first⟩ := Checked.bind_ok ran
  obtain ⟨⟨counts, count, room⟩, -⟩ := scanAt_matches third
  refine ⟨?_, ?_, ?_⟩
  · intro letterV
    obtain ⟨length, holds, matched⟩ := (scanAt_matches first).2 0x41 (by decide)
    rw [matchesAt_last, if_pos letterV] at matched
    cases matched
  · intro letterV member
    obtain ⟨length, holds, matched⟩ := (scanAt_matches second).2 (buffer 255) member
    rw [matchesAt_beforeLast, if_pos ⟨letterV, rfl⟩] at matched
    cases matched
  · rw [matchesAt_inside (by omega)] at count
    cases count
    by_contra counts
    exact absurd (room (by simpa using counts)) (by omega)

end Scan

section Digits

variable {source : Memory}

/-- A digit is converted to its value. -/
theorem hexDigit_toNat {char : UInt8} (digit : isUpperHex char) :
    (hexDigit char).toNat = hexValue char ∧ hexValue char < 16 := by
  simp only [isUpperHex, Bool.or_eq_true, Bool.and_eq_true, decide_eq_true_eq] at digit
  unfold hexDigit hexValue
  rcases digit with ⟨above, below⟩ | ⟨above, below⟩
  · rw [if_pos ⟨above, below⟩, if_pos below, UInt8.toNat_sub_of_le _ _ above]
    have upTo : char.toNat ≤ 0x39 := UInt8.le_iff_toNat_le.mp below
    have zero : (0x30 : UInt8).toNat = 0x30 := rfl
    rw [zero]
    omega
  · have notDecimal : ¬ char ≤ 0x39 := by
      intro small
      exact absurd (UInt8.le_trans above small) (by decide)
    have reaches : (0x37 : UInt8) ≤ char := UInt8.le_trans (by decide) above
    have upTo : char.toNat ≤ 0x46 := UInt8.le_iff_toNat_le.mp below
    have atLeast : 0x41 ≤ char.toNat := UInt8.le_iff_toNat_le.mp above
    have offset : (0x37 : UInt8).toNat = 0x37 := rfl
    rw [if_neg (fun decimal => notDecimal decimal.2), if_pos ⟨above, below⟩, if_neg notDecimal,
      UInt8.toNat_sub_of_le _ _ reaches, offset]
    omega

/-- Two digits make a byte. -/
theorem joined_digits {high low : UInt8} (one : high.toNat < 16) (two : low.toNat < 16) :
    high <<< (4 : UInt8) ||| low = UInt8.ofNat (16 * high.toNat + low.toNat) := by
  have four : (4 : UInt8).toNat % 8 = 4 := rfl
  have joined := Nat.shiftLeft_add_eq_or_of_lt (i := 4) two high.toNat
  rw [← UInt8.toNat_inj, UInt8.toNat_or, UInt8.toNat_shiftLeft, UInt8.toNat_ofNat', four,
    Nat.mod_eq_of_lt (by rw [Nat.shiftLeft_eq]; omega), ← joined, Nat.shiftLeft_eq]
  omega

/-- Digits that lie inside the buffer are converted. -/
theorem convertASCII2HEX_inside (count ioff : Nat) (inside : ioff + 2 * count ≤ 256) :
    convertASCII2HEX source count ioff =
      .ok ((List.range count).map fun i =>
        hexDigit (source (ioff + 2 * i)) <<< (4 : UInt8) |||
          hexDigit (source (ioff + 2 * i + 1))) := by
  induction count generalizing ioff with
  | zero => rfl
  | succ count inductionHypothesis =>
    rw [convertASCII2HEX, readAt_inside (by omega), readAt_inside (by omega),
      inductionHypothesis (ioff + 2) (by omega), List.range_succ_eq_map, List.map_cons,
      List.map_map]
    simp only [bind, Except.bind, pure, Except.pure]
    congr 1
    congr 1
    apply List.map_congr_left
    intro i _
    have next : ioff + 2 + 2 * i = ioff + 2 * (i + 1) := by omega
    simp only [Function.comp_apply, next]

/-- As many bytes are converted as were asked for. -/
theorem convertASCII2HEX_length {count ioff : Nat} {bytes : List UInt8}
    (ran : convertASCII2HEX source count ioff = .ok bytes) : bytes.length = count := by
  induction count generalizing ioff bytes with
  | zero =>
    cases ran
    rfl
  | succ count inductionHypothesis =>
    obtain ⟨high, -, ran⟩ := Checked.bind_ok ran
    obtain ⟨low, -, ran⟩ := Checked.bind_ok ran
    obtain ⟨rest, converted, last⟩ := Checked.bind_ok ran
    cases last
    rw [List.length_cons, inductionHypothesis converted]

end Digits

section Proof

variable {buffer : Memory} {lanNum : UInt16} {card : LanCard}

/-- The number of addresses that the VPD says it has. -/
def macCount (buffer : Memory) : UInt32 :=
  match itemPlace buffer 0x41 1 with
  | some place => (buffer (place + 3)).toUInt32 - 0x30
  | none => 0

/-- The VPD counts a port exactly if it has the item of the port. -/
structure Sound (buffer : Memory) (lanNum : UInt16) : Prop where
  inside : Inside buffer
  counts : (1 ≤ lanNum ∧ lanNum ≤ 4 ∧ lanNum.toUInt32 ≤ macCount buffer) ↔
    ∃ place, HoldsMac buffer lanNum place

/-- The address that comes of a buffer is the one in its item. -/
def Reads (buffer : Memory) (lanNum : UInt16) (lanMacAddress : Memory) : Prop :=
  ∃ after, macFromBuffer buffer lanNum lanMacAddress = .ok after ∧
    Becomes buffer lanNum lanMacAddress after

/-- The part that is converted, for a port that the VPD counts. -/
theorem macFromBuffer_asked {found : Found} {lanMacAddress : Memory} (ran : scan buffer = .ok found)
    (asked : 1 ≤ lanNum ∧ lanNum ≤ 4 ∧ lanNum.toUInt32 ≤ found.va) :
    macFromBuffer buffer lanNum lanMacAddress =
      (convertASCII2HEX buffer 6 (found.place lanNum.toNat)).map fun bytes =>
        overlay bytes.length (memoryOf bytes lanMacAddress) lanMacAddress := by
  rw [macFromBuffer, ran]
  simp only [bind, Except.bind]
  rw [if_pos asked]
  cases convertASCII2HEX buffer 6 (found.place lanNum.toNat) <;> rfl

/-- For a port that the card does not count the address stays. -/
theorem macFromBuffer_other {found : Found} {lanMacAddress : Memory} (ran : scan buffer = .ok found)
    (other : ¬ (1 ≤ lanNum ∧ lanNum ≤ 4 ∧ lanNum.toUInt32 ≤ found.va)) :
    macFromBuffer buffer lanNum lanMacAddress = .ok lanMacAddress := by
  rw [macFromBuffer, ran]
  simp only [bind, Except.bind]
  rw [if_neg other]
  rfl

/-- The four ports, by their numbers. -/
theorem port_toNat (port : 1 ≤ lanNum ∧ lanNum ≤ 4) : 1 ≤ lanNum.toNat ∧ lanNum.toNat ≤ 4 :=
  ⟨UInt16.le_iff_toNat_le.mp port.1, UInt16.le_iff_toNat_le.mp port.2⟩

/-- The digits of an item are converted to the bytes it writes. -/
theorem convertASCII2HEX_item {place : Nat} (holds : HoldsMac buffer lanNum place) :
    convertASCII2HEX buffer 6 (place + 3) = .ok ((List.range 6).map (macByte buffer place)) := by
  have inside := holds.inside
  rw [convertASCII2HEX_inside 6 (place + 3) (by omega)]
  congr 1
  apply List.map_congr_left
  intro i member
  have below := List.mem_range.mp member
  obtain ⟨high, highSmall⟩ := hexDigit_toNat (holds.digits (2 * i) (by omega))
  obtain ⟨low, lowSmall⟩ := hexDigit_toNat (holds.digits (2 * i + 1) (by omega))
  rw [← Nat.add_assoc] at low lowSmall
  rw [joined_digits (by omega) (by omega), high, low, macByte]

/-- There is one item of a port that counts. -/
theorem HoldsMac.unique {place other : Nat} (holds : HoldsMac buffer lanNum place)
    (again : HoldsMac buffer lanNum other) : place = other :=
  Option.some.inj (holds.item.symm.trans again.item)

/-- An item with its digits is read. -/
theorem reads_of_sound (sound : Sound buffer lanNum) (lanMacAddress : Memory) :
    Reads buffer lanNum lanMacAddress := by
  obtain ⟨found, ran, noted⟩ := scan_inside sound.inside
  have counted : found.va = macCount buffer := noted.va
  by_cases asked : 1 ≤ lanNum ∧ lanNum ≤ 4 ∧ lanNum.toUInt32 ≤ found.va
  · obtain ⟨place, holds⟩ := sound.counts.mp (counted ▸ asked)
    obtain ⟨above, below⟩ := port_toNat holds.port
    have item : itemPlace buffer (keyword lanNum.toNat) 0x0c = some place := holds.item
    rw [itemPlace] at item
    have read := @macFromBuffer_asked buffer lanNum found lanMacAddress ran asked
    rw [noted.place _ above below, item, convertASCII2HEX_item holds] at read
    refine ⟨_, read, ?_, fun missing => absurd ⟨place, holds⟩ missing⟩
    intro other again i six
    obtain rfl := holds.unique again
    have length : ((List.range 6).map (macByte buffer place)).length = 6 := by simp
    beta_reduce
    rw [overlay_inside (by omega), memoryOf, List.getElem?_map, List.getElem?_range six]
    rfl
  · refine ⟨lanMacAddress, macFromBuffer_other ran asked, ?_, fun _ _ _ => rfl⟩
    intro place holds
    exact absurd (counted ▸ sound.counts.mpr ⟨place, holds⟩) asked

/-- What is converted is compared with an address that differs from it, and an item that is there
with one that differs from the item: so a port is counted exactly if its item is there. -/
theorem sound_of_reads (reads : ∀ lanMacAddress, Reads buffer lanNum lanMacAddress) :
    Sound buffer lanNum := by
  obtain ⟨after, ran, -⟩ := reads (fun _ => 0)
  obtain ⟨found, ran, -⟩ := Checked.bind_ok ran
  have inside := inside_of_scan ran
  obtain ⟨same, again, noted⟩ := scan_inside inside
  cases ran.symm.trans again
  have counted : found.va = macCount buffer := noted.va
  refine ⟨inside, ?_⟩
  rw [← counted]
  constructor
  · intro asked
    by_contra missing
    cases converted : convertASCII2HEX buffer 6 (found.place lanNum.toNat) with
    | error fault =>
      obtain ⟨after, read, -⟩ := reads (fun _ => 0)
      rw [macFromBuffer_asked ran asked, converted] at read
      cases read
    | ok bytes =>
      have six := convertASCII2HEX_length converted
      obtain ⟨after, read, becomes⟩ := reads (fun i => bytes.getD i 0 + 1)
      rw [macFromBuffer_asked ran asked, converted] at read
      cases read
      have first := becomes.kept missing 0 (by omega)
      beta_reduce at first
      rw [overlay_inside (by omega), memoryOf, List.getElem?_eq_getElem (by omega),
        Option.getD_some, List.getD_eq_getElem?_getD, List.getElem?_eq_getElem (by omega),
        Option.getD_some] at first
      have one : (1 : UInt8) = 0 := by
        rw [← UInt8.add_right_inj bytes[0], UInt8.add_zero]
        exact first.symm
      exact absurd one (by decide)
  · rintro ⟨place, holds⟩
    by_contra uncounted
    obtain ⟨after, read, becomes⟩ := reads (fun i => macByte buffer place i + 1)
    rw [macFromBuffer_other ran uncounted] at read
    cases read
    have first := becomes.read place holds 0 (by omega)
    have one : (1 : UInt8) = 0 := by
      rw [← UInt8.add_right_inj (macByte buffer place 0), UInt8.add_zero]
      exact first
    exact absurd one (by decide)

/-- A card's VPD is found, and the address of a port read, exactly if the list of capabilities comes
to the VPD or its end, an empty list does not seem to lead to a VPD, no item begins at the very
end of the VPD, and the VPD counts the port exactly if the item of the port is there with its
twelve digits. -/
theorem finds_mac_iff (card : LanCard) (lanNum : UInt16) :
    Lawful card lanNum ↔ ListGood card.config ∧
      ∀ n, StopsAt card.config n → stopValue card.config n ≠ 0 →
        Sound (card.vpd (stopValue card.config n)) lanNum := by
  constructor
  · rintro ⟨finds, changes⟩
    refine ⟨finds_iff.mp finds, ?_⟩
    intro n stops found
    obtain ⟨depth, ended⟩ := getVPDCap_iff.mpr ⟨n, stops, rfl⟩
    apply sound_of_reads
    intro lanMacAddress
    obtain ⟨after, read, becomes, -⟩ := changes depth _ ended lanMacAddress
    rw [smcGetMacFrVpd, ended, Option.map_some, if_pos found] at read
    exact ⟨after, Option.some.inj read, becomes found⟩
  · rintro ⟨good, sound⟩
    refine ⟨finds_iff.mpr good, ?_⟩
    intro depth cappointer ended lanMacAddress
    obtain ⟨n, stops, rfl⟩ := stopsAt_of_getVPDCap depth ended
    rw [smcGetMacFrVpd, ended, Option.map_some]
    by_cases found : stopValue card.config n ≠ 0
    · obtain ⟨after, read, becomes⟩ := reads_of_sound (sound n stops found) lanMacAddress
      rw [if_pos found, read]
      exact ⟨after, rfl, fun _ => becomes, fun none => absurd none found⟩
    · rw [if_neg found]
      exact ⟨lanMacAddress, rfl, fun some => absurd some found, fun _ _ _ => rfl⟩

/-- A card with the VPD as its only capability, in which an address is counted that is missing. -/
def countOnly : LanCard where
  config i := if i = 0x34 then 0x40 else if i = 0x40 then 3 else 0
  vpd _ := memoryOf [0x56, 0x41, 1, 0x31] (fun _ => 0)

/-- The first bytes of the VPD are taken for the address. -/
theorem not_every_mac : ¬ ∀ card lanNum, Lawful card lanNum := by
  intro always
  have ended : getVPDCap countOnly.config 2 0x34 = some 0x40 := by decide +kernel
  have sound : Sound (countOnly.vpd 0x40) 1 := by
    apply sound_of_reads
    intro lanMacAddress
    obtain ⟨after, read, becomes, -⟩ := (always countOnly 1).changes 2 0x40 ended lanMacAddress
    rw [smcGetMacFrVpd, ended, Option.map_some, if_pos (by decide)] at read
    exact ⟨after, Option.some.inj read, becomes (by decide)⟩
  obtain ⟨place, holds⟩ := sound.counts.mp (by decide +kernel)
  have missing : itemPlace (countOnly.vpd 0x40) (keyword 1) 0x0c = none := by decide +kernel
  cases missing.symm.trans holds.item

end Proof

end SmcPkg.VpdMac
