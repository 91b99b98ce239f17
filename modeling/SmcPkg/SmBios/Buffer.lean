import SmcPkg.RaidOob.Card
import SmcPkg.Lib.Bytes

/-!
# Buffers of a size

A buffer is memory with the size that was allocated. A read or a store outside of it is the fault
`overflow`. What a store leaves is told by the bytes that are there and by the rest, which is as
before, so that stores side by side are one.
-/

namespace SmcPkg.Buffer

open Bytes RaidCmd

section Access

/-- A read of a buffer. -/
def read (size : Nat) (buffer : Memory) (place : Nat) : Checked UInt8 :=
  if place < size then .ok (buffer place) else .error .overflow

/-- A store into a buffer. -/
def write (size : Nat) (buffer : Memory) (place : Nat) (bytes : List UInt8) : Checked Memory :=
  if place + bytes.length ≤ size then
    .ok (overlayAt place bytes.length (memoryOf bytes fun _ => 0) buffer)
  else .error .overflow

variable {size place : Nat} {buffer written : Memory} {bytes more : List UInt8}

/-- A read inside of the buffer succeeds. -/
theorem read_ok (inside : place < size) : read size buffer place = .ok (buffer place) :=
  if_pos inside

/-- Bytes have been stored at a place, and nothing else. -/
structure Wrote (buffer : Memory) (place : Nat) (bytes : List UInt8) (written : Memory) :
    Prop where
  stored : Stored written place bytes
  elsewhere : ∀ i, i < place ∨ place + bytes.length ≤ i → written i = buffer i

/-- So does a write. -/
theorem write_ok (inside : place + bytes.length ≤ size) :
    ∃ written, write size buffer place bytes = .ok written ∧ Wrote buffer place bytes written :=
  ⟨_, if_pos inside, stored_overlayAt rfl, fun _ outside => overlayAt_outside outside⟩

/-- Where nothing is written all stays. -/
theorem Wrote.none : Wrote buffer place [] buffer :=
  ⟨fun i inside => absurd inside (Nat.not_lt_zero i), fun _ _ => rfl⟩

/-- Two stores side by side. -/
theorem Wrote.append {last : Memory} (first : Wrote buffer place bytes written)
    (second : Wrote written (place + bytes.length) more last) :
    Wrote buffer place (bytes ++ more) last := by
  constructor
  · rw [stored_append]
    refine ⟨?_, second.stored⟩
    intro i inside
    rw [second.elsewhere _ (Or.inl (by omega))]
    exact first.stored i inside
  · intro i outside
    rw [List.length_append] at outside
    rw [second.elsewhere i (by omega), first.elsewhere i (by omega)]

end Access

end SmcPkg.Buffer
