import TradingSystem.Utils.Types

/-!
# `spscQueue`: a ring of slots between two threads

`utils/spsc_queue.hpp`. The producer writes through the reference to the next slot and then advances;
the consumer reads through a pointer to a slot and then advances. Neither function that advances looks
at the fill level. A pointer is the index of a slot.
-/

namespace TradingSystem

structure SpscQueue (T : Type) where
  /-- `store_[i]`, for `i` below `numEl` -/
  store : Nat → T
  /-- `store_.size()` -/
  numEl : Nat
  nextReadIdx : Nat
  nextWriteIdx : Nat
  numElements : Nat

namespace SpscQueue

variable {T : Type}

/-- The constructor. -/
def init (numEl : Nat) (default : T) : SpscQueue T where
  store := fun _ => default
  numEl := numEl
  nextReadIdx := 0
  nextWriteIdx := 0
  numElements := 0

/-- Write through the reference that `getNextWrite` returns. -/
def writeNext (q : SpscQueue T) (v : T) : SpscQueue T :=
  { q with store := Function.update q.store q.nextWriteIdx v }

def updateNextWrite (q : SpscQueue T) : SpscQueue T :=
  { q with nextWriteIdx := (q.nextWriteIdx + 1) % q.numEl, numElements := q.numElements + 1 }

def getNextRead (q : SpscQueue T) : Option Nat :=
  if q.numElements = 0 ∨ q.nextReadIdx = q.nextWriteIdx then none else some q.nextReadIdx

def updateNextRead (q : SpscQueue T) : Except Fault (SpscQueue T) :=
  if q.numElements ≠ 0 then
    .ok { q with nextReadIdx := (q.nextReadIdx + 1) % q.numEl, numElements := q.numElements - 1 }
  else .error .assertion

/-- The elements are in the slots from the one to be read next, and as many as counted. -/
structure Ring (q : SpscQueue T) : Prop where
  read_lt : q.nextReadIdx < q.numEl
  count_le : q.numElements ≤ q.numEl
  write_eq : q.nextWriteIdx = (q.nextReadIdx + q.numElements) % q.numEl

variable {q q' : SpscQueue T}

theorem ring_init {numEl : Nat} (h : 0 < numEl) (default : T) : (init numEl default).Ring :=
  ⟨h, Nat.zero_le _, (Nat.zero_mod _).symm⟩

theorem Ring.writeNext (h : q.Ring) (v : T) : (q.writeNext v).Ring := ⟨h.read_lt, h.count_le, h.write_eq⟩

theorem Ring.updateNextWrite (h : q.Ring) (hroom : q.numElements < q.numEl) :
    q.updateNextWrite.Ring := by
  refine ⟨h.read_lt, hroom, ?_⟩
  show (q.nextWriteIdx + 1) % q.numEl = (q.nextReadIdx + (q.numElements + 1)) % q.numEl
  rw [h.write_eq, Nat.mod_add_mod, Nat.add_assoc]

theorem Ring.updateNextRead (h : q.Ring) (hok : q.updateNextRead = .ok q') :
    q'.Ring ∧ 0 < q.numElements ∧ q'.numElements = q.numElements - 1 ∧
      q'.nextReadIdx = (q.nextReadIdx + 1) % q.numEl ∧ q'.store = q.store ∧ q'.numEl = q.numEl := by
  unfold SpscQueue.updateNextRead at hok
  split at hok
  · next hpos =>
    obtain rfl := Except.ok.inj hok
    have hcount := h.count_le
    refine ⟨⟨Nat.mod_lt _ (by omega), by dsimp only; omega, ?_⟩, by omega, rfl, rfl, rfl, rfl⟩
    show q.nextWriteIdx = ((q.nextReadIdx + 1) % q.numEl + (q.numElements - 1)) % q.numEl
    rw [h.write_eq, Nat.mod_add_mod]
    congr 1
    omega
  · cases hok

/-- Slots less than a round apart are different. -/
theorem slot_ne_slot {i j n : Nat} (hij : i < j) (hj : j < i + n) : i % n ≠ j % n := by
  intro heq
  have hzero := Nat.sub_mod_eq_zero_of_mod_eq heq.symm
  rw [Nat.mod_eq_of_lt (by omega)] at hzero
  omega

/-- While there is an element, and room for another, the producer writes another slot than the one to
be read next. -/
theorem Ring.write_ne_read (h : q.Ring) (hpos : 0 < q.numElements) (hroom : q.numElements < q.numEl) :
    q.nextWriteIdx ≠ q.nextReadIdx := by
  have hne := slot_ne_slot (i := q.nextReadIdx) (j := q.nextReadIdx + q.numElements) (n := q.numEl)
    (by omega) (by omega)
  rw [h.write_eq]
  rw [Nat.mod_eq_of_lt h.read_lt] at hne
  exact hne.symm

theorem getNextRead_eq_some {p : Nat} (h : q.getNextRead = some p) :
    p = q.nextReadIdx ∧ 0 < q.numElements := by
  unfold getNextRead at h
  split at h
  · cases h
  · next hne =>
    obtain rfl := Option.some.inj h
    exact ⟨rfl, by omega⟩

end SpscQueue

end TradingSystem
