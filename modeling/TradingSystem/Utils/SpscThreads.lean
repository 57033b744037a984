import TradingSystem.Lib.Run
import TradingSystem.Utils.SpscQueue

/-!
# `spscQueue` under two threads, one atomic step at a time

The producer of `Logger::pushVal` and the consumer of `Logger::flushQueue`, cut into the single loads and
stores of `utils/spsc_queue.hpp`. Any interleaving of their steps is a run over a list of turns. A slot is
written in two steps and holds nothing in between, so that a read in the middle of a write would show.

The two indices and the count are stored one after the other, so that in between each thread sees them
disagree. `Counts` relates them at every point of both threads to four numbers that only grow: how often
each thread has stored its index and how often it has touched the count.
-/

namespace TradingSystem

namespace SpscQueue

variable {T : Type}

/-! ## The two halves of each update -/

def storeWriteIdx (q : SpscQueue T) : SpscQueue T :=
  { q with nextWriteIdx := (q.nextWriteIdx + 1) % q.numEl }

def incrementNumElements (q : SpscQueue T) : SpscQueue T :=
  { q with numElements := q.numElements + 1 }

def storeReadIdx (q : SpscQueue T) : SpscQueue T :=
  { q with nextReadIdx := (q.nextReadIdx + 1) % q.numEl }

def decrementNumElements (q : SpscQueue T) : SpscQueue T :=
  { q with numElements := q.numElements - 1 }

theorem updateNextWrite_eq (q : SpscQueue T) :
    q.updateNextWrite = q.storeWriteIdx.incrementNumElements := rfl

theorem updateNextRead_eq (q : SpscQueue T) :
    q.updateNextRead =
      if q.numElements ≠ 0 then .ok q.storeReadIdx.decrementNumElements else .error .assertion := rfl

end SpscQueue

/-- What the producer does next. -/
inductive ProducerState (T : Type) where
  | checkSize
  | startWrite
  | finishWrite (v : T)
  | storeWriteIdx
  | increment

/-- What the consumer does next; a pointer is what `getNextRead` returned. -/
inductive ConsumerState where
  | loadNumElements
  | compareIndices
  | readSlot (p : Nat)
  | storeReadIdx (p : Nat)
  | checkNumElements
  | decrement

structure SpscThreads (T : Type) where
  /-- a slot is `none` while it is being written -/
  queue : SpscQueue (Option T)
  producer : ProducerState T
  consumer : ConsumerState
  /-- the values the producer has written, oldest first -/
  written : List T
  /-- what the consumer has read from the slots, oldest first -/
  read : List (Option T)

/-- Whose step is next; the producer has a value to push. -/
inductive Turn (T : Type) where
  | producer (v : T)
  | consumer

namespace SpscThreads

variable {T : Type}

def init (numEl : Nat) (default : T) : SpscThreads T where
  queue := .init numEl (some default)
  producer := .checkSize
  consumer := .loadNumElements
  written := []
  read := []

/-- A step of the producer, which waits while `size()` has reached the capacity. -/
def produce (s : SpscThreads T) (v : T) : SpscThreads T :=
  match s.producer with
  | .checkSize =>
    if s.queue.numElements ≥ s.queue.numEl then s else { s with producer := .startWrite }
  | .startWrite => { s with queue := s.queue.writeNext none, producer := .finishWrite v }
  | .finishWrite v =>
    { s with
      queue := s.queue.writeNext (some v), producer := .storeWriteIdx, written := s.written ++ [v] }
  | .storeWriteIdx => { s with queue := s.queue.storeWriteIdx, producer := .increment }
  | .increment => { s with queue := s.queue.incrementNumElements, producer := .checkSize }

/-- A step of the consumer; it starts over where `getNextRead` returns null. -/
def consume (s : SpscThreads T) : Except Fault (SpscThreads T) :=
  match s.consumer with
  | .loadNumElements =>
    if s.queue.numElements = 0 then .ok s else .ok { s with consumer := .compareIndices }
  | .compareIndices =>
    if s.queue.nextReadIdx = s.queue.nextWriteIdx then .ok { s with consumer := .loadNumElements }
    else .ok { s with consumer := .readSlot s.queue.nextReadIdx }
  | .readSlot p =>
    .ok { s with consumer := .storeReadIdx p, read := s.read ++ [s.queue.store p] }
  | .storeReadIdx _ =>
    .ok { s with queue := s.queue.storeReadIdx, consumer := .checkNumElements }
  | .checkNumElements =>
    if s.queue.numElements ≠ 0 then .ok { s with consumer := .decrement } else .error .assertion
  | .decrement =>
    .ok { s with queue := s.queue.decrementNumElements, consumer := .loadNumElements }

def step (s : SpscThreads T) : Turn T → Except Fault (SpscThreads T)
  | .producer v => .ok (s.produce v)
  | .consumer => s.consume

/-- The consumer holds a pointer to slot `i` and has not given the slot back. -/
def MayRead (s : SpscThreads T) (i : Nat) : Prop :=
  s.consumer = .readSlot i ∨ s.consumer = .storeReadIdx i

/-- The next step of the producer writes slot `i`. -/
def Writes (s : SpscThreads T) (i : Nat) : Prop :=
  (s.producer = .startWrite ∨ ∃ v, s.producer = .finishWrite v) ∧ i = s.queue.nextWriteIdx

/-- **Safety.** What was read is the beginning of what was written, each value whole, and the slot that
the consumer may read is not written. -/
structure Safe (s : SpscThreads T) : Prop where
  inOrder : s.read <+: s.written.map some
  apart : ∀ i, s.MayRead i → ¬ s.Writes i

/-! ## The invariant -/

/-- The producer has stored its index `w` times and counted `c` elements; `d` were given back. -/
def ProducerAt (numEl written w c d : Nat) : ProducerState T → Prop
  | .checkSize => written = w ∧ c = w ∧ w ≤ d + numEl
  | .startWrite => written = w ∧ c = w ∧ w < d + numEl
  | .finishWrite _ => written = w ∧ c = w ∧ w < d + numEl
  | .storeWriteIdx => written = w + 1 ∧ c = w ∧ w < d + numEl
  | .increment => written = w ∧ w = c + 1 ∧ w ≤ d + numEl

/-- The consumer has stored its index `r` times and given back `d` elements; `c` were counted. -/
def ConsumerAt (numEl read r c d : Nat) : ConsumerState → Prop
  | .loadNumElements => read = r ∧ d = r ∧ r ≤ c
  | .compareIndices => read = r ∧ d = r ∧ r < c
  | .readSlot p => read = r ∧ d = r ∧ r < c ∧ p = r % numEl
  | .storeReadIdx p => read = r + 1 ∧ d = r ∧ r < c ∧ p = r % numEl
  | .checkNumElements => read = r ∧ r = d + 1 ∧ r ≤ c
  | .decrement => read = r ∧ r = d + 1 ∧ r ≤ c

/-- The four numbers tell both indices and the count, and which slots hold what. -/
structure Counts (s : SpscThreads T) (w c r d : Nat) : Prop where
  positive : 0 < s.queue.numEl
  writeIdx : s.queue.nextWriteIdx = w % s.queue.numEl
  readIdx : s.queue.nextReadIdx = r % s.queue.numEl
  count : s.queue.numElements + d = c
  producer : ProducerAt s.queue.numEl s.written.length w c d s.producer
  consumer : ConsumerAt s.queue.numEl s.read.length r c d s.consumer
  slots : ∀ i v, r ≤ i → s.written[i]? = some v → s.queue.store (i % s.queue.numEl) = some v
  inOrder : s.read = (s.written.take s.read.length).map some

def Inv (s : SpscThreads T) : Prop := ∃ w c r d, s.Counts w c r d

variable {s s' : SpscThreads T} {w c r d : Nat}

namespace Counts

/-- While the producer may write, its slot is none of those that hold an unread element. -/
theorem slot_ne (h : s.Counts w c r d) (hroom : w < d + s.queue.numEl) {i : Nat} (hi : r ≤ i)
    (hiw : i < w) : i % s.queue.numEl ≠ s.queue.nextWriteIdx := by
  have hdr : d ≤ r := by
    have hconsumer := h.consumer
    unfold ConsumerAt at hconsumer
    split at hconsumer <;> omega
  rw [h.writeIdx]
  exact SpscQueue.slot_ne_slot hiw (by omega)

/-- What the producer writes into its slot leaves the unread elements alone. -/
theorem slots_writeNext (h : s.Counts w c r d) (hroom : w < d + s.queue.numEl)
    (hw : s.written.length = w) (x : Option T) :
    ∀ i v, r ≤ i → s.written[i]? = some v →
      (s.queue.writeNext x).store (i % s.queue.numEl) = some v := by
  intro i v hi hv
  obtain ⟨hlt, -⟩ := List.getElem?_eq_some_iff.mp hv
  show Function.update s.queue.store s.queue.nextWriteIdx x (i % s.queue.numEl) = some v
  rw [Function.update_of_ne (h.slot_ne hroom hi (by omega))]
  exact h.slots i v hi hv

/-- The element the consumer has a pointer to is there, whole. -/
theorem store_next (h : s.Counts w c r d) (hread : s.read.length = r) (hrc : r < c) :
    ∃ v, s.written[s.read.length]? = some v ∧ s.queue.store (r % s.queue.numEl) = some v := by
  have hlt : r < s.written.length := by
    have hproducer := h.producer
    unfold ProducerAt at hproducer
    split at hproducer <;> omega
  refine ⟨s.written[r], ?_, ?_⟩
  · rw [hread]
    exact List.getElem?_eq_getElem hlt
  · exact h.slots r _ (Nat.le_refl r) (List.getElem?_eq_getElem hlt)

/-- What has been read stays the beginning of what is written. -/
theorem inOrder_append (h : s.Counts w c r d) (v : T) :
    s.read = ((s.written ++ [v]).take s.read.length).map some := by
  have hle : s.read.length ≤ s.written.length := by
    have hlen := congrArg List.length h.inOrder
    rw [List.length_map, List.length_take] at hlen
    omega
  rw [List.take_append_of_le_length hle]
  exact h.inOrder

/-- **A step of the producer.** -/
theorem produce (h : s.Counts w c r d) (v : T) : (s.produce v).Inv := by
  have hproducer := h.producer
  unfold SpscThreads.produce
  cases hstate : s.producer with
  | checkSize =>
    rw [hstate] at hproducer
    dsimp only
    split
    · exact ⟨w, c, r, d, h⟩
    · obtain ⟨hlen, hcw, hle⟩ := hproducer
      have hcount := h.count
      have hroom : w < d + s.queue.numEl := by omega
      exact ⟨w, c, r, d, h.positive, h.writeIdx, h.readIdx, h.count, ⟨hlen, hcw, hroom⟩,
        h.consumer, h.slots, h.inOrder⟩
  | startWrite =>
    rw [hstate] at hproducer
    exact ⟨w, c, r, d, h.positive, h.writeIdx, h.readIdx, h.count, hproducer, h.consumer,
      h.slots_writeNext hproducer.2.2 hproducer.1 none, h.inOrder⟩
  | finishWrite x =>
    rw [hstate] at hproducer
    obtain ⟨hlen, hcw, hroom⟩ := hproducer
    refine ⟨w, c, r, d, h.positive, h.writeIdx, h.readIdx, h.count, ⟨?_, hcw, hroom⟩, h.consumer,
      ?_, h.inOrder_append x⟩
    · dsimp only
      rw [List.length_append, hlen, List.length_singleton]
    · intro i v hi hv
      dsimp only at hv ⊢
      by_cases hiw : i = s.written.length
      · subst hiw
        rw [List.getElem?_concat_length] at hv
        show Function.update s.queue.store s.queue.nextWriteIdx (some x)
          (s.written.length % s.queue.numEl) = some v
        rw [h.writeIdx, hlen, Function.update_self]
        exact hv
      · have hlt : i < s.written.length := by
          obtain ⟨hlt, -⟩ := List.getElem?_eq_some_iff.mp hv
          rw [List.length_append, List.length_singleton] at hlt
          omega
        rw [List.getElem?_append_left hlt] at hv
        exact h.slots_writeNext hroom hlen _ i v hi hv
  | storeWriteIdx =>
    rw [hstate] at hproducer
    obtain ⟨hlen, hcw, hroom⟩ := hproducer
    refine ⟨w + 1, c, r, d, h.positive, ?_, h.readIdx, h.count, ⟨hlen, by omega, ?_⟩, h.consumer,
      h.slots, h.inOrder⟩
    · show (s.queue.nextWriteIdx + 1) % s.queue.numEl = (w + 1) % s.queue.numEl
      rw [h.writeIdx, Nat.mod_add_mod]
    · show w + 1 ≤ d + s.queue.numEl
      omega
  | increment =>
    rw [hstate] at hproducer
    obtain ⟨hlen, hwc, hle⟩ := hproducer
    refine ⟨w, c + 1, r, d, h.positive, h.writeIdx, h.readIdx, ?_, ⟨hlen, by omega, hle⟩, ?_, h.slots,
      h.inOrder⟩
    · have hcount := h.count
      show s.queue.numElements + 1 + d = c + 1
      omega
    · -- one more element can only be in the consumer's favour
      have hconsumer := h.consumer
      show ConsumerAt s.queue.numEl s.read.length r (c + 1) d s.consumer
      unfold ConsumerAt at hconsumer ⊢
      split at hconsumer <;> omega

/-- **A step of the consumer**: the assertion of `updateNextRead` holds. -/
theorem consume (h : s.Counts w c r d) : ∃ s', s.consume = .ok s' ∧ s'.Inv := by
  have hconsumer := h.consumer
  have hcount := h.count
  unfold SpscThreads.consume
  cases hstate : s.consumer with
  | loadNumElements =>
    rw [hstate] at hconsumer
    dsimp only
    split
    · exact ⟨s, rfl, w, c, r, d, h⟩
    · obtain ⟨hlen, hdr, hrc⟩ := hconsumer
      exact ⟨_, rfl, w, c, r, d, h.positive, h.writeIdx, h.readIdx, h.count, h.producer,
        ⟨hlen, hdr, by omega⟩, h.slots, h.inOrder⟩
  | compareIndices =>
    rw [hstate] at hconsumer
    obtain ⟨hlen, hdr, hrc⟩ := hconsumer
    dsimp only
    split
    · exact ⟨_, rfl, w, c, r, d, h.positive, h.writeIdx, h.readIdx, h.count, h.producer,
        ⟨hlen, hdr, by omega⟩, h.slots, h.inOrder⟩
    · exact ⟨_, rfl, w, c, r, d, h.positive, h.writeIdx, h.readIdx, h.count, h.producer,
        ⟨hlen, hdr, hrc, h.readIdx⟩, h.slots, h.inOrder⟩
  | readSlot p =>
    rw [hstate] at hconsumer
    obtain ⟨hlen, hdr, hrc, rfl⟩ := hconsumer
    obtain ⟨v, hv, hstore⟩ := h.store_next hlen hrc
    refine ⟨_, rfl, w, c, r, d, h.positive, h.writeIdx, h.readIdx, h.count, h.producer,
      ⟨?_, hdr, hrc, rfl⟩, h.slots, ?_⟩
    · dsimp only
      rw [List.length_append, hlen, List.length_singleton]
    · dsimp only
      rw [List.length_append, List.length_singleton, hstore, List.take_add_one, hv, List.map_append,
        ← h.inOrder]
      rfl
  | storeReadIdx p =>
    rw [hstate] at hconsumer
    obtain ⟨hlen, hdr, hrc, -⟩ := hconsumer
    refine ⟨_, rfl, w, c, r + 1, d, h.positive, h.writeIdx, ?_, h.count, h.producer,
      ⟨hlen, by omega, by omega⟩, ?_, h.inOrder⟩
    · show (s.queue.nextReadIdx + 1) % s.queue.numEl = (r + 1) % s.queue.numEl
      rw [h.readIdx, Nat.mod_add_mod]
    · intro i v hi hv
      exact h.slots i v (by omega) hv
  | checkNumElements =>
    rw [hstate] at hconsumer
    obtain ⟨hlen, hrd, hrc⟩ := hconsumer
    dsimp only
    -- the element being given back is still counted
    rw [if_pos (by omega)]
    exact ⟨_, rfl, w, c, r, d, h.positive, h.writeIdx, h.readIdx, h.count, h.producer,
      ⟨hlen, hrd, hrc⟩, h.slots, h.inOrder⟩
  | decrement =>
    rw [hstate] at hconsumer
    obtain ⟨hlen, hrd, hrc⟩ := hconsumer
    refine ⟨_, rfl, w, c, r, d + 1, h.positive, h.writeIdx, h.readIdx, ?_, ?_,
      ⟨hlen, by omega, hrc⟩, h.slots, h.inOrder⟩
    · show s.queue.numElements - 1 + (d + 1) = c
      omega
    · -- one more free slot can only be in the producer's favour
      have hproducer := h.producer
      show ProducerAt s.queue.numEl s.written.length w c (d + 1) s.producer
      unfold ProducerAt at hproducer ⊢
      split at hproducer <;> omega

/-- **The invariant is safe.** -/
theorem safe (h : s.Counts w c r d) : s.Safe where
  inOrder := by
    rw [h.inOrder]
    exact (List.take_prefix _ _).map some
  apart := by
    intro i hread hwrite
    obtain ⟨hproducer, rfl⟩ := hwrite
    have hroom : w < d + s.queue.numEl ∧ c = w := by
      have hat := h.producer
      rcases hproducer with hstate | ⟨v, hstate⟩ <;>
      · rw [hstate] at hat
        exact ⟨hat.2.2, hat.2.1⟩
    have hslot : r < c ∧ s.queue.nextWriteIdx = r % s.queue.numEl := by
      have hat := h.consumer
      rcases hread with hstate | hstate <;>
      · rw [hstate] at hat
        exact hat.2.2
    have hne := h.slot_ne hroom.1 (Nat.le_refl r) (by omega)
    exact hne hslot.2.symm

end Counts

theorem inv_init {numEl : Nat} (hnumEl : 1 ≤ numEl) (default : T) : (init numEl default).Inv := by
  refine ⟨0, 0, 0, 0, hnumEl, ?_, ?_, rfl, ⟨rfl, rfl, Nat.zero_le _⟩, ⟨rfl, rfl, Nat.le_refl _⟩, ?_,
    rfl⟩
  · exact (Nat.zero_mod _).symm
  · exact (Nat.zero_mod _).symm
  · intro i v _ hv
    cases hv

/-- **Step lemma.** -/
theorem Inv.step (h : s.Inv) (turn : Turn T) : ∃ s', s.step turn = .ok s' ∧ s'.Inv := by
  obtain ⟨w, c, r, d, h⟩ := h
  cases turn with
  | producer v => exact ⟨_, rfl, h.produce v⟩
  | consumer => exact h.consume

/-- **Run lemma.** -/
theorem Inv.run (h : s.Inv) (turns : List (Turn T)) :
    ∃ s', turns.foldlM SpscThreads.step s = .ok s' ∧ s'.Inv := by
  induction turns generalizing s with
  | nil => exact ⟨s, rfl, h⟩
  | cons turn turns ih =>
    obtain ⟨s₁, hstep, h₁⟩ := h.step turn
    obtain ⟨s₂, hrun, h₂⟩ := ih h₁
    refine ⟨s₂, ?_, h₂⟩
    rw [List.foldlM_cons, hstep]
    exact hrun

/-- **The queue is safe** for every capacity and every interleaving: the assertion of `updateNextRead`
never fails, and every state reached is safe. -/
theorem run_safe {numEl : Nat} (hnumEl : 1 ≤ numEl) (default : T) (turns : List (Turn T)) :
    ∃ s, turns.foldlM step (init numEl default) = .ok s ∧ s.Safe := by
  obtain ⟨s, hrun, w, c, r, d, h⟩ := (inv_init hnumEl default).run turns
  exact ⟨s, hrun, Counts.safe h⟩

/-- Two slots: the consumer reads while the producer starts on the other slot. -/
theorem run_safe_two_slots :
    ∃ s, [Turn.producer 7, .producer 7, .producer 7, .producer 7, .consumer, .producer 7, .consumer,
        .consumer, .producer 8, .producer 8, .consumer, .consumer].foldlM step (init 2 0) = .ok s ∧
      s.Safe :=
  run_safe (by decide) 0 _

end SpscThreads

end TradingSystem
