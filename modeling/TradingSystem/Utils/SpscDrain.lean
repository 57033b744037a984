import TradingSystem.Lib.Run
import TradingSystem.Utils.SpscThreads

/-!
# When a queue drains

Whole pushes and pops, as `Logger::pushVal` and `Logger::flushQueue` make them: a push waits while
`size()` has reached the capacity, a pop is made of the element that `getNextRead` returns. That function
takes equal indices for an empty queue, also when the count says that the queue is full. A queue that has
room left hands out its oldest element; a full one hands out nothing, and neither thread goes on
(`run_drains_iff`, `full_waits`). Whole pushes and pops are what the two threads do when neither comes in
between (`exists_threads`).
-/

namespace TradingSystem

/-- A queue and what went through it. -/
structure SpscHistory (T : Type) where
  queue : SpscQueue T
  /-- what was pushed, oldest first -/
  pushed : List T
  /-- what was popped, oldest first -/
  popped : List T

namespace SpscHistory

variable {T : Type}

inductive Operation (T : Type) where
  | push (v : T)
  | pop

/-- Why an operation is not made. -/
inductive Stop where
  /-- the thread waits -/
  | waits
  | fault (f : Fault)
  deriving DecidableEq

def init (numEl : Nat) (default : T) : SpscHistory T := ⟨.init numEl default, [], []⟩

def step (s : SpscHistory T) : Operation T → Except Stop (SpscHistory T)
  | .push v =>
    if s.queue.numElements ≥ s.queue.numEl then .error .waits
    else .ok { s with queue := (s.queue.writeNext v).updateNextWrite, pushed := s.pushed ++ [v] }
  | .pop =>
    match s.queue.getNextRead with
    | none => .error .waits
    | some p =>
      match s.queue.updateNextRead with
      | .ok queue => .ok { s with queue := queue, popped := s.popped ++ [s.queue.store p] }
      | .error f => .error (.fault f)

/-- While there are elements, `getNextRead` returns the oldest that is unread. -/
def HandsOut (s : SpscHistory T) : Prop :=
  0 < s.queue.numElements → ∃ p, s.queue.getNextRead = some p ∧
    (s.pushed.drop s.popped.length).head? = some (s.queue.store p)

/-- The producer waits for room while the consumer finds nothing to read. -/
def Blocked (s : SpscHistory T) : Prop :=
  s.queue.numElements ≥ s.queue.numEl ∧ s.queue.getNextRead = none

/-- The ring holds what was pushed and not popped. -/
structure Holds (s : SpscHistory T) : Prop where
  ring : s.queue.Ring
  readIdx : s.queue.nextReadIdx = s.popped.length % s.queue.numEl
  count : s.popped.length + s.queue.numElements = s.pushed.length
  slots : ∀ i v, s.popped.length ≤ i → s.pushed[i]? = some v →
    s.queue.store (i % s.queue.numEl) = v

variable {s s' : SpscHistory T} {ops : List (Operation T)} {op : Operation T}

theorem holds_init {numEl : Nat} (hnumEl : 1 ≤ numEl) (default : T) :
    (init numEl default).Holds where
  ring := SpscQueue.ring_init hnumEl _
  readIdx := (Nat.zero_mod _).symm
  count := rfl
  slots := by
    intro i v _ hv
    cases hv

namespace Holds

theorem writeIdx (h : s.Holds) : s.queue.nextWriteIdx = s.pushed.length % s.queue.numEl := by
  rw [h.ring.write_eq, h.readIdx, Nat.mod_add_mod, h.count]

theorem push (h : s.Holds) (hroom : s.queue.numElements < s.queue.numEl) (v : T) :
    Holds { s with
      queue := (s.queue.writeNext v).updateNextWrite, pushed := s.pushed ++ [v] } where
  ring := (h.ring.writeNext v).updateNextWrite hroom
  readIdx := h.readIdx
  count := by
    have hcount := h.count
    show s.popped.length + (s.queue.numElements + 1) = (s.pushed ++ [v]).length
    rw [List.length_append, List.length_singleton]
    omega
  slots := by
    intro i x hi hx
    have hcount := h.count
    show Function.update s.queue.store s.queue.nextWriteIdx v (i % s.queue.numEl) = x
    rw [h.writeIdx]
    rcases Nat.lt_trichotomy i s.pushed.length with hlt | rfl | hgt
    · -- an older element is in another slot
      have hne := SpscQueue.slot_ne_slot (n := s.queue.numEl) hlt (by dsimp only at hi; omega)
      rw [Function.update_of_ne hne]
      apply h.slots i x hi
      rwa [List.getElem?_append_left hlt] at hx
    · rw [Function.update_self]
      rw [List.getElem?_concat_length] at hx
      exact Option.some.inj hx
    · rw [List.getElem?_eq_none (by simp; omega)] at hx
      cases hx

theorem pop (h : s.Holds) {queue : SpscQueue T} (hok : s.queue.updateNextRead = .ok queue) (x : T) :
    Holds { s with queue := queue, popped := s.popped ++ [x] } := by
  obtain ⟨hring, hpos, hcount', hread, hstore, hnumEl⟩ := h.ring.updateNextRead hok
  have hcount := h.count
  refine ⟨hring, ?_, ?_, ?_⟩
  · show queue.nextReadIdx = (s.popped ++ [x]).length % queue.numEl
    rw [hread, h.readIdx, hnumEl, Nat.mod_add_mod, List.length_append, List.length_singleton]
  · show (s.popped ++ [x]).length + queue.numElements = s.pushed.length
    rw [List.length_append, List.length_singleton]
    omega
  · intro i v hi hv
    dsimp only at hi hv ⊢
    rw [List.length_append, List.length_singleton] at hi
    rw [hstore, hnumEl]
    exact h.slots i v (by omega) hv

/-- **Step lemma.** -/
theorem step (h : s.Holds) (hok : s.step op = .ok s') : s'.Holds := by
  unfold SpscHistory.step at hok
  split at hok
  · next v =>
    split at hok
    · cases hok
    · next hroom =>
      obtain rfl := Except.ok.inj hok
      exact h.push (Nat.lt_of_not_le hroom) v
  · split at hok
    · cases hok
    · split at hok
      · next hpop =>
        obtain rfl := Except.ok.inj hok
        exact h.pop hpop _
      · cases hok

/-- With an element to read and room for another, the indices differ, and the oldest element is in the
slot of the read index. -/
theorem handsOut (h : s.Holds) (hroom : s.queue.numElements < s.queue.numEl) : s.HandsOut := by
  intro hpos
  have hcount := h.count
  refine ⟨s.queue.nextReadIdx, ?_, ?_⟩
  · unfold SpscQueue.getNextRead
    rw [if_neg]
    rintro (hzero | hidx)
    · omega
    · exact h.ring.write_ne_read hpos hroom hidx.symm
  · have hlt : s.popped.length < s.pushed.length := by omega
    rw [List.head?_drop, List.getElem?_eq_getElem hlt, h.readIdx]
    exact congrArg some
      (h.slots _ _ (Nat.le_refl _) (List.getElem?_eq_getElem hlt)).symm

/-- In a full queue the indices are equal, which `getNextRead` takes for an empty one. -/
theorem getNextRead_full (h : s.Holds) (hfull : s.queue.numElements ≥ s.queue.numEl) :
    s.queue.getNextRead = none := by
  have heq : s.queue.numElements = s.queue.numEl := Nat.le_antisymm h.ring.count_le hfull
  unfold SpscQueue.getNextRead
  apply if_pos
  right
  rw [h.ring.write_eq, heq, Nat.add_mod_right, Nat.mod_eq_of_lt h.ring.read_lt]

end Holds

/-- **Run lemma.** -/
theorem holds_run {numEl : Nat} (hnumEl : 1 ≤ numEl) {default : T}
    (hrun : ops.foldlM step (init numEl default) = .ok s) : s.Holds := by
  refine run_induction (P := fun _ _ _ => True) (motive := fun _ s => s.Holds)
    (holds_init hnumEl default) ?_ (fun _ _ _ _ _ _ => trivial) hrun
  intro _ _ _ _ _ _ h hok
  exact h.step hok

/-- **When a queue drains**: after any pushes and pops, `getNextRead` returns the oldest unread element,
and the two threads do not wait for each other, exactly if the queue is not full. -/
theorem run_drains_iff {numEl : Nat} (hnumEl : 1 ≤ numEl) {default : T}
    (hrun : ops.foldlM step (init numEl default) = .ok s) :
    s.HandsOut ∧ ¬ s.Blocked ↔ s.queue.numElements < s.queue.numEl := by
  have h := holds_run hnumEl hrun
  constructor
  · rintro ⟨-, hblocked⟩
    by_contra hfull
    rw [Nat.not_lt] at hfull
    exact hblocked ⟨hfull, h.getNextRead_full hfull⟩
  · intro hroom
    exact ⟨h.handsOut hroom, fun hblocked => absurd hroom (Nat.not_lt.mpr hblocked.1)⟩

/-- Three pushes and a pop on four slots. -/
theorem run_drains_room :
    ∃ s, [.push 5, .push 6, .pop, .push 7].foldlM step (init 4 0) = .ok s ∧
      (s.HandsOut ∧ ¬ s.Blocked ↔ s.queue.numElements < s.queue.numEl) := by
  obtain ⟨s, hs⟩ := exists_ok (x := [Operation.push 5, .push 6, .pop, .push 7].foldlM step (init 4 0))
    (by decide)
  exact ⟨s, hs, run_drains_iff (by decide) hs⟩

/-- Two pushes on two slots: neither the one element nor the other is handed out any more. -/
theorem blocked_of_full :
    ∃ s, [.push 5, .push 6].foldlM step (init 2 0) = .ok s ∧ ¬ s.HandsOut ∧ s.Blocked := by
  refine ⟨_, rfl, ?_, by decide, by decide⟩
  intro h
  obtain ⟨p, hp, -⟩ := h (by decide)
  cases hp

/-- **A full queue stays full**: no operation is made on it any more. -/
theorem full_waits (h : s.Holds) (hfull : s.queue.numElements ≥ s.queue.numEl) (op : Operation T) :
    s.step op = .error .waits := by
  cases op with
  | push v => exact if_pos hfull
  | pop =>
    unfold step
    rw [h.getNextRead_full hfull]

/-! ## Operations that the threads make one after the other -/

/-- Both threads are between two operations, of which they have made those of the history. -/
structure Between (s : SpscHistory T) (t : SpscThreads T) : Prop where
  producer : t.producer = .checkSize
  consumer : t.consumer = .loadNumElements
  queue : t.queue = { s.queue with store := some ∘ s.queue.store }
  written : t.written = s.pushed
  read : t.read = s.popped.map some

variable {t : SpscThreads T}

/-- A push is five steps of the producer that the consumer does not come in between. -/
theorem push_alone (hstate : t.producer = .checkSize) (hroom : t.queue.numElements < t.queue.numEl) (v : T) :
    (List.replicate 5 (Turn.producer v)).foldlM SpscThreads.step t =
      .ok { t with
        queue := (t.queue.writeNext (some v)).updateNextWrite, written := t.written ++ [v] } := by
  have hcheck : t.produce v = { t with producer := .startWrite } := by
    unfold SpscThreads.produce
    rw [hstate]
    exact if_neg (Nat.not_le.mpr hroom)
  show Except.ok (((((t.produce v).produce v).produce v).produce v).produce v) = _
  rw [hcheck]
  simp only [SpscThreads.produce, SpscQueue.writeNext, SpscQueue.storeWriteIdx,
    SpscQueue.incrementNumElements, Function.update_idem, ← hstate]
  rfl

/-- A pop is six steps of the consumer. -/
theorem pop_alone (hstate : t.consumer = .loadNumElements) {p : Nat} (hread : t.queue.getNextRead = some p)
    {queue : SpscQueue (Option T)} (hok : t.queue.updateNextRead = .ok queue) :
    (List.replicate 6 Turn.consumer).foldlM SpscThreads.step t =
      .ok { t with queue := queue, read := t.read ++ [t.queue.store p] } := by
  obtain ⟨rfl, hpos⟩ := SpscQueue.getNextRead_eq_some hread
  have hne : t.queue.nextReadIdx ≠ t.queue.nextWriteIdx := by
    intro heq
    unfold SpscQueue.getNextRead at hread
    rw [if_pos (Or.inr heq)] at hread
    cases hread
  have hcount : t.queue.storeReadIdx.numElements ≠ 0 := hpos.ne'
  unfold SpscQueue.updateNextRead at hok
  rw [if_pos hpos.ne'] at hok
  obtain rfl := Except.ok.inj hok
  simp only [List.replicate_succ, List.replicate_zero, List.foldlM_cons, List.foldlM_nil, SpscThreads.step,
    SpscThreads.consume, hstate, if_neg hpos.ne', if_neg hne, if_pos hcount, bind, Except.bind, pure,
    Except.pure]
  rw [← hstate]
  rfl

theorem between_init (numEl : Nat) (default : T) : (init numEl default).Between (.init numEl default) :=
  ⟨rfl, rfl, rfl, rfl, rfl⟩

/-- **Step lemma.** -/
theorem Between.step (h : s.Between t) (hok : s.step op = .ok s') :
    ∃ (turns : List (Turn T)) (t' : SpscThreads T), turns.foldlM SpscThreads.step t = .ok t' ∧
      s'.Between t' := by
  unfold SpscHistory.step at hok
  cases op with
  | push v =>
    dsimp only at hok
    split at hok
    · cases hok
    · next hroom =>
      obtain rfl := Except.ok.inj hok
      have hroom' : t.queue.numElements < t.queue.numEl := by
        rw [h.queue]
        exact Nat.not_le.mp hroom
      refine ⟨_, _, push_alone h.producer hroom' v, h.producer, h.consumer, ?_, ?_, h.read⟩
      · show (t.queue.writeNext (some v)).updateNextWrite = _
        rw [h.queue]
        unfold SpscQueue.writeNext SpscQueue.updateNextWrite
        dsimp only
        rw [Function.comp_update]
      · exact congrArg (· ++ [v]) h.written
  | pop =>
    dsimp only at hok
    split at hok
    · cases hok
    · next p hread =>
      split at hok
      · next queue hqueue =>
        obtain rfl := Except.ok.inj hok
        have hread' : t.queue.getNextRead = some p := by
          rw [h.queue]
          exact hread
        obtain ⟨hcount, hpos⟩ := SpscQueue.getNextRead_eq_some hread
        unfold SpscQueue.updateNextRead at hqueue
        rw [if_pos hpos.ne'] at hqueue
        obtain rfl := Except.ok.inj hqueue
        have hqueue' : t.queue.updateNextRead = .ok { t.queue with
            nextReadIdx := (t.queue.nextReadIdx + 1) % t.queue.numEl
            numElements := t.queue.numElements - 1 } := by
          unfold SpscQueue.updateNextRead
          rw [if_pos]
          rw [h.queue]
          exact hpos.ne'
        refine ⟨_, _, pop_alone h.consumer hread' hqueue', h.producer, h.consumer, ?_, h.written, ?_⟩
        · dsimp only
          rw [h.queue]
        · dsimp only
          rw [h.read, h.queue, List.map_append]
          rfl
      · cases hok

/-- **Every history of operations is a run of the threads.** -/
theorem exists_threads {numEl : Nat} {default : T} (hrun : ops.foldlM step (init numEl default) = .ok s) :
    ∃ (turns : List (Turn T)) (t : SpscThreads T),
      turns.foldlM SpscThreads.step (.init numEl default) = .ok t ∧ s.Between t := by
  refine run_induction (P := fun _ _ _ => True)
    (motive := fun _ s => ∃ (turns : List (Turn T)) (t : SpscThreads T),
      turns.foldlM SpscThreads.step (.init numEl default) = .ok t ∧ s.Between t)
    ⟨[], _, rfl, between_init numEl default⟩ ?_ (fun _ _ _ _ _ _ => trivial) hrun
  rintro ops op s s' - - ⟨turns, t, hturns, h⟩ hok
  obtain ⟨more, t', hmore, h'⟩ := h.step hok
  refine ⟨turns ++ more, t', ?_, h'⟩
  rw [foldlM_append_eq_ok hturns]
  exact hmore

end SpscHistory

end TradingSystem
