import TradingSystem.Utils.SpscDrain

/-!
# Producers that do not look for room

All producers but the logger write the next slot and advance, whatever the fill level
(`MatchingEngine::sendClientResponse` and `sendMarketUpdate`, `TradeEngine::sendClientRequest`,
`FifoSequencer::sequenceAndPublish`, `OrderGateway::recvCallback`, `MarketDataPublisher::run`,
`MarketDataConsumer`). A producer that is a whole round ahead writes slots that are still to be read, and
the consumer finds a newer element where the oldest should be.

What is read is what was written, in order, exactly in the runs in which nothing is read while as much as
the queue holds is unread (`run_fifo_iff`).

What the consumer finds is told by all that was written and the number of elements that it has read
(`nextRead`), so that a component which writes to a queue need not have its slots as well: it is enough to
have what it has written.
-/

namespace TradingSystem

namespace SpscHistory

variable {T : Type}

/-- A push without a look at `size()`; a pop of what `getNextRead` returns, if it returns something. -/
def uncheckedStep (s : SpscHistory T) : Operation T → Except Fault (SpscHistory T)
  | .push v =>
    .ok { s with queue := (s.queue.writeNext v).updateNextWrite, pushed := s.pushed ++ [v] }
  | .pop =>
    match s.queue.getNextRead with
    | none => .ok s
    | some p => do
      let queue ← s.queue.updateNextRead
      return { s with queue := queue, popped := s.popped ++ [s.queue.store p] }

/-- Nothing is read while as much as the queue holds is unread. -/
def ReadsInTime (s : SpscHistory T) : Operation T → Prop
  | .push _ => True
  | .pop => s.queue.getNextRead ≠ none → s.queue.numElements < s.queue.numEl

/-- The indices count rounds, and the slots hold what was pushed last into them. -/
structure Laps (s : SpscHistory T) : Prop where
  size : 0 < s.queue.numEl
  readIdx : s.queue.nextReadIdx = s.popped.length % s.queue.numEl
  writeIdx : s.queue.nextWriteIdx = s.pushed.length % s.queue.numEl
  count : s.popped.length + s.queue.numElements = s.pushed.length
  slots : ∀ i v, s.pushed.length ≤ i + s.queue.numEl → s.pushed[i]? = some v →
    s.queue.store (i % s.queue.numEl) = v

variable {s s' : SpscHistory T} {ops : List (Operation T)} {op : Operation T}

theorem laps_init {numEl : Nat} (hnumEl : 0 < numEl) (default : T) : (init numEl default).Laps where
  size := hnumEl
  readIdx := (Nat.zero_mod _).symm
  writeIdx := (Nat.zero_mod _).symm
  count := rfl
  slots := by
    intro i v _ hv
    cases hv

/-- A beginning of a list goes on exactly with the next element. -/
theorem concat_prefix_iff {l l' : List T} {x : T} :
    l ++ [x] <+: l' ↔ l <+: l' ∧ l'[l.length]? = some x := by
  constructor
  · rintro ⟨rest, rfl⟩
    rw [List.append_assoc]
    refine ⟨List.prefix_append _ _, ?_⟩
    rw [List.getElem?_append_right (Nat.le_refl _), Nat.sub_self]
    rfl
  · rintro ⟨⟨rest, rfl⟩, hx⟩
    rw [List.getElem?_append_right (Nat.le_refl _), Nat.sub_self] at hx
    cases rest with
    | nil => cases hx
    | cons y rest =>
      obtain rfl := Option.some.inj hx
      exact ⟨rest, by rw [List.append_assoc]; rfl⟩

namespace Laps

theorem push (h : s.Laps) (v : T) :
    Laps { s with queue := (s.queue.writeNext v).updateNextWrite, pushed := s.pushed ++ [v] } where
  size := h.size
  readIdx := h.readIdx
  writeIdx := by
    show (s.queue.nextWriteIdx + 1) % s.queue.numEl = (s.pushed ++ [v]).length % s.queue.numEl
    rw [h.writeIdx, Nat.mod_add_mod, List.length_append, List.length_singleton]
  count := by
    have hcount := h.count
    show s.popped.length + (s.queue.numElements + 1) = (s.pushed ++ [v]).length
    rw [List.length_append, List.length_singleton]
    omega
  slots := by
    intro i x hi hx
    have hsize := h.size
    have hi : (s.pushed ++ [v]).length ≤ i + s.queue.numEl := hi
    rw [List.length_append, List.length_singleton] at hi
    show Function.update s.queue.store s.queue.nextWriteIdx v (i % s.queue.numEl) = x
    rw [h.writeIdx]
    rcases Nat.lt_trichotomy i s.pushed.length with hlt | rfl | hgt
    · -- less than a round before the new element
      have hne := SpscQueue.slot_ne_slot (n := s.queue.numEl) hlt (by omega)
      rw [Function.update_of_ne hne]
      rw [List.getElem?_append_left hlt] at hx
      exact h.slots i x (by omega) hx
    · rw [Function.update_self]
      rw [List.getElem?_concat_length] at hx
      exact Option.some.inj hx
    · rw [List.getElem?_eq_none (by simp; omega)] at hx
      cases hx

theorem pop (h : s.Laps) (hpos : s.queue.numElements ≠ 0) (x : T) :
    Laps { s with
      queue := { s.queue with
        nextReadIdx := (s.queue.nextReadIdx + 1) % s.queue.numEl
        numElements := s.queue.numElements - 1 }
      popped := s.popped ++ [x] } where
  size := h.size
  readIdx := by
    show (s.queue.nextReadIdx + 1) % s.queue.numEl = (s.popped ++ [x]).length % s.queue.numEl
    rw [h.readIdx, Nat.mod_add_mod, List.length_append, List.length_singleton]
  writeIdx := h.writeIdx
  count := by
    have hcount := h.count
    show (s.popped ++ [x]).length + (s.queue.numElements - 1) = s.pushed.length
    rw [List.length_append, List.length_singleton]
    omega
  slots := h.slots

/-- What `getNextRead` points to, when something is unread. -/
theorem getNextRead (h : s.Laps) {p : Nat} (hread : s.queue.getNextRead = some p) :
    p = s.popped.length % s.queue.numEl ∧ 0 < s.queue.numElements ∧
      s.queue.numElements ≠ s.queue.numEl := by
  obtain ⟨hp, hpos⟩ := SpscQueue.getNextRead_eq_some hread
  refine ⟨hp.trans h.readIdx, hpos, ?_⟩
  intro hfull
  -- a round apart the indices are equal, and nothing is handed out
  have heq : s.queue.nextReadIdx = s.queue.nextWriteIdx := by
    rw [h.readIdx, h.writeIdx, ← h.count, hfull, Nat.add_mod_right]
  unfold SpscQueue.getNextRead at hread
  rw [if_pos (Or.inr heq)] at hread
  cases hread

/-- A pop that reads something. -/
theorem uncheckedPop (h : s.Laps) (hok : s.uncheckedStep .pop = .ok s') :
    (s.queue.getNextRead = none ∧ s' = s) ∨
    (s.queue.getNextRead ≠ none ∧ 0 < s.queue.numElements ∧
      s.queue.numElements ≠ s.queue.numEl ∧ s'.Laps ∧ s'.pushed = s.pushed ∧
      s'.popped = s.popped ++ [s.queue.store (s.popped.length % s.queue.numEl)]) := by
  unfold SpscHistory.uncheckedStep at hok
  cases hread : s.queue.getNextRead with
  | none =>
    rw [hread] at hok
    exact Or.inl ⟨rfl, (Except.ok.inj hok).symm⟩
  | some p =>
    obtain ⟨rfl, hpos, hfull⟩ := h.getNextRead hread
    rw [hread] at hok
    unfold SpscQueue.updateNextRead at hok
    dsimp only at hok
    rw [if_pos (Nat.ne_of_gt hpos)] at hok
    obtain rfl := Except.ok.inj hok
    exact Or.inr ⟨nofun, hpos, hfull, h.pop (Nat.ne_of_gt hpos) _, rfl, rfl⟩

/-- **Step lemma.** No operation fails. -/
theorem uncheckedStep (h : s.Laps) (op : Operation T) :
    ∃ s', s.uncheckedStep op = .ok s' ∧ s'.Laps := by
  cases op with
  | push v => exact ⟨_, rfl, h.push v⟩
  | pop =>
    unfold SpscHistory.uncheckedStep
    cases hread : s.queue.getNextRead with
    | none => exact ⟨_, rfl, h⟩
    | some p =>
      obtain ⟨-, hpos, -⟩ := h.getNextRead hread
      unfold SpscQueue.updateNextRead
      dsimp only
      rw [if_pos (Nat.ne_of_gt hpos)]
      exact ⟨_, rfl, h.pop (Nat.ne_of_gt hpos) _⟩

end Laps

/-! ## The queue by what was written -/

theorem pos_of_mod_ne_zero {d n : Nat} (h : d % n ≠ 0) : 0 < d := by
  apply Nat.pos_of_ne_zero
  rintro rfl
  exact h (Nat.zero_mod n)

/-- What a consumer that has read `k` of the elements written finds: nothing where the indices are equal, and
else what was written last into the slot. -/
def nextRead (numEl : Nat) (pushed : List T) (k : Nat) : Option T :=
  if (pushed.length - k) % numEl = 0 then none
  else pushed[k + (pushed.length - k - 1) / numEl * numEl]?

/-- **`getNextRead` finds it.** -/
theorem Laps.nextRead (h : s.Laps) :
    s.queue.getNextRead.map s.queue.store = nextRead s.queue.numEl s.pushed s.popped.length := by
  have hcount := h.count
  have hsize := h.size
  obtain ⟨d, hd⟩ : ∃ d, d = s.pushed.length - s.popped.length := ⟨_, rfl⟩
  have hequal : s.queue.nextReadIdx = s.queue.nextWriteIdx ↔ d % s.queue.numEl = 0 := by
    have hsum : s.pushed.length = d + s.popped.length := by omega
    rw [h.readIdx, h.writeIdx, hsum]
    constructor
    · intro heq
      have hzero := Nat.sub_mod_eq_zero_of_mod_eq heq.symm
      rwa [Nat.add_sub_cancel] at hzero
    · intro hzero
      rw [Nat.add_mod, hzero, Nat.zero_add, Nat.mod_mod]
  unfold SpscHistory.nextRead SpscQueue.getNextRead
  rw [← hd]
  by_cases hzero : d % s.queue.numEl = 0
  · rw [if_pos hzero, if_pos (Or.inr (hequal.mpr hzero)), Option.map_none]
  · have hpos := pos_of_mod_ne_zero hzero
    have hsome : ¬ (s.queue.numElements = 0 ∨ s.queue.nextReadIdx = s.queue.nextWriteIdx) := by
      rintro (hnone | heq)
      · omega
      · exact hzero (hequal.mp heq)
    rw [if_neg hzero, if_neg hsome, Option.map_some, h.readIdx]
    -- the last element that went into the slot
    have hdiv := Nat.div_add_mod' (d - 1) s.queue.numEl
    have hmod := Nat.mod_lt (d - 1) hsize
    have hlt : s.popped.length + (d - 1) / s.queue.numEl * s.queue.numEl < s.pushed.length := by omega
    rw [List.getElem?_eq_getElem hlt]
    have hslot := h.slots _ _ (by omega) (List.getElem?_eq_getElem hlt)
    rw [Nat.add_mul_mod_self_right] at hslot
    exact congrArg some hslot

/-- **What a pop reads.** -/
theorem Laps.nextRead_of_pop (h : s.Laps) (hsome : s.queue.getNextRead ≠ none) :
    SpscHistory.nextRead s.queue.numEl s.pushed s.popped.length =
      some (s.queue.store (s.popped.length % s.queue.numEl)) := by
  obtain ⟨p, hp⟩ := Option.ne_none_iff_exists'.mp hsome
  obtain ⟨rfl, -⟩ := h.getNextRead hp
  rw [← h.nextRead, hp, Option.map_some]

variable {numEl k : Nat} {pushed : List T} {v : T}

/-- **With as much unread as the queue holds at most**, the oldest unread element is found, if anything is. -/
theorem nextRead_of_le (hle : pushed.length - k ≤ numEl) (hread : nextRead numEl pushed k = some v) :
    pushed[k]? = some v := by
  unfold nextRead at hread
  split at hread
  · cases hread
  · next hne =>
    have hlt : pushed.length - k - 1 < numEl := by
      have hpos := pos_of_mod_ne_zero hne
      omega
    rwa [Nat.div_eq_of_lt hlt, Nat.zero_mul, Nat.add_zero] at hread

/-- What is found was written, and is not an element that was read. -/
theorem nextRead_mem (hread : nextRead numEl pushed k = some v) : ∃ j, k ≤ j ∧ pushed[j]? = some v := by
  unfold nextRead at hread
  split at hread
  · cases hread
  · exact ⟨_, Nat.le_add_right k _, hread⟩

/-- **More than a round behind**, a later element is found. -/
theorem nextRead_overtaken (hnumEl : 0 < numEl) (hbehind : numEl < pushed.length - k)
    (hread : nextRead numEl pushed k = some v) : ∃ j, k < j ∧ pushed[j]? = some v := by
  unfold nextRead at hread
  split at hread
  · cases hread
  · have hone : 1 ≤ (pushed.length - k - 1) / numEl := by
      rw [Nat.le_div_iff_mul_le hnumEl]
      omega
    have hmul := Nat.mul_le_mul_right numEl hone
    exact ⟨_, by omega, hread⟩

/-- **When nothing is lost, repeated or reordered**, of different elements: exactly in the runs in which
nothing is read while as much as the queue holds is unread. No operation ever fails. -/
theorem run_fifo_iff {numEl : Nat} (hnumEl : 0 < numEl) (default : T) (ops : List (Operation T)) :
    ∃ s, ops.foldlM uncheckedStep (init numEl default) = .ok s ∧
      (s.pushed.Nodup →
        (s.popped <+: s.pushed ↔
          AllSteps uncheckedStep (init numEl default) (fun _ => ReadsInTime) ops)) := by
  obtain ⟨s, hrun, -, hiff⟩ : ∃ s, ops.foldlM uncheckedStep (init numEl default) = .ok s ∧ s.Laps ∧
      (s.pushed.Nodup → (s.popped <+: s.pushed ↔
        AllSteps uncheckedStep (init numEl default) (fun _ => ReadsInTime) ops)) := by
    induction ops using List.reverseRecOn with
    | nil =>
      refine ⟨_, rfl, laps_init hnumEl default, fun _ => ?_⟩
      exact iff_of_true (List.prefix_refl _) (AllSteps.of_forall (by simp))
    | append_singleton ops op ih =>
      obtain ⟨s, hrun, h, hiff⟩ := ih
      obtain ⟨s', hok, h'⟩ := h.uncheckedStep op
      refine ⟨s', foldlM_concat_eq_ok.mpr ⟨s, hrun, hok⟩, h', fun hnodup => ?_⟩
      rw [allSteps_concat_iff hrun]
      cases op with
      | push v =>
        obtain rfl := Except.ok.inj hok
        have hnodup : s.pushed.Nodup := hnodup.sublist (List.sublist_append_left _ _)
        rw [← hiff hnodup]
        have hcount := h.count
        constructor
        · intro hbegins
          exact ⟨List.prefix_of_prefix_length_le hbegins (List.prefix_append _ _) (by omega), trivial⟩
        · rintro ⟨hbegins, -⟩
          exact hbegins.trans (List.prefix_append _ _)
      | pop =>
        rcases h.uncheckedPop hok with ⟨hnone, rfl⟩ | ⟨hsome, hpos, hfull, -, hpushed, hpopped⟩
        · rw [← hiff hnodup]
          exact (and_iff_left fun hread => absurd hnone hread).symm
        · have hread := h.nextRead_of_pop hsome
          have hcount := h.count
          rw [hpushed] at hnodup
          rw [hpushed, hpopped, concat_prefix_iff, hiff hnodup]
          apply and_congr_right
          intro _
          constructor
          · intro hnext _
            -- a later element would be a second one
            by_contra hbehind
            obtain ⟨j, hj, hlater⟩ := nextRead_overtaken h.size (by omega) hread
            obtain ⟨hlt, hget⟩ := List.getElem?_eq_some_iff.mp hnext
            obtain ⟨hlt', hget'⟩ := List.getElem?_eq_some_iff.mp hlater
            have hsame := hnodup.getElem_inj_iff.mp (hget.trans hget'.symm)
            omega
          · intro htime
            have hroom := htime hsome
            exact nextRead_of_le (by omega) hread
  exact ⟨s, hrun, hiff⟩

/-- On two slots the third element takes the place of the first. -/
theorem run_fifo_iff_overrun :
    ∃ s, [Operation.push 5, .push 6, .push 7, .pop].foldlM uncheckedStep (init 2 0) = .ok s ∧
      s.popped = [7] ∧ ¬ AllSteps uncheckedStep (init 2 0) (fun _ => ReadsInTime)
        [Operation.push 5, .push 6, .push 7, .pop] := by
  obtain ⟨s, hs, hiff⟩ := run_fifo_iff (show 0 < 2 by decide) 0 [.push 5, .push 6, .push 7, .pop]
  obtain ⟨s', hs', hpopped, hpushed⟩ : ∃ s',
      [Operation.push 5, .push 6, .push 7, .pop].foldlM uncheckedStep (init 2 0) = .ok s' ∧
        s'.popped = [7] ∧ s'.pushed = [5, 6, 7] := ⟨_, rfl, rfl, rfl⟩
  obtain rfl := Except.ok.inj (hs.symm.trans hs')
  refine ⟨s, hs, hpopped, ?_⟩
  rw [hpushed, hpopped] at hiff
  rw [← hiff (by decide)]
  decide

end SpscHistory

end TradingSystem
