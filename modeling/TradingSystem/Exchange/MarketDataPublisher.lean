import TradingSystem.Lib.Run
import TradingSystem.Utils.SpscQueue
import TradingSystem.Exchange.Messages

/-!
# `MarketDataPublisher`: one update on two feeds

`exchange/market_data_publisher.cpp`, with the writing side of `MatchingEngine::sendMarketUpdate`. The
publisher takes each update from the queue of the engine, sends it on the incremental stream, and puts
a copy into the queue of the snapshots. It advances the read index before it makes this copy, and reads
the slot once more for it.

The steps of the two threads interleave in any way. The engine may fill the slot again when there is
room for one more update only; where it does not, both feeds carry the same updates
(`run_sameUpdates`).
-/

namespace TradingSystem

/-- Where the publisher is in its loop, with the pointer it got from `getNextRead`. -/
inductive PublisherState where
  | waiting
  | reading (marketUpdate : Nat)
  | sent (marketUpdate : Nat)
  | advanced (marketUpdate : Nat)
  | copied
  deriving DecidableEq

structure MarketDataPublisher where
  outgoingMarketData : SpscQueue MEMarketUpdate
  /-- the engine has written the next slot, and not yet advanced -/
  written : Bool
  state : PublisherState
  nextSeqNum : UInt64
  /-- what was sent on `incremental_socket_`, oldest first -/
  incremental : List MDPMarketUpdate
  /-- what went into `snapshot_updates_`, oldest first -/
  snapshotUpdates : List MDPMarketUpdate

namespace MarketDataPublisher

/-- A step of the engine or of the publisher. -/
inductive Action where
  | write (u : MEMarketUpdate)
  | updateNextWrite
  | getNextRead
  | send
  | updateNextRead
  | copy
  | nextSeqNum
  deriving DecidableEq

inductive Stop where
  /-- the thread cannot take this step now -/
  | notEnabled
  | fault (f : Fault)
  deriving DecidableEq

/-- The constructor, with an empty queue of `numEl` slots. -/
def init (numEl : Nat) : MarketDataPublisher where
  outgoingMarketData := .init numEl {}
  written := false
  state := .waiting
  nextSeqNum := 1
  incremental := []
  snapshotUpdates := []

def step (s : MarketDataPublisher) : Action → Except Stop MarketDataPublisher
  | .write u =>
    -- the engine writes only while there is room
    if s.written = false ∧ s.outgoingMarketData.numElements < s.outgoingMarketData.numEl then
      .ok { s with outgoingMarketData := s.outgoingMarketData.writeNext u, written := true }
    else .error .notEnabled
  | .updateNextWrite =>
    if s.written = true then
      .ok { s with outgoingMarketData := s.outgoingMarketData.updateNextWrite, written := false }
    else .error .notEnabled
  | .getNextRead =>
    match s.state, s.outgoingMarketData.getNextRead with
    | .waiting, some p => .ok { s with state := .reading p }
    | .waiting, none => .ok s
    | _, _ => .error .notEnabled
  | .send =>
    match s.state with
    | .reading p =>
      let m : MDPMarketUpdate := ⟨s.nextSeqNum, s.outgoingMarketData.store p⟩
      .ok { s with state := .sent p, incremental := s.incremental ++ [m] }
    | _ => .error .notEnabled
  | .updateNextRead =>
    match s.state with
    | .sent p =>
      match s.outgoingMarketData.updateNextRead with
      | .ok queue => .ok { s with outgoingMarketData := queue, state := .advanced p }
      | .error f => .error (.fault f)
    | _ => .error .notEnabled
  | .copy =>
    match s.state with
    | .advanced p =>
      let m : MDPMarketUpdate := ⟨s.nextSeqNum, s.outgoingMarketData.store p⟩
      .ok { s with state := .copied, snapshotUpdates := s.snapshotUpdates ++ [m] }
    | _ => .error .notEnabled
  | .nextSeqNum =>
    match s.state with
    | .copied => .ok { s with state := .waiting, nextSeqNum := s.nextSeqNum + 1 }
    | _ => .error .notEnabled

/-- Where the publisher still has to copy an update, the engine does not put another into its slot. -/
def KeepsSlot (s : MarketDataPublisher) : Action → Prop
  | .write u => ∀ p, s.state = .advanced p → s.outgoingMarketData.nextWriteIdx = p →
      u = s.outgoingMarketData.store p
  | _ => True

/-- The messages carry the numbers from 1 on. -/
def Numbered (ms : List MDPMarketUpdate) : Prop :=
  ∀ (i : Nat), ∀ m ∈ ms[i]?, m.seqNum = UInt64.ofNat (i + 1)

/-- **The two feeds carry the same update** under each number. -/
structure SameUpdates (s : MarketDataPublisher) : Prop where
  incremental : Numbered s.incremental
  snapshotUpdates : Numbered s.snapshotUpdates
  same : ∀ (i : Nat), ∀ m ∈ s.incremental[i]?, ∀ m' ∈ s.snapshotUpdates[i]?, m = m'

/-! ## What holds between steps -/

/-- The message that was sent and is still to be copied. -/
def uncopied (s : MarketDataPublisher) : List MDPMarketUpdate :=
  match s.state with
  | .sent p => [⟨s.nextSeqNum, s.outgoingMarketData.store p⟩]
  | .advanced p => [⟨s.nextSeqNum, s.outgoingMarketData.store p⟩]
  | _ => []

/-- The pointer, before the read index has advanced, is to the slot of the oldest element. -/
def PointsToNext (s : MarketDataPublisher) : Prop :=
  ∀ p, s.state = .reading p ∨ s.state = .sent p →
    p = s.outgoingMarketData.nextReadIdx ∧ 0 < s.outgoingMarketData.numElements

structure InStep (s : MarketDataPublisher) : Prop where
  ring : s.outgoingMarketData.Ring
  room : s.written = true → s.outgoingMarketData.numElements < s.outgoingMarketData.numEl
  pointer : s.PointsToNext
  incremental : s.incremental = s.snapshotUpdates ++ s.uncopied
  numbered : Numbered s.snapshotUpdates
  next : s.nextSeqNum =
    UInt64.ofNat (s.snapshotUpdates.length + if s.state = .copied then 0 else 1)

variable {s s' : MarketDataPublisher} {ms : List MDPMarketUpdate} {m : MDPMarketUpdate}
  {actions : List Action} {action : Action}

/-- After the read index has advanced there is no such pointer. -/
theorem pointsToNext_of_past (h : ∀ p, s.state ≠ .reading p ∧ s.state ≠ .sent p) :
    s.PointsToNext := by
  intro p hp
  rcases hp with hp | hp
  · exact absurd hp (h p).1
  · exact absurd hp (h p).2

theorem Numbered.concat (h : Numbered ms) (hm : m.seqNum = UInt64.ofNat (ms.length + 1)) :
    Numbered (ms ++ [m]) := by
  intro i m' hm'
  rcases Nat.lt_trichotomy i ms.length with hlt | rfl | hgt
  · rw [List.getElem?_append_left hlt] at hm'
    exact h i m' hm'
  · rw [List.getElem?_concat_length] at hm'
    obtain rfl := Option.some.inj hm'
    exact hm
  · rw [List.getElem?_eq_none (by simp; omega)] at hm'
    cases hm'

theorem InStep.sameUpdates (h : s.InStep) : s.SameUpdates := by
  refine ⟨?_, h.numbered, ?_⟩
  · rw [h.incremental]
    have hnext := h.next
    have hnumbered := h.numbered
    unfold uncopied
    split
    · next hstate =>
      rw [hstate, if_neg (by simp)] at hnext
      exact hnumbered.concat hnext
    · next hstate =>
      rw [hstate, if_neg (by simp)] at hnext
      exact hnumbered.concat hnext
    · rw [List.append_nil]
      exact hnumbered
  · intro i m hm m' hm'
    obtain ⟨hi, -⟩ := List.getElem?_eq_some_iff.mp hm'
    rw [h.incremental, List.getElem?_append_left hi] at hm
    exact Option.some.inj (hm.symm.trans hm')

theorem inStep_init {numEl : Nat} (hnumEl : 0 < numEl) : (init numEl).InStep where
  ring := SpscQueue.ring_init hnumEl _
  room := by
    intro h
    cases h
  pointer := by
    intro p h
    rcases h with h | h
    · cases h
    · cases h
  incremental := rfl
  numbered := by
    intro i m hm
    cases hm
  next := rfl

/-- The engine writes a slot: none that the publisher will still read. -/
theorem InStep.write (h : s.InStep) {u : MEMarketUpdate} (hkeeps : s.KeepsSlot (.write u))
    (hok : s.step (.write u) = .ok s') : s'.InStep := by
  unfold step at hok
  dsimp only at hok
  split at hok
  · next hroom =>
    obtain rfl := Except.ok.inj hok
    refine ⟨h.ring.writeNext u, fun _ => hroom.2, h.pointer, ?_, h.numbered, h.next⟩
    have hsame : ∀ p, s.state = .sent p ∨ s.state = .advanced p →
        Function.update s.outgoingMarketData.store s.outgoingMarketData.nextWriteIdx u p =
          s.outgoingMarketData.store p := by
      intro p hp
      by_cases hwrite : s.outgoingMarketData.nextWriteIdx = p
      · rcases hp with hp | hp
        · obtain ⟨hread, hpos⟩ := h.pointer p (Or.inr hp)
          rw [hread] at hwrite
          exact absurd hwrite (h.ring.write_ne_read hpos hroom.2)
        · rw [hkeeps p hp hwrite, hwrite, Function.update_self]
      · rw [Function.update_of_ne (Ne.symm hwrite)]
    show s.incremental = s.snapshotUpdates ++ uncopied _
    rw [h.incremental]
    unfold uncopied
    cases hstate : s.state with
    | sent p =>
      show s.snapshotUpdates ++ _ = s.snapshotUpdates ++
        [⟨s.nextSeqNum, Function.update s.outgoingMarketData.store _ u p⟩]
      rw [hsame p (Or.inl hstate)]
    | advanced p =>
      show s.snapshotUpdates ++ _ = s.snapshotUpdates ++
        [⟨s.nextSeqNum, Function.update s.outgoingMarketData.store _ u p⟩]
      rw [hsame p (Or.inr hstate)]
    | _ => rfl
  · cases hok

theorem InStep.updateNextWrite (h : s.InStep) (hok : s.step .updateNextWrite = .ok s') :
    s'.InStep := by
  unfold step at hok
  dsimp only at hok
  split at hok
  · next hwritten =>
    obtain rfl := Except.ok.inj hok
    refine ⟨h.ring.updateNextWrite (h.room hwritten), ?_, ?_, h.incremental, h.numbered, h.next⟩
    · intro hcontra
      cases hcontra
    · intro p hp
      obtain ⟨hread, hpos⟩ := h.pointer p hp
      exact ⟨hread, Nat.lt_succ_of_lt hpos⟩
  · cases hok

/-- The publisher looks at the next element. -/
theorem InStep.getNextRead (h : s.InStep) (hok : s.step .getNextRead = .ok s') : s'.InStep := by
  have hincremental := h.incremental
  have hnext := h.next
  unfold uncopied at hincremental
  unfold step at hok
  dsimp only at hok
  split at hok
  · next p hstate hread =>
    obtain rfl := Except.ok.inj hok
    rw [hstate] at hincremental hnext
    refine ⟨h.ring, h.room, ?_, hincremental, h.numbered, hnext⟩
    intro p' hp
    have hp' : PublisherState.reading p = .reading p' ∨ PublisherState.reading p = .sent p' := hp
    rcases hp' with hp' | hp'
    · obtain rfl := PublisherState.reading.inj hp'
      exact SpscQueue.getNextRead_eq_some hread
    · cases hp'
  · obtain rfl := Except.ok.inj hok
    exact h
  · cases hok

/-- The publisher sends the update, but has not copied it yet. -/
theorem InStep.send (h : s.InStep) (hok : s.step .send = .ok s') : s'.InStep := by
  have hincremental := h.incremental
  have hnext := h.next
  unfold uncopied at hincremental
  unfold step at hok
  dsimp only at hok
  split at hok
  · next p hstate =>
    obtain rfl := Except.ok.inj hok
    rw [hstate] at hincremental hnext
    refine ⟨h.ring, h.room, ?_, ?_, h.numbered, hnext⟩
    · intro p' hp
      have hp' : PublisherState.sent p = .reading p' ∨ PublisherState.sent p = .sent p' := hp
      rcases hp' with hp' | hp'
      · cases hp'
      · obtain rfl := PublisherState.sent.inj hp'
        exact h.pointer p (Or.inl hstate)
    · show s.incremental ++ _ = s.snapshotUpdates ++ _
      rw [hincremental, List.append_nil]
      rfl
  · cases hok

/-- The slot is given back; the update in it is still to be copied. -/
theorem InStep.updateNextRead (h : s.InStep) (hok : s.step .updateNextRead = .ok s') : s'.InStep := by
  have hincremental := h.incremental
  have hnext := h.next
  unfold uncopied at hincremental
  unfold step at hok
  dsimp only at hok
  split at hok
  · next p hstate =>
    split at hok
    · next queue hqueue =>
      obtain rfl := Except.ok.inj hok
      obtain ⟨hring, hpos, hcount, -, hstore, hnumEl⟩ := h.ring.updateNextRead hqueue
      rw [hstate] at hincremental hnext
      refine ⟨hring, ?_, pointsToNext_of_past fun _ => ⟨nofun, nofun⟩, ?_, h.numbered, hnext⟩
      · intro hwritten
        have := h.room hwritten
        show queue.numElements < queue.numEl
        omega
      · show s.incremental = s.snapshotUpdates ++ [⟨s.nextSeqNum, queue.store p⟩]
        rw [hstore]
        exact hincremental
    · cases hok
  · cases hok

/-- The update is copied. -/
theorem InStep.copy (h : s.InStep) (hok : s.step .copy = .ok s') : s'.InStep := by
  have hincremental := h.incremental
  have hnext := h.next
  unfold uncopied at hincremental
  unfold step at hok
  dsimp only at hok
  split at hok
  · next p hstate =>
    obtain rfl := Except.ok.inj hok
    rw [hstate, if_neg (by simp)] at hnext
    rw [hstate] at hincremental
    refine ⟨h.ring, h.room, pointsToNext_of_past fun _ => ⟨nofun, nofun⟩, ?_,
      h.numbered.concat hnext, ?_⟩
    · show s.incremental = (s.snapshotUpdates ++ _) ++ []
      rw [List.append_nil]
      exact hincremental
    · show s.nextSeqNum = _
      rw [hnext, if_pos rfl, List.length_append, List.length_singleton]
  · cases hok

/-- The next message gets the next number. -/
theorem InStep.advanceSeqNum (h : s.InStep) (hok : s.step .nextSeqNum = .ok s') : s'.InStep := by
  have hincremental := h.incremental
  have hnext := h.next
  unfold uncopied at hincremental
  unfold step at hok
  dsimp only at hok
  split at hok
  · next hstate =>
    obtain rfl := Except.ok.inj hok
    rw [hstate, if_pos rfl, add_zero] at hnext
    rw [hstate] at hincremental
    refine ⟨h.ring, h.room, pointsToNext_of_past fun _ => ⟨nofun, nofun⟩, hincremental,
      h.numbered, ?_⟩
    · show s.nextSeqNum + 1 = _
      rw [hnext, if_neg (by simp), UInt64.ofNat_add]
      rfl
  · cases hok

theorem InStep.step (h : s.InStep) (hkeeps : s.KeepsSlot action) (hok : s.step action = .ok s') :
    s'.InStep := by
  cases action with
  | write u => exact h.write hkeeps hok
  | updateNextWrite => exact h.updateNextWrite hok
  | getNextRead => exact h.getNextRead hok
  | send => exact h.send hok
  | updateNextRead => exact h.updateNextRead hok
  | copy => exact h.copy hok
  | nextSeqNum => exact h.advanceSeqNum hok

/-- **Both feeds carry the same updates** in every run in which the engine does not fill a slot again
before the publisher has copied it. -/
theorem run_sameUpdates {numEl : Nat} (hnumEl : 2 ≤ numEl)
    (hkeeps : AllSteps step (init numEl) (fun _ => KeepsSlot) actions)
    (hrun : actions.foldlM step (init numEl) = .ok s) : s.SameUpdates := by
  have hinStep : s.InStep := by
    apply run_induction (motive := fun _ s => s.InStep) _ _ hkeeps hrun
    · exact inStep_init (by omega)
    · intro _ _ _ _ _ hkeeps h hok
      exact h.step hkeeps hok
  exact hinStep.sameUpdates

/-- An update of the order with the given id. -/
def updateOf (orderId : OrderId) : MEMarketUpdate := { type := .add, orderId := orderId }

instance (s : MarketDataPublisher) : DecidablePred s.KeepsSlot
  | .write u =>
    match hstate : s.state with
    | .advanced p =>
      decidable_of_iff (s.outgoingMarketData.nextWriteIdx = p → u = s.outgoingMarketData.store p) (by
        constructor
        · intro h p' hp'
          obtain rfl := PublisherState.advanced.inj (hstate.symm.trans hp')
          exact h
        · intro h
          exact h p hstate)
    | .waiting => isTrue (fun p hp => by simp [hstate] at hp)
    | .reading _ => isTrue (fun p hp => by simp [hstate] at hp)
    | .sent _ => isTrue (fun p hp => by simp [hstate] at hp)
    | .copied => isTrue (fun p hp => by simp [hstate] at hp)
  | .updateNextWrite => isTrue trivial
  | .getNextRead => isTrue trivial
  | .send => isTrue trivial
  | .updateNextRead => isTrue trivial
  | .copy => isTrue trivial
  | .nextSeqNum => isTrue trivial

/-- Two slots: two updates are written, and the first of them is published. The third is written when
the publisher has `done` some of its steps. -/
def threeUpdates (done rest : List Action) : List Action :=
  [.write (updateOf 1), .updateNextWrite, .getNextRead, .write (updateOf 2), .updateNextWrite] ++
    done ++ [.write (updateOf 3)] ++ rest

theorem run_sameUpdates_after_copy :
    ∃ s, (threeUpdates [.send, .updateNextRead, .copy] [.nextSeqNum]).foldlM step (init 2) = .ok s ∧
      s.SameUpdates := by
  have hkeeps : AllSteps step (init 2) (fun _ => KeepsSlot)
      (threeUpdates [.send, .updateNextRead, .copy] [.nextSeqNum]) :=
    AllSteps.of_check (by decide)
  exact ⟨_, rfl, run_sameUpdates le_rfl hkeeps rfl⟩

/-- The third update takes the slot of the first between `updateNextRead` and the copy. -/
theorem not_sameUpdates_before_copy :
    ∃ s, (threeUpdates [.send, .updateNextRead] [.copy]).foldlM step (init 2) = .ok s ∧
      s.incremental = [⟨1, updateOf 1⟩] ∧ s.snapshotUpdates = [⟨1, updateOf 3⟩] ∧
      ¬ s.SameUpdates := by
  refine ⟨_, rfl, rfl, rfl, ?_⟩
  intro h
  have hsame := h.same 0 ⟨1, updateOf 1⟩ rfl ⟨1, updateOf 3⟩ rfl
  revert hsame
  decide

end MarketDataPublisher

end TradingSystem
