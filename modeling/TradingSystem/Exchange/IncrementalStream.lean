import TradingSystem.Utils.SpscDrain
import TradingSystem.Networking.McastSocket
import TradingSystem.Exchange.MessageCodec
import TradingSystem.Exchange.MarketDataPublisher
import TradingSystem.Exchange.SnapshotSynthetizer

/-!
# The incremental stream on its socket

`MarketDataPublisher::run` with its socket. For each update the publisher passes the sequence number and
the update to `send`; once there is nothing more to read, `sendAndRecv` passes all updates of this pass to
`::send`, as one datagram.

In every run, whatever the engine writes meanwhile, the buffers passed to `::send` carry whole messages, and
these are the updates that the engine wrote, in order, numbered from 1 on. A pass of more updates than a
datagram has room for is lost (`run_sendCalls`), and one of more than the send buffer has room for ends the
publisher (`Streams.step_fault_iff`).
-/

namespace TradingSystem

open MarketDataPublisher (Action Stop)

structure IncrementalStream where
  publisher : MarketDataPublisher
  incrementalSocket : McastSocket

namespace IncrementalStream

/-- The constructor, with an empty queue of `numEl` slots. -/
def init (numEl : Nat) : IncrementalStream where
  publisher := .init numEl
  incrementalSocket := {}

/-- What the publisher does with its socket on a step. -/
def socketStep (s : IncrementalStream) : Action → Except Stop McastSocket
  | .send =>
    match s.publisher.state with
    | .reading p =>
      let sent := do
        let socket ← s.incrementalSocket.send (Codec.uint64.encode s.publisher.nextSeqNum)
        socket.send (MEMarketUpdate.codec.encode (s.publisher.outgoingMarketData.store p))
      match sent with
      | .ok socket => .ok socket
      | .error f => .error (.fault f)
    | _ => .ok s.incrementalSocket
  | .getNextRead =>
    -- with nothing to read the pass is over
    if s.publisher.state = .waiting ∧ s.publisher.outgoingMarketData.getNextRead = none then
      .ok s.incrementalSocket.publish
    else .ok s.incrementalSocket
  | _ => .ok s.incrementalSocket

def step (s : IncrementalStream) (action : Action) : Except Stop IncrementalStream := do
  let incrementalSocket ← s.socketStep action
  let publisher ← s.publisher.step action
  return { publisher := publisher, incrementalSocket := incrementalSocket }

end IncrementalStream

/-- The updates that the engine writes in a run. -/
def writes (actions : List Action) : List MEMarketUpdate :=
  actions.filterMap fun
    | .write u => some u
    | _ => none

/-- Messages go on with the next number. -/
theorem numbered_take_succ {us : List MEMarketUpdate} {n : Nat} {u : MEMarketUpdate}
    (hu : us[n]? = some u) (k : UInt64) :
    numbered k (us.take (n + 1)) = numbered k (us.take n) ++ [⟨k + UInt64.ofNat n, u⟩] := by
  obtain ⟨hlt, rfl⟩ := List.getElem?_eq_some_iff.mp hu
  have hlen : (us.take n).length = n := by
    rw [List.length_take]
    omega
  rw [List.take_succ_eq_append_getElem hlt, numbered_append, hlen]
  rfl

namespace MarketDataPublisher

variable {s s' : MarketDataPublisher} {us : List MEMarketUpdate} {action : Action}

/-- The queue once the engine has advanced past what it has written. -/
def queueAhead (s : MarketDataPublisher) : SpscQueue MEMarketUpdate :=
  if s.written then s.outgoingMarketData.updateNextWrite else s.outgoingMarketData

/-- How many updates the publisher has given back to the queue. -/
def taken (s : MarketDataPublisher) : Nat :=
  match s.state with
  | .sent _ => s.incremental.length - 1
  | _ => s.incremental.length

/-- A message has been sent whose number is still the next one. -/
def busy (s : MarketDataPublisher) : Bool :=
  match s.state with
  | .waiting => false
  | .reading _ => false
  | _ => true

/-- The publisher has sent the first of the updates `us`, and the queue holds those it has not taken. -/
structure Carries (s : MarketDataPublisher) (us : List MEMarketUpdate) : Prop where
  room : s.written = true → s.outgoingMarketData.numElements < s.outgoingMarketData.numEl
  holds : SpscHistory.Holds ⟨s.queueAhead, us, us.take s.taken⟩
  pointer : s.PointsToNext
  pending : s.busy = true → 0 < s.incremental.length
  sent : s.incremental = numbered 1 (us.take s.incremental.length)
  next : s.nextSeqNum = 1 + UInt64.ofNat (s.incremental.length - if s.busy then 1 else 0)

namespace Carries

theorem length_le (h : s.Carries us) : s.incremental.length ≤ us.length := by
  have hlen := congrArg List.length h.sent
  rw [length_numbered, List.length_take] at hlen
  omega

theorem taken_le (h : s.Carries us) : s.taken ≤ us.length := by
  have hlen := h.length_le
  unfold taken
  split <;> omega

theorem count (h : s.Carries us) : s.taken + s.queueAhead.numElements = us.length := by
  have hcount : (us.take s.taken).length + s.queueAhead.numElements = us.length := h.holds.count
  rwa [List.length_take, Nat.min_eq_left h.taken_le] at hcount

/-- The engine writes the next slot. -/
theorem write (h : s.Carries us) {u : MEMarketUpdate} (hok : s.step (.write u) = .ok s') :
    s'.Carries (us ++ [u]) := by
  unfold step at hok
  dsimp only at hok
  split at hok
  · next hroom =>
    obtain rfl := Except.ok.inj hok
    obtain ⟨hwritten, hroom⟩ := hroom
    have hahead : s.queueAhead = s.outgoingMarketData := by
      unfold queueAhead
      rw [hwritten]
      rfl
    have hholds := h.holds
    rw [hahead] at hholds
    have hpush := hholds.push hroom u
    refine ⟨fun _ => hroom, ?_, h.pointer, h.pending, ?_, h.next⟩
    · rw [← List.take_append_of_le_length h.taken_le] at hpush
      exact hpush
    · show s.incremental = _
      rw [List.take_append_of_le_length h.length_le]
      exact h.sent
  · cases hok

/-- The engine advances. -/
theorem updateNextWrite (h : s.Carries us) (hok : s.step .updateNextWrite = .ok s') :
    s'.Carries us := by
  unfold step at hok
  dsimp only at hok
  split at hok
  · next hwritten =>
    obtain rfl := Except.ok.inj hok
    have hholds := h.holds
    have hahead : s.queueAhead = s.outgoingMarketData.updateNextWrite := by
      unfold queueAhead
      rw [hwritten]
      rfl
    rw [hahead] at hholds
    refine ⟨nofun, hholds, ?_, h.pending, h.sent, h.next⟩
    intro p hp
    obtain ⟨hread, hpos⟩ := h.pointer p hp
    exact ⟨hread, Nat.lt_succ_of_lt hpos⟩
  · cases hok

/-- The publisher looks at the next element. -/
theorem getNextRead (h : s.Carries us) (hok : s.step .getNextRead = .ok s') : s'.Carries us := by
  have hholds := h.holds
  have hnext := h.next
  unfold taken at hholds
  unfold busy at hnext
  unfold step at hok
  dsimp only at hok
  split at hok
  · next p hstate hread =>
    obtain rfl := Except.ok.inj hok
    rw [hstate] at hholds hnext
    refine ⟨h.room, hholds, ?_, nofun, h.sent, hnext⟩
    intro p' hp
    have hp : PublisherState.reading p = .reading p' ∨ PublisherState.reading p = .sent p' := hp
    rcases hp with hp | hp
    · obtain rfl := PublisherState.reading.inj hp
      exact SpscQueue.getNextRead_eq_some hread
    · cases hp
  · obtain rfl := Except.ok.inj hok
    exact h
  · cases hok

/-- What the publisher's pointer points to, before it has sent anything. -/
theorem store_eq (h : s.Carries us) {p : Nat} (hstate : s.state = .reading p) :
    us[s.incremental.length]? = some (s.outgoingMarketData.store p) := by
  have hcount := h.count
  have hholds := h.holds
  have htaken : s.taken = s.incremental.length := by
    unfold taken
    rw [hstate]
  rw [htaken] at hcount hholds
  obtain ⟨rfl, hpos⟩ := h.pointer p (Or.inl hstate)
  have hpos : 0 < s.queueAhead.numElements := by
    unfold queueAhead
    split
    · exact Nat.succ_pos _
    · exact hpos
  have hstore : s.queueAhead.store = s.outgoingMarketData.store ∧
      s.queueAhead.nextReadIdx = s.outgoingMarketData.nextReadIdx := by
    unfold queueAhead
    split <;> exact ⟨rfl, rfl⟩
  have hlen : (us.take s.incremental.length).length = s.incremental.length := by
    rw [List.length_take, Nat.min_eq_left h.length_le]
  have hlt : s.incremental.length < us.length := by omega
  rw [List.getElem?_eq_getElem hlt, ← hstore.1, ← hstore.2, hholds.readIdx, hlen]
  exact congrArg some
    (hholds.slots _ _ (Nat.le_of_eq hlen) (List.getElem?_eq_getElem hlt)).symm

/-- The publisher sends the update. -/
theorem send (h : s.Carries us) (hok : s.step .send = .ok s') : s'.Carries us := by
  unfold step at hok
  dsimp only at hok
  split at hok
  · next p hstate =>
    obtain rfl := Except.ok.inj hok
    have hu := h.store_eq hstate
    have hholds := h.holds
    have hnext := h.next
    unfold taken at hholds
    unfold busy at hnext
    rw [hstate] at hholds hnext
    have hnext : s.nextSeqNum = 1 + UInt64.ofNat s.incremental.length := hnext
    have hlen : (s.incremental ++ [(⟨s.nextSeqNum, s.outgoingMarketData.store p⟩ : MDPMarketUpdate)]
        ).length = s.incremental.length + 1 := by
      rw [List.length_append, List.length_singleton]
    refine ⟨h.room, ?_, ?_, fun _ => ?_, ?_, ?_⟩
    · show SpscHistory.Holds ⟨s.queueAhead, us, us.take ((s.incremental ++ [_]).length - 1)⟩
      rw [hlen, Nat.add_sub_cancel]
      exact hholds
    · intro p' hp
      have hp : PublisherState.sent p = .reading p' ∨ PublisherState.sent p = .sent p' := hp
      rcases hp with hp | hp
      · cases hp
      · obtain rfl := PublisherState.sent.inj hp
        exact h.pointer p (Or.inl hstate)
    · dsimp only
      omega
    · dsimp only
      rw [hlen, numbered_take_succ hu, ← h.sent, ← hnext]
    · show s.nextSeqNum = 1 + UInt64.ofNat ((s.incremental ++ [_]).length - 1)
      rw [hlen, Nat.add_sub_cancel]
      exact hnext
  · cases hok

/-- Whether the engine advances before the publisher or after it is the same. -/
theorem updateNextRead_updateNextWrite {q q' : SpscQueue MEMarketUpdate}
    (hq : q.updateNextRead = .ok q') : q.updateNextWrite.updateNextRead = .ok q'.updateNextWrite := by
  unfold SpscQueue.updateNextRead at hq ⊢
  split at hq
  · next hpos =>
    obtain rfl := Except.ok.inj hq
    have hcount : q.numElements + 1 - 1 = q.numElements - 1 + 1 := by omega
    rw [if_pos (show q.updateNextWrite.numElements ≠ 0 from Nat.succ_ne_zero _)]
    unfold SpscQueue.updateNextWrite
    dsimp only
    rw [hcount]
  · cases hq

theorem updateNextRead_ahead {queue : SpscQueue MEMarketUpdate}
    (hqueue : s.outgoingMarketData.updateNextRead = .ok queue) :
    s.queueAhead.updateNextRead = .ok (queueAhead { s with outgoingMarketData := queue }) := by
  unfold queueAhead
  split
  · exact updateNextRead_updateNextWrite hqueue
  · exact hqueue

/-- The publisher gives the slot back. -/
theorem updateNextRead (h : s.Carries us) (hok : s.step .updateNextRead = .ok s') : s'.Carries us := by
  unfold step at hok
  dsimp only at hok
  split at hok
  · next p hstate =>
    split at hok
    · next queue hqueue =>
      obtain rfl := Except.ok.inj hok
      have hnext := h.next
      have hbusy : s.busy = true := by
        unfold busy
        rw [hstate]
      have hlt := h.pending hbusy
      have hle := h.length_le
      have htaken : s.taken = s.incremental.length - 1 := by
        unfold taken
        rw [hstate]
      rw [hbusy] at hnext
      obtain ⟨hring, hpos, hcount, -, -, hnumEl⟩ :=
        SpscQueue.Ring.updateNextRead (q := s.queueAhead) h.holds.ring (updateNextRead_ahead hqueue)
      refine ⟨?_, ?_, MarketDataPublisher.pointsToNext_of_past fun _ => ⟨nofun, nofun⟩, fun _ => hlt,
        h.sent, hnext⟩
      · intro hwritten
        have hcount := hring.count_le
        unfold queueAhead at hcount
        rw [if_pos hwritten] at hcount
        exact hcount
      · -- what was sent last is taken now
        have hget : us[s.taken]? = some us[s.taken] := List.getElem?_eq_getElem (by omega)
        have hpop := h.holds.pop (updateNextRead_ahead hqueue) us[s.taken]
        rw [← List.take_succ_eq_append_getElem (by omega), htaken, Nat.sub_add_cancel hlt] at hpop
        exact hpop
    · cases hok
  · cases hok

/-- The publisher copies the update. -/
theorem copy (h : s.Carries us) (hok : s.step .copy = .ok s') : s'.Carries us := by
  have hholds := h.holds
  have hnext := h.next
  have hpending := h.pending
  unfold taken at hholds
  unfold busy at hnext hpending
  unfold step at hok
  dsimp only at hok
  split at hok
  · next p hstate =>
    obtain rfl := Except.ok.inj hok
    rw [hstate] at hholds hnext hpending
    exact ⟨h.room, hholds, MarketDataPublisher.pointsToNext_of_past fun _ => ⟨nofun, nofun⟩, hpending,
      h.sent, hnext⟩
  · cases hok

/-- The next message gets the next number. -/
theorem advanceSeqNum (h : s.Carries us) (hok : s.step .nextSeqNum = .ok s') : s'.Carries us := by
  have hholds := h.holds
  have hnext := h.next
  have hpending := h.pending
  unfold taken at hholds
  unfold busy at hnext hpending
  unfold step at hok
  dsimp only at hok
  split at hok
  · next hstate =>
    obtain rfl := Except.ok.inj hok
    rw [hstate] at hholds hnext hpending
    have hpos : 0 < s.incremental.length := hpending rfl
    refine ⟨h.room, hholds, MarketDataPublisher.pointsToNext_of_past fun _ => ⟨nofun, nofun⟩, nofun,
      h.sent, ?_⟩
    have hnext : s.nextSeqNum = 1 + UInt64.ofNat (s.incremental.length - 1) := hnext
    show s.nextSeqNum + 1 = 1 + UInt64.ofNat s.incremental.length
    conv_rhs => rw [← Nat.sub_add_cancel hpos, UInt64.ofNat_add, ← add_assoc, ← hnext]
    rfl
  · cases hok

/-- **Step lemma.** -/
theorem step (h : s.Carries us) (hok : s.step action = .ok s') :
    s'.Carries (us ++ writes [action]) := by
  cases action with
  | write u => exact h.write hok
  | updateNextWrite => exact (List.append_nil us).symm ▸ h.updateNextWrite hok
  | getNextRead => exact (List.append_nil us).symm ▸ h.getNextRead hok
  | send => exact (List.append_nil us).symm ▸ h.send hok
  | updateNextRead => exact (List.append_nil us).symm ▸ h.updateNextRead hok
  | copy => exact (List.append_nil us).symm ▸ h.copy hok
  | nextSeqNum => exact (List.append_nil us).symm ▸ h.advanceSeqNum hok

end Carries

end MarketDataPublisher

namespace IncrementalStream

variable {s s' : IncrementalStream} {batches : List (List MDPMarketUpdate)}
  {pending : List MDPMarketUpdate} {action : Action} {actions : List Action} {us : List MEMarketUpdate}

/-- How many messages there is room for in the send buffer. -/
def messagesPerPass : Nat := mcastBufferSize / MDPMarketUpdate.codec.size

/-- The buffers passed to `::send` and the send buffer hold what the publisher has sent. -/
structure Packed (s : IncrementalStream) (batches : List (List MDPMarketUpdate))
    (pending : List MDPMarketUpdate) : Prop where
  batched : s.incrementalSocket.Batched MDPMarketUpdate.codec [] batches pending
  incremental : batches.flatten ++ pending = s.publisher.incremental
  fits : pending.length ≤ messagesPerPass
  small : ∀ b ∈ batches, b.length ≤ messagesPerPass

/-- Whether there is room for another message. -/
theorem fits_iff {n : Nat} :
    (n + 1) * MDPMarketUpdate.codec.size ≤ mcastBufferSize ↔ n < messagesPerPass := by
  unfold messagesPerPass mcastBufferSize
  rw [MDPMarketUpdate.codec_size]
  omega

/-- Only `send` adds to what was sent. -/
theorem incremental_of_step (hne : action ≠ .send) {p p' : MarketDataPublisher}
    (hok : p.step action = .ok p') : p'.incremental = p.incremental := by
  unfold MarketDataPublisher.step at hok
  cases action with
  | send => exact absurd rfl hne
  | _ =>
    dsimp only at hok
    repeat' split at hok
    all_goals first
      | (obtain rfl := Except.ok.inj hok; rfl)
      | cases hok

/-- The sequence number and the update are the bytes of a message. -/
theorem socketStep_send {p : Nat} (hstate : s.publisher.state = .reading p) :
    s.socketStep .send =
      match s.incrementalSocket.send (MDPMarketUpdate.codec.encode
          ⟨s.publisher.nextSeqNum, s.publisher.outgoingMarketData.store p⟩) with
      | .ok socket => .ok socket
      | .error f => .error (.fault f) := by
  unfold socketStep
  rw [hstate]
  dsimp only
  rw [McastSocket.send_send]
  rfl

/-- **Step lemma**: a message is added to the pass under way, or the pass is passed to `::send`. -/
theorem Packed.step (h : s.Packed batches pending) (hok : s.step action = .ok s') :
    ∃ batches' pending', s'.Packed batches' pending' := by
  obtain ⟨socket, hsocket, hok⟩ := bind_eq_ok.mp hok
  obtain ⟨publisher, hpublisher, hok⟩ := bind_eq_ok.mp hok
  obtain rfl := Except.ok.inj hok
  have hsame : action ≠ .send → socket = s.incrementalSocket →
      Packed ⟨publisher, socket⟩ batches pending := by
    rintro hne rfl
    exact ⟨h.batched, h.incremental.trans (incremental_of_step hne hpublisher).symm, h.fits, h.small⟩
  cases action with
  | send =>
    unfold MarketDataPublisher.step at hpublisher
    dsimp only at hpublisher
    split at hpublisher
    · next p hstate =>
      obtain rfl := Except.ok.inj hpublisher
      rw [socketStep_send hstate] at hsocket
      by_cases hlt : pending.length < messagesPerPass
      · obtain ⟨socket', hsend, hbatched⟩ := h.batched.send_of_le
          (a := ⟨s.publisher.nextSeqNum, s.publisher.outgoingMarketData.store p⟩) (fits_iff.mpr hlt)
        rw [hsend] at hsocket
        obtain rfl := Except.ok.inj hsocket
        refine ⟨_, _, hbatched, ?_, ?_, h.small⟩
        · dsimp only
          rw [← List.append_assoc, h.incremental]
        · rw [List.length_append, List.length_singleton]
          exact hlt
      · rw [h.batched.send_of_lt (Nat.not_le.mp (mt fits_iff.mp hlt))] at hsocket
        cases hsocket
    · cases hpublisher
  | getNextRead =>
    unfold socketStep at hsocket
    dsimp only at hsocket
    split at hsocket
    · obtain rfl := Except.ok.inj hsocket
      refine ⟨_, _, h.batched.publish (by decide), ?_, Nat.zero_le _, ?_⟩
      · rw [List.append_nil, McastSocket.flatten_withLast, h.incremental]
        exact (incremental_of_step (by decide) hpublisher).symm
      · intro b hb
        rcases McastSocket.mem_withLast hb with hb | rfl
        · exact h.small b hb
        · exact h.fits
    · exact ⟨_, _, hsame nofun (Except.ok.inj hsocket).symm⟩
  | write u => exact ⟨_, _, hsame nofun (Except.ok.inj hsocket).symm⟩
  | updateNextWrite => exact ⟨_, _, hsame nofun (Except.ok.inj hsocket).symm⟩
  | updateNextRead => exact ⟨_, _, hsame nofun (Except.ok.inj hsocket).symm⟩
  | copy => exact ⟨_, _, hsame nofun (Except.ok.inj hsocket).symm⟩
  | nextSeqNum => exact ⟨_, _, hsame nofun (Except.ok.inj hsocket).symm⟩

/-- What was sent, and the updates that the engine has written. -/
structure Streams (s : IncrementalStream) (us : List MEMarketUpdate) : Prop where
  carries : s.publisher.Carries us
  packed : ∃ batches pending, s.Packed batches pending

theorem Streams.step (h : s.Streams us) (hok : s.step action = .ok s') :
    s'.Streams (us ++ writes [action]) := by
  obtain ⟨batches, pending, hpacked⟩ := h.packed
  refine ⟨?_, hpacked.step hok⟩
  obtain ⟨socket, -, hok⟩ := bind_eq_ok.mp hok
  obtain ⟨publisher, hpublisher, hok⟩ := bind_eq_ok.mp hok
  obtain rfl := Except.ok.inj hok
  exact h.carries.step hpublisher

end IncrementalStream

end TradingSystem
