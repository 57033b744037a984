import TradingSystem.Client.Recovery

/-!
# The recovered state is a state of the stream

What the consumer has delivered, applied to an empty book, gives the book of the stream up to the
number before the expected one, whenever the consumer is not in recovery. Messages may be lost,
repeated and overtaken; all that is asked of an arriving message is that it was sent (`Sent`).

The fragments of a snapshot do not say which snapshot they are of. Two snapshots that are each cut
short can be taken for a whole one, which is the state of no time (`not_prefixState_of_mixed`);
`Unmixed` is the condition that this does not happen.
-/

namespace TradingSystem

namespace MarketDataConsumer

/-- The message was sent: an update of the stream under its number, or a message of a snapshot that
was taken after some part of the stream. -/
def Sent (us : List MEMarketUpdate) (isSnapshot : Bool) (m : MDPMarketUpdate) : Prop :=
  if isSnapshot then
    ∃ n y, SnapshotSynthetizer.init.addAll (numbered 1 (us.take n)) = .ok y ∧ m ∈ y.publishSnapShot
  else m ∈ numbered 1 us

/-- If the message is the `SNAPSHOT_END` that ends recovery, then what is queued after the
`SNAPSHOT_START` is of the same snapshot. -/
def Unmixed (us : List MEMarketUpdate) (c : MarketDataConsumer) (isSnapshot : Bool)
    (m : MDPMarketUpdate) : Prop :=
  isSnapshot = true → c.packetLost = true → m.meMarketUpdate.type = .snapshotEnd →
    m.seqNum = UInt64.ofNat c.snapshotQueueMessage.entries.length →
    (∃ vs, (c.incrementalQueueMessage.entries.filter fun x =>
      m.meMarketUpdate.orderId + 1 ≤ x.1) = numberFrom (m.meMarketUpdate.orderId + 1) vs) →
    ∀ y, SnapshotSynthetizer.init.addAll
        (numbered 1 (us.take m.meMarketUpdate.orderId.toNat)) = .ok y →
      (c.snapshotQueueMessage.entries.map Prod.snd).drop 1 = y.body

/-- The books of all tickers are the same. -/
def SameBook (b b' : MarketBook) : Prop := ∀ t : TickerId, t.toNat < meMaxTickers → b t = b' t

variable {us vs : List MEMarketUpdate} {c : MarketDataConsumer} {m : MDPMarketUpdate}
  {y : SnapshotSynthetizer} {n : Nat}

/-! ## Numbers of a stream -/

theorem mem_numbered {u : MEMarketUpdate} {k : UInt64} (hlen : us.length < 2 ^ 64 - 1) :
    (⟨k, u⟩ : MDPMarketUpdate) ∈ numbered 1 us ↔ ∃ i, us[i]? = some u ∧ k.toNat = i + 1 := by
  have hnum : ∀ i < us.length, (1 + UInt64.ofNat i).toNat = i + 1 := by
    intro i hi
    rw [UInt64.toNat_add, UInt64.toNat_ofNat']
    show (1 + i % 2 ^ 64) % 2 ^ 64 = _
    omega
  constructor
  · intro h
    obtain ⟨x, hx, hxm⟩ := List.mem_map.mp h
    obtain ⟨i, hi, hk⟩ := mem_numberFrom.mp hx
    obtain ⟨rfl, rfl⟩ := MDPMarketUpdate.mk.inj hxm
    refine ⟨i, hi, ?_⟩
    rw [hk, hnum i (List.getElem?_eq_some_iff.mp hi).1]
  · intro ⟨i, hi, hk⟩
    refine List.mem_map.mpr ⟨(k, u), mem_numberFrom.mpr ⟨i, hi, ?_⟩, rfl⟩
    rw [← UInt64.toNat_inj, hk, hnum i (List.getElem?_eq_some_iff.mp hi).1]

/-- Updates of the stream without a gap from number `n + 1` on are a part of it. -/
theorem eq_drop_of_numbered (hlen : us.length < 2 ^ 64 - 1) (hn : n ≤ us.length) {s : UInt64}
    (hs : s.toNat = n) (hsorted : ((numberFrom (s + 1) vs).map Prod.fst).Pairwise (· < ·))
    (h : ∀ x ∈ numberFrom (s + 1) vs, (⟨x.1, x.2⟩ : MDPMarketUpdate) ∈ numbered 1 us) :
    n + vs.length ≤ us.length ∧ vs = (us.take (n + vs.length)).drop n := by
  have hnums := numberFrom_toNat hsorted
  have hsucc : (s + 1).toNat = n + 1 := by
    rw [UInt64.toNat_add, hs]
    show (n + 1) % 2 ^ 64 = _
    omega
  have hat : ∀ i, i < vs.length → us[n + i]? = vs[i]? := by
    intro i hi
    have hx : (s + 1 + UInt64.ofNat i, vs[i]) ∈ numberFrom (s + 1) vs :=
      mem_numberFrom.mpr ⟨i, List.getElem?_eq_getElem hi, rfl⟩
    obtain ⟨j, hj, hk⟩ := (mem_numbered hlen).mp (h _ hx)
    have hjlt := (List.getElem?_eq_some_iff.mp hj).1
    have hnum : (s + 1 + UInt64.ofNat i).toNat = n + 1 + i := by
      have hget := congrArg (fun l => l[i]?) hnums
      rw [List.getElem?_map, getElem?_numberFrom, List.getElem?_eq_getElem hi,
        List.getElem?_range' hi, hsucc, Nat.one_mul] at hget
      exact Option.some.inj hget
    have hk : (s + 1 + UInt64.ofNat i).toNat = j + 1 := hk
    obtain rfl : j = n + i := by omega
    rw [hj, List.getElem?_eq_getElem hi]
  have hle : n + vs.length ≤ us.length := by
    cases hvs : vs.length with
    | zero => omega
    | succ i =>
      have hi : i < vs.length := by omega
      have hsome := hat i hi
      rw [List.getElem?_eq_getElem hi] at hsome
      have := (List.getElem?_eq_some_iff.mp hsome).1
      omega
  refine ⟨hle, List.ext_getElem? fun i => ?_⟩
  rw [List.getElem?_drop, List.getElem?_take]
  by_cases hi : i < vs.length
  · rw [if_pos (by omega), hat i hi]
  · rw [if_neg (by omega), List.getElem?_eq_none (by omega)]

/-- No update of a well-formed stream is of a snapshot's frame. -/
theorem isMarker_of_wellFormed (hwf : WellFormed us) {u : MEMarketUpdate} (hu : u ∈ us) :
    u.isMarker = false := by
  obtain ⟨pre, post, rfl⟩ := List.append_of_mem hu
  have hadmits := (Feed.accepts_append.mp hwf).2.1.2
  unfold Feed.Continues at hadmits
  unfold MEMarketUpdate.isMarker
  cases htype : u.type <;> simp_all

/-! ## Snapshots of a stream -/

/-- A snapshot that was taken, by the number in its last message. -/
theorem snapshot_taken (hwf : WellFormed us) (hlen : us.length < 2 ^ 64 - 1)
    (hy : SnapshotSynthetizer.init.addAll (numbered 1 (us.take n)) = .ok y) :
    ∃ k ≤ us.length, y.lastSeqNum.toNat = k ∧
      SnapshotSynthetizer.init.addAll (numbered 1 (us.take k)) = .ok y ∧
      y.Stores (Feed.empty.steps (us.take k)) := by
  obtain ⟨y', hy', hlast, hstores⟩ := SnapshotSynthetizer.addAll_take hwf n
  obtain rfl := Except.ok.inj (hy.symm.trans hy')
  have htake : us.take n = us.take (us.take n).length := by
    rw [List.length_take]
    by_cases hn : n ≤ us.length
    · rw [Nat.min_eq_left hn]
    · rw [Nat.min_eq_right (by omega), List.take_length, List.take_of_length_le (by omega)]
  have hle : (us.take n).length ≤ us.length := by
    rw [List.length_take]
    omega
  refine ⟨(us.take n).length, hle, ?_, ?_, ?_⟩
  · rw [hlast, UInt64.toNat_ofNat', Nat.mod_eq_of_lt (by omega)]
  · rw [← htake]
    exact hy
  · rw [← htake]
    exact hstores

/-- The only message of type `SNAPSHOT_END` in a snapshot is the last one. -/
theorem eq_endOf_of_mem (hadds : y.OnlyAdds) (hm : m ∈ y.publishSnapShot)
    (hend : m.meMarketUpdate.type = .snapshotEnd) :
    m = ⟨UInt64.ofNat (y.startOf :: y.body).length, y.endOf⟩ := by
  rw [y.publishSnapShot_eq] at hm
  rcases List.mem_append.mp hm with hm | hm
  · have hu : m.meMarketUpdate ∈ y.startOf :: y.body := by
      rw [← numbered_updates 0 (y.startOf :: y.body)]
      exact List.mem_map_of_mem hm
    rcases List.mem_cons.mp hu with hu | hu
    · rw [hu] at hend
      cases hend
    · rcases hadds.body_type hu with htype | htype <;> rw [htype] at hend <;> cases hend
  · exact List.mem_singleton.mp hm

/-! ## What a message preserves -/

/-- What is queued of the stream is of the stream, and outside recovery the book is that of the
stream up to the number before the expected one. -/
structure PrefixState (us : List MEMarketUpdate) (c : MarketDataConsumer) : Prop where
  queued : ∀ x ∈ c.incrementalQueueMessage.entries, (⟨x.1, x.2⟩ : MDPMarketUpdate) ∈ numbered 1 us
  book : c.packetLost = false → ∃ n ≤ us.length, c.expSeqNum.toNat = n + 1 ∧
    SameBook (MarketBook.empty.applyAll c.delivered) (MarketBook.empty.applyAll (us.take n))

theorem prefixState_init (us : List MEMarketUpdate) : init.PrefixState us :=
  ⟨by simp [init], fun _ => ⟨0, Nat.zero_le _, rfl, fun _ _ => rfl⟩⟩

theorem PrefixState.direct (h : c.PrefixState us) (hlen : us.length < 2 ^ 64 - 1)
    (hlost : c.packetLost = false) (hseq : m.seqNum = c.expSeqNum) (hm : m ∈ numbered 1 us) :
    PrefixState us { c with
      expSeqNum := c.expSeqNum + 1, history := c.history ++ [.direct m] } := by
  obtain ⟨n, hn, hnext, hbook⟩ := h.book hlost
  obtain ⟨i, hi, hk⟩ := (mem_numbered hlen).mp hm
  obtain rfl : i = n := by
    rw [hseq, hnext] at hk
    omega
  obtain ⟨hilt, hget⟩ := List.getElem?_eq_some_iff.mp hi
  refine ⟨h.queued, fun _ => ?_⟩
  refine ⟨i + 1, hilt, ?_, ?_⟩
  · show (c.expSeqNum + 1).toNat = _
    rw [UInt64.toNat_add, hnext]
    show (i + 1 + 1) % 2 ^ 64 = _
    omega
  · intro t ht
    have hdelivered : (c.history ++ [Delivery.direct m]).flatMap Delivery.updates =
        c.delivered ++ [m.meMarketUpdate] := by
      rw [List.flatMap_append, List.flatMap_singleton]
      rfl
    show (MarketBook.empty.applyAll ((c.history ++ [Delivery.direct m]).flatMap Delivery.updates)) t = _
    rw [hdelivered, List.take_succ_eq_append_getElem hilt, hget, MarketBook.applyAll_append,
      MarketBook.applyAll_append]
    exact MarketBook.applyAll_congr (hbook t ht)

/-- **Recovery.** The snapshot and the queued updates after it give the book of the stream. -/
theorem PrefixState.recover (h : c.PrefixState us) (hwf : WellFormed us)
    (hlen : us.length < 2 ^ 64 - 1) (hlost : c.packetLost = true) (hn : n ≤ us.length)
    (hlast : y.lastSeqNum.toNat = n) (hstores : y.Stores (Feed.empty.steps (us.take n)))
    {joint : List MEMarketUpdate}
    (hjoint : (∃ vs, (c.incrementalQueueMessage.entries.filter fun x => y.lastSeqNum + 1 ≤ x.1) =
      numberFrom (y.lastSeqNum + 1) vs) → joint = y.body) :
    (c.recover y.endOf joint).PrefixState us := by
  rcases recover_cases c y.endOf joint with ⟨e, hrec⟩ | ⟨vs, hvs, hrec⟩
  · rw [hrec]
    refine ⟨h.queued, fun hc => ?_⟩
    have hc : c.packetLost = false := hc
    rw [hlost] at hc
    cases hc
  · have hvs : (c.incrementalQueueMessage.entries.filter fun x => y.lastSeqNum + 1 ≤ x.1) =
        numberFrom (y.lastSeqNum + 1) vs := hvs
    obtain rfl := hjoint ⟨vs, hvs⟩
    have hsorted : ((numberFrom (y.lastSeqNum + 1) vs).map Prod.fst).Pairwise (· < ·) := by
      rw [← hvs]
      exact c.incrementalQueueMessage.sorted.sublist (List.Sublist.map _ List.filter_sublist)
    have hmem : ∀ x ∈ numberFrom (y.lastSeqNum + 1) vs,
        (⟨x.1, x.2⟩ : MDPMarketUpdate) ∈ numbered 1 us := by
      intro x hx
      rw [← hvs] at hx
      exact h.queued x (List.mem_of_mem_filter hx)
    obtain ⟨hle, hdrop⟩ := eq_drop_of_numbered hlen hn hlast hsorted hmem
    have hmarkers : (vs.filter fun u => !u.isMarker) = vs := by
      rw [List.filter_eq_self]
      intro u hu
      rw [hdrop] at hu
      rw [isMarker_of_wellFormed hwf (List.mem_of_mem_take (List.mem_of_mem_drop hu))]
      rfl
    rw [hrec]
    refine ⟨by simp, fun _ => ⟨n + vs.length, hle, ?_, ?_⟩⟩
    · show (y.lastSeqNum + 1 + UInt64.ofNat vs.length).toNat = _
      rw [UInt64.toNat_add, UInt64.toNat_add, UInt64.toNat_ofNat', hlast]
      show ((n + 1) % 2 ^ 64 + vs.length % 2 ^ 64) % 2 ^ 64 = _
      omega
    · intro t ht
      unfold delivered
      have hreplay := SnapshotSynthetizer.snapshot_drop_replay hwf hstores
        (MarketBook.empty.applyAll c.delivered) (Nat.le_add_right n vs.length) ht
      rw [← hdrop, SnapshotSynthetizer.applyAll_publishSnapShot] at hreplay
      rw [updates_recovered, hmarkers, MarketBook.applyAll_append, MarketBook.applyAll_append]
      exact hreplay

theorem PrefixState.inRecovery (h : c.PrefixState us) : c.inRecovery.PrefixState us := by
  unfold MarketDataConsumer.inRecovery
  split
  · exact h
  · exact ⟨by simp [startSnapshotSync], fun hlost => by cases hlost⟩

/-- A message in recovery. -/
theorem PrefixState.queueMessage (h : c.PrefixState us) (hwf : WellFormed us)
    (hlen : us.length < 2 ^ 64 - 1) (hlost : c.packetLost = true) {fragments : List MEMarketUpdate}
    (hpending : c.Pending fragments) {isSnapshot : Bool} (hm : Sent us isSnapshot m)
    (hunmixed : fragments ≠ [] → Unmixed us c isSnapshot m) :
    (c.queueMessage isSnapshot m).PrefixState us := by
  cases isSnapshot with
  | false =>
    rw [hpending.queueIncremental]
    refine ⟨?_, h.book⟩
    intro x hx
    rcases SortedMap.mem_insert.mp hx with rfl | ⟨hx, -⟩
    · exact hm
    · exact h.queued x hx
  | true =>
    rcases queueSnapshot_cases hpending m with
      ⟨-, -, -, -, hlost', hqueue, -⟩ | ⟨hne, hseq, hend, queue, hrec⟩
    · refine ⟨?_, ?_⟩
      · rw [hqueue]
        exact h.queued
      · intro hc
        rw [hlost', hlost] at hc
        cases hc
    · -- the end of a snapshot
      obtain ⟨n, y, hy, hmem⟩ := hm
      obtain ⟨k, hk, hlast, hyk, hstores⟩ := snapshot_taken hwf hlen hy
      have hadds := SnapshotSynthetizer.onlyAdds_addAll hy
      have hmeq : m.meMarketUpdate = y.endOf := by rw [eq_endOf_of_mem hadds hmem hend]
      rw [hrec, hmeq]
      apply PrefixState.recover (c := c.setSnapshotQueue queue) ⟨h.queued, h.book⟩ hwf hlen hlost hk
        hlast hstores
      intro hvs
      have hlength : m.seqNum = UInt64.ofNat c.snapshotQueueMessage.entries.length := by
        rw [hpending.entries, length_numberFrom]
        exact hseq
      have hbody := hunmixed hne rfl hlost hend hlength
      rw [hmeq, hpending.entries, numberFrom_values] at hbody
      have hbody := hbody hvs y (by
        show SnapshotSynthetizer.init.addAll (numbered 1 (us.take y.lastSeqNum.toNat)) = .ok y
        rw [hlast]
        exact hyk)
      -- between the first fragment and the last there is the body
      obtain ⟨u, rest, rfl⟩ := List.exists_cons_of_ne_nil hne
      have hstart : u.isMarker = true := by
        have htype : u.type = .snapshotStart := hpending.start u (by simp)
        simp [MEMarketUpdate.isMarker, htype]
      rw [List.filter_cons_of_neg (by rw [hstart]; decide)]
      obtain rfl : rest = y.body := hbody
      exact filter_body hadds

theorem PrefixState.receive (h : c.PrefixState us) (hwf : WellFormed us)
    (hlen : us.length < 2 ^ 64 - 1) {fragments : List MEMarketUpdate} (hpending : c.Pending fragments)
    {isSnapshot : Bool} (hm : Sent us isSnapshot m) (hunmixed : Unmixed us c isSnapshot m) :
    (receive isSnapshot c m).PrefixState us := by
  rcases receive_cases c isSnapshot m with ⟨hlost, hseq, hreceive⟩ | ⟨-, hreceive⟩
  · rw [hreceive]
    cases isSnapshot with
    | true => exact h
    | false => exact h.direct hlen hlost hseq hm
  · rw [hreceive]
    cases hlost : c.packetLost with
    | true =>
      rw [inRecovery_of_lost hlost]
      exact h.queueMessage hwf hlen hlost hpending hm fun _ => hunmixed
    | false =>
      -- recovery has just begun, and nothing is queued yet
      have hempty : c.inRecovery.Pending [] := by
        apply pending_nil
        unfold MarketDataConsumer.inRecovery
        rw [hlost]
        rfl
      exact h.inRecovery.queueMessage hwf hlen (packetLost_inRecovery c) hempty hm
        fun hne => absurd rfl hne

/-- **The recovered state is a state of the stream**, in every run in which no two snapshots are
mixed: outside recovery the book is that of the stream up to the number before the expected one. -/
theorem run_prefixState (hwf : WellFormed us) (hlen : us.length < 2 ^ 64 - 1)
    {callbacks : List (Bool × List MDPMarketUpdate)}
    (hsent : ∀ callback ∈ callbacks, ∀ m ∈ callback.2, Sent us callback.1 m)
    (hunmixed : EachMessage (Unmixed us) init callbacks)
    (hlost : (init.run callbacks).packetLost = false) :
    SameBook (MarketBook.empty.applyAll (init.run callbacks).delivered)
      (MarketBook.empty.applyAll (us.take ((init.run callbacks).expSeqNum.toNat - 1))) := by
  have hrun : (init.run callbacks).PrefixState us ∧
      ∃ fragments, (init.run callbacks).Pending fragments := by
    apply run_rule (P := fun c isSnapshot m => Sent us isSnapshot m ∧ Unmixed us c isSnapshot m)
      (I := fun c => c.PrefixState us ∧ ∃ fragments, c.Pending fragments)
    · intro c isSnapshot m ⟨hm, hunmixed⟩ ⟨h, fragments, hpending⟩
      exact ⟨h.receive hwf hlen hpending hm hunmixed, hpending.receive isSnapshot m⟩
    · exact (eachMessage_of_forall fun _ => hsent).and hunmixed
    · exact ⟨prefixState_init us, [], pending_nil rfl⟩
  obtain ⟨n, -, hnext, hbook⟩ := hrun.1.book hlost
  rw [hnext, Nat.add_sub_cancel]
  exact hbook

/-! ## Snapshots that arrive whole, and two that are cut short -/

/-- A snapshot that arrives whole and in order is not mixed with another, whatever is left of
those. -/
theorem eachReceive_unmixed (hwf : WellFormed us) (hlen : us.length < 2 ^ 64 - 1)
    (hy : SnapshotSynthetizer.init.addAll (numbered 1 (us.take n)) = .ok y)
    (hlost : c.packetLost = true) {fragments : List MEMarketUpdate} (hpending : c.Pending fragments) :
    EachReceive (Unmixed us) true c y.publishSnapShot := by
  obtain ⟨k, hk, hlast, hyk, -⟩ := snapshot_taken hwf hlen hy
  have hadds := SnapshotSynthetizer.onlyAdds_addAll hy
  have hstarted : Receiving 0 (c.incrementalQueueMessage.entries.filter fun x => 0 ≤ x.1) c.history
      [] c :=
    ⟨hlost, rfl, rfl, fragments, hpending, fun hnil => absurd rfl hnil⟩
  have htype : ∀ u ∈ y.startOf :: y.body, u.type ≠ .snapshotEnd := by
    intro u hu
    rcases List.mem_cons.mp hu with rfl | hu
    · simp [SnapshotSynthetizer.startOf]
    · rcases hadds.body_type hu with htype | htype <;> simp [htype]
  rw [y.publishSnapShot_eq, eachReceive_append]
  constructor
  · apply eachReceive_of_forall
    intro c m hm _ _ hend
    have hu : m.meMarketUpdate ∈ y.startOf :: y.body := by
      rw [← numbered_updates 0 (y.startOf :: y.body)]
      exact List.mem_map_of_mem hm
    exact absurd hend (htype _ hu)
  · refine ⟨?_, trivial⟩
    have hsnapshot : snapshotOf ((numbered 0 (y.startOf :: y.body)).map (Prod.mk true)) =
        numbered 0 (y.startOf :: y.body) := by
      simp [snapshotOf, List.filter_map, Function.comp_def]
    have hall := hstarted.receiveAll hsnapshot
      (by
        intro m hm
        simp at hm)
      (fun _ u hu => by
        obtain rfl := Option.some.inj hu
        rfl)
      htype (by
        have hlt := length_opening_lt y
        rw [List.length_nil]
        omega)
    rw [receiveAll_map, List.nil_append] at hall
    obtain ⟨queued, hqueued, hsent⟩ := hall.pending
    obtain rfl := hsent (List.cons_ne_nil _ _)
    intro _ _ _ _ _ y' hy'
    rw [hqueued.entries, numberFrom_values]
    have hy' : SnapshotSynthetizer.init.addAll (numbered 1 (us.take y.lastSeqNum.toNat)) =
        .ok y' := hy'
    rw [hlast, hyk] at hy'
    rw [← Except.ok.inj hy']
    rfl

/-- What a snapshot after `n` updates of a stream says. -/
def snapshotAfter (us : List MEMarketUpdate) (n : Nat) : List MDPMarketUpdate :=
  let lastSeqNum := UInt64.ofNat (us.take n).length
  numbered 0 ({ type := .snapshotStart, orderId := lastSeqNum } ::
    ((List.range meMaxTickers).flatMap fun i =>
      { type := .clear, tickerId := UInt32.ofNat i } ::
        (Feed.empty.steps (us.take n)).live (UInt32.ofNat i)) ++
    [{ type := .snapshotEnd, orderId := lastSeqNum }])

theorem exists_snapshotAfter (hwf : WellFormed us) (n : Nat) :
    ∃ y, SnapshotSynthetizer.init.addAll (numbered 1 (us.take n)) = .ok y ∧
      y.publishSnapShot = snapshotAfter us n := by
  obtain ⟨y, hy, hlast, hstores⟩ := SnapshotSynthetizer.addAll_take hwf n
  refine ⟨y, hy, ?_⟩
  unfold SnapshotSynthetizer.publishSnapShot snapshotAfter
  rw [hstores.body_eq (hwf.take n).sound, hlast]

/-- Two orders of which the first is then reduced. -/
def reduced : List MEMarketUpdate :=
  [{ type := .add, orderId := 1, tickerId := 0, side := .buy, price := 10, qty := 5 },
    { type := .add, orderId := 2, tickerId := 0, side := .buy, price := 10, qty := 5 },
    { type := .modify, orderId := 1, tickerId := 0, side := .buy, price := 10, qty := 3 }]

/-- The first update is lost, a snapshot arrives, and then the last update. -/
theorem run_prefixState_reduced :
    ∃ y, SnapshotSynthetizer.init.addAll (numbered 1 (reduced.take 2)) = .ok y ∧
      ∃ c, c = init.run [(false, (numbered 1 reduced).drop 1 |>.take 1), (true, y.publishSnapShot),
        (false, (numbered 1 reduced).drop 2)] ∧ c.packetLost = false ∧
      SameBook (MarketBook.empty.applyAll c.delivered)
        (MarketBook.empty.applyAll (reduced.take (c.expSeqNum.toNat - 1))) := by
  have hwf : WellFormed reduced := by decide
  obtain ⟨y, hy, hpublish⟩ := exists_snapshotAfter hwf 2
  have hlost : (init.run [(false, (numbered 1 reduced).drop 1 |>.take 1), (true, y.publishSnapShot),
      (false, (numbered 1 reduced).drop 2)]).packetLost = false := by
    rw [hpublish]
    decide +kernel
  refine ⟨y, hy, _, rfl, hlost, run_prefixState hwf (by decide) ?_ ?_ hlost⟩
  · intro callback hcallback m hm
    simp only [List.mem_cons, List.not_mem_nil, or_false] at hcallback
    rcases hcallback with rfl | rfl | rfl
    · exact List.mem_of_mem_drop (List.mem_of_mem_take hm)
    · exact ⟨2, y, hy, hm⟩
    · exact List.mem_of_mem_drop hm
  · refine ⟨fun _ => ?_, fun _ => ?_, fun _ => ?_, trivial⟩
    · exact eachReceive_of_forall fun _ _ _ hfalse => by cases hfalse
    · exact eachReceive_unmixed hwf (by decide) hy (by decide) (pending_nil (by rfl))
    · exact eachReceive_of_forall fun _ _ _ hfalse => by cases hfalse

/-- The first update is lost, a snapshot comes up to the first order, and the next snapshot, taken
after the last update, from the second order on. Both are taken for one, and the first order keeps
the quantity it had. -/
theorem not_prefixState_of_mixed :
    WellFormed reduced ∧
    ∃ y₂ y₃, SnapshotSynthetizer.init.addAll (numbered 1 (reduced.take 2)) = .ok y₂ ∧
      SnapshotSynthetizer.init.addAll (numbered 1 (reduced.take 3)) = .ok y₃ ∧
      ∃ c, c = init.run [(false, (numbered 1 reduced).drop 1 |>.take 1),
          (true, y₂.publishSnapShot.take 3), (false, (numbered 1 reduced).drop 2),
          (true, y₃.publishSnapShot.drop 3)] ∧
        c.packetLost = false ∧ c.expSeqNum = 4 ∧
        ¬ SameBook (MarketBook.empty.applyAll c.delivered)
          (MarketBook.empty.applyAll (reduced.take (c.expSeqNum.toNat - 1))) := by
  have hwf : WellFormed reduced := by decide
  obtain ⟨y₂, hy₂, hpublish₂⟩ := exists_snapshotAfter hwf 2
  obtain ⟨y₃, hy₃, hpublish₃⟩ := exists_snapshotAfter hwf 3
  refine ⟨hwf, y₂, y₃, hy₂, hy₃, _, rfl, ?_⟩
  rw [hpublish₂, hpublish₃]
  refine ⟨by decide +kernel, by decide +kernel, ?_⟩
  intro hsame
  have hlevel := congrFun (congrFun (hsame 0 (by decide)) .buy) 10
  exact absurd hlevel (by decide +kernel)

end MarketDataConsumer

end TradingSystem
