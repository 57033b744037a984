import TradingSystem.Client.MarketDataConsumer

/-!
# A complete snapshot ends recovery

The messages of one `publishSnapShot` arrive in order, whatever is queued of earlier ones; the
queued updates after it have no gap. `Receiving` is what holds while they arrive, and the last of
them ends recovery (`snapshot_ends_recovery`).

Two things the code does on purpose or by its widths: queued updates of a snapshot's frame types are
not delivered, and no update comes after number 2^64-1.
-/

namespace TradingSystem

namespace MarketDataConsumer

variable {c : MarketDataConsumer} {m : MDPMarketUpdate} {e : UInt64}
  {queue : List (UInt64 × MEMarketUpdate)} {history : List Delivery} {sent rest : List MEMarketUpdate}
  {u : MEMarketUpdate} {vs : List MEMarketUpdate}

/-! ## While a snapshot arrives -/

/-- Recovery goes on, nothing was delivered, the queue from `e` on is `queue`, and what is queued of
the snapshot is `sent`; before its first message that may be what is left of others. -/
structure Receiving (e : UInt64) (queue : List (UInt64 × MEMarketUpdate))
    (history : List Delivery) (sent : List MEMarketUpdate) (c : MarketDataConsumer) : Prop where
  lost : c.packetLost = true
  history_eq : c.history = history
  queued : (c.incrementalQueueMessage.entries.filter fun x => e ≤ x.1) = queue
  pending : ∃ us, c.Pending us ∧ (sent ≠ [] → us = sent)

/-- The message changes nothing in the queue from `e` on. -/
def Repeats (e : UInt64) (queue : List (UInt64 × MEMarketUpdate)) (m : MDPMarketUpdate) : Prop :=
  m.seqNum < e ∨ (m.seqNum, m.meMarketUpdate) ∈ queue

theorem Receiving.incremental (h : Receiving e queue history sent c) (hm : Repeats e queue m) :
    Receiving e queue history sent (receive false c m) := by
  obtain ⟨us, hpending, hsent⟩ := h.pending
  rw [receive_of_lost h.lost, hpending.queueIncremental]
  refine ⟨h.lost, h.history_eq, ?_, us, ⟨hpending.entries, hpending.start, hpending.noEnd⟩, hsent⟩
  show ((c.incrementalQueueMessage.insert m.seqNum m.meMarketUpdate).entries.filter _) = queue
  rcases hm with hlt | hmem
  · have hnot : decide (e ≤ m.seqNum) = false := by simpa using hlt
    rw [SortedMap.filter_insert_of_not (p := fun k => decide (e ≤ k)) hnot]
    exact h.queued
  · rw [← h.queued] at hmem
    rw [SortedMap.insert_of_mem (List.mem_of_mem_filter hmem)]
    exact h.queued

theorem Receiving.snapshot (h : Receiving e queue history sent c)
    (hseq : m.seqNum = UInt64.ofNat sent.length) (hlen : sent.length < 2 ^ 64)
    (hstart : sent = [] → m.meMarketUpdate.type = .snapshotStart)
    (hend : m.meMarketUpdate.type ≠ .snapshotEnd) :
    Receiving e queue history (sent ++ [m.meMarketUpdate]) (receive true c m) := by
  obtain ⟨us, hpending, hsent⟩ := h.pending
  have hqueue : (c.queueMessage true m).Pending (sent ++ [m.meMarketUpdate]) ∧
      c.SameButSnapshot (c.queueMessage true m) := by
    cases sent with
    | nil => exact hpending.queue_start hseq (hstart rfl)
    | cons v sent =>
      obtain rfl := hsent (by simp)
      exact hpending.queue_next (hpending.not_mem_next hseq hlen) hseq hend
  obtain ⟨hpending', -, hlost, hincremental, hhistory⟩ := hqueue
  rw [receive_of_lost h.lost]
  refine ⟨hlost.trans h.lost, hhistory.trans h.history_eq, ?_, _, hpending', fun _ => rfl⟩
  rw [hincremental]
  exact h.queued

/-- **Run lemma.** The messages of a snapshot but the last are queued, whatever comes between them. -/
theorem Receiving.receiveAll (h : Receiving e queue history sent c)
    {arrivals : List (Bool × MDPMarketUpdate)}
    (hsnapshot : snapshotOf arrivals = numbered (UInt64.ofNat sent.length) rest)
    (hincremental : ∀ m, (false, m) ∈ arrivals → Repeats e queue m)
    (hstart : sent = [] → ∀ u ∈ rest.head?, u.type = .snapshotStart)
    (hend : ∀ u ∈ rest, u.type ≠ .snapshotEnd) (hlen : sent.length + rest.length < 2 ^ 64) :
    Receiving e queue history (sent ++ rest) (c.receiveAll arrivals) := by
  induction arrivals generalizing c sent rest with
  | nil =>
    cases rest with
    | nil => simpa [MarketDataConsumer.receiveAll] using h
    | cons u rest => cases hsnapshot
  | cons arrival arrivals ih =>
    obtain ⟨isSnapshot, m⟩ := arrival
    have hincremental' : ∀ m, (false, m) ∈ arrivals → Repeats e queue m :=
      fun m hm => hincremental m (List.mem_cons_of_mem _ hm)
    cases isSnapshot with
    | false =>
      exact ih (h.incremental (hincremental m List.mem_cons_self)) hsnapshot hincremental' hstart
        hend hlen
    | true =>
      cases rest with
      | nil => cases hsnapshot
      | cons u rest =>
        have hcons : snapshotOf ((true, m) :: arrivals) = m :: snapshotOf arrivals := rfl
        rw [hcons] at hsnapshot
        obtain ⟨rfl, hrest⟩ := List.cons.inj hsnapshot
        rw [List.length_cons] at hlen
        have hnext := h.snapshot (m := ⟨UInt64.ofNat sent.length, u⟩) rfl (by omega)
          (fun hnil => hstart hnil u (by simp)) (hend u List.mem_cons_self)
        rw [List.append_cons]
        apply ih hnext _ hincremental' _ (fun v hv => hend v (List.mem_cons_of_mem _ hv))
        · rw [List.length_append, List.length_singleton]
          omega
        · rw [hrest, List.length_append, UInt64.ofNat_add]
          rfl
        · intro hnil
          simp at hnil

/-- The last message of a snapshot completes it. -/
theorem Receiving.complete (h : Receiving e queue history (u :: sent) c)
    (hseq : m.seqNum = UInt64.ofNat (u :: sent).length) (hlen : (u :: sent).length < 2 ^ 64)
    (hend : m.meMarketUpdate.type = .snapshotEnd) :
    ∃ q, receive true c m = (c.setSnapshotQueue q).recover m.meMarketUpdate
      ((u :: sent).filter fun u => !u.isMarker) := by
  obtain ⟨us, hpending, hsent⟩ := h.pending
  obtain rfl := hsent (List.cons_ne_nil _ _)
  rw [receive_of_lost h.lost]
  exact ⟨_, hpending.queue_end (hpending.not_mem_next hseq hlen) hseq hend⟩

/-! ## The whole snapshot -/

/-- All messages of a snapshot of `y` arrive, the last one last, and the updates queued after it are
`vs`, numbered without a gap, and stay so. -/
structure Arriving (c : MarketDataConsumer) (y : SnapshotSynthetizer) (vs : List MEMarketUpdate)
    (callbacks : List (Bool × List MDPMarketUpdate)) : Prop where
  queued : (c.incrementalQueueMessage.entries.filter fun x => y.lastSeqNum < x.1) =
    numberFrom (y.lastSeqNum + 1) vs
  snapshot : snapshotOf (messagesOf callbacks) = y.publishSnapShot
  last : ∃ during m, messagesOf callbacks = during ++ [(true, m)]
  unchanged : ∀ m, (false, m) ∈ messagesOf callbacks →
    m.seqNum ≤ y.lastSeqNum ∨
      (m.seqNum, m.meMarketUpdate) ∈ numberFrom (y.lastSeqNum + 1) vs

/-- Recovery ends with the last message and not earlier; then the snapshot without its frame was
delivered and after it `queued`, and the number after the `vs` is expected. -/
structure Ends (c : MarketDataConsumer) (y : SnapshotSynthetizer) (vs queued : List MEMarketUpdate)
    (callbacks : List (Bool × List MDPMarketUpdate)) : Prop where
  notEarlier : ∀ earlier rest, messagesOf callbacks = earlier ++ rest → rest ≠ [] →
    (c.receiveAll earlier).packetLost = true ∧ (c.receiveAll earlier).delivered = c.delivered
  recovered : (c.run callbacks).packetLost = false
  next : (c.run callbacks).expSeqNum = y.lastSeqNum + UInt64.ofNat vs.length + 1
  delivers : (c.run callbacks).delivered = c.delivered ++
    ((y.publishSnapShot.map MDPMarketUpdate.meMarketUpdate).filter fun u => !u.isMarker) ++ queued
  snapshotQueue : (c.run callbacks).snapshotQueueMessage = .empty
  incrementalQueue : (c.run callbacks).incrementalQueueMessage = .empty

variable {y : SnapshotSynthetizer} {callbacks : List (Bool × List MDPMarketUpdate)}

theorem snapshotOf_append (arrivals arrivals' : List (Bool × MDPMarketUpdate)) :
    snapshotOf (arrivals ++ arrivals') = snapshotOf arrivals ++ snapshotOf arrivals' := by
  unfold snapshotOf
  rw [List.filter_append, List.map_append]

theorem filter_body (h : y.OnlyAdds) : (y.body.filter fun u => !u.isMarker) = y.body := by
  rw [List.filter_eq_self]
  intro u hu
  rcases h.body_type hu with htype | htype <;> simp [MEMarketUpdate.isMarker, htype]

theorem isMarker_startOf (y : SnapshotSynthetizer) : y.startOf.isMarker = true := rfl

theorem isMarker_endOf (y : SnapshotSynthetizer) : y.endOf.isMarker = true := rfl

/-- What a snapshot delivers. -/
theorem filter_publishSnapShot (h : y.OnlyAdds) :
    ((y.publishSnapShot.map MDPMarketUpdate.meMarketUpdate).filter fun u => !u.isMarker) =
      y.body := by
  rw [y.publishSnapShot_eq, List.map_append, numbered_updates, List.filter_append,
    List.filter_cons_of_neg (by rw [isMarker_startOf]; decide), filter_body h]
  simp [isMarker_endOf]

theorem length_opening_lt (y : SnapshotSynthetizer) : (y.startOf :: y.body).length < 2 ^ 64 := by
  have hle := y.length_body_le
  unfold meMaxTickers meMaxOrderIds at hle
  rw [List.length_cons]
  omega

/-- **Before the last message** of a snapshot recovery goes on, from whatever is queued. -/
theorem receiving_of_publishSnapShot (hlost : c.packetLost = true) {us : List MEMarketUpdate}
    (hpending : c.Pending us) (hadds : y.OnlyAdds)
    {during earlier rest : List (Bool × MDPMarketUpdate)}
    (hsnapshot : snapshotOf during = numbered 0 (y.startOf :: y.body))
    (hqueue : (c.incrementalQueueMessage.entries.filter fun x => e ≤ x.1) = queue)
    (hrepeats : ∀ m, (false, m) ∈ during → Repeats e queue m)
    (hsplit : during = earlier ++ rest) :
    Receiving e queue c.history ((y.startOf :: y.body).take (snapshotOf earlier).length)
      (c.receiveAll earlier) := by
  have hstarted : Receiving e queue c.history [] c :=
    ⟨hlost, rfl, hqueue, us, hpending, fun hnil => absurd rfl hnil⟩
  rw [hsplit, snapshotOf_append] at hsnapshot
  apply hstarted.receiveAll (numbered_eq_append hsnapshot.symm)
  · intro m hm
    apply hrepeats
    rw [hsplit]
    exact List.mem_append_left _ hm
  · intro _ u hu
    rw [List.head?_take] at hu
    split at hu
    · cases hu
    · obtain rfl := Option.some.inj hu
      rfl
  · intro u hu
    rcases List.mem_cons.mp (List.mem_of_mem_take hu) with rfl | hu
    · simp [SnapshotSynthetizer.startOf]
    · rcases hadds.body_type hu with htype | htype <;> simp [htype]
  · have hlen := length_opening_lt y
    rw [List.length_take, List.length_nil]
    omega

/-- The messages of a snapshot without its last one. -/
theorem Arriving.split (h : c.Arriving y vs callbacks) :
    ∃ during, messagesOf callbacks =
        during ++ [(true, ⟨UInt64.ofNat (y.startOf :: y.body).length, y.endOf⟩)] ∧
      snapshotOf during = numbered 0 (y.startOf :: y.body) := by
  obtain ⟨during, m, hduring⟩ := h.last
  have hsnapshot := h.snapshot
  rw [hduring, snapshotOf_append, y.publishSnapShot_eq] at hsnapshot
  obtain ⟨hbefore, hm⟩ := List.append_inj' hsnapshot (by simp [snapshotOf])
  have hm : m = _ := (List.cons.inj hm).1
  rw [hm] at hduring
  exact ⟨during, hduring, hbefore⟩

theorem delivered_eq (h : c.history = history) : c.delivered = history.flatMap Delivery.updates := by
  rw [← h]
  rfl

/-- **What a complete snapshot leads to**: recovery goes on until the last message, which has the
updates queued from `e` on checked. -/
theorem Arriving.run_eq (h : c.Arriving y vs callbacks) (hlost : c.packetLost = true)
    {us : List MEMarketUpdate} (hpending : c.Pending us) (hadds : y.OnlyAdds)
    (hqueue : (c.incrementalQueueMessage.entries.filter fun x => e ≤ x.1) = queue)
    (hrepeats : ∀ m, (false, m) ∈ messagesOf callbacks → Repeats e queue m) :
    (∀ earlier rest, messagesOf callbacks = earlier ++ rest → rest ≠ [] →
      (c.receiveAll earlier).packetLost = true ∧ (c.receiveAll earlier).history = c.history) ∧
    ∃ c' q, Receiving e queue c.history (y.startOf :: y.body) c' ∧
      c.run callbacks = (c'.setSnapshotQueue q).recover y.endOf y.body := by
  obtain ⟨during, hduring, hsnapshot⟩ := h.split
  have hreceiving : ∀ earlier rest, during = earlier ++ rest →
      Receiving e queue c.history ((y.startOf :: y.body).take (snapshotOf earlier).length)
        (c.receiveAll earlier) := by
    intro earlier rest
    apply receiving_of_publishSnapShot hlost hpending hadds hsnapshot hqueue
    intro m hm
    apply hrepeats
    rw [hduring]
    exact List.mem_append_left _ hm
  have hbefore : ∀ earlier rest, messagesOf callbacks = earlier ++ rest → rest ≠ [] →
      (c.receiveAll earlier).packetLost = true ∧ (c.receiveAll earlier).history = c.history := by
    intro earlier rest hsplit hrest
    have hearlier : during = earlier ++ rest.dropLast := by
      rw [← List.dropLast_append_of_ne_nil hrest, ← hsplit, hduring, List.dropLast_concat]
    exact ⟨(hreceiving _ _ hearlier).lost, (hreceiving _ _ hearlier).history_eq⟩
  have hrun : c.run callbacks = _ := run_eq_receiveAll fun earlier rest hsplit hrest =>
    (hbefore earlier rest hsplit hrest).1
  -- the last message
  have hall := hreceiving during [] (List.append_nil _).symm
  rw [hsnapshot, length_numbered, List.take_length] at hall
  rw [hduring, receiveAll_append] at hrun
  obtain ⟨q, hcomplete⟩ := hall.complete
    (m := ⟨UInt64.ofNat (y.startOf :: y.body).length, y.endOf⟩) rfl (length_opening_lt y) rfl
  rw [List.filter_cons_of_neg (by rw [isMarker_startOf]; decide), filter_body hadds] at hcomplete
  exact ⟨hbefore, _, q, hall, hrun.trans hcomplete⟩

/-- Below the largest number the numbers above `s` are those from `s + 1` on. -/
theorem succ_le_iff {s k : UInt64} (hs : s.toNat < 2 ^ 64 - 1) : s + 1 ≤ k ↔ s < k := by
  have hnext : (s + 1).toNat = s.toNat + 1 := by
    rw [UInt64.toNat_add]
    show (s.toNat + 1) % 2 ^ 64 = _
    omega
  rw [UInt64.le_iff_toNat_le, UInt64.lt_iff_toNat_lt, hnext]
  omega

theorem Arriving.ends (h : c.Arriving y vs callbacks) (hlost : c.packetLost = true)
    {us : List MEMarketUpdate} (hpending : c.Pending us) (hadds : y.OnlyAdds)
    (hbound : y.lastSeqNum.toNat < 2 ^ 64 - 1) :
    c.Ends y vs (vs.filter fun u => !u.isMarker) callbacks := by
  have hqueue : (c.incrementalQueueMessage.entries.filter fun x => y.lastSeqNum + 1 ≤ x.1) =
      numberFrom (y.lastSeqNum + 1) vs := by
    rw [← h.queued]
    apply List.filter_congr
    intro x _
    rw [decide_eq_decide]
    exact succ_le_iff hbound
  have hrepeats : ∀ m, (false, m) ∈ messagesOf callbacks →
      Repeats (y.lastSeqNum + 1) (numberFrom (y.lastSeqNum + 1) vs) m := by
    intro m hm
    rcases h.unchanged m hm with hle | hmem
    · left
      rw [← not_le, succ_le_iff hbound, not_lt]
      exact hle
    · exact Or.inr hmem
  obtain ⟨hbefore, c', q, hall, hrun⟩ := h.run_eq hlost hpending hadds hqueue hrepeats
  have hjoin := joinIncremental_of_numbered c'.incrementalQueueMessage.sorted hall.queued
  have hfinal : c.run callbacks = {
      expSeqNum := y.lastSeqNum + 1 + UInt64.ofNat vs.length
      packetLost := false
      snapshotQueueMessage := .empty
      incrementalQueueMessage := .empty
      history := c.history ++ [.recovered y.endOf y.body
        ((numbered (y.lastSeqNum + 1) vs).filter fun m => !m.meMarketUpdate.isMarker)] } := by
    rw [hrun, ← hall.history_eq]
    unfold recover
    dsimp only [setSnapshotQueue, SnapshotSynthetizer.endOf]
    rw [hjoin]
  refine ⟨?_, ?_, ?_, ?_, ?_, ?_⟩
  · intro earlier rest hsplit hrest
    obtain ⟨hlost, hhistory⟩ := hbefore earlier rest hsplit hrest
    exact ⟨hlost, delivered_eq hhistory⟩
  · rw [hfinal]
  · rw [hfinal]
    dsimp only
    rw [add_assoc, add_assoc, add_comm (1 : UInt64)]
  · rw [filter_publishSnapShot hadds, hfinal]
    unfold delivered
    rw [updates_recovered, List.append_assoc]
  · rw [hfinal]
  · rw [hfinal]

/-- **A complete snapshot ends recovery**, from every state a run leads to and whatever is left of
earlier snapshots, with its last message and not earlier. -/
theorem snapshot_ends_recovery {before : List (Bool × List MDPMarketUpdate)}
    (hlost : (init.run before).packetLost = true) {ms : List MDPMarketUpdate}
    (hy : SnapshotSynthetizer.init.addAll ms = .ok y) (hbound : y.lastSeqNum.toNat < 2 ^ 64 - 1)
    (h : (init.run before).Arriving y vs callbacks) :
    (init.run before).Ends y vs (vs.filter fun u => !u.isMarker) callbacks := by
  obtain ⟨us, hpending⟩ := pending_run before
  exact h.ends hlost hpending (SnapshotSynthetizer.onlyAdds_addAll hy) hbound

/-- The messages of a snapshot in one buffer. -/
theorem arriving_alone (hqueue : (c.incrementalQueueMessage.entries.filter fun x =>
      y.lastSeqNum < x.1) = numberFrom (y.lastSeqNum + 1) vs) :
    c.Arriving y vs [(true, y.publishSnapShot)] where
  queued := hqueue
  snapshot := by simp [messagesOf, snapshotOf, List.filter_map, Function.comp_def]
  last := by
    refine ⟨(numbered 0 (y.startOf :: y.body)).map (Prod.mk true),
      ⟨UInt64.ofNat (y.startOf :: y.body).length, y.endOf⟩, ?_⟩
    rw [y.publishSnapShot_eq]
    simp [messagesOf]
  unchanged := by
    intro m hm
    simp [messagesOf] at hm

/-- The first update came second, and a part of some snapshot is queued. -/
def outOfTurn (u : MEMarketUpdate) : List (Bool × List MDPMarketUpdate) :=
  [(false, [⟨2, { type := .add, orderId := 2 }⟩, ⟨1, u⟩]),
    (true, [⟨0, { type := .snapshotStart }⟩, ⟨1, { type := .clear }⟩])]

theorem snapshot_ends_recovery_out_of_turn :
    (init.run (outOfTurn { type := .add, orderId := 1 })).Ends .init
      [{ type := .add, orderId := 1 }, { type := .add, orderId := 2 }]
      ([{ type := .add, orderId := 1 }, { type := .add, orderId := 2 }].filter fun u => !u.isMarker)
      [(true, SnapshotSynthetizer.init.publishSnapShot)] := by
  have hnone : SnapshotSynthetizer.init.addAll [] = .ok .init := rfl
  exact snapshot_ends_recovery (by decide) hnone (by decide) (arriving_alone (by decide))

/-- Without the two conditions it may not end as it should: a queued update of type `SNAPSHOT_START`
is not delivered, and after update number 2^64-1 the updates are checked from number 0 on, so that a
recovery with one queued before goes on. -/
theorem not_ends_recovery :
    (∃ c y vs callbacks, (∃ before, c = init.run before) ∧ c.packetLost = true ∧
      (∃ ms, SnapshotSynthetizer.init.addAll ms = .ok y) ∧ y.lastSeqNum.toNat < 2 ^ 64 - 1 ∧
      c.Arriving y vs callbacks ∧ ¬ c.Ends y vs vs callbacks) ∧
    ∃ c y vs callbacks, (∃ before, c = init.run before) ∧ c.packetLost = true ∧
      (∃ ms, SnapshotSynthetizer.init.addAll ms = .ok y) ∧ (∀ v ∈ vs, v.isMarker = false) ∧
      c.Arriving y vs callbacks ∧ ¬ c.Ends y vs vs callbacks := by
  constructor
  · have harriving : (init.run (outOfTurn { type := .snapshotStart })).Arriving .init
        [{ type := .snapshotStart }, { type := .add, orderId := 2 }]
        [(true, SnapshotSynthetizer.init.publishSnapShot)] := arriving_alone (by decide)
    refine ⟨_, .init, _, _, ⟨_, rfl⟩, by decide, ⟨[], rfl⟩, by decide, harriving, ?_⟩
    intro hends
    obtain ⟨us, hpending⟩ := pending_run (outOfTurn { type := .snapshotStart })
    have hends' := harriving.ends (by decide) hpending SnapshotSynthetizer.onlyAdds_init (by decide)
    have hsame := List.append_cancel_left (hends.delivers.symm.trans hends'.delivers)
    exact absurd hsame (by decide)
  · obtain ⟨ms, y, hy, hlast⟩ := SnapshotSynthetizer.exists_lastSeqNum (2 ^ 64 - 1)
    have hlast : y.lastSeqNum = 0xFFFFFFFFFFFFFFFF := hlast
    have hzero : y.lastSeqNum + 1 = 0 := by
      rw [hlast]
      rfl
    have harriving : (init.run [(false, [⟨2, { type := .add }⟩])]).Arriving y []
        [(true, y.publishSnapShot)] := by
      apply arriving_alone
      rw [hlast]
      decide
    refine ⟨_, y, [], _, ⟨_, rfl⟩, by decide, ⟨ms, hy⟩, by simp, harriving, ?_⟩
    intro hends
    obtain ⟨us, hpending⟩ := pending_run [(false, [⟨2, { type := .add }⟩])]
    obtain ⟨-, c', q, hall, hrun⟩ := harriving.run_eq (e := 0) (by decide) hpending
      (SnapshotSynthetizer.onlyAdds_addAll hy) rfl (by
        intro m hm
        simp [messagesOf] at hm)
    have hrecovered := hends.recovered
    rw [hrun] at hrecovered
    rcases recover_cases (c'.setSnapshotQueue q) y.endOf y.body with ⟨e, hrec⟩ | ⟨vs, hvs, -⟩
    · rw [hrec] at hrecovered
      have hlost : c'.packetLost = false := hrecovered
      rw [hall.lost] at hlost
      cases hlost
    · have hqueued := hall.queued
      have hvs : (c'.incrementalQueueMessage.entries.filter fun x => y.lastSeqNum + 1 ≤ x.1) =
          numberFrom (y.lastSeqNum + 1) vs := hvs
      rw [hzero, hqueued] at hvs
      cases vs with
      | nil => exact absurd (congrArg List.length hvs) (by decide)
      | cons v vs => exact absurd (Prod.mk.inj (List.cons.inj hvs).1).1 (by decide)

end MarketDataConsumer

end TradingSystem
