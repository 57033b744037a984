import TradingSystem.Client.MarketDataConsumer

/-!
# No gap and no repetition between snapshots

What the consumer delivers of the incremental stream is numbered without a gap from 1, and anew from
one past the number in the `SNAPSHOT_END` of every recovery. `Numbered` says this of a history entry
by entry, `Unbroken` in terms of its stretches between two recoveries. `expSeqNum` is the next number
only outside recovery: an attempt that fails overwrites it.
-/

namespace TradingSystem

/-- The messages are numbered without a gap from `n`. -/
def Consecutive (n : Nat) (ms : List MDPMarketUpdate) : Prop :=
  (ms.map fun m => m.seqNum.toNat) = List.range' n ms.length

theorem consecutive_append {n : Nat} {ms ms' : List MDPMarketUpdate} :
    Consecutive n (ms ++ ms') ↔ Consecutive n ms ∧ Consecutive (n + ms.length) ms' := by
  unfold Consecutive
  rw [List.map_append, List.length_append, ← List.range'_append_1]
  constructor
  · intro h
    exact List.append_inj h (by simp)
  · intro ⟨h, h'⟩
    rw [h, h']

/-- Between two recoveries, and before the first one, no number is missing and none comes twice. -/
structure Unbroken (history : List Delivery) : Prop where
  first : ∀ ms post, history = ms.map .direct ++ post → Consecutive 1 ms
  after : ∀ pre last snapshot queued ms post,
    history = pre ++ .recovered last snapshot queued :: (ms.map .direct ++ post) →
    last.type = .snapshotEnd ∧ Consecutive (last.orderId.toNat + 1) (queued ++ ms)

/-- What may arrive: numbers and `SNAPSHOT_END` markers below the largest 64-bit number, and no
message of a snapshot's frame on the incremental socket. -/
def Arrives (isSnapshot : Bool) (m : MDPMarketUpdate) : Prop :=
  m.seqNum.toNat < 2 ^ 64 - 1 ∧
    (isSnapshot = true → m.meMarketUpdate.type = .snapshotEnd →
      m.meMarketUpdate.orderId.toNat < 2 ^ 64 - 1) ∧
    (isSnapshot = false → m.meMarketUpdate.isMarker = false)

instance (isSnapshot : Bool) (m : MDPMarketUpdate) : Decidable (Arrives isSnapshot m) :=
  inferInstanceAs (Decidable (_ ∧ _ ∧ _))

/-! ## Histories entry by entry -/

namespace Delivery

/-- The number after a delivery. -/
def next : Delivery → Nat
  | .direct m => m.seqNum.toNat + 1
  | .recovered last _ queued => last.orderId.toNat + 1 + queued.length

/-- The delivery may come where `n` is the next number. -/
def Continues (n : Nat) : Delivery → Prop
  | .direct m => m.seqNum.toNat = n
  | .recovered last _ queued =>
    last.type = .snapshotEnd ∧ Consecutive (last.orderId.toNat + 1) queued

end Delivery

/-- Every delivery may come where it does, the first one at `n`. -/
def Numbered : Nat → List Delivery → Prop
  | _, [] => True
  | n, d :: ds => d.Continues n ∧ Numbered d.next ds

/-- The number after a history that starts at `n`. -/
def nextAfter (n : Nat) (ds : List Delivery) : Nat := ds.foldl (fun _ d => d.next) n

variable {n : Nat} {ds ds' : List Delivery}

theorem numberedHistory_append :
    Numbered n (ds ++ ds') ↔ Numbered n ds ∧ Numbered (nextAfter n ds) ds' := by
  induction ds generalizing n with
  | nil => simp [Numbered, nextAfter]
  | cons d ds ih => simp [Numbered, nextAfter, ih, and_assoc]

theorem nextAfter_concat (d : Delivery) : nextAfter n (ds ++ [d]) = d.next := by
  simp [nextAfter, List.foldl_append]

theorem Numbered.consecutive {ms : List MDPMarketUpdate}
    (h : Numbered n (ms.map .direct ++ ds)) : Consecutive n ms := by
  induction ms generalizing n with
  | nil => rfl
  | cons m ms ih =>
    obtain ⟨hm, hms⟩ := h
    have hm : m.seqNum.toNat = n := hm
    have hms := ih hms
    unfold Consecutive at hms ⊢
    rw [List.map_cons, hms, List.length_cons, List.range'_succ]
    show _ :: List.range' (m.seqNum.toNat + 1) ms.length = _
    rw [hm]

theorem Numbered.unbroken (h : Numbered 1 ds) : Unbroken ds where
  first := by
    intro ms post hds
    rw [hds] at h
    exact h.consecutive
  after := by
    intro pre last snapshot queued ms post hds
    rw [hds, numberedHistory_append] at h
    obtain ⟨-, ⟨hend, hqueued⟩, hms⟩ := h
    exact ⟨hend, consecutive_append.mpr ⟨hqueued, hms.consecutive⟩⟩

namespace MarketDataConsumer

variable {c : MarketDataConsumer}

/-! ## What a message preserves -/

/-- The history is numbered, and outside recovery the expected number is the next one. -/
structure InSequence (c : MarketDataConsumer) : Prop where
  queued : ∀ x ∈ c.incrementalQueueMessage.entries,
    x.1.toNat < 2 ^ 64 - 1 ∧ x.2.isMarker = false
  numbered : Numbered 1 c.history
  next : c.packetLost = false → c.expSeqNum.toNat = nextAfter 1 c.history

theorem inSequence_init : init.InSequence :=
  ⟨by simp [init], trivial, fun _ => rfl⟩

theorem InSequence.inRecovery (h : c.InSequence) : c.inRecovery.InSequence := by
  unfold MarketDataConsumer.inRecovery
  split
  · exact h
  · exact ⟨by simp [startSnapshotSync], h.numbered, fun hlost => by cases hlost⟩

/-- The queued updates from one past `e` are numbered from there. -/
theorem consecutive_numbered {e : OrderId} {vs : List MEMarketUpdate} (he : e.toNat < 2 ^ 64 - 1)
    (hsorted : ((numberFrom (e + 1) vs).map Prod.fst).Pairwise (· < ·)) :
    Consecutive (e.toNat + 1) (numbered (e + 1) vs) := by
  have hsucc : (e + 1).toNat = e.toNat + 1 := by
    rw [UInt64.toNat_add]
    show (e.toNat + 1) % 2 ^ 64 = _
    omega
  unfold Consecutive
  rw [← hsucc, length_numbered, ← numberFrom_toNat hsorted]
  exact List.map_map

theorem InSequence.recover (h : c.InSequence) (hlost : c.packetLost = true)
    {last : MEMarketUpdate} (htype : last.type = .snapshotEnd)
    (hlast : last.orderId.toNat < 2 ^ 64 - 1) (joint : List MEMarketUpdate) :
    (c.recover last joint).InSequence := by
  rcases recover_cases c last joint with ⟨e, hrec⟩ | ⟨vs, hvs, hrec⟩
  · rw [hrec]
    refine ⟨h.queued, h.numbered, fun hc => ?_⟩
    have hc : c.packetLost = false := hc
    rw [hlost] at hc
    cases hc
  · have hsorted : ((numberFrom (last.orderId + 1) vs).map Prod.fst).Pairwise (· < ·) := by
      rw [← hvs]
      exact c.incrementalQueueMessage.sorted.sublist (List.Sublist.map _ List.filter_sublist)
    have hmem : ∀ x ∈ numberFrom (last.orderId + 1) vs,
        x.1.toNat < 2 ^ 64 - 1 ∧ x.2.isMarker = false := by
      intro x hx
      rw [← hvs] at hx
      exact h.queued x (List.mem_of_mem_filter hx)
    -- there is no frame message among the queued updates
    have hfilter : ((TradingSystem.numbered (last.orderId + 1) vs).filter
        fun m => !m.meMarketUpdate.isMarker) = TradingSystem.numbered (last.orderId + 1) vs := by
      rw [List.filter_eq_self]
      intro m hm
      obtain ⟨x, hx, rfl⟩ := List.mem_map.mp hm
      show (!x.2.isMarker) = true
      rw [(hmem x hx).2]
      rfl
    have hconsecutive := consecutive_numbered hlast hsorted
    rw [hrec, hfilter]
    refine ⟨by simp, ?_, fun _ => ?_⟩
    · exact numberedHistory_append.mpr ⟨h.numbered, ⟨htype, hconsecutive⟩, trivial⟩
    · show (last.orderId + 1 + UInt64.ofNat vs.length).toNat = nextAfter 1 (c.history ++ [_])
      rw [nextAfter_concat]
      show _ = last.orderId.toNat + 1 + (TradingSystem.numbered (last.orderId + 1) vs).length
      have hbound : last.orderId.toNat + 1 + vs.length < 2 ^ 64 := by
        cases hvs' : vs.length with
        | zero => omega
        | succ i =>
          -- the last queued number is below the largest one
          have hnum : last.orderId.toNat + 1 + i ∈
              (TradingSystem.numbered (last.orderId + 1) vs).map fun m => m.seqNum.toNat := by
            rw [hconsecutive, length_numbered, List.mem_range'_1]
            omega
          obtain ⟨m, hm, hmi⟩ := List.mem_map.mp hnum
          obtain ⟨x, hx, rfl⟩ := List.mem_map.mp hm
          have hx := (hmem x hx).1
          dsimp only at hmi
          omega
      rw [length_numbered, UInt64.toNat_add, UInt64.toNat_add, UInt64.toNat_ofNat']
      show ((last.orderId.toNat + 1) % 2 ^ 64 + vs.length % 2 ^ 64) % 2 ^ 64 = _
      omega

theorem InSequence.queueMessage (h : c.InSequence) (hlost : c.packetLost = true)
    {us : List MEMarketUpdate} (hpending : c.Pending us) {isSnapshot : Bool} {m : MDPMarketUpdate}
    (hm : Arrives isSnapshot m) : (c.queueMessage isSnapshot m).InSequence := by
  cases isSnapshot with
  | false =>
    rw [hpending.queueIncremental]
    refine ⟨?_, h.numbered, h.next⟩
    intro x hx
    rcases SortedMap.mem_insert.mp hx with rfl | ⟨hx, -⟩
    · exact ⟨hm.1, hm.2.2 rfl⟩
    · exact h.queued x hx
  | true =>
    rcases queueSnapshot_cases hpending m with
      ⟨us', -, -, hexp, hlost', hqueue, hhistory⟩ | ⟨-, -, hend, queue, hrec⟩
    · refine ⟨?_, ?_, ?_⟩
      · rw [hqueue]
        exact h.queued
      · rw [hhistory]
        exact h.numbered
      · rw [hlost', hexp, hhistory]
        exact h.next
    · rw [hrec]
      apply InSequence.recover (c := c.setSnapshotQueue queue) _ hlost hend (hm.2.1 rfl hend)
      exact ⟨h.queued, h.numbered, h.next⟩

theorem InSequence.receive (h : c.InSequence) {us : List MEMarketUpdate} (hpending : c.Pending us)
    {isSnapshot : Bool} {m : MDPMarketUpdate} (hm : Arrives isSnapshot m) :
    (receive isSnapshot c m).InSequence := by
  rcases receive_cases c isSnapshot m with ⟨hlost, hseq, hreceive⟩ | ⟨-, hreceive⟩
  · rw [hreceive]
    cases isSnapshot with
    | true => exact h
    | false =>
      -- the message in turn
      have hnext := h.next hlost
      refine ⟨h.queued, ?_, fun _ => ?_⟩
      · refine numberedHistory_append.mpr ⟨h.numbered, ?_, trivial⟩
        show m.seqNum.toNat = _
        rw [hseq, hnext]
      · show (c.expSeqNum + 1).toNat = nextAfter 1 (c.history ++ [.direct m])
        rw [nextAfter_concat, UInt64.toNat_add]
        show _ = m.seqNum.toNat + 1
        have hbound := hm.1
        rw [hseq] at hbound ⊢
        show (c.expSeqNum.toNat + 1) % 2 ^ 64 = _
        omega
  · rw [hreceive]
    obtain ⟨us', hpending'⟩ := hpending.inRecovery
    exact h.inRecovery.queueMessage (packetLost_inRecovery c) hpending' hm

/-- What holds in every run. -/
theorem inSequence_run {callbacks : List (Bool × List MDPMarketUpdate)}
    (harrives : ∀ callback ∈ callbacks, ∀ m ∈ callback.2, Arrives callback.1 m) :
    (init.run callbacks).InSequence := by
  have hrun : (init.run callbacks).InSequence ∧ ∃ us, (init.run callbacks).Pending us := by
    apply run_rule (P := fun _ isSnapshot m => Arrives isSnapshot m)
      (I := fun c => c.InSequence ∧ ∃ us, c.Pending us)
    · intro c isSnapshot m hm ⟨h, us, hpending⟩
      exact ⟨h.receive hpending hm, hpending.receive isSnapshot m⟩
    · exact eachMessage_of_forall fun _ => harrives
    · exact ⟨inSequence_init, [], pending_nil rfl⟩
  exact hrun.1

/-! ## Attempts to recover -/

/-- The attempt did not complete: nothing was delivered, and recovery goes on. -/
def Stays (c c' : MarketDataConsumer) : Prop :=
  c'.packetLost = true ∧ c'.history = c.history

/-- The attempt completed: one delivery was made, and recovery is over. -/
def Completes (c c' : MarketDataConsumer) : Prop :=
  c'.packetLost = false ∧
    ∃ last snapshot queued, c'.history = c.history ++ [.recovered last snapshot queued]

theorem recover_stays_or_completes (hlost : c.packetLost = true) (last : MEMarketUpdate)
    (joint : List MEMarketUpdate) :
    c.Stays (c.recover last joint) ∨ c.Completes (c.recover last joint) := by
  rcases recover_cases c last joint with ⟨e, hrec⟩ | ⟨vs, -, hrec⟩
  · left
    rw [hrec]
    exact ⟨hlost, rfl⟩
  · right
    rw [hrec]
    exact ⟨rfl, last, joint, _, rfl⟩

/-- There is no third way for an attempt to end. -/
theorem checkSnapshotSync_stays_or_completes (hlost : c.packetLost = true) :
    c.Stays c.checkSnapshotSync ∨ c.Completes c.checkSnapshotSync := by
  unfold checkSnapshotSync
  split
  · exact Or.inl ⟨hlost, rfl⟩
  · split
    · exact Or.inl ⟨hlost, rfl⟩
    · split
      · exact Or.inl ⟨hlost, rfl⟩
      · dsimp only
        split
        · exact Or.inl ⟨hlost, rfl⟩
        · apply recover_stays_or_completes hlost

/-- **No gap and no repetition between snapshots.** Whatever arrives, the updates delivered from one
recovery up to the next are numbered without a gap from one past the number in its `SNAPSHOT_END`,
and those before any recovery from 1. An attempt that does not complete delivers nothing and leaves
the consumer in recovery. -/
theorem run_unbroken (callbacks : List (Bool × List MDPMarketUpdate))
    (harrives : ∀ callback ∈ callbacks, ∀ m ∈ callback.2, Arrives callback.1 m) :
    Unbroken (init.run callbacks).history ∧
      ∀ c : MarketDataConsumer, c.packetLost = true →
        c.Stays c.checkSnapshotSync ∨ c.Completes c.checkSnapshotSync :=
  ⟨(inSequence_run harrives).numbered.unbroken, fun _ => checkSnapshotSync_stays_or_completes⟩

/-- Two updates in turn, a loss, and a recovery; the one after it is in turn again. -/
def oneRecovery : List (Bool × List MDPMarketUpdate) :=
  [(false, [⟨1, { type := .add }⟩, ⟨3, { type := .trade }⟩]),
    (true, [⟨0, { type := .snapshotStart }⟩, ⟨1, { type := .add }⟩,
      ⟨2, { type := .snapshotEnd, orderId := 2 }⟩]),
    (false, [⟨4, { type := .clear }⟩])]

theorem run_unbroken_one_recovery :
    (∀ callback ∈ oneRecovery, ∀ m ∈ callback.2, Arrives callback.1 m) ∧
      (init.run oneRecovery).delivered.map MEMarketUpdate.type =
        [.add, .add, .trade, .clear] ∧
      Unbroken (init.run oneRecovery).history := by
  have harrives : ∀ callback ∈ oneRecovery, ∀ m ∈ callback.2, Arrives callback.1 m := by
    decide
  exact ⟨harrives, by decide, (run_unbroken oneRecovery harrives).1⟩

end MarketDataConsumer

end TradingSystem
