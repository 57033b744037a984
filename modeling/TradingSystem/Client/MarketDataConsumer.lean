import TradingSystem.Lib.SortedMap
import TradingSystem.Exchange.SnapshotSynthetizer

/-!
# `MarketDataConsumer`: two lossy streams merged into one

`client/market_data_consumer.hpp` and `client/market_data_consumer.cpp`. The consumer delivers the
incremental updates in their turn. Once one is out of turn it goes into recovery: it joins the
snapshot stream and queues what arrives on both, by sequence number, until it has a snapshot without
a gap and the updates after it without a gap; these it delivers together (`checkSnapshotSync`).

A datagram carries whole messages, so a callback is the list of messages in the receive buffer.
Joining and leaving the multicast group and its assertions concern the network alone and are left
out. What was delivered is a history that also records where it came from (`Delivery`).

In recovery the snapshot queue is always the beginning of some snapshot (`Pending`), and
`queueSnapshot_cases` is everything a message on the snapshot socket can do.
-/

namespace TradingSystem

/-- `SNAPSHOT_START` or `SNAPSHOT_END`. -/
def MEMarketUpdate.isMarker (u : MEMarketUpdate) : Bool :=
  u.type = .snapshotStart || u.type = .snapshotEnd

/-- What is written to the queue of the trade engine in one go. -/
inductive Delivery where
  /-- an incremental update in its turn -/
  | direct (m : MDPMarketUpdate)
  /-- the orders of a snapshot that ends with `last`, and the queued incremental updates after it -/
  | recovered (last : MEMarketUpdate) (snapshot : List MEMarketUpdate)
      (queued : List MDPMarketUpdate)

namespace Delivery

def updates : Delivery → List MEMarketUpdate
  | .direct m => [m.meMarketUpdate]
  | .recovered _ snapshot queued => snapshot ++ queued.map MDPMarketUpdate.meMarketUpdate

end Delivery

structure MarketDataConsumer where
  expSeqNum : UInt64
  packetLost : Bool
  snapshotQueueMessage : SortedMap UInt64 MEMarketUpdate
  incrementalQueueMessage : SortedMap UInt64 MEMarketUpdate
  /-- what went into `incoming_market_update_queue_`, oldest first -/
  history : List Delivery

namespace MarketDataConsumer

def init : MarketDataConsumer where
  expSeqNum := 1
  packetLost := false
  snapshotQueueMessage := .empty
  incrementalQueueMessage := .empty
  history := []

/-- What went into `incoming_market_update_queue_`. -/
def delivered (c : MarketDataConsumer) : List MEMarketUpdate := c.history.flatMap Delivery.updates

def setSnapshotQueue (c : MarketDataConsumer) (queue : SortedMap UInt64 MEMarketUpdate) :
    MarketDataConsumer :=
  { c with snapshotQueueMessage := queue }

def startSnapshotSync (c : MarketDataConsumer) : MarketDataConsumer :=
  { c with snapshotQueueMessage := .empty, incrementalQueueMessage := .empty }

/-- The loop over the snapshot queue: nothing if there is a gap, else what is to be delivered. -/
def joinSnapshot (nextSeqNum : UInt64) :
    List (UInt64 × MEMarketUpdate) → Option (List MEMarketUpdate)
  | [] => some []
  | (seqNum, u) :: rest =>
    if seqNum ≠ nextSeqNum then none
    else (joinSnapshot (nextSeqNum + 1) rest).map fun joint =>
      if u.isMarker then joint else u :: joint

/-- The loop over the incremental queue: where `exp_seq_num_` ends up, and what is to be delivered
if there is no gap. -/
def joinIncremental (expSeqNum : UInt64) :
    List (UInt64 × MEMarketUpdate) → UInt64 × Option (List MDPMarketUpdate)
  | [] => (expSeqNum, some [])
  | (seqNum, u) :: rest =>
    if seqNum < expSeqNum then joinIncremental expSeqNum rest
    else if seqNum ≠ expSeqNum then (expSeqNum, none)
    else
      let (expSeqNum, joint) := joinIncremental (expSeqNum + 1) rest
      (expSeqNum, joint.map fun joint => if u.isMarker then joint else ⟨seqNum, u⟩ :: joint)

/-- The part of `checkSnapshotSync` after the snapshot queue was found complete. -/
def recover (c : MarketDataConsumer) (last : MEMarketUpdate) (joint : List MEMarketUpdate) :
    MarketDataConsumer :=
  let (expSeqNum, queued) := joinIncremental (last.orderId + 1) c.incrementalQueueMessage.entries
  let c := { c with expSeqNum := expSeqNum }
  match queued with
  | none => { c with snapshotQueueMessage := .empty }
  | some queued =>
    { c with
      history := c.history ++ [.recovered last joint queued]
      packetLost := false
      snapshotQueueMessage := .empty
      incrementalQueueMessage := .empty }

def checkSnapshotSync (c : MarketDataConsumer) : MarketDataConsumer :=
  match c.snapshotQueueMessage.entries with
  | [] => c
  | first :: rest =>
    if first.2.type ≠ .snapshotStart then c.setSnapshotQueue .empty
    else
      match joinSnapshot 0 (first :: rest) with
      | none => c.setSnapshotQueue .empty
      | some joint =>
        let last := (rest.getLast?.getD first).2
        if last.type ≠ .snapshotEnd then c else c.recover last joint

def queueMessage (c : MarketDataConsumer) (isSnapshot : Bool) (m : MDPMarketUpdate) :
    MarketDataConsumer :=
  let c :=
    if isSnapshot then
      let queue :=
        if m.seqNum ∈ c.snapshotQueueMessage.keys then .empty else c.snapshotQueueMessage
      c.setSnapshotQueue (queue.insert m.seqNum m.meMarketUpdate)
    else
      { c with
        incrementalQueueMessage := c.incrementalQueueMessage.insert m.seqNum m.meMarketUpdate }
  c.checkSnapshotSync

/-- The body of the loop of `recvCallbacks`, for one message. -/
def receive (isSnapshot : Bool) (c : MarketDataConsumer) (m : MDPMarketUpdate) :
    MarketDataConsumer :=
  let alreadyInRecovery := c.packetLost
  let c := { c with packetLost := alreadyInRecovery || m.seqNum ≠ c.expSeqNum }
  if c.packetLost then
    let c := if alreadyInRecovery then c else c.startSnapshotSync
    c.queueMessage isSnapshot m
  else if !isSnapshot then
    { c with expSeqNum := c.expSeqNum + 1, history := c.history ++ [.direct m] }
  else c

/-- A callback with the messages in the buffer of one of the two sockets. -/
def recvCallbacks (c : MarketDataConsumer) (isSnapshot : Bool) (messages : List MDPMarketUpdate) :
    MarketDataConsumer :=
  if !c.packetLost && isSnapshot then c else messages.foldl (receive isSnapshot) c

/-- Callbacks one after the other, each with its socket and its messages. -/
def run (c : MarketDataConsumer) (callbacks : List (Bool × List MDPMarketUpdate)) :
    MarketDataConsumer :=
  callbacks.foldl (fun c callback => c.recvCallbacks callback.1 callback.2) c

/-! ## The two loops -/

section

variable {n e : UInt64} {us vs : List MEMarketUpdate} {u : MEMarketUpdate}

/-- A queue without a gap is joined. -/
theorem joinSnapshot_numbered :
    joinSnapshot n (numberFrom n us) = some (us.filter fun u => !u.isMarker) := by
  induction us generalizing n with
  | nil => rfl
  | cons u us ih =>
    rw [numberFrom_cons, joinSnapshot, if_neg (not_not_intro rfl), ih]
    by_cases hu : u.isMarker <;> simp [hu]

/-- Only a queue without a gap is joined. -/
theorem joinSnapshot_append_gap {k : UInt64} (hk : k ≠ n + UInt64.ofNat us.length) :
    joinSnapshot n (numberFrom n us ++ [(k, u)]) = none := by
  induction us generalizing n with
  | nil =>
    have hkn : k ≠ n := by simpa using hk
    simp [joinSnapshot, hkn]
  | cons v us ih =>
    rw [numberFrom_cons, List.cons_append, joinSnapshot, if_neg (not_not_intro rfl), ih]
    · rfl
    · intro heq
      apply hk
      rw [heq, List.length_cons, UInt64.ofNat_add, add_assoc, add_comm (1 : UInt64)]
      rfl

/-- What is queued from `e` on, in order, if there is no gap in it. -/
theorem joinIncremental_of_numbered {entries : List (UInt64 × MEMarketUpdate)}
    (hsorted : (entries.map Prod.fst).Pairwise (· < ·))
    (h : (entries.filter fun x => e ≤ x.1) = numberFrom e vs) :
    joinIncremental e entries = (e + UInt64.ofNat vs.length,
      some ((numbered e vs).filter fun m => !m.meMarketUpdate.isMarker)) := by
  induction entries generalizing e vs with
  | nil =>
    cases vs with
    | nil => exact Prod.ext (add_zero e).symm rfl
    | cons v vs => cases h
  | cons x rest ih =>
    obtain ⟨k, u⟩ := x
    rw [List.map_cons, List.pairwise_cons] at hsorted
    rw [joinIncremental]
    by_cases hlt : k < e
    · rw [if_pos hlt]
      apply ih hsorted.2
      rwa [List.filter_cons_of_neg (by simpa using hlt)] at h
    · rw [if_neg hlt]
      have hle : e ≤ k := not_lt.mp hlt
      rw [List.filter_cons_of_pos (by simpa using hle)] at h
      cases vs with
      | nil => cases h
      | cons v vs =>
        rw [numberFrom_cons] at h
        obtain ⟨hhead, htail⟩ := List.cons.inj h
        obtain ⟨rfl, rfl⟩ := Prod.mk.inj hhead
        rw [if_neg (not_not_intro rfl)]
        -- what comes later has larger numbers
        have hrest : (rest.filter fun x => k + 1 ≤ x.1) = numberFrom (k + 1) vs := by
          rw [← htail]
          apply List.filter_congr
          intro x hx
          have hkx : k < x.1 := hsorted.1 x.1 (List.mem_map_of_mem hx)
          have hsucc : k + 1 ≤ x.1 := by grind
          simp [hsucc, le_of_lt hkx]
        rw [ih hsorted.2 hrest]
        refine Prod.ext ?_ ?_
        · show k + 1 + UInt64.ofNat vs.length = k + UInt64.ofNat (vs.length + 1)
          rw [UInt64.ofNat_add, add_assoc, add_comm (1 : UInt64)]
          rfl
        · show some _ = some ((⟨k, u⟩ :: numbered (k + 1) vs).filter _)
          by_cases hu : u.isMarker <;> simp [hu]

/-- Only a queue without a gap from `e` on is joined. -/
theorem numbered_of_joinIncremental {entries : List (UInt64 × MEMarketUpdate)}
    {q : List MDPMarketUpdate} (hsorted : (entries.map Prod.fst).Pairwise (· < ·))
    (h : (joinIncremental e entries).2 = some q) :
    ∃ vs, (entries.filter fun x => e ≤ x.1) = numberFrom e vs := by
  induction entries generalizing e q with
  | nil => exact ⟨[], rfl⟩
  | cons x rest ih =>
    obtain ⟨k, u⟩ := x
    rw [List.map_cons, List.pairwise_cons] at hsorted
    rw [joinIncremental] at h
    by_cases hlt : k < e
    · rw [if_pos hlt] at h
      rw [List.filter_cons_of_neg (by simpa using hlt)]
      exact ih hsorted.2 h
    · rw [if_neg hlt] at h
      by_cases hke : k = e
      · subst hke
        rw [if_neg (not_not_intro rfl)] at h
        dsimp only at h
        cases hjoin : (joinIncremental (k + 1) rest).2 with
        | none =>
          rw [hjoin] at h
          cases h
        | some q' =>
          obtain ⟨vs, hvs⟩ := ih hsorted.2 hjoin
          refine ⟨u :: vs, ?_⟩
          rw [List.filter_cons_of_pos (by simp), numberFrom_cons, ← hvs]
          congr 1
          apply List.filter_congr
          intro x hx
          have hkx : k < x.1 := hsorted.1 x.1 (List.mem_map_of_mem hx)
          have hsucc : k + 1 ≤ x.1 := by grind
          simp [hsucc, le_of_lt hkx]
      · rw [if_pos hke] at h
        cases h

end

/-! ## The snapshot queue -/

/-- The snapshot queue is the beginning of a snapshot, `us`. -/
structure Pending (c : MarketDataConsumer) (us : List MEMarketUpdate) : Prop where
  entries : c.snapshotQueueMessage.entries = numberFrom 0 us
  start : ∀ u ∈ us.head?, u.type = .snapshotStart
  noEnd : ∀ u ∈ us, u.type ≠ .snapshotEnd

variable {c : MarketDataConsumer} {us : List MEMarketUpdate} {m : MDPMarketUpdate}

theorem pending_nil (h : c.snapshotQueueMessage = .empty) : c.Pending [] :=
  ⟨by rw [h]; rfl, by simp, by simp⟩

theorem Pending.keys_eq (h : c.Pending us) :
    c.snapshotQueueMessage.keys = (numberFrom 0 us).map Prod.fst := by
  unfold SortedMap.keys
  rw [h.entries]

theorem Pending.length_le (h : c.Pending us) : us.length ≤ 2 ^ 64 := by
  have hsorted := c.snapshotQueueMessage.sorted
  rw [h.entries] at hsorted
  exact length_le_of_sorted hsorted

/-- A queue without a gap. -/
theorem check_numbered {u : MEMarketUpdate}
    (h : c.snapshotQueueMessage.entries = numberFrom 0 (u :: us)) :
    c.checkSnapshotSync =
      if u.type ≠ .snapshotStart then c.setSnapshotQueue .empty
      else if (us.getLast?.getD u).type ≠ .snapshotEnd then c
      else c.recover (us.getLast?.getD u) ((u :: us).filter fun u => !u.isMarker) := by
  have hlast : ((numberFrom (0 + 1) us).getLast?.getD (0, u)).2 = us.getLast?.getD u := by
    have hvalues : (numberFrom (0 + 1) us).map Prod.snd = us := numberFrom_values
    conv_rhs => rw [← hvalues, List.getLast?_map]
    cases (numberFrom (0 + 1) us).getLast? <;> rfl
  have hjoin : joinSnapshot 0 ((0, u) :: numberFrom (0 + 1) us) =
      some ((u :: us).filter fun u => !u.isMarker) := by
    rw [← numberFrom_cons]
    exact joinSnapshot_numbered
  unfold checkSnapshotSync
  rw [h, numberFrom_cons]
  dsimp only
  rw [hjoin, hlast]

/-- A queue with a gap before its last message. -/
theorem check_gap {u : MEMarketUpdate} {k : UInt64} {v : MEMarketUpdate}
    (h : c.snapshotQueueMessage.entries = numberFrom 0 (u :: us) ++ [(k, v)])
    (hk : k ≠ UInt64.ofNat (u :: us).length) :
    c.checkSnapshotSync = c.setSnapshotQueue .empty := by
  have hjoin : joinSnapshot 0 ((0, u) :: (numberFrom (0 + 1) us ++ [(k, v)])) = none := by
    rw [← List.cons_append, ← numberFrom_cons]
    apply joinSnapshot_append_gap
    rw [zero_add]
    exact hk
  unfold checkSnapshotSync
  rw [h, numberFrom_cons, List.cons_append]
  dsimp only
  rw [hjoin]
  split <;> rfl

/-- Without the end of a snapshot there is nothing to do. -/
theorem Pending.check (h : c.Pending us) : c.checkSnapshotSync = c := by
  cases us with
  | nil =>
    unfold checkSnapshotSync
    rw [h.entries]
    rfl
  | cons u us =>
    have hlast : us.getLast?.getD u ∈ u :: us := by
      cases hus : us.getLast? with
      | none => simp
      | some v => exact List.mem_cons_of_mem _ (List.mem_of_getLast? hus)
    rw [check_numbered h.entries, if_neg (not_not_intro (h.start u (by simp))),
      if_pos (h.noEnd _ hlast)]

/-- An incremental message in recovery is queued, and that is all. -/
theorem Pending.queueIncremental (h : c.Pending us) (m : MDPMarketUpdate) :
    c.queueMessage false m = { c with
      incrementalQueueMessage := c.incrementalQueueMessage.insert m.seqNum m.meMarketUpdate } := by
  have hqueued : Pending { c with
      incrementalQueueMessage := c.incrementalQueueMessage.insert m.seqNum m.meMarketUpdate } us :=
    ⟨h.entries, h.start, h.noEnd⟩
  exact hqueued.check

/-- The snapshot queue and nothing else has changed. -/
def SameButSnapshot (c c' : MarketDataConsumer) : Prop :=
  c'.expSeqNum = c.expSeqNum ∧ c'.packetLost = c.packetLost ∧
    c'.incrementalQueueMessage = c.incrementalQueueMessage ∧ c'.history = c.history

/-- The fragments that are queued after a message: it starts over, or it continues them. -/
inductive Continued (us : List MEMarketUpdate) (m : MDPMarketUpdate) :
    List MEMarketUpdate → Prop
  | dropped : Continued us m []
  | started (hzero : m.seqNum = 0) : Continued us m [m.meMarketUpdate]
  | extended (hnext : m.seqNum = UInt64.ofNat us.length) : Continued us m (us ++ [m.meMarketUpdate])

/-- A fragment that comes alone. -/
theorem check_singleton (c : MarketDataConsumer) (us : List MEMarketUpdate) (m : MDPMarketUpdate) :
    ∃ us', Continued us m us' ∧
      (c.setSnapshotQueue (SortedMap.empty.insert m.seqNum m.meMarketUpdate)
        ).checkSnapshotSync.Pending us' ∧
      c.SameButSnapshot (c.setSnapshotQueue (SortedMap.empty.insert m.seqNum m.meMarketUpdate)
        ).checkSnapshotSync ∧
      (m.seqNum = 0 → m.meMarketUpdate.type = .snapshotStart → us' = [m.meMarketUpdate]) := by
  by_cases hstart : m.seqNum = 0 ∧ m.meMarketUpdate.type = .snapshotStart
  · obtain ⟨hzero, htype⟩ := hstart
    have hpending : (c.setSnapshotQueue (SortedMap.empty.insert m.seqNum m.meMarketUpdate)).Pending
        [m.meMarketUpdate] := by
      refine ⟨?_, ?_, ?_⟩
      · show [(m.seqNum, m.meMarketUpdate)] = [(0, m.meMarketUpdate)]
        rw [hzero]
      · simpa using htype
      · simp [htype]
    rw [hpending.check]
    exact ⟨_, .started hzero, hpending, ⟨rfl, rfl, rfl, rfl⟩, fun _ _ => rfl⟩
  · have hcheck : (c.setSnapshotQueue (SortedMap.empty.insert m.seqNum m.meMarketUpdate)
        ).checkSnapshotSync = c.setSnapshotQueue .empty := by
      unfold checkSnapshotSync
      show (if m.meMarketUpdate.type ≠ .snapshotStart then c.setSnapshotQueue .empty
        else match joinSnapshot 0 [(m.seqNum, m.meMarketUpdate)] with
          | none => c.setSnapshotQueue .empty
          | some joint => _) = _
      by_cases htype : m.meMarketUpdate.type = .snapshotStart
      · have hne : m.seqNum ≠ 0 := fun hzero => hstart ⟨hzero, htype⟩
        rw [if_neg (not_not_intro htype), joinSnapshot, if_pos hne]
      · rw [if_pos htype]
    rw [hcheck]
    exact ⟨[], .dropped, pending_nil rfl, ⟨rfl, rfl, rfl, rfl⟩, fun h₁ h₂ => absurd ⟨h₁, h₂⟩ hstart⟩

/-- A number that is not queued yet is past the queue. -/
theorem Pending.insert_entries (h : c.Pending us) (hmem : m.seqNum ∉ c.snapshotQueueMessage.keys) :
    (c.snapshotQueueMessage.insert m.seqNum m.meMarketUpdate).entries =
      numberFrom 0 us ++ [(m.seqNum, m.meMarketUpdate)] := by
  rw [h.keys_eq] at hmem
  have hpast := length_le_of_not_mem hmem
  rw [SortedMap.insert_entries_of_lt, h.entries]
  intro x hx
  rw [h.keys_eq] at hx
  have hlt := mem_keys_numbered_lt h.length_le hx
  rw [UInt64.lt_iff_toNat_lt]
  omega

/-- The number after the queue is not queued. -/
theorem Pending.not_mem_next (h : c.Pending us) (hnext : m.seqNum = UInt64.ofNat us.length)
    (hlen : us.length < 2 ^ 64) : m.seqNum ∉ c.snapshotQueueMessage.keys := by
  rw [h.keys_eq, hnext]
  intro hmem
  have hlt := mem_keys_numbered_lt (Nat.le_of_lt hlen) hmem
  rw [UInt64.toNat_ofNat', Nat.mod_eq_of_lt hlen] at hlt
  exact Nat.lt_irrefl _ hlt

theorem queueSnapshot_of_new (hmem : m.seqNum ∉ c.snapshotQueueMessage.keys) :
    c.queueMessage true m = (c.setSnapshotQueue
      (c.snapshotQueueMessage.insert m.seqNum m.meMarketUpdate)).checkSnapshotSync := by
  unfold queueMessage
  rw [if_pos rfl]
  dsimp only
  rw [if_neg hmem]

/-- The first message of a snapshot starts the queue anew. -/
theorem Pending.queue_start (h : c.Pending us) (hzero : m.seqNum = 0)
    (hstart : m.meMarketUpdate.type = .snapshotStart) :
    (c.queueMessage true m).Pending [m.meMarketUpdate] ∧
      c.SameButSnapshot (c.queueMessage true m) := by
  have hqueue : c.queueMessage true m =
      (c.setSnapshotQueue (SortedMap.empty.insert m.seqNum m.meMarketUpdate)).checkSnapshotSync := by
    by_cases hmem : m.seqNum ∈ c.snapshotQueueMessage.keys
    · unfold queueMessage
      rw [if_pos rfl]
      dsimp only
      rw [if_pos hmem]
    · rw [queueSnapshot_of_new hmem]
      cases us with
      | nil => rw [SortedMap.eq_empty_iff.mpr h.entries]
      | cons u us =>
        rw [h.keys_eq, hzero] at hmem
        exact absurd List.mem_cons_self hmem
  rw [hqueue]
  obtain ⟨us', -, hpending, hsame, heq⟩ := check_singleton c us m
  rw [heq hzero hstart] at hpending
  exact ⟨hpending, hsame⟩

variable {u : MEMarketUpdate}

theorem Pending.entries_next (h : c.Pending (u :: us))
    (hmem : m.seqNum ∉ c.snapshotQueueMessage.keys)
    (hnext : m.seqNum = UInt64.ofNat (u :: us).length) :
    (c.setSnapshotQueue (c.snapshotQueueMessage.insert m.seqNum m.meMarketUpdate)
      ).snapshotQueueMessage.entries = numberFrom 0 (u :: (us ++ [m.meMarketUpdate])) := by
  rw [← List.cons_append, numberFrom_append, zero_add, ← hnext]
  exact h.insert_entries hmem

/-- The next message of a snapshot continues the queue. -/
theorem Pending.queue_next (h : c.Pending (u :: us))
    (hmem : m.seqNum ∉ c.snapshotQueueMessage.keys)
    (hnext : m.seqNum = UInt64.ofNat (u :: us).length)
    (hend : m.meMarketUpdate.type ≠ .snapshotEnd) :
    (c.queueMessage true m).Pending (u :: us ++ [m.meMarketUpdate]) ∧
      c.SameButSnapshot (c.queueMessage true m) := by
  have hpending : (c.setSnapshotQueue (c.snapshotQueueMessage.insert m.seqNum
      m.meMarketUpdate)).Pending (u :: us ++ [m.meMarketUpdate]) := by
    refine ⟨h.entries_next hmem hnext, h.start, ?_⟩
    intro v hv
    rcases List.mem_append.mp hv with hv | hv
    · exact h.noEnd v hv
    · rw [List.mem_singleton.mp hv]
      exact hend
  rw [queueSnapshot_of_new hmem, hpending.check]
  exact ⟨hpending, rfl, rfl, rfl, rfl⟩

/-- The last message of a snapshot completes the queue. -/
theorem Pending.queue_end (h : c.Pending (u :: us))
    (hmem : m.seqNum ∉ c.snapshotQueueMessage.keys)
    (hnext : m.seqNum = UInt64.ofNat (u :: us).length)
    (hend : m.meMarketUpdate.type = .snapshotEnd) :
    c.queueMessage true m = (c.setSnapshotQueue
      (c.snapshotQueueMessage.insert m.seqNum m.meMarketUpdate)).recover m.meMarketUpdate
        ((u :: us).filter fun u => !u.isMarker) := by
  have hmarker : m.meMarketUpdate.isMarker = true := by simp [MEMarketUpdate.isMarker, hend]
  rw [queueSnapshot_of_new hmem, check_numbered (h.entries_next hmem hnext),
    if_neg (not_not_intro (h.start u (by simp))), List.getLast?_concat, Option.getD_some,
    if_neg (not_not_intro hend), ← List.cons_append, List.filter_append]
  simp [hmarker]

/-- **Everything a message on the snapshot socket can do in recovery.** The queue stays the beginning
of a snapshot, and nothing else changes; or the message is the end of the snapshot that was
queued. -/
theorem queueSnapshot_cases (h : c.Pending us) (m : MDPMarketUpdate) :
    (∃ us', Continued us m us' ∧ (c.queueMessage true m).Pending us' ∧
      c.SameButSnapshot (c.queueMessage true m)) ∨
    (us ≠ [] ∧ m.seqNum = UInt64.ofNat us.length ∧ m.meMarketUpdate.type = .snapshotEnd ∧
      ∃ queue, c.queueMessage true m =
        (c.setSnapshotQueue queue).recover m.meMarketUpdate (us.filter fun u => !u.isMarker)) := by
  by_cases hmem : m.seqNum ∈ c.snapshotQueueMessage.keys
  · -- received for the second time
    have hqueue : c.queueMessage true m = (c.setSnapshotQueue
        (SortedMap.empty.insert m.seqNum m.meMarketUpdate)).checkSnapshotSync := by
      unfold queueMessage
      rw [if_pos rfl]
      dsimp only
      rw [if_pos hmem]
    rw [hqueue]
    obtain ⟨us', hcont, hpending, hsame, -⟩ := check_singleton c us m
    exact Or.inl ⟨us', hcont, hpending, hsame⟩
  · cases us with
    | nil =>
      have hempty : c.snapshotQueueMessage = .empty := SortedMap.eq_empty_iff.mpr h.entries
      rw [queueSnapshot_of_new hmem, hempty]
      obtain ⟨us', hcont, hpending, hsame, -⟩ := check_singleton c [] m
      exact Or.inl ⟨us', hcont, hpending, hsame⟩
    | cons u us =>
      by_cases hnext : m.seqNum = UInt64.ofNat (u :: us).length
      · by_cases hend : m.meMarketUpdate.type = .snapshotEnd
        · exact Or.inr ⟨List.cons_ne_nil _ _, hnext, hend, _, h.queue_end hmem hnext hend⟩
        · obtain ⟨hpending, hsame⟩ := h.queue_next hmem hnext hend
          exact Or.inl ⟨_, .extended hnext, hpending, hsame⟩
      · left
        rw [queueSnapshot_of_new hmem, check_gap (h.insert_entries hmem) hnext]
        exact ⟨[], .dropped, pending_nil rfl, rfl, rfl, rfl, rfl⟩

/-- **Everything a complete snapshot can do.** The updates after it have a gap, and the snapshot is
thrown away; or they have none, and all is delivered. -/
theorem recover_cases (c : MarketDataConsumer) (last : MEMarketUpdate)
    (joint : List MEMarketUpdate) :
    (∃ e, c.recover last joint = { c.setSnapshotQueue .empty with expSeqNum := e }) ∨
    ∃ vs, (c.incrementalQueueMessage.entries.filter fun x => last.orderId + 1 ≤ x.1) =
        numberFrom (last.orderId + 1) vs ∧
      c.recover last joint = {
        expSeqNum := last.orderId + 1 + UInt64.ofNat vs.length
        packetLost := false
        snapshotQueueMessage := .empty
        incrementalQueueMessage := .empty
        history := c.history ++ [.recovered last joint
          ((numbered (last.orderId + 1) vs).filter fun m => !m.meMarketUpdate.isMarker)] } := by
  unfold recover
  cases hjoin : (joinIncremental (last.orderId + 1) c.incrementalQueueMessage.entries).2 with
  | none =>
    left
    refine ⟨(joinIncremental (last.orderId + 1) c.incrementalQueueMessage.entries).1, ?_⟩
    dsimp only
    rw [hjoin]
    rfl
  | some q =>
    obtain ⟨vs, hvs⟩ := numbered_of_joinIncremental c.incrementalQueueMessage.sorted hjoin
    refine Or.inr ⟨vs, hvs, ?_⟩
    rw [joinIncremental_of_numbered c.incrementalQueueMessage.sorted hvs]

/-- What a recovery adds to what was delivered. -/
theorem updates_recovered (history : List Delivery) (last : MEMarketUpdate)
    (joint vs : List MEMarketUpdate) (e : UInt64) :
    (history ++ [Delivery.recovered last joint
        ((numbered e vs).filter fun m => !m.meMarketUpdate.isMarker)]).flatMap Delivery.updates =
      history.flatMap Delivery.updates ++ (joint ++ vs.filter fun u => !u.isMarker) := by
  have hfilter := List.filter_map (f := MDPMarketUpdate.meMarketUpdate)
    (p := fun u => !u.isMarker) (l := numbered e vs)
  rw [numbered_updates] at hfilter
  rw [List.flatMap_append, List.flatMap_singleton, hfilter]
  rfl

/-- The consumer in recovery: as it is, or just having noticed a loss. -/
def inRecovery (c : MarketDataConsumer) : MarketDataConsumer :=
  if c.packetLost then c else { c.startSnapshotSync with packetLost := true }

theorem packetLost_inRecovery (c : MarketDataConsumer) : c.inRecovery.packetLost = true := by
  unfold inRecovery
  split
  · assumption
  · rfl

theorem inRecovery_of_lost (h : c.packetLost = true) : c.inRecovery = c := by
  unfold inRecovery
  rw [if_pos h]

/-- **Everything a message can do.** Outside recovery the message in turn is delivered, and one of
the snapshot stream ignored; every other message is queued. -/
theorem receive_cases (c : MarketDataConsumer) (isSnapshot : Bool) (m : MDPMarketUpdate) :
    (c.packetLost = false ∧ m.seqNum = c.expSeqNum ∧
      receive isSnapshot c m = if isSnapshot then c else
        { c with expSeqNum := c.expSeqNum + 1, history := c.history ++ [.direct m] }) ∨
    ((c.packetLost = true ∨ m.seqNum ≠ c.expSeqNum) ∧
      receive isSnapshot c m = c.inRecovery.queueMessage isSnapshot m) := by
  unfold receive inRecovery
  cases hlost : c.packetLost with
  | true =>
    right
    refine ⟨Or.inl rfl, ?_⟩
    simp only [Bool.true_or, if_true]
    rw [← hlost]
  | false =>
    by_cases hseq : m.seqNum = c.expSeqNum
    · left
      refine ⟨rfl, hseq, ?_⟩
      cases isSnapshot
      · simp [hseq]
      · simp [hseq]
        rw [← hlost]
    · right
      refine ⟨Or.inr hseq, ?_⟩
      simp [hseq, startSnapshotSync]

theorem receive_of_lost (h : c.packetLost = true) (isSnapshot : Bool) (m : MDPMarketUpdate) :
    receive isSnapshot c m = c.queueMessage isSnapshot m := by
  rcases receive_cases c isSnapshot m with ⟨hlost, -⟩ | ⟨-, hreceive⟩
  · rw [h] at hlost
    cases hlost
  · rw [hreceive, inRecovery_of_lost h]

theorem Pending.inRecovery (h : c.Pending us) : ∃ us', c.inRecovery.Pending us' := by
  unfold MarketDataConsumer.inRecovery
  split
  · exact ⟨us, h⟩
  · exact ⟨[], pending_nil rfl⟩

/-- The snapshot queue stays the beginning of a snapshot. -/
theorem Pending.queueMessage (h : c.Pending us) (isSnapshot : Bool) (m : MDPMarketUpdate) :
    ∃ us', (c.queueMessage isSnapshot m).Pending us' := by
  cases isSnapshot with
  | false =>
    rw [h.queueIncremental]
    exact ⟨us, h.entries, h.start, h.noEnd⟩
  | true =>
    rcases queueSnapshot_cases h m with ⟨us', -, hpending, -⟩ | ⟨-, -, -, queue, hrec⟩
    · exact ⟨us', hpending⟩
    · rw [hrec]
      refine ⟨[], pending_nil ?_⟩
      rcases recover_cases (c.setSnapshotQueue queue) m.meMarketUpdate
        (us.filter fun u => !u.isMarker) with ⟨e, hrec⟩ | ⟨vs, -, hrec⟩
      · rw [hrec]
        rfl
      · rw [hrec]

theorem Pending.receive (h : c.Pending us) (isSnapshot : Bool) (m : MDPMarketUpdate) :
    ∃ us', (receive isSnapshot c m).Pending us' := by
  rcases receive_cases c isSnapshot m with ⟨-, -, hreceive⟩ | ⟨-, hreceive⟩
  · rw [hreceive]
    cases isSnapshot with
    | true => exact ⟨us, h⟩
    | false => exact ⟨us, h.entries, h.start, h.noEnd⟩
  · rw [hreceive]
    obtain ⟨us', h'⟩ := h.inRecovery
    exact h'.queueMessage isSnapshot m

/-! ## Runs -/

/-- `P` holds of each message of a buffer and the consumer just before it. -/
def EachReceive (P : MarketDataConsumer → Bool → MDPMarketUpdate → Prop) (isSnapshot : Bool) :
    MarketDataConsumer → List MDPMarketUpdate → Prop
  | _, [] => True
  | c, m :: ms => P c isSnapshot m ∧ EachReceive P isSnapshot (receive isSnapshot c m) ms

/-- `P` holds of each message of a run and the consumer just before it; buffers that are thrown away
do not count. -/
def EachMessage (P : MarketDataConsumer → Bool → MDPMarketUpdate → Prop) :
    MarketDataConsumer → List (Bool × List MDPMarketUpdate) → Prop
  | _, [] => True
  | c, callback :: callbacks =>
    ((c.packetLost = true ∨ callback.1 = false) → EachReceive P callback.1 c callback.2) ∧
      EachMessage P (c.recvCallbacks callback.1 callback.2) callbacks

variable {P : MarketDataConsumer → Bool → MDPMarketUpdate → Prop}
  {callbacks : List (Bool × List MDPMarketUpdate)}

theorem eachReceive_of_forall {isSnapshot : Bool} {ms : List MDPMarketUpdate}
    (h : ∀ c, ∀ m ∈ ms, P c isSnapshot m) : EachReceive P isSnapshot c ms := by
  induction ms generalizing c with
  | nil => trivial
  | cons m ms ih =>
    exact ⟨h c m List.mem_cons_self, ih fun c m hm => h c m (List.mem_cons_of_mem _ hm)⟩

theorem eachMessage_of_forall
    (h : ∀ c, ∀ callback ∈ callbacks, ∀ m ∈ callback.2, P c callback.1 m) :
    EachMessage P c callbacks := by
  induction callbacks generalizing c with
  | nil => trivial
  | cons callback callbacks ih =>
    refine ⟨fun _ => eachReceive_of_forall fun c => h c callback List.mem_cons_self, ?_⟩
    exact ih fun c callback hcallback => h c callback (List.mem_cons_of_mem _ hcallback)

theorem eachReceive_append {isSnapshot : Bool} {ms ms' : List MDPMarketUpdate} :
    EachReceive P isSnapshot c (ms ++ ms') ↔ EachReceive P isSnapshot c ms ∧
      EachReceive P isSnapshot (ms.foldl (MarketDataConsumer.receive isSnapshot) c) ms' := by
  induction ms generalizing c with
  | nil => simp [EachReceive]
  | cons m ms ih => simp [EachReceive, ih, and_assoc]

theorem EachReceive.and {Q : MarketDataConsumer → Bool → MDPMarketUpdate → Prop} {isSnapshot : Bool}
    {ms : List MDPMarketUpdate} (h : EachReceive P isSnapshot c ms)
    (h' : EachReceive Q isSnapshot c ms) :
    EachReceive (fun c isSnapshot m => P c isSnapshot m ∧ Q c isSnapshot m) isSnapshot c ms := by
  induction ms generalizing c with
  | nil => trivial
  | cons m ms ih => exact ⟨⟨h.1, h'.1⟩, ih h.2 h'.2⟩

theorem EachReceive.mono {Q : MarketDataConsumer → Bool → MDPMarketUpdate → Prop} {isSnapshot : Bool}
    {ms : List MDPMarketUpdate} (h : EachReceive P isSnapshot c ms)
    (himp : ∀ c m, P c isSnapshot m → Q c isSnapshot m) : EachReceive Q isSnapshot c ms := by
  induction ms generalizing c with
  | nil => trivial
  | cons m ms ih => exact ⟨himp c m h.1, ih h.2⟩

instance decidableEachReceive [∀ c isSnapshot m, Decidable (P c isSnapshot m)] (isSnapshot : Bool)
    (c : MarketDataConsumer) : DecidablePred (EachReceive P isSnapshot c)
  | [] => isTrue trivial
  | m :: ms =>
    haveI := decidableEachReceive isSnapshot (c.receive isSnapshot m) ms
    inferInstanceAs (Decidable (P c isSnapshot m ∧ EachReceive P isSnapshot (c.receive isSnapshot m) ms))

theorem EachMessage.and {Q : MarketDataConsumer → Bool → MDPMarketUpdate → Prop}
    (h : EachMessage P c callbacks) (h' : EachMessage Q c callbacks) :
    EachMessage (fun c isSnapshot m => P c isSnapshot m ∧ Q c isSnapshot m) c callbacks := by
  induction callbacks generalizing c with
  | nil => trivial
  | cons callback callbacks ih =>
    exact ⟨fun hread => (h.1 hread).and (h'.1 hread), ih h.2 h'.2⟩

theorem receive_rule {isSnapshot : Bool} {ms : List MDPMarketUpdate}
    {I : MarketDataConsumer → Prop}
    (hreceive : ∀ c m, P c isSnapshot m → I c → I (receive isSnapshot c m))
    (hP : EachReceive P isSnapshot c ms) (h : I c) : I (ms.foldl (receive isSnapshot) c) := by
  induction ms generalizing c with
  | nil => exact h
  | cons m ms ih => exact ih hP.2 (hreceive c m hP.1 h)

/-- What one message preserves, a run preserves. -/
theorem run_rule {I : MarketDataConsumer → Prop}
    (hreceive : ∀ c isSnapshot m, P c isSnapshot m → I c → I (receive isSnapshot c m))
    (hP : EachMessage P c callbacks) (h : I c) : I (c.run callbacks) := by
  induction callbacks generalizing c with
  | nil => exact h
  | cons callback callbacks ih =>
    apply ih hP.2
    unfold recvCallbacks
    split
    · exact h
    · next hread =>
      apply receive_rule (fun c => hreceive c callback.1) (hP.1 _) h
      cases hlost : c.packetLost with
      | true => exact Or.inl rfl
      | false =>
        right
        simpa [hlost] using hread

/-- In every run the snapshot queue is the beginning of a snapshot. -/
theorem pending_run (callbacks : List (Bool × List MDPMarketUpdate)) :
    ∃ us, (init.run callbacks).Pending us := by
  apply run_rule (P := fun _ _ _ => True) (I := fun c => ∃ us, c.Pending us)
  · intro c isSnapshot m _ h
    obtain ⟨us, h⟩ := h
    exact h.receive isSnapshot m
  · exact eachMessage_of_forall fun _ _ _ _ _ => trivial
  · exact ⟨[], pending_nil rfl⟩

/-! ## Runs message by message -/

/-- The messages of callbacks, each with its socket. -/
def messagesOf (callbacks : List (Bool × List MDPMarketUpdate)) : List (Bool × MDPMarketUpdate) :=
  callbacks.flatMap fun callback => callback.2.map (Prod.mk callback.1)

def receiveAll (c : MarketDataConsumer) (arrivals : List (Bool × MDPMarketUpdate)) :
    MarketDataConsumer :=
  arrivals.foldl (fun c arrival => receive arrival.1 c arrival.2) c

variable {arrivals arrivals' : List (Bool × MDPMarketUpdate)}

theorem receiveAll_append :
    c.receiveAll (arrivals ++ arrivals') = (c.receiveAll arrivals).receiveAll arrivals' :=
  List.foldl_append

theorem receiveAll_map (isSnapshot : Bool) (ms : List MDPMarketUpdate) :
    c.receiveAll (ms.map (Prod.mk isSnapshot)) = ms.foldl (receive isSnapshot) c := by
  unfold receiveAll
  rw [List.foldl_map]

/-- What comes on the snapshot socket. -/
def snapshotOf (arrivals : List (Bool × MDPMarketUpdate)) : List MDPMarketUpdate :=
  (arrivals.filter Prod.fst).map Prod.snd

/-- In recovery it does not matter how the messages are divided among callbacks. -/
theorem run_eq_receiveAll
    (h : ∀ earlier rest, messagesOf callbacks = earlier ++ rest → rest ≠ [] →
      (c.receiveAll earlier).packetLost = true) :
    c.run callbacks = c.receiveAll (messagesOf callbacks) := by
  induction callbacks generalizing c with
  | nil => rfl
  | cons callback callbacks ih =>
    have hcons : messagesOf (callback :: callbacks) =
        callback.2.map (Prod.mk callback.1) ++ messagesOf callbacks := rfl
    have hone : c.recvCallbacks callback.1 callback.2 =
        c.receiveAll (callback.2.map (Prod.mk callback.1)) := by
      rw [receiveAll_map]
      unfold recvCallbacks
      cases hms : callback.2 with
      | nil => simp
      | cons m ms =>
        have hlost : c.packetLost = true := by
          apply h [] (messagesOf (callback :: callbacks)) rfl
          rw [hcons, hms]
          simp
        rw [hlost]
        rfl
    rw [hcons, receiveAll_append, ← hone]
    apply ih
    intro earlier rest hsplit hrest
    dsimp only
    rw [hone, ← receiveAll_append]
    apply h _ rest _ hrest
    rw [hcons, hsplit, List.append_assoc]

end MarketDataConsumer

end TradingSystem
