import TradingSystem.Exchange.SnapshotSynthetizer

/-!
# The synthesizer never meets an update it does not expect

Between the emitter and the synthesizer there is an agreement nobody states: an `ADD` is for an id that
has no record, a `MODIFY` or `CANCEL` for one that has, of the same id and side, the numbers follow one
after the other, and the pool has a cell for every order. `Expected` is this agreement for one message.
A message that keeps it goes through (`Expected.goesThrough`), a well-formed stream keeps it at every
message (`Stores.addAll_expected`), and the stream of the engine is well formed
(`processAll_expected`).
-/

namespace TradingSystem

namespace SnapshotSynthetizer

/-- What the synthesizer requires of a message, in the state it finds it in. -/
structure Expected (y : SnapshotSynthetizer) (m : MDPMarketUpdate) : Prop where
  ticker : m.meMarketUpdate.tickerId.toNat < meMaxTickers
  /-- an `ADD` is for an id without a record, and there is a cell for it and one more -/
  added : m.meMarketUpdate.type = .add →
    y.orderAt m.meMarketUpdate.tickerId m.meMarketUpdate.orderId = .ok none ∧
      ∃ order pool, y.updatePool.allocate m.meMarketUpdate = .ok (order, pool)
  /-- a `MODIFY` or `CANCEL` is for an id with a record, in a cell in use, of the same id and side -/
  known : m.meMarketUpdate.type = .modify ∨ m.meMarketUpdate.type = .cancel →
    ∃ order, y.orderAt m.meMarketUpdate.tickerId m.meMarketUpdate.orderId = .ok (some order) ∧
      y.updatePool.Live order ∧
      (y.updatePool.get order).orderId = m.meMarketUpdate.orderId ∧
      (y.updatePool.get order).side = m.meMarketUpdate.side
  numbered : m.seqNum = y.lastSeqNum + 1

variable {y y' : SnapshotSynthetizer} {f : Feed} {u : MEMarketUpdate} {m : MDPMarketUpdate}

/-- An id with a record of the same id and side is found. -/
theorem existing_eq_ok {order : Nat} (hat : y.orderAt u.tickerId u.orderId = .ok (some order))
    (hid : (y.updatePool.get order).orderId = u.orderId)
    (hside : (y.updatePool.get order).side = u.side) : y.existing u = .ok order := by
  unfold existing
  rw [hat]
  exact if_pos ⟨hid, hside⟩

/-- The `switch` of `addSnapShot` goes through, and leaves the number of the last message. -/
theorem Expected.record (h : y.Expected m) :
    ∃ y', y.record m.meMarketUpdate = .ok y' ∧ y'.lastSeqNum = y.lastSeqNum := by
  unfold SnapshotSynthetizer.record
  cases htype : m.meMarketUpdate.type with
  | add =>
    obtain ⟨hnone, order, pool, hok⟩ := h.added htype
    dsimp only
    rw [hnone]
    simp only [bind, Except.bind]
    rw [hok]
    exact ⟨_, rfl, rfl⟩
  | modify =>
    obtain ⟨order, hat, -, hid, hside⟩ := h.known (Or.inl htype)
    dsimp only
    rw [existing_eq_ok hat hid hside]
    exact ⟨_, rfl, rfl⟩
  | cancel =>
    obtain ⟨order, hat, hlive, hid, hside⟩ := h.known (Or.inr htype)
    dsimp only
    rw [existing_eq_ok hat hid hside]
    simp only [bind, Except.bind]
    have hdealloc : ∃ pool, y.updatePool.deallocate order = .ok pool := by
      unfold MemPool.deallocate
      rw [if_neg (not_not_intro hlive.1), if_neg (by rw [hlive.2]; decide)]
      exact ⟨_, rfl⟩
    obtain ⟨pool, hpool⟩ := hdealloc
    rw [hpool]
    exact ⟨_, rfl, rfl⟩
  | _ => exact ⟨y, rfl, rfl⟩

/-- **A message that keeps the agreement goes through**: no `ASSERT` fails, no `.at()` throws and the
pool has a cell. -/
theorem Expected.goesThrough (h : y.Expected m) : ∃ y', y.addSnapShot m = .ok y' := by
  obtain ⟨y', hok, hlast⟩ := h.record
  unfold SnapshotSynthetizer.addSnapShot
  rw [if_pos h.ticker, hok]
  simp only [bind, Except.bind]
  rw [if_pos (by rw [hlast]; exact h.numbered)]
  exact ⟨_, rfl⟩

namespace Stores

/-- **Step lemma.** An update that can come next is one the synthesizer expects. -/
theorem expected (h : y.Stores f) (hf : f.Sound) (ha : f.Admits u) :
    y.Expected ⟨y.lastSeqNum + 1, u⟩ where
  ticker := ha.1
  added := by
    intro htype
    obtain ⟨y', hok, -⟩ := h.record hf ha
    -- the two ways in which an `ADD` could fail are those it must not
    unfold SnapshotSynthetizer.record at hok
    rw [htype] at hok
    dsimp only at hok
    cases hat : y.orderAt u.tickerId u.orderId with
    | error e =>
      rw [hat] at hok
      cases hok
    | ok o =>
      rw [hat] at hok
      cases o with
      | some order => cases hok
      | none =>
        refine ⟨rfl, ?_⟩
        simp only [bind, Except.bind] at hok
        cases halloc : y.updatePool.allocate u with
        | error e =>
          rw [halloc] at hok
          cases hok
        | ok r => exact ⟨r.1, r.2, rfl⟩
  known := by
    intro htype
    have hold : ∃ o ∈ f.live u.tickerId, o.orderId = u.orderId ∧ o.side = u.side := by
      have hcontinues := ha.2
      unfold Feed.Continues at hcontinues
      rcases htype with htype | htype
      · rw [htype] at hcontinues
        obtain ⟨o, ho, hid, hside, -⟩ := hcontinues
        exact ⟨o, ho, hid, hside⟩
      · rw [htype] at hcontinues
        exact hcontinues
    obtain ⟨o, ho, hid, hside⟩ := hold
    obtain ⟨order, -, hp, hget⟩ := h.existing_eq hf ho hid hside
    refine ⟨order, ?_, h.live hp, ?_, ?_⟩
    · unfold orderAt
      rw [if_pos ⟨ha.1, hid ▸ hf.id_lt _ o ho⟩, hp]
    · exact hget ▸ hid
    · exact hget ▸ hside
  numbered := rfl

/-- **Run lemma.** -/
theorem addAll_expected {us : List MEMarketUpdate} (h : y.Stores f) (hf : f.Sound)
    (ha : f.Accepts us) :
    AllSteps SnapshotSynthetizer.addSnapShot y (fun _ y m => y.Expected m)
      (numbered (y.lastSeqNum + 1) us) := by
  induction us generalizing y f with
  | nil =>
    intro pre m post s hnil
    have hlen := congrArg List.length hnil
    rw [length_numbered, List.length_append] at hlen
    simp at hlen
  | cons u us ih =>
    show AllSteps _ y _ (⟨y.lastSeqNum + 1, u⟩ :: numbered (y.lastSeqNum + 1 + 1) us)
    refine AllSteps.cons (P := fun _ => Expected) (h.expected hf ha.1) ?_
    intro y' hok
    obtain ⟨y₁, hok₁, hlast₁, h₁⟩ := h.addSnapShot hf ha.1
    obtain rfl := Except.ok.inj (hok₁.symm.trans hok)
    have hrest := ih h₁ (hf.step ha.1) ha.2
    rw [hlast₁] at hrest
    exact hrest

end Stores

end SnapshotSynthetizer

/-- **The assertions of the synthesizer never fire**, whatever the requests: it takes the whole stream of
the engine, and each message is one it expects where it finds it. -/
theorem MatchingEngine.processAll_expected {rs : List MEClientRequest} {m : MatchingEngine}
    (hvalid : ∀ r ∈ rs, r.Valid) (hcount : (newRequests rs).length < meMaxOrderIds)
    (hrun : MatchingEngine.init.processAll rs = .ok m) :
    (∃ y, SnapshotSynthetizer.init.addAll (numbered 1 m.marketUpdates) = .ok y) ∧
      AllSteps SnapshotSynthetizer.addSnapShot SnapshotSynthetizer.init (fun _ y m => y.Expected m)
        (numbered 1 m.marketUpdates) := by
  have hwf := MatchingEngine.processAll_wellFormed hvalid hcount hrun
  constructor
  · obtain ⟨y, hok, -, -⟩ := SnapshotSynthetizer.stores_init.addAll Feed.Sound.empty hwf
    exact ⟨y, hok⟩
  · exact SnapshotSynthetizer.stores_init.addAll_expected Feed.Sound.empty hwf

/-- Two tickers, prices that share a slot, an id that is used again, partial fills and a cancel. -/
theorem MatchingEngine.processAll_expected_shared_slot :
    ∃ m, MatchingEngine.init.processAll [
        { type := .new, clientId := 1, tickerId := 0, orderId := 1, side := .sell, price := 356,
          qty := 5 },
        { type := .new, clientId := 1, tickerId := 0, orderId := 1, side := .buy, price := 100,
          qty := 5 },
        { type := .new, clientId := 1, tickerId := 7, orderId := 1, side := .buy, price := 100,
          qty := 5 },
        { type := .new, clientId := 2, tickerId := 0, orderId := 1, side := .buy, price := 356,
          qty := 7 },
        { type := .cancel, clientId := 1, tickerId := 7, orderId := 1 }] = .ok m ∧
      (∃ y, SnapshotSynthetizer.init.addAll (numbered 1 m.marketUpdates) = .ok y) ∧
      AllSteps SnapshotSynthetizer.addSnapShot SnapshotSynthetizer.init (fun _ y m => y.Expected m)
        (numbered 1 m.marketUpdates) := by
  obtain ⟨m, hm⟩ := exists_ok (x := MatchingEngine.init.processAll [
        { type := .new, clientId := 1, tickerId := 0, orderId := 1, side := .sell, price := 356,
          qty := 5 },
        { type := .new, clientId := 1, tickerId := 0, orderId := 1, side := .buy, price := 100,
          qty := 5 },
        { type := .new, clientId := 1, tickerId := 7, orderId := 1, side := .buy, price := 100,
          qty := 5 },
        { type := .new, clientId := 2, tickerId := 0, orderId := 1, side := .buy, price := 356,
          qty := 7 },
        { type := .cancel, clientId := 1, tickerId := 7, orderId := 1 }]) (by decide +kernel)
  exact ⟨m, hm, MatchingEngine.processAll_expected (by decide) (by decide) hm⟩

end TradingSystem
