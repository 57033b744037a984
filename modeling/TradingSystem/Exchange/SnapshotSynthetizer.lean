import TradingSystem.Lib.Run
import TradingSystem.Lib.SortedMap
import TradingSystem.Utils.MemPool
import TradingSystem.Exchange.EngineFeed

/-!
# `SnapshotSynthetizer`: the latest state of every order

`exchange/snapshot_synthetizer.hpp` and `exchange/snapshot_synthetizer.cpp`. The synthesizer reads
the numbered update stream and keeps, in a pool and a table indexed by ticker and market order id,
the `ADD` of every order still alive with its latest price and quantity. A snapshot is a
`SNAPSHOT_START`, for each ticker a `CLEAR` and its orders in the order of their ids, and a
`SNAPSHOT_END`, numbered from 0; the frame carries the number of the last update it includes.

On a well-formed stream the table holds exactly what the stream has built (`Stores`), none of the
assertions fires, and a snapshot together with the updates after it replays to the same book as the
whole stream (`publishSnapShot_replay`).
-/

namespace TradingSystem

/-- Messages numbered from `n` on: the incremental stream is numbered from 1, a snapshot from 0. -/
def numbered (n : UInt64) (us : List MEMarketUpdate) : List MDPMarketUpdate :=
  (numberFrom n us).map fun e => ⟨e.1, e.2⟩

@[simp] theorem numbered_updates (n : UInt64) (us : List MEMarketUpdate) :
    (numbered n us).map MDPMarketUpdate.meMarketUpdate = us := by
  unfold numbered
  rw [List.map_map]
  exact numberFrom_values

@[simp] theorem length_numbered (n : UInt64) (us : List MEMarketUpdate) :
    (numbered n us).length = us.length := by
  unfold numbered
  rw [List.length_map, length_numberFrom]

theorem numbered_append (n : UInt64) (us us' : List MEMarketUpdate) :
    numbered n (us ++ us') = numbered n us ++ numbered (n + UInt64.ofNat us.length) us' := by
  unfold numbered
  rw [numberFrom_append, List.map_append]

/-- The beginning of numbered messages. -/
theorem numbered_eq_append {n : UInt64} {us : List MEMarketUpdate} {ms ms' : List MDPMarketUpdate}
    (h : numbered n us = ms ++ ms') : ms = numbered n (us.take ms.length) := by
  have hlen : ms.length ≤ us.length := by
    have hlen := congrArg List.length h
    rw [length_numbered, List.length_append] at hlen
    omega
  rw [← List.take_append_drop ms.length us, numbered_append] at h
  exact (List.append_inj_left h (by rw [length_numbered, List.length_take]; omega)).symm

structure SnapshotSynthetizer where
  tickerOrderToUpdate : TickerId → OrderId → Option Nat
  lastSeqNum : UInt64
  updatePool : MemPool MEMarketUpdate

namespace SnapshotSynthetizer

/-- The constructor. -/
def init : SnapshotSynthetizer where
  tickerOrderToUpdate := fun _ _ => none
  lastSeqNum := 0
  updatePool := MemPool.init meMaxOrderIds {}

/-- `ticker_order_to_update_.at(ticker).at(id)`. -/
def orderAt (y : SnapshotSynthetizer) (t : TickerId) (id : OrderId) : Except Fault (Option Nat) :=
  if t.toNat < meMaxTickers ∧ id.toNat < meMaxOrderIds then .ok (y.tickerOrderToUpdate t id)
  else .error .outOfRange

def setOrder (y : SnapshotSynthetizer) (t : TickerId) (id : OrderId) (p : Option Nat) :
    SnapshotSynthetizer :=
  { y with
    tickerOrderToUpdate :=
      Function.update y.tickerOrderToUpdate t (Function.update (y.tickerOrderToUpdate t) id p) }

/-- An order that an update is about: it must exist under the update's id and side. -/
def existing (y : SnapshotSynthetizer) (u : MEMarketUpdate) : Except Fault Nat := do
  match ← y.orderAt u.tickerId u.orderId with
  | none => .error .assertion
  | some order =>
    if (y.updatePool.get order).orderId = u.orderId ∧ (y.updatePool.get order).side = u.side then
      .ok order
    else .error .assertion

/-- The `switch` of `addSnapShot`. -/
def record (y : SnapshotSynthetizer) (u : MEMarketUpdate) : Except Fault SnapshotSynthetizer :=
  match u.type with
  | .add => do
    match ← y.orderAt u.tickerId u.orderId with
    | some _ => .error .assertion
    | none =>
      let (order, pool) ← y.updatePool.allocate u
      return { y with updatePool := pool }.setOrder u.tickerId u.orderId (some order)
  | .modify => do
    let order ← y.existing u
    return { y with
      updatePool := y.updatePool.modify order fun o => { o with price := u.price, qty := u.qty } }
  | .cancel => do
    let order ← y.existing u
    let pool ← y.updatePool.deallocate order
    return { y with updatePool := pool }.setOrder u.tickerId u.orderId none
  | _ => .ok y

def addSnapShot (y : SnapshotSynthetizer) (m : MDPMarketUpdate) : Except Fault SnapshotSynthetizer :=
  -- the table's `.at(ticker)` comes before the `switch`, for every type of update
  if m.meMarketUpdate.tickerId.toNat < meMaxTickers then do
    let y ← y.record m.meMarketUpdate
    if m.seqNum = y.lastSeqNum + 1 then return { y with lastSeqNum := m.seqNum }
    else .error .assertion
  else .error .outOfRange

/-- Add updates one after the other. -/
def addAll (y : SnapshotSynthetizer) (ms : List MDPMarketUpdate) : Except Fault SnapshotSynthetizer :=
  ms.foldlM addSnapShot y

/-- The orders of a ticker, in the order of their ids. -/
def ordersOf (y : SnapshotSynthetizer) (t : TickerId) : List MEMarketUpdate :=
  (List.range meMaxOrderIds).filterMap fun id =>
    (y.tickerOrderToUpdate t (UInt64.ofNat id)).map y.updatePool.get

/-- The updates of a snapshot between its first message and its last. -/
def body (y : SnapshotSynthetizer) : List MEMarketUpdate :=
  (List.range meMaxTickers).flatMap fun t =>
    { type := .clear, tickerId := UInt32.ofNat t } :: y.ordersOf (UInt32.ofNat t)

/-- The messages of a snapshot, in the order they are sent. -/
def publishSnapShot (y : SnapshotSynthetizer) : List MDPMarketUpdate :=
  numbered 0 ({ type := .snapshotStart, orderId := y.lastSeqNum } :: y.body ++
    [{ type := .snapshotEnd, orderId := y.lastSeqNum }])

/-- The first message of a snapshot. -/
def startOf (y : SnapshotSynthetizer) : MEMarketUpdate :=
  { type := .snapshotStart, orderId := y.lastSeqNum }

/-- The last message of a snapshot. -/
def endOf (y : SnapshotSynthetizer) : MEMarketUpdate :=
  { type := .snapshotEnd, orderId := y.lastSeqNum }

/-- The last message of a snapshot is numbered by how many come before it. -/
theorem publishSnapShot_eq (y : SnapshotSynthetizer) :
    y.publishSnapShot = numbered 0 (y.startOf :: y.body) ++
      [⟨UInt64.ofNat (y.startOf :: y.body).length, y.endOf⟩] := by
  unfold publishSnapShot
  rw [numbered_append, zero_add]
  rfl

/-- The frame of a snapshot changes no book. -/
theorem applyAll_publishSnapShot (y : SnapshotSynthetizer) (prior : MarketBook) :
    prior.applyAll (y.publishSnapShot.map MDPMarketUpdate.meMarketUpdate) = prior.applyAll y.body := by
  unfold publishSnapShot
  rw [numbered_updates, List.cons_append, MarketBook.applyAll_cons, MarketBook.applyAll_append,
    MarketBook.apply_of_type (by simp)]
  show (prior.applyAll y.body).apply _ = _
  rw [MarketBook.apply_of_type (by simp)]

/-! ## What the table holds -/

/-- The synthesizer holds the orders of the feed: each in a cell of its own, under its ticker and
id. -/
structure Stores (y : SnapshotSynthetizer) (f : Feed) : Prop where
  ready : y.updatePool.Ready
  cells : y.updatePool.numCells = meMaxOrderIds
  used : ∃ used : List Nat, (∀ p, y.updatePool.Live p → p ∈ used) ∧ used.length ≤ f.adds
  inj : ∀ {t id t' id' p}, y.tickerOrderToUpdate t id = some p →
    y.tickerOrderToUpdate t' id' = some p → t = t' ∧ id = id'
  live : ∀ {t id p}, y.tickerOrderToUpdate t id = some p → y.updatePool.Live p
  recorded : ∀ t id u, (y.tickerOrderToUpdate t id).map y.updatePool.get = some u ↔
    u ∈ f.live t ∧ u.orderId = id

variable {y y' : SnapshotSynthetizer} {f : Feed} {u : MEMarketUpdate} {t t' : TickerId}
  {id id' : OrderId} {p : Nat}

theorem setOrder_tickerOrderToUpdate (q : Option Nat) :
    (y.setOrder t id q).tickerOrderToUpdate t' id' =
      if t' = t ∧ id' = id then q else y.tickerOrderToUpdate t' id' := by
  by_cases ht : t' = t
  · subst ht
    by_cases hid : id' = id
    · subst hid
      simp [setOrder]
    · simp [setOrder, hid]
  · simp [setOrder, ht]

theorem stores_init : init.Stores Feed.empty where
  ready := MemPool.ready_init (by decide) _
  cells := rfl
  used := ⟨[], by simp [init], Nat.zero_le _⟩
  inj := by simp [init]
  live := by simp [init]
  recorded := by simp [init, Feed.empty]

namespace Stores

/-- The cell of an order of the feed. -/
theorem exists_cell (h : y.Stores f) {o : MEMarketUpdate} (ho : o ∈ f.live t) :
    ∃ p, y.tickerOrderToUpdate t o.orderId = some p ∧ y.updatePool.get p = o := by
  have hrec := (h.recorded t o.orderId o).mpr ⟨ho, rfl⟩
  cases hp : y.tickerOrderToUpdate t o.orderId with
  | none =>
    rw [hp] at hrec
    cases hrec
  | some p =>
    rw [hp] at hrec
    exact ⟨p, rfl, Option.some.inj hrec⟩

/-- An update of an order of the feed finds it. -/
theorem existing_eq (h : y.Stores f) (hf : f.Sound) {o : MEMarketUpdate}
    (ho : o ∈ f.live u.tickerId) (hid : o.orderId = u.orderId) (hside : o.side = u.side) :
    ∃ p, y.existing u = .ok p ∧ y.tickerOrderToUpdate u.tickerId u.orderId = some p ∧
      y.updatePool.get p = o := by
  obtain ⟨p, hp, hget⟩ := h.exists_cell ho
  rw [hid] at hp
  refine ⟨p, ?_, hp, hget⟩
  have hin : u.tickerId.toNat < meMaxTickers ∧ u.orderId.toNat < meMaxOrderIds :=
    ⟨(hf.ticker _ o ho).2, hid ▸ hf.id_lt _ o ho⟩
  unfold existing orderAt
  rw [if_pos hin, hp]
  simp only [bind, Except.bind]
  rw [if_pos ⟨by rw [hget, hid], by rw [hget, hside]⟩]

/-! The live orders of an id after an update. -/

theorem mem_live_add (hfresh : ∀ o ∈ f.live u.tickerId, o.orderId ≠ u.orderId) {t : TickerId}
    {id : OrderId} {u' : MEMarketUpdate} :
    u' ∈ Function.update f.live u.tickerId (f.live u.tickerId ++ [u]) t ∧ u'.orderId = id ↔
      if t = u.tickerId ∧ id = u.orderId then u' = u else u' ∈ f.live t ∧ u'.orderId = id := by
  by_cases ht : t = u.tickerId
  · subst ht
    rw [Function.update_self, List.mem_append, List.mem_singleton]
    split
    · next heq =>
      constructor
      · rintro ⟨hold | rfl, hid⟩
        · exact absurd (hid.trans heq.2) (hfresh u' hold)
        · rfl
      · rintro rfl
        exact ⟨Or.inr rfl, heq.2.symm⟩
    · next hne =>
      constructor
      · rintro ⟨hold | rfl, hid⟩
        · exact ⟨hold, hid⟩
        · exact absurd ⟨rfl, hid.symm⟩ hne
      · intro ⟨hold, hid⟩
        exact ⟨Or.inl hold, hid⟩
  · rw [Function.update_of_ne ht, if_neg (fun h => ht h.1)]

theorem mem_live_modify (hf : f.Sound) {o : MEMarketUpdate} (ho : o ∈ f.live u.tickerId)
    (hoid : o.orderId = u.orderId) {t : TickerId} {id : OrderId} {u' : MEMarketUpdate} :
    u' ∈ (f.setLive u.tickerId ((f.live u.tickerId).map fun o =>
        if o.orderId = u.orderId then { o with price := u.price, qty := u.qty } else o)).live t ∧
      u'.orderId = id ↔
      if t = u.tickerId ∧ id = u.orderId then u' = { o with price := u.price, qty := u.qty }
      else u' ∈ f.live t ∧ u'.orderId = id := by
  unfold Feed.setLive
  dsimp only
  by_cases ht : t = u.tickerId
  · subst ht
    rw [Function.update_self, List.mem_map]
    split
    · next heq =>
      constructor
      · rintro ⟨⟨o', ho', rfl⟩, hid⟩
        have hid' : o'.orderId = u.orderId := by
          rw [heq.2] at hid
          split at hid <;> exact hid
        rw [if_pos hid', hf.eq_of_id ho' ho (hid'.trans hoid.symm)]
      · rintro rfl
        exact ⟨⟨o, ho, if_pos hoid⟩, hoid.trans heq.2.symm⟩
    · next hne =>
      have hid' : id ≠ u.orderId := fun hid => hne ⟨rfl, hid⟩
      constructor
      · rintro ⟨⟨o', ho', rfl⟩, hid⟩
        by_cases hoid' : o'.orderId = u.orderId
        · rw [if_pos hoid'] at hid
          exact absurd (hid.symm.trans hoid') hid'
        · rw [if_neg hoid'] at hid ⊢
          exact ⟨ho', hid⟩
      · intro ⟨hold, hid⟩
        exact ⟨⟨u', hold, if_neg (fun h => hid' (hid.symm.trans h))⟩, hid⟩
  · rw [Function.update_of_ne ht, if_neg (fun h => ht h.1)]

theorem mem_live_cancel {t : TickerId} {id : OrderId} {u' : MEMarketUpdate} :
    u' ∈ (f.setLive u.tickerId ((f.live u.tickerId).filter fun o => o.orderId ≠ u.orderId)).live t ∧
      u'.orderId = id ↔
      (u' ∈ f.live t ∧ u'.orderId = id) ∧ ¬ (t = u.tickerId ∧ id = u.orderId) := by
  unfold Feed.setLive
  dsimp only
  by_cases ht : t = u.tickerId
  · subst ht
    rw [Function.update_self, List.mem_filter, decide_eq_true_eq]
    constructor
    · intro ⟨⟨hold, hne⟩, hid⟩
      exact ⟨⟨hold, hid⟩, fun heq => hne (hid.trans heq.2)⟩
    · intro ⟨⟨hold, hid⟩, hne⟩
      exact ⟨⟨hold, fun heq => hne ⟨rfl, hid.symm.trans heq⟩⟩, hid⟩
  · rw [Function.update_of_ne ht]
    exact (and_iff_left fun h => ht h.1).symm

theorem add (h : y.Stores f) (hf : f.Sound) (ha : f.Admits u) (htype : u.type = .add) :
    ∃ y', y.record u = .ok y' ∧ y'.lastSeqNum = y.lastSeqNum ∧ y'.Stores (f.step u) := by
  have hstep : f.step u = ⟨Function.update f.live u.tickerId (f.live u.tickerId ++ [u]),
      Function.update f.lastId u.tickerId u.orderId, f.adds + 1⟩ := by
    unfold Feed.step
    rw [htype]
  unfold Feed.Admits Feed.Continues at ha
  rw [htype] at ha
  obtain ⟨hticker, hnew, hid, hadds⟩ := ha
  -- the id is new
  have hfresh : ∀ o ∈ f.live u.tickerId, o.orderId ≠ u.orderId := by
    intro o ho heq
    have hle := hf.id_le _ o ho
    rw [heq] at hle
    grind
  have hnone : y.tickerOrderToUpdate u.tickerId u.orderId = none := by
    cases hp : y.tickerOrderToUpdate u.tickerId u.orderId with
    | none => rfl
    | some p =>
      have hrec := (h.recorded u.tickerId u.orderId (y.updatePool.get p)).mp (by rw [hp]; rfl)
      exact absurd hrec.2 (hfresh _ hrec.1)
  obtain ⟨used, hused, hlen⟩ := h.used
  rcases MemPool.allocate_cases h.ready u with ⟨-, hfull⟩ | ⟨pool, hok, halloc⟩
  · -- the pool has a cell for every order ever added, and one more
    have hle := MemPool.numCells_le_of_full hfull hused
    rw [h.cells] at hle
    omega
  · refine ⟨{ y with updatePool := pool }.setOrder u.tickerId u.orderId
      (some y.updatePool.nextFreeIndex), ?_, rfl, ?_⟩
    · unfold record orderAt
      rw [htype]
      dsimp only
      rw [if_pos ⟨hticker, hid⟩, hnone]
      simp only [bind, Except.bind]
      rw [hok]
      rfl
    · have hne : ∀ {t id p}, y.tickerOrderToUpdate t id = some p →
          p ≠ y.updatePool.nextFreeIndex := by
        intro t id p hp heq
        exact h.ready.not_live (heq ▸ h.live hp)
      rw [hstep]
      refine ⟨halloc.ready, halloc.numCells.trans h.cells, ?_, ?_, ?_, ?_⟩
      · refine ⟨y.updatePool.nextFreeIndex :: used, ?_, by simpa using hlen⟩
        intro p hp
        rcases (halloc.live_iff p).mp hp with rfl | hp
        · exact List.mem_cons_self
        · exact List.mem_cons_of_mem _ (hused p hp)
      · intro t id t' id' p hp hp'
        rw [setOrder_tickerOrderToUpdate] at hp hp'
        split at hp
        · next heq =>
          obtain rfl := Option.some.inj hp
          split at hp'
          · next heq' => exact ⟨heq.1.trans heq'.1.symm, heq.2.trans heq'.2.symm⟩
          · exact absurd rfl (hne hp')
        · split at hp'
          · obtain rfl := Option.some.inj hp'
            exact absurd rfl (hne hp)
          · exact h.inj hp hp'
      · intro t id p hp
        rw [setOrder_tickerOrderToUpdate] at hp
        apply (halloc.live_iff p).mpr
        split at hp
        · exact Or.inl (Option.some.inj hp).symm
        · exact Or.inr (h.live hp)
      · intro t id u'
        rw [setOrder_tickerOrderToUpdate]
        dsimp only
        rw [mem_live_add hfresh]
        by_cases heq : t = u.tickerId ∧ id = u.orderId
        · rw [if_pos heq, if_pos heq]
          show some (pool.get _) = some u' ↔ _
          rw [halloc.get_self, Option.some.injEq, eq_comm]
        · rw [if_neg heq, if_neg heq, ← h.recorded]
          show (y.tickerOrderToUpdate t id).map pool.get = some u' ↔ _
          have hsame : (y.tickerOrderToUpdate t id).map pool.get =
              (y.tickerOrderToUpdate t id).map y.updatePool.get := by
            cases hp : y.tickerOrderToUpdate t id with
            | none => rfl
            | some p => exact congrArg some (halloc.get_of_ne p (hne hp))
          rw [hsame]

theorem modify (h : y.Stores f) (hf : f.Sound) (ha : f.Admits u) (htype : u.type = .modify) :
    ∃ y', y.record u = .ok y' ∧ y'.lastSeqNum = y.lastSeqNum ∧ y'.Stores (f.step u) := by
  have hstep : f.step u = f.setLive u.tickerId ((f.live u.tickerId).map fun o =>
      if o.orderId = u.orderId then { o with price := u.price, qty := u.qty } else o) := by
    unfold Feed.step
    rw [htype]
  unfold Feed.Admits Feed.Continues at ha
  rw [htype] at ha
  obtain ⟨hticker, o, ho, hoid, hside, -⟩ := ha
  obtain ⟨p, hex, hp, hget⟩ := h.existing_eq hf ho hoid hside
  refine ⟨{ y with updatePool := y.updatePool.modify p fun o =>
    { o with price := u.price, qty := u.qty } }, ?_, rfl, ?_⟩
  · unfold record
    rw [htype]
    dsimp only
    rw [hex]
    rfl
  · rw [hstep]
    refine ⟨h.ready.modify _ _, h.cells, ?_, h.inj, ?_, ?_⟩
    · obtain ⟨used, hused, hlen⟩ := h.used
      exact ⟨used, fun q hq => hused q ((MemPool.live_modify _ _ _ _).mp hq), hlen⟩
    · intro t id q hq
      exact (MemPool.live_modify _ _ _ _).mpr (h.live hq)
    · intro t id u'
      rw [mem_live_modify hf ho hoid]
      by_cases heq : t = u.tickerId ∧ id = u.orderId
      · obtain ⟨rfl, rfl⟩ := heq
        rw [if_pos ⟨rfl, rfl⟩, hp, Option.map_some, MemPool.get_modify_self, hget, Option.some.injEq,
          eq_comm]
      · have hsame : (y.tickerOrderToUpdate t id).map (y.updatePool.modify p fun o =>
              { o with price := u.price, qty := u.qty }).get =
            (y.tickerOrderToUpdate t id).map y.updatePool.get := by
          cases hq : y.tickerOrderToUpdate t id with
          | none => rfl
          | some q =>
            apply congrArg some
            apply MemPool.get_modify_of_ne
            rintro rfl
            exact heq (h.inj hq hp)
        rw [if_neg heq, hsame, h.recorded]

theorem cancel (h : y.Stores f) (hf : f.Sound) (ha : f.Admits u) (htype : u.type = .cancel) :
    ∃ y', y.record u = .ok y' ∧ y'.lastSeqNum = y.lastSeqNum ∧ y'.Stores (f.step u) := by
  have hstep : f.step u = f.setLive u.tickerId
      ((f.live u.tickerId).filter fun o => o.orderId ≠ u.orderId) := by
    unfold Feed.step
    rw [htype]
  unfold Feed.Admits Feed.Continues at ha
  rw [htype] at ha
  obtain ⟨hticker, o, ho, hoid, hside⟩ := ha
  obtain ⟨p, hex, hp, hget⟩ := h.existing_eq hf ho hoid hside
  obtain ⟨pool, hok, hdealloc⟩ := MemPool.deallocate_spec h.ready (h.live hp)
  refine ⟨{ y with updatePool := pool }.setOrder u.tickerId u.orderId none, ?_, rfl, ?_⟩
  · unfold record
    rw [htype]
    dsimp only
    rw [hex]
    simp only [bind, Except.bind]
    rw [hok]
    rfl
  · have hother : ∀ {t id q}, ({ y with updatePool := pool }.setOrder u.tickerId u.orderId
        none).tickerOrderToUpdate t id = some q →
        y.tickerOrderToUpdate t id = some q ∧ q ≠ p := by
      intro t id q hq
      rw [setOrder_tickerOrderToUpdate] at hq
      split at hq
      · cases hq
      · next hne =>
        refine ⟨hq, ?_⟩
        rintro rfl
        exact hne (h.inj hq hp)
    rw [hstep]
    refine ⟨hdealloc.ready, hdealloc.numCells.trans h.cells, ?_, ?_, ?_, ?_⟩
    · obtain ⟨used, hused, hlen⟩ := h.used
      exact ⟨used, fun q hq => hused q ((hdealloc.live_iff q).mp hq).1, hlen⟩
    · intro t id t' id' q hq hq'
      exact h.inj (hother hq).1 (hother hq').1
    · intro t id q hq
      obtain ⟨hq, hne⟩ := hother hq
      exact (hdealloc.live_iff q).mpr ⟨h.live hq, hne⟩
    · intro t id u'
      have hget : pool.get = y.updatePool.get := funext hdealloc.get_eq
      rw [setOrder_tickerOrderToUpdate, mem_live_cancel]
      show Option.map pool.get _ = some u' ↔ _
      rw [hget]
      by_cases heq : t = u.tickerId ∧ id = u.orderId
      · rw [if_pos heq]
        simp [heq]
      · rw [if_neg heq, h.recorded]
        exact (and_iff_left heq).symm

/-- **Step lemma.** An update that can come next is recorded, and no assertion fires. -/
theorem record (h : y.Stores f) (hf : f.Sound) (ha : f.Admits u) :
    ∃ y', y.record u = .ok y' ∧ y'.lastSeqNum = y.lastSeqNum ∧ y'.Stores (f.step u) := by
  cases htype : u.type with
  | add => exact h.add hf ha htype
  | modify => exact h.modify hf ha htype
  | cancel => exact h.cancel hf ha htype
  | trade =>
    refine ⟨y, ?_, rfl, ?_⟩
    · unfold SnapshotSynthetizer.record
      rw [htype]
    · unfold Feed.step
      rw [htype]
      exact h
  | _ =>
    unfold Feed.Admits Feed.Continues at ha
    rw [htype] at ha
    exact absurd ha.2 (by simp)

theorem addSnapShot (h : y.Stores f) (hf : f.Sound) (ha : f.Admits u) :
    ∃ y', y.addSnapShot ⟨y.lastSeqNum + 1, u⟩ = .ok y' ∧ y'.lastSeqNum = y.lastSeqNum + 1 ∧
      y'.Stores (f.step u) := by
  obtain ⟨y', hok, hlast, h'⟩ := h.record hf ha
  refine ⟨{ y' with lastSeqNum := y.lastSeqNum + 1 }, ?_, rfl, ?_⟩
  · unfold SnapshotSynthetizer.addSnapShot
    rw [if_pos ha.1]
    dsimp only
    rw [hok]
    simp only [bind, Except.bind]
    rw [if_pos (by rw [hlast])]
    rfl
  · exact ⟨h'.ready, h'.cells, h'.used, h'.inj, h'.live, h'.recorded⟩

/-- **Run lemma.** A stream that can come next is recorded. -/
theorem addAll {us : List MEMarketUpdate} (h : y.Stores f) (hf : f.Sound) (ha : f.Accepts us) :
    ∃ y', y.addAll (numbered (y.lastSeqNum + 1) us) = .ok y' ∧
      y'.lastSeqNum = y.lastSeqNum + UInt64.ofNat us.length ∧ y'.Stores (f.steps us) := by
  induction us generalizing y f with
  | nil => exact ⟨y, rfl, by simp, h⟩
  | cons u us ih =>
    obtain ⟨y₁, hok, hlast, h₁⟩ := h.addSnapShot hf ha.1
    obtain ⟨y₂, hok', hlast', h₂⟩ := ih h₁ (hf.step ha.1) ha.2
    refine ⟨y₂, ?_, ?_, h₂⟩
    · rw [hlast] at hok'
      show ((⟨y.lastSeqNum + 1, u⟩ :: numbered (y.lastSeqNum + 1 + 1) us).foldlM
        SnapshotSynthetizer.addSnapShot y) = _
      rw [List.foldlM_cons, hok]
      exact hok'
    · rw [hlast', hlast, List.length_cons, UInt64.ofNat_add, add_assoc, add_comm (1 : UInt64)]
      rfl

/-! ## What a snapshot says -/

/-- The orders of a ticker are those of the feed, in their order: both are in the order of the
ids. -/
theorem ordersOf_eq (h : y.Stores f) (hf : f.Sound) (t : TickerId) :
    y.ordersOf t = f.live t := by
  have hmem : ∀ u, u ∈ y.ordersOf t ↔ u ∈ f.live t := by
    intro u
    unfold ordersOf
    rw [List.mem_filterMap]
    constructor
    · intro hu
      obtain ⟨id, -, hu⟩ := hu
      exact ((h.recorded t _ u).mp hu).1
    · intro hu
      refine ⟨u.orderId.toNat, List.mem_range.mpr (hf.id_lt t u hu), ?_⟩
      rw [UInt64.ofNat_toNat]
      exact (h.recorded t _ u).mpr ⟨hu, rfl⟩
  have hsorted : (y.ordersOf t).Pairwise fun a b => a.orderId < b.orderId := by
    unfold ordersOf
    apply List.Pairwise.filterMap (R := fun i j => i < j ∧ j < meMaxOrderIds)
    · intro i j hij a ha b hb
      rw [((h.recorded t _ a).mp ha).2, ((h.recorded t _ b).mp hb).2, UInt64.lt_iff_toNat_lt]
      unfold meMaxOrderIds at hij
      rw [UInt64.toNat_ofNat', UInt64.toNat_ofNat', Nat.mod_eq_of_lt (by omega),
        Nat.mod_eq_of_lt (by omega)]
      exact hij.1
    · refine List.pairwise_lt_range.imp_of_mem ?_
      intro i j _ hj hij
      exact ⟨hij, List.mem_range.mp hj⟩
  have hlive : (f.live t).Pairwise fun a b => a.orderId < b.orderId := by
    have := hf.ascending t
    rwa [List.pairwise_map] at this
  have hperm : (y.ordersOf t).Perm (f.live t) := by
    refine (List.perm_ext_iff_of_nodup ?_ ?_).mpr hmem
    · exact hsorted.imp fun hlt heq => absurd (heq ▸ hlt) (by grind)
    · exact hlive.imp fun hlt heq => absurd (heq ▸ hlt) (by grind)
  exact hperm.eq_of_pairwise (fun a b _ _ hab hba => absurd hab (by grind)) hsorted hlive

/-- A snapshot says what the feed is. -/
theorem body_eq (h : y.Stores f) (hf : f.Sound) :
    y.body = (List.range meMaxTickers).flatMap fun i =>
      { type := .clear, tickerId := UInt32.ofNat i } :: f.live (UInt32.ofNat i) := by
  unfold body
  apply List.flatMap_congr
  intro i _
  rw [h.ordersOf_eq hf]

/-- The part of a snapshot about one ticker: a clear and its orders. -/
theorem body_filter (h : y.Stores f) (hf : f.Sound) (ht : t.toNat < meMaxTickers) :
    (y.body.filter fun u => u.tickerId = t) = { type := .clear, tickerId := t } :: f.live t := by
  have hpart : ∀ i < meMaxTickers,
      (({ type := .clear, tickerId := UInt32.ofNat i } : MEMarketUpdate) ::
        y.ordersOf (UInt32.ofNat i)).filter (fun u => decide (u.tickerId = t)) =
      if i = t.toNat then { type := .clear, tickerId := t } :: f.live t else [] := by
    intro i hi
    rw [h.ordersOf_eq hf]
    have hiff : UInt32.ofNat i = t ↔ i = t.toNat := by
      unfold meMaxTickers at hi
      rw [← UInt32.toNat_inj, UInt32.toNat_ofNat', Nat.mod_eq_of_lt (by omega)]
    by_cases heq : i = t.toNat
    · rw [if_pos heq, hiff.mpr heq, List.filter_eq_self]
      intro u hu
      rcases List.mem_cons.mp hu with rfl | hu
      · simp
      · exact decide_eq_true (hf.ticker t u hu).1
    · rw [if_neg heq, List.filter_eq_nil_iff]
      have hne : UInt32.ofNat i ≠ t := fun hc => heq (hiff.mp hc)
      intro u hu
      rcases List.mem_cons.mp hu with rfl | hu
      · simpa using hne
      · rw [(hf.ticker _ u hu).1]
        simpa using hne
  have hone : ∀ n, t.toNat < n → (List.range n).flatMap (fun i =>
      if i = t.toNat then ({ type := .clear, tickerId := t } : MEMarketUpdate) :: f.live t
      else []) = { type := .clear, tickerId := t } :: f.live t := by
    intro n hn
    induction n with
    | zero => omega
    | succ n ih =>
      rw [List.range_succ, List.flatMap_append]
      by_cases heq : t.toNat = n
      · have hbefore : (List.range n).flatMap (fun i =>
            if i = t.toNat then ({ type := .clear, tickerId := t } : MEMarketUpdate) :: f.live t
            else []) = [] := by
          rw [List.flatMap_eq_nil_iff]
          intro i hi
          have := List.mem_range.mp hi
          rw [if_neg (by omega)]
        rw [hbefore]
        simp [heq]
      · rw [ih (by omega)]
        simp [Ne.symm heq]
  unfold body
  rw [List.filter_flatMap, ← hone meMaxTickers ht]
  apply List.flatMap_congr
  intro i hi
  exact hpart i (List.mem_range.mp hi)

/-- **Applying a snapshot**, to whatever there is before, gives the book of the feed. -/
theorem applyAll_snapshot (h : y.Stores f) (hf : f.Sound) (prior : MarketBook)
    (ht : t.toNat < meMaxTickers) :
    (prior.applyAll (y.publishSnapShot.map MDPMarketUpdate.meMarketUpdate)) t = f.book t := by
  rw [applyAll_publishSnapShot, MarketBook.applyAll_at, h.body_filter hf ht, List.foldl_cons]
  funext s p
  rw [MarketBook.foldl_applyTo_adds (hf.isAdd t)]
  rfl

end Stores

/-! ## What the table holds after any run -/

/-- The table holds updates of type `ADD` only. -/
def OnlyAdds (y : SnapshotSynthetizer) : Prop :=
  ∀ t id p, y.tickerOrderToUpdate t id = some p → (y.updatePool.get p).type = .add

theorem onlyAdds_init : init.OnlyAdds := by
  intro t id p hp
  cases hp

theorem OnlyAdds.setOrder (h : y.OnlyAdds) {q : Option Nat}
    (hq : ∀ p, q = some p → (y.updatePool.get p).type = .add) : (y.setOrder t id q).OnlyAdds := by
  intro t' id' p hp
  rw [setOrder_tickerOrderToUpdate] at hp
  split at hp
  · exact hq p hp
  · exact h t' id' p hp

theorem OnlyAdds.record (h : y.OnlyAdds) (hok : y.record u = .ok y') : y'.OnlyAdds := by
  unfold SnapshotSynthetizer.record at hok
  split at hok
  · next htype =>
    -- `ADD`
    cases hat : y.orderAt u.tickerId u.orderId with
    | error e =>
      rw [hat] at hok
      cases hok
    | ok o =>
      rw [hat] at hok
      cases o with
      | some order => cases hok
      | none =>
        cases halloc : y.updatePool.allocate u with
        | error e =>
          simp only [bind, Except.bind, halloc] at hok
          cases hok
        | ok r =>
          simp only [bind, Except.bind, halloc] at hok
          obtain rfl := Except.ok.inj hok
          have hget : ∀ p, (y.updatePool.get p).type = .add → (r.2.get p).type = .add := by
            intro p hp
            rw [MemPool.get_of_allocate halloc]
            split
            · exact htype
            · exact hp
          apply OnlyAdds.setOrder
          · exact fun t id p hp => hget p (h t id p hp)
          · intro p hp
            obtain rfl := Option.some.inj hp
            show (r.2.get r.1).type = .add
            rw [MemPool.get_of_allocate halloc, if_pos rfl]
            exact htype
  · -- `MODIFY`
    cases hex : y.existing u with
    | error e =>
      rw [hex] at hok
      cases hok
    | ok order =>
      rw [hex] at hok
      obtain rfl := Except.ok.inj hok
      intro t id p hp
      dsimp only
      rw [MemPool.get_modify]
      split
      · exact h t id p hp
      · exact h t id p hp
  · -- `CANCEL`
    cases hex : y.existing u with
    | error e =>
      rw [hex] at hok
      cases hok
    | ok order =>
      cases hdealloc : y.updatePool.deallocate order with
      | error e =>
        simp only [bind, Except.bind, hex, hdealloc] at hok
        cases hok
      | ok pool =>
        simp only [bind, Except.bind, hex, hdealloc] at hok
        obtain rfl := Except.ok.inj hok
        apply OnlyAdds.setOrder
        · intro t id p hp
          show (pool.get p).type = .add
          rw [MemPool.get_of_deallocate hdealloc]
          exact h t id p hp
        · intro p hp
          cases hp
  · obtain rfl := Except.ok.inj hok
    exact h

theorem OnlyAdds.addSnapShot (h : y.OnlyAdds) {m : MDPMarketUpdate}
    (hok : y.addSnapShot m = .ok y') : y'.OnlyAdds := by
  unfold SnapshotSynthetizer.addSnapShot at hok
  split at hok
  · cases hrec : y.record m.meMarketUpdate with
    | error e =>
      rw [hrec] at hok
      cases hok
    | ok y₁ =>
      simp only [bind, Except.bind, hrec] at hok
      split at hok
      · obtain rfl := Except.ok.inj hok
        have h₁ := h.record hrec
        exact fun t id p hp => h₁ t id p hp
      · cases hok
  · cases hok

theorem onlyAdds_addAll {ms : List MDPMarketUpdate} (hok : init.addAll ms = .ok y) :
    y.OnlyAdds := by
  refine run_induction (P := fun _ _ _ => True) (motive := fun _ y => y.OnlyAdds) onlyAdds_init ?_
    (fun _ _ _ _ _ _ => trivial) hok
  intro _ _ _ _ _ _ h hstep
  exact h.addSnapShot hstep

/-- Between its first message and its last a snapshot has none of their types. -/
theorem OnlyAdds.body_type (h : y.OnlyAdds) {u : MEMarketUpdate} (hu : u ∈ y.body) :
    u.type = .clear ∨ u.type = .add := by
  obtain ⟨i, -, hu⟩ := List.mem_flatMap.mp hu
  rcases List.mem_cons.mp hu with rfl | hu
  · exact Or.inl rfl
  · obtain ⟨id, -, hid⟩ := List.mem_filterMap.mp hu
    obtain ⟨p, hp, rfl⟩ := Option.map_eq_some_iff.mp hid
    exact Or.inr (h _ _ p hp)

/-- A snapshot has far fewer messages than there are numbers. -/
theorem length_body_le (y : SnapshotSynthetizer) :
    y.body.length ≤ meMaxTickers * (meMaxOrderIds + 1) := by
  unfold body
  rw [List.length_flatMap]
  have hone : ∀ n ∈ (List.range meMaxTickers).map fun i =>
      (({ type := .clear, tickerId := UInt32.ofNat i } : MEMarketUpdate) ::
        y.ordersOf (UInt32.ofNat i)).length, n ≤ meMaxOrderIds + 1 := by
    intro n hn
    obtain ⟨i, -, rfl⟩ := List.mem_map.mp hn
    have hlen : (y.ordersOf (UInt32.ofNat i)).length ≤ (List.range meMaxOrderIds).length :=
      List.length_filterMap_le _ _
    rw [List.length_range] at hlen
    rw [List.length_cons]
    omega
  have hsum := List.sum_le_card_nsmul _ _ hone
  rw [List.length_map, List.length_range] at hsum
  exact hsum

/-- The synthesizer takes every part of a well-formed stream. -/
theorem addAll_take {us : List MEMarketUpdate} (h : WellFormed us) (n : Nat) :
    ∃ y, init.addAll (numbered 1 (us.take n)) = .ok y ∧
      y.lastSeqNum = UInt64.ofNat (us.take n).length ∧
      y.Stores (Feed.empty.steps (us.take n)) := by
  obtain ⟨y, hok, hlast, hstores⟩ := stores_init.addAll Feed.Sound.empty (h.take n)
  refine ⟨y, hok, ?_, hstores⟩
  rw [hlast]
  exact zero_add _

/-- The `switch` leaves the number alone. -/
theorem record_lastSeqNum (hok : y.record u = .ok y') : y'.lastSeqNum = y.lastSeqNum := by
  unfold record at hok
  split at hok
  · obtain ⟨o, -, hok⟩ := bind_eq_ok.mp hok
    cases o with
    | some order => cases hok
    | none =>
      obtain ⟨r, -, hok⟩ := bind_eq_ok.mp hok
      obtain rfl := Except.ok.inj hok
      rfl
  · obtain ⟨order, -, hok⟩ := bind_eq_ok.mp hok
    obtain rfl := Except.ok.inj hok
    rfl
  · obtain ⟨order, -, hok⟩ := bind_eq_ok.mp hok
    obtain ⟨pool, -, hok⟩ := bind_eq_ok.mp hok
    obtain rfl := Except.ok.inj hok
    rfl
  · obtain rfl := Except.ok.inj hok
    rfl

/-- **Updates are taken in sequence only.** -/
theorem addSnapShot_seqNum {m : MDPMarketUpdate} (hok : y.addSnapShot m = .ok y') :
    m.seqNum = y.lastSeqNum + 1 := by
  unfold addSnapShot at hok
  split at hok
  · obtain ⟨y₁, hrecord, hok⟩ := bind_eq_ok.mp hok
    split at hok
    · next hseq => rw [hseq, record_lastSeqNum hrecord]
    · cases hok
  · cases hok

/-- Trades change nothing, so any number of them can come. -/
theorem accepts_trades (f : Feed) (n : Nat) :
    f.Accepts (List.replicate n { type := .trade, tickerId := 0 }) := by
  induction n with
  | zero => trivial
  | succ n ih =>
    rw [List.replicate_succ]
    exact ⟨⟨by decide, trivial⟩, ih⟩

/-- Every number can be the last one. -/
theorem exists_lastSeqNum (n : Nat) :
    ∃ ms y, init.addAll ms = .ok y ∧ y.lastSeqNum = UInt64.ofNat n := by
  obtain ⟨y, hok, hlast, -⟩ := stores_init.addAll Feed.Sound.empty (accepts_trades _ n)
  refine ⟨_, y, hok, ?_⟩
  rw [hlast, List.length_replicate]
  exact zero_add _

/-- A snapshot and the updates after it replay to the book of the whole stream. -/
theorem snapshot_drop_replay {us : List MEMarketUpdate} (h : WellFormed us) {n : Nat}
    (hstores : y.Stores (Feed.empty.steps (us.take n))) (prior : MarketBook) {m : Nat} (hnm : n ≤ m)
    (ht : t.toNat < meMaxTickers) :
    ((prior.applyAll (y.publishSnapShot.map MDPMarketUpdate.meMarketUpdate)).applyAll
        ((us.take m).drop n)) t = (MarketBook.empty.applyAll (us.take m)) t := by
  have hsplit : us.take m = us.take n ++ (us.take m).drop n := by
    conv_lhs => rw [← List.take_append_drop n (us.take m)]
    rw [List.take_take, Nat.min_eq_left hnm]
  have hsnap := hstores.applyAll_snapshot (h.take n).sound prior ht
  rw [MarketBook.applyAll_congr hsnap]
  conv_rhs => rw [hsplit, MarketBook.applyAll_append]
  apply MarketBook.applyAll_congr
  rw [(h.take n).replay]

end SnapshotSynthetizer

/-- **Snapshot replay equals incremental replay.** The synthesizer takes the engine's stream up to
any cut without a failed assertion, and its snapshot, applied to any book, followed by the updates
after the cut gives for every ticker the book of the whole stream. -/
theorem publishSnapShot_replay {rs : List MEClientRequest} {m : MatchingEngine}
    (hvalid : ∀ r ∈ rs, r.Valid) (hcount : (newRequests rs).length < meMaxOrderIds)
    (hrun : MatchingEngine.init.processAll rs = .ok m) (s : Nat) (prior : MarketBook) :
    ∃ y, SnapshotSynthetizer.init.addAll (numbered 1 (m.marketUpdates.take s)) = .ok y ∧
      ∀ t : TickerId, t.toNat < meMaxTickers →
        ((prior.applyAll (y.publishSnapShot.map MDPMarketUpdate.meMarketUpdate)).applyAll
          (m.marketUpdates.drop s)) t = (MarketBook.empty.applyAll m.marketUpdates) t := by
  have hwf := MatchingEngine.processAll_wellFormed hvalid hcount hrun
  obtain ⟨y, hok, -, hstores⟩ := SnapshotSynthetizer.addAll_take hwf s
  refine ⟨y, hok, ?_⟩
  intro t ht
  have hreplay := SnapshotSynthetizer.snapshot_drop_replay hwf hstores prior
    (Nat.le_max_left s m.marketUpdates.length) ht
  rwa [List.take_of_length_le (Nat.le_max_right s _)] at hreplay

/-- Two tickers, a cut in the middle and a book with an order of an earlier day. -/
theorem publishSnapShot_replay_two_tickers :
    ∃ m, MatchingEngine.init.processAll [
        { type := .new, clientId := 1, tickerId := 0, orderId := 1, side := .sell, price := 101,
          qty := 5 },
        { type := .new, clientId := 1, tickerId := 3, orderId := 2, side := .sell, price := 100,
          qty := 5 },
        { type := .new, clientId := 2, tickerId := 0, orderId := 1, side := .buy, price := 101,
          qty := 2 }] = .ok m ∧
      ∃ y, SnapshotSynthetizer.init.addAll (numbered 1 (m.marketUpdates.take 2)) = .ok y ∧
        ∀ t : TickerId, t.toNat < meMaxTickers →
          ((MarketBook.applyAll (fun _ _ _ => [⟨7, 7, 7⟩])
            (y.publishSnapShot.map MDPMarketUpdate.meMarketUpdate)).applyAll
              (m.marketUpdates.drop 2)) t = (MarketBook.empty.applyAll m.marketUpdates) t := by
  obtain ⟨m, hm⟩ := exists_ok (x := MatchingEngine.init.processAll [
        { type := .new, clientId := 1, tickerId := 0, orderId := 1, side := .sell, price := 101,
          qty := 5 },
        { type := .new, clientId := 1, tickerId := 3, orderId := 2, side := .sell, price := 100,
          qty := 5 },
        { type := .new, clientId := 2, tickerId := 0, orderId := 1, side := .buy, price := 101,
          qty := 2 }]) (by decide +kernel)
  exact ⟨m, hm, publishSnapShot_replay (by decide) (by decide) hm 2 _⟩

end TradingSystem
