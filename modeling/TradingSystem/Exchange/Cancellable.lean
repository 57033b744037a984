import TradingSystem.Exchange.Legality

/-!
# Which orders their owners can cancel

A client names an order by its own ids, and the book finds it through `cid_oid_to_order_`. `add` does
not look whether the entry is free, so that an order that comes to rest under the ids of one that rests
takes the entry from it; and whichever of the two leaves the book first clears it.

The table has exactly the resting orders as long as no order comes to rest under the ids of one that
has outlasted the trades of the new one (`FreesName`).
-/

namespace TradingSystem

open MEOrderBook (priceToIndex inTable stops)

namespace MEOrderBook

/-- The orders on the list that a new order of side `s` rests on. -/
def own (b : MEOrderBook) (s : Side) : List OrderInfo :=
  if s = .buy then b.restingBids else b.restingAsks

/-- The orders that are left when a `NEW` request has traded with all it crosses. -/
def survivors (b : MEOrderBook) (r : MEClientRequest) : List OrderInfo :=
  (b.opposite r.side).dropWhile (fun o => !stops r.side r.price o.price) ++ b.own r.side

/-- A `NEW` request that comes to rest has its ids to itself. -/
def FreesName (b : MEOrderBook) (r : MEClientRequest) : Prop :=
  r.type = .new → b.available r < r.qty.toNat →
    ∀ o ∈ b.survivors r, ¬ (o.clientId = r.clientId ∧ o.clientOrderId = r.orderId)

instance (b : MEOrderBook) (r : MEClientRequest) : Decidable (FreesName b r) :=
  inferInstanceAs (Decidable (_ → _ → _))

/-- **Every resting order is cancellable by its owner**: the table has an entry for exactly the ids of
the resting orders, no two of which share theirs, and a `CANCEL` is answered with the order it names. -/
structure Cancellable (b : MEOrderBook) : Prop where
  table : ∀ c o, b.cidOidToOrder c o ≠ none ↔
    ∃ i ∈ b.resting, i.clientId = c ∧ i.clientOrderId = o
  unique : b.resting.Pairwise fun i j => ¬ (i.clientId = j.clientId ∧ i.clientOrderId = j.clientOrderId)
  cancel : ∀ i ∈ b.resting, ∃ b', b.cancel i.clientId i.clientOrderId = .ok b' ∧
    b'.responses = b.responses ++ [{
      type := .cancelled, clientId := i.clientId, tickerId := b.ticker,
      clientOrderId := i.clientOrderId, marketOrderId := i.marketOrderId, side := i.side,
      price := i.price, execQty := qtyInvalid, leftQty := i.qty }]

end MEOrderBook

/-! ## On the lists -/

/-- What rests has ids in range that no resting order has. -/
def Event.FreshName (k : Book) : Event → Prop
  | .rest e _ _ => inTable e.info.clientId e.info.clientOrderId = true ∧
      ∀ e' ∈ k.entries,
        ¬ (e'.info.clientId = e.info.clientId ∧ e'.info.clientOrderId = e.info.clientOrderId)
  | _ => True

namespace Book

variable {k : Book} {s t : Side} {e e' : Entry} {ev : Event} {r : MEClientRequest}

/-- The table names every order of client `c`. -/
def Names (k : Book) (c : ClientId) : Prop :=
  ∀ e ∈ k.entries, e.info.clientId = c → k.cidOidToOrder c e.info.clientOrderId = some e.ptr

variable {c : ClientId}

theorem names_init (ticker : TickerId) (c : ClientId) : (init ticker).Names c := by
  intro e he
  simp [init, entries, levels] at he

theorem Names.eq_of_id (h : k.Names c) (hk : k.Lists) (he : e ∈ k.entries) (he' : e' ∈ k.entries)
    (hc : e.info.clientId = c) (hc' : e'.info.clientId = c)
    (ho : e.info.clientOrderId = e'.info.clientOrderId) : e = e' := by
  have hptr := h e he hc
  rw [ho, h e' he' hc'] at hptr
  exact hk.eq_of_ptr he he' (Option.some.inj hptr).symm

theorem Names.remove (h : k.Names c) (hk : k.Lists) (he : e ∈ k.entries) : (k.remove e).Names c := by
  intro e' he' hc
  obtain ⟨hmem, hne⟩ := (mem_remove_entries hk he).mp he'
  unfold Book.remove
  rw [setCidOid_cidOidToOrder, if_neg]
  · exact h e' hmem hc
  · intro ⟨hc', ho⟩
    exact hne (h.eq_of_id hk hmem he hc hc'.symm ho)

theorem Names.setQty (h : k.Names c) (p : OrderPtr) (q : Qty) : (k.setQty p q).Names c := by
  intro e' he' hc
  obtain ⟨e, he, rfl⟩ := mem_setQty_entries.mp he'
  split at hc
  · next hp =>
    rw [if_pos hp]
    exact h e he hc
  · next hp =>
    rw [if_neg hp]
    exact h e he hc

/-- What rests has ids that no other order of its client has. -/
theorem Names.rest (h : k.Names c) (hk : k.Lists) {lp : LevelPtr}
    (hfresh : e.info.clientId = c → ∀ e' ∈ k.entries, e'.info.clientId = c →
      e'.info.clientOrderId ≠ e.info.clientOrderId) : (k.rest e lp).Names c := by
  intro e' he' hc
  rw [rest_cidOidToOrder]
  rcases (mem_rest_entries hk).mp he' with rfl | he'
  · rw [if_pos ⟨hc.symm, rfl⟩]
  · rw [if_neg]
    · exact h e' he' hc
    · intro ⟨hc', ho⟩
      exact hfresh hc'.symm e' he' hc ho

/-- Events other than the resting of an order leave the names as they are. -/
theorem Names.apply (h : k.Names c) (hk : k.Lists) (hok : ev.Ok k)
    (hrest : ∀ e lp q, ev = .rest e lp q → e.info.clientId = c → ∀ e' ∈ k.entries,
      e'.info.clientId = c → e'.info.clientOrderId ≠ e.info.clientOrderId) :
    (k.apply ev).Names c := by
  cases ev with
  | accepted o => exact h
  | fill a f =>
    apply fill_rule (P := fun k => k.Names c)
    · exact fun _ => h.remove hk hok.1
    · exact fun _ => h.setQty _ _
  | rest e lp q => exact h.rest hk (hrest e lp q rfl)
  | cancelled e => exact h.remove hk hok
  | rejected c o => exact h

/-- Every resting order has ids in range, and the table names it. -/
structure Named (k : Book) : Prop where
  inTable : ∀ e ∈ k.entries, inTable e.info.clientId e.info.clientOrderId = true
  named : ∀ e ∈ k.entries, k.cidOidToOrder e.info.clientId e.info.clientOrderId = some e.ptr

theorem named_init (ticker : TickerId) : (init ticker).Named := by
  constructor
  · intro e he
    simp [init, entries, levels] at he
  · intro e he
    exact names_init ticker _ e he rfl

theorem Named.names (h : k.Named) (c : ClientId) : k.Names c := by
  intro e he hc
  rw [← hc]
  exact h.named e he

theorem Named.eq_of_name (h : k.Named) (hk : k.Lists) (he : e ∈ k.entries) (he' : e' ∈ k.entries)
    (hc : e.info.clientId = e'.info.clientId)
    (ho : e.info.clientOrderId = e'.info.clientOrderId) : e = e' :=
  (h.names _).eq_of_id hk he he' rfl hc.symm ho

/-- What rests after an event had its ids before it, or is what the event puts to rest. -/
theorem mem_apply_entries (hk : k.Lists) (hok : ev.Ok k) (he : e' ∈ (k.apply ev).entries) :
    (∃ e ∈ k.entries, ∃ q, e' = { e with info := { e.info with qty := q } }) ∨
      ∃ lp q, ev = .rest e' lp q := by
  have hself : ∀ e ∈ k.entries, ∃ e₀ ∈ k.entries, ∃ q, e = { e₀ with info := { e₀.info with qty := q } } :=
    fun e he => ⟨e, he, e.info.qty, rfl⟩
  cases ev with
  | accepted o => exact Or.inl (hself e' he)
  | fill a f => exact Or.inl (mem_fill_entries he)
  | rest e lp q =>
    rcases (mem_rest_entries hk).mp he with rfl | he
    · exact Or.inr ⟨lp, q, rfl⟩
    · exact Or.inl (hself e' he)
  | cancelled e => exact Or.inl (hself e' ((mem_remove_entries hk hok).mp he).1)
  | rejected c o => exact Or.inl (hself e' he)

/-- **Step lemma.** -/
theorem Named.apply (h : k.Named) (hk : k.Lists) (hok : ev.Ok k) (hfresh : ev.FreshName k) :
    (k.apply ev).Named := by
  constructor
  · intro e' he'
    rcases mem_apply_entries hk hok he' with ⟨e, he, q, rfl⟩ | ⟨lp, q, rfl⟩
    · exact h.inTable e he
    · exact hfresh.1
  · intro e' he'
    have hnames := (h.names e'.info.clientId).apply hk hok (by
      rintro e lp q rfl hc e₀ he₀ hc₀ ho
      exact hfresh.2 e₀ he₀ ⟨hc₀.trans hc.symm, ho⟩)
    exact hnames e' he' rfl

/-- **Run lemma**, over events. -/
theorem Named.applyAll {evs : List Event} (h : k.Named) (hk : k.WF)
    (hevs : k.Along (fun k ev => ev.Ok k ∧ ev.FreshName k) evs) : (k.applyAll evs).Named :=
  (hevs.induction (I := fun k => k.WF ∧ k.Named)
    (fun _ _ h hev => ⟨apply_wf h.1 hev.1, h.2.apply h.1.toLists hev.1 hev.2⟩) ⟨hk, h⟩).2

/-! ## What matching leaves on each list -/

/-- Matching makes no order up on either list. -/
theorem mem_side_fills {a : OrderInfo} {fs : List Fill}
    (h : e' ∈ levelOrders ((k.applyAll (fs.map (.fill a))).side t)) :
    ∃ e ∈ levelOrders (k.side t), ∃ q, e' = { e with info := { e.info with qty := q } } := by
  induction fs generalizing k with
  | nil => exact ⟨e', h, e'.info.qty, rfl⟩
  | cons f fs ih =>
    obtain ⟨e₁, he₁, q₁, rfl⟩ := ih h
    have hkept : ∃ e ∈ levelOrders (k.side t), ∃ q,
        e₁ = { e with info := { e.info with qty := q } } := by
      change e₁ ∈ levelOrders ((k.fill f).side t) at he₁
      unfold fill remove Book.setQty at he₁
      split at he₁
      · rw [setCidOid_side, filter_side, levelOrders_filterOrders] at he₁
        obtain ⟨e, he, hf⟩ := List.mem_filterMap.mp he₁
        exact ⟨e, he, keeps_dropping _ e e₁ hf⟩
      · rw [filter_side, levelOrders_filterOrders] at he₁
        obtain ⟨e, he, hf⟩ := List.mem_filterMap.mp he₁
        exact ⟨e, he, keeps_requantifying _ _ e e₁ hf⟩
    obtain ⟨e, he, q, rfl⟩ := hkept
    exact ⟨e, he, q₁, rfl⟩

/-- After the matches of an order that is not used up, what rests is among the survivors. -/
theorem mem_survivors {b : MEOrderBook} (h : Rep b k) (hk : k.WF)
    (hs : r.side = .buy ∨ r.side = .sell)
    (hleft : 0 < leftOver r.qty (fills r.side r.price r.qty (k.queue r.side)))
    (he : e' ∈ (k.applyAll (k.matchEvents r)).entries) :
    ∃ o ∈ b.survivors r, o.clientId = e'.info.clientId ∧ o.clientOrderId = e'.info.clientOrderId := by
  unfold MEOrderBook.survivors
  have hwf : (k.apply (.accepted (k.incoming r))).WF := apply_wf hk trivial
  have hlists : e' ∈ (k.applyAll (k.matchEvents r)).queue r.side ∨
      e' ∈ levelOrders ((k.applyAll (k.matchEvents r)).side r.side) := by
    rw [queue_eq hs]
    obtain ⟨l, hl, hel⟩ := mem_entries.mp he
    rcases mem_levels.mp hl with hl | hl
    · rcases hs with hs | hs
      · rw [hs]
        exact Or.inr (mem_levelOrders.mpr ⟨l, hl, hel⟩)
      · rw [hs]
        exact Or.inl (mem_levelOrders.mpr ⟨l, hl, hel⟩)
    · rcases hs with hs | hs
      · rw [hs]
        exact Or.inl (mem_levelOrders.mpr ⟨l, hl, hel⟩)
      · rw [hs]
        exact Or.inr (mem_levelOrders.mpr ⟨l, hl, hel⟩)
  rcases hlists with hqueue | hown
  · -- the orders that stop it, and those behind them
    have heq := queue_of_leftOver hwf.toLists (k.incoming r) rfl hleft
    rw [show (k.applyAll (k.matchEvents r)).queue r.side = _ from heq] at hqueue
    refine ⟨e'.info, List.mem_append_left _ ?_, rfl, rfl⟩
    rw [h.opposite_eq hk.toLists, List.dropWhile_map]
    exact List.mem_map_of_mem hqueue
  · obtain ⟨e, hmem, q, rfl⟩ := mem_side_fills (k := k.apply (.accepted (k.incoming r))) hown
    refine ⟨e.info, List.mem_append_right _ ?_, rfl, rfl⟩
    have hinfos : b.own r.side = (levelOrders (k.side r.side)).map Entry.info := by
      rcases hs with hs | hs
      · rw [hs]
        exact h.restingBids_eq hk.toLists
      · rw [hs]
        exact h.restingAsks_eq hk.toLists
    rw [hinfos]
    exact List.mem_map_of_mem hmem

/-- The events of a request that meets the condition. -/
theorem events_freshName {b : MEOrderBook} (h : Rep b k) (hk : k.WF) (hr : r.Valid)
    (hfrees : MEOrderBook.FreesName b r) (cells : Cells) :
    k.Along (fun k ev => ev.FreshName k) (k.events cells r) := by
  apply events_along
  · intro k ev hev
    cases ev with
    | rest e lp q => cases hev
    | _ => trivial
  · intro hnew e hrem
    obtain ⟨hs, hin⟩ : (r.side = .buy ∨ r.side = .sell) ∧ inTable r.clientId r.orderId = true := by
      rcases hr with ⟨-, hs, hin⟩ | hcancel
      · exact ⟨hs, hin⟩
      · rw [hnew] at hcancel
        cases hcancel
    obtain ⟨hleft, -, hinfo⟩ := remainder_eq_some hrem
    have havailable : b.available r < r.qty.toNat := by
      have hpos := UInt32.lt_iff_toNat_lt.mp hleft
      rw [h.leftOver_eq hk.toLists r, UInt32.toNat_zero] at hpos
      omega
    show inTable e.info.clientId e.info.clientOrderId = true ∧ ∀ e' ∈ _, ¬ (_ ∧ _)
    rw [hinfo]
    refine ⟨hin, ?_⟩
    intro e' he' ⟨hc, ho⟩
    obtain ⟨o, hmem, hoc, hoo⟩ := mem_survivors h hk hs hleft he'
    exact hfrees hnew havailable o hmem ⟨hoc.trans hc, hoo.trans ho⟩

end Book

namespace MEOrderBook

variable {ticker : TickerId} {b : MEOrderBook} {k : Book} {rs : List MEClientRequest}

theorem cancellable_of_named (h : Rep b k) (hk : k.WF) (hnamed : k.Named) : b.Cancellable := by
  have hresting := h.resting_eq hk.toLists
  constructor
  · intro c o
    rw [h.cid, hresting]
    constructor
    · intro hne
      obtain ⟨p, hp⟩ := Option.ne_none_iff_exists'.mp hne
      obtain ⟨e, he, -, hc, ho⟩ := hk.table c o p hp
      exact ⟨e.info, List.mem_map_of_mem he, hc, ho⟩
    · intro ⟨i, hi, hc, ho⟩
      obtain ⟨e, he, rfl⟩ := List.mem_map.mp hi
      rw [← hc, ← ho, hnamed.named e he]
      exact Option.some_ne_none _
  · rw [hresting, List.pairwise_map]
    have hptrs := List.pairwise_map.mp hk.orderPtrs
    refine hptrs.imp_of_mem ?_
    intro e e' he he' hne ⟨hc, ho⟩
    exact hne (congrArg Entry.ptr (hnamed.eq_of_name hk.toLists he he' hc ho))
  · intro i hi
    rw [hresting] at hi
    obtain ⟨e, he, rfl⟩ := List.mem_map.mp hi
    obtain ⟨b', hok, -, hsent⟩ := cancel_refines (r := {
      type := .cancel, clientId := e.info.clientId, orderId := e.info.clientOrderId }) h hk rfl
      ⟨0, 0⟩
    refine ⟨b', hok, ?_⟩
    rw [hsent.responses]
    unfold Book.events
    dsimp only
    rw [if_pos (hnamed.inTable e he), hnamed.named e he, hk.find_ptr he]
    rfl

/-- **Every resting order is cancellable by its owner** in every run in which no order comes to rest
under the ids of one that outlasts its trades. -/
theorem processAll_cancellable (hvalid : ∀ r ∈ rs, r.Valid)
    (hfrees : AllSteps processClientRequest (init ticker) (fun _ => FreesName) rs)
    (hrun : (init ticker).processAll rs = .ok b) : b.Cancellable := by
  obtain ⟨k, evs, hreached, hnamed⟩ := run_rule (fun _ k _ => k.Named) _ (Book.named_init ticker)
    (fun rs b k evs cells r hreached hnamed hr hP hok =>
      hnamed.applyAll hreached.wf
        (hok.and (Book.events_freshName hreached.rep hreached.wf hr hP cells))) hvalid hfrees hrun
  exact cancellable_of_named hreached.rep hreached.wf hnamed

/-- A `NEW` of client 1 to buy 10, under its order id 5. -/
def newFive (side : Side) (price : Price) : MEClientRequest where
  type := .new
  clientId := 1
  tickerId := 0
  orderId := 5
  side := side
  price := price
  qty := 10

/-- The second order is filled by the first, and a third may use the same ids. -/
theorem processAll_cancellable_freed :
    ∃ b, (init 0).processAll [newFive .buy 100, newFive .sell 100, newFive .buy 99] = .ok b ∧
      b.Cancellable := by
  obtain ⟨b, hb⟩ : ∃ b, (init 0).processAll [newFive .buy 100, newFive .sell 100, newFive .buy 99] =
      .ok b := exists_ok (by decide +kernel)
  exact ⟨b, hb, processAll_cancellable (by decide) (AllSteps.of_check (by decide +kernel)) hb⟩

/-- Two orders under the same ids. Both rest, and the table has the second only. -/
theorem not_cancellable_of_reused :
    ∃ b, (init 0).processAll [newFive .buy 100, newFive .buy 99] = .ok b ∧ ¬ b.Cancellable := by
  obtain ⟨b, hb⟩ : ∃ b, (init 0).processAll [newFive .buy 100, newFive .buy 99] = .ok b :=
    exists_ok (by decide +kernel)
  refine ⟨b, hb, ?_⟩
  intro h
  have hread : ((init 0).processAll [newFive .buy 100, newFive .buy 99]).map (fun b =>
      b.resting.map fun i => (i.clientId, i.clientOrderId)) = .ok [(1, 5), (1, 5)] := by
    decide +kernel
  rw [hb] at hread
  have hids : b.resting.map (fun i => (i.clientId, i.clientOrderId)) = [(1, 5), (1, 5)] :=
    Except.ok.inj hread
  have hunique : (b.resting.map fun i => (i.clientId, i.clientOrderId)).Pairwise
      fun i j => i ≠ j := by
    rw [List.pairwise_map]
    apply h.unique.imp
    intro i j hij heq
    exact hij ⟨(Prod.mk.inj heq).1, (Prod.mk.inj heq).2⟩
  rw [hids] at hunique
  exact absurd hunique (by decide)

end MEOrderBook

end TradingSystem
