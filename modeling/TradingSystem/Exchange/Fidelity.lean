import TradingSystem.Exchange.Crossing

/-!
# What the market data says about the book

A reader of the market data keeps a map from market order ids to what is shown of the order, and
folds every update into it as `SnapshotSynthetizer::addSnapShot` does. `Faithful b` says that the map
is then exactly what rests in `b`.

The updates of an event keep the map faithful in all cases but one: the `ADD` of an order that rests
after it traded carries the quantity of the request, not what is left of it. `Announces` is the
condition under which a request does not come to that (nor reuses an id that still rests, which the
64-bit counter of ids only does after it has wrapped).
-/

namespace TradingSystem

open Book (dropping requantifying)

/-- What the market data shows of an order. -/
structure Shown where
  side : Side
  price : Price
  qty : Qty
  priority : Priority
  deriving DecidableEq

def OrderInfo.shown (o : OrderInfo) : Shown := ⟨o.side, o.price, o.qty, o.priority⟩

/-- Fold an update into the map of orders. -/
def foldUpdate (m : OrderId → Option Shown) (u : MEMarketUpdate) : OrderId → Option Shown :=
  match u.type with
  | .add => Function.update m u.orderId (some ⟨u.side, u.price, u.qty, u.priority⟩)
  | .modify =>
    Function.update m u.orderId
      ((m u.orderId).map fun o => { o with price := u.price, qty := u.qty })
  | .cancel => Function.update m u.orderId none
  | _ => m

/-- The map after a list of updates, from an empty one. -/
def foldUpdates (us : List MEMarketUpdate) : OrderId → Option Shown :=
  us.foldl foldUpdate fun _ => none

/-- The market data sent so far describes the resting orders. -/
def Faithful (b : MEOrderBook) : Prop :=
  ∀ id v, foldUpdates b.updates id = some v ↔ ∃ o ∈ b.resting, o.marketOrderId = id ∧ o.shown = v

/-- The request leaves the book and the market data in agreement: what it asks for is there at once,
or none of it is and the id it gets does not rest. -/
def Announces (b : MEOrderBook) (r : MEClientRequest) : Prop :=
  r.type = .new → r.qty.toNat ≤ b.available r ∨
    (b.available r = 0 ∧ ∀ o ∈ b.resting, o.marketOrderId ≠ b.nextOrderId)

instance (b : MEOrderBook) (r : MEClientRequest) : Decidable (Announces b r) :=
  inferInstanceAs (Decidable (_ → _))

/-! ## Events -/

/-- The map describes the book, in which no id rests twice. -/
structure Tracks (m : OrderId → Option Shown) (k : Book) : Prop where
  nodup : (k.entries.map fun e => e.info.marketOrderId).Nodup
  shown : ∀ id v, m id = some v ↔
    ∃ e ∈ k.entries, e.info.marketOrderId = id ∧ e.info.shown = v

/-- A resting order is announced as it is, under an id that does not rest yet. -/
def Event.Announced (k : Book) : Event → Prop
  | .rest e _ submitted =>
    e.info.qty = submitted ∧ ∀ e' ∈ k.entries, e'.info.marketOrderId ≠ e.info.marketOrderId
  | _ => True

namespace Tracks

variable {m : OrderId → Option Shown} {k : Book} {e e' : Entry} {ev : Event}

theorem eq_of_id (h : Tracks m k) (he : e ∈ k.entries) (he' : e' ∈ k.entries)
    (hid : e.info.marketOrderId = e'.info.marketOrderId) : e = e' :=
  List.inj_on_of_nodup_map h.nodup he he' hid

/-- Taking an order out and erasing its id. -/
theorem remove (h : Tracks m k) (hk : k.Lists) (he : e ∈ k.entries) :
    Tracks (Function.update m e.info.marketOrderId none) (k.remove e) := by
  refine ⟨?_, ?_⟩
  · rw [Book.remove, Book.setCidOid_entries, Book.filter_entries]
    exact h.nodup.sublist ((Book.keeps_dropping _).map_sublist (fun _ _ => rfl) _)
  · intro id v
    by_cases hid : id = e.info.marketOrderId
    · subst hid
      simp only [Function.update_self, reduceCtorEq, false_iff, not_exists, not_and]
      intro e' he' hid' hv
      have hmem := (Book.mem_remove_entries hk he).mp he'
      exact hmem.2 (h.eq_of_id hmem.1 he hid')
    · rw [Function.update_of_ne hid, h.shown]
      constructor
      · rintro ⟨e', he', rfl, rfl⟩
        refine ⟨e', (Book.mem_remove_entries hk he).mpr ⟨he', ?_⟩, rfl, rfl⟩
        rintro rfl
        exact hid rfl
      · rintro ⟨e', he', rfl, rfl⟩
        exact ⟨e', ((Book.mem_remove_entries hk he).mp he').1, rfl, rfl⟩

/-- Giving an order another quantity in the book and in the map. -/
theorem setQty (h : Tracks m k) (hk : k.Lists) (he : e ∈ k.entries) (q : Qty) :
    Tracks (Function.update m e.info.marketOrderId ((m e.info.marketOrderId).map
      fun o => { o with price := e.info.price, qty := q })) (k.setQty e.ptr q) := by
  have hmem : ∀ e', e' ∈ (k.setQty e.ptr q).entries ↔
      e' = { e with info := { e.info with qty := q } } ∨ e' ∈ k.entries ∧ e' ≠ e := by
    intro e'
    rw [Book.mem_setQty_entries]
    constructor
    · rintro ⟨e₀, he₀, rfl⟩
      by_cases hp : e₀.ptr = e.ptr
      · obtain rfl := hk.eq_of_ptr he₀ he hp
        exact Or.inl (by simp)
      · rw [if_neg hp]
        exact Or.inr ⟨he₀, fun heq => hp (by rw [heq])⟩
    · rintro (rfl | ⟨he', hne⟩)
      · exact ⟨e, he, by simp⟩
      · exact ⟨e', he', by rw [if_neg fun hp => hne (hk.eq_of_ptr he' he hp)]⟩
  refine ⟨?_, ?_⟩
  · rw [Book.setQty, Book.filter_entries]
    exact h.nodup.sublist ((Book.keeps_requantifying _ _).map_sublist (fun _ _ => rfl) _)
  · intro id v
    simp only [hmem]
    by_cases hid : id = e.info.marketOrderId
    · subst hid
      have hself : m e.info.marketOrderId = some e.info.shown :=
        (h.shown _ _).mpr ⟨e, he, rfl, rfl⟩
      rw [Function.update_self, hself, Option.map_some]
      constructor
      · rintro hv
        exact ⟨_, Or.inl rfl, rfl, Option.some.inj hv⟩
      · rintro ⟨e', rfl | ⟨he', hne⟩, hid', rfl⟩
        · rfl
        · exact absurd (h.eq_of_id he' he hid') hne
    · rw [Function.update_of_ne hid, h.shown]
      constructor
      · rintro ⟨e', he', rfl, rfl⟩
        refine ⟨e', Or.inr ⟨he', ?_⟩, rfl, rfl⟩
        rintro rfl
        exact hid rfl
      · rintro ⟨e', rfl | ⟨he', -⟩, hid', rfl⟩
        · exact absurd hid'.symm hid
        · exact ⟨e', he', hid', rfl⟩

/-- Resting an order and announcing it as it is. -/
theorem rest (h : Tracks m k) (hk : k.Lists) (lp : LevelPtr)
    (hnew : ∀ e' ∈ k.entries, e'.info.marketOrderId ≠ e.info.marketOrderId) :
    Tracks (Function.update m e.info.marketOrderId (some e.info.shown)) (k.rest e lp) := by
  refine ⟨?_, ?_⟩
  · rw [((Book.rest_entries_perm hk e lp).map _).nodup_iff, List.map_cons, List.nodup_cons]
    refine ⟨fun hmem => ?_, h.nodup⟩
    obtain ⟨e', he', hid⟩ := List.mem_map.mp hmem
    exact hnew e' he' hid
  · intro id v
    simp only [Book.mem_rest_entries hk]
    by_cases hid : id = e.info.marketOrderId
    · subst hid
      rw [Function.update_self]
      constructor
      · rintro hv
        exact ⟨e, Or.inl rfl, rfl, Option.some.inj hv⟩
      · rintro ⟨e', rfl | he', hid', rfl⟩
        · rfl
        · exact absurd hid' (hnew e' he')
    · rw [Function.update_of_ne hid, h.shown]
      constructor
      · rintro ⟨e', he', rfl, rfl⟩
        exact ⟨e', Or.inr he', rfl, rfl⟩
      · rintro ⟨e', rfl | he', hid', rfl⟩
        · exact absurd hid'.symm hid
        · exact ⟨e', he', hid', rfl⟩

/-- **Step lemma.** The updates of an event keep the map in agreement with the book, provided a
resting order is announced as it is. -/
theorem apply (h : Tracks m k) (hk : k.WF) (hok : ev.Ok k) (hann : ev.Announced k)
    (ticker : TickerId) : Tracks ((ev.updates ticker).foldl foldUpdate m) (k.apply ev) := by
  cases ev with
  | accepted o => exact ⟨h.nodup, h.shown⟩
  | fill a f =>
    show Tracks _ (k.fill f)
    unfold Book.fill
    by_cases hzero : f.passive.info.qty - f.exec = 0
    · rw [if_pos hzero]
      simp only [Event.updates, hzero, if_true]
      exact h.remove hk.toLists hok.1
    · rw [if_neg hzero]
      simp only [Event.updates, if_neg hzero]
      exact h.setQty hk.toLists hok.1 _
  | rest e lp q =>
    obtain ⟨rfl, hnew⟩ := hann
    exact h.rest hk.toLists lp hnew
  | cancelled e => exact h.remove hk.toLists hok
  | rejected c o => exact h

/-- **Run lemma**, over events. -/
theorem applyAll {evs : List Event} (h : Tracks m k) (hk : k.WF)
    (hevs : k.Along (fun k ev => ev.Ok k ∧ ev.Announced k) evs) (ticker : TickerId) :
    Tracks ((evs.flatMap (Event.updates ticker)).foldl foldUpdate m) (k.applyAll evs) := by
  induction evs generalizing k m with
  | nil => exact h
  | cons ev evs ih =>
    rw [List.flatMap_cons, List.foldl_append]
    exact ih (h.apply hk hevs.1.1 hevs.1.2 ticker) (Book.apply_wf hk hevs.1.1) hevs.2

end Tracks

/-! ## Requests and runs -/

/-- The events of a request that meets the condition announce what rests as it is. -/
theorem events_announced {b : MEOrderBook} {k : Book} (h : Rep b k) (hk : k.WF)
    {r : MEClientRequest} (hr : Announces b r) (cells : Book.Cells) :
    k.Along (fun k ev => ev.Announced k) (k.events cells r) := by
  apply Book.events_along
  · intro k ev hev
    cases ev with
    | rest e lp q => cases hev
    | _ => trivial
  · intro hnew e hrem
    obtain ⟨hpos, -, hinfo⟩ := Book.remainder_eq_some hrem
    have hleft := h.leftOver_eq hk.toLists r
    have hpos' := UInt32.lt_iff_toNat_lt.mp hpos
    rcases hr hnew with hcover | ⟨hnone, hid⟩
    · rw [hleft, UInt32.toNat_zero] at hpos'
      omega
    · -- nothing was there to trade with: all of the order rests
      show e.info.qty = r.qty ∧ ∀ e' ∈ (k.applyAll (k.matchEvents r)).entries,
        e'.info.marketOrderId ≠ e.info.marketOrderId
      rw [hinfo]
      refine ⟨?_, ?_⟩
      · rw [hnone, Nat.sub_zero] at hleft
        exact UInt32.toNat_inj.mp hleft
      · intro e' he'
        obtain ⟨e₀, hmem, q, rfl⟩ := Book.mem_matchEvents_entries he'
        show e₀.info.marketOrderId ≠ k.nextOrderId
        rw [← h.nextOrderId]
        apply hid e₀.info
        rw [h.resting_eq hk.toLists]
        exact List.mem_map_of_mem hmem

theorem faithful_of_tracks {b : MEOrderBook} {k : Book} {ticker : TickerId} {evs : List Event}
    (h : MEOrderBook.Reached ticker b k evs)
    (ht : Tracks (foldUpdates (evs.flatMap (Event.updates ticker))) k) : Faithful b := by
  intro id v
  have hupdates : b.updates = evs.flatMap (Event.updates ticker) := h.sent.updates
  rw [hupdates, ht.shown, h.rep.resting_eq h.wf.toLists]
  simp only [List.mem_map]
  constructor
  · rintro ⟨e, he, hid, hv⟩
    exact ⟨e.info, ⟨e, he, rfl⟩, hid, hv⟩
  · rintro ⟨_, ⟨e, he, rfl⟩, hid, hv⟩
    exact ⟨e, he, hid, hv⟩

/-- **The market data describes the book** after every request of a run in which no order rests that
has traded before. -/
theorem processAll_faithful {ticker : TickerId} {rs : List MEClientRequest} {b : MEOrderBook}
    (hvalid : ∀ r ∈ rs, r.Valid)
    (hann : AllSteps MEOrderBook.processClientRequest (MEOrderBook.init ticker)
      (fun _ b r => Announces b r) rs)
    (hrun : (MEOrderBook.init ticker).processAll rs = .ok b) : Faithful b := by
  have hinit : Tracks (foldUpdates ([].flatMap (Event.updates ticker))) (Book.init ticker) :=
    ⟨List.nodup_nil, by simp [foldUpdates, Book.init, Book.entries, Book.levels]⟩
  obtain ⟨k, evs, hreached, htracks⟩ := MEOrderBook.run_rule
    (fun _ k evs => Tracks (foldUpdates (evs.flatMap (Event.updates ticker))) k) _ hinit
    (fun rs b k evs cells r hreached htracks _ hPr hok => by
      have hevs := hok.and (events_announced hreached.rep hreached.wf hPr cells)
      rw [List.flatMap_append, foldUpdates, List.foldl_append]
      exact htracks.applyAll hreached.wf hevs ticker) hvalid hann hrun
  exact faithful_of_tracks hreached htracks

/-- A sell order for 5 that a later buy order for 4 trades with. -/
theorem processAll_faithful_covered :
    ∃ b, (MEOrderBook.init 0).processAll [
        { type := .new, clientId := 1, tickerId := 0, orderId := 1, side := .sell, price := 100,
          qty := 5 },
        { type := .new, clientId := 2, tickerId := 0, orderId := 1, side := .buy, price := 100,
          qty := 4 }] = .ok b ∧ Faithful b := by
  obtain ⟨b, hb⟩ := exists_ok (x := (MEOrderBook.init 0).processAll [
        { type := .new, clientId := 1, tickerId := 0, orderId := 1, side := .sell, price := 100,
          qty := 5 },
        { type := .new, clientId := 2, tickerId := 0, orderId := 1, side := .buy, price := 100,
          qty := 4 }]) (by decide +kernel)
  exact ⟨b, hb, processAll_faithful (by decide) (AllSteps.of_check (by decide +kernel)) hb⟩

/-- A sell order for 5, and a buy order for 8 that trades with it: 3 of the buy order rest, and the
market data says 8. -/
theorem not_faithful_of_partly_filled :
    ¬ ∀ (ticker : TickerId) (rs : List MEClientRequest) (b : MEOrderBook), (∀ r ∈ rs, r.Valid) →
      AllSteps MEOrderBook.processClientRequest (MEOrderBook.init ticker)
        (fun _ b r => MEOrderBook.NotReused b r) rs →
      (MEOrderBook.init ticker).processAll rs = .ok b → Faithful b := by
  intro hall
  let rs : List MEClientRequest := [
    { type := .new, clientId := 1, tickerId := 0, orderId := 1, side := .sell, price := 100,
      qty := 5 },
    { type := .new, clientId := 2, tickerId := 0, orderId := 1, side := .buy, price := 100,
      qty := 8 }]
  obtain ⟨b, hb⟩ := exists_ok (x := (MEOrderBook.init 0).processAll rs) (by decide +kernel)
  have hfaithful := hall 0 rs b (by decide) (AllSteps.of_check (by decide +kernel)) hb
  have hread : ((MEOrderBook.init 0).processAll rs).map (fun b =>
      (foldUpdates b.updates 2, b.resting.map OrderInfo.shown)) =
      .ok (some ⟨.buy, 100, 8, 1⟩, [⟨.buy, 100, 3, 1⟩]) := by decide +kernel
  rw [hb] at hread
  obtain ⟨hmap, hrest⟩ := Prod.mk.inj (Except.ok.inj hread)
  obtain ⟨o, ho, -, hshown⟩ := (hfaithful 2 _).mp hmap
  have hmem : o.shown ∈ b.resting.map OrderInfo.shown := List.mem_map_of_mem ho
  rw [hrest, hshown] at hmem
  simp at hmem

end TradingSystem
