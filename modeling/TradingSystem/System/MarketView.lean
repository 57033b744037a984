import TradingSystem.Exchange.Legality
import TradingSystem.Client.BestBidOffer

/-!
# The updates of an exchange's book are orderly

What an `MEOrderBook` tells the market is a stream that a client's book can follow, as long as the new
orders have prices in one window and new ids: every `ADD` is of an order that is not alive, at a price
that the other side does not hold, and every `MODIFY` and `CANCEL` names a live order with its side and
price (`processAll_orderly`). The orders alive by the stream are then those that rest in the book
(`Emits`), quantities apart: an order that rests after a trade is announced with the quantity it was
submitted with. So a client that is fed these updates lists the orders of the exchange
(`client_lists_exchange`).
-/

namespace TradingSystem

open Client (LiveOrder liveStep liveOrders InWindow Orderly AddOk)
open MEOrderBook (priceToIndex stops)

namespace Client

theorem along_append {P : List LiveOrder → MEMarketUpdate → Prop} {live : List LiveOrder}
    {us vs : List MEMarketUpdate} :
    Along P live (us ++ vs) ↔ Along P live us ∧ Along P (us.foldl liveStep live) vs := by
  induction us generalizing live with
  | nil => simp [Along]
  | cons u us ih => simp [Along, ih, and_assoc]

/-- What never changes of a live order. -/
def LiveOrder.ident (o : LiveOrder) : OrderId × Side × Price := (o.orderId, o.side, o.price)

end Client

open Client (along_append)

/-- What never changes of a resting order. -/
def Entry.ident (e : Entry) : OrderId × Side × Price :=
  (e.info.marketOrderId, e.info.side, e.info.price)

/-- The live orders are the orders of a legal book, with prices in a window and an id each. -/
structure Emits (lo : Price) (live : List LiveOrder) (k : Book) : Prop where
  orders : (live.map LiveOrder.ident).Perm (k.entries.map Entry.ident)
  ids : (k.entries.map fun e => e.info.marketOrderId).Nodup
  window : ∀ e ∈ k.entries, InWindow lo e.info.price
  legal : k.Legal

/-- An order rests in the window under a new id, and leaves a cell free in the pool of orders. -/
def Event.Emittable (lo : Price) (k : Book) : Event → Prop
  | .rest e _ _ => (∀ e' ∈ k.entries, e'.info.marketOrderId ≠ e.info.marketOrderId) ∧
      InWindow lo e.info.price ∧ k.entries.length + 1 < meMaxOrderIds
  | _ => True

namespace Emits

variable {lo : Price} {live : List LiveOrder} {k : Book} {e e' : Entry} {ev : Event}

theorem init (lo : Price) (ticker : TickerId) : Emits lo [] (Book.init ticker) where
  orders := by simp [Book.init, Book.entries, Book.levels]
  ids := by simp [Book.init, Book.entries, Book.levels]
  window := by simp [Book.init, Book.entries, Book.levels]
  legal := ⟨by simp [Book.init, Book.levels], by simp [Book.init]⟩

theorem exists_live (h : Emits lo live k) (he : e ∈ k.entries) :
    ∃ o ∈ live, o.orderId = e.info.marketOrderId ∧ o.side = e.info.side ∧ o.price = e.info.price := by
  have hmem : e.ident ∈ live.map LiveOrder.ident := h.orders.mem_iff.mpr (List.mem_map_of_mem he)
  obtain ⟨o, ho, hident⟩ := List.mem_map.mp hmem
  obtain ⟨hid, hrest⟩ := Prod.mk.inj hident
  obtain ⟨hside, hprice⟩ := Prod.mk.inj hrest
  exact ⟨o, ho, hid, hside, hprice⟩

theorem exists_entry (h : Emits lo live k) {o : LiveOrder} (ho : o ∈ live) :
    ∃ e ∈ k.entries, o.orderId = e.info.marketOrderId ∧ o.side = e.info.side ∧
      o.price = e.info.price := by
  have hmem : o.ident ∈ k.entries.map Entry.ident := h.orders.mem_iff.mp (List.mem_map_of_mem ho)
  obtain ⟨e, he, hident⟩ := List.mem_map.mp hmem
  obtain ⟨hid, hrest⟩ := Prod.mk.inj hident
  obtain ⟨hside, hprice⟩ := Prod.mk.inj hrest
  exact ⟨e, he, hid.symm, hside.symm, hprice.symm⟩

/-- An order goes out of the book and is cancelled. -/
theorem remove (h : Emits lo live k) (hk : k.Lists) (he : e ∈ k.entries) :
    Emits lo (live.filter fun o => o.orderId ≠ e.info.marketOrderId) (k.remove e) := by
  have hentries : (k.remove e).entries = k.entries.filter fun e' => e'.ptr ≠ e.ptr := by
    rw [Book.remove, Book.setCidOid_entries, Book.filter_entries, Book.filterMap_dropping]
  have hsame : (k.entries.filter fun e' => e'.ptr ≠ e.ptr) =
      k.entries.filter fun e' => e'.info.marketOrderId ≠ e.info.marketOrderId := by
    apply List.filter_congr
    intro e' he'
    have hiff : e'.ptr = e.ptr ↔ e'.info.marketOrderId = e.info.marketOrderId := by
      constructor
      · intro hptr
        rw [hk.eq_of_ptr he' he hptr]
      · intro hid
        rw [List.inj_on_of_nodup_map h.ids he' he hid]
    simp only [ne_eq, hiff]
  constructor
  -- dropping by cell and dropping by id is the same
  · rw [hentries, hsame]
    have hfilter := h.orders.filter fun x => x.1 ≠ e.info.marketOrderId
    rw [List.filter_map, List.filter_map] at hfilter
    exact hfilter
  · rw [hentries]
    exact h.ids.sublist (List.Sublist.map _ List.filter_sublist)
  · intro e' he'
    rw [hentries] at he'
    exact h.window e' (List.mem_of_mem_filter he')
  · exact (h.legal.filter (Book.keeps_dropping _)).setCidOid _ _ _

/-- An order gets another quantity and is modified. -/
theorem setQty (h : Emits lo live k) (p : OrderPtr) (q q' : Qty) (id : OrderId) :
    Emits lo (live.map fun o => if o.orderId = id then { o with qty := q' } else o) (k.setQty p q) := by
  have hlive : (live.map fun o => if o.orderId = id then { o with qty := q' } else o).map LiveOrder.ident =
      live.map LiveOrder.ident := by
    rw [List.map_map]
    apply List.map_congr_left
    intro o _
    simp only [Function.comp]
    split <;> rfl
  have hmap : ∀ {β : Type} (f : Entry → β), (∀ e q, f { e with info := { e.info with qty := q } } = f e) →
      (k.setQty p q).entries.map f = k.entries.map f := by
    intro β f hf
    rw [Book.setQty, Book.filter_entries, List.map_filterMap, ← List.filterMap_eq_map]
    apply List.filterMap_congr
    intro e _
    unfold Book.requantifying
    split
    · exact congrArg some (hf e q)
    · rfl
  constructor
  · rw [hlive, hmap Entry.ident fun _ _ => rfl]
    exact h.orders
  · rw [hmap (fun e => e.info.marketOrderId) fun _ _ => rfl]
    exact h.ids
  · intro e he
    obtain ⟨e₀, he₀, rfl⟩ := Book.mem_setQty_entries.mp he
    split <;> exact h.window e₀ he₀
  · exact h.legal.filter (Book.keeps_requantifying _ _)

/-- An order rests and is added. -/
theorem rest (h : Emits lo live k) (hk : k.Lists) {lp : LevelPtr} {q q' : Qty}
    (hok : (Event.rest e lp q).Ok k) (hlaw : (Event.rest e lp q).Lawful k)
    (hemit : (Event.rest e lp q).Emittable lo k) :
    Emits lo (live ++ [⟨e.info.marketOrderId, e.info.side, e.info.price, q'⟩]) (k.rest e lp) := by
  have hperm := Book.rest_entries_perm hk e lp
  constructor
  · rw [List.map_append]
    refine List.Perm.trans ?_ (hperm.map Entry.ident).symm
    exact (List.perm_append_singleton _ _).trans (h.orders.cons _)
  · rw [(hperm.map _).nodup_iff, List.map_cons, List.nodup_cons]
    refine ⟨fun hmem => ?_, h.ids⟩
    obtain ⟨e', he', hid⟩ := List.mem_map.mp hmem
    exact hemit.1 e' he' hid
  · intro e' he'
    rcases (Book.mem_rest_entries hk).mp he' with rfl | he'
    · exact hemit.2.1
    · exact h.window e' he'
  · exact Book.apply_legal h.legal hok hlaw

/-- An order that rests lawfully is announced by a good `ADD`. -/
theorem addOk (h : Emits lo live k) {lp : LevelPtr} {q : Qty}
    (hok : (Event.rest e lp q).Ok k) (hlaw : (Event.rest e lp q).Lawful k)
    (hemit : (Event.rest e lp q).Emittable lo k) {u : MEMarketUpdate}
    (hid : u.orderId = e.info.marketOrderId) (hside : u.side = e.info.side)
    (hprice : u.price = e.info.price) : AddOk lo live u where
  fresh := by
    intro o ho heq
    -- the order of the book that would have the id already
    obtain ⟨e', he', hoid, -⟩ := h.exists_entry ho
    exact hemit.1 e' he' (hoid.symm.trans (heq.trans hid))
  side := by
    rw [hside]
    exact hok.1
  window := by
    rw [hprice]
    exact hemit.2.1
  apart := by
    intro o ho heq
    -- an order at this price is in the slot the new order goes to
    obtain ⟨e', he', -, hoside, hoprice⟩ := h.exists_entry ho
    obtain ⟨l, hl, hel⟩ := Book.mem_entries.mp he'
    obtain ⟨hown, hownprice⟩ := h.legal.own l hl e' hel
    have hslot : l.slot = e.slot := by
      rw [Level.slot, Entry.slot, ← hownprice, ← hoprice, heq, hprice]
    rw [hoside, hown, hside]
    exact (hlaw.1 l hl hslot).1
  room := by
    have hlen := h.orders.length_eq
    rw [List.length_map, List.length_map] at hlen
    rw [hlen]
    exact hemit.2.2

/-- **Step lemma.** The updates of an event are orderly. -/
theorem apply (h : Emits lo live k) (hk : k.WF) (hok : ev.Ok k) (hlaw : ev.Lawful k)
    (hemit : ev.Emittable lo k) (ticker : TickerId) :
    Client.Along (Orderly lo) live (ev.updates ticker) ∧
      Emits lo ((ev.updates ticker).foldl liveStep live) (k.apply ev) := by
  cases ev with
  | accepted o => exact ⟨trivial, h.orders, h.ids, h.window, h.legal.own, h.legal.uncrossed⟩
  | fill a f =>
    obtain ⟨o, ho, hid, hside, hprice⟩ := h.exists_live hok.1
    show _ ∧ Emits lo _ (k.fill f)
    unfold Book.fill
    by_cases hzero : f.passive.info.qty - f.exec = 0
    · rw [if_pos hzero]
      simp only [Event.updates, hzero, if_true]
      exact ⟨⟨trivial, ⟨o, ho, hid, hside, hprice⟩, trivial⟩, h.remove hk.toLists hok.1⟩
    · rw [if_neg hzero]
      simp only [Event.updates, if_neg hzero]
      exact ⟨⟨trivial, ⟨o, ho, hid, hside, hprice⟩, trivial⟩, h.setQty _ _ _ _⟩
  | rest e lp q =>
    exact ⟨⟨h.addOk hok hlaw hemit rfl rfl rfl, trivial⟩, h.rest hk.toLists hok hlaw hemit⟩
  | cancelled e =>
    obtain ⟨o, ho, hid, hside, hprice⟩ := h.exists_live hok
    exact ⟨⟨⟨o, ho, hid, hside, hprice⟩, trivial⟩, h.remove hk.toLists hok⟩
  | rejected c o => exact ⟨trivial, h⟩

/-- **Run lemma**, over events. -/
theorem applyAll {evs : List Event} (h : Emits lo live k) (hk : k.WF)
    (hevs : k.Along (fun k ev => ev.Ok k ∧ ev.Lawful k ∧ ev.Emittable lo k) evs) (ticker : TickerId) :
    Client.Along (Orderly lo) live (evs.flatMap (Event.updates ticker)) ∧
      Emits lo ((evs.flatMap (Event.updates ticker)).foldl liveStep live) (k.applyAll evs) := by
  induction evs generalizing k live with
  | nil => exact ⟨trivial, h⟩
  | cons ev evs ih =>
    obtain ⟨⟨hok, hlaw, hemit⟩, hrest⟩ := hevs
    obtain ⟨hfirst, h'⟩ := h.apply hk hok hlaw hemit ticker
    obtain ⟨htail, h''⟩ := ih h' (Book.apply_wf hk hok) hrest
    rw [List.flatMap_cons, along_append, List.foldl_append]
    exact ⟨⟨hfirst, htail⟩, h''⟩

end Emits

/-! ## Requests and runs -/

/-- A new order has a price in the window, and the id it gets does not rest. -/
def Spaced (lo : Price) (b : MEOrderBook) (r : MEClientRequest) : Prop :=
  r.type = .new → InWindow lo r.price ∧ ∀ o ∈ b.resting, o.marketOrderId ≠ b.nextOrderId

instance decidableSpaced (lo : Price) (b : MEOrderBook) (r : MEClientRequest) : Decidable (Spaced lo b r) :=
  inferInstanceAs (Decidable (_ → _))

variable {lo : Price} {live : List LiveOrder} {k : Book} {b b' : MEOrderBook} {r : MEClientRequest}

/-- In a window only orders of one price share a slot, and orders of two sides at one price trade. -/
theorem Emits.fits (h : Emits lo live k) (hrep : Rep b k) (hk : k.WF) (hr : r.Valid)
    (hspaced : Spaced lo b r) : Fits b r := by
  intro hnew
  obtain ⟨hwindow, -⟩ := hspaced hnew
  refine Or.inr fun o ho hslot => ?_
  rw [hrep.resting_eq hk.toLists] at ho
  obtain ⟨e, he, rfl⟩ := List.mem_map.mp ho
  have hprice : e.info.price = r.price := (h.window e he).eq_of_slot hwindow hslot
  by_cases hside : e.info.side = r.side
  · exact Or.inl ⟨hside, hprice⟩
  · -- at its own price an order of the other side is no obstacle
    refine Or.inr ⟨hside, ?_⟩
    rw [hprice]
    rcases hr with ⟨-, hs | hs, -⟩ | hcancel
    · rw [hs]
      simp [stops]
    · rw [hs]
      simp [stops]
    · rw [hnew] at hcancel
      cases hcancel

/-- A request that went through left a cell free for a further order. -/
theorem events_emittable (hrep : Rep b k) (hk : k.WF) (hspaced : Spaced lo b r)
    {cells : Book.Cells} (hrep' : Rep b' (k.applyAll (k.events cells r)))
    (hk' : (k.applyAll (k.events cells r)).WF) :
    k.Along (fun k ev => ev.Emittable lo k) (k.events cells r) := by
  apply Book.events_along
  · intro k ev hev
    cases ev with
    | rest e lp q => cases hev
    | _ => trivial
  · intro hnew e hrem
    obtain ⟨hwindow, hid⟩ := hspaced hnew
    obtain ⟨-, -, hinfo⟩ := Book.remainder_eq_some hrem
    obtain ⟨k₁, hk₁⟩ : ∃ k₁, k₁ = k.applyAll (k.matchEvents r) := ⟨_, rfl⟩
    have hafter : k.applyAll (k.events cells r) = k₁.rest e cells.level := by
      rw [Book.events_of_rest hnew hrem, Book.applyAll_append, hk₁]
      rfl
    rw [← hk₁]
    refine ⟨?_, ?_, ?_⟩
    · intro e' he'
      rw [hk₁] at he'
      obtain ⟨e₀, hmem, q, rfl⟩ := Book.mem_matchEvents_entries he'
      rw [hinfo]
      show e₀.info.marketOrderId ≠ k.nextOrderId
      rw [← hrep.nextOrderId]
      apply hid e₀.info
      rw [hrep.resting_eq hk.toLists]
      exact List.mem_map_of_mem hmem
    · rw [hinfo]
      exact hwindow
    · -- the order is in the book after the request, whose pool has a cell left
      have hlt := hrep'.entries_length_lt hk'.toLists
      have hk₀ : (k.apply (.accepted (k.incoming r))).WF := Book.apply_wf hk trivial
      have hk₁' : k₁.Lists := hk₁ ▸ hk₀.toLists.applyAll_fills _ _
      rw [hafter, (Book.rest_entries_perm hk₁' e cells.level).length_eq, List.length_cons] at hlt
      exact hlt

/-- **The updates of a book are orderly**, in every run of requests whose new orders have prices in one
window and new ids. The live orders are then the resting ones. -/
theorem processAll_orderly {ticker : TickerId} {rs : List MEClientRequest} (hvalid : ∀ r ∈ rs, r.Valid)
    (hspaced : AllSteps MEOrderBook.processClientRequest (MEOrderBook.init ticker)
      (fun _ b r => Spaced lo b r) rs)
    (hrun : (MEOrderBook.init ticker).processAll rs = .ok b) :
    Client.Along (Orderly lo) [] b.updates ∧
      ((liveOrders b.updates).map LiveOrder.ident).Perm
        (b.resting.map fun o => (o.marketOrderId, o.side, o.price)) := by
  have hall : AllSteps MEOrderBook.processClientRequest (MEOrderBook.init ticker)
      (fun _ b r => r.Valid ∧ Spaced lo b r) rs := by
    intro pre r post s hrs hpre
    exact ⟨hvalid r (by simp [hrs]), hspaced pre r post s hrs hpre⟩
  obtain ⟨k, evs, hreached, horderly, hemits⟩ := run_induction
    (motive := fun _ b => ∃ k evs, MEOrderBook.Reached ticker b k evs ∧
      Client.Along (Orderly lo) [] (evs.flatMap (Event.updates ticker)) ∧
      Emits lo (liveOrders (evs.flatMap (Event.updates ticker))) k)
    ⟨_, [], MEOrderBook.reached_init ticker, trivial, Emits.init lo ticker⟩ (by
      rintro rs r b b' - ⟨hr, hsp⟩ ⟨k, evs, hreached, horderly, hemits⟩ hok
      rcases hreached.step hr with ⟨herr, -⟩ | ⟨cells, b'', hok', hevs, hreached'⟩
      · rw [herr] at hok
        cases hok
      · obtain rfl := Except.ok.inj (hok'.symm.trans hok)
        have hfits := hemits.fits hreached.rep hreached.wf hr hsp
        have hlaw := Book.events_lawful hreached.rep hreached.wf hemits.legal hr hfits cells
        have hemittable := events_emittable hreached.rep hreached.wf hsp hreached'.rep hreached'.wf
        obtain ⟨hnext, hemits'⟩ :=
          hemits.applyAll hreached.wf (hevs.and (hlaw.and hemittable)) ticker
        refine ⟨_, _, hreached', ?_, ?_⟩
        · rw [List.flatMap_append, along_append]
          exact ⟨horderly, hnext⟩
        · rw [List.flatMap_append, liveOrders, List.foldl_append]
          exact hemits') hall hrun
  have hupdates : b.updates = evs.flatMap (Event.updates ticker) := hreached.sent.updates
  rw [hupdates, hreached.rep.resting_eq hreached.wf.toLists]
  refine ⟨horderly, ?_⟩
  rw [List.map_map]
  exact hemits.orders

/-- **A client that is fed the updates of a book lists what rests in it**: a walk over the client's book
finds the live orders, and these have the ids, sides and prices of the orders in the exchange's book. -/
theorem client_lists_exchange {ticker : TickerId} {rs : List MEClientRequest}
    (hvalid : ∀ r ∈ rs, r.Valid)
    (hspaced : AllSteps MEOrderBook.processClientRequest (MEOrderBook.init ticker)
      (fun _ b r => Spaced lo b r) rs)
    (hrun : (MEOrderBook.init ticker).processAll rs = .ok b)
    (hids : ∀ u ∈ b.updates, Client.MarketOrderBook.NewIdInTable u) :
    ∃ c, (Client.MarketOrderBook.init ticker).onMarketUpdates b.updates = .ok c ∧
      Client.MarketOrderBook.ListsLive c (liveOrders b.updates) ∧
      ((liveOrders b.updates).map LiveOrder.ident).Perm
        (b.resting.map fun o => (o.marketOrderId, o.side, o.price)) := by
  obtain ⟨horderly, hperm⟩ := processAll_orderly hvalid hspaced hrun
  have hstart := Client.MarketOrderBook.stands_init lo ticker
  obtain ⟨c, k, hc, hstands, -⟩ := hstart.quote_run (by simp [Client.MarketOrderBook.IdsInTable])
    horderly hids (fun _ => false) (by rintro s (rfl | rfl) <;> rfl)
  exact ⟨c, hc, hstands.listsLive, hperm⟩

end TradingSystem
