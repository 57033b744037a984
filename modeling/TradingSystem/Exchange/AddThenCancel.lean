import TradingSystem.Exchange.Crossing
import TradingSystem.Exchange.Structure

/-!
# An order that rests and is cancelled leaves no trace

A `NEW` that matches nothing goes into the book whole, into the level of its slot or into a level of
its own, and the `CANCEL` that names it takes it out again. On the lists the one undoes the other
(`Book.remove_rest`). The pointer structure follows, since the lists leave it no choice: two structures
that represent the same lists agree on the heads, on the tables and on every cell in use, links
included (`Holds.sameBook`).
-/

namespace TradingSystem

open MEOrderBook (priceToIndex inTable)

/-! ## On the lists -/

namespace Book

variable {k : Book} {e : Entry} {lp : LevelPtr}

/-- An order that is not there can be dropped. -/
theorem filterOrders_fresh {ls : List Level} (hne : ∀ l ∈ ls, l.orders ≠ [])
    (hfresh : e.ptr ∉ (levelOrders ls).map Entry.ptr) : filterOrders (dropping e.ptr) ls = ls := by
  apply filterOrders_dropping_self hne
  intro l hl hmem
  obtain ⟨e', he', hptr⟩ := List.mem_map.mp hmem
  exact hfresh (List.mem_map.mpr ⟨e', mem_levelOrders.mpr ⟨l, hl, he'⟩, hptr⟩)

/-- Dropping the order that was appended to its level. -/
theorem filterOrders_appendOrder {ls : List Level} (hne : ∀ l ∈ ls, l.orders ≠ [])
    (hfresh : e.ptr ∉ (levelOrders ls).map Entry.ptr) :
    filterOrders (dropping e.ptr) (appendOrder e ls) = ls := by
  induction ls with
  | nil => rfl
  | cons l ls ih =>
    rw [levelOrders_cons, List.map_append, List.mem_append] at hfresh
    have hrest := ih (fun l' hl' => hne l' (List.mem_cons_of_mem l hl')) fun h => hfresh (Or.inr h)
    have hl : l.orders.filterMap (dropping e.ptr) = l.orders :=
      filterMap_dropping_self fun h => hfresh (Or.inl h)
    have hself : [e].filterMap (dropping e.ptr) = [] := by simp [dropping]
    rw [appendOrder_cons, filterOrders_cons, hrest]
    split
    · rw [List.filterMap_append, hl, hself, List.append_nil, if_neg (hne l List.mem_cons_self)]
    · rw [hl, if_neg (hne l List.mem_cons_self)]

/-- Dropping the only order of a level that was inserted for it. -/
theorem filterOrders_insertLevel {ls : List Level} (hne : ∀ l ∈ ls, l.orders ≠ [])
    (hfresh : e.ptr ∉ (levelOrders ls).map Entry.ptr) :
    filterOrders (dropping e.ptr) (insertLevel (newLevel e lp) ls) = ls := by
  have hnew : filterOrders (dropping e.ptr) [newLevel e lp] = [] := by
    rw [filterOrders_cons]
    simp [newLevel, dropping]
  rw [insertLevel_eq, filterOrders_append, ← List.singleton_append, filterOrders_append, hnew,
    List.nil_append, ← filterOrders_append, List.takeWhile_append_dropWhile,
    filterOrders_fresh hne hfresh]

theorem eq_of_fields {k k' : Book} (hticker : k.ticker = k'.ticker) (hbids : k.bids = k'.bids)
    (hasks : k.asks = k'.asks) (hcid : k.cidOidToOrder = k'.cidOidToOrder)
    (hid : k.nextOrderId = k'.nextOrderId) : k = k' := by
  cases k
  cases k'
  simp only at hticker hbids hasks hcid hid
  rw [hticker, hbids, hasks, hcid, hid]

/-- **Removing undoes resting**, whether the order joined a level or started one. -/
theorem remove_rest (hk : k.Lists) (hfresh : e.ptr ∉ k.entries.map Entry.ptr)
    (hfree : k.cidOidToOrder e.info.clientId e.info.clientOrderId = none) :
    (k.rest e lp).remove e = k := by
  have hbids : ∀ l ∈ k.bids, l.orders ≠ [] := fun l hl =>
    hk.nonempty l (List.mem_append_left _ hl)
  have hasks : ∀ l ∈ k.asks, l.orders ≠ [] := fun l hl =>
    hk.nonempty l (List.mem_append_right _ hl)
  rw [entries, levels, levelOrders_append, List.map_append, List.mem_append, not_or] at hfresh
  apply eq_of_fields
  · exact apply_ticker (.rest e lp 0)
  · show filterOrders (dropping e.ptr) (k.rest e lp).bids = k.bids
    rw [rest_bids]
    split_ifs
    · exact filterOrders_appendOrder hbids hfresh.1
    · exact filterOrders_insertLevel hbids hfresh.1
    · exact filterOrders_fresh hbids hfresh.1
  · show filterOrders (dropping e.ptr) (k.rest e lp).asks = k.asks
    rw [rest_asks]
    split_ifs
    · exact filterOrders_appendOrder hasks hfresh.2
    · exact filterOrders_fresh hasks hfresh.2
    · exact filterOrders_insertLevel hasks hfresh.2
  · funext c o
    rw [remove, setCidOid_cidOidToOrder, filter_cidOidToOrder, rest_cidOidToOrder]
    split
    · next h => rw [h.1, h.2, hfree]
    · rfl
  · exact rest_nextOrderId e lp

/-! ## The events of the two requests -/

variable {cells : Cells} {r : MEClientRequest}

/-- An order that crosses nothing trades with nothing. -/
theorem fills_eq_nil {s : Side} {price : Price} {left : Qty} {es : List Entry}
    (hpos : ∀ e ∈ es, 0 < e.info.qty) (hzero : crossingQty s price (es.map Entry.info) = 0) :
    fills s price left es = [] := by
  cases es with
  | nil => rfl
  | cons e es =>
    rw [List.map_cons, crossingQty_cons] at hzero
    cases hstop : MEOrderBook.stops s price e.info.price with
    | true => exact fills_stop hstop es
    | false =>
      rw [hstop, if_neg Bool.false_ne_true] at hzero
      have hqty := UInt32.lt_iff_toNat_lt.mp (hpos e List.mem_cons_self)
      rw [UInt32.toNat_zero] at hqty
      omega

theorem matchEvents_of_no_fills (hnone : fills r.side r.price r.qty (k.queue r.side) = []) :
    k.matchEvents r = [.accepted (k.incoming r)] := by
  unfold matchEvents
  rw [hnone]
  rfl

/-- An order that trades with nothing rests with all of its quantity. -/
theorem remainder_of_no_fills (cells : Cells) (hnone : fills r.side r.price r.qty (k.queue r.side) = [])
    (hqty : 0 < r.qty) :
    ∃ e, k.remainder cells r = some e ∧ e.ptr = cells.order ∧ e.info.clientId = r.clientId ∧
      e.info.clientOrderId = r.orderId ∧ e.info.qty = r.qty := by
  unfold remainder
  rw [hnone]
  exact ⟨_, if_pos hqty, rfl, rfl, rfl, rfl⟩

/-- The `CANCEL` of a resting order takes it out. -/
theorem events_cancel {c : MEClientRequest} (hk : k.Lists) (he : e ∈ k.entries)
    (hcancel : c.type = .cancel) (hin : inTable c.clientId c.orderId = true)
    (htable : k.cidOidToOrder c.clientId c.orderId = some e.ptr) :
    k.events cells c = [.cancelled e] := by
  unfold events
  simp only [hcancel, hin, htable, if_true, hk.find_ptr he]

end Book

/-! ## On the cells -/

/-- The two order books are the same up to the next id, the cells that are not in use and what has been
sent. -/
structure MEOrderBook.SameBook (b b' : MEOrderBook) : Prop where
  bids : b'.bidsByPrice = b.bidsByPrice
  asks : b'.asksByPrice = b.asksByPrice
  priceTable : b'.priceToOrdersAtPrice = b.priceToOrdersAtPrice
  idTable : b'.cidOidToOrder = b.cidOidToOrder
  levelLive : ∀ p, b'.ordersAtPricePool.Live p ↔ b.ordersAtPricePool.Live p
  level : ∀ p, b.ordersAtPricePool.Live p → b'.level p = b.level p
  orderLive : ∀ p, b'.ordersPool.Live p ↔ b.ordersPool.Live p
  order : ∀ p, b.ordersPool.Live p → b'.order p = b.order p

theorem levelLinks_ext {x y : MEOrdersAtPrice} (hdata : levelLinks.data x = levelLinks.data y)
    (hnext : x.next = y.next) (hprev : x.prev = y.prev) : x = y := by
  cases x
  cases y
  simp only [Prod.mk.injEq] at hdata hnext hprev
  obtain ⟨hside, hprice, hhead⟩ := hdata
  rw [hside, hprice, hhead, hnext, hprev]

theorem orderLinks_ext {x y : MEOrder} (hdata : x.toOrderInfo = y.toOrderInfo)
    (hnext : x.nextOrder = y.nextOrder) (hprev : x.prevOrder = y.prevOrder) : x = y := by
  cases x
  cases y
  simp only at hdata hnext hprev
  rw [hdata, hnext, hprev]

namespace Holds

variable {b b' : MEOrderBook} {k k' : Book} {l : Level}

theorem level_eq_of_same (h : Rep b k) (h' : Rep b' k') (hside : ∀ s, k'.side s = k.side s)
    {s : Side} (hl : l ∈ k.side s) : b'.level l.ptr = b.level l.ptr := by
  have hside' := h'.side s
  rw [hside s] at hside'
  have hdata := ((h.side s).level l hl).data.trans (hside'.level l hl).data.symm
  obtain ⟨hnext, hprev⟩ := Circular.links_eq (h.side s).ring hside'.ring (List.mem_map_of_mem hl)
  exact (levelLinks_ext hdata hnext hprev).symm

theorem order_eq_of_same (h : Rep b k) (h' : Rep b' k') (hside : ∀ s, k'.side s = k.side s)
    {s : Side} (hl : l ∈ k.side s) {e : Entry} (he : e ∈ l.orders) :
    b'.order e.ptr = b.order e.ptr := by
  have hside' := h'.side s
  rw [hside s] at hside'
  have hrep := (h.side s).level l hl
  have hrep' := hside'.level l hl
  have hinfo := (hrep.info e he).trans (hrep'.info e he).symm
  obtain ⟨hnext, hprev⟩ := Circular.links_eq hrep.ring hrep'.ring (List.mem_map_of_mem he)
  exact (orderLinks_ext hinfo hnext hprev).symm

/-- **The lists determine the book.** -/
theorem sameBook (h : Rep b k) (h' : Rep b' k') (hbids : k'.bids = k.bids) (hasks : k'.asks = k.asks)
    (hcid : k'.cidOidToOrder = k.cidOidToOrder) : b.SameBook b' := by
  have hside : ∀ s, k'.side s = k.side s := by
    intro s
    unfold Book.side
    rw [hbids, hasks]
  have hlevels : k'.levels = k.levels := by
    unfold Book.levels
    rw [hbids, hasks]
  have hhead : ∀ s, b'.levelsHead s = b.levelsHead s := by
    intro s
    rw [(h'.side s).head, hside s, (h.side s).head]
  refine ⟨hhead .buy, hhead .sell, ?_, ?_, ?_, ?_, ?_, ?_⟩
  · funext i
    apply Option.ext
    intro p
    rw [h'.table, h.table, hlevels]
  · rw [h'.cid, h.cid, hcid]
  · intro p
    rw [h'.levelLive, h.levelLive, hlevels]
  · intro p hp
    rcases (h.levelLive p).mp hp with hp | hp
    · obtain ⟨l, hl, rfl⟩ := List.mem_map.mp hp
      rcases Book.mem_levels.mp hl with hl | hl
      · exact level_eq_of_same h h' hside hl
      · exact level_eq_of_same h h' hside hl
    · cases hp
  · intro p
    rw [h'.orderLive, h.orderLive, Book.entries, Book.entries, hlevels]
  · intro p hp
    rcases (h.orderLive p).mp hp with hp | hp
    · obtain ⟨e, he, rfl⟩ := List.mem_map.mp hp
      obtain ⟨l, hl, hel⟩ := Book.mem_entries.mp he
      rcases Book.mem_levels.mp hl with hl | hl
      · exact order_eq_of_same h h' hside hl hel
      · exact order_eq_of_same h h' hside hl hel
    · cases hp

end Holds

/-! ## The two requests -/

/-- The `CANCEL` that names the order of a `NEW`. -/
def MEClientRequest.cancelOf (r : MEClientRequest) : MEClientRequest :=
  { type := .cancel, clientId := r.clientId, tickerId := r.tickerId, orderId := r.orderId }

namespace MEOrderBook

variable {b : MEOrderBook} {k : Book} {r : MEClientRequest}

/-- Both pools keep a free cell when an order of this price goes into the book. -/
def HasRoom (b : MEOrderBook) (price : Price) : Prop :=
  b.resting.length + 1 < meMaxOrderIds ∧
    (b.allLevels.length + 1 < meMaxPriceLevels ∨ (b.getOrderAtPrice price).isSome)

instance decidableHasRoom (b : MEOrderBook) (price : Price) : Decidable (b.HasRoom price) :=
  inferInstanceAs (Decidable (_ ∧ _))

theorem not_exhausts (h : Rep b k) (hk : k.Lists) (hroom : b.HasRoom r.price)
    (hnone : fills r.side r.price r.qty (k.queue r.side) = []) : ¬ k.Exhausts r := by
  rintro ⟨-, -, hfull⟩
  have hbook : k.applyAll (k.matchEvents r) = { k with nextOrderId := k.nextOrderId + 1 } := by
    rw [Book.matchEvents_of_no_fills hnone]
    rfl
  obtain ⟨horders, hlevels⟩ := hroom
  rw [h.resting_eq hk, List.length_map] at horders
  rw [h.allLevels_eq hk, List.length_map] at hlevels
  rw [hbook] at hfull
  rcases hfull with hfull | ⟨hfull, hfree⟩
  · exact absurd horders (Nat.not_lt.mpr hfull)
  · rcases hlevels with hlt | hsome
    · exact absurd hlt (Nat.not_lt.mpr hfull)
    · obtain ⟨p, hp⟩ := Option.isSome_iff_exists.mp hsome
      obtain ⟨l, hl, hslot, -⟩ := (h.table _ _).mp hp
      exact hfree (List.mem_map.mpr ⟨l, hl, hslot⟩)

/-- Ids that no resting order has are not in the table. -/
theorem table_free (h : Rep b k) (hk : k.WF) (hnew : r.type = .new) (hfree : b.NotReused r) :
    k.cidOidToOrder r.clientId r.orderId = none := by
  cases hp : k.cidOidToOrder r.clientId r.orderId with
  | none => rfl
  | some p =>
    obtain ⟨e, he, -, hc, ho⟩ := hk.table _ _ _ hp
    refine absurd ⟨hc, ho⟩ (hfree hnew e.info ?_)
    rw [h.resting_eq hk.toLists]
    exact List.mem_map_of_mem he

/-- **Add, then cancel**: a `NEW` under free ids that finds nothing to trade with and room in the pools
rests, and the `CANCEL` for it brings back the book as it was. The client is told its full quantity. -/
theorem add_then_cancel {ticker : TickerId} {rs : List MEClientRequest} (hvalid : ∀ r ∈ rs, r.Valid)
    (hrun : (MEOrderBook.init ticker).processAll rs = .ok b) (hr : r.Valid) (hnew : r.type = .new)
    (hfree : b.NotReused r) (hqty : 0 < r.qty) (hapart : b.available r = 0)
    (hroom : b.HasRoom r.price) :
    ∃ b₁ b₂, b.processClientRequest r = .ok b₁ ∧ b₁.processClientRequest r.cancelOf = .ok b₂ ∧
      b.SameBook b₂ ∧ ∃ response, b₂.responses = b₁.responses ++ [response] ∧
        response.type = .cancelled ∧ response.clientId = r.clientId ∧
        response.clientOrderId = r.orderId ∧ response.leftQty = r.qty := by
  obtain ⟨k, evs, hreached, -⟩ := run_rule (fun _ _ _ => True) (fun _ _ _ => True) trivial
    (fun _ _ _ _ _ _ _ _ _ _ _ => trivial) hvalid (fun _ _ _ _ _ _ => trivial) hrun
  have hrep := hreached.rep
  have hk := hreached.wf
  have hnone : fills r.side r.price r.qty (k.queue r.side) = [] := by
    apply Book.fills_eq_nil
    · exact fun e he => hreached.positive e (Book.mem_entries_of_mem_queue he)
    · rw [← hrep.opposite_eq hk.toLists]
      exact hapart
  rcases hreached.step hr with ⟨-, hfull⟩ | ⟨cells, b₁, hok₁, hevs, hreached₁⟩
  · exact absurd hfull (not_exhausts hrep hk.toLists hroom hnone)
  · obtain ⟨e, hrem, -, hclient, horder, hleft⟩ := Book.remainder_of_no_fills cells hnone hqty
    rw [Book.events_of_rest hnew hrem, Book.matchEvents_of_no_fills hnone] at hreached₁ hevs
    obtain ⟨k₀, hk₀⟩ : ∃ k₀, k₀ = k.apply (.accepted (k.incoming r)) := ⟨_, rfl⟩
    have hwf₀ : (k.apply (.accepted (k.incoming r))).WF := Book.apply_wf hk trivial
    have hlists₀ : k₀.Lists := hk₀ ▸ hwf₀.toLists
    have hbook₁ : k.applyAll ([.accepted (k.incoming r)] ++ [.rest e cells.level r.qty]) =
        k₀.rest e cells.level := by
      rw [hk₀]
      rfl
    have hfresh : e.ptr ∉ k₀.entries.map Entry.ptr := by
      obtain ⟨-, ⟨-, hfresh, -⟩, -⟩ := hevs
      exact hk₀ ▸ hfresh.order
    have hids : k₀.cidOidToOrder e.info.clientId e.info.clientOrderId = none := by
      have hnone := table_free hrep hk hnew hfree
      rw [hclient, horder, hk₀]
      exact hnone
    have hrep₁ := hreached₁.rep
    have hwf₁ := hreached₁.wf
    have hpos₁ := hreached₁.positive
    rw [hbook₁] at hrep₁ hwf₁ hpos₁
    have hmem : e ∈ (k₀.rest e cells.level).entries :=
      (Book.mem_rest_entries hlists₀).mpr (Or.inl rfl)
    -- the table sends the ids of the request to the order that has just come to rest
    have hevents : (k₀.rest e cells.level).events ⟨0, 0⟩ r.cancelOf = [.cancelled e] := by
      apply Book.events_cancel hwf₁.toLists hmem rfl
      · rcases hr with ⟨-, -, hin⟩ | hcancel
        · exact hin
        · exact absurd (hnew.symm.trans hcancel) (by decide)
      · rw [Book.rest_cidOidToOrder]
        exact if_pos ⟨hclient.symm, horder.symm⟩
    obtain ⟨b₂, hok₂, hrep₂, hsent₂⟩ := cancel_refines hrep₁ hwf₁ (r := r.cancelOf) rfl ⟨0, 0⟩
    rw [hevents] at hrep₂ hsent₂
    have hbook₂ : (k₀.rest e cells.level).applyAll [.cancelled e] = k₀ :=
      Book.remove_rest hlists₀ hfresh hids
    rw [hbook₂, hk₀] at hrep₂
    refine ⟨b₁, b₂, hok₁, hok₂, Holds.sameBook hrep hrep₂ rfl rfl rfl, _, hsent₂.responses, rfl,
      hclient, horder, hleft⟩

/-- A buy order of price 100 joins the level of a sell order of price 356, whose slot is the same. -/
theorem add_then_cancel_shared_slot :
    ∃ b b₁ b₂, (MEOrderBook.init 0).processAll [
        { type := .new, clientId := 1, tickerId := 0, orderId := 1, side := .sell, price := 356,
          qty := 5 },
        { type := .new, clientId := 1, tickerId := 0, orderId := 2, side := .buy, price := 99,
          qty := 5 }] = .ok b ∧
      b.processClientRequest
        { type := .new, clientId := 2, tickerId := 0, orderId := 1, side := .buy, price := 100,
          qty := 4 } = .ok b₁ ∧
      b₁.processClientRequest { type := .cancel, clientId := 2, tickerId := 0, orderId := 1 } =
        .ok b₂ ∧ b.SameBook b₂ := by
  let rs : List MEClientRequest := [
    { type := .new, clientId := 1, tickerId := 0, orderId := 1, side := .sell, price := 356,
      qty := 5 },
    { type := .new, clientId := 1, tickerId := 0, orderId := 2, side := .buy, price := 99, qty := 5 }]
  let r : MEClientRequest :=
    { type := .new, clientId := 2, tickerId := 0, orderId := 1, side := .buy, price := 100, qty := 4 }
  obtain ⟨b, hb⟩ := exists_ok (x := (MEOrderBook.init 0).processAll rs) (by decide +kernel)
  have hread : ((MEOrderBook.init 0).processAll rs).map (fun b =>
      decide (b.NotReused r ∧ b.available r = 0 ∧ b.HasRoom r.price)) = .ok true := by
    decide +kernel
  rw [hb] at hread
  obtain ⟨hfree, hapart, hroom⟩ := of_decide_eq_true (Except.ok.inj hread)
  obtain ⟨b₁, b₂, hok₁, hok₂, hsame, -⟩ :=
    add_then_cancel (by decide) hb (by decide) rfl hfree (by decide) hapart hroom
  exact ⟨b, b₁, b₂, hb, hok₁, hok₂, hsame⟩

end MEOrderBook

end TradingSystem
