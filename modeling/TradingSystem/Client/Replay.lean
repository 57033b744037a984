import TradingSystem.Exchange.BookRenaming
import TradingSystem.Client.BookRefinement

/-!
# The same updates to two books

What a reader of a client's book can tell is its `content`: the levels of each side with their orders, and
what the two tables lead to, but not the cells all this lies in. Two books of one content that are in good
order (`Alike`) have one content after every stream of updates, and where one of them fails the other
fails with it (`Alike.run`). The cells themselves differ, since a pool hands them out by what was taken
and given back before.
-/

namespace TradingSystem.Client

open TradingSystem.MEOrderBook (priceToIndex)

/-- The order without its links. -/
def MarketOrder.unlinked (o : MarketOrder) : MarketOrder :=
  { o with prevOrder := none, nextOrder := none }

/-- A level as a reader of the book sees it. -/
structure LevelContent where
  side : Side
  price : Price
  orders : List MarketOrder

/-- What a client keeps of the order. -/
def ofInfo (o : OrderInfo) : MarketOrder :=
  { orderId := o.marketOrderId, side := o.side, price := o.price, qty := o.qty, priority := o.priority }

/-- A level of the lists as a reader sees it. -/
def levelContent (l : Level) : LevelContent :=
  ⟨l.side, l.price, l.orders.map fun e => ofInfo e.info⟩

namespace MarketOrderBook

variable {b b' c c' : MarketOrderBook} {k k' : Book} {e : Entry} {l : Level} {s : Side}
  {u : MEMarketUpdate} {us : List MEMarketUpdate}

def readLevel (b : MarketOrderBook) (p : LevelPtr) : LevelContent :=
  ⟨(b.level p).side, (b.level p).price, (b.orderPtrs p).map fun o => (b.order o).unlinked⟩

theorem unlinked_eq (h : Shows b k) (he : e ∈ k.entries) : (b.order e.ptr).unlinked = ofInfo e.info := by
  rw [← h.order_eq he]
  rfl

theorem readLevel_eq (h : Shows b k) (hk : k.Lists) (hl : l ∈ k.levels) :
    b.readLevel l.ptr = levelContent l := by
  have hside : (b.level l.ptr).side = l.side := (h.levelRep hl).side_eq
  have horders : (b.orderPtrs l.ptr).map (fun o => (b.order o).unlinked) =
      l.orders.map fun e => ofInfo e.info := by
    rw [orderPtrs_eq h hk hl, List.map_map]
    apply List.map_congr_left
    intro e he
    exact unlinked_eq h (Book.mem_entries.mpr ⟨l, hl, he⟩)
  unfold readLevel levelContent
  rw [hside, level_price_eq h hl, horders]

/-- Both books are in good order, and they differ in their cells, and in what they say of themselves,
alone. -/
def Alike (b b' : MarketOrderBook) : Prop :=
  ∃ k k', Shows b k ∧ Shows b' k' ∧ k.WF ∧ k'.WF ∧ Book.Twins k k'

theorem full_iff (h : Book.Twins k k') : Full k' u ↔ Full k u := by
  obtain ⟨ρ, σ, rfl⟩ := h
  unfold Full
  rw [Book.rename_slots, Book.rename_entries, Book.rename_levels, List.length_map, List.length_map]

theorem best_map_rename {ρ : OrderPtr → OrderPtr} {σ : LevelPtr → LevelPtr} (ls : List Level) :
    best (ls.map (Level.rename ρ σ)) = best ls := by
  cases ls with
  | nil => rfl
  | cons l ls =>
    show (l.price, ((l.orders.map (Entry.rename ρ)).map fun e => e.info.qty).sum) = _
    rw [List.map_map]
    rfl

theorem touches_eq (h : Book.Twins k k') (s : Side) : touches k' u s = touches k u s := by
  obtain ⟨ρ, σ, rfl⟩ := h
  unfold touches
  rw [Book.rename_side]
  cases k.side s <;> rfl

theorem best_eq (h : Book.Twins k k') (s : Side) : best (k'.side s) = best (k.side s) := by
  obtain ⟨ρ, σ, rfl⟩ := h
  rw [Book.rename_side, best_map_rename]

/-- The books after an update that changes their lists in the same way. -/
theorem alike_of_applyUpdate {kc kc' : Book} (h : Shows b k) (h' : Shows b' k')
    (htwins : Book.Twins k k') (htype : u.type ≠ .trade)
    (happly : b.applyUpdate u = .ok c) (hc : Shows c kc) (hkc : kc.WF) (hframe : c.frame = b.frame)
    (hticker : kc.ticker = k.ticker)
    (happly' : b'.applyUpdate u = .ok c') (hc' : Shows c' kc') (hkc' : kc'.WF)
    (hframe' : c'.frame = b'.frame) (hctwins : Book.Twins kc kc') :
    ∃ d d', b.onMarketUpdate u = .ok d ∧ b'.onMarketUpdate u = .ok d' ∧ Alike d d' ∧
      d.tickerId = b.tickerId ∧ (b'.bbo = b.bbo → d'.bbo = d.bbo) := by
  obtain ⟨bbo, notices, hok, hquote⟩ := onMarketUpdate_spec h htype happly hc hkc.toLists hframe
  obtain ⟨bbo', notices', hok', hquote'⟩ :=
    onMarketUpdate_spec h' htype happly' hc' hkc'.toLists hframe'
  refine ⟨_, _, hok, hok', ⟨kc, kc', hc, hc', hkc, hkc', hctwins⟩,
    hc.ticker.trans (hticker.trans h.ticker.symm), ?_⟩
  intro hbbo
  have hsame : ∀ s, s = .buy ∨ s = .sell →
      ({ c' with bbo := bbo', notices := notices' } : MarketOrderBook).quote s =
        ({ c with bbo := bbo, notices := notices } : MarketOrderBook).quote s := by
    intro s hs
    have hbefore : b'.quote s = b.quote s := by
      unfold quote
      rw [hbbo]
    rw [hquote s hs, hquote' s hs, touches_eq htwins, best_eq hctwins, hbefore]
  have hbid : (bbo'.bidPrice, bbo'.bidQty) = (bbo.bidPrice, bbo.bidQty) := hsame .buy (Or.inl rfl)
  have hask : (bbo'.askPrice, bbo'.askQty) = (bbo.askPrice, bbo.askQty) := hsame .sell (Or.inr rfl)
  obtain ⟨hbidPrice, hbidQty⟩ := Prod.mk.inj hbid
  obtain ⟨haskPrice, haskQty⟩ := Prod.mk.inj hask
  show bbo' = bbo
  cases bbo'
  cases bbo
  simp only [BBO.mk.injEq]
  exact ⟨hbidPrice, haskPrice, hbidQty, haskQty⟩

/-- The lists of a book whose heads are null hold nothing. -/
theorem levels_eq_nil (h : Shows b k) (hbids : b.bidsByPrice = none) (hasks : b.asksByPrice = none) :
    k.levels = [] := by
  have hside : ∀ s, b.levelsHead s = none → k.side s = [] := by
    intro s hnone
    rcases levelsHead_cases h s with ⟨-, hnil⟩ | ⟨l, ls, p, -, hsome, -⟩
    · exact hnil
    · rw [hnone] at hsome
      cases hsome
  have hb : k.bids = [] := hside .buy hbids
  have ha : k.asks = [] := hside .sell hasks
  rw [Book.levels, hb, ha]
  rfl

theorem heads_eq_none (h : Shows b k) (hnil : k.levels = []) :
    b.bidsByPrice = none ∧ b.asksByPrice = none := by
  have hhead : ∀ s, b.levelsHead s = none := by
    intro s
    rcases levelsHead_cases h s with ⟨hnone, -⟩ | ⟨l, ls, p, hcons, -⟩
    · exact hnone
    · have hl : l ∈ k.levels := Book.mem_levels_of_mem_side (by rw [hcons]; exact List.mem_cons_self)
      rw [hnil] at hl
      cases hl
  exact ⟨hhead .buy, hhead .sell⟩

theorem table_eq_none (hk : k.WF) (hnil : k.levels = []) (c : ClientId) (o : OrderId) :
    k.cidOidToOrder c o = none := by
  cases hp : k.cidOidToOrder c o with
  | none => rfl
  | some p =>
    obtain ⟨e, he, -⟩ := hk.table c o p hp
    rw [Book.entries, hnil] at he
    cases he

theorem deallocateOrders_of_none (hids : ∀ id, b.oidToOrder id = none) :
    b.deallocateOrders = .ok b := by
  unfold deallocateOrders
  generalize List.range meMaxOrderIds = ids
  induction ids with
  | nil => rfl
  | cons i ids ih =>
    rw [List.foldlM_cons, hids]
    exact ih

/-- **A `CLEAR` of a book whose heads are null** does nothing. -/
theorem clear_of_heads (h : Shows b k) (hk : k.WF) (hbids : b.bidsByPrice = none)
    (hasks : b.asksByPrice = none) : b.clear = .ok b := by
  have hids : ∀ id, b.oidToOrder id = none := by
    intro id
    rw [oidToOrder_eq h]
    exact table_eq_none hk (levels_eq_nil h hbids hasks) 0 id
  have hsame : ({ b with oidToOrder := fun _ => none } : MarketOrderBook) = b := by
    rw [← funext hids]
  unfold clear
  rw [deallocateOrders_of_none hids]
  show (do
    let b ← ({ b with oidToOrder := fun _ => none } : MarketOrderBook).deallocateLevels b.bidsByPrice
    b.deallocateLevels b.asksByPrice) = _
  rw [hsame, hbids]
  show b.deallocateLevels b.asksByPrice = _
  rw [hasks]
  rfl

/-- An `ADD` has a side, and a `CLEAR` comes to a book whose heads are null. -/
def Clean (b : MarketOrderBook) (u : MEMarketUpdate) : Prop :=
  (u.type = .add → u.side = .buy ∨ u.side = .sell) ∧
  (u.type = .clear → b.bidsByPrice = none ∧ b.asksByPrice = none)

/-- The two computations fail in the same way, or end in books of the same ticker that are alike, with the
same best prices if they were the same at the start. -/
def EndAlike (b b' : MarketOrderBook) (x x' : Except Fault MarketOrderBook) : Prop :=
  (∃ err, x = .error err ∧ x' = .error err) ∨
  ∃ d d', x = .ok d ∧ x' = .ok d' ∧ Alike d d' ∧ d.tickerId = b.tickerId ∧
    (b'.bbo = b.bbo → d'.bbo = d.bbo)

/-- **Step lemma.** By the kind of the update. -/
theorem Alike.step (h : Alike b b') (hu : Clean b u) :
    EndAlike b b' (b.onMarketUpdate u) (b'.onMarketUpdate u) := by
  obtain ⟨k, k', hb, hb', hk, hk', htwins⟩ := h
  have hfail : ∀ err, u.type ≠ .trade → b.applyUpdate u = .error err → b'.applyUpdate u = .error err →
      EndAlike b b' (b.onMarketUpdate u) (b'.onMarketUpdate u) := fun err htype herr herr' =>
    Or.inl ⟨err, onMarketUpdate_error htype herr, onMarketUpdate_error htype herr'⟩
  have hstay : u.type ≠ .trade → b.applyUpdate u = .ok b → b'.applyUpdate u = .ok b' →
      EndAlike b b' (b.onMarketUpdate u) (b'.onMarketUpdate u) := fun htype happly happly' =>
    Or.inr (alike_of_applyUpdate hb hb' htwins htype happly hb hk rfl rfl happly' hb' hk' rfl htwins)
  cases htype : u.type with
  | add =>
    have htrade : u.type ≠ .trade := by simp [htype]
    have hs := hu.1 htype
    have hfull := full_iff (u := u) htwins
    -- whether a pool is full and whether the id is too big is the same for both
    rcases applyUpdate_add hb hk htype hs with
      ⟨herr, hf⟩ | ⟨herr, hf, hid⟩ | ⟨e, lp, c, hok, hf, hid, hinfo, hfresh, hc, hframe⟩ <;>
    rcases applyUpdate_add hb' hk' htype hs with
      ⟨herr', hf'⟩ | ⟨herr', hf', hid'⟩ | ⟨e', lp', c', hok', hf', hid', hinfo', hfresh', hc', hframe'⟩
    · exact hfail _ htrade herr herr'
    · exact absurd (hfull.mpr hf) hf'
    · exact absurd (hfull.mpr hf) hf'
    · exact absurd (hfull.mp hf') hf
    · exact hfail _ htrade herr herr'
    · omega
    · exact absurd (hfull.mp hf') hf
    · omega
    · have hes : e.info.side = .buy ∨ e.info.side = .sell := by
        rw [hinfo]
        exact hs
      have hes' : e'.info.side = .buy ∨ e'.info.side = .sell := by
        rw [hinfo']
        exact hs
      have hticker : b'.tickerId = b.tickerId := by
        obtain ⟨ρ, σ, rfl⟩ := htwins
        exact hb'.ticker.trans hb.ticker.symm
      have hsame : e'.info = e.info := by rw [hinfo, hinfo', hticker]
      exact Or.inr (alike_of_applyUpdate hb hb' htwins htrade hok hc (Book.rest_wf hk hes hfresh) hframe
        (Book.apply_ticker (.rest e lp 0)) hok' hc' (Book.rest_wf hk' hes' hfresh') hframe'
        (htwins.rest hk hsame hfresh))
  | modify =>
    have htrade : u.type ≠ .trade := by simp [htype]
    by_cases hid : u.orderId.toNat < meMaxOrderIds
    -- both tables know the id, or neither does
    · rcases applyUpdate_modify hb hk htype hid with
        ⟨hnone, hok⟩ | ⟨e, he, c, hsome, -, hok, hc, hframe⟩ <;>
      rcases applyUpdate_modify hb' hk' htype hid with
        ⟨hnone', hok'⟩ | ⟨e', he', c', hsome', -, hok', hc', hframe'⟩
      · exact hstay htrade hok hok'
      · simp [(htwins.table_none_iff 0 u.orderId).mpr hnone] at hsome'
      · simp [(htwins.table_none_iff 0 u.orderId).mp hnone'] at hsome
      · exact Or.inr (alike_of_applyUpdate hb hb' htwins htrade hok hc (Book.setQty_wf hk _ _) hframe
          rfl hok' hc' (Book.setQty_wf hk' _ _) hframe'
          (htwins.setQty hk'.toLists he hsome he' hsome' _))
    · have hkind : u.type = .modify ∨ u.type = .cancel := Or.inl htype
      exact hfail _ htrade (applyUpdate_outOfBounds hkind hid) (applyUpdate_outOfBounds hkind hid)
  | cancel =>
    have htrade : u.type ≠ .trade := by simp [htype]
    by_cases hid : u.orderId.toNat < meMaxOrderIds
    · rcases applyUpdate_cancel hb hk htype hid with
        ⟨hnone, hok⟩ | ⟨e, he, c, hsome, -, hok, hc, hframe⟩ <;>
      rcases applyUpdate_cancel hb' hk' htype hid with
        ⟨hnone', hok'⟩ | ⟨e', he', c', hsome', -, hok', hc', hframe'⟩
      · exact hstay htrade hok hok'
      · simp [(htwins.table_none_iff 0 u.orderId).mpr hnone] at hsome'
      · simp [(htwins.table_none_iff 0 u.orderId).mp hnone'] at hsome
      · exact Or.inr (alike_of_applyUpdate hb hb' htwins htrade hok hc (Book.remove_wf hk he) hframe
          rfl hok' hc' (Book.remove_wf hk' he') hframe'
          (htwins.remove hk'.toLists he hsome he' hsome'))
    · have hkind : u.type = .modify ∨ u.type = .cancel := Or.inr htype
      exact hfail _ htrade (applyUpdate_outOfBounds hkind hid) (applyUpdate_outOfBounds hkind hid)
  | trade =>
    obtain ⟨d, hok, hview, hbbo⟩ := onMarketUpdate_trade (b := b) htype
    obtain ⟨d', hok', hview', hbbo'⟩ := onMarketUpdate_trade (b := b') htype
    refine Or.inr ⟨d, d', hok, hok', ⟨k, k', ?_, ?_, hk, hk', htwins⟩, congrArg MEOrderBook.ticker hview, ?_⟩
    · unfold Shows
      rw [hview]
      exact hb
    · unfold Shows
      rw [hview']
      exact hb'
    · intro hsame
      rw [hbbo, hbbo', hsame]
  | clear =>
    obtain ⟨hbids, hasks⟩ := hu.2 htype
    have hnil' : k'.levels = [] := by
      obtain ⟨ρ, σ, rfl⟩ := htwins
      rw [Book.rename_levels, levels_eq_nil hb hbids hasks]
      rfl
    obtain ⟨hbids', hasks'⟩ := heads_eq_none hb' hnil'
    apply hstay (by simp [htype])
    · rw [applyUpdate_clear htype]
      exact clear_of_heads hb hk hbids hasks
    · rw [applyUpdate_clear htype]
      exact clear_of_heads hb' hk' hbids' hasks'
  | _ =>
    apply hstay (by simp [htype]) <;>
    · unfold applyUpdate
      rw [htype]

/-- **Run lemma.** By induction on the updates. -/
theorem Alike.run (h : Alike b b') (hus : AllSteps onMarketUpdate b (fun _ => Clean) us) :
    EndAlike b b' (b.onMarketUpdates us) (b'.onMarketUpdates us) := by
  induction us generalizing b b' with
  | nil => exact Or.inr ⟨b, b', rfl, rfl, h, rfl, id⟩
  | cons u us ih =>
    obtain ⟨hu, htail⟩ := allSteps_cons_iff.mp hus
    unfold onMarketUpdates
    rw [List.foldlM_cons, List.foldlM_cons]
    rcases h.step hu with ⟨err, herr, herr'⟩ | ⟨c, c', hok, hok', hc, hticker, hbbo⟩
    · rw [herr, herr']
      exact Or.inl ⟨err, rfl, rfl⟩
    · rw [hok, hok']
      rcases ih hc (htail c hok) with hfail | ⟨d, d', hd, hd', halike, hdticker, hsame⟩
      · exact Or.inl hfail
      · exact Or.inr ⟨d, d', hd, hd', halike, hdticker.trans hticker, fun heq => hsame (hbbo heq)⟩

end MarketOrderBook

end TradingSystem.Client
