import TradingSystem.Client.BookRefinement

/-!
# The client's book is the map of live orders

What a stream of updates says is a map from ids to orders: an `ADD` puts one in, a `MODIFY` gives it a
quantity, a `CANCEL` takes it out (`liveOrders`, kept in the order of the additions). The client's book
is that map, laid out by side and price (`Mirrors`), as long as no two prices of the stream share a slot
of the price table: one window of fewer than `ME_MAX_PRICE_LEVELS` prices is enough.
-/

namespace TradingSystem.Client

open TradingSystem.MEOrderBook (priceToIndex)

/-! ## What a stream says -/

structure LiveOrder where
  orderId : OrderId
  side : Side
  price : Price
  qty : Qty
  deriving DecidableEq

/-- What an update does to the live orders, which stand in the order of their `ADD`s. -/
def liveStep (live : List LiveOrder) (u : MEMarketUpdate) : List LiveOrder :=
  match u.type with
  | .add => live ++ [⟨u.orderId, u.side, u.price, u.qty⟩]
  | .modify => live.map fun o => if o.orderId = u.orderId then { o with qty := u.qty } else o
  | .cancel => live.filter fun o => o.orderId ≠ u.orderId
  | _ => live

section LiveStep

variable {live : List LiveOrder} {u : MEMarketUpdate}

theorem liveStep_add (h : u.type = .add) :
    liveStep live u = live ++ [⟨u.orderId, u.side, u.price, u.qty⟩] := by
  rw [liveStep, h]

theorem liveStep_modify (h : u.type = .modify) : liveStep live u =
    live.map fun o => if o.orderId = u.orderId then { o with qty := u.qty } else o := by
  rw [liveStep, h]

theorem liveStep_cancel (h : u.type = .cancel) :
    liveStep live u = live.filter fun o => o.orderId ≠ u.orderId := by
  rw [liveStep, h]

theorem liveStep_trade (h : u.type = .trade) : liveStep live u = live := by
  rw [liveStep, h]

/-- A `MODIFY` that names no live order. -/
theorem liveStep_modify_eq_self (htype : u.type = .modify)
    (hnone : ∀ o ∈ live, o.orderId ≠ u.orderId) : liveStep live u = live := by
  rw [liveStep_modify htype, List.map_congr_left (g := id), List.map_id]
  intro o ho
  exact if_neg (hnone o ho)

/-- A `CANCEL` that names no live order. -/
theorem liveStep_cancel_eq_self (htype : u.type = .cancel)
    (hnone : ∀ o ∈ live, o.orderId ≠ u.orderId) : liveStep live u = live := by
  rw [liveStep_cancel htype]
  apply List.filter_eq_self.mpr
  intro o ho
  exact decide_eq_true (hnone o ho)

end LiveStep

def liveOrders (us : List MEMarketUpdate) : List LiveOrder := us.foldl liveStep []

/-- Every update of the stream meets the condition, which may depend on the orders alive before it. -/
def Along (P : List LiveOrder → MEMarketUpdate → Prop) :
    List LiveOrder → List MEMarketUpdate → Prop
  | _, [] => True
  | live, u :: us => P live u ∧ Along P (liveStep live u) us

instance decidableAlong (P : List LiveOrder → MEMarketUpdate → Prop) [∀ live u, Decidable (P live u)] :
    (live : List LiveOrder) → (us : List MEMarketUpdate) → Decidable (Along P live us)
  | _, [] => isTrue trivial
  | live, u :: us =>
    have := decidableAlong P (liveStep live u) us
    inferInstanceAs (Decidable (_ ∧ _))

/-- The window of prices from `lo` on in which every price has a slot of its own, and one slot is left. -/
def InWindow (lo p : Price) : Prop := lo.toNat ≤ p.toNat ∧ p.toNat < lo.toNat + (meMaxPriceLevels - 1)

instance (lo p : Price) : Decidable (InWindow lo p) := inferInstanceAs (Decidable (_ ∧ _))

namespace InWindow

variable {lo p q : Price}

/-- Prices of a window that share a slot are one price. -/
theorem eq_of_slot (hp : InWindow lo p) (hq : InWindow lo q) (h : priceToIndex p = priceToIndex q) :
    p = q := by
  have hmod : p.toNat % 256 = q.toNat % 256 := by
    have hnat := congrArg UInt64.toNat h
    rwa [priceToIndex, priceToIndex, UInt64.toNat_mod, UInt64.toNat_mod] at hnat
  unfold InWindow meMaxPriceLevels at hp hq
  apply UInt64.toNat_inj.mp
  omega

/-- There are no more prices in a window. -/
theorem length_le {ps : List Price} (hps : ∀ p ∈ ps, InWindow lo p) (hnd : ps.Nodup) :
    ps.length ≤ meMaxPriceLevels - 1 := by
  have hdist : (ps.map fun p => p.toNat - lo.toNat).Nodup := by
    rw [List.nodup_map_iff_inj_on hnd]
    intro p hp q hq heq
    have hpw := (hps p hp).1
    have hqw := (hps q hq).1
    apply UInt64.toNat_inj.mp
    omega
  have hsub : (ps.map fun p => p.toNat - lo.toNat) ⊆ List.range (meMaxPriceLevels - 1) := by
    intro n hn
    obtain ⟨p, hp, rfl⟩ := List.mem_map.mp hn
    have hpw := hps p hp
    unfold InWindow at hpw
    rw [List.mem_range]
    omega
  have hle := hdist.length_le_of_subset hsub
  simpa using hle

end InWindow

/-- The order is a new one, of a side that is alone at its price, and there is room for it. -/
structure AddOk (lo : Price) (live : List LiveOrder) (u : MEMarketUpdate) : Prop where
  fresh : ∀ o ∈ live, o.orderId ≠ u.orderId
  side : u.side = .buy ∨ u.side = .sell
  window : InWindow lo u.price
  apart : ∀ o ∈ live, o.price = u.price → o.side = u.side
  room : live.length + 1 < meMaxOrderIds

theorem addOk_iff {lo : Price} {live : List LiveOrder} {u : MEMarketUpdate} :
    AddOk lo live u ↔ (∀ o ∈ live, o.orderId ≠ u.orderId) ∧ (u.side = .buy ∨ u.side = .sell) ∧
      InWindow lo u.price ∧ (∀ o ∈ live, o.price = u.price → o.side = u.side) ∧
      live.length + 1 < meMaxOrderIds :=
  ⟨fun ⟨fresh, side, window, apart, room⟩ => ⟨fresh, side, window, apart, room⟩,
    fun ⟨fresh, side, window, apart, room⟩ => ⟨fresh, side, window, apart, room⟩⟩

instance decidableAddOk (lo : Price) (live : List LiveOrder) (u : MEMarketUpdate) :
    Decidable (AddOk lo live u) :=
  decidable_of_iff _ addOk_iff.symm

/-- An update the client's book is made for: an `ADD` as above with an id the book has a place for, or a
`MODIFY` or `CANCEL` of any such id, live or not. A `TRADE` is for others. -/
def Proper (lo : Price) (live : List LiveOrder) (u : MEMarketUpdate) : Prop :=
  match u.type with
  | .add => AddOk lo live u ∧ u.orderId.toNat < meMaxOrderIds
  | .modify => u.orderId.toNat < meMaxOrderIds
  | .cancel => u.orderId.toNat < meMaxOrderIds
  | .trade => True
  | _ => False

instance decidableProper (lo : Price) (live : List LiveOrder) (u : MEMarketUpdate) :
    Decidable (Proper lo live u) :=
  match h : u.type with
  | .add => decidable_of_iff (AddOk lo live u ∧ u.orderId.toNat < meMaxOrderIds) (by simp [Proper, h])
  | .modify => decidable_of_iff (u.orderId.toNat < meMaxOrderIds) (by simp [Proper, h])
  | .cancel => decidable_of_iff (u.orderId.toNat < meMaxOrderIds) (by simp [Proper, h])
  | .trade => isTrue (by simp [Proper, h])
  | .invalid => isFalse (by simp [Proper, h])
  | .clear => isFalse (by simp [Proper, h])
  | .snapshotStart => isFalse (by simp [Proper, h])
  | .snapshotEnd => isFalse (by simp [Proper, h])
  | .unnamed _ => isFalse (by simp [Proper, h])

/-! ## The lists and the live orders -/

def shown (e : Entry) : LiveOrder :=
  ⟨e.info.marketOrderId, e.info.side, e.info.price, e.info.qty⟩

/-- The lists are the live orders by side and price, and the table of ids finds each of them. -/
structure Mirrors (lo : Price) (k : Book) (live : List LiveOrder) : Prop where
  orders : ∀ l ∈ k.levels,
    l.orders.map shown = live.filter fun o => o.side = l.side ∧ o.price = l.price
  level : ∀ o ∈ live, ∃ l ∈ k.levels, l.side = o.side ∧ l.price = o.price
  ids : (live.map LiveOrder.orderId).Nodup
  table : ∀ e ∈ k.entries, k.cidOidToOrder 0 e.info.marketOrderId = some e.ptr
  window : ∀ o ∈ live, InWindow lo o.price

namespace Mirrors

variable {lo : Price} {k : Book} {live : List LiveOrder} {e e' : Entry} {l : Level} {o : LiveOrder}
  {u : MEMarketUpdate}

theorem init (lo : Price) (tickerId : TickerId) : Mirrors lo (Book.init tickerId) [] := by
  constructor <;> simp [Book.init, Book.levels, Book.entries]

/-- The lists have a level for every order that is in them. -/
theorem of_orders (horders : ∀ l ∈ k.levels,
      l.orders.map shown = live.filter fun o => o.side = l.side ∧ o.price = l.price)
    (hall : ∀ o ∈ live, ∃ e ∈ k.entries, shown e = o) (hids : (live.map LiveOrder.orderId).Nodup)
    (htable : ∀ e ∈ k.entries, k.cidOidToOrder 0 e.info.marketOrderId = some e.ptr)
    (hwindow : ∀ o ∈ live, InWindow lo o.price) : Mirrors lo k live where
  orders := horders
  level := by
    intro o ho
    obtain ⟨e, he, rfl⟩ := hall o ho
    obtain ⟨l, hl, hel⟩ := Book.mem_entries.mp he
    have hmem : shown e ∈ l.orders.map shown := List.mem_map_of_mem hel
    rw [horders l hl] at hmem
    obtain ⟨hside, hprice⟩ := of_decide_eq_true (List.mem_filter.mp hmem).2
    exact ⟨l, hl, hside.symm, hprice.symm⟩
  ids := hids
  table := htable
  window := hwindow

/-- Every order of the book is alive. -/
theorem shown_mem (h : Mirrors lo k live) (he : e ∈ k.entries) : shown e ∈ live := by
  obtain ⟨l, hl, hel⟩ := Book.mem_entries.mp he
  have hmem : shown e ∈ l.orders.map shown := List.mem_map_of_mem hel
  rw [h.orders l hl] at hmem
  exact List.mem_of_mem_filter hmem

/-- Every live order is in the book. -/
theorem exists_entry (h : Mirrors lo k live) (ho : o ∈ live) : ∃ e ∈ k.entries, shown e = o := by
  obtain ⟨l, hl, hside, hprice⟩ := h.level o ho
  have hmem : o ∈ live.filter fun o => o.side = l.side ∧ o.price = l.price := by
    apply List.mem_filter.mpr
    exact ⟨ho, by simp [hside, hprice]⟩
  rw [← h.orders l hl] at hmem
  obtain ⟨e, he, rfl⟩ := List.mem_map.mp hmem
  exact ⟨e, Book.mem_entries.mpr ⟨l, hl, he⟩, rfl⟩

/-- The orders of a level are of its side and price. -/
theorem own (h : Mirrors lo k live) (hl : l ∈ k.levels) (he : e ∈ l.orders) :
    e.info.side = l.side ∧ e.info.price = l.price := by
  have hmem : shown e ∈ l.orders.map shown := List.mem_map_of_mem he
  rw [h.orders l hl] at hmem
  exact of_decide_eq_true (List.mem_filter.mp hmem).2

theorem level_window (h : Mirrors lo k live) (hk : k.Lists) (hl : l ∈ k.levels) :
    InWindow lo l.price := by
  obtain ⟨e, es, hes⟩ := List.exists_cons_of_ne_nil (hk.nonempty l hl)
  have he : e ∈ l.orders := by rw [hes]; exact List.mem_cons_self
  rw [← (h.own hl he).2]
  exact h.window _ (h.shown_mem (Book.mem_entries.mpr ⟨l, hl, he⟩))

/-- An id names one order. -/
theorem eq_of_id (h : Mirrors lo k live) (hk : k.Lists) (he : e ∈ k.entries) (he' : e' ∈ k.entries)
    (hid : e.info.marketOrderId = e'.info.marketOrderId) : e = e' := by
  apply hk.eq_of_ptr he he'
  have htable := h.table e he
  rw [hid, h.table e' he'] at htable
  exact (Option.some.inj htable).symm

theorem entries_length_le (h : Mirrors lo k live) (hk : k.Lists) : k.entries.length ≤ live.length := by
  have hnd : (k.entries.map fun e => e.info.marketOrderId).Nodup := by
    rw [List.nodup_map_iff_inj_on hk.orderPtrs.of_map]
    intro e he e' he' hid
    exact h.eq_of_id hk he he' hid
  have hsub : (k.entries.map fun e => e.info.marketOrderId) ⊆ live.map LiveOrder.orderId := by
    intro id hid
    obtain ⟨e, he, rfl⟩ := List.mem_map.mp hid
    exact List.mem_map.mpr ⟨shown e, h.shown_mem he, rfl⟩
  have hle := hnd.length_le_of_subset hsub
  simpa using hle

/-- An id that is not in the table is not alive. -/
theorem not_live (h : Mirrors lo k live) {id : OrderId} (hnone : k.cidOidToOrder 0 id = none) :
    ∀ o ∈ live, o.orderId ≠ id := by
  rintro o ho rfl
  obtain ⟨e, he, rfl⟩ := h.exists_entry ho
  have htable := h.table e he
  rw [show (shown e).orderId = e.info.marketOrderId from rfl, htable] at hnone
  cases hnone

/-! ### An order comes in -/

/-- The level in the slot of a new order, if there is one, is of the order's side and price. -/
theorem level_of_slot (h : Mirrors lo k live) (hk : k.Lists) (hok : AddOk lo live u)
    (hl : l ∈ k.levels) (hslot : l.slot = priceToIndex u.price) :
    l.side = u.side ∧ l.price = u.price := by
  have hprice : l.price = u.price := (h.level_window hk hl).eq_of_slot hok.window hslot
  refine ⟨?_, hprice⟩
  obtain ⟨e, es, hes⟩ := List.exists_cons_of_ne_nil (hk.nonempty l hl)
  have he : e ∈ l.orders := by rw [hes]; exact List.mem_cons_self
  obtain ⟨hside, heprice⟩ := h.own hl he
  rw [← hside]
  exact hok.apart (shown e) (h.shown_mem (Book.mem_entries.mpr ⟨l, hl, he⟩)) (heprice.trans hprice)

/-- With every level a price of the window, there is a cell left for a level. -/
theorem not_full (h : Mirrors lo k live) (hk : k.Lists) (hok : AddOk lo live u) : ¬ Full k u := by
  rintro (hfull | ⟨hfull, hfree⟩)
  · have hle := h.entries_length_le hk
    have hroom := hok.room
    omega
  · -- the prices of the levels and the new one are different prices of the window
    have hprices : (u.price :: k.levels.map Level.price).Nodup := by
      apply List.nodup_cons.mpr
      constructor
      · intro hmem
        obtain ⟨l, hl, hprice⟩ := List.mem_map.mp hmem
        refine hfree (List.mem_map.mpr ⟨l, hl, ?_⟩)
        rw [Level.slot, hprice]
      · have hslots := hk.slots
        rw [show Level.slot = priceToIndex ∘ Level.price from rfl, ← List.map_map] at hslots
        exact hslots.of_map
    have hle := @InWindow.length_le lo _ (by
      intro p hp
      rcases List.mem_cons.mp hp with rfl | hp
      · exact hok.window
      · obtain ⟨l, hl, rfl⟩ := List.mem_map.mp hp
        exact h.level_window hk hl) hprices
    rw [List.length_cons, List.length_map] at hle
    unfold meMaxPriceLevels at hle hfull
    omega

/-- The levels of the book with a new order: the level at its price takes it, or it has a new one. -/
theorem mem_rest_levels (h : Mirrors lo k live) (hk : k.Lists) (hok : AddOk lo live u)
    {tickerId : TickerId} (hinfo : e.info = added tickerId u) {lp : LevelPtr}
    (hl : l ∈ (k.rest e lp).levels) :
    (∃ l₀ ∈ k.levels, l = { l₀ with orders := l₀.orders ++ [e] } ∧ l₀.side = u.side ∧
      l₀.price = u.price) ∨
    (l ∈ k.levels ∧ l.price ≠ u.price) ∨
    (l = Book.newLevel e lp ∧ ∀ o ∈ live, o.price ≠ u.price) := by
  have hslot : e.slot = priceToIndex u.price := by rw [Entry.slot, hinfo]; rfl
  have hne : ∀ l' ∈ k.levels, l'.slot ≠ e.slot → l'.price ≠ u.price := by
    intro l' _ hne hprice
    exact hne (by rw [Level.slot, hprice, hslot])
  cases htaken : k.slotTaken e with
  | true =>
    rw [Book.rest_levels_of_taken htaken] at hl
    obtain ⟨l₀, hl₀, rfl⟩ := Book.mem_appendOrder.mp hl
    by_cases hs : l₀.slot = e.slot
    · rw [if_pos hs]
      exact Or.inl ⟨l₀, hl₀, rfl, h.level_of_slot hk hok hl₀ (hs.trans hslot)⟩
    · rw [if_neg hs]
      exact Or.inr (Or.inl ⟨hl₀, hne l₀ hl₀ hs⟩)
  | false =>
    have hfree : ∀ l' ∈ k.levels, l'.slot ≠ e.slot := by
      intro l' hl' hs
      have htaken' := Book.slotTaken_iff.mpr (List.mem_map.mpr ⟨l', hl', hs⟩)
      rw [htaken] at htaken'
      cases htaken'
    rw [(Book.rest_levels_perm htaken lp).mem_iff, List.mem_cons] at hl
    rcases hl with rfl | hl
    · refine Or.inr (Or.inr ⟨rfl, ?_⟩)
      intro o ho hprice
      obtain ⟨l', hl', -, hprice'⟩ := h.level o ho
      exact hne l' hl' (hfree l' hl') (hprice'.trans hprice)
    · exact Or.inr (Or.inl ⟨hl, hne l hl (hfree l hl)⟩)

/-- **A new order** goes to the end of the level at its price. -/
theorem rest (h : Mirrors lo k live) (hk : k.Lists) (hok : AddOk lo live u) {tickerId : TickerId}
    (hinfo : e.info = added tickerId u) (lp : LevelPtr) :
    Mirrors lo (k.rest e lp) (live ++ [⟨u.orderId, u.side, u.price, u.qty⟩]) := by
  have hshown : shown e = ⟨u.orderId, u.side, u.price, u.qty⟩ := by
    unfold shown
    rw [hinfo]
    rfl
  have hid : e.info.marketOrderId = u.orderId := by rw [hinfo]; rfl
  rw [← hshown]
  apply of_orders
  · intro l hl
    rw [List.filter_append]
    rcases h.mem_rest_levels hk hok hinfo hl with
      ⟨l₀, hl₀, rfl, hside, hprice⟩ | ⟨hl, hprice⟩ | ⟨rfl, hnone⟩
    · rw [List.map_append, h.orders l₀ hl₀]
      simp [hshown, hside, hprice]
    · rw [h.orders l hl]
      simp [hshown, hprice.symm]
    · have hempty : (live.filter fun o => o.side = (Book.newLevel e lp).side ∧
          o.price = (Book.newLevel e lp).price) = [] := by
        apply List.filter_eq_nil_iff.mpr
        intro o ho
        have hne := hnone o ho
        simp [Book.newLevel, hinfo, added, hne]
      rw [hempty]
      simp [Book.newLevel, shown]
  · intro o ho
    rcases List.mem_append.mp ho with ho | ho
    · obtain ⟨e', he', rfl⟩ := h.exists_entry ho
      exact ⟨e', (Book.mem_rest_entries hk).mpr (Or.inr he'), rfl⟩
    · exact ⟨e, (Book.mem_rest_entries hk).mpr (Or.inl rfl), (List.mem_singleton.mp ho).symm⟩
  · rw [List.map_append, List.nodup_append]
    refine ⟨h.ids, by simp, ?_⟩
    intro id hmem id' hmem'
    obtain ⟨o, ho, rfl⟩ := List.mem_map.mp hmem
    rw [List.map_singleton, List.mem_singleton, hshown] at hmem'
    rw [hmem']
    exact hok.fresh o ho
  · intro e' he'
    rw [Book.rest_cidOidToOrder]
    rcases (Book.mem_rest_entries hk).mp he' with rfl | he'
    · rw [if_pos]
      rw [hinfo]
      exact ⟨rfl, rfl⟩
    · rw [if_neg, h.table e' he']
      rintro ⟨-, hsame⟩
      rw [show e.info.clientOrderId = u.orderId by rw [hinfo]; rfl] at hsame
      exact hok.fresh (shown e') (h.shown_mem he') hsame
  · intro o ho
    rcases List.mem_append.mp ho with ho | ho
    · exact h.window o ho
    · rw [List.mem_singleton.mp ho, hshown]
      exact hok.window

/-! ### An order changes, or goes out -/

/-- **A new quantity** for an order of the book. -/
theorem setQty (h : Mirrors lo k live) (hk : k.Lists) (he : e ∈ k.entries) (q : Qty) :
    Mirrors lo (k.setQty e.ptr q)
      (live.map fun o => if o.orderId = e.info.marketOrderId then { o with qty := q } else o) := by
  -- the cell names the order as well as its id does
  have hsame : ∀ e' ∈ k.entries, e'.ptr = e.ptr ↔ (shown e').orderId = e.info.marketOrderId := by
    intro e' he'
    constructor
    · intro hptr
      rw [hk.eq_of_ptr he' he hptr]
      rfl
    · intro hid
      rw [h.eq_of_id hk he' he hid]
  have hshown : ∀ e' ∈ k.entries, (Book.requantifying e.ptr q e').map shown =
      some (if (shown e').orderId = e.info.marketOrderId then { shown e' with qty := q }
        else shown e') := by
    intro e' he'
    unfold Book.requantifying
    by_cases hptr : e'.ptr = e.ptr
    · rw [if_pos hptr, if_pos ((hsame e' he').mp hptr)]
      rfl
    · rw [if_neg hptr, if_neg fun hid => hptr ((hsame e' he').mpr hid)]
      rfl
  apply of_orders
  · intro l hl
    obtain ⟨l₀, hl₀, rfl⟩ := (Book.mem_setQty_levels hk).mp hl
    have hkeep : (fun o : LiveOrder => decide (o.side = l₀.side ∧ o.price = l₀.price)) ∘
        (fun o => if o.orderId = e.info.marketOrderId then { o with qty := q } else o) =
        fun o => decide (o.side = l₀.side ∧ o.price = l₀.price) := by
      funext o
      simp only [Function.comp]
      split <;> rfl
    rw [List.filter_map, hkeep, ← h.orders l₀ hl₀, List.map_map, List.map_filterMap,
      ← List.filterMap_eq_map]
    apply List.filterMap_congr
    intro e' he'
    exact hshown e' (Book.mem_entries.mpr ⟨l₀, hl₀, he'⟩)
  · intro o ho
    obtain ⟨o₀, ho₀, rfl⟩ := List.mem_map.mp ho
    obtain ⟨e₀, he₀, rfl⟩ := h.exists_entry ho₀
    refine ⟨_, Book.mem_setQty_entries.mpr ⟨e₀, he₀, rfl⟩, ?_⟩
    by_cases hptr : e₀.ptr = e.ptr
    · rw [if_pos hptr, if_pos ((hsame e₀ he₀).mp hptr)]
      rfl
    · rw [if_neg hptr, if_neg fun hid => hptr ((hsame e₀ he₀).mpr hid)]
  · rw [List.map_map]
    have hids : (LiveOrder.orderId ∘ fun o : LiveOrder =>
        if o.orderId = e.info.marketOrderId then { o with qty := q } else o) =
        LiveOrder.orderId := by
      funext o
      simp only [Function.comp]
      split <;> rfl
    rw [hids]
    exact h.ids
  · intro e' he'
    obtain ⟨e₀, he₀, rfl⟩ := Book.mem_setQty_entries.mp he'
    split <;> exact h.table e₀ he₀
  · intro o ho
    obtain ⟨o₀, ho₀, rfl⟩ := List.mem_map.mp ho
    split <;> exact h.window o₀ ho₀

/-- **An order goes out** of the book. -/
theorem remove (h : Mirrors lo k live) (hk : k.Lists) (he : e ∈ k.entries)
    (hid : e.info.clientOrderId = e.info.marketOrderId) :
    Mirrors lo (k.remove e) (live.filter fun o => o.orderId ≠ e.info.marketOrderId) := by
  have hsame : ∀ e' ∈ k.entries, e'.ptr = e.ptr ↔ (shown e').orderId = e.info.marketOrderId := by
    intro e' he'
    constructor
    · intro hptr
      rw [hk.eq_of_ptr he' he hptr]
      rfl
    · intro hid
      rw [h.eq_of_id hk he' he hid]
  apply of_orders
  · intro l hl
    rw [Book.remove, Book.setCidOid_levels, Book.filter_levels] at hl
    obtain ⟨l₀, hl₀, rfl, -⟩ := mem_filterOrders.mp hl
    dsimp only
    rw [List.filter_comm, ← h.orders l₀ hl₀, List.filter_map, Book.filterMap_dropping]
    apply congrArg
    apply List.filter_congr
    intro e' he'
    have hiff := hsame e' (Book.mem_entries.mpr ⟨l₀, hl₀, he'⟩)
    simp only [Function.comp, ne_eq, hiff]
  · intro o ho
    obtain ⟨ho, hne⟩ := List.mem_filter.mp ho
    obtain ⟨e', he', rfl⟩ := h.exists_entry ho
    refine ⟨e', (Book.mem_remove_entries hk he).mpr ⟨he', ?_⟩, rfl⟩
    rintro rfl
    exact of_decide_eq_true hne rfl
  · exact h.ids.sublist (List.Sublist.map _ List.filter_sublist)
  · intro e' he'
    obtain ⟨he', hne⟩ := (Book.mem_remove_entries hk he).mp he'
    rw [Book.remove, Book.setCidOid_cidOidToOrder, if_neg]
    · exact h.table e' he'
    · rintro ⟨-, hids⟩
      exact hne (h.eq_of_id hk he' he (hids.trans hid))
  · intro o ho
    exact h.window o (List.mem_of_mem_filter ho)

end Mirrors

/-! ## Runs -/

namespace MarketOrderBook

variable {lo : Price} {b : MarketOrderBook} {k : Book} {live : List LiveOrder} {u : MEMarketUpdate}
  {us : List MEMarketUpdate}

/-- The book is a proper one, and it is the live orders. -/
structure Stands (lo : Price) (b : MarketOrderBook) (k : Book) (live : List LiveOrder) : Prop where
  shows : Shows b k
  wf : k.WF
  mirrors : Mirrors lo k live

theorem stands_init (lo : Price) (tickerId : TickerId) :
    Stands lo (init tickerId) (Book.init tickerId) [] :=
  ⟨shows_init tickerId, Book.wf_init tickerId, Mirrors.init lo tickerId⟩

/-- The lists after an update that the book could apply. -/
theorem Stands.applyUpdate (h : Stands lo b k live) (htype : u.type ≠ .trade) (hu : Proper lo live u) :
    ∃ b' k', b.applyUpdate u = .ok b' ∧ Stands lo b' k' (liveStep live u) ∧ b'.frame = b.frame := by
  unfold Proper at hu
  cases ht : u.type with
  | add =>
    rw [ht] at hu
    obtain ⟨hok, hid⟩ := hu
    have hroom := h.mirrors.not_full h.wf.toLists hok
    rcases applyUpdate_add h.shows h.wf ht hok.side with
      ⟨-, hfull⟩ | ⟨-, -, hbig⟩ | ⟨e, lp, b', happly, -, -, hinfo, hfresh, h', hframe⟩
    · exact absurd hfull hroom
    · omega
    · refine ⟨b', _, happly, ⟨h', ?_, ?_⟩, hframe⟩
      · apply Book.rest_wf h.wf _ hfresh
        rw [hinfo]
        exact hok.side
      · rw [liveStep_add ht]
        exact h.mirrors.rest h.wf.toLists hok hinfo lp
  | modify =>
    rw [ht] at hu
    rcases applyUpdate_modify h.shows h.wf ht hu with
      ⟨hnone, happly⟩ | ⟨e, he, b', -, hid, happly, h', hframe⟩
    · rw [liveStep_modify_eq_self ht (h.mirrors.not_live hnone)]
      exact ⟨b, k, happly, h, rfl⟩
    · refine ⟨b', _, happly, ⟨h', Book.setQty_wf h.wf _ _, ?_⟩, hframe⟩
      rw [liveStep_modify ht, ← hid]
      exact h.mirrors.setQty h.wf.toLists he u.qty
  | cancel =>
    rw [ht] at hu
    rcases applyUpdate_cancel h.shows h.wf ht hu with
      ⟨hnone, happly⟩ | ⟨e, he, b', -, hid, happly, h', hframe⟩
    · rw [liveStep_cancel_eq_self ht (h.mirrors.not_live hnone)]
      exact ⟨b, k, happly, h, rfl⟩
    · refine ⟨b', _, happly, ⟨h', Book.remove_wf h.wf he, ?_⟩, hframe⟩
      rw [liveStep_cancel ht, ← hid]
      exact h.mirrors.remove h.wf.toLists he (ids_eq h.shows he).2
  | trade => exact absurd ht htype
  | _ =>
    rw [ht] at hu
    exact absurd hu id

/-- **Step lemma.** A proper update keeps the book the live orders. What is then said of a side is what
its first level says, if the update touched the side, and what was said before, otherwise. -/
theorem Stands.step (h : Stands lo b k live) (hu : Proper lo live u) :
    ∃ b' k', b.onMarketUpdate u = .ok b' ∧ Stands lo b' k' (liveStep live u) ∧
      ∀ s, s = .buy ∨ s = .sell → b'.quote s =
        if u.type ≠ .trade ∧ touches k u s then best (k'.side s) else b.quote s := by
  by_cases ht : u.type = .trade
  · obtain ⟨b', hok, hview, hbbo⟩ := onMarketUpdate_trade (b := b) ht
    refine ⟨b', k, hok, ⟨?_, h.wf, ?_⟩, ?_⟩
    · unfold Shows
      rw [hview]
      exact h.shows
    · rw [liveStep_trade ht]
      exact h.mirrors
    · intro s _
      rw [if_neg fun hc => hc.1 ht]
      unfold quote
      rw [hbbo]
  · obtain ⟨b₁, k', happly, h₁, hframe⟩ := h.applyUpdate ht hu
    obtain ⟨bbo, notices, hok, hquote⟩ :=
      onMarketUpdate_spec h.shows ht happly h₁.shows h₁.wf.toLists hframe
    refine ⟨_, k', hok, ⟨h₁.shows, h₁.wf, h₁.mirrors⟩, ?_⟩
    intro s hs
    rw [hquote s hs]
    simp only [ne_eq, ht, not_false_eq_true, true_and]

/-- **Run lemma.** -/
theorem Stands.run (h : Stands lo b k live) (hus : Along (Proper lo) live us) :
    ∃ b' k', b.onMarketUpdates us = .ok b' ∧ Stands lo b' k' (us.foldl liveStep live) := by
  induction us generalizing b k live with
  | nil => exact ⟨b, k, rfl, h⟩
  | cons u us ih =>
    obtain ⟨b₁, k₁, hstep, h₁, -⟩ := h.step hus.1
    obtain ⟨b', k', hrun, h'⟩ := ih h₁ hus.2
    refine ⟨b', k', ?_, h'⟩
    unfold onMarketUpdates
    rw [List.foldlM_cons, hstep]
    exact hrun

/-- An id that is not alive is not in the table. -/
theorem Stands.table_none (h : Stands lo b k live) {id : OrderId} (hnone : ∀ o ∈ live, o.orderId ≠ id) :
    k.cidOidToOrder 0 id = none := by
  cases htable : k.cidOidToOrder 0 id with
  | none => rfl
  | some p =>
    obtain ⟨e, he, -, -, hid⟩ := h.wf.table _ _ _ htable
    refine absurd ?_ (hnone (shown e) (h.mirrors.shown_mem he))
    exact (ids_eq h.shows he).2.symm.trans hid

/-- An update that names no live order leaves all of the book but what is said of it. -/
theorem Stands.unknown (h : Stands lo b k live) (htype : u.type = .modify ∨ u.type = .cancel)
    (hid : u.orderId.toNat < meMaxOrderIds) (hnone : ∀ o ∈ live, o.orderId ≠ u.orderId) :
    ∃ bbo notices, b.onMarketUpdate u = .ok { b with bbo := bbo, notices := notices } := by
  have happly : b.applyUpdate u = .ok b := by
    have htable := h.table_none hnone
    rcases htype with ht | ht
    · rcases applyUpdate_modify h.shows h.wf ht hid with ⟨-, happly⟩ | ⟨e, -, -, hsome, -⟩
      · exact happly
      · rw [htable] at hsome
        cases hsome
    · rcases applyUpdate_cancel h.shows h.wf ht hid with ⟨-, happly⟩ | ⟨e, -, -, hsome, -⟩
      · exact happly
      · rw [htable] at hsome
        cases hsome
  have htrade : u.type ≠ .trade := by
    rcases htype with ht | ht <;> simp [ht]
  obtain ⟨bbo, notices, hok, -⟩ :=
    onMarketUpdate_spec h.shows htrade happly h.shows h.wf.toLists rfl
  exact ⟨bbo, notices, hok⟩

/-! ## What a walk over the book finds -/

/-- What an order's cell says of the order. -/
def liveAt (b : MarketOrderBook) (p : OrderPtr) : LiveOrder :=
  ⟨(b.order p).orderId, (b.order p).side, (b.order p).price, (b.order p).qty⟩

def priceAt (b : MarketOrderBook) (p : LevelPtr) : Price := (b.level p).price

/-- A walk over the book finds the live orders: each price of a side once, the best one first, and under
it the orders of the side and price in the order of their `ADD`s. The walks come back to where they
started. -/
structure ListsLive (b : MarketOrderBook) (live : List LiveOrder) : Prop where
  bids : ((b.levelPtrs .buy).map b.priceAt).Pairwise (· > ·)
  asks : ((b.levelPtrs .sell).map b.priceAt).Pairwise (· < ·)
  prices : ∀ s, s = .buy ∨ s = .sell → ∀ price,
    price ∈ (b.levelPtrs s).map b.priceAt ↔ ∃ o ∈ live, o.side = s ∧ o.price = price
  orders : ∀ s, s = .buy ∨ s = .sell → ∀ p ∈ b.levelPtrs s,
    (b.orderPtrs p).map b.liveAt = live.filter fun o => o.side = s ∧ o.price = b.priceAt p
  levelRing : ∀ s, Circular (fun p => (b.level p).next) (fun p => (b.level p).prev) (b.levelPtrs s)
  orderRing : ∀ s, ∀ p ∈ b.levelPtrs s,
    Circular (fun o => (b.order o).nextOrder) (fun o => (b.order o).prevOrder) (b.orderPtrs p)

theorem Stands.listsLive (h : Stands lo b k live) : ListsLive b live := by
  have hk := h.wf.toLists
  have hprices : ∀ s, (b.levelPtrs s).map b.priceAt = (k.side s).map Level.price := by
    intro s
    rw [levelPtrs_eq h.shows hk, List.map_map]
    apply List.map_congr_left
    intro l hl
    exact level_price_eq h.shows (Book.mem_levels_of_mem_side hl)
  constructor
  · rw [hprices, List.pairwise_map]
    exact (hk.sorted (Or.inl rfl)).imp fun hab => Book.behind_iff_buy.mp hab
  · rw [hprices, List.pairwise_map]
    exact (hk.sorted (Or.inr rfl)).imp fun hab => Book.behind_iff_sell.mp hab
  · intro s hs price
    rw [hprices]
    constructor
    · intro hmem
      obtain ⟨l, hl, rfl⟩ := List.mem_map.mp hmem
      have hlk := Book.mem_levels_of_mem_side hl
      obtain ⟨e, es, hes⟩ := List.exists_cons_of_ne_nil (hk.nonempty l hlk)
      have he : e ∈ l.orders := by rw [hes]; exact List.mem_cons_self
      obtain ⟨hside, hprice⟩ := h.mirrors.own hlk he
      exact ⟨shown e, h.mirrors.shown_mem (Book.mem_entries.mpr ⟨l, hlk, he⟩),
        hside.trans (hk.side_eq hl hs), hprice⟩
    · rintro ⟨o, ho, rfl, rfl⟩
      obtain ⟨l, hl, hside, hprice⟩ := h.mirrors.level o ho
      rw [← hside, ← hprice]
      exact List.mem_map_of_mem (hk.mem_side hl)
  · intro s hs p hp
    rw [levelPtrs_eq h.shows hk] at hp
    obtain ⟨l, hl, rfl⟩ := List.mem_map.mp hp
    have hlk := Book.mem_levels_of_mem_side hl
    have hside := hk.side_eq hl hs
    have horders := h.mirrors.orders l hlk
    rw [hside] at horders
    rw [orderPtrs_eq h.shows hk hlk, List.map_map, priceAt, level_price_eq h.shows hlk, ← horders]
    apply List.map_congr_left
    intro e he
    have hinfo := (h.shows.levelRep hlk).info e he
    unfold shown
    rw [← hinfo]
    rfl
  · intro s
    rw [levelPtrs_eq h.shows hk]
    exact (h.shows.side s).ring
  · intro s p hp
    rw [levelPtrs_eq h.shows hk] at hp
    obtain ⟨l, hl, rfl⟩ := List.mem_map.mp hp
    have hlk := Book.mem_levels_of_mem_side hl
    rw [orderPtrs_eq h.shows hk hlk]
    exact (h.shows.levelRep hlk).ring

/-- **The client's book is the map of live orders**, after every stream of proper updates; and a
`MODIFY` or `CANCEL` of an id that is not alive leaves the lists, the pools and the tables as they are. The best
prices may be computed again, and the trade engine is told. -/
theorem onMarketUpdates_listsLive (tickerId : TickerId) (lo : Price) (us : List MEMarketUpdate)
    (hus : Along (Proper lo) [] us) :
    ∃ b, (init tickerId).onMarketUpdates us = .ok b ∧ ListsLive b (liveOrders us) ∧
      ∀ u, u.type = .modify ∨ u.type = .cancel → u.orderId.toNat < meMaxOrderIds →
        (∀ o ∈ liveOrders us, o.orderId ≠ u.orderId) →
        ∃ bbo notices, b.onMarketUpdate u = .ok { b with bbo := bbo, notices := notices } := by
  obtain ⟨b, k, hrun, h⟩ := (stands_init lo tickerId).run hus
  exact ⟨b, hrun, h.listsLive, fun u htype hid hnone => h.unknown htype hid hnone⟩

/-- Two orders at one price, one of them cancelled, one of the other side, and an unknown id. -/
theorem onMarketUpdates_listsLive_three :
    ∃ b, (init 0).onMarketUpdates [
        { type := .add, orderId := 1, tickerId := 0, side := .buy, price := 100, qty := 5, priority := 1 },
        { type := .add, orderId := 2, tickerId := 0, side := .buy, price := 100, qty := 7, priority := 2 },
        { type := .add, orderId := 3, tickerId := 0, side := .sell, price := 101, qty := 4, priority := 1 },
        { type := .modify, orderId := 2, tickerId := 0, side := .buy, price := 100, qty := 6, priority := 2 },
        { type := .cancel, orderId := 1, tickerId := 0, side := .buy, price := 100, qty := 5, priority := 1 },
        { type := .cancel, orderId := 9, tickerId := 0, side := .buy, price := 100, qty := 5, priority := 1 }]
      = .ok b ∧ ListsLive b [⟨2, .buy, 100, 6⟩, ⟨3, .sell, 101, 4⟩] := by
  obtain ⟨b, hrun, hlists, -⟩ := onMarketUpdates_listsLive 0 100 [
        { type := .add, orderId := 1, tickerId := 0, side := .buy, price := 100, qty := 5, priority := 1 },
        { type := .add, orderId := 2, tickerId := 0, side := .buy, price := 100, qty := 7, priority := 2 },
        { type := .add, orderId := 3, tickerId := 0, side := .sell, price := 101, qty := 4, priority := 1 },
        { type := .modify, orderId := 2, tickerId := 0, side := .buy, price := 100, qty := 6, priority := 2 },
        { type := .cancel, orderId := 1, tickerId := 0, side := .buy, price := 100, qty := 5, priority := 1 },
        { type := .cancel, orderId := 9, tickerId := 0, side := .buy, price := 100, qty := 5, priority := 1 }]
    (by decide)
  exact ⟨b, hrun, hlists⟩

end MarketOrderBook

end TradingSystem.Client
