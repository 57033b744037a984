import TradingSystem.Utils.LinkedCells
import TradingSystem.Exchange.BookInvariant

/-!
# The pointer structure represents the book

`Holds b k orders levels`: the cells, links, heads and tables of `b` are those of the book `k`, and
besides the cells of `k` the cells `orders` and `levels` are handed out (an order is handed out
before it is linked in and given back after it is unlinked). Each level's cell and the circle of its
orders is a `LevelRep`, each side's circle of levels a `SideRep`; both read the two pools only, so
that an edit of anything else leaves them alone, and an edit of a cell leaves alone every level that
does not own it (`LevelRep.congr`).

One lemma for each function of the source says what it does to the book it holds. Together they give
`processClientRequest_refines`: on a represented book a valid request either exhausts a pool or does
exactly its events.
-/

namespace TradingSystem

open MEOrderBook (priceToIndex inTable)

/-- The links of a level's cell. -/
abbrev levelLinks : LinkFields MEOrdersAtPrice (Side × Price × Option OrderPtr) where
  next := MEOrdersAtPrice.next
  prev := MEOrdersAtPrice.prev
  setNext := fun v l => { l with next := v }
  setPrev := fun v l => { l with prev := v }
  data := fun l => (l.side, l.price, l.ordersHead)
  next_setNext := fun _ _ => rfl
  prev_setPrev := fun _ _ => rfl
  next_setPrev := fun _ _ => rfl
  prev_setNext := fun _ _ => rfl
  data_setNext := fun _ _ => rfl
  data_setPrev := fun _ _ => rfl
  comm := fun _ _ _ => rfl

/-- The links of an order's cell. -/
abbrev orderLinks : LinkFields MEOrder OrderInfo where
  next := MEOrder.nextOrder
  prev := MEOrder.prevOrder
  setNext := fun v o => { o with nextOrder := v }
  setPrev := fun v o => { o with prevOrder := v }
  data := MEOrder.toOrderInfo
  next_setNext := fun _ _ => rfl
  prev_setPrev := fun _ _ => rfl
  next_setPrev := fun _ _ => rfl
  prev_setNext := fun _ _ => rfl
  data_setNext := fun _ _ => rfl
  data_setPrev := fun _ _ => rfl
  comm := fun _ _ _ => rfl

/-- The level `l` is laid out in the pools. -/
structure LevelRep (os : MemPool MEOrder) (ls : MemPool MEOrdersAtPrice) (l : Level) : Prop where
  data : levelLinks.data (ls.get l.ptr) = (l.side, l.price, (l.orders.map Entry.ptr).head?)
  ring : os.Ring orderLinks (l.orders.map Entry.ptr)
  info : ∀ e ∈ l.orders, (os.get e.ptr).toOrderInfo = e.info

/-- The levels `levels` are laid out in the pools and linked into a circle with head `head`. -/
structure SideRep (os : MemPool MEOrder) (ls : MemPool MEOrdersAtPrice) (levels : List Level)
    (head : Option LevelPtr) : Prop where
  head : head = (levels.map Level.ptr).head?
  ring : ls.Ring levelLinks (levels.map Level.ptr)
  level : ∀ l ∈ levels, LevelRep os ls l

/-- The pointer structure `b` holds the book `k`, and besides it the cells `orders` and `levels`. -/
structure Holds (b : MEOrderBook) (k : Book) (orders : List OrderPtr) (levels : List LevelPtr) :
    Prop where
  ticker : b.ticker = k.ticker
  nextOrderId : b.nextOrderId = k.nextOrderId
  cid : b.cidOidToOrder = k.cidOidToOrder
  side : ∀ s, SideRep b.ordersPool b.ordersAtPricePool (k.side s) (b.levelsHead s)
  table : ∀ i p, b.priceToOrdersAtPrice i = some p ↔ ∃ l ∈ k.levels, l.slot = i ∧ l.ptr = p
  levelReady : b.ordersAtPricePool.Ready
  levelCells : b.ordersAtPricePool.numCells = meMaxPriceLevels
  levelLive : ∀ p, b.ordersAtPricePool.Live p ↔ p ∈ k.levels.map Level.ptr ∨ p ∈ levels
  orderReady : b.ordersPool.Ready
  orderCells : b.ordersPool.numCells = meMaxOrderIds
  orderLive : ∀ p, b.ordersPool.Live p ↔ p ∈ k.entries.map Entry.ptr ∨ p ∈ orders

/-- The pointer structure `b` represents the book `k`. -/
abbrev Rep (b : MEOrderBook) (k : Book) : Prop := Holds b k [] []

namespace LevelRep

variable {os os' : MemPool MEOrder} {ls ls' : MemPool MEOrdersAtPrice} {l : Level}

/-- A level's layout only depends on its own cell, links apart, and on its orders' cells. -/
theorem congr (h : LevelRep os ls l)
    (hl : levelLinks.data (ls'.get l.ptr) = levelLinks.data (ls.get l.ptr))
    (ho : ∀ p ∈ l.orders.map Entry.ptr, os'.get p = os.get p) : LevelRep os' ls' l where
  data := hl.trans h.data
  ring := Circular.congr h.ring (fun p hp => by rw [ho p hp]) (fun p hp => by rw [ho p hp])
  info := by
    intro e he
    rw [ho _ (List.mem_map_of_mem he)]
    exact h.info e he

theorem side_eq (h : LevelRep os ls l) : (ls.get l.ptr).side = l.side :=
  congrArg Prod.fst h.data

theorem price_eq (h : LevelRep os ls l) : (ls.get l.ptr).price = l.price :=
  congrArg (fun d => d.2.1) h.data

theorem head_eq (h : LevelRep os ls l) :
    (ls.get l.ptr).ordersHead = (l.orders.map Entry.ptr).head? :=
  congrArg (fun d => d.2.2) h.data

end LevelRep

namespace SideRep

variable {os os' : MemPool MEOrder} {ls ls' : MemPool MEOrdersAtPrice} {levels : List Level}
  {head : Option LevelPtr}

/-- Changing the orders of levels leaves the circle of levels as it is. -/
theorem map (h : SideRep os ls levels head) (g : Level → Level) (hptr : ∀ l, (g l).ptr = l.ptr)
    (hnext : ∀ l ∈ levels, (ls'.get l.ptr).next = (ls.get l.ptr).next)
    (hprev : ∀ l ∈ levels, (ls'.get l.ptr).prev = (ls.get l.ptr).prev)
    (hrep : ∀ l ∈ levels, LevelRep os ls l → LevelRep os' ls' (g l)) :
    SideRep os' ls' (levels.map g) head := by
  have hmap : (levels.map g).map Level.ptr = levels.map Level.ptr := by
    rw [List.map_map]
    exact List.map_congr_left fun l _ => hptr l
  refine ⟨?_, ?_, ?_⟩
  · rw [hmap]
    exact h.head
  · rw [hmap]
    refine Circular.congr h.ring ?_ ?_
    · intro p hp
      obtain ⟨l, hl, rfl⟩ := List.mem_map.mp hp
      exact hnext l hl
    · intro p hp
      obtain ⟨l, hl, rfl⟩ := List.mem_map.mp hp
      exact hprev l hl
  · intro l hl
    obtain ⟨l₀, hl₀, rfl⟩ := List.mem_map.mp hl
    exact hrep l₀ hl₀ (h.level l₀ hl₀)

/-- A side's layout only depends on the cells of its levels and of their orders. -/
theorem congr (h : SideRep os ls levels head)
    (hl : ∀ l ∈ levels, ls'.get l.ptr = ls.get l.ptr)
    (ho : ∀ l ∈ levels, ∀ p ∈ l.orders.map Entry.ptr, os'.get p = os.get p) :
    SideRep os' ls' levels head := by
  have hmap : SideRep os' ls' (levels.map id) head := h.map id (fun _ => rfl)
    (fun l hl' => by rw [hl l hl']) (fun l hl' => by rw [hl l hl'])
    (fun l hl' hrep => hrep.congr (by rw [hl l hl']) (ho l hl'))
  rwa [List.map_id] at hmap

end SideRep

namespace Holds

variable {b : MEOrderBook} {k : Book} {os : List OrderPtr} {ls : List LevelPtr} {s : Side}
  {l : Level} {e : Entry}

theorem levelRep (h : Holds b k os ls) (hl : l ∈ k.levels) :
    LevelRep b.ordersPool b.ordersAtPricePool l := by
  rcases Book.mem_levels.mp hl with hl | hl
  · exact (h.side .buy).level l hl
  · exact (h.side .sell).level l hl

theorem order_eq (h : Holds b k os ls) (he : e ∈ k.entries) :
    (b.order e.ptr).toOrderInfo = e.info := by
  obtain ⟨l, hl, hel⟩ := Book.mem_entries.mp he
  exact (h.levelRep hl).info e hel

/-- The level of a slot is found through a price of the slot. -/
theorem getOrderAtPrice_eq (h : Holds b k os ls) (hl : l ∈ k.levels) {p : Price}
    (hp : priceToIndex p = l.slot) : b.getOrderAtPrice p = some l.ptr :=
  (h.table _ _).mpr ⟨l, hl, hp.symm, rfl⟩

/-- A pool that is ready has a cell that no level of the book lives in. -/
theorem levels_length_lt (h : Holds b k os ls) (hk : k.Lists) :
    k.levels.length < meMaxPriceLevels := by
  have hlt := h.levelReady.length_lt hk.levelPtrs fun p hp => (h.levelLive p).mpr (Or.inl hp)
  rwa [List.length_map, h.levelCells] at hlt

theorem entries_length_lt (h : Holds b k os ls) (hk : k.Lists) :
    k.entries.length < meMaxOrderIds := by
  have hlt := h.orderReady.length_lt hk.orderPtrs fun p hp => (h.orderLive p).mpr (Or.inl hp)
  rwa [List.length_map, h.orderCells] at hlt

/-- There are at most as many levels as cells. -/
theorem levels_length_le (h : Holds b k os ls) (hk : k.Lists) :
    k.levels.length ≤ b.ordersAtPricePool.numCells := by
  rw [h.levelCells]
  exact (h.levels_length_lt hk).le

theorem entries_length_le (h : Holds b k os ls) (hk : k.Lists) :
    k.entries.length ≤ b.ordersPool.numCells := by
  rw [h.orderCells]
  exact (h.entries_length_lt hk).le

end Holds

theorem rep_init (ticker : TickerId) : Rep (MEOrderBook.init ticker) (Book.init ticker) where
  ticker := rfl
  nextOrderId := rfl
  cid := rfl
  side := by
    intro s
    have hside : (Book.init ticker).side s = [] := by
      unfold Book.side
      split <;> rfl
    have hhead : (MEOrderBook.init ticker).levelsHead s = none := by
      unfold MEOrderBook.levelsHead
      split <;> rfl
    rw [hside, hhead]
    exact ⟨rfl, Circular.nil, by simp⟩
  table := by simp [MEOrderBook.init, Book.init, Book.levels]
  levelReady := MemPool.ready_init (by decide) _
  levelCells := rfl
  levelLive := by simp [MEOrderBook.init, Book.init, Book.levels]
  orderReady := MemPool.ready_init (by decide) _
  orderCells := rfl
  orderLive := by simp [MEOrderBook.init, Book.init, Book.entries, Book.levels]

/-! ## Where an order is -/

namespace Book

variable {k : Book} {s : Side} {e : Entry} {l l' : Level}

/-- Levels own different orders' cells. -/
theorem Lists.ptr_disjoint (h : k.Lists) (hl : l ∈ k.levels) (hl' : l' ∈ k.levels) (hne : l ≠ l')
    {p : OrderPtr} (hp : p ∈ l.orders.map Entry.ptr) : p ∉ l'.orders.map Entry.ptr := by
  intro hp'
  obtain ⟨e, he, rfl⟩ := List.mem_map.mp hp
  obtain ⟨e', he', hptr⟩ := List.mem_map.mp hp'
  obtain rfl := h.eq_of_ptr (mem_entries.mpr ⟨l', hl', he'⟩) (mem_entries.mpr ⟨l, hl, he⟩) hptr
  exact hne (h.level_eq_of_mem hl hl' he he')

/-- A level holds each of its orders' cells once. -/
theorem Lists.ptrs_nodup (h : k.Lists) (hl : l ∈ k.levels) : (l.orders.map Entry.ptr).Nodup := by
  refine h.orderPtrs.sublist (List.Sublist.map _ ?_)
  exact List.sublist_flatten_of_mem (List.mem_map_of_mem hl)

theorem Lists.side_ptrs_nodup (h : k.Lists) (s : Side) : ((k.side s).map Level.ptr).Nodup := by
  refine h.levelPtrs.sublist (List.Sublist.map _ ?_)
  unfold side levels
  split
  · exact List.sublist_append_left _ _
  · exact List.sublist_append_right _ _

/-- Every level is on the side that is its own. -/
theorem Lists.mem_side (h : k.Lists) (hl : l ∈ k.levels) : l ∈ k.side l.side := by
  rcases List.mem_append.mp hl with hl | hl
  · rw [h.bids_side l hl]
    exact hl
  · rw [h.asks_side l hl]
    exact hl

theorem Lists.side_eq (h : k.Lists) (hl : l ∈ k.side s) (hs : s = .buy ∨ s = .sell) :
    l.side = s := h.side_of_mem hs hl

end Book

/-! ## Dropping an order, on the lists -/

namespace Book

variable {k : Book} {s t : Side} {e : Entry} {l l' : Level} {pre post : List Level}

theorem Lists.side_ptr_disjoint (h : k.Lists) (hst : ¬ (t = .buy ↔ s = .buy)) {p : LevelPtr}
    (hp : p ∈ (k.side s).map Level.ptr) : p ∉ (k.side t).map Level.ptr := by
  intro hp'
  have hnd := h.levelPtrs
  rw [levels, List.map_append, List.nodup_append] at hnd
  unfold side at hp hp'
  by_cases hs : s = .buy <;> by_cases ht : t = .buy <;> simp only [hs, ht, if_true, if_false] at hp hp'
  · exact hst (by simp [hs, ht])
  · exact hnd.2.2 p hp p hp' rfl
  · exact hnd.2.2 p hp' p hp rfl
  · exact hst (by simp [hs, ht])

theorem side_congr (hst : t = .buy ↔ s = .buy) : k.side t = k.side s := by
  unfold side
  simp only [hst]

theorem filterMap_dropping (p : OrderPtr) (es : List Entry) :
    es.filterMap (dropping p) = es.filter fun e => e.ptr ≠ p := by
  rw [← List.filterMap_eq_filter]
  apply List.filterMap_congr
  intro e _
  unfold dropping
  by_cases hp : e.ptr = p <;> simp [Option.guard, hp]

theorem filterMap_dropping_self {p : OrderPtr} {es : List Entry} (hp : p ∉ es.map Entry.ptr) :
    es.filterMap (dropping p) = es := by
  rw [List.filterMap_congr (g := some), List.filterMap_some]
  intro e he
  rw [dropping, if_neg]
  rintro rfl
  exact hp (List.mem_map_of_mem he)

theorem filterOrders_dropping_self {p : OrderPtr} {ls : List Level}
    (hne : ∀ l ∈ ls, l.orders ≠ []) (hp : ∀ l ∈ ls, p ∉ l.orders.map Entry.ptr) :
    filterOrders (dropping p) ls = ls := by
  refine filterOrders_eq_self hne ?_
  intro e he
  obtain ⟨l, hl, hel⟩ := mem_levelOrders.mp he
  rw [dropping, if_neg]
  rintro rfl
  exact hp l hl (List.mem_map_of_mem hel)

/-- The other levels of the book do not hold the cell of an order of `l`. -/
theorem Lists.not_mem_of_ne (h : k.Lists) (hl : l ∈ k.levels) (he : e ∈ l.orders)
    (hl' : l' ∈ k.levels) (hne : l' ≠ l) : e.ptr ∉ l'.orders.map Entry.ptr :=
  h.ptr_disjoint hl hl' hne.symm (List.mem_map_of_mem he)

/-- A level of one order goes with its order. -/
theorem Lists.filter_side_alone (h : k.Lists) (hl : l ∈ k.levels) (ho : l.orders = [e])
    (hside : k.side s = pre ++ l :: post) :
    (k.filter (dropping e.ptr)).side s = pre ++ post := by
  have hmem : ∀ l' ∈ pre ++ post, l' ∈ k.levels ∧ l' ≠ l := by
    intro l' hl'
    have hl'' : l' ∈ k.side s := by
      rw [hside]
      simp only [List.mem_append, List.mem_cons] at hl' ⊢
      tauto
    refine ⟨mem_levels_of_mem_side hl'', ?_⟩
    rintro rfl
    have hnd := h.side_ptrs_nodup s
    rw [hside, List.map_append, List.map_cons, List.nodup_middle, List.nodup_cons] at hnd
    exact hnd.1 (by rw [← List.map_append]; exact List.mem_map_of_mem hl')
  have hself : ∀ ls : List Level, (∀ l' ∈ ls, l' ∈ pre ++ post) →
      filterOrders (dropping e.ptr) ls = ls := by
    intro ls hls
    refine filterOrders_dropping_self (fun l' hl' => h.nonempty l' (hmem l' (hls l' hl')).1) ?_
    intro l' hl'
    exact h.not_mem_of_ne hl (by simp [ho]) (hmem l' (hls l' hl')).1 (hmem l' (hls l' hl')).2
  rw [filter_side, hside, filterOrders_append, filterOrders_cons, if_pos (by simp [ho, dropping]),
    hself pre (by simp +contextual), hself post (by simp +contextual)]

theorem Lists.filter_side_other (h : k.Lists) (hl : l ∈ k.levels) (he : e ∈ l.orders)
    (hls : l ∉ k.side s) : (k.filter (dropping e.ptr)).side s = k.side s := by
  rw [filter_side]
  refine filterOrders_dropping_self (fun l' hl' => h.nonempty l' (mem_levels_of_mem_side hl')) ?_
  intro l' hl'
  refine h.not_mem_of_ne hl he (mem_levels_of_mem_side hl') ?_
  rintro rfl
  exact hls hl'

/-- As long as its level keeps another order, an order goes alone. -/
theorem Lists.filter_side_more (h : k.Lists) (hl : l ∈ k.levels)
    (hmore : l.orders.filterMap (dropping e.ptr) ≠ []) (he : e ∈ l.orders) (s : Side) :
    (k.filter (dropping e.ptr)).side s =
      (k.side s).map fun l => { l with orders := l.orders.filterMap (dropping e.ptr) } := by
  rw [filter_side, filterOrders, List.filter_eq_self]
  intro l' hl'
  obtain ⟨l₀, hl₀, rfl⟩ := List.mem_map.mp hl'
  by_cases hll : l₀ = l
  · subst hll
    simpa using hmore
  · have hmem := mem_levels_of_mem_side hl₀
    rw [filterMap_dropping_self (h.not_mem_of_ne hl he hmem hll)]
    simpa using h.nonempty l₀ hmem

theorem Lists.not_mem_side (h : k.Lists) (hl : l ∈ k.levels) (hst : ¬ (t = .buy ↔ l.side = .buy)) :
    l ∉ k.side t := fun hlt =>
  h.side_ptr_disjoint hst (List.mem_map_of_mem (h.mem_side hl)) (List.mem_map_of_mem hlt)

/-- The cells in use without a dropped order's. -/
theorem mem_entries_ptr_dropping {p q : OrderPtr} :
    q ∈ (k.filter (dropping p)).entries.map Entry.ptr ↔ q ∈ k.entries.map Entry.ptr ∧ q ≠ p := by
  simp only [filter_entries, List.mem_map, List.mem_filterMap]
  constructor
  · rintro ⟨e, ⟨e₀, he₀, hd⟩, rfl⟩
    unfold dropping at hd
    split at hd
    · cases hd
    · next hne =>
      obtain rfl := Option.some.inj hd
      exact ⟨⟨e₀, he₀, rfl⟩, hne⟩
  · rintro ⟨⟨e, he, rfl⟩, hne⟩
    exact ⟨e, ⟨e, he, if_neg hne⟩, rfl⟩

/-- The levels left once a level's only order is dropped. -/
theorem Lists.mem_levels_alone (h : k.Lists) (hl : l ∈ k.levels) (ho : l.orders = [e]) :
    l' ∈ (k.filter (dropping e.ptr)).levels ↔ l' ∈ k.levels ∧ l' ≠ l := by
  rw [filter_levels, mem_filterOrders]
  constructor
  · rintro ⟨l₀, hl₀, rfl, hne⟩
    have hll : l₀ ≠ l := by
      rintro rfl
      simp [ho, dropping] at hne
    rw [filterMap_dropping_self (h.not_mem_of_ne hl (by simp [ho]) hl₀ hll)]
    exact ⟨hl₀, hll⟩
  · rintro ⟨hl', hne⟩
    refine ⟨l', hl', ?_, h.nonempty l' hl'⟩
    rw [filterMap_dropping_self (h.not_mem_of_ne hl (by simp [ho]) hl' hne)]

/-- The levels left once an order that shares its level is dropped. -/
theorem Lists.mem_levels_more (h : k.Lists) (hl : l ∈ k.levels)
    (hmore : l.orders.filterMap (dropping e.ptr) ≠ []) (he : e ∈ l.orders) :
    l' ∈ (k.filter (dropping e.ptr)).levels ↔
      ∃ l₀ ∈ k.levels, { l₀ with orders := l₀.orders.filterMap (dropping e.ptr) } = l' := by
  rw [mem_levels, h.filter_side_more hl hmore he, h.filter_side_more hl hmore he]
  simp only [List.mem_map, mem_levels]
  grind

end Book

namespace MEOrderBook

variable {b : MEOrderBook} {k : Book} {os : List OrderPtr} {ls : List LevelPtr} {s : Side}
  {l : Level} {e : Entry}

/-! ## Reading after writing -/

@[simp] theorem level_modifyOrder (p : OrderPtr) (q : LevelPtr) (f : MEOrder → MEOrder) :
    (b.modifyOrder p f).level q = b.level q := rfl

@[simp] theorem order_modifyOrder (p q : OrderPtr) (f : MEOrder → MEOrder) :
    (b.modifyOrder p f).order q = if q = p then f (b.order q) else b.order q :=
  b.ordersPool.get_modify p q f

@[simp] theorem level_modifyLevel (p q : LevelPtr) (f : MEOrdersAtPrice → MEOrdersAtPrice) :
    (b.modifyLevel p f).level q = if q = p then f (b.level q) else b.level q :=
  b.ordersAtPricePool.get_modify p q f

@[simp] theorem levelsHead_modifyLevel (p : LevelPtr) (f : MEOrdersAtPrice → MEOrdersAtPrice) :
    (b.modifyLevel p f).levelsHead s = b.levelsHead s := rfl

theorem levelsHead_setLevelsHead (t : Side) (p : Option LevelPtr) :
    (b.setLevelsHead s p).levelsHead t =
      if (t = .buy ↔ s = .buy) then p else b.levelsHead t := by
  unfold setLevelsHead levelsHead
  by_cases hs : s = .buy <;> by_cases ht : t = .buy <;> simp [hs, ht]

theorem setLevelsHead_eq (p : Option LevelPtr) :
    b.setLevelsHead s p =
      { b with
        bidsByPrice := if s = .buy then p else b.bidsByPrice
        asksByPrice := if s = .buy then b.asksByPrice else p } := by
  unfold setLevelsHead
  split <;> rfl

theorem setLevelsHead_self : b.setLevelsHead s (b.levelsHead s) = b := by
  unfold setLevelsHead levelsHead
  split <;> rfl

theorem modifyLevel_setLevelsHead (h : Option LevelPtr) (p : LevelPtr)
    (f : MEOrdersAtPrice → MEOrdersAtPrice) :
    (b.setLevelsHead s h).modifyLevel p f = (b.modifyLevel p f).setLevelsHead s h := by
  unfold setLevelsHead
  split <;> rfl

/-- What the book has sent. -/
def logs (b : MEOrderBook) : List MEClientResponse × List MEMarketUpdate := (b.responses, b.updates)

end MEOrderBook

end TradingSystem
