import TradingSystem.Exchange.PriceTime

/-!
# The linked structure of the order book

`WellLinked` says of the cells and pointers of the book what the five structures of the source are
to be: a circle of levels on each side, a circle of orders in each level, the price table, and the
id table. Most of it is what `Rep`, `WF` and `Sim` say already, read at the pointers.

What is new is that priorities grow along a level (`Ranked`). A new order gets one more than the last
of its level, in 64 bits, so this holds as long as no priority is at the end of its range, and none is
before the `2 ^ 64`-th `NEW` request.
-/

namespace TradingSystem

open MEOrderBook (priceToIndex stops)

/-! ## Priorities -/

namespace Book

variable {k : Book} {e : Entry} {l : Level} {ev : Event} {n : Nat} {r : MEClientRequest}
  {cells : Cells}

/-- The younger an order of a level the higher its priority, and no priority is above `n`. -/
structure Ranked (k : Book) (n : Nat) : Prop where
  increasing : ∀ l ∈ k.levels, l.orders.Pairwise fun e e' => e.info.priority < e'.info.priority
  bounded : ∀ e ∈ k.entries, e.info.priority.toNat ≤ n

theorem ranked_init (ticker : TickerId) : (init ticker).Ranked 0 := by
  constructor <;> simp [init, entries, levels]

/-- Changing quantities and dropping orders keeps the others in their order. -/
theorem Ranked.filter (h : k.Ranked n) {f : Entry → Option Entry} (hf : Keeps f) :
    (k.filter f).Ranked n := by
  constructor
  · intro l hl
    rw [filter_levels] at hl
    obtain ⟨l₀, hl₀, rfl, -⟩ := mem_filterOrders.mp hl
    rw [List.pairwise_filterMap]
    apply (h.increasing l₀ hl₀).imp
    intro e₁ e₂ hlt e₁' he₁ e₂' he₂
    obtain ⟨q₁, rfl⟩ := hf e₁ e₁' he₁
    obtain ⟨q₂, rfl⟩ := hf e₂ e₂' he₂
    exact hlt
  · intro e he
    rw [filter_entries] at he
    obtain ⟨e₀, he₀, hfe⟩ := List.mem_filterMap.mp he
    obtain ⟨q, rfl⟩ := hf e₀ e hfe
    exact h.bounded e₀ he₀

/-- A level gives out one more than its last order has. -/
theorem priorityAt_of_level (hk : k.Lists) (hl : l ∈ k.levels) {p : Price}
    (hslot : l.slot = priceToIndex p) :
    k.priorityAt p = (l.orders.getLast (hk.nonempty l hl)).info.priority + 1 := by
  unfold priorityAt
  rw [find_slot hk hl hslot]
  dsimp only
  rw [List.getLast?_eq_getLast_of_ne_nil (hk.nonempty l hl)]
  rfl

/-- An empty slot gives out 1. -/
theorem priorityAt_of_free (hfree : k.slotTaken e = false) : k.priorityAt e.info.price = 1 := by
  have hnone : (k.levels.find? fun l => l.slot = priceToIndex e.info.price) = none := by
    rw [List.find?_eq_none]
    intro l hl hslot
    have htaken : k.slotTaken e = true :=
      slotTaken_iff.mpr (List.mem_map.mpr ⟨l, hl, of_decide_eq_true hslot⟩)
    rw [hfree] at htaken
    cases htaken
  unfold priorityAt
  rw [hnone]

/-- In 64 bits one more is above, short of the end of the range. -/
theorem toNat_add_one {p : Priority} (hp : p.toNat ≤ n) (hn : n + 1 < 2 ^ 64) :
    (p + 1).toNat = p.toNat + 1 := by
  rw [UInt64.toNat_add, Nat.mod_eq_of_lt]
  · rfl
  · show p.toNat + 1 < 2 ^ 64
    omega

/-- What a level gives out is above what its orders have. -/
theorem Ranked.lt_priorityAt (h : k.Ranked n) (hk : k.Lists) (hn : n + 1 < 2 ^ 64) (hl : l ∈ k.levels)
    {p : Price} (hslot : l.slot = priceToIndex p) (he : e ∈ l.orders) :
    e.info.priority < k.priorityAt p := by
  have hlast := List.getLast_mem (hk.nonempty l hl)
  have hle : e.info.priority.toNat ≤ (l.orders.getLast (hk.nonempty l hl)).info.priority.toNat := by
    by_cases heq : e = l.orders.getLast (hk.nonempty l hl)
    · rw [← heq]
    · apply Nat.le_of_lt
      have hpairs := h.increasing l hl
      rw [← List.dropLast_append_getLast (hk.nonempty l hl), List.pairwise_append] at hpairs
      have hinit : e ∈ l.orders.dropLast := by
        rw [← List.dropLast_append_getLast (hk.nonempty l hl), List.mem_append,
          List.mem_singleton] at he
        exact he.resolve_right heq
      exact hpairs.2.2 e hinit _ (List.mem_singleton_self _)
  have hbound := h.bounded _ (mem_entries.mpr ⟨l, hl, hlast⟩)
  rw [priorityAt_of_level hk hl hslot, UInt64.lt_iff_toNat_lt, toNat_add_one hbound hn]
  omega

theorem Ranked.priorityAt_le (h : k.Ranked n) (hk : k.Lists) (hn : n + 1 < 2 ^ 64) (e : Entry) :
    (k.priorityAt e.info.price).toNat ≤ n + 1 := by
  cases htaken : k.slotTaken e with
  | false =>
    rw [priorityAt_of_free htaken]
    show 1 ≤ n + 1
    omega
  | true =>
    obtain ⟨l, hl, hslot⟩ := List.mem_map.mp (slotTaken_iff.mp htaken)
    have hlast := List.getLast_mem (hk.nonempty l hl)
    have hbound := h.bounded _ (mem_entries.mpr ⟨l, hl, hlast⟩)
    rw [priorityAt_of_level hk hl hslot, toNat_add_one hbound hn]
    omega

/-- A resting order goes to the end of its level, with the highest priority there. -/
theorem Ranked.rest (h : k.Ranked n) (hk : k.Lists) (hn : n + 1 < 2 ^ 64) {lp : LevelPtr}
    (hprio : e.info.priority = k.priorityAt e.info.price) : (k.rest e lp).Ranked (n + 1) := by
  constructor
  · intro l hl
    cases htaken : k.slotTaken e with
    | false =>
      rcases List.mem_cons.mp ((rest_levels_perm htaken lp).mem_iff.mp hl) with rfl | hl
      · exact List.pairwise_singleton _ _
      · exact h.increasing l hl
    | true =>
      rw [rest_levels_of_taken htaken] at hl
      obtain ⟨l₀, hl₀, rfl⟩ := mem_appendOrder.mp hl
      split
      · next hslot =>
        refine List.pairwise_append.mpr ⟨h.increasing l₀ hl₀, List.pairwise_singleton _ _, ?_⟩
        intro e' he' e'' he''
        obtain rfl := List.mem_singleton.mp he''
        rw [hprio]
        exact h.lt_priorityAt hk hn hl₀ hslot he'
      · exact h.increasing l₀ hl₀
  · intro e' he'
    rcases (mem_rest_entries hk).mp he' with rfl | he'
    · rw [hprio]
      exact h.priorityAt_le hk hn e'
    · exact Nat.le_succ_of_le (h.bounded e' he')

/-- **Step lemma**, for the events that put nothing into the book. -/
theorem Ranked.settle (h : k.Ranked n) (hset : ev.Settles) : (k.apply ev).Ranked n := by
  cases ev with
  | accepted o => exact ⟨h.increasing, h.bounded⟩
  | fill a f =>
    apply fill_rule (P := fun k => k.Ranked n)
    · intro _
      exact ⟨(h.filter (keeps_dropping _)).increasing, (h.filter (keeps_dropping _)).bounded⟩
    · exact fun _ => h.filter (keeps_requantifying _ _)
  | rest e lp q => cases hset
  | cancelled e =>
    exact ⟨(h.filter (keeps_dropping _)).increasing, (h.filter (keeps_dropping _)).bounded⟩
  | rejected c o => exact h

theorem Ranked.settleAll {evs : List Event} (h : k.Ranked n) (hset : ∀ ev ∈ evs, ev.Settles) :
    (k.applyAll evs).Ranked n := by
  have hall : k.Along (fun _ ev => ev.Settles) evs := Along.of_forall fun ev hev _ => hset ev hev
  exact hall.induction (I := fun k => k.Ranked n) (fun _ _ h hset => h.settle hset) h

/-- **Step lemma**, for a request: it puts in one order at most, and only if it is a `NEW`. -/
theorem Ranked.request (h : k.Ranked n) (hk : k.WF) (hpos : k.Positive) (hr : r.Valid)
    (hn : n + (newRequests [r]).length < 2 ^ 64) :
    (k.applyAll (k.events cells r)).Ranked (n + (newRequests [r]).length) := by
  rcases hr with ⟨hnew, -⟩ | hcancel
  · have hone : (newRequests [r]).length = 1 := by simp [newRequests, hnew]
    rw [hone] at hn ⊢
    have hmatched := h.settleAll (matchEvents_settle k r)
    have hk₁ : (k.applyAll (k.matchEvents r)).WF := applyAll_wf hk (matchEvents_ok hk hpos r)
    cases hrem : k.remainder cells r with
    | none =>
      rw [events_of_used_up hnew hrem]
      exact ⟨hmatched.increasing, fun e he => Nat.le_succ_of_le (hmatched.bounded e he)⟩
    | some e =>
      rw [events_of_rest hnew hrem, applyAll_append]
      apply hmatched.rest hk₁.toLists hn
      obtain ⟨-, -, hinfo⟩ := remainder_eq_some hrem
      rw [hinfo]
      rfl
  · have hnone : (newRequests [r]).length = 0 := by simp [newRequests, hcancel]
    rw [hnone]
    apply h.settleAll
    apply events_settle
    rw [hcancel]
    decide

end Book

/-! ## The pointers -/

/-- Following `next` from `head` visits the nodes of `l`, each once, and then comes back to the head;
`prev` is the inverse of `next` on them. -/
structure Visits {α : Type} (next prev : α → Option α) (head : Option α) (l : List α) : Prop where
  head : head = l.head?
  once : l.Nodup
  circle : Circular next prev l

namespace MEOrderBook

/-- The orders of a level, from `orders_head_` along `next_order_`. -/
def orderPtrs (b : MEOrderBook) (p : LevelPtr) : List OrderPtr :=
  readCircle (fun o => (b.order o).nextOrder) b.ordersPool.numCells (b.level p).ordersHead

/-- The levels of both sides, from their heads along `next_`. -/
def allLevels (b : MEOrderBook) : List LevelPtr :=
  b.levelPtrs b.bidsByPrice ++ b.levelPtrs b.asksByPrice

/-- The structure of a level: a circle of orders to trade, of its side and price, the priorities
growing from the head on. -/
structure LevelLinked (b : MEOrderBook) (p : LevelPtr) : Prop where
  ring : Visits (fun o => (b.order o).nextOrder) (fun o => (b.order o).prevOrder)
    (b.level p).ordersHead (b.orderPtrs p)
  nonempty : b.orderPtrs p ≠ []
  positive : ∀ o ∈ b.orderPtrs p, 0 < (b.order o).qty
  own : ∀ o ∈ b.orderPtrs p,
    (b.order o).side = (b.level p).side ∧ (b.order o).price = (b.level p).price
  increasing : (b.orderPtrs p).Pairwise fun o o' => (b.order o).priority < (b.order o').priority

/-- The structure of the book. The live cells of the two pools are those met along the lists. -/
structure WellLinked (b : MEOrderBook) : Prop where
  bids : Visits (fun p => (b.level p).next) (fun p => (b.level p).prev) b.bidsByPrice
    (b.levelPtrs b.bidsByPrice)
  bidsSide : ∀ p ∈ b.levelPtrs b.bidsByPrice, (b.level p).side = .buy
  bidsSorted : (b.levelPtrs b.bidsByPrice).Pairwise fun p q => (b.level q).price < (b.level p).price
  asks : Visits (fun p => (b.level p).next) (fun p => (b.level p).prev) b.asksByPrice
    (b.levelPtrs b.asksByPrice)
  asksSide : ∀ p ∈ b.levelPtrs b.asksByPrice, (b.level p).side = .sell
  asksSorted : (b.levelPtrs b.asksByPrice).Pairwise fun p q => (b.level p).price < (b.level q).price
  levels : ∀ p, b.ordersAtPricePool.Live p ↔ p ∈ b.allLevels
  level : ∀ p ∈ b.allLevels, b.LevelLinked p
  orders : ∀ o, b.ordersPool.Live o ↔ ∃ p ∈ b.allLevels, o ∈ b.orderPtrs p
  table : ∀ i p, b.priceToOrdersAtPrice i = some p ↔
    p ∈ b.allLevels ∧ priceToIndex (b.level p).price = i
  ids : ∀ c id o, b.cidOidToOrder c id = some o ↔
    (∃ p ∈ b.allLevels, o ∈ b.orderPtrs p) ∧ (b.order o).clientId = c ∧
      (b.order o).clientOrderId = id
  uncrossed : ∀ p ∈ b.bidsByPrice, ∀ q ∈ b.asksByPrice, (b.level p).price < (b.level q).price

/-- Wherever a new level of one of the two sides belongs, the walk through the list of the side
ends. -/
def WalkEnds (b : MEOrderBook) : Prop :=
  ∀ (new : MEOrdersAtPrice) (head : LevelPtr), b.levelsHead new.side = some head →
    ∃ spot, b.findSpot new head = .ok spot

end MEOrderBook

namespace Holds

variable {b : MEOrderBook} {k : Book} {s : Side} {l : Level} {n : Nat}

theorem allLevels_eq (h : Rep b k) (hk : k.Lists) : b.allLevels = k.levels.map Level.ptr := by
  unfold MEOrderBook.allLevels Book.levels
  rw [List.map_append]
  exact congrArg₂ _ (levelPtrs_eq h hk .buy) (levelPtrs_eq h hk .sell)

theorem orderPtrs_eq (h : Rep b k) (hk : k.Lists) (hl : l ∈ k.levels) :
    b.orderPtrs l.ptr = l.orders.map Entry.ptr :=
  readLevel_eq h hk hl

/-- The circle of a side. -/
theorem visits_side (h : Rep b k) (hk : k.Lists) (s : Side) :
    Visits (fun p => (b.level p).next) (fun p => (b.level p).prev) (b.levelsHead s)
      (b.levelPtrs (b.levelsHead s)) := by
  rw [levelPtrs_eq h hk]
  exact ⟨(h.side s).head, hk.side_ptrs_nodup s, (h.side s).ring⟩

/-- An order is met along its level. -/
theorem exists_orderPtrs_iff (h : Rep b k) (hk : k.Lists) {o : OrderPtr} :
    (∃ p ∈ b.allLevels, o ∈ b.orderPtrs p) ↔ o ∈ k.entries.map Entry.ptr := by
  rw [allLevels_eq h hk]
  constructor
  · rintro ⟨p, hp, ho⟩
    obtain ⟨l, hl, rfl⟩ := List.mem_map.mp hp
    rw [orderPtrs_eq h hk hl] at ho
    obtain ⟨e, he, rfl⟩ := List.mem_map.mp ho
    exact List.mem_map_of_mem (Book.mem_entries.mpr ⟨l, hl, he⟩)
  · intro ho
    obtain ⟨e, he, rfl⟩ := List.mem_map.mp ho
    obtain ⟨l, hl, hel⟩ := Book.mem_entries.mp he
    refine ⟨l.ptr, List.mem_map_of_mem hl, ?_⟩
    rw [orderPtrs_eq h hk hl]
    exact List.mem_map_of_mem hel

theorem levelLinked (h : Rep b k) (hk : k.Lists) (hpos : k.Positive) (hlegal : k.Legal)
    (hranked : k.Ranked n) (hl : l ∈ k.levels) : b.LevelLinked l.ptr := by
  have hrep := h.levelRep hl
  have hptrs := orderPtrs_eq h hk hl
  have hinfo : ∀ e ∈ l.orders, (b.order e.ptr).toOrderInfo = e.info := hrep.info
  refine ⟨?_, ?_, ?_, ?_, ?_⟩
  · rw [hptrs]
    exact ⟨hrep.head_eq, hk.ptrs_nodup hl, hrep.ring⟩
  · rw [hptrs, Ne, List.map_eq_nil_iff]
    exact hk.nonempty l hl
  · intro o ho
    rw [hptrs] at ho
    obtain ⟨e, he, rfl⟩ := List.mem_map.mp ho
    rw [hinfo e he]
    exact hpos e (Book.mem_entries.mpr ⟨l, hl, he⟩)
  · intro o ho
    rw [hptrs] at ho
    obtain ⟨e, he, rfl⟩ := List.mem_map.mp ho
    rw [hinfo e he, show (b.level l.ptr).side = l.side from hrep.side_eq,
      show (b.level l.ptr).price = l.price from hrep.price_eq]
    exact hlegal.own l hl e he
  · rw [hptrs, List.pairwise_map]
    apply (hranked.increasing l hl).imp_of_mem
    intro e e' he he' hlt
    rw [hinfo e he, hinfo e' he']
    exact hlt

theorem level_eq (h : Rep b k) (hl : l ∈ k.levels) :
    (b.level l.ptr).side = l.side ∧ (b.level l.ptr).price = l.price :=
  ⟨(h.levelRep hl).side_eq, (h.levelRep hl).price_eq⟩

/-- The levels of a side are the side's, and sorted. -/
theorem side_sorted (h : Rep b k) (hk : k.Lists) (hs : s = .buy ∨ s = .sell) :
    (∀ p ∈ b.levelPtrs (b.levelsHead s), (b.level p).side = s) ∧
      (b.levelPtrs (b.levelsHead s)).Pairwise fun p q =>
        behind s (b.level q).price (b.level p).price := by
  rw [levelPtrs_eq h hk]
  constructor
  · intro p hp
    obtain ⟨l, hl, rfl⟩ := List.mem_map.mp hp
    rw [(level_eq h (Book.mem_levels_of_mem_side hl)).1]
    exact hk.side_of_mem hs hl
  · rw [List.pairwise_map]
    apply (hk.sorted hs).imp_of_mem
    intro l l' hl hl' hb
    rw [(level_eq h (Book.mem_levels_of_mem_side hl)).2,
      (level_eq h (Book.mem_levels_of_mem_side hl')).2]
    exact hb

theorem table_iff (h : Rep b k) (hk : k.Lists) (i : Price) (p : LevelPtr) :
    b.priceToOrdersAtPrice i = some p ↔
      p ∈ b.allLevels ∧ priceToIndex (b.level p).price = i := by
  rw [h.table, allLevels_eq h hk, List.mem_map]
  constructor
  · rintro ⟨l, hl, hslot, rfl⟩
    refine ⟨⟨l, hl, rfl⟩, ?_⟩
    rw [(level_eq h hl).2]
    exact hslot
  · rintro ⟨⟨l, hl, rfl⟩, hslot⟩
    refine ⟨l, hl, ?_, rfl⟩
    rw [(level_eq h hl).2] at hslot
    exact hslot

/-- The id table has the resting orders and nothing else, if it names them all. -/
theorem ids_iff (h : Rep b k) (hk : k.WF)
    (hnamed : ∀ e ∈ k.entries, k.cidOidToOrder e.info.clientId e.info.clientOrderId = some e.ptr)
    (c : ClientId) (id : OrderId) (o : OrderPtr) :
    b.cidOidToOrder c id = some o ↔
      (∃ p ∈ b.allLevels, o ∈ b.orderPtrs p) ∧ (b.order o).clientId = c ∧
        (b.order o).clientOrderId = id := by
  rw [exists_orderPtrs_iff h hk.toLists, h.cid]
  constructor
  · intro ho
    obtain ⟨e, he, rfl, rfl, rfl⟩ := hk.table c id o ho
    rw [h.order_eq he]
    exact ⟨List.mem_map_of_mem he, rfl, rfl⟩
  · rintro ⟨ho, rfl, rfl⟩
    obtain ⟨e, he, rfl⟩ := List.mem_map.mp ho
    rw [h.order_eq he]
    exact hnamed e he

/-- **A book that is represented, legal and ranked is linked as it should be.** -/
theorem wellLinked (h : Rep b k) (hk : k.WF) (hpos : k.Positive) (hlegal : k.Legal)
    (hranked : k.Ranked n)
    (hnamed : ∀ e ∈ k.entries, k.cidOidToOrder e.info.clientId e.info.clientOrderId = some e.ptr) :
    b.WellLinked := by
  have hlists := hk.toLists
  obtain ⟨hbuy, hbids⟩ := side_sorted h hlists (Or.inl rfl)
  obtain ⟨hsell, hasks⟩ := side_sorted h hlists (Or.inr rfl)
  refine ⟨visits_side h hlists .buy, hbuy, ?_, visits_side h hlists .sell, hsell, ?_, ?_, ?_, ?_,
    table_iff h hlists, ids_iff h hk hnamed, ?_⟩
  · exact hbids.imp fun hb => Book.behind_iff_buy.mp hb
  · exact hasks.imp fun hb => Book.behind_iff_sell.mp hb
  · intro p
    rw [h.levelLive, allLevels_eq h hlists]
    simp
  · intro p hp
    rw [allLevels_eq h hlists] at hp
    obtain ⟨l, hl, rfl⟩ := List.mem_map.mp hp
    exact levelLinked h hlists hpos hlegal hranked hl
  · intro o
    rw [h.orderLive, exists_orderPtrs_iff h hlists]
    simp
  · -- the heads are the first levels of the two sides
    intro p hp q hq
    have hbid : p ∈ (k.bids.map Level.ptr).head? := (h.side .buy).head ▸ hp
    have hask : q ∈ (k.asks.map Level.ptr).head? := (h.side .sell).head ▸ hq
    obtain ⟨l, hl, rfl⟩ := List.mem_map.mp (List.mem_of_head? hbid)
    obtain ⟨l', hl', rfl⟩ := List.mem_map.mp (List.mem_of_head? hask)
    rw [(level_eq h (List.mem_append_left _ hl)).2, (level_eq h (List.mem_append_right _ hl')).2]
    exact hlegal.uncrossed l hl l' hl'

/-- The walk ends for every new level, by `findSpot_spec`. -/
theorem walkEnds (h : Rep b k) (hk : k.Lists) : b.WalkEnds := by
  intro new head hhead
  have hside := h.side new.side
  rw [hside.head] at hhead
  cases hlevels : k.side new.side with
  | nil =>
    rw [hlevels] at hhead
    cases hhead
  | cons l rest =>
    rw [hlevels] at hhead hside
    obtain rfl : l.ptr = head := Option.some.inj hhead
    have hmem : ∀ l' ∈ l :: rest, l' ∈ k.levels := fun l' hl' =>
      Book.mem_levels_of_mem_side (by rw [hlevels]; exact hl')
    have hnd := hk.side_ptrs_nodup new.side
    rw [hlevels] at hnd
    have hlen : (l :: rest).length ≤ b.ordersAtPricePool.numCells := by
      have hle := h.levels_length_le hk
      have hsub : (l :: rest).length ≤ k.levels.length := by
        rw [← hlevels]
        unfold Book.side Book.levels
        split <;> simp
      omega
    exact ⟨_, MEOrderBook.findSpot_spec new hside.ring hnd
      (fun l' hl' => (level_eq h (hmem l' hl')).2) hlen⟩

end Holds

/-! ## Runs -/

variable {ticker : TickerId} {lo : Nat} {rs : List MEClientRequest}

/-- **The order book is linked as it should be after every run** of admissible requests with fewer
than `2 ^ 64` `NEW` requests, and every such run goes through. -/
theorem processAll_wellLinked
    (h : ∀ pre r post, rs = pre ++ r :: post → Admissible ticker lo pre r)
    (hcount : (newRequests rs).length < 2 ^ 64) :
    ∃ b, (MEOrderBook.init ticker).processAll rs = .ok b ∧ b.WellLinked ∧ b.WalkEnds := by
  obtain ⟨b, -, -, hrun, -, -⟩ := exists_agrees h
  have hvalid : ∀ r ∈ rs, r.Valid := by
    intro r hr
    obtain ⟨pre, post, hrs⟩ := List.append_of_mem hr
    exact (h pre r post hrs).valid
  obtain ⟨k, evs, hreached, hagrees, hranked⟩ := MEOrderBook.run_rule
    (fun rs k evs => Agrees ticker lo rs k evs ∧
      ((newRequests rs).length < 2 ^ 64 → k.Ranked (newRequests rs).length))
    (fun pre _ r => Admissible ticker lo pre r)
    ⟨agrees_init ticker lo, fun _ => Book.ranked_init ticker⟩
    (fun rs b k evs cells r hreached hI hr hadm hok => by
      refine ⟨hI.1.step hreached hadm hok, ?_⟩
      intro hcount
      rw [newRequests_append, List.length_append] at hcount ⊢
      exact (hI.2 (by omega)).request hreached.wf hreached.positive hr hcount)
    hvalid (fun pre r post _ hrs _ => h pre r post hrs) hrun
  exact ⟨b, hrun, Holds.wellLinked hreached.rep hreached.wf hreached.positive hagrees.sim.legal
    (hranked hcount) hagrees.sim.table, Holds.walkEnds hreached.rep hreached.wf.toLists⟩

/-- Two buy orders of one price, and a sell order that takes the older one and a part of the other. -/
theorem processAll_wellLinked_three_orders :
    ∃ b, (MEOrderBook.init 0).processAll [
        { type := .new, clientId := 1, tickerId := 0, orderId := 1, side := .buy, price := 100,
          qty := 5 },
        { type := .new, clientId := 2, tickerId := 0, orderId := 1, side := .buy, price := 100,
          qty := 5 },
        { type := .new, clientId := 1, tickerId := 0, orderId := 2, side := .sell, price := 100,
          qty := 7 }] = .ok b ∧ b.WellLinked ∧ b.WalkEnds := by
  let rs : List MEClientRequest := [
    { type := .new, clientId := 1, tickerId := 0, orderId := 1, side := .buy, price := 100,
      qty := 5 },
    { type := .new, clientId := 2, tickerId := 0, orderId := 1, side := .buy, price := 100,
      qty := 5 },
    { type := .new, clientId := 1, tickerId := 0, orderId := 2, side := .sell, price := 100,
      qty := 7 }]
  have hadm : ∀ i (hi : i < rs.length), Admissible 0 100 (rs.take i) rs[i] := by decide +kernel
  have hsplit : ∀ pre r post, rs = pre ++ r :: post → Admissible 0 100 pre r := by
    intro pre r post hrs
    have hi : pre.length < rs.length := by simp [hrs]
    have := hadm pre.length hi
    simpa [hrs] using this
  exact processAll_wellLinked hsplit (by decide)

/-! ## The end of the range of priorities

Two orders that take turns keep a level alive, and each one that comes has a priority one higher. The
`2 ^ 64`-th has priority 0. -/

open Reference (run process Order)

/-- The client's order ids, in turns. -/
def turn (n : Nat) : OrderId := if n % 2 = 0 then 0 else 1

def turnOrder (n : Nat) : MEClientRequest :=
  { type := .new, clientId := 0, tickerId := 0, orderId := turn n, side := .buy, price := 100,
    qty := 1 }

def turnCancel (n : Nat) : MEClientRequest :=
  { type := .cancel, clientId := 0, tickerId := 0, orderId := turn n }

def turns : Nat → List MEClientRequest
  | 0 => [turnOrder 0]
  | n + 1 => turns n ++ [turnOrder (n + 1)] ++ [turnCancel n]

/-- The order that rests after `n` turns. -/
def turnResting (n : Nat) : Order := ⟨0, turn n, UInt64.ofNat (n + 1), .buy, 100, 1⟩

theorem turn_succ_ne (n : Nat) : turn (n + 1) ≠ turn n := by
  unfold turn
  rcases Nat.mod_two_eq_zero_or_one n with h | h
  · rw [if_pos h, if_neg (by omega)]
    decide
  · rw [if_neg (by omega : ¬ n % 2 = 0), if_pos (by omega)]
    decide

theorem process_turnOrder (m n : Nat) (id : OrderId) :
    (process 0 ⟨[turnResting m], id⟩ (turnOrder n)).1 =
      ⟨[turnResting m, ⟨0, turn n, id, .buy, 100, 1⟩], id + 1⟩ := rfl

theorem process_turnCancel (n : Nat) (id : OrderId) :
    (process 0 ⟨[turnResting n, turnResting (n + 1)], id⟩ (turnCancel n)).1 =
      ⟨[turnResting (n + 1)], id⟩ := by
  have hne := turn_succ_ne n
  simp [process, turnCancel, turnResting, Order.Named, Reference.withdraw, hne]

theorem run_turns (n : Nat) :
    (run 0 (turns n)).1 = ⟨[turnResting n], UInt64.ofNat (n + 2)⟩ := by
  induction n with
  | zero => rfl
  | succ n ih =>
    have hid : UInt64.ofNat (n + 2) + 1 = UInt64.ofNat (n + 3) := by
      rw [UInt64.ofNat_add (n + 2) 1]
      rfl
    rw [turns, Reference.run_concat, Reference.run_concat, ih]
    dsimp only
    rw [process_turnOrder, hid]
    exact process_turnCancel n _

theorem run_turns_order (n : Nat) :
    (run 0 (turns n ++ [turnOrder (n + 1)])).1 =
      ⟨[turnResting n, turnResting (n + 1)], UInt64.ofNat (n + 3)⟩ := by
  have hid : UInt64.ofNat (n + 2) + 1 = UInt64.ofNat (n + 3) := by
    rw [UInt64.ofNat_add (n + 2) 1]
    rfl
  rw [Reference.run_concat, run_turns]
  dsimp only
  rw [process_turnOrder, hid]
  rfl

theorem turnOrder_admissible (n : Nat) : Admissible 0 100 (turns n) (turnOrder (n + 1)) := by
  have hne := turn_succ_ne n
  have hwindow : Windowed 100 100 := by decide
  refine ⟨Or.inl ⟨rfl, Or.inl rfl, ?_⟩, fun _ => hwindow, ?_, ?_⟩
  · show MEOrderBook.inTable 0 (turn (n + 1)) = true
    unfold turn
    split <;> decide
  · intro _ o ho hnamed
    rw [run_turns, List.mem_singleton] at ho
    rw [ho] at hnamed
    exact hne hnamed.2.symm
  · rw [run_turns_order]
    show 2 < meMaxOrderIds
    decide

theorem turnCancel_admissible (n : Nat) :
    Admissible 0 100 (turns n ++ [turnOrder (n + 1)]) (turnCancel n) := by
  have hnot : (turnCancel n).type ≠ .new := nofun
  refine ⟨Or.inr rfl, fun hnew => absurd hnew hnot, fun hnew => absurd hnew hnot, ?_⟩
  have hrun := run_turns (n + 1)
  rw [turns] at hrun
  rw [hrun]
  show 1 < meMaxOrderIds
  decide

theorem admissible_concat {r : MEClientRequest}
    (h : ∀ pre r post, rs = pre ++ r :: post → Admissible ticker lo pre r)
    (hr : Admissible ticker lo rs r) :
    ∀ pre r' post, rs ++ [r] = pre ++ r' :: post → Admissible ticker lo pre r' := by
  intro pre r' post hrs
  rcases List.eq_nil_or_concat post with rfl | ⟨post, r'', rfl⟩
  · obtain ⟨rfl, hrr⟩ := List.append_inj' hrs rfl
    obtain rfl := (List.cons.inj hrr).1
    exact hr
  · rw [List.concat_eq_append, ← List.cons_append, ← List.append_assoc] at hrs
    exact h pre r' post (List.append_inj' hrs rfl).1

theorem turns_admissible (n : Nat) :
    ∀ pre r post, turns n = pre ++ r :: post → Admissible 0 100 pre r := by
  induction n with
  | zero =>
    have hnone : ∀ pre r post, [] = pre ++ r :: post → Admissible 0 100 pre r := by
      intro pre r post hnil
      simp at hnil
    exact admissible_concat hnone (by decide +kernel)
  | succ n ih =>
    exact admissible_concat (admissible_concat ih (turnOrder_admissible n)) (turnCancel_admissible n)

variable {k : Book} {evs : List Event} {n : Nat}

/-- After some turns one order rests. -/
theorem entries_turns (h : Agrees 0 100 (turns n) k evs) :
    ∃ e, k.entries = [e] ∧ e.info.toOrder = turnResting n := by
  have hperm := h.sim.perm
  rw [run_turns] at hperm
  obtain ⟨e, he⟩ := List.length_eq_one_iff.mp (by simpa using hperm.length_eq)
  rw [he] at hperm
  exact ⟨e, he, List.singleton_perm_singleton.mp hperm⟩

/-- The order that joins the one resting after some turns has a priority one higher, and the two are a
level. -/
theorem events_turnOrder (hk : k.WF) (h : Agrees 0 100 (turns n) k evs) (cells : Book.Cells) :
    ∃ e e', k.entries = [e] ∧ e.info.clientOrderId = turn n ∧
      e'.info.priority = e.info.priority + 1 ∧
      (∀ e'' ∈ (k.applyAll (k.events cells (turnOrder (n + 1)))).entries, e'' = e' ∨ e'' = e) ∧
      ∃ l ∈ (k.applyAll (k.events cells (turnOrder (n + 1)))).levels, l.orders = [e, e'] := by
  obtain ⟨e, hentries, horder⟩ := entries_turns h
  have hside : e.info.side = .buy := congrArg Order.side horder
  have hprice : e.info.price = 100 := congrArg Order.price horder
  obtain ⟨l, hl, hel⟩ := Book.mem_entries.mp (hentries ▸ List.mem_singleton_self e)
  have hsub : l.orders.Sublist [e] := by
    rw [← hentries]
    exact List.sublist_flatten_of_mem (List.mem_map_of_mem hl)
  have horders : l.orders = [e] :=
    (List.sublist_singleton.mp hsub).resolve_left (hk.nonempty l hl)
  have hslot : l.slot = priceToIndex 100 := by
    rw [← hk.slot_eq l hl e hel, ← hprice]
    rfl
  -- nothing is asked for
  have hqueue : k.queue .buy = [] := by
    rw [List.eq_nil_iff_forall_not_mem]
    intro e₀ he₀
    obtain ⟨l₀, hl₀, he₀l₀⟩ := mem_levelOrders.mp he₀
    have hmem : e₀ ∈ k.entries := Book.mem_entries_of_mem_queue he₀
    rw [hentries, List.mem_singleton] at hmem
    have hown := (h.sim.legal.own l₀ (List.mem_append_right _ hl₀) e₀ he₀l₀).1
    rw [hmem, hside, hk.asks_side l₀ hl₀] at hown
    cases hown
  obtain ⟨k₁, hk₁⟩ : ∃ k₁ : Book, k₁ = k.apply (.accepted (k.incoming (turnOrder (n + 1)))) := ⟨_, rfl⟩
  have hlists₁ : k₁.Lists := by
    have haccepted : Event.Ok k (.accepted (k.incoming (turnOrder (n + 1)))) := trivial
    rw [hk₁]
    exact (Book.apply_wf hk haccepted).toLists
  have hlevels₁ : k₁.levels = k.levels := by
    rw [hk₁]
    rfl
  obtain ⟨e', he'⟩ : ∃ e' : Entry, e' = { ptr := cells.order, info := {
      k.incoming (turnOrder (n + 1)) with qty := 1, priority := k₁.priorityAt 100 } } := ⟨_, rfl⟩
  have hevents : k.events cells (turnOrder (n + 1)) =
      [.accepted (k.incoming (turnOrder (n + 1))), .rest e' cells.level 1] := by
    have hmatch : k.matchEvents (turnOrder (n + 1)) =
        [.accepted (k.incoming (turnOrder (n + 1)))] := by
      unfold Book.matchEvents
      rw [show (turnOrder (n + 1)).side = .buy from rfl, hqueue]
      rfl
    have hrem : k.remainder cells (turnOrder (n + 1)) = some e' := by
      unfold Book.remainder
      rw [hmatch, show (turnOrder (n + 1)).side = .buy from rfl, hqueue, he', hk₁]
      rfl
    unfold Book.events
    rw [show (turnOrder (n + 1)).type = .new from rfl]
    dsimp only
    rw [hmatch, hrem]
    rfl
  have happly : k.applyAll (k.events cells (turnOrder (n + 1))) = k₁.rest e' cells.level := by
    rw [hevents, hk₁]
    rfl
  have hslot' : e'.slot = priceToIndex 100 := by
    rw [he']
    rfl
  have htaken : k₁.slotTaken e' = true := by
    rw [Book.slotTaken_iff, hlevels₁, hslot', ← hslot]
    exact List.mem_map_of_mem hl
  refine ⟨e, e', hentries, congrArg Order.clientOrderId horder, ?_, ?_, ?_⟩
  · have hprio := Book.priorityAt_of_level hlists₁ (hlevels₁ ▸ hl) hslot
    simp only [horders, List.getLast_singleton] at hprio
    rw [he']
    exact hprio
  · intro e'' he''
    rw [happly] at he''
    have hmem := (Book.mem_rest_entries hlists₁).mp he''
    rw [show k₁.entries = k.entries by rw [hk₁]; rfl, hentries, List.mem_singleton] at hmem
    exact hmem
  · refine ⟨{ l with orders := l.orders ++ [e'] }, ?_, by rw [horders]; rfl⟩
    rw [happly, Book.rest_levels_of_taken htaken, hlevels₁]
    exact Book.mem_appendOrder.mpr ⟨l, hl, by rw [if_pos (hslot.trans hslot'.symm)]⟩

/-- The order that rests after `n` turns has priority `n + 1`. -/
theorem priority_turns (n : Nat) :
    ∃ b k evs, (MEOrderBook.init 0).processAll (turns n) = .ok b ∧
      MEOrderBook.Reached 0 b k evs ∧ Agrees 0 100 (turns n) k evs ∧
      ∀ e ∈ k.entries, e.info.priority = UInt64.ofNat (n + 1) := by
  induction n with
  | zero =>
    have hadm : Admissible 0 100 [] (turnOrder 0) := by decide +kernel
    obtain ⟨cells, b, hok, -, hreached, hagrees⟩ :=
      (agrees_init 0 100).next (MEOrderBook.reached_init 0) hadm
    have hrun : (MEOrderBook.init 0).processAll ([] ++ [turnOrder 0]) = .ok b :=
      foldlM_concat_eq_ok.mpr ⟨_, rfl, hok⟩
    refine ⟨b, _, _, hrun, hreached, hagrees, ?_⟩
    intro e he
    obtain rfl : e = _ := List.mem_singleton.mp he
    rfl
  | succ n ih =>
    obtain ⟨b, k, evs, hrun, hreached, hagrees, hprio⟩ := ih
    obtain ⟨cells, b₁, hok₁, -, hreached₁, hagrees₁⟩ :=
      hagrees.next hreached (turnOrder_admissible n)
    obtain ⟨cells', b₂, hok₂, hevs₂, hreached₂, hagrees₂⟩ :=
      hagrees₁.next hreached₁ (turnCancel_admissible n)
    obtain ⟨e, e', hentries, hturn, hnext, hmem, -⟩ := events_turnOrder hreached.wf hagrees cells
    refine ⟨b₂, _, _, ?_, hreached₂, hagrees₂, ?_⟩
    · exact foldlM_concat_eq_ok.mpr ⟨b₁, foldlM_concat_eq_ok.mpr ⟨b, hrun, hok₁⟩, hok₂⟩
    · intro e₂ he₂
      obtain ⟨e₂', he₂', horder⟩ : ∃ e, Book.entries _ = [e] ∧
          e.info.toOrder = turnResting (n + 1) := entries_turns hagrees₂
      have heq : e₂ = e₂' := by rwa [he₂', List.mem_singleton] at he₂
      rw [← heq] at horder
      rcases Book.mem_events_entries hreached₁.wf (Or.inr rfl) hevs₂ he₂ with
        ⟨e₁, he₁, q, rfl⟩ | ⟨hnew, -⟩
      · rcases hmem e₁ he₁ with rfl | rfl
        · show e₁.info.priority = _
          rw [hnext, hprio e (hentries ▸ List.mem_singleton_self e), UInt64.ofNat_add (n + 1) 1]
          rfl
        · -- the older order was cancelled
          have hid : e₁.info.clientOrderId = turn (n + 1) := congrArg Order.clientOrderId horder
          exact absurd (hid.symm.trans hturn) (turn_succ_ne n)
      · cases hnew

/-- The priorities of a well-linked book grow along its levels. -/
theorem Holds.increasing {b : MEOrderBook} {l : Level} (h : Rep b k) (hk : k.Lists)
    (hlinked : b.WellLinked) (hl : l ∈ k.levels) :
    l.orders.Pairwise fun e e' => e.info.priority < e'.info.priority := by
  have hmem : l.ptr ∈ b.allLevels := by
    rw [Holds.allLevels_eq h hk]
    exact List.mem_map_of_mem hl
  have hpairs := (hlinked.level l.ptr hmem).increasing
  rw [Holds.orderPtrs_eq h hk hl, List.pairwise_map] at hpairs
  apply hpairs.imp_of_mem
  intro e e' he he' hlt
  have hinfo : ∀ e ∈ l.orders, (b.order e.ptr).toOrderInfo = e.info := (h.levelRep hl).info
  rwa [hinfo e he, hinfo e' he'] at hlt

/-- `2 ^ 64` orders, each at the end of the level that the one before it keeps alive: the last has
priority 0, behind one of priority `2 ^ 64 - 1`. -/
theorem not_wellLinked_of_priority_end :
    ¬ ∀ (ticker : TickerId) (lo : Nat) (rs : List MEClientRequest),
      (∀ pre r post, rs = pre ++ r :: post → Admissible ticker lo pre r) →
      ∃ b, (MEOrderBook.init ticker).processAll rs = .ok b ∧ b.WellLinked ∧ b.WalkEnds := by
  intro hall
  obtain ⟨n, hn⟩ : ∃ n : Nat, n = 2 ^ 64 - 2 := ⟨_, rfl⟩
  obtain ⟨b, k, evs, hrun, hreached, hagrees, hprio⟩ := priority_turns n
  obtain ⟨cells, b', hok, -, hreached', -⟩ := hagrees.next hreached (turnOrder_admissible n)
  obtain ⟨b'', hrun'', hlinked, -⟩ := hall 0 100 (turns n ++ [turnOrder (n + 1)])
    (admissible_concat (turns_admissible n) (turnOrder_admissible n))
  have hrun' : (MEOrderBook.init 0).processAll (turns n ++ [turnOrder (n + 1)]) = .ok b' :=
    foldlM_concat_eq_ok.mpr ⟨b, hrun, hok⟩
  obtain rfl := Except.ok.inj (hrun'.symm.trans hrun'')
  obtain ⟨e, e', hentries, -, hnext, -, l, hl, horders⟩ :=
    events_turnOrder hreached.wf hagrees cells
  have hpairs := Holds.increasing hreached'.rep hreached'.wf.toLists hlinked hl
  rw [horders, List.pairwise_cons] at hpairs
  have hlt := hpairs.1 e' (List.mem_singleton_self e')
  rw [hnext, hprio e (hentries ▸ List.mem_singleton_self e), hn] at hlt
  exact absurd hlt (by decide)

end TradingSystem
