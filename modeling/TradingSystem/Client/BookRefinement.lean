import TradingSystem.Exchange.Refinement
import TradingSystem.Client.BookSimulation

/-!
# What an update does to the client's book

Seen as a book of the exchange, the client's book is one of lists again: an `ADD` is `Book.rest`, a
`MODIFY` of an id in the table `Book.setQty`, a `CANCEL` of one `Book.remove`, and an id that is not in
the table does nothing. The quote of a side is then that of its first level, if the update was found to
matter to it, and what it was otherwise (`onMarketUpdate_spec`).
-/

namespace TradingSystem.Client

open TradingSystem.MEOrderBook (priceToIndex)

/-- The client's book `b` holds the lists `k`. -/
abbrev Shows (b : MarketOrderBook) (k : Book) : Prop := Rep b.toExchange k

/-- The price of the first level of a side and the quantity in it. -/
def best : List Level → Price × Qty
  | [] => (priceInvalid, qtyInvalid)
  | l :: _ => (l.price, (l.orders.map fun e => e.info.qty).sum)

/-- The order of an `ADD`, as the exchange would keep it. -/
def added (tickerId : TickerId) (u : MEMarketUpdate) : OrderInfo :=
  { tickerId := tickerId, clientId := 0, clientOrderId := u.orderId, marketOrderId := u.orderId
    side := u.side, price := u.price, qty := u.qty, priority := u.priority }

/-- The order of an `ADD` would leave a pool without a free cell. -/
def Full (k : Book) (u : MEMarketUpdate) : Prop :=
  meMaxOrderIds ≤ k.entries.length + 1 ∨
    meMaxPriceLevels ≤ k.levels.length + 1 ∧ priceToIndex u.price ∉ k.levels.map Level.slot

/-- The update is one of this side, at a price that is not behind the side's best. -/
def touches (k : Book) (u : MEMarketUpdate) (s : Side) : Bool :=
  match k.side s with
  | [] => false
  | l :: _ => u.side = s && !behind s u.price l.price

namespace MarketOrderBook

variable {b b' : MarketOrderBook} {k : Book} {e : Entry} {l : Level} {s : Side} {u : MEMarketUpdate}

/-- What the book says of a side to those who ask for its prices. -/
def quote (b : MarketOrderBook) (s : Side) : Price × Qty :=
  if s = .buy then (b.bbo.bidPrice, b.bbo.bidQty) else (b.bbo.askPrice, b.bbo.askQty)

theorem shows_init (tickerId : TickerId) : Shows (init tickerId) (Book.init tickerId) := by
  have h := rep_init tickerId
  have hside : ∀ s, (Book.init tickerId).side s = [] := by
    intro s
    unfold Book.side
    split <;> rfl
  unfold Shows
  rw [toExchange_init]
  refine ⟨h.ticker, h.nextOrderId, h.cid, ?_, h.table, h.levelReady, h.levelCells, h.levelLive,
    MemPool.ready_init (by decide) _, rfl, ?_⟩
  · intro s
    refine (h.side s).congr (fun _ _ => rfl) ?_
    rw [hside]
    simp
  · simp [Book.init, Book.entries, Book.levels]

/-- An order of the book is known under one id. -/
theorem ids_eq (h : Shows b k) (he : e ∈ k.entries) :
    e.info.clientId = 0 ∧ e.info.clientOrderId = e.info.marketOrderId := by
  have hinfo := h.order_eq he
  rw [← hinfo]
  exact ⟨rfl, rfl⟩

theorem oidToOrder_eq (h : Shows b k) (id : OrderId) : b.oidToOrder id = k.cidOidToOrder 0 id := by
  rw [← h.cid]
  rfl

/-! ## The three updates -/

/-- Where the order has gone in, both pools have a cell left. -/
theorem not_full {b₂ : MEOrderBook} {lp : LevelPtr}
    (h₂ : Rep b₂ (if k.slotTaken e then k.join e else k.addLevel (Book.newLevel e lp)))
    (hk : k.Lists) (hs : e.info.side = .buy ∨ e.info.side = .sell)
    (hinfo : e.info = added b.tickerId u) (hfresh : k.Fresh ⟨e.ptr, lp⟩) : ¬ Full k u := by
  have hrest := Book.rest_lists hk hs hfresh
  have hrep := MEOrderBook.setCidOid_holds h₂ e.info.clientId e.info.clientOrderId (some e.ptr)
  rw [← Book.rest_eq] at hrep
  rintro (hfull | ⟨hfull, hfree⟩)
  · have hlt := hrep.entries_length_lt hrest
    rw [(Book.rest_entries_perm hk e lp).length_eq, List.length_cons] at hlt
    omega
  · have hst : k.slotTaken e = false := by
      rw [Bool.eq_false_iff]
      intro htaken
      apply hfree
      rw [Book.slotTaken_iff, Entry.slot, hinfo] at htaken
      exact htaken
    have hlt := hrep.levels_length_lt hrest
    rw [(Book.rest_levels_perm hst lp).length_eq, List.length_cons] at hlt
    omega

/-- **An `ADD` rests an order**, unless a pool or the table of ids gives up. -/
theorem applyUpdate_add (h : Shows b k) (hk : k.WF) (htype : u.type = .add)
    (hs : u.side = .buy ∨ u.side = .sell) :
    (b.applyUpdate u = .error .poolExhausted ∧ Full k u) ∨
    (b.applyUpdate u = .error .outOfRange ∧ ¬ Full k u ∧ meMaxOrderIds ≤ u.orderId.toNat) ∨
    ∃ e lp b', b.applyUpdate u = .ok b' ∧ ¬ Full k u ∧ u.orderId.toNat < meMaxOrderIds ∧
      e.info = added b.tickerId u ∧ k.Fresh ⟨e.ptr, lp⟩ ∧ Shows b' (k.rest e lp) ∧
      b'.frame = b.frame := by
  have hfreshOrder : b.orderPool.nextFreeIndex ∉ k.entries.map Entry.ptr := fun hmem =>
    h.orderReady.not_live ((h.orderLive _).mpr (Or.inl hmem))
  have hfreshLevel : b.ordersAtPricePool.nextFreeIndex ∉ k.levels.map Level.ptr := fun hmem =>
    h.levelReady.not_live ((h.levelLive _).mpr (Or.inl hmem))
  let object : MarketOrder := {
    orderId := u.orderId, side := u.side, price := u.price, qty := u.qty, priority := u.priority }
  have happly : b.applyUpdate u = b.orderPool.allocate object >>= fun r =>
      { b with orderPool := r.2 }.addOrder r.1 := by
    unfold applyUpdate
    rw [htype]
  rw [happly]
  rcases MemPool.allocate_cases (p := b.orderPool) h.orderReady object with
    ⟨herr, hfull⟩ | ⟨pool, hok, halloc⟩
  · -- no cell would be left for a further order
    refine Or.inl ⟨by rw [herr]; rfl, Or.inl ?_⟩
    have hle := MemPool.numCells_le_of_full (p := b.orderPool) hfull
      fun j hj => ((h.orderLive j).mp hj).resolve_right (by simp)
    have hcells : b.orderPool.numCells = meMaxOrderIds := h.orderCells
    rw [hcells, List.length_map] at hle
    exact hle
  · obtain ⟨b₁, hb₁⟩ : ∃ b₁ : MarketOrderBook, b₁ = { b with orderPool := pool } := ⟨_, rfl⟩
    have hrun : (b.orderPool.allocate object >>= fun r => { b with orderPool := r.2 }.addOrder r.1) =
        b₁.addOrder b.orderPool.nextFreeIndex := by
      rw [hok, hb₁]
      rfl
    rw [hrun]
    obtain ⟨e, he⟩ : ∃ e : Entry, e = ⟨b.orderPool.nextFreeIndex, added b.tickerId u⟩ := ⟨_, rfl⟩
    have hptr : b.orderPool.nextFreeIndex = e.ptr := by rw [he]
    have hinfo : e.info = added b.tickerId u := by rw [he]
    have hheld : Holds b₁.toExchange k [e.ptr] [] := by
      rw [hb₁, ← hptr]
      exact MEOrderBook.allocateOrder_holds h (halloc.map _)
    have horder : (b₁.toExchange.order e.ptr).toOrderInfo = e.info := by
      rw [hinfo, hb₁, ← hptr]
      exact congrArg (fun o => (MarketOrder.toExchange b.tickerId o).toOrderInfo) halloc.get_self
    have hframe : b₁.frame = b.frame := by rw [hb₁]; rfl
    have hdoes := b₁.addOrder_does e.ptr
    rw [hptr] at hfreshOrder ⊢
    have hes : e.info.side = .buy ∨ e.info.side = .sell := by
      rw [hinfo]
      exact hs
    have hids : MEOrderBook.inTable e.info.clientId e.info.clientOrderId =
        decide (u.orderId.toNat < meMaxOrderIds) := by
      rw [hinfo]
      show (decide ((0 : ClientId).toNat < meMaxNumClients) && _) = _
      rw [decide_eq_true (by decide), Bool.true_and]
      rfl
    have hslot : k.slotTaken e = false → priceToIndex u.price ∉ k.levels.map Level.slot := by
      intro hfree hmem
      have htaken : k.slotTaken e = true := by
        apply Book.slotTaken_iff.mpr
        rw [Entry.slot, hinfo]
        exact hmem
      rw [hfree] at htaken
      cases htaken
    have hfresh : k.Fresh ⟨e.ptr, b₁.ordersAtPricePool.nextFreeIndex⟩ := by
      rw [hb₁]
      exact ⟨hfreshOrder, hfreshLevel⟩
    rcases MEOrderBook.addOrderToPriceLevel_cases hheld hk.toLists hfreshOrder horder hes with
      ⟨herr, hfree, hfull⟩ | ⟨b₂, hok₂, h₂, -⟩
    · exact Or.inl ⟨hdoes.eq_error herr, Or.inr ⟨hfull, hslot hfree⟩⟩
    · have hroom := not_full h₂ hk.toLists hes hinfo hfresh
      by_cases hid : u.orderId.toNat < meMaxOrderIds
      · rw [hids, decide_eq_true hid] at hok₂
        obtain ⟨b', hok', hview, hframe'⟩ := hdoes.eq_ok hok₂
        refine Or.inr (Or.inr ⟨e, _, b', hok', hroom, hid, hinfo, hfresh, ?_, hframe'.trans hframe⟩)
        unfold Shows
        rw [hview]
        exact MEOrderBook.setCidOid_holds h₂ _ _ _
      · rw [hids, decide_eq_false hid] at hok₂
        exact Or.inr (Or.inl ⟨hdoes.eq_error hok₂, hroom, Nat.le_of_not_lt hid⟩)

/-- **A `MODIFY`** of an id in the table sets a quantity. -/
theorem applyUpdate_modify (h : Shows b k) (hk : k.WF) (htype : u.type = .modify)
    (hid : u.orderId.toNat < meMaxOrderIds) :
    (k.cidOidToOrder 0 u.orderId = none ∧ b.applyUpdate u = .ok b) ∨
    ∃ e ∈ k.entries, ∃ b', k.cidOidToOrder 0 u.orderId = some e.ptr ∧
      e.info.marketOrderId = u.orderId ∧ b.applyUpdate u = .ok b' ∧
      Shows b' (k.setQty e.ptr u.qty) ∧ b'.frame = b.frame := by
  unfold applyUpdate findOrder
  rw [htype, if_pos hid, oidToOrder_eq h]
  cases htable : k.cidOidToOrder 0 u.orderId with
  | none => exact Or.inl ⟨rfl, rfl⟩
  | some p =>
    obtain ⟨e, he, rfl, -, hid'⟩ := hk.table _ _ _ htable
    refine Or.inr ⟨e, he, _, rfl, (ids_eq h he).2.symm.trans hid', rfl, ?_, rfl⟩
    unfold Shows
    rw [← toExchange_setQty]
    exact MEOrderBook.setQty_refines h hk.toLists _ _

/-- **A `CANCEL`** of an id in the table takes an order out. -/
theorem applyUpdate_cancel (h : Shows b k) (hk : k.WF) (htype : u.type = .cancel)
    (hid : u.orderId.toNat < meMaxOrderIds) :
    (k.cidOidToOrder 0 u.orderId = none ∧ b.applyUpdate u = .ok b) ∨
    ∃ e ∈ k.entries, ∃ b', k.cidOidToOrder 0 u.orderId = some e.ptr ∧
      e.info.marketOrderId = u.orderId ∧ b.applyUpdate u = .ok b' ∧
      Shows b' (k.remove e) ∧ b'.frame = b.frame := by
  unfold applyUpdate findOrder
  rw [htype, if_pos hid, oidToOrder_eq h]
  cases htable : k.cidOidToOrder 0 u.orderId with
  | none => exact Or.inl ⟨rfl, rfl⟩
  | some p =>
    obtain ⟨e, he, rfl, -, hid'⟩ := hk.table _ _ _ htable
    have heid : e.info.marketOrderId = u.orderId := (ids_eq h he).2.symm.trans hid'
    obtain ⟨b₁, hremove, h₁, -⟩ := MEOrderBook.removeOrder_refines h hk.toLists he
    have hdoes := b.removeOrder_does e.ptr (by
      intro b₂ hunlink
      obtain ⟨b₃, hunlink₃, -, hinfo, -⟩ := MEOrderBook.unlinkOrder_holds h hk.toLists he
      obtain rfl := Except.ok.inj (hunlink₃.symm.trans hunlink)
      have hmarket : (b₃.order e.ptr).marketOrderId = e.info.marketOrderId :=
        congrArg OrderInfo.marketOrderId hinfo
      rw [hmarket, heid]
      exact hid)
    obtain ⟨b', hok', rfl, hframe⟩ := hdoes.eq_ok hremove
    exact Or.inr ⟨e, he, b', rfl, heid, hok', h₁, hframe⟩

theorem applyUpdate_clear (htype : u.type = .clear) : b.applyUpdate u = b.clear := by
  rw [applyUpdate, htype]

/-- A `MODIFY` or `CANCEL` of an id that the table has no place for. -/
theorem applyUpdate_outOfBounds (htype : u.type = .modify ∨ u.type = .cancel)
    (hid : ¬ u.orderId.toNat < meMaxOrderIds) : b.applyUpdate u = .error .outOfBounds := by
  rcases htype with htype | htype <;>
  · rw [applyUpdate, htype]
    simp only [findOrder, if_neg hid, bind, Except.bind]

/-! ## The best prices -/

/-- **The loop over the orders behind the first one** adds their quantities up. By induction on the
orders still ahead. -/
theorem addQtys_spec (c : OrderPtr) (rest : List Entry) (fuel : Nat) (qty : Qty)
    (hchain : (rest.map Entry.ptr ++ [c]).IsChain
      (Link (fun q => (b.order q).nextOrder) fun q => (b.order q).prevOrder))
    (hc : c ∉ rest.map Entry.ptr) (hqty : ∀ e ∈ rest, (b.order e.ptr).qty = e.info.qty)
    (hfuel : rest.length < fuel) :
    b.addQtys c fuel ((rest.map Entry.ptr).headD c) qty =
      .ok (qty + (rest.map fun e => e.info.qty).sum) := by
  induction rest generalizing fuel qty with
  | nil =>
    obtain ⟨fuel, rfl⟩ := Nat.exists_eq_succ_of_ne_zero (by omega : fuel ≠ 0)
    simp [addQtys]
  | cons e rest ih =>
    obtain ⟨fuel, rfl⟩ := Nat.exists_eq_succ_of_ne_zero (by omega : fuel ≠ 0)
    have hec : e.ptr ≠ c := fun heq => hc (by simp [heq])
    have hnext : (b.order e.ptr).nextOrder = some ((rest.map Entry.ptr).headD c) := by
      cases rest with
      | nil => exact hchain.rel.1
      | cons e' rest => exact hchain.rel.1
    rw [List.map_cons, List.headD_cons, addQtys, if_neg hec, hnext, hqty e List.mem_cons_self]
    rw [List.map_cons, List.sum_cons, ← UInt32.add_assoc]
    apply ih
    · exact (List.isChain_cons.mp hchain).2
    · exact fun hmem => hc (List.mem_cons_of_mem _ hmem)
    · exact fun e' he' => hqty e' (List.mem_cons_of_mem _ he')
    · simpa using hfuel

/-- What is read of a side is its first level's price and quantity. -/
theorem bestOf_eq (h : Shows b k) (hk : k.Lists) (s : Side) :
    b.bestOf (b.levelsHead s) = .ok (best (k.side s)) := by
  have hside := h.side s
  have hhead : b.levelsHead s = ((k.side s).map Level.ptr).head? := hside.head
  cases hlevels : k.side s with
  | nil =>
    rw [hhead, hlevels]
    rfl
  | cons l ls =>
    have hl : l ∈ k.levels := Book.mem_levels_of_mem_side (by rw [hlevels]; exact List.mem_cons_self)
    have hrep := h.levelRep hl
    obtain ⟨c, rest, hc⟩ := List.exists_cons_of_ne_nil (hk.nonempty l hl)
    have hnd := hk.ptrs_nodup hl
    have hring := hrep.ring
    rw [hc, List.map_cons] at hring hnd
    have hfirst : (b.level l.ptr).firstOrder = some c.ptr := by
      rw [show (b.level l.ptr).firstOrder = _ from hrep.head_eq, hc]
      rfl
    have hprice : (b.level l.ptr).price = l.price := hrep.price_eq
    have hqty : ∀ e ∈ l.orders, (b.order e.ptr).qty = e.info.qty := fun e he =>
      congrArg OrderInfo.qty (hrep.info e he)
    have hchain := Circular.cons_iff.mp hring
    have hsecond : (b.order c.ptr).nextOrder = some ((rest.map Entry.ptr).headD c.ptr) := by
      cases rest with
      | nil => exact hchain.rel.1
      | cons e' rest => exact hchain.rel.1
    -- the bound on the loop: no level has more orders than the pool has cells
    have hlen : rest.length < b.orderPool.numCells + 1 := by
      have hle : k.entries.length ≤ b.orderPool.numCells := h.entries_length_le hk
      have hsub : l.orders.length ≤ k.entries.length :=
        (List.sublist_flatten_of_mem (List.mem_map_of_mem hl)).length_le
      rw [hc, List.length_cons] at hsub
      omega
    have hsum := b.addQtys_spec c.ptr rest (b.orderPool.numCells + 1) (b.order c.ptr).qty
      (List.isChain_cons.mp hchain).2 (List.nodup_cons.mp hnd).1
      (fun e he => hqty e (by rw [hc]; exact List.mem_cons_of_mem _ he)) hlen
    rw [hhead, hlevels]
    show b.bestOf (some l.ptr) = _
    unfold bestOf
    simp only [hfirst, hsecond, deref_some, bind, Except.bind, hsum, pure, Except.pure, hprice]
    rw [hqty c (by rw [hc]; exact List.mem_cons_self)]
    simp only [best, hc, List.map_cons, List.sum_cons]

theorem updateBBO_eq (bid ask : Bool) :
    b.updateBBO bid ask = (if bid then b.updateBid else .ok b) >>=
      fun b => if ask then b.updateAsk else .ok b := by
  unfold updateBBO
  cases bid <;> rfl

/-- **`updateBBO`** reads the sides it is told to read, and leaves the others. -/
theorem updateBBO_spec (h : Shows b k) (hk : k.Lists) (bid ask : Bool) :
    ∃ bbo, b.updateBBO bid ask = .ok { b with bbo := bbo } ∧
      (bbo.bidPrice, bbo.bidQty) = (if bid then best k.bids else b.quote .buy) ∧
      (bbo.askPrice, bbo.askQty) = if ask then best k.asks else b.quote .sell := by
  have hbids : b.bestOf b.bidsByPrice = .ok (best k.bids) := bestOf_eq h hk .buy
  obtain ⟨bbo₁, hbid, hbuy, hsell⟩ : ∃ bbo₁,
      (if bid then b.updateBid else .ok b) = .ok { b with bbo := bbo₁ } ∧
      (bbo₁.bidPrice, bbo₁.bidQty) = (if bid then best k.bids else b.quote .buy) ∧
      (bbo₁.askPrice, bbo₁.askQty) = b.quote .sell := by
    cases bid with
    | true =>
      unfold updateBid
      rw [hbids]
      exact ⟨_, rfl, rfl, rfl⟩
    | false => exact ⟨b.bbo, rfl, rfl, rfl⟩
  obtain ⟨b₁, hb₁⟩ : ∃ b₁ : MarketOrderBook, b₁ = { b with bbo := bbo₁ } := ⟨_, rfl⟩
  have h₁ : Shows b₁ k := by
    rw [hb₁]
    exact h
  have hasks : b₁.bestOf b₁.asksByPrice = .ok (best k.asks) := bestOf_eq h₁ hk .sell
  rw [updateBBO_eq, hbid, ← hb₁]
  show ∃ bbo, (if ask then b₁.updateAsk else .ok b₁) = _ ∧ _
  cases ask with
  | true =>
    unfold updateAsk
    rw [hasks, hb₁]
    exact ⟨_, rfl, hbuy, rfl⟩
  | false =>
    rw [hb₁]
    exact ⟨bbo₁, rfl, hbuy, hsell⟩

/-! ## The update -/

/-- The first level of a side is the one the head points at. -/
theorem levelsHead_cases (h : Shows b k) (s : Side) :
    (b.levelsHead s = none ∧ k.side s = []) ∨
    ∃ l ls p, k.side s = l :: ls ∧ b.levelsHead s = some p ∧ (b.level p).price = l.price := by
  have hhead : b.levelsHead s = ((k.side s).map Level.ptr).head? := (h.side s).head
  cases hlevels : k.side s with
  | nil =>
    rw [hlevels] at hhead
    exact Or.inl ⟨hhead, rfl⟩
  | cons l ls =>
    rw [hlevels] at hhead
    have hl : l ∈ k.levels := Book.mem_levels_of_mem_side (by rw [hlevels]; exact List.mem_cons_self)
    exact Or.inr ⟨l, ls, l.ptr, rfl, hhead, (h.levelRep hl).price_eq⟩

theorem bidUpdated_eq (h : Shows b k) : b.bidUpdated u = touches k u .buy := by
  unfold bidUpdated touches
  rcases levelsHead_cases h .buy with ⟨hnone, hnil⟩ | ⟨l, ls, p, hcons, hsome, hprice⟩
  · rw [show b.bidsByPrice = none from hnone, hnil]
  · rw [show b.bidsByPrice = some p from hsome, hcons]
    dsimp only
    rw [hprice]
    by_cases hside : u.side = .buy
    · simp only [hside, behind]
      grind
    · simp [hside]

theorem askUpdated_eq (h : Shows b k) : b.askUpdated u = touches k u .sell := by
  unfold askUpdated touches
  rcases levelsHead_cases h .sell with ⟨hnone, hnil⟩ | ⟨l, ls, p, hcons, hsome, hprice⟩
  · rw [show b.asksByPrice = none from hnone, hnil]
  · rw [show b.asksByPrice = some p from hsome, hcons]
    dsimp only
    rw [hprice]
    by_cases hside : u.side = .sell
    · simp only [hside, behind]
      grind
    · simp [hside]

/-- **An update that is no `TRADE`** changes the book as it says. The quote of a side is then that of
its first level, if the update touched it, and what it was otherwise. -/
theorem onMarketUpdate_spec {k' : Book} (h : Shows b k) (htype : u.type ≠ .trade)
    (happly : b.applyUpdate u = .ok b') (h' : Shows b' k') (hk' : k'.Lists)
    (hframe : b'.frame = b.frame) :
    ∃ bbo notices, b.onMarketUpdate u = .ok { b' with bbo := bbo, notices := notices } ∧
      ∀ s, s = .buy ∨ s = .sell → ({ b' with bbo := bbo, notices := notices } : MarketOrderBook).quote s =
        if touches k u s then best (k'.side s) else b.quote s := by
  obtain ⟨bbo, hbbo, hbuy, hsell⟩ := updateBBO_spec h' hk' (b.bidUpdated u) (b.askUpdated u)
  have hquote : ∀ s, b'.quote s = b.quote s := by
    intro s
    have hsame : b'.bbo = b.bbo := congrArg Prod.fst hframe
    unfold quote
    rw [hsame]
  refine ⟨bbo, b'.notices ++ [.orderBookUpdate u.tickerId u.price u.side], ?_, ?_⟩
  · unfold onMarketUpdate
    rw [if_neg htype]
    simp only [happly, bind, Except.bind, hbbo]
    rfl
  · rintro s (rfl | rfl)
    · rw [← bidUpdated_eq h, ← hquote]
      exact hbuy
    · rw [← askUpdated_eq h, ← hquote]
      exact hsell

theorem onMarketUpdate_error {err : Fault} (htype : u.type ≠ .trade)
    (happly : b.applyUpdate u = .error err) : b.onMarketUpdate u = .error err := by
  unfold onMarketUpdate
  rw [if_neg htype]
  simp only [happly, bind, Except.bind]

/-- A `TRADE` is passed on. -/
theorem onMarketUpdate_trade (htype : u.type = .trade) :
    ∃ b', b.onMarketUpdate u = .ok b' ∧ b'.toExchange = b.toExchange ∧ b'.bbo = b.bbo := by
  unfold onMarketUpdate
  rw [if_pos htype]
  exact ⟨_, rfl, rfl, rfl⟩

/-! ## What rests in the book -/

theorem levelPtrs_eq (h : Shows b k) (hk : k.Lists) (s : Side) :
    b.levelPtrs s = (k.side s).map Level.ptr :=
  Holds.levelPtrs_eq h hk s

theorem orderPtrs_eq (h : Shows b k) (hk : k.Lists) (hl : l ∈ k.levels) :
    b.orderPtrs l.ptr = l.orders.map Entry.ptr :=
  Holds.readLevel_eq h hk hl

theorem level_price_eq (h : Shows b k) (hl : l ∈ k.levels) : (b.level l.ptr).price = l.price :=
  (h.levelRep hl).price_eq

end MarketOrderBook

end TradingSystem.Client
