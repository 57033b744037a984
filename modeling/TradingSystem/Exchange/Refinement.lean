import TradingSystem.Lib.Run
import TradingSystem.Exchange.RepMatch
import TradingSystem.Exchange.RepInsert

/-!
# A request does its events

The refinement of `MEOrderBook` to `Book`: on a represented book a valid request ends in one of two
ways. It does exactly its events, to the book and in what is sent; or a pool gives up because the
order would have left it without a free cell (`Book.Exhausts`). From it, by induction, what a whole
run of requests does (`run_rule`), and what the pointer structure then holds (`Rep.resting_eq`).
-/

namespace TradingSystem

open MEOrderBook (priceToIndex inTable)

namespace Book

variable {k : Book} {e : Entry} {l : Level}

/-- Something is left of the order, and resting it would leave a pool without a free cell. -/
def Exhausts (k : Book) (r : MEClientRequest) : Prop :=
  r.type = .new ∧ 0 < leftOver r.qty (fills r.side r.price r.qty (k.queue r.side)) ∧
  (meMaxOrderIds ≤ (k.applyAll (k.matchEvents r)).entries.length + 1 ∨
    meMaxPriceLevels ≤ (k.applyAll (k.matchEvents r)).levels.length + 1 ∧
      priceToIndex r.price ∉ (k.applyAll (k.matchEvents r)).levels.map Level.slot)

/-- The level in the slot of a price, if there is one. -/
theorem find_slot (h : k.Lists) (hl : l ∈ k.levels) {p : Price} (hp : l.slot = priceToIndex p) :
    (k.levels.find? fun l => l.slot = priceToIndex p) = some l := by
  cases hfind : k.levels.find? fun l => l.slot = priceToIndex p with
  | none =>
    have := List.find?_eq_none.mp hfind l hl
    simp [hp] at this
  | some l' =>
    have hl' := List.mem_of_find?_eq_some hfind
    have hslot : l'.slot = priceToIndex p := by simpa using List.find?_some hfind
    rw [h.level_eq_of_slot hl' hl (hslot.trans hp.symm)]

end Book

namespace MEOrderBook

variable {b b' : MEOrderBook} {k : Book} {e : Entry} {r : MEClientRequest}

/-- The priority of a new order is one more than that of the last order of its level. -/
theorem getPriority_eq (h : Rep b k) (hk : k.Lists) (p : Price) :
    b.getPriority p = .ok (k.priorityAt p) := by
  unfold getPriority Book.priorityAt
  cases hp : b.getOrderAtPrice p with
  | none =>
    have hnone : (k.levels.find? fun l => l.slot = priceToIndex p) = none := by
      rw [List.find?_eq_none]
      intro l hl hslot
      have := h.getOrderAtPrice_eq hl (by simpa using (of_decide_eq_true hslot).symm : priceToIndex p = l.slot)
      rw [hp] at this
      cases this
    rw [hnone]
  | some lp =>
    obtain ⟨l, hl, hslot, rfl⟩ := (h.table _ _).mp hp
    rw [Book.find_slot hk hl hslot]
    have hrep := h.levelRep hl
    obtain ⟨c, rest, hc⟩ := List.exists_cons_of_ne_nil (hk.nonempty l hl)
    have hring := hrep.ring
    have hhead : (b.level l.ptr).ordersHead = some c.ptr := by
      rw [show (b.level l.ptr).ordersHead = _ from hrep.head_eq, hc]
      rfl
    rw [hc, List.map_cons] at hring
    -- the tail of the level is the head's predecessor
    have hlast : (b.order c.ptr).prevOrder = some (l.orders.getLast (hk.nonempty l hl)).ptr := by
      have hprev := Circular.prev_head hring
      simp only [← List.map_cons, List.getLast_map] at hprev
      simp only [hc]
      exact hprev
    have hmem := List.getLast_mem (hk.nonempty l hl)
    have hprio : (b.order (l.orders.getLast (hk.nonempty l hl)).ptr).priority =
        (l.orders.getLast (hk.nonempty l hl)).info.priority :=
      congrArg OrderInfo.priority (hrep.info _ hmem)
    simp only [hhead, hlast, hprio, deref_some, bind, Except.bind, pure, Except.pure,
      List.getLast?_eq_getLast_of_ne_nil (hk.nonempty l hl), Option.map_some, Option.getD_some]

theorem generateNextOrderId_holds (h : Rep b k) :
    Rep { b with nextOrderId := k.nextOrderId + 1 }
      { k with nextOrderId := k.nextOrderId + 1 } :=
  ⟨h.ticker, rfl, h.cid, h.side, h.table, h.levelReady, h.levelCells, h.levelLive, h.orderReady,
    h.orderCells, h.orderLive⟩

/-- A cell is handed out for an order. -/
theorem allocateOrder_holds (h : Rep b k) {o : MEOrder} {pool : MemPool MEOrder}
    (halloc : b.ordersPool.Allocated o pool) :
    Holds { b with ordersPool := pool } k [b.ordersPool.nextFreeIndex] [] := by
  refine ⟨h.ticker, h.nextOrderId, h.cid, ?_, h.table, h.levelReady, h.levelCells, h.levelLive,
    halloc.ready, halloc.numCells.trans h.orderCells, ?_⟩
  · intro t
    refine (h.side t).congr (fun _ _ => rfl) ?_
    intro l hl p hp
    refine halloc.get_of_ne _ ?_
    rintro rfl
    obtain ⟨e, he, hptr⟩ := List.mem_map.mp hp
    refine h.orderReady.not_live ((h.orderLive _).mpr (Or.inl ?_))
    exact List.mem_map.mpr
      ⟨e, Book.mem_entries.mpr ⟨l, Book.mem_levels_of_mem_side hl, he⟩, hptr⟩
  · intro p
    rw [halloc.live_iff, h.orderLive]
    simp only [List.mem_singleton, List.not_mem_nil, or_false]
    tauto

/-- What `add` does after matching, with `left` left of the order. -/
def restOrder (b : MEOrderBook) (r : MEClientRequest) (marketOrderId : OrderId) (left : Qty) :
    Except Fault MEOrderBook := do
  let priority ← b.getPriority r.price
  let (orderObj, pool) ← b.ordersPool.allocate {
    tickerId := b.ticker, clientId := r.clientId, clientOrderId := r.orderId,
    marketOrderId := marketOrderId, side := r.side, price := r.price, qty := left,
    priority := priority }
  let b ← { b with ordersPool := pool }.addOrderToPriceLevel orderObj
  return b.sendMarketUpdate {
    type := .add, orderId := marketOrderId, tickerId := b.ticker, side := r.side,
    price := r.price, qty := r.qty, priority := priority }

/-- `add` accepts and matches the order, and rests what is left. -/
theorem add_eq (h : Rep b k) (hk : k.WF) (hs : r.side = .buy ∨ r.side = .sell) :
    ∃ b₁, Rep b₁ (k.applyAll (k.matchEvents r)) ∧ Sent b b₁ (k.matchEvents r) ∧
      b.add r.clientId r.orderId r.side r.price r.qty =
        if leftOver r.qty (fills r.side r.price r.qty (k.queue r.side)) > 0 then
          b₁.restOrder r k.nextOrderId
            (leftOver r.qty (fills r.side r.price r.qty (k.queue r.side)))
        else .ok b₁ := by
  obtain ⟨b₀, hb₀⟩ : ∃ b₀ : MEOrderBook, b₀ = { b with nextOrderId := k.nextOrderId + 1
    }.sendClientResponse {
      type := .accepted, clientId := r.clientId, tickerId := b.ticker, clientOrderId := r.orderId,
      marketOrderId := k.nextOrderId, side := r.side, price := r.price, execQty := 0,
      leftQty := r.qty } := ⟨_, rfl⟩
  have h₀ : Rep b₀ (k.apply (.accepted (k.incoming r))) := by
    rw [hb₀]
    exact sendClientResponse_holds (generateNextOrderId_holds h) _
  have hsent₀ : Sent b b₀ [.accepted (k.incoming r)] := by
    subst hb₀
    refine ⟨?_, ?_⟩
    · simp [sendClientResponse, Event.responses, Book.incoming]
    · simp [sendClientResponse, Event.updates]
  have hk₀ : (k.apply (.accepted (k.incoming r))).WF := Book.apply_wf hk trivial
  have hticker₀ : b₀.ticker = b.ticker := by
    rw [hb₀]
    rfl
  obtain ⟨b₁, hmatch, h₁, hsent₁⟩ :=
    checkForMatch_refines (k.incoming r) hs h₀ hk₀.toLists r.qty
  change b₀.checkForMatch r.clientId r.orderId r.side r.price r.qty k.nextOrderId =
    .ok (leftOver r.qty (fills r.side r.price r.qty (k.queue r.side)), b₁) at hmatch
  refine ⟨b₁, h₁, hsent₀.trans hticker₀ hsent₁, ?_⟩
  unfold add generateNextOrderId
  simp only [h.nextOrderId]
  rw [← hb₀, hmatch]
  rfl

/-- What is left of a `NEW` gets a cell and the next priority and is linked in, unless the pool gives
up. -/
theorem restOrder_cases {b₁ : MEOrderBook} (h₁ : Rep b₁ (k.applyAll (k.matchEvents r)))
    (hk : k.WF)
    (hpos : 0 < leftOver r.qty (fills r.side r.price r.qty (k.queue r.side))) :
    (b₁.restOrder r k.nextOrderId (leftOver r.qty (fills r.side r.price r.qty (k.queue r.side))) =
        .error .poolExhausted ∧
      meMaxOrderIds ≤ (k.applyAll (k.matchEvents r)).entries.length + 1) ∨
    ∃ e b₂, b₁.restOrder r k.nextOrderId
        (leftOver r.qty (fills r.side r.price r.qty (k.queue r.side))) = (do
          let b ← b₂.addOrderToPriceLevel e.ptr
          return b.sendMarketUpdate {
            type := .add, orderId := k.nextOrderId, tickerId := b.ticker, side := r.side,
            price := r.price, qty := r.qty, priority := e.info.priority }) ∧
      (∀ lp, k.remainder ⟨e.ptr, lp⟩ r = some e) ∧
      e.ptr ∉ (k.applyAll (k.matchEvents r)).entries.map Entry.ptr ∧
      Holds b₂ (k.applyAll (k.matchEvents r)) [e.ptr] [] ∧
      (b₂.order e.ptr).toOrderInfo = e.info ∧ b₂.ordersAtPricePool = b₁.ordersAtPricePool ∧
      b₂.logs = b₁.logs := by
  have hk₀ : (k.apply (.accepted (k.incoming r))).WF := Book.apply_wf hk trivial
  have hk₁ : (k.applyAll (k.matchEvents r)).Lists := hk₀.toLists.applyAll_fills _ _
  have hticker₁ : b₁.ticker = k.ticker := by rw [h₁.ticker, Book.applyAll_ticker]
  obtain ⟨left, hleft⟩ : ∃ x, x = leftOver r.qty (fills r.side r.price r.qty (k.queue r.side)) :=
    ⟨_, rfl⟩
  have hfreshOrder : b₁.ordersPool.nextFreeIndex ∉
      (k.applyAll (k.matchEvents r)).entries.map Entry.ptr := fun hmem =>
    h₁.orderReady.not_live ((h₁.orderLive _).mpr (Or.inl hmem))
  rw [← hleft] at hpos ⊢
  let k₁ := k.applyAll (k.matchEvents r)
  have hprio : b₁.getPriority r.price = .ok (k₁.priorityAt r.price) := getPriority_eq h₁ hk₁ r.price
  obtain ⟨e, he⟩ : ∃ e : Entry, e = {
      ptr := b₁.ordersPool.nextFreeIndex
      info := { k.incoming r with qty := left, priority := k₁.priorityAt r.price } } := ⟨_, rfl⟩
  have hrem : ∀ lp, k.remainder ⟨e.ptr, lp⟩ r = some e := by
    intro lp
    subst he
    unfold Book.remainder
    rw [← hleft]
    exact if_pos hpos
  unfold restOrder
  rw [hprio]
  simp only [bind, Except.bind]
  rcases MemPool.allocate_cases h₁.orderReady {
      tickerId := b₁.ticker, clientId := r.clientId, clientOrderId := r.orderId,
      marketOrderId := k.nextOrderId, side := r.side, price := r.price, qty := left,
      priority := k₁.priorityAt r.price } with ⟨herr, hfull⟩ | ⟨pool, hok, halloc⟩
  · -- no cell would be left for a further order
    refine Or.inl ⟨by rw [herr], ?_⟩
    have hle := MemPool.numCells_le_of_full (p := b₁.ordersPool) hfull
      fun j hj => ((h₁.orderLive j).mp hj).resolve_right (by simp)
    rw [h₁.orderCells, List.length_map] at hle
    exact hle
  · rw [hok]
    dsimp only
    have hheld := allocateOrder_holds h₁ halloc
    have hinfo : (({ b₁ with ordersPool := pool } : MEOrderBook).order e.ptr).toOrderInfo =
        e.info := by
      have hself := halloc.get_self
      subst he
      show (pool.get b₁.ordersPool.nextFreeIndex).toOrderInfo = _
      rw [hself]
      simp only [hticker₁]
      rfl
    have hptr : e.ptr = b₁.ordersPool.nextFreeIndex := by rw [he]
    have hpriority : e.info.priority = k₁.priorityAt r.price := by rw [he]
    rw [← hptr] at hheld hfreshOrder
    refine Or.inr ⟨e, { b₁ with ordersPool := pool }, ?_, hrem, hfreshOrder, hheld, hinfo, rfl, rfl⟩
    rw [hpriority, hptr]

/-- **What is left of a `NEW` goes into the book**, unless a pool gives up. -/
theorem restOrder_refines {b₁ : MEOrderBook} (h₁ : Rep b₁ (k.applyAll (k.matchEvents r)))
    (hk : k.WF) (hs : r.side = .buy ∨ r.side = .sell) (hin : inTable r.clientId r.orderId = true)
    (hpos : 0 < leftOver r.qty (fills r.side r.price r.qty (k.queue r.side))) :
    (b₁.restOrder r k.nextOrderId (leftOver r.qty (fills r.side r.price r.qty (k.queue r.side))) =
        .error .poolExhausted ∧
      (meMaxOrderIds ≤ (k.applyAll (k.matchEvents r)).entries.length + 1 ∨
        meMaxPriceLevels ≤ (k.applyAll (k.matchEvents r)).levels.length + 1 ∧
          priceToIndex r.price ∉ (k.applyAll (k.matchEvents r)).levels.map Level.slot)) ∨
    ∃ cells e b', b₁.restOrder r k.nextOrderId
        (leftOver r.qty (fills r.side r.price r.qty (k.queue r.side))) = .ok b' ∧
      k.remainder cells r = some e ∧ (k.applyAll (k.matchEvents r)).Fresh cells ∧
      Rep b' ((k.applyAll (k.matchEvents r)).apply (.rest e cells.level r.qty)) ∧
      Sent b₁ b' [.rest e cells.level r.qty] := by
  have hk₀ : (k.apply (.accepted (k.incoming r))).WF := Book.apply_wf hk trivial
  have hk₁ : (k.applyAll (k.matchEvents r)).Lists := hk₀.toLists.applyAll_fills _ _
  have hfreshLevel : b₁.ordersAtPricePool.nextFreeIndex ∉
      (k.applyAll (k.matchEvents r)).levels.map Level.ptr := fun hmem =>
    h₁.levelReady.not_live ((h₁.levelLive _).mpr (Or.inl hmem))
  rcases restOrder_cases h₁ hk hpos with
    ⟨herr, hfull⟩ | ⟨e, b₂, hrest, hrem, hfreshOrder, hheld, hinfo, hpool, hlogs₂⟩
  · exact Or.inl ⟨herr, Or.inl hfull⟩
  · obtain ⟨-, -, heinfo⟩ := Book.remainder_eq_some (hrem 0)
    rw [hrest]
    rcases addOrderToPriceLevel_refines hheld hk₁ hfreshOrder hinfo (by rw [heinfo]; exact hs)
      (by rw [heinfo]; exact hin) with ⟨herr, hfree, hfull⟩ | ⟨b₃, hok₃, h₃, hlogs₃⟩
    · -- no cell would be left for a further level
      refine Or.inl ⟨by rw [herr]; rfl, Or.inr ⟨hfull, ?_⟩⟩
      intro hmem
      have htaken : (k.applyAll (k.matchEvents r)).slotTaken e = true := by
        apply Book.slotTaken_iff.mpr
        rw [Entry.slot, heinfo]
        exact hmem
      rw [hfree] at htaken
      cases htaken
    · rw [hpool] at h₃
      refine Or.inr ⟨⟨e.ptr, b₁.ordersAtPricePool.nextFreeIndex⟩, e, _, by rw [hok₃]; rfl, hrem _,
        ⟨hfreshOrder, hfreshLevel⟩, sendMarketUpdate_holds h₃ _, ?_⟩
      have hticker₃ : b₃.ticker = b₁.ticker := by
        rw [h₃.ticker, h₁.ticker]
        exact Book.apply_ticker (.rest e b₁.ordersAtPricePool.nextFreeIndex r.qty)
      rw [hlogs₂] at hlogs₃
      simp only [logs, Prod.mk.injEq] at hlogs₃
      refine ⟨?_, ?_⟩
      · simp [sendMarketUpdate, Event.responses, hlogs₃.1]
      · simp [sendMarketUpdate, Event.updates, hlogs₃.2, hticker₃, heinfo, Book.incoming]

/-- **What is left of a `NEW` whose ids are not in the table** is linked in and then stops the
exchange, if the pool has not stopped it before. -/
theorem restOrder_outOfRange {b₁ : MEOrderBook} (h₁ : Rep b₁ (k.applyAll (k.matchEvents r)))
    (hk : k.WF) (hs : r.side = .buy ∨ r.side = .sell) (hout : inTable r.clientId r.orderId = false)
    (hpos : 0 < leftOver r.qty (fills r.side r.price r.qty (k.queue r.side))) :
    b₁.restOrder r k.nextOrderId (leftOver r.qty (fills r.side r.price r.qty (k.queue r.side))) =
        .error .poolExhausted ∨
      b₁.restOrder r k.nextOrderId (leftOver r.qty (fills r.side r.price r.qty (k.queue r.side))) =
        .error .outOfRange := by
  have hk₀ : (k.apply (.accepted (k.incoming r))).WF := Book.apply_wf hk trivial
  have hk₁ : (k.applyAll (k.matchEvents r)).Lists := hk₀.toLists.applyAll_fills _ _
  rcases restOrder_cases h₁ hk hpos with
    ⟨herr, -⟩ | ⟨e, b₂, hrest, hrem, hfreshOrder, hheld, hinfo, -, -⟩
  · exact Or.inl herr
  · obtain ⟨-, -, heinfo⟩ := Book.remainder_eq_some (hrem 0)
    have hids : inTable e.info.clientId e.info.clientOrderId = false := by
      rw [heinfo]
      exact hout
    rw [hrest]
    rcases addOrderToPriceLevel_cases hheld hk₁ hfreshOrder hinfo (by rw [heinfo]; exact hs) with
      ⟨herr, -, -⟩ | ⟨b₃, hok₃, -, -⟩
    · rw [herr]
      exact Or.inl rfl
    · rw [hok₃, hids]
      exact Or.inr rfl

/-- **`add` does the events of a `NEW`.** -/
theorem add_refines (h : Rep b k) (hk : k.WF) (hnew : r.type = .new)
    (hs : r.side = .buy ∨ r.side = .sell) (hin : inTable r.clientId r.orderId = true) :
    (b.add r.clientId r.orderId r.side r.price r.qty = .error .poolExhausted ∧ k.Exhausts r) ∨
    ∃ cells b', b.add r.clientId r.orderId r.side r.price r.qty = .ok b' ∧
      (k.applyAll (k.matchEvents r)).Fresh cells ∧ Rep b' (k.applyAll (k.events cells r)) ∧
      Sent b b' (k.events cells r) := by
  obtain ⟨b₁, h₁, hsent₁, hadd⟩ := add_eq h hk hs
  rw [hadd]
  split
  · next hpos =>
    rcases restOrder_refines h₁ hk hs hin hpos with ⟨herr, hfull⟩ |
      ⟨cells, e, b', hok, hrem, hfresh, h', hsent'⟩
    · exact Or.inl ⟨herr, hnew, hpos, hfull⟩
    · have hticker₁ : b₁.ticker = b.ticker := by rw [h₁.ticker, h.ticker, Book.applyAll_ticker]
      refine Or.inr ⟨cells, b', hok, hfresh, ?_, ?_⟩
      · rw [Book.events_of_rest hnew hrem, Book.applyAll_append]
        exact h'
      · rw [Book.events_of_rest hnew hrem]
        exact hsent₁.trans hticker₁ hsent'
  · next hzero =>
    refine Or.inr ⟨⟨b₁.ordersPool.nextFreeIndex, b₁.ordersAtPricePool.nextFreeIndex⟩, b₁, rfl,
      ⟨?_, ?_⟩, ?_⟩
    · intro hmem
      exact h₁.orderReady.not_live ((h₁.orderLive _).mpr (Or.inl hmem))
    · intro hmem
      exact h₁.levelReady.not_live ((h₁.levelLive _).mpr (Or.inl hmem))
    · rw [Book.events_of_used_up hnew (by unfold Book.remainder; exact if_neg hzero)]
      exact ⟨h₁, hsent₁⟩

/-- **`cancel` does the events of a `CANCEL`.** -/
theorem cancel_refines (h : Rep b k) (hk : k.WF) (hcancel : r.type = .cancel) (cells : Book.Cells) :
    ∃ b', b.cancel r.clientId r.orderId = .ok b' ∧ Rep b' (k.applyAll (k.events cells r)) ∧
      Sent b b' (k.events cells r) := by
  unfold cancel Book.events
  rw [hcancel, h.cid]
  dsimp only
  cases hp : (if inTable r.clientId r.orderId then k.cidOidToOrder r.clientId r.orderId
    else none) with
  | none =>
    have hnone : (k.entries.find? fun e => some e.ptr = none) = none := by simp
    rw [hnone]
    refine ⟨_, rfl, sendClientResponse_holds h _, ?_, ?_⟩
    · simp [sendClientResponse, Event.responses]
    · simp [sendClientResponse, Event.updates]
  | some p =>
    have htable : k.cidOidToOrder r.clientId r.orderId = some p := by
      split at hp
      · exact hp
      · cases hp
    obtain ⟨e, he, rfl, hc, ho⟩ := hk.table _ _ _ htable
    rw [hk.find_ptr he]
    obtain ⟨b₁, hremove, hrep, hlogs⟩ := removeOrder_refines h hk.toLists he
    have hinfo := h.order_eq he
    simp only [hremove, bind, Except.bind]
    refine ⟨_, rfl, sendMarketUpdate_holds (sendClientResponse_holds hrep _) _, ?_⟩
    have hticker : b₁.ticker = b.ticker := by
      rw [hrep.ticker, h.ticker]
      rfl
    simp only [logs, Prod.mk.injEq] at hlogs
    refine ⟨?_, ?_⟩
    · simp only [sendMarketUpdate, sendClientResponse, hlogs.1, hticker]
      simp [Event.responses, ← hinfo, ← hc, ← ho]
    · simp only [sendMarketUpdate, sendClientResponse, hlogs.2, hticker]
      simp [Event.updates, ← hinfo]

/-- **A valid request does its events**, unless it exhausts a pool. -/
theorem processClientRequest_refines (h : Rep b k) (hk : k.WF) (hpos : k.Positive) (hr : r.Valid) :
    (b.processClientRequest r = .error .poolExhausted ∧ k.Exhausts r) ∨
    ∃ cells b', b.processClientRequest r = .ok b' ∧ k.OkAll (k.events cells r) ∧
      Rep b' (k.applyAll (k.events cells r)) ∧ Sent b b' (k.events cells r) := by
  have hcase := hr
  unfold processClientRequest
  rcases hcase with ⟨hnew, hs, hin⟩ | hcancel
  · rw [hnew]
    rcases add_refines h hk hnew hs hin with herr | ⟨cells, b', hok, hfresh, hrep, hsent⟩
    · exact Or.inl herr
    · exact Or.inr ⟨cells, b', hok, Book.events_ok hk hpos (fun _ => hfresh) hr, hrep, hsent⟩
  · rw [hcancel]
    obtain ⟨b', hok, hrep, hsent⟩ := cancel_refines h hk hcancel ⟨0, 0⟩
    refine Or.inr ⟨⟨0, 0⟩, b', hok, Book.events_ok hk hpos ?_ hr, hrep, hsent⟩
    intro hnew
    rw [hcancel] at hnew
    cases hnew

/-! ## Runs -/

/-- A `NEW` request does not carry the ids of an order that rests. -/
def NotReused (b : MEOrderBook) (r : MEClientRequest) : Prop :=
  r.type = .new → ∀ o ∈ b.resting, ¬ (o.clientId = r.clientId ∧ o.clientOrderId = r.orderId)

instance (b : MEOrderBook) (r : MEClientRequest) : Decidable (NotReused b r) :=
  inferInstanceAs (Decidable (_ → _))

/-- What holds of every state a run reaches: the book it holds is well formed and is what the events
so far have made of the empty book, and these events are all that was sent. -/
structure Reached (ticker : TickerId) (b : MEOrderBook) (k : Book) (evs : List Event) : Prop where
  rep : Rep b k
  wf : k.WF
  positive : k.Positive
  ok : (Book.init ticker).OkAll evs
  book : k = (Book.init ticker).applyAll evs
  sent : Sent (MEOrderBook.init ticker) b evs

theorem reached_init (ticker : TickerId) :
    Reached ticker (MEOrderBook.init ticker) (Book.init ticker) [] :=
  ⟨rep_init ticker, Book.wf_init ticker, Book.positive_init ticker, trivial, rfl, Sent.nil rfl⟩

theorem Reached.ticker_eq {ticker : TickerId} {evs : List Event} (h : Reached ticker b k evs) :
    k.ticker = ticker := by
  rw [h.book, Book.applyAll_ticker]
  rfl

/-- One more request takes a reached state to a reached state, or exhausts a pool. -/
theorem Reached.step {ticker : TickerId} {evs : List Event} (h : Reached ticker b k evs)
    (hr : r.Valid) :
    (b.processClientRequest r = .error .poolExhausted ∧ k.Exhausts r) ∨
    ∃ cells b', b.processClientRequest r = .ok b' ∧ k.OkAll (k.events cells r) ∧
      Reached ticker b' (k.applyAll (k.events cells r)) (evs ++ k.events cells r) := by
  rcases processClientRequest_refines h.rep h.wf h.positive hr with
    herr | ⟨cells, b', hok, hevs, hrep, hsent⟩
  · exact Or.inl herr
  · refine Or.inr ⟨cells, b', hok, hevs, hrep, Book.applyAll_wf h.wf hevs,
      Book.applyAll_positive h.wf h.positive hevs, ?_, ?_, ?_⟩
    · refine Book.along_append.mpr ⟨h.ok, ?_⟩
      rw [← h.book]
      exact hevs
    · rw [Book.applyAll_append, ← h.book]
    · refine h.sent.trans ?_ hsent
      rw [h.rep.ticker, h.ticker_eq]
      rfl

/-- **The rule for runs of the order book.** A property of the book and of the events so far that
holds at the start, and that the events of every request that meets the condition preserve, holds
wherever a run of such requests leads. -/
theorem run_rule {ticker : TickerId} {rs : List MEClientRequest}
    (I : List MEClientRequest → Book → List Event → Prop)
    (P : List MEClientRequest → MEOrderBook → MEClientRequest → Prop)
    (hinit : I [] (Book.init ticker) [])
    (hstep : ∀ rs b k evs cells r, Reached ticker b k evs → I rs k evs → r.Valid → P rs b r →
      k.OkAll (k.events cells r) →
      I (rs ++ [r]) (k.applyAll (k.events cells r)) (evs ++ k.events cells r))
    (hvalid : ∀ r ∈ rs, r.Valid)
    (hP : AllSteps processClientRequest (MEOrderBook.init ticker) P rs)
    (hrun : (MEOrderBook.init ticker).processAll rs = .ok b) :
    ∃ k evs, Reached ticker b k evs ∧ I rs k evs := by
  have hall : AllSteps processClientRequest (MEOrderBook.init ticker)
      (fun rs b r => r.Valid ∧ P rs b r) rs := by
    intro pre r post s hrs hpre
    exact ⟨hvalid r (by simp [hrs]), hP pre r post s hrs hpre⟩
  refine run_induction (motive := fun rs b => ∃ k evs, Reached ticker b k evs ∧ I rs k evs)
    ⟨_, _, reached_init ticker, hinit⟩ ?_ hall hrun
  rintro rs r b b' - ⟨hr, hPr⟩ ⟨k, evs, hreached, hI⟩ hok
  rcases hreached.step hr with ⟨herr, -⟩ | ⟨cells, b'', hok', hevs, hreached'⟩
  · rw [herr] at hok
    cases hok
  · obtain rfl := Except.ok.inj (hok'.symm.trans hok)
    exact ⟨_, _, hreached', hstep rs b k evs cells r hreached hI hr hPr hevs⟩

end MEOrderBook

/-! ## What rests in the book -/

namespace Holds

variable {b : MEOrderBook} {k : Book} {s : Side}

theorem levelPtrs_eq (h : Rep b k) (hk : k.Lists) (s : Side) :
    b.levelPtrs (b.levelsHead s) = (k.side s).map Level.ptr := by
  have hside := h.side s
  rw [hside.head]
  refine Circular.readCircle_eq hside.ring (hk.side_ptrs_nodup s) ?_
  have hle := h.levels_length_le hk
  have hsub : (k.side s).length ≤ k.levels.length := by
    unfold Book.side Book.levels
    split <;> simp
  rw [List.length_map]
  omega

/-- Following the links of a level visits its orders. -/
theorem readLevel_eq (h : Rep b k) (hk : k.Lists) {l : Level} (hl : l ∈ k.levels) :
    readCircle (fun p => (b.order p).nextOrder) b.ordersPool.numCells (b.level l.ptr).ordersHead =
      l.orders.map Entry.ptr := by
  have hrep := h.levelRep hl
  have hlen : (l.orders.map Entry.ptr).length ≤ b.ordersPool.numCells := by
    have hle := h.entries_length_le hk
    have hsub : l.orders.length ≤ k.entries.length :=
      (List.sublist_flatten_of_mem (List.mem_map_of_mem hl)).length_le
    rw [List.length_map]
    omega
  have hhead : (b.level l.ptr).ordersHead = (l.orders.map Entry.ptr).head? := hrep.head_eq
  rw [hhead]
  exact Circular.readCircle_eq hrep.ring (hk.ptrs_nodup hl) hlen

theorem restingAt_eq (h : Rep b k) (hk : k.Lists) {l : Level} (hl : l ∈ k.levels) :
    b.restingAt l.ptr = l.orders.map Entry.info := by
  unfold MEOrderBook.restingAt
  rw [readLevel_eq h hk hl, List.map_map]
  exact List.map_congr_left fun e he => (h.levelRep hl).info e he

/-- Reading a side of the pointer structure gives the orders of the list, in their order. -/
theorem resting_side_eq (h : Rep b k) (hk : k.Lists) (s : Side) :
    (b.levelPtrs (b.levelsHead s)).flatMap b.restingAt =
      (levelOrders (k.side s)).map Entry.info := by
  rw [levelPtrs_eq h hk, List.flatMap_map, levelOrders, List.map_flatMap]
  exact List.flatMap_congr fun l hl => restingAt_eq h hk (Book.mem_levels_of_mem_side hl)

theorem restingBids_eq (h : Rep b k) (hk : k.Lists) :
    b.restingBids = (levelOrders k.bids).map Entry.info := resting_side_eq h hk .buy

theorem restingAsks_eq (h : Rep b k) (hk : k.Lists) :
    b.restingAsks = (levelOrders k.asks).map Entry.info := resting_side_eq h hk .sell

theorem resting_eq (h : Rep b k) (hk : k.Lists) : b.resting = k.entries.map Entry.info := by
  rw [MEOrderBook.resting, restingBids_eq h hk, restingAsks_eq h hk, Book.entries, Book.levels,
    levelOrders_append, List.map_append]

end Holds

end TradingSystem
