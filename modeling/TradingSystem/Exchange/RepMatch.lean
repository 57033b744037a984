import TradingSystem.Exchange.RepRemove

/-!
# Matching

A match (`match` in the source) is the event `fill`, and the loops of `checkForMatch` are the fills
of the incoming order against the queue it meets: each round of a loop takes the order that then
heads the queue (`matchLoop_refines`).
-/

namespace TradingSystem

open Book (dropping requantifying)

/-! ## Fills, on the lists -/

theorem filterOrders_filterOrders (f g : Entry → Option Entry) (ls : List Level) :
    filterOrders f (filterOrders g ls) = filterOrders (fun e => (g e).bind f) ls := by
  induction ls with
  | nil => rfl
  | cons l ls ih =>
    rw [filterOrders_cons g, filterOrders_cons (fun e => (g e).bind f), ← List.filterMap_filterMap]
    by_cases hg : l.orders.filterMap g = []
    · rw [if_pos hg, hg, ih]
      rfl
    · rw [if_neg hg, filterOrders_cons, ih]

namespace Book

variable {k : Book} {s t : Side} {e : Entry} {l : Level}

/-- An order removed is removed whatever quantity it was given before. -/
theorem remove_setQty (e : Entry) (q : Qty) :
    (k.setQty e.ptr q).remove { e with info := { e.info with qty := q } } = k.remove e := by
  have hcomp : (fun e' => (requantifying e.ptr q e').bind (dropping e.ptr)) = dropping e.ptr := by
    funext e'
    unfold requantifying dropping
    by_cases hp : e'.ptr = e.ptr <;> simp [hp]
  unfold remove setQty filter
  simp only [filterOrders_filterOrders, hcomp]

theorem filter_side_requantifying (h : k.Lists) (p : OrderPtr) (q : Qty) (s : Side) :
    (k.setQty p q).side s =
      (k.side s).map fun l => { l with orders := l.orders.filterMap (requantifying p q) } := by
  rw [setQty, filter_side, filterOrders, List.filter_eq_self]
  intro l' hl'
  obtain ⟨l, hl, rfl⟩ := List.mem_map.mp hl'
  obtain ⟨e, es, hes⟩ := List.exists_cons_of_ne_nil (h.nonempty l (mem_levels_of_mem_side hl))
  have hsome : ∃ e', requantifying p q e = some e' := by
    unfold requantifying
    split
    · exact ⟨_, rfl⟩
    · exact ⟨_, rfl⟩
  obtain ⟨e', he'⟩ := hsome
  simp [hes, he']

theorem requantifying_ptrs (p : OrderPtr) (q : Qty) (es : List Entry) :
    (es.filterMap (requantifying p q)).map Entry.ptr = es.map Entry.ptr := by
  induction es with
  | nil => rfl
  | cons e es ih =>
    by_cases hp : e.ptr = p <;> simp [requantifying, hp] <;> exact ih

theorem mem_setQty_levels (h : k.Lists) {p : OrderPtr} {q : Qty} {l' : Level} :
    l' ∈ (k.setQty p q).levels ↔
      ∃ l ∈ k.levels, { l with orders := l.orders.filterMap (requantifying p q) } = l' := by
  rw [mem_levels, filter_side_requantifying h, filter_side_requantifying h]
  simp only [List.mem_map, mem_levels]
  grind

theorem Lists.fill (h : k.Lists) (f : Fill) : (k.fill f).Lists := by
  apply fill_rule (P := Book.Lists)
  · exact fun _ => (h.filter (keeps_dropping _)).setCidOid _ _ _
  · exact fun _ => h.filter (keeps_requantifying _ _)

theorem Lists.applyAll_fills (h : k.Lists) (a : OrderInfo) (fs : List Fill) :
    (k.applyAll (fs.map (.fill a))).Lists := by
  induction fs generalizing k with
  | nil => exact h
  | cons f fs ih => exact ih (h.fill f)

@[simp] theorem fill_ticker (f : Fill) : (k.fill f).ticker = k.ticker := by
  apply fill_rule (P := fun k' => k'.ticker = k.ticker) <;> exact fun _ => rfl

@[simp] theorem apply_ticker (ev : Event) : (k.apply ev).ticker = k.ticker := by
  cases ev with
  | fill a f => exact fill_ticker f
  | rest e lp q =>
    show (k.rest e lp).ticker = k.ticker
    unfold rest
    dsimp only [setCidOid]
    split
    · rfl
    · split <;> rfl
  | _ => rfl

@[simp] theorem applyAll_ticker (evs : List Event) : (k.applyAll evs).ticker = k.ticker := by
  induction evs generalizing k with
  | nil => rfl
  | cons ev evs ih => rw [applyAll_cons, ih, apply_ticker]

/-- An incoming order meets the levels of the opposite side. -/
theorem queue_eq (hs : s = .buy ∨ s = .sell) : k.queue s = levelOrders (k.side s.opposite) := by
  rcases hs with rfl | rfl <;> rfl

end Book

namespace MEOrderBook

variable {b b' b'' : MEOrderBook} {k : Book} {s : Side} {l : Level} {e : Entry}

/-! ## What has been sent -/

/-- From `b` to `b'` exactly the responses and updates of the events `evs` were sent. -/
structure Sent (b b' : MEOrderBook) (evs : List Event) : Prop where
  responses : b'.responses = b.responses ++ evs.flatMap (Event.responses b.ticker)
  updates : b'.updates = b.updates ++ evs.flatMap (Event.updates b.ticker)

theorem Sent.nil (h : b'.logs = b.logs) : Sent b b' [] := by
  simp only [logs, Prod.mk.injEq] at h
  exact ⟨by simpa using h.1, by simpa using h.2⟩

theorem Sent.trans {evs evs' : List Event} (h : Sent b b' evs) (ht : b'.ticker = b.ticker)
    (h' : Sent b' b'' evs') : Sent b b'' (evs ++ evs') := by
  refine ⟨?_, ?_⟩
  · rw [h'.responses, h.responses, ht, List.flatMap_append, List.append_assoc]
  · rw [h'.updates, h.updates, ht, List.flatMap_append, List.append_assoc]

/-- Sending does not concern the book. -/
theorem sendClientResponse_holds {os : List OrderPtr} {ls : List LevelPtr} (h : Holds b k os ls)
    (r : MEClientResponse) : Holds (b.sendClientResponse r) k os ls :=
  ⟨h.ticker, h.nextOrderId, h.cid, h.side, h.table, h.levelReady, h.levelCells, h.levelLive,
    h.orderReady, h.orderCells, h.orderLive⟩

theorem sendMarketUpdate_holds {os : List OrderPtr} {ls : List LevelPtr} (h : Holds b k os ls)
    (u : MEMarketUpdate) : Holds (b.sendMarketUpdate u) k os ls :=
  ⟨h.ticker, h.nextOrderId, h.cid, h.side, h.table, h.levelReady, h.levelCells, h.levelLive,
    h.orderReady, h.orderCells, h.orderLive⟩

/-! ## One match -/

/-- Giving a resting order's cell another quantity. -/
theorem setQty_refines (h : Rep b k) (hk : k.Lists) (p : OrderPtr) (q : Qty) :
    Rep (b.modifyOrder p fun o => { o with qty := q }) (k.setQty p q) := by
  refine ⟨h.ticker, h.nextOrderId, h.cid, ?_, ?_, h.levelReady, h.levelCells, ?_,
    h.orderReady.modify _ _, h.orderCells, ?_⟩
  · intro t
    rw [Book.filter_side_requantifying hk]
    refine (h.side t).map _ (fun _ => rfl) (fun _ _ => rfl) (fun _ _ => rfl) ?_
    intro l _ hrep
    refine ⟨?_, ?_, ?_⟩
    · show levelLinks.data (b.ordersAtPricePool.get l.ptr) = _
      rw [hrep.data, Book.requantifying_ptrs]
    · show MemPool.Ring orderLinks _ ((l.orders.filterMap (requantifying p q)).map Entry.ptr)
      rw [Book.requantifying_ptrs]
      refine Circular.congr hrep.ring ?_ ?_
      · intro w _
        simp only [modifyOrder, MemPool.get_modify]
        split <;> rfl
      · intro w _
        simp only [modifyOrder, MemPool.get_modify]
        split <;> rfl
    · intro e' he'
      obtain ⟨e, he, hq⟩ := List.mem_filterMap.mp he'
      have hinfo := hrep.info e he
      simp only [modifyOrder, MemPool.get_modify]
      unfold Book.requantifying at hq
      split at hq
      · next hp =>
        obtain rfl := Option.some.inj hq
        rw [if_pos hp, ← hinfo]
      · next hp =>
        obtain rfl := Option.some.inj hq
        rw [if_neg hp, hinfo]
  · intro i w
    rw [show (b.modifyOrder p _).priceToOrdersAtPrice = b.priceToOrdersAtPrice from rfl, h.table]
    simp only [Book.mem_setQty_levels hk]
    constructor
    · rintro ⟨l, hl, rfl, rfl⟩
      exact ⟨_, ⟨l, hl, rfl⟩, rfl, rfl⟩
    · rintro ⟨_, ⟨l, hl, rfl⟩, rfl, rfl⟩
      exact ⟨l, hl, rfl, rfl⟩
  · intro w
    rw [show (b.modifyOrder p _).ordersAtPricePool = b.ordersAtPricePool from rfl, h.levelLive]
    simp only [List.mem_map, Book.mem_setQty_levels hk]
    grind
  · intro w
    rw [show (b.modifyOrder p _).ordersPool = b.ordersPool.modify p _ from rfl,
      MemPool.live_modify, h.orderLive, Book.setQty, Book.filter_entries, Book.requantifying_ptrs]

/-- **A match is a fill**: of the book, of the incoming order and in what is sent. -/
theorem matchOrder_refines (h : Rep b k) (hk : k.Lists) (he : e ∈ k.entries) (a : OrderInfo)
    (left : Qty) {f : Fill} (hf : f = ⟨e, if left < e.info.qty then left else e.info.qty,
      left - if left < e.info.qty then left else e.info.qty⟩) :
    ∃ b', b.matchOrder a.clientId a.clientOrderId a.marketOrderId a.side e.ptr left
        = .ok (f.left, b') ∧ Rep b' (k.fill f) ∧ Sent b b' [.fill a f] := by
  obtain ⟨exec, hexec⟩ : ∃ x, x = if left < e.info.qty then left else e.info.qty := ⟨_, rfl⟩
  rw [← hexec] at hf
  subst hf
  obtain ⟨nx, pv, ho⟩ : ∃ nx pv, b.order e.ptr = ⟨e.info, nx, pv⟩ := by
    have hinfo := h.order_eq he
    cases hord : b.order e.ptr with
    | mk info nx pv =>
      rw [hord] at hinfo
      exact ⟨nx, pv, by rw [← hinfo]⟩
  have hk' : (k.setQty e.ptr (e.info.qty - exec)).Lists := hk.filter (Book.keeps_requantifying _ _)
  have hset : Rep (b.modifyOrder e.ptr fun o => { o with qty := o.qty - exec })
      (k.setQty e.ptr (e.info.qty - exec)) := by
    have hwrite := setQty_refines h hk e.ptr (e.info.qty - exec)
    rw [modifyOrder, MemPool.modify_congr (g := fun o => { o with qty := o.qty - exec })] at hwrite
    · exact hwrite
    · have ho' : b.ordersPool.get e.ptr = ⟨e.info, nx, pv⟩ := ho
      rw [ho']
  unfold matchOrder
  simp only [ho, order_modifyOrder, if_true]
  rw [← hexec]
  by_cases hzero : e.info.qty - exec = 0
  · -- the passive order is filled up and leaves the book
    rw [if_pos hzero]
    generalize hb₁ : (sendMarketUpdate _ _ : MEOrderBook) = b₁
    have hrep₁ : Rep b₁ (k.setQty e.ptr (e.info.qty - exec)) := by
      subst hb₁
      exact sendMarketUpdate_holds (sendMarketUpdate_holds (sendClientResponse_holds
        (sendClientResponse_holds hset _) _) _) _
    obtain ⟨b', hremove, hrep', hlogs⟩ := removeOrder_refines
      (e := { e with info := { e.info with qty := e.info.qty - exec } }) hrep₁ hk'
      (Book.mem_setQty_entries.mpr ⟨e, he, by simp⟩)
    rw [Book.remove_setQty] at hrep'
    refine ⟨b', ?_, ?_, ?_⟩
    · show (b₁.removeOrder e.ptr >>= _) = _
      rw [show b₁.removeOrder e.ptr = _ from hremove]
      rfl
    · unfold Book.fill
      rw [if_pos hzero]
      exact hrep'
    · subst hb₁
      simp only [logs, Prod.mk.injEq] at hlogs
      refine ⟨?_, ?_⟩
      · rw [hlogs.1]
        simp [sendMarketUpdate, sendClientResponse, modifyOrder, Event.responses]
      · rw [hlogs.2]
        simp [sendMarketUpdate, sendClientResponse, modifyOrder, Event.updates, hzero]
  · rw [if_neg hzero]
    refine ⟨_, rfl, ?_, ?_⟩
    · unfold Book.fill
      rw [if_neg hzero]
      exact sendMarketUpdate_holds (sendMarketUpdate_holds (sendClientResponse_holds
        (sendClientResponse_holds hset _) _) _) _
    · refine ⟨?_, ?_⟩
      · simp [sendMarketUpdate, sendClientResponse, modifyOrder, Event.responses]
      · simp [sendMarketUpdate, sendClientResponse, modifyOrder, Event.updates, hzero]

/-! ## The loops -/

/-- A match leaves a queue in which the remaining fills are those of the old one: either its first
order is gone, or nothing is left to trade. -/
theorem fills_fill (hk : k.Lists) (price : Price) {left : Qty} {es : List Entry} {f : Fill}
    (hq : k.queue s = e :: es) (hf : f = ⟨e, if left < e.info.qty then left else e.info.qty,
      left - if left < e.info.qty then left else e.info.qty⟩) :
    fills s price f.left ((k.fill f).queue s) = fills s price f.left es ∧
      (f.left = 0 ∨ (k.fill f).queue s = es) := by
  by_cases hlt : left < e.info.qty
  · have hzero : f.left = 0 := by
      subst hf
      simp [hlt]
    refine ⟨?_, Or.inl hzero⟩
    have hnone : ∀ es : List Entry, fills s price 0 es = [] := by
      intro es
      cases es <;> simp [fills]
    rw [hzero, hnone, hnone]
  · have hqueue : (k.fill f).queue s = es := by
      refine Book.fill_queue_of_full hk hq (by rw [hf]) ?_
      subst hf
      simp [hlt]
    exact ⟨by rw [hqueue], Or.inr hqueue⟩

/-- **The loop does the fills.** Each round is one match, with the order that heads the queue; the
last round finds nothing left to trade, an empty queue or a price that stops it. -/
theorem matchLoop_refines (a : OrderInfo) (hs : a.side = .buy ∨ a.side = .sell)
    (opposite : MEOrderBook → Option LevelPtr)
    (hopp : ∀ b, opposite b = b.levelsHead a.side.opposite) {fuel : Nat} (left : Qty)
    (h : Rep b k) (hk : k.Lists)
    (hfuel : (left = 0 ∧ 0 < fuel) ∨ (k.queue a.side).length + 1 < fuel) :
    ∃ b', matchLoop a.clientId a.clientOrderId a.marketOrderId a.side a.price opposite fuel left b =
        .ok (leftOver left (fills a.side a.price left (k.queue a.side)), b') ∧
      Rep b' (k.applyAll ((fills a.side a.price left (k.queue a.side)).map (.fill a))) ∧
      Sent b b' ((fills a.side a.price left (k.queue a.side)).map (.fill a)) := by
  induction fuel generalizing left b k with
  | zero => omega
  | succ fuel ih =>
    have hdone : ∀ r : List Entry, fills a.side a.price left r = [] →
        matchLoop a.clientId a.clientOrderId a.marketOrderId a.side a.price opposite (fuel + 1)
          left b = .ok (left, b) →
        ∃ b', matchLoop a.clientId a.clientOrderId a.marketOrderId a.side a.price opposite
            (fuel + 1) left b = .ok (leftOver left (fills a.side a.price left r), b') ∧
          Rep b' (k.applyAll ((fills a.side a.price left r).map (.fill a))) ∧
          Sent b b' ((fills a.side a.price left r).map (.fill a)) := by
      intro r hr hloop
      rw [hr]
      exact ⟨b, hloop, h, Sent.nil rfl⟩
    by_cases hleft : left > 0
    · have hlen : (k.queue a.side).length + 1 < fuel + 1 := by
        rcases hfuel with ⟨hzero, -⟩ | hfuel
        · rw [hzero] at hleft
          exact absurd hleft (by decide)
        · exact hfuel
      have hside := h.side a.side.opposite
      have hqueue : k.queue a.side = levelOrders (k.side a.side.opposite) := Book.queue_eq hs
      cases hlevels : k.side a.side.opposite with
      | nil =>
        have hnone : opposite b = none := by
          rw [hopp, hside.head, hlevels]
          rfl
        refine hdone _ ?_ ?_
        · rw [hqueue, hlevels]
          rfl
        · unfold matchLoop
          rw [if_pos hleft, hnone]
      | cons l rest =>
        have hl : l ∈ k.levels := Book.mem_levels_of_mem_side (by rw [hlevels]; simp)
        have hbest : opposite b = some l.ptr := by
          rw [hopp, hside.head, hlevels]
          rfl
        obtain ⟨e, es, hes⟩ := List.exists_cons_of_ne_nil (hk.nonempty l hl)
        have hhead : (b.level l.ptr).ordersHead = some e.ptr := by
          rw [show (b.level l.ptr).ordersHead = _ from (h.levelRep hl).head_eq, hes]
          rfl
        have he : e ∈ k.entries := Book.mem_entries.mpr ⟨l, hl, by simp [hes]⟩
        have hq : k.queue a.side = e :: (es ++ levelOrders rest) := by
          rw [hqueue, hlevels, levelOrders_cons, hes]
          rfl
        have hprice : (b.order e.ptr).price = e.info.price :=
          congrArg OrderInfo.price (h.order_eq he)
        by_cases hstop : stops a.side a.price e.info.price
        · refine hdone _ ?_ ?_
          · rw [hq, fills, hstop]
            simp
          · unfold matchLoop
            rw [if_pos hleft, hbest]
            simp only [hhead, deref_some, bind, Except.bind, hprice, hstop, if_true]
            rfl
        · -- one match, then the rest of the loop on what is left
          obtain ⟨f, hf⟩ : ∃ f : Fill, f = ⟨e, if left < e.info.qty then left else e.info.qty,
              left - if left < e.info.qty then left else e.info.qty⟩ := ⟨_, rfl⟩
          obtain ⟨b₁, hmatch, hrep₁, hsent₁⟩ := matchOrder_refines h hk he a left hf
          obtain ⟨hfills, hrest⟩ := fills_fill hk a.price hq hf
          have hlen₁ : (f.left = 0 ∧ 0 < fuel) ∨ ((k.fill f).queue a.side).length + 1 < fuel := by
            rcases hrest with hzero | hqueue₁
            · exact Or.inl ⟨hzero, by omega⟩
            · rw [hq] at hlen
              rw [hqueue₁]
              exact Or.inr (by simpa using hlen)
          obtain ⟨b', hloop, hrep', hsent'⟩ := ih f.left hrep₁ (hk.fill f) hlen₁
          have hcons : fills a.side a.price left (k.queue a.side) =
              f :: fills a.side a.price f.left ((k.fill f).queue a.side) := by
            have hne : left ≠ 0 := by
              rintro rfl
              exact absurd hleft (by decide)
            rw [hfills, hq, fills, if_neg (by simp [hne, hstop]), hf]
          rw [hcons]
          refine ⟨b', ?_, hrep', ?_⟩
          · unfold matchLoop
            rw [if_pos hleft, hbest]
            simp only [hhead, deref_some, bind, Except.bind, hprice, hstop, hmatch]
            exact hloop
          · have hticker : b₁.ticker = b.ticker := by
              rw [hrep₁.ticker, h.ticker, Book.fill_ticker]
            exact hsent₁.trans hticker hsent'
    · have hzero : left = 0 := by grind
      refine hdone _ ?_ ?_
      · cases k.queue a.side <;> simp [fills, hzero]
      · unfold matchLoop
        rw [if_neg hleft]

/-- **`checkForMatch` does the fills of the incoming order** and returns what is left of it. -/
theorem checkForMatch_refines (a : OrderInfo) (hs : a.side = .buy ∨ a.side = .sell)
    (h : Rep b k) (hk : k.Lists) (qty : Qty) :
    ∃ b', b.checkForMatch a.clientId a.clientOrderId a.side a.price qty a.marketOrderId =
        .ok (leftOver qty (fills a.side a.price qty (k.queue a.side)), b') ∧
      Rep b' (k.applyAll ((fills a.side a.price qty (k.queue a.side)).map (.fill a))) ∧
      Sent b b' ((fills a.side a.price qty (k.queue a.side)).map (.fill a)) := by
  -- the bound on the loop: no queue is longer than the pool
  have hqueue : (k.queue a.side).length ≤ k.entries.length := by
    have hlen : k.entries.length = (levelOrders k.bids).length + (levelOrders k.asks).length := by
      simp [Book.entries, Book.levels]
    rcases hs with hs | hs <;> rw [hs] <;> simp only [Book.queue] <;> omega
  have hfuel : (k.queue a.side).length + 1 < b.ordersPool.numCells + 2 := by
    have := h.entries_length_le hk
    omega
  rcases hs with hs | hs
  · have hloop := matchLoop_refines a (Or.inl hs) asksByPrice
      (fun _ => by rw [hs]; rfl) qty h hk (Or.inr hfuel)
    unfold checkForMatch
    rw [if_pos hs]
    exact hloop
  · have hloop := matchLoop_refines a (Or.inr hs) bidsByPrice
      (fun _ => by rw [hs]; rfl) qty h hk (Or.inr hfuel)
    unfold checkForMatch
    rw [if_neg (by rw [hs]; decide), if_pos hs]
    exact hloop

end MEOrderBook

end TradingSystem
