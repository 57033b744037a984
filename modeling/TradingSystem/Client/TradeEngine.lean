import TradingSystem.Lib.Run
import TradingSystem.Client.OrderManager

/-!
# `TradeEngine`: the position limit, with fills coming back

`client/trade_engine.hpp` and `client/trade_engine.cpp`, as far as orders and their fills are
concerned. The risk manager checks an order against the recorded position when the order is sent; its
fills come later, each passed to the position keeper and to the order manager.

A run is one of moves, of answers to the orders that were sent, and of changes of the book. The true
net position is the sum of the fills; the recorded one is that of the last fill only, since `addFill`
assigns it. The limit holds in every run whose orders would also pass against the true position
(`run_within_limit`): each slot has at most one order that can still be filled, so that the net
position and what is left of this order stay within the limit together.
-/

namespace TradingSystem

variable {D : Type} [Add D] [Sub D] [Mul D] [Div D] [LT D] [DecidableLT D] [IntCast D]

structure TradeEngine (D : Type) where
  orderManager : OrderManager
  positionKeeper : PositionKeeper D
  tickerCfg : TickerId → TradeEngineCfg D

namespace TradeEngine

/-- A response to an order of the client. -/
def onOrderUpdate (e : TradeEngine D) (r : MEClientResponse) : Except Fault (TradeEngine D) := do
  let positionKeeper ←
    (if r.type = .filled then e.positionKeeper.addFill r else .ok e.positionKeeper)
  let orderManager ← e.orderManager.onOrderUpdate r
  return { e with positionKeeper := positionKeeper, orderManager := orderManager }

/-- The part of `onOrderBookUpdate` that concerns the position. -/
def onOrderBookUpdate (e : TradeEngine D) (ticker : TickerId) (bbo : BBO) :
    Except Fault (TradeEngine D) := do
  let positionKeeper ← e.positionKeeper.updateBBO ticker bbo
  return { e with positionKeeper := positionKeeper }

/-- The verdict of the risk manager. -/
def check (e : TradeEngine D) : TickerId → Side → Qty → RiskCheckResult :=
  checkPreTradeRisk e.positionKeeper e.tickerCfg

/-- A strategy moves the orders of a ticker. -/
def moveOrders (e : TradeEngine D) (ticker : TickerId) (bidPrice askPrice : Price) (qty : Qty) :
    Except Fault (TradeEngine D × List MEClientRequest) := do
  let (orderManager, sent) ← e.orderManager.moveOrders e.check ticker bidPrice askPrice qty
  return ({ e with orderManager := orderManager }, sent)

end TradeEngine

/-! ## The orders sent, and their answers -/

/-- What the exchange has answered to an order. -/
inductive SentState where
  | unanswered
  | working (remaining : Qty)
  | cancelled
  deriving DecidableEq

structure SentOrder where
  request : MEClientRequest
  state : SentState
  deriving DecidableEq

namespace SentOrder

/-- The quantity that can still be filled. -/
def outstanding (o : SentOrder) : Nat :=
  match o.state with
  | .unanswered => o.request.qty.toNat
  | .working remaining => remaining.toNat
  | .cancelled => 0

/-- The answer is one that the exchange can give to the order in its state. -/
def Expects (o : SentOrder) (r : MEClientResponse) : Prop :=
  OrderManager.Answers r o.request ∧ r.side = o.request.side ∧
    match r.type, o.state with
    | .accepted, .unanswered => True
    | .filled, .working remaining => 0 < remaining ∧ r.execQty ≤ remaining ∧
        r.leftQty = remaining - r.execQty
    | .cancelled, .working remaining => 0 < remaining
    | .cancelRejected, _ => True
    | _, _ => False

instance (o : SentOrder) (r : MEClientResponse) : Decidable (o.Expects r) := by
  unfold Expects OrderManager.Answers
  split <;> exact inferInstance

def answer (o : SentOrder) (r : MEClientResponse) : SentOrder :=
  match r.type with
  | .accepted => { o with state := .working o.request.qty }
  | .filled => { o with state := .working r.leftQty }
  | .cancelled => { o with state := .cancelled }
  | _ => o

/-- The order is one of the slot of a ticker and a side. -/
def Of (ticker : TickerId) (side : Side) (o : SentOrder) : Prop :=
  o.request.tickerId = ticker ∧ o.request.side = side

instance (ticker : TickerId) (side : Side) (o : SentOrder) : Decidable (o.Of ticker side) :=
  inferInstanceAs (Decidable (_ ∧ _))

end SentOrder

/-- A trade engine and the orders it has sent. -/
structure Desk (D : Type) where
  tradeEngine : TradeEngine D
  orders : List SentOrder

inductive Desk.Input where
  | moveOrders (ticker : TickerId) (bidPrice askPrice : Price) (qty : Qty)
  /-- the exchange answers the `i`-th order sent -/
  | answer (i : Nat) (r : MEClientResponse)
  | bookUpdate (ticker : TickerId) (bbo : BBO)

namespace Desk

/-- No position, and nothing sent. -/
def start (m : OrderManager) (tickerCfg : TickerId → TradeEngineCfg D) : Desk D where
  tradeEngine := { orderManager := m, positionKeeper := .init, tickerCfg := tickerCfg }
  orders := []

/-- The orders among the requests that were sent. -/
def newOrders (sent : List MEClientRequest) : List SentOrder :=
  (sent.filter (·.type = .new)).map fun q => ⟨q, .unanswered⟩

def step (d : Desk D) : Input → Except Fault (Desk D)
  | .moveOrders ticker bidPrice askPrice qty => do
    let (e, sent) ← d.tradeEngine.moveOrders ticker bidPrice askPrice qty
    return { tradeEngine := e, orders := d.orders ++ newOrders sent }
  | .answer i r => do
    let e ← d.tradeEngine.onOrderUpdate r
    return { tradeEngine := e, orders := d.orders.modify i (·.answer r) }
  | .bookUpdate ticker bbo => do
    let e ← d.tradeEngine.onOrderBookUpdate ticker bbo
    return { d with tradeEngine := e }

/-- Quantities are positive, and answers consistent with the orders sent. -/
def Consistent (d : Desk D) : Input → Prop
  | .moveOrders _ _ _ qty => 0 < qty
  | .answer i r => ∃ o ∈ d.orders[i]?, o.Expects r
  | .bookUpdate _ _ => True

instance (d : Desk D) : DecidablePred d.Consistent
  | .moveOrders _ _ _ qty => inferInstanceAs (Decidable (0 < qty))
  | .answer i r => inferInstanceAs (Decidable (∃ o ∈ d.orders[i]?, o.Expects r))
  | .bookUpdate _ _ => inferInstanceAs (Decidable True)

/-- What an input adds to the net position in a ticker. -/
def filledQty (ticker : TickerId) : Input → ℤ
  | .answer _ r =>
    if r.type = .filled ∧ r.tickerId = ticker then r.side.toValue.toInt * r.execQty.toNat else 0
  | _ => 0

/-- **The true net position in a ticker**: the sum over all fills. -/
def netPosition (ticker : TickerId) (inputs : List Input) : ℤ :=
  (inputs.map (filledQty ticker)).sum

def maxPosition (tickerCfg : TickerId → TradeEngineCfg D) (ticker : TickerId) : ℤ :=
  (tickerCfg ticker).riskCfg.maxPosition.toNat

/-- An order that is about to be sent would pass the check of the position limit against the true net
position too. -/
def WithinLimit (tickerCfg : TickerId → TradeEngineCfg D) (inputs : List Input) (d : Desk D) :
    Input → Prop
  | .moveOrders ticker _ _ qty => ∀ side, side = .buy ∨ side = .sell →
      d.tradeEngine.orderManager.Sends d.tradeEngine.check ticker side qty →
        |netPosition ticker inputs + side.toValue.toInt * qty.toNat| ≤ maxPosition tickerCfg ticker
  | _ => True

/-! ## What is outstanding -/

/-- The quantity outstanding in the slot of a ticker and a side. -/
def exposure (ticker : TickerId) (side : Side) (orders : List SentOrder) : ℤ :=
  (orders.map fun o => if o.Of ticker side then (o.outstanding : ℤ) else 0).sum

/-- A slot has at most one order with something outstanding, none if it is dead; and all that is
outstanding could be filled within the limit. -/
structure Bounded (limit net : TickerId → ℤ) (m : OrderManager) (orders : List SentOrder) :
    Prop where
  sides : ∀ o ∈ orders, o.request.side = .buy ∨ o.request.side = .sell
  dead : ∀ t s, (m.tickerSideOrder t s).orderState = .dead →
    ∀ o ∈ orders, o.Of t s → o.outstanding = 0
  single : orders.Pairwise fun o o' =>
    ∀ t s, o.Of t s → o'.Of t s → o.outstanding = 0 ∨ o'.outstanding = 0
  within : ∀ t s, s = .buy ∨ s = .sell →
    s.toValue.toInt * net t + exposure t s orders ≤ limit t

variable {limit net : TickerId → ℤ} {m m' : OrderManager} {orders : List SentOrder}
  {o : SentOrder} {r : MEClientResponse} {ticker : TickerId} {side : Side}

theorem exposure_append (orders orders' : List SentOrder) :
    exposure ticker side (orders ++ orders') =
      exposure ticker side orders + exposure ticker side orders' := by
  unfold exposure
  rw [List.map_append, List.sum_append]

theorem exposure_cons (o : SentOrder) (orders : List SentOrder) :
    exposure ticker side (o :: orders) =
      (if o.Of ticker side then (o.outstanding : ℤ) else 0) + exposure ticker side orders := by
  unfold exposure
  rw [List.map_cons, List.sum_cons]

theorem exposure_nonneg (orders : List SentOrder) : 0 ≤ exposure ticker side orders := by
  apply List.sum_nonneg
  intro x hx
  obtain ⟨o, -, rfl⟩ := List.mem_map.mp hx
  split
  · exact Int.natCast_nonneg _
  · exact le_rfl

theorem exposure_eq_zero (h : ∀ o ∈ orders, o.Of ticker side → o.outstanding = 0) :
    exposure ticker side orders = 0 := by
  apply List.sum_eq_zero
  intro x hx
  obtain ⟨o, ho, rfl⟩ := List.mem_map.mp hx
  split
  · next hof =>
    rw [h o ho hof]
    rfl
  · rfl

/-- The net position alone is within the limit. -/
theorem Bounded.abs_net_le (h : Bounded limit net m orders) (ticker : TickerId) :
    |net ticker| ≤ limit ticker := by
  have hbuy := h.within ticker .buy (Or.inl rfl)
  have hsell := h.within ticker .sell (Or.inr rfl)
  have hbought : 0 ≤ exposure ticker .buy orders := exposure_nonneg orders
  have hsold : 0 ≤ exposure ticker .sell orders := exposure_nonneg orders
  rw [show Side.buy.toValue.toInt = 1 by decide] at hbuy
  rw [show Side.sell.toValue.toInt = -1 by decide] at hsell
  rw [abs_le]
  constructor
  · linarith
  · linarith

theorem bounded_start (hlimit : ∀ t, 0 ≤ limit t) :
    Bounded limit (fun _ => 0) m [] where
  sides := by
    intro o ho
    cases ho
  dead := by
    intro _ _ _ o ho
    cases ho
  single := List.Pairwise.nil
  within := by
    intro t s _
    rw [mul_zero, zero_add]
    exact hlimit t

/-! ## Sending -/

/-- The invariant depends on the states of the slots only as far as they are dead. -/
theorem Bounded.of_dead (h : Bounded limit net m orders)
    (hdead : ∀ t s, (m'.tickerSideOrder t s).orderState = .dead →
      (m.tickerSideOrder t s).orderState = .dead) : Bounded limit net m' orders :=
  ⟨h.sides, fun t s hs => h.dead t s (hdead t s hs), h.single, h.within⟩

/-- An order is sent from a dead slot. -/
theorem Bounded.newOrder {price : Price} {qty : Qty} (h : Bounded limit net m orders)
    (hside : side = .buy ∨ side = .sell)
    (hdead : (m.tickerSideOrder ticker side).orderState = .dead)
    (hlimit : |net ticker + side.toValue.toInt * qty.toNat| ≤ limit ticker) :
    Bounded limit net (m.newOrder ticker price side qty).1
      (orders ++ newOrders (m.newOrder ticker price side qty).2) := by
  have hstate : ∀ t s, ((m.newOrder ticker price side qty).1.tickerSideOrder t s).orderState =
      if t = ticker ∧ s = side then .pendingNew else (m.tickerSideOrder t s).orderState := by
    intro t s
    show ((m.setOrder ticker side _).tickerSideOrder t s).orderState = _
    rw [OrderManager.setOrder_tickerSideOrder]
    split
    · rfl
    · rfl
  obtain ⟨q, hq, hticker, hqside, hqty⟩ : ∃ q, newOrders (m.newOrder ticker price side qty).2 =
      [⟨q, .unanswered⟩] ∧ q.tickerId = ticker ∧ q.side = side ∧ q.qty = qty :=
    ⟨_, rfl, rfl, rfl, rfl⟩
  rw [hq]
  have hof : ∀ t s, (⟨q, .unanswered⟩ : SentOrder).Of t s ↔ ticker = t ∧ side = s := by
    intro t s
    unfold SentOrder.Of
    rw [hticker, hqside]
  have hfree := h.dead ticker side hdead
  refine ⟨?_, ?_, ?_, ?_⟩
  · intro o ho
    rcases List.mem_append.mp ho with ho | ho
    · exact h.sides o ho
    · rw [List.mem_singleton.mp ho, hqside]
      exact hside
  · intro t s hs o ho hslot
    rw [hstate] at hs
    split at hs
    · cases hs
    · next hother =>
      rcases List.mem_append.mp ho with ho | ho
      · exact h.dead t s hs o ho hslot
      · rw [List.mem_singleton.mp ho, hof] at hslot
        exact absurd ⟨hslot.1.symm, hslot.2.symm⟩ hother
  · rw [List.pairwise_append]
    refine ⟨h.single, List.pairwise_singleton _ _, ?_⟩
    intro o ho o' ho' t s hslot hslot'
    rw [List.mem_singleton.mp ho', hof] at hslot'
    obtain ⟨rfl, rfl⟩ := hslot'
    exact Or.inl (hfree o ho hslot)
  · intro t s hs
    rw [exposure_append, exposure_cons]
    show _ + (_ + ((if _ then (q.qty.toNat : ℤ) else 0) + 0)) ≤ _
    rw [hqty, add_zero]
    split
    · next hslot =>
      rw [hof] at hslot
      obtain ⟨rfl, rfl⟩ := hslot
      rw [exposure_eq_zero hfree, zero_add]
      rw [abs_le] at hlimit
      rcases hside with rfl | rfl
      · rw [show Side.buy.toValue.toInt = 1 by decide] at hlimit ⊢
        linarith
      · rw [show Side.sell.toValue.toInt = -1 by decide] at hlimit ⊢
        linarith
    · rw [add_zero]
      exact h.within t s hs

theorem newOrders_append (sent sent' : List MEClientRequest) :
    newOrders (sent ++ sent') = newOrders sent ++ newOrders sent' := by
  unfold newOrders
  rw [List.filter_append, List.map_append]

theorem Bounded.moveOrder {check : TickerId → Side → Qty → RiskCheckResult} {price : Price}
    {qty : Qty} {sent : List MEClientRequest} (h : Bounded limit net m orders)
    (hside : side = .buy ∨ side = .sell)
    (hlimit : m.Sends check ticker side qty →
      |net ticker + side.toValue.toInt * qty.toNat| ≤ limit ticker)
    (hok : m.moveOrder check ticker price side qty = (m', sent)) :
    Bounded limit net m' (orders ++ newOrders sent) := by
  have hmoved := OrderManager.moved check m ticker price side qty
  rw [hok] at hmoved
  cases hmoved with
  | sentNew hdead hallowed => exact h.newOrder hside hdead (hlimit ⟨hdead, hallowed⟩)
  | sentCancel =>
    show Bounded limit net _ (orders ++ [])
    rw [List.append_nil]
    apply h.of_dead
    intro t s hs
    change ((m.setOrder ticker side _).tickerSideOrder t s).orderState = _ at hs
    rw [OrderManager.setOrder_tickerSideOrder] at hs
    split at hs
    · cases hs
    · exact hs
  | kept =>
    show Bounded limit net _ (orders ++ [])
    rw [List.append_nil]
    exact h

/-! ## Answers -/

@[simp] theorem answer_request (o : SentOrder) (r : MEClientResponse) :
    (o.answer r).request = o.request := by
  unfold SentOrder.answer
  split <;> rfl

theorem answer_of_iff {t : TickerId} {s : Side} : (o.answer r).Of t s ↔ o.Of t s := by
  unfold SentOrder.Of
  rw [answer_request]

/-- What is filled was outstanding before. -/
theorem outstanding_answer (h : o.Expects r) :
    (o.answer r).outstanding + (if r.type = .filled then r.execQty.toNat else 0) ≤ o.outstanding := by
  obtain ⟨-, -, hexpects⟩ := h
  unfold SentOrder.answer SentOrder.outstanding
  cases htype : r.type with
  | accepted =>
    cases hstate : o.state with
    | unanswered => exact le_rfl
    | _ => simp [htype, hstate] at hexpects
  | filled =>
    cases hstate : o.state with
    | working remaining =>
      simp only [htype, hstate] at hexpects
      obtain ⟨-, hexec, hleft⟩ := hexpects
      show r.leftQty.toNat + r.execQty.toNat ≤ remaining.toNat
      rw [hleft, UInt32.toNat_sub_of_le _ _ hexec]
      have hle : r.execQty.toNat ≤ remaining.toNat := hexec
      omega
    | _ => simp [htype, hstate] at hexpects
  | cancelled => exact Nat.zero_le _
  | cancelRejected => exact le_rfl
  | _ => simp [htype] at hexpects

/-- An answer that leaves its slot dead finds it dead, or ends the order. -/
theorem dead_of_answer (h : o.Expects r) {order : OMOrder}
    (hdead : (OrderManager.applyResponse r order).orderState = .dead) :
    order.orderState = .dead ∨ ((o.answer r).outstanding = 0 ∧ 0 < o.outstanding) := by
  obtain ⟨-, -, hexpects⟩ := h
  unfold OrderManager.applyResponse at hdead
  unfold SentOrder.answer SentOrder.outstanding
  cases htype : r.type with
  | accepted => simp [htype] at hdead
  | filled =>
    cases hstate : o.state with
    | working remaining =>
      simp only [htype, hstate] at hexpects hdead
      split at hdead
      · next hleft =>
        right
        refine ⟨?_, UInt32.lt_iff_toNat_lt.mp hexpects.1⟩
        show r.leftQty.toNat = 0
        rw [hleft]
        rfl
      · exact Or.inl hdead
    | _ => simp [htype, hstate] at hexpects
  | cancelled =>
    cases hstate : o.state with
    | working remaining =>
      simp only [htype, hstate] at hexpects
      exact Or.inr ⟨rfl, UInt32.lt_iff_toNat_lt.mp hexpects⟩
    | _ => simp [htype, hstate] at hexpects
  | cancelRejected =>
    simp only [htype] at hdead
    exact Or.inl hdead
  | _ => simp [htype] at hexpects

/-- The net positions after a response. -/
def addFilled (net : TickerId → ℤ) (r : MEClientResponse) : TickerId → ℤ := fun t =>
  net t + if r.type = .filled ∧ r.tickerId = t then r.side.toValue.toInt * r.execQty.toNat else 0

/-- A fill on a side adds to the position on this side what it takes from what is outstanding there,
and takes as much from that on the other. -/
theorem within_answer (h : o.Expects r) (hside : o.request.side = .buy ∨ o.request.side = .sell)
    {t : TickerId} {s : Side} (hs : s = .buy ∨ s = .sell) :
    s.toValue.toInt * addFilled net r t +
        (if o.Of t s then ((o.answer r).outstanding : ℤ) else 0) ≤
      s.toValue.toInt * net t + (if o.Of t s then (o.outstanding : ℤ) else 0) := by
  have hle := outstanding_answer h
  obtain ⟨⟨-, hticker, -⟩, hrside, -⟩ := h
  unfold addFilled
  by_cases ht : r.tickerId = t
  · by_cases hfilled : r.type = .filled
    · rw [if_pos hfilled] at hle
      rw [if_pos ⟨hfilled, ht⟩]
      have hexec : (0 : ℤ) ≤ r.execQty.toNat := Int.natCast_nonneg _
      by_cases hsame : o.request.side = s
      · have hof : o.Of t s := ⟨hticker ▸ ht, hsame⟩
        rw [if_pos hof, if_pos hof, hrside, hsame]
        rcases hs with rfl | rfl
        · rw [show Side.buy.toValue.toInt = 1 by decide]
          omega
        · rw [show Side.sell.toValue.toInt = -1 by decide]
          omega
      · have hof : ¬ o.Of t s := fun hof => hsame hof.2
        rw [if_neg hof, if_neg hof, hrside]
        rcases hs with rfl | rfl
        · obtain hsell := hside.resolve_left hsame
          rw [hsell, show Side.buy.toValue.toInt = 1 by decide,
            show Side.sell.toValue.toInt = -1 by decide]
          omega
        · obtain hbuy := hside.resolve_right hsame
          rw [hbuy, show Side.buy.toValue.toInt = 1 by decide,
            show Side.sell.toValue.toInt = -1 by decide]
          omega
    · rw [if_neg (fun hc => hfilled hc.1), add_zero]
      split
      · omega
      · exact le_rfl
  · rw [if_neg (fun hc => ht hc.2), add_zero, if_neg (fun hof => ht (hticker.trans hof.1)),
      if_neg (fun hof => ht (hticker.trans hof.1))]

theorem Bounded.answer {i : Nat} (h : Bounded limit net m orders) (ho : o ∈ orders[i]?)
    (hexpects : o.Expects r) (hok : m.onOrderUpdate r = .ok m') :
    Bounded limit (addFilled net r) m' (orders.modify i (·.answer r)) := by
  obtain ⟨hi, rfl⟩ := List.getElem?_eq_some_iff.mp ho
  obtain ⟨pre, o, post, horders, hlength, hmodify⟩ := List.exists_of_modify (·.answer r) hi
  have hget : orders[i] = o := by
    simp [horders, ← hlength]
  rw [hget] at hexpects
  rw [hmodify]
  rw [horders] at h
  clear horders hmodify hget ho
  have hslot := OrderManager.onOrderUpdate_eq hok
  have hside := h.sides o (by simp)
  have hmono : o.outstanding = 0 → (o.answer r).outstanding = 0 := by
    have := outstanding_answer hexpects
    omega
  have hsingle := List.pairwise_append.mp h.single
  have hpost := List.pairwise_cons.mp hsingle.2.1
  refine ⟨?_, ?_, ?_, ?_⟩
  · intro o' ho'
    rcases List.mem_append.mp ho' with ho' | ho'
    · exact h.sides o' (List.mem_append_left _ ho')
    · rcases List.mem_cons.mp ho' with rfl | ho'
      · rw [answer_request]
        exact hside
      · exact h.sides o' (by simp [ho'])
  · intro t s hdead
    have hcases : (m.tickerSideOrder t s).orderState = .dead ∨
        (o.Of t s ∧ (o.answer r).outstanding = 0 ∧ 0 < o.outstanding) := by
      rw [hslot, OrderManager.setOrder_tickerSideOrder] at hdead
      split at hdead
      · next hsame =>
        obtain ⟨rfl, rfl⟩ := hsame
        rcases dead_of_answer hexpects hdead with hold | hends
        · exact Or.inl hold
        · exact Or.inr ⟨⟨hexpects.1.2.1.symm, hexpects.2.1.symm⟩, hends⟩
      · exact Or.inl hdead
    intro o' ho' hof'
    rcases hcases with hold | ⟨hof, hzero, hpos⟩
    · have hfree := h.dead t s hold
      rcases List.mem_append.mp ho' with ho' | ho'
      · exact hfree o' (List.mem_append_left _ ho') hof'
      · rcases List.mem_cons.mp ho' with rfl | ho'
        · exact hmono (hfree o (by simp) (answer_of_iff.mp hof'))
        · exact hfree o' (by simp [ho']) hof'
    · -- the order that ends was the only one with something outstanding
      rcases List.mem_append.mp ho' with ho' | ho'
      · have hone := hsingle.2.2 o' ho' o (by simp) t s hof' hof
        exact hone.resolve_right (by omega)
      · rcases List.mem_cons.mp ho' with rfl | ho'
        · exact hzero
        · have hone := hpost.1 o' ho' t s hof hof'
          exact hone.resolve_left (by omega)
  · rw [List.pairwise_append, List.pairwise_cons]
    refine ⟨hsingle.1, ⟨?_, hpost.2⟩, ?_⟩
    · intro o' ho' t s hof hof'
      exact (hpost.1 o' ho' t s (answer_of_iff.mp hof) hof').imp_left hmono
    · intro o₁ ho₁ o₂ ho₂ t s hof₁ hof₂
      rcases List.mem_cons.mp ho₂ with rfl | ho₂
      · exact (hsingle.2.2 o₁ ho₁ o (by simp) t s hof₁ (answer_of_iff.mp hof₂)).imp_right hmono
      · exact hsingle.2.2 o₁ ho₁ o₂ (by simp [ho₂]) t s hof₁ hof₂
  · intro t s hs
    have hwithin := h.within t s hs
    have hanswer : s.toValue.toInt * addFilled net r t + _ ≤ s.toValue.toInt * net t + _ :=
      within_answer hexpects hside hs
    rw [exposure_append, exposure_cons] at hwithin ⊢
    simp only [answer_of_iff]
    linarith

/-! ## Runs -/

variable {m : OrderManager} {tickerCfg : TickerId → TradeEngineCfg D} {d d' : Desk D}
  {inputs : List Input} {input : Input}

theorem netPosition_concat (input : Input) :
    netPosition ticker (inputs ++ [input]) = netPosition ticker inputs + filledQty ticker input := by
  unfold netPosition
  rw [List.map_append, List.sum_append, List.map_singleton, List.sum_singleton]

/-- What holds of a desk after the inputs. -/
def Holds (tickerCfg : TickerId → TradeEngineCfg D) (inputs : List Input) (d : Desk D) : Prop :=
  Bounded (maxPosition tickerCfg) (fun t => netPosition t inputs) d.tradeEngine.orderManager d.orders

theorem Holds.step (h : Holds tickerCfg inputs d) (hconsistent : d.Consistent input)
    (hwithin : WithinLimit tickerCfg inputs d input) (hok : d.step input = .ok d') :
    Holds tickerCfg (inputs ++ [input]) d' := by
  cases input with
  | moveOrders ticker bidPrice askPrice qty =>
    obtain ⟨⟨e, sent⟩, hengine, hd⟩ := bind_eq_ok.mp hok
    obtain ⟨⟨m', sent'⟩, hmove, he⟩ := bind_eq_ok.mp hengine
    obtain ⟨rfl, rfl⟩ := Prod.mk.inj (Except.ok.inj he)
    obtain rfl := Except.ok.inj hd
    obtain ⟨m₁, bidSent, askSent, hbid, hask, rfl, -, hsell, -⟩ :=
      OrderManager.moveOrders_sides hmove
    unfold Holds at h ⊢
    simp only [netPosition_concat, filledQty, add_zero]
    have hfirst := h.moveOrder (Or.inl rfl) (hwithin .buy (Or.inl rfl)) hbid
    have hsecond := hfirst.moveOrder (Or.inr rfl) (fun hsends => by
      apply hwithin .sell (Or.inr rfl)
      unfold OrderManager.Sends at hsends ⊢
      rwa [hsell] at hsends) hask
    rw [List.append_assoc, ← newOrders_append] at hsecond
    exact hsecond
  | answer i r =>
    obtain ⟨e, hengine, hd⟩ := bind_eq_ok.mp hok
    obtain ⟨positionKeeper, -, hkept⟩ := bind_eq_ok.mp hengine
    obtain ⟨m', hupdate, he⟩ := bind_eq_ok.mp hkept
    obtain rfl := Except.ok.inj he
    obtain rfl := Except.ok.inj hd
    obtain ⟨o, ho, hexpects⟩ := hconsistent
    unfold Holds at h ⊢
    simp only [netPosition_concat]
    exact h.answer ho hexpects hupdate
  | bookUpdate ticker bbo =>
    obtain ⟨e, hengine, hd⟩ := bind_eq_ok.mp hok
    obtain ⟨positionKeeper, -, he⟩ := bind_eq_ok.mp hengine
    obtain rfl := Except.ok.inj he
    obtain rfl := Except.ok.inj hd
    unfold Holds at h ⊢
    simp only [netPosition_concat, filledQty, add_zero]
    exact h

/-- **The position limit holds in every run whose orders would also pass against the true net
position.** -/
theorem run_within_limit
    (hconsistent : AllSteps step (start m tickerCfg) (fun _ => Consistent) inputs)
    (hwithin : AllSteps step (start m tickerCfg) (WithinLimit tickerCfg) inputs)
    (hrun : inputs.foldlM step (start m tickerCfg) = .ok d) (ticker : TickerId) :
    |netPosition ticker inputs| ≤ maxPosition tickerCfg ticker := by
  have hboth := AllSteps.and hconsistent hwithin
  have hholds : Holds tickerCfg inputs d := by
    apply run_induction (motive := Holds tickerCfg) _ _ hboth hrun
    · exact bounded_start fun t => Int.natCast_nonneg _
    · intro inputs input d d' _ hinput h hok
      exact h.step hinput.1 hinput.2 hok
  exact hholds.abs_net_le ticker

/-- Orders of at most 10 and positions of at most 10, whatever is lost. -/
def tenAtMost : TickerId → TradeEngineCfg ℤ := fun _ => ⟨10, 0, ⟨10, 10, -10000⟩⟩

/-- A response to the `orderId`-th order of client 1, to buy 10 at 100. -/
def bought (orderId : OrderId) (type : ClientResponseType) (execQty leftQty : Qty) :
    MEClientResponse where
  type := type
  clientId := 1
  tickerId := 0
  clientOrderId := orderId
  side := .buy
  price := 100
  execQty := execQty
  leftQty := leftQty

/-- Buy 10 at 100, in two fills. -/
def twoFills : List Input :=
  [.moveOrders 0 100 200 10, .answer 0 (bought 1 .accepted 0 10), .answer 0 (bought 1 .filled 5 5),
    .answer 0 (bought 1 .filled 5 0)]

/-- **Two partial fills.** The recorded position is the 5 of the second, so that 5 more may be
bought. -/
theorem not_within_limit_of_two_fills :
    ∃ inputs, AllSteps step (start (.allDead 1) tenAtMost) (fun _ => Consistent) inputs ∧
      (inputs.foldlM step (start (.allDead 1) tenAtMost)).toBool = true ∧
      maxPosition tenAtMost 0 = 10 ∧ netPosition 0 inputs = 15 := by
  refine ⟨twoFills ++ [.moveOrders 0 100 200 5, .answer 2 (bought 3 .accepted 0 5),
    .answer 2 (bought 3 .filled 5 0)], ?_, ?_, ?_, ?_⟩
  · exact AllSteps.of_check (by decide +kernel)
  · decide +kernel
  · rfl
  · decide +kernel

/-- A run that keeps the limit: the first two fills. -/
theorem run_within_limit_two_fills :
    ∃ d, twoFills.foldlM step (start (.allDead 1) tenAtMost) = .ok d ∧
      |netPosition 0 twoFills| ≤ maxPosition tenAtMost 0 := by
  obtain ⟨d, hrun⟩ : ∃ d, twoFills.foldlM step (start (.allDead 1) tenAtMost) = .ok d :=
    exists_ok (by decide +kernel)
  refine ⟨d, hrun, run_within_limit (AllSteps.of_check (by decide +kernel)) ?_ hrun 0⟩
  intro pre input post d hinputs hpre
  cases pre with
  | nil =>
    obtain rfl : .moveOrders 0 100 200 10 = input := (List.cons.inj hinputs).1
    intro side hside _
    rcases hside with rfl | rfl
    · decide
    · decide
  | cons first pre =>
    have hmem : input ∈ twoFills.tail := by
      rw [hinputs]
      simp
    simp only [twoFills, List.tail_cons, List.mem_cons, List.not_mem_nil, or_false] at hmem
    rcases hmem with rfl | rfl | rfl
    · trivial
    · trivial
    · trivial

end Desk

end TradingSystem
