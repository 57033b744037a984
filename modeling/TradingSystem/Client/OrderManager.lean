import TradingSystem.Client.PositionKeeper

/-!
# `OrderManager`: one order for each ticker and side

`client/om_order.hpp`, `client/order_manager.hpp` and `client/order_manager.cpp`. A slot keeps the
order the client has, or had, for a ticker and a side. `moveOrders` sends requests according to the
states of the two slots of a ticker; a response changes the slot of its ticker and side, whatever
order the slot holds (`onOrderUpdate`).

A function that sends requests returns them. The risk manager is a parameter: its verdict on an
order of a ticker, a side and a quantity.
-/

namespace TradingSystem

/-- `sideToIndex`. The side is converted to an unsigned number before one is added. -/
def Side.toIndex (s : Side) : UInt64 := s.toByte.toInt8.toInt64.toUInt64 + 1

inductive OMOrderState where
  | invalid
  | pendingNew
  | live
  | pendingCancel
  | dead
  deriving DecidableEq

structure OMOrder where
  tickerId : TickerId := tickerIdInvalid
  orderId : OrderId := orderIdInvalid
  side : Side := .invalid
  price : Price := priceInvalid
  qty : Qty := qtyInvalid
  orderState : OMOrderState := .invalid
  deriving DecidableEq

structure OrderManager where
  /-- `trade_engine_.clientId()` -/
  clientId : ClientId
  tickerSideOrder : TickerId → Side → OMOrder
  nextOrderId : OrderId

namespace OrderManager

/-- The constructor. -/
def init (clientId : ClientId) : OrderManager where
  clientId := clientId
  tickerSideOrder := fun _ _ => {}
  nextOrderId := 1

/-- A manager all of whose slots are free, as no constructor makes it (`Reachable.invalid`). -/
def allDead (clientId : ClientId) : OrderManager :=
  { init clientId with tickerSideOrder := fun _ _ => { orderState := .dead } }

/-- `ticker_side_order_.at(ticker).at(sideToIndex(side))` does not throw. -/
def inTable (ticker : TickerId) (side : Side) : Prop :=
  ticker.toNat < meMaxTickers ∧ side.toIndex ≤ Side.max.toIndex

instance (ticker : TickerId) (side : Side) : Decidable (inTable ticker side) :=
  inferInstanceAs (Decidable (_ ∧ _))

def setOrder (m : OrderManager) (ticker : TickerId) (side : Side) (order : OMOrder) :
    OrderManager :=
  { m with
    tickerSideOrder := Function.update m.tickerSideOrder ticker
      (Function.update (m.tickerSideOrder ticker) side order) }

/-- Send a `NEW` for the slot of a ticker and a side. -/
def newOrder (m : OrderManager) (ticker : TickerId) (price : Price) (side : Side) (qty : Qty) :
    OrderManager × List MEClientRequest :=
  let newRequest : MEClientRequest := {
    type := .new, clientId := m.clientId, tickerId := ticker, orderId := m.nextOrderId,
    side := side, price := price, qty := qty }
  let order : OMOrder := {
    tickerId := ticker, orderId := m.nextOrderId, side := side, price := price, qty := qty,
    orderState := .pendingNew }
  ({ m.setOrder ticker side order with nextOrderId := m.nextOrderId + 1 }, [newRequest])

/-- Send a `CANCEL` for the order of a slot. -/
def cancelOrder (m : OrderManager) (ticker : TickerId) (side : Side) :
    OrderManager × List MEClientRequest :=
  let order := m.tickerSideOrder ticker side
  let cancelRequest : MEClientRequest := {
    type := .cancel, clientId := m.clientId, tickerId := order.tickerId, orderId := order.orderId,
    side := order.side, price := order.price, qty := order.qty }
  (m.setOrder ticker side { order with orderState := .pendingCancel }, [cancelRequest])

/-- Move the order of a slot to a price. -/
def moveOrder (checkPreTradeRisk : TickerId → Side → Qty → RiskCheckResult) (m : OrderManager)
    (ticker : TickerId) (price : Price) (side : Side) (qty : Qty) :
    OrderManager × List MEClientRequest :=
  match (m.tickerSideOrder ticker side).orderState with
  | .live =>
    if (m.tickerSideOrder ticker side).price ≠ price then m.cancelOrder ticker side else (m, [])
  | .dead =>
    if checkPreTradeRisk ticker side qty = .allowed then m.newOrder ticker price side qty
    else (m, [])
  | .invalid => (m, [])
  | .pendingCancel => (m, [])
  | .pendingNew => (m, [])

def moveOrders (checkPreTradeRisk : TickerId → Side → Qty → RiskCheckResult) (m : OrderManager)
    (ticker : TickerId) (bidPrice askPrice : Price) (qty : Qty) :
    Except Fault (OrderManager × List MEClientRequest) :=
  if inTable ticker .buy ∧ inTable ticker .sell then
    let (m, bidRequests) := m.moveOrder checkPreTradeRisk ticker bidPrice .buy qty
    let (m, askRequests) := m.moveOrder checkPreTradeRisk ticker askPrice .sell qty
    .ok (m, bidRequests ++ askRequests)
  else .error .outOfRange

/-- What a response makes of the order of its slot. -/
def applyResponse (r : MEClientResponse) (order : OMOrder) : OMOrder :=
  match r.type with
  | .accepted => { order with orderState := .live }
  | .cancelled => { order with orderState := .dead }
  | .filled =>
    let order := { order with qty := r.leftQty }
    if order.qty = 0 then { order with orderState := .dead } else order
  | .cancelRejected => order
  | .invalid => order
  | .unnamed _ => order

def onOrderUpdate (m : OrderManager) (r : MEClientResponse) : Except Fault OrderManager :=
  if inTable r.tickerId r.side then
    .ok (m.setOrder r.tickerId r.side (applyResponse r (m.tickerSideOrder r.tickerId r.side)))
  else .error .outOfRange

/-! ## What each function does to the slots -/

variable {m m' : OrderManager} {check : TickerId → Side → Qty → RiskCheckResult}
  {ticker t : TickerId} {side s : Side} {price bidPrice askPrice : Price} {qty : Qty}
  {sent : List MEClientRequest} {r : MEClientResponse}

theorem setOrder_tickerSideOrder (order : OMOrder) :
    (m.setOrder ticker side order).tickerSideOrder t s =
      if t = ticker ∧ s = side then order else m.tickerSideOrder t s := by
  by_cases ht : t = ticker
  · subst ht
    by_cases hs : s = side
    · subst hs
      simp [setOrder]
    · simp [setOrder, hs]
  · simp [setOrder, ht]

/-- What `moveOrder` can do: send a `NEW` from a dead slot, send a `CANCEL` from a live one whose
order is at another price, or nothing. -/
inductive Moved (check : TickerId → Side → Qty → RiskCheckResult) (m : OrderManager)
    (ticker : TickerId) (price : Price) (side : Side) (qty : Qty) :
    OrderManager × List MEClientRequest → Prop
  | sentNew (hdead : (m.tickerSideOrder ticker side).orderState = .dead)
      (hallowed : check ticker side qty = .allowed) :
      Moved check m ticker price side qty (m.newOrder ticker price side qty)
  | sentCancel (hlive : (m.tickerSideOrder ticker side).orderState = .live)
      (hprice : (m.tickerSideOrder ticker side).price ≠ price) :
      Moved check m ticker price side qty (m.cancelOrder ticker side)
  | kept : Moved check m ticker price side qty (m, [])

theorem moved (check : TickerId → Side → Qty → RiskCheckResult) (m : OrderManager)
    (ticker : TickerId) (price : Price) (side : Side) (qty : Qty) :
    Moved check m ticker price side qty (m.moveOrder check ticker price side qty) := by
  unfold moveOrder
  cases hstate : (m.tickerSideOrder ticker side).orderState with
  | live =>
    dsimp only
    split
    · next hprice => exact .sentCancel hstate hprice
    · exact .kept
  | dead =>
    dsimp only
    split
    · next hallowed => exact .sentNew hstate hallowed
    · exact .kept
  | invalid => exact .kept
  | pendingCancel => exact .kept
  | pendingNew => exact .kept

/-- `moveOrders` moves the buy slot and then the sell slot. -/
theorem moveOrders_eq (hok : m.moveOrders check ticker bidPrice askPrice qty = .ok (m', sent)) :
    ticker.toNat < meMaxTickers ∧ ∃ m₁ bidSent askSent,
      m.moveOrder check ticker bidPrice .buy qty = (m₁, bidSent) ∧
      m₁.moveOrder check ticker askPrice .sell qty = (m', askSent) ∧
      sent = bidSent ++ askSent := by
  unfold moveOrders at hok
  split at hok
  · next htable =>
    obtain ⟨rfl, rfl⟩ := Prod.mk.inj (Except.ok.inj hok)
    exact ⟨htable.1.1, _, _, _, rfl, rfl, rfl⟩
  · cases hok

/-- A response changes one slot. -/
theorem onOrderUpdate_eq (hok : m.onOrderUpdate r = .ok m') :
    m' = m.setOrder r.tickerId r.side
      (applyResponse r (m.tickerSideOrder r.tickerId r.side)) := by
  unfold onOrderUpdate at hok
  split at hok
  · exact (Except.ok.inj hok).symm
  · cases hok

/-- `moveOrder` touches no other slot. -/
theorem moveOrder_other (h : ¬ (t = ticker ∧ s = side)) :
    (m.moveOrder check ticker price side qty).1.tickerSideOrder t s = m.tickerSideOrder t s := by
  have hmoved := moved check m ticker price side qty
  generalize m.moveOrder check ticker price side qty = result at hmoved
  cases hmoved with
  | sentNew =>
    show (m.setOrder ticker side _).tickerSideOrder t s = _
    rw [setOrder_tickerSideOrder, if_neg h]
  | sentCancel =>
    show (m.setOrder ticker side _).tickerSideOrder t s = _
    rw [setOrder_tickerSideOrder, if_neg h]
  | kept => rfl

/-! ## What is sent at which price -/

/-- A `NEW` would be sent for the slot. -/
def Sends (check : TickerId → Side → Qty → RiskCheckResult) (m : OrderManager) (ticker : TickerId)
    (side : Side) (qty : Qty) : Prop :=
  (m.tickerSideOrder ticker side).orderState = .dead ∧ check ticker side qty = .allowed

/-- A `NEW` is sent exactly from a dead slot with a favourable verdict, at the price passed. -/
theorem new_mem_moveOrder_iff {r : MEClientRequest} :
    r ∈ (m.moveOrder check ticker price side qty).2 ∧ r.type = .new ↔
      m.Sends check ticker side qty ∧ r = {
        type := .new, clientId := m.clientId, tickerId := ticker, orderId := m.nextOrderId,
        side := side, price := price, qty := qty } := by
  unfold moveOrder Sends
  cases hstate : (m.tickerSideOrder ticker side).orderState with
  | dead =>
    dsimp only
    split
    · next hallowed =>
      constructor
      · intro ⟨hmem, _⟩
        exact ⟨⟨rfl, hallowed⟩, List.mem_singleton.mp hmem⟩
      · intro ⟨_, hr⟩
        rw [hr]
        exact ⟨List.mem_singleton.mpr rfl, rfl⟩
    · next hrefused =>
      constructor
      · intro ⟨hmem, _⟩
        cases hmem
      · intro ⟨⟨_, hallowed⟩, _⟩
        exact absurd hallowed hrefused
  | live =>
    dsimp only
    constructor
    · intro ⟨hmem, htype⟩
      split at hmem
      · rw [List.mem_singleton.mp hmem] at htype
        cases htype
      · cases hmem
    · intro ⟨⟨hdead, _⟩, _⟩
      cases hdead
  | invalid | pendingNew | pendingCancel =>
    constructor
    · intro ⟨hmem, _⟩
      cases hmem
    · intro ⟨⟨hdead, _⟩, _⟩
      cases hdead

/-- Without a `NEW`, a slot keeps its order or has it cancelled. -/
theorem moveOrder_slot (h : ¬ m.Sends check ticker side qty)
    (hok : m.moveOrder check ticker price side qty = (m', sent)) :
    m'.tickerSideOrder ticker side = m.tickerSideOrder ticker side ∨
      ((m.tickerSideOrder ticker side).orderState = .live ∧
        sent = (m.cancelOrder ticker side).2 ∧
        m'.tickerSideOrder ticker side =
          { m.tickerSideOrder ticker side with orderState := .pendingCancel }) := by
  have hmoved := moved check m ticker price side qty
  rw [hok] at hmoved
  cases hmoved with
  | sentNew hdead hallowed => exact absurd ⟨hdead, hallowed⟩ h
  | sentCancel hlive =>
    refine Or.inr ⟨hlive, rfl, ?_⟩
    show (m.setOrder ticker side _).tickerSideOrder ticker side = _
    rw [setOrder_tickerSideOrder, if_pos ⟨rfl, rfl⟩]
  | kept => exact Or.inl rfl

theorem moveOrder_clientId (hok : m.moveOrder check ticker price side qty = (m', sent)) :
    m'.clientId = m.clientId := by
  have hmoved := moved check m ticker price side qty
  rw [hok] at hmoved
  cases hmoved with
  | sentNew => rfl
  | sentCancel => rfl
  | kept => rfl

/-- The `CANCEL` for a slot depends on the order of the slot only. -/
theorem cancelOrder_requests (hclient : m'.clientId = m.clientId)
    (hslot : m'.tickerSideOrder ticker side = m.tickerSideOrder ticker side) :
    (m'.cancelOrder ticker side).2 = (m.cancelOrder ticker side).2 := by
  unfold cancelOrder
  rw [hclient, hslot]

/-- What `moveOrders` does, in terms of the state before it: the two slots of the ticker are moved
independently. -/
theorem moveOrders_sides (hok : m.moveOrders check ticker bidPrice askPrice qty = .ok (m', sent)) :
    ∃ m₁ bidSent askSent,
      m.moveOrder check ticker bidPrice .buy qty = (m₁, bidSent) ∧
      m₁.moveOrder check ticker askPrice .sell qty = (m', askSent) ∧
      sent = bidSent ++ askSent ∧ m₁.clientId = m.clientId ∧
      m₁.tickerSideOrder ticker .sell = m.tickerSideOrder ticker .sell ∧
      m'.tickerSideOrder ticker .buy = m₁.tickerSideOrder ticker .buy := by
  obtain ⟨-, m₁, bidSent, askSent, hbid, hask, rfl⟩ := moveOrders_eq hok
  refine ⟨m₁, bidSent, askSent, hbid, hask, rfl, moveOrder_clientId hbid, ?_, ?_⟩
  · rw [show m₁ = (m.moveOrder check ticker bidPrice .buy qty).1 by rw [hbid]]
    apply moveOrder_other
    intro ⟨_, hcontra⟩
    cases hcontra
  · rw [show m' = (m₁.moveOrder check ticker askPrice .sell qty).1 by rw [hask]]
    apply moveOrder_other
    intro ⟨_, hcontra⟩
    cases hcontra

/-- The `NEW`s that `moveOrders` sends, each at the price passed for its side. -/
theorem new_mem_moveOrders {r : MEClientRequest}
    (hok : m.moveOrders check ticker bidPrice askPrice qty = .ok (m', sent)) (hmem : r ∈ sent)
    (htype : r.type = .new) :
    (r.side = .buy ∧ r.price = bidPrice ∧ m.Sends check ticker .buy qty) ∨
      (r.side = .sell ∧ r.price = askPrice ∧ m.Sends check ticker .sell qty) := by
  obtain ⟨m₁, bidSent, askSent, hbid, hask, rfl, -, hsell, -⟩ := moveOrders_sides hok
  rcases List.mem_append.mp hmem with hmem | hmem
  · left
    rw [show bidSent = (m.moveOrder check ticker bidPrice .buy qty).2 by rw [hbid]] at hmem
    obtain ⟨hsends, rfl⟩ := new_mem_moveOrder_iff.mp ⟨hmem, htype⟩
    exact ⟨rfl, rfl, hsends⟩
  · right
    rw [show askSent = (m₁.moveOrder check ticker askPrice .sell qty).2 by rw [hask]] at hmem
    obtain ⟨hsends, rfl⟩ := new_mem_moveOrder_iff.mp ⟨hmem, htype⟩
    refine ⟨rfl, rfl, ?_⟩
    unfold Sends at hsends ⊢
    rwa [hsell] at hsends

/-- For a side that would send, `moveOrders` does send a `NEW` at the price passed. -/
theorem exists_new_of_sends
    (hok : m.moveOrders check ticker bidPrice askPrice qty = .ok (m', sent))
    (hside : side = .buy ∨ side = .sell) (hsends : m.Sends check ticker side qty) :
    ∃ r ∈ sent, r.type = .new ∧ r.side = side ∧
      r.price = if side = .buy then bidPrice else askPrice := by
  obtain ⟨m₁, bidSent, askSent, hbid, hask, rfl, -, hsell, -⟩ := moveOrders_sides hok
  rcases hside with rfl | rfl
  · obtain ⟨hmem, -⟩ : _ ∈ (m.moveOrder check ticker bidPrice .buy qty).2 ∧ _ :=
      new_mem_moveOrder_iff.mpr ⟨hsends, rfl⟩
    rw [hbid] at hmem
    exact ⟨_, List.mem_append_left _ hmem, rfl, rfl, rfl⟩
  · have hsends₁ : m₁.Sends check ticker .sell qty := by
      unfold Sends
      rwa [hsell]
    obtain ⟨hmem, -⟩ : _ ∈ (m₁.moveOrder check ticker askPrice .sell qty).2 ∧ _ :=
      new_mem_moveOrder_iff.mpr ⟨hsends₁, rfl⟩
    rw [hask] at hmem
    exact ⟨_, List.mem_append_right _ hmem, rfl, rfl, rfl⟩

/-! ## Slots as they are constructed

A slot is constructed in the state `INVALID`. From this state `moveOrder` sends nothing, no response
comes, and nothing else changes it. -/

/-- The response is one to the request. -/
def Answers (r : MEClientResponse) (q : MEClientRequest) : Prop :=
  r.clientId = q.clientId ∧ r.tickerId = q.tickerId ∧ r.clientOrderId = q.orderId

/-- What calls of `moveOrders` and responses to the requests that were sent lead to. -/
inductive Reachable (clientId : ClientId) : OrderManager → List MEClientRequest → Prop
  | init : Reachable clientId (init clientId) []
  | moveOrders {m m' : OrderManager} {requests sent : List MEClientRequest}
      {check : TickerId → Side → Qty → RiskCheckResult} {ticker : TickerId}
      {bidPrice askPrice : Price} {qty : Qty} (h : Reachable clientId m requests)
      (hok : m.moveOrders check ticker bidPrice askPrice qty = .ok (m', sent)) :
      Reachable clientId m' (requests ++ sent)
  | onOrderUpdate {m m' : OrderManager} {requests : List MEClientRequest} {q : MEClientRequest}
      {r : MEClientResponse} (h : Reachable clientId m requests) (hq : q ∈ requests)
      (hr : Answers r q) (hok : m.onOrderUpdate r = .ok m') : Reachable clientId m' requests

/-- One `NEW` was sent for the slot, which awaits the answer. -/
def SentNew (ticker : TickerId) (side : Side) (result : OrderManager × List MEClientRequest) : Prop :=
  (∃ r, result.2 = [r] ∧ r.type = .new ∧ r.tickerId = ticker ∧ r.side = side) ∧
    (result.1.tickerSideOrder ticker side).orderState = .pendingNew

variable {clientId : ClientId} {requests : List MEClientRequest}

theorem moveOrder_invalid (h : (m.tickerSideOrder ticker side).orderState = .invalid) :
    m.moveOrder check ticker price side qty = (m, []) := by
  unfold moveOrder
  rw [h]

theorem Reachable.invalid (h : Reachable clientId m requests) :
    requests = [] ∧ ∀ t s, (m.tickerSideOrder t s).orderState = .invalid := by
  induction h with
  | init => exact ⟨rfl, fun _ _ => rfl⟩
  | moveOrders _ hok ih =>
    obtain ⟨rfl, hinvalid⟩ := ih
    obtain ⟨-, m₁, bidSent, askSent, hbid, hask, rfl⟩ := moveOrders_eq hok
    rw [moveOrder_invalid (hinvalid _ _)] at hbid
    obtain ⟨rfl, rfl⟩ := Prod.mk.inj hbid
    rw [moveOrder_invalid (hinvalid _ _)] at hask
    obtain ⟨rfl, rfl⟩ := Prod.mk.inj hask
    exact ⟨rfl, hinvalid⟩
  | onOrderUpdate _ hq _ _ ih =>
    rw [ih.1] at hq
    cases hq

/-- **No slot can ever trade.** In every state that is reached nothing was ever sent, so that no slot
has an outstanding order, and `moveOrder` sends nothing, whatever the risk manager allows. -/
theorem not_sentNew_of_reachable (h : Reachable clientId m requests)
    (check : TickerId → Side → Qty → RiskCheckResult) (ticker : TickerId) (price : Price)
    (side : Side) (qty : Qty) :
    requests = [] ∧ ¬ SentNew ticker side (m.moveOrder check ticker price side qty) := by
  obtain ⟨hempty, hinvalid⟩ := h.invalid
  refine ⟨hempty, ?_⟩
  rw [moveOrder_invalid (hinvalid ticker side)]
  intro ⟨⟨r, hr, _⟩, _⟩
  cases hr

theorem not_sentNew_of_reachable_init :
    ¬ SentNew 0 .buy ((init 1).moveOrder (fun _ _ _ => .allowed) 0 100 .buy 10) :=
  (not_sentNew_of_reachable Reachable.init (fun _ _ _ => .allowed) 0 100 .buy 10).2

/-- The slots right after construction, with every verdict favourable. -/
theorem not_sentNew_of_constructed :
    ∃ m requests, Reachable 1 m requests ∧ requests = [] ∧
      ¬ SentNew 0 .buy (m.moveOrder (fun _ _ _ => .allowed) 0 100 .buy 10) := by
  refine ⟨init 1, [], .init, rfl, ?_⟩
  intro ⟨⟨r, hr, _⟩, _⟩
  cases hr

end OrderManager

end TradingSystem
