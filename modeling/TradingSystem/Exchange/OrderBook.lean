import TradingSystem.Lib.Circular
import TradingSystem.Utils.MemPool
import TradingSystem.Exchange.Messages

/-!
# `MEOrderBook`: the exchange's order book, pointer by pointer

`exchange/me_order.hpp`, `exchange/order_book.hpp` and `exchange/order_book.cpp`. Orders and price
levels live in the cells of two pools and are linked into circular doubly linked lists: one list of
levels for each side, with its head the best price, and one list of orders for each level, with its
head the oldest. Two tables find a level from a price and an order from a client's ids.

A pointer is a cell index, a nullable pointer an `Option`; every write of the source is one
`modifyOrder` or `modifyLevel`, in the order of the source. What the book sends through its matching
engine is appended to two logs, `responses` and `updates`. Loops take a bound (`diverges` is never
reached, see `checkForMatch_refines` and `addOrderAtPrice_holds`).
-/

namespace TradingSystem

abbrev OrderPtr := Nat
abbrev LevelPtr := Nat

/-- What an `MEOrder` says about its order: every field but the links. -/
structure OrderInfo where
  tickerId : TickerId := tickerIdInvalid
  clientId : ClientId := clientIdInvalid
  clientOrderId : OrderId := orderIdInvalid
  marketOrderId : OrderId := orderIdInvalid
  side : Side := .invalid
  price : Price := priceInvalid
  qty : Qty := qtyInvalid
  priority : Priority := priorityInvalid
  deriving DecidableEq

structure MEOrder extends OrderInfo where
  nextOrder : Option OrderPtr := none
  prevOrder : Option OrderPtr := none

structure MEOrdersAtPrice where
  side : Side := .invalid
  price : Price := priceInvalid
  ordersHead : Option OrderPtr := none
  next : Option LevelPtr := none
  prev : Option LevelPtr := none

structure MEOrderBook where
  ticker : TickerId
  cidOidToOrder : ClientId → OrderId → Option OrderPtr
  ordersAtPricePool : MemPool MEOrdersAtPrice
  bidsByPrice : Option LevelPtr
  asksByPrice : Option LevelPtr
  priceToOrdersAtPrice : Price → Option LevelPtr
  ordersPool : MemPool MEOrder
  nextOrderId : OrderId
  /-- what went through `MatchingEngine::sendClientResponse`, oldest first -/
  responses : List MEClientResponse
  /-- what went through `MatchingEngine::sendMarketUpdate`, oldest first -/
  updates : List MEMarketUpdate

namespace MEOrderBook

/-- The constructor. -/
def init (ticker : TickerId) : MEOrderBook where
  ticker := ticker
  cidOidToOrder := fun _ _ => none
  ordersAtPricePool := MemPool.init meMaxPriceLevels {}
  bidsByPrice := none
  asksByPrice := none
  priceToOrdersAtPrice := fun _ => none
  ordersPool := MemPool.init meMaxOrderIds {}
  nextOrderId := 1
  responses := []
  updates := []

/-! ## Reading and writing through pointers -/

def order (b : MEOrderBook) (p : OrderPtr) : MEOrder := b.ordersPool.get p

def level (b : MEOrderBook) (p : LevelPtr) : MEOrdersAtPrice := b.ordersAtPricePool.get p

def modifyOrder (b : MEOrderBook) (p : OrderPtr) (f : MEOrder → MEOrder) : MEOrderBook :=
  { b with ordersPool := b.ordersPool.modify p f }

def modifyLevel (b : MEOrderBook) (p : LevelPtr) (f : MEOrdersAtPrice → MEOrdersAtPrice) :
    MEOrderBook :=
  { b with ordersAtPricePool := b.ordersAtPricePool.modify p f }

def sendClientResponse (b : MEOrderBook) (r : MEClientResponse) : MEOrderBook :=
  { b with responses := b.responses ++ [r] }

def sendMarketUpdate (b : MEOrderBook) (u : MEMarketUpdate) : MEOrderBook :=
  { b with updates := b.updates ++ [u] }

/-! ## The level of a price -/

def generateNextOrderId (b : MEOrderBook) : OrderId × MEOrderBook :=
  (b.nextOrderId, { b with nextOrderId := b.nextOrderId + 1 })

/-- The slot of a price, `p % ME_MAX_PRICE_LEVELS`. It is below `ME_MAX_PRICE_LEVELS`, so the
table's `.at()` never throws. -/
def priceToIndex (p : Price) : Price := p % 256

def getOrderAtPrice (b : MEOrderBook) (p : Price) : Option LevelPtr :=
  b.priceToOrdersAtPrice (priceToIndex p)

def getPriority (b : MEOrderBook) (p : Price) : Except Fault Priority :=
  match b.getOrderAtPrice p with
  | none => .ok 1
  | some orderLevel => do
    let head ← deref (b.level orderLevel).ordersHead
    let last ← deref (b.order head).prevOrder
    return (b.order last).priority + 1

/-- `cid_oid_to_order_.at(c).at(o)` does not throw. -/
def inTable (c : ClientId) (o : OrderId) : Bool :=
  decide (c.toNat < meMaxNumClients) && decide (o.toNat < meMaxOrderIds)

def setCidOid (b : MEOrderBook) (c : ClientId) (o : OrderId) (p : Option OrderPtr) : MEOrderBook :=
  { b with
    cidOidToOrder := Function.update b.cidOidToOrder c (Function.update (b.cidOidToOrder c) o p) }

/-- The list of levels an order or a level of this side belongs to. -/
def levelsHead (b : MEOrderBook) (side : Side) : Option LevelPtr :=
  if side = .buy then b.bidsByPrice else b.asksByPrice

def setLevelsHead (b : MEOrderBook) (side : Side) (p : Option LevelPtr) : MEOrderBook :=
  if side = .buy then { b with bidsByPrice := p } else { b with asksByPrice := p }

/-! ## Inserting -/

/-- The new level belongs behind `curr`. -/
def moveCond (new curr : MEOrdersAtPrice) : Bool :=
  (new.side = .buy && new.price < curr.price) || (new.side = .sell && new.price > curr.price)

/-- The `while` of `AddOrderAtPrice`. -/
def walk (b : MEOrderBook) (new : MEOrdersAtPrice) (head : LevelPtr) :
    Nat → LevelPtr → Bool → Except Fault LevelPtr
  | 0, _, _ => .error .diverges
  | fuel + 1, curr, move =>
    if move && curr != head then
      if moveCond new (b.level curr) then do
        let next ← deref (b.level curr).next
        walk b new head fuel next true
      else walk b new head fuel curr false
    else .ok curr

/-- Find the level of a non-empty list in front of which the new one belongs: the head, if the new
level is better than all or worse than all. -/
def findSpot (b : MEOrderBook) (new : MEOrdersAtPrice) (head : LevelPtr) : Except Fault LevelPtr :=
  if moveCond new (b.level head) then do
    let second ← deref (b.level head).next
    b.walk new head (b.ordersAtPricePool.numCells + 2) second (moveCond new (b.level second))
  else .ok head

/-- Link the new level in between `curr` and its predecessor. -/
def linkBefore (b : MEOrderBook) (newOrderAtPrice curr : LevelPtr) : Except Fault MEOrderBook := do
  let curr ← deref (b.level curr).prev
  let b := b.modifyLevel newOrderAtPrice fun l => { l with next := (b.level curr).next }
  let b := b.modifyLevel newOrderAtPrice fun l => { l with prev := some curr }
  let next ← deref (b.level curr).next
  let b := b.modifyLevel next fun l => { l with prev := some newOrderAtPrice }
  return b.modifyLevel curr fun l => { l with next := some newOrderAtPrice }

/-- Put the new level at its spot in the list of its side, based on its price. -/
def addOrderAtPrice (b : MEOrderBook) (newOrderAtPrice : LevelPtr) : Except Fault MEOrderBook := do
  let new := b.level newOrderAtPrice
  let b := { b with
    priceToOrdersAtPrice :=
      Function.update b.priceToOrdersAtPrice (priceToIndex new.price) (some newOrderAtPrice) }
  match b.levelsHead new.side with
  | none =>
    let b := b.setLevelsHead new.side (some newOrderAtPrice)
    let b := b.modifyLevel newOrderAtPrice fun l => { l with prev := some newOrderAtPrice }
    return b.modifyLevel newOrderAtPrice fun l => { l with next := some newOrderAtPrice }
  | some head =>
    let curr ← b.findSpot new head
    let b ← b.linkBefore newOrderAtPrice curr
    if (new.side = .buy && new.price > (b.level head).price) ||
        (new.side = .sell && new.price < (b.level head).price) then
      return b.setLevelsHead new.side (some newOrderAtPrice)
    else return b

/-- Make a level for the order alone. -/
def startLevel (b : MEOrderBook) (order : OrderPtr) : Except Fault MEOrderBook := do
  let b := b.modifyOrder order fun o => { o with nextOrder := some order }
  let b := b.modifyOrder order fun o => { o with prevOrder := some order }
  let (orderAtPrice, pool) ← b.ordersAtPricePool.allocate
    { side := (b.order order).side, price := (b.order order).price, ordersHead := some order }
  { b with ordersAtPricePool := pool }.addOrderAtPrice orderAtPrice

/-- Link the order at the tail of a level. -/
def joinLevel (b : MEOrderBook) (order : OrderPtr) (orderAtPrice : LevelPtr) :
    Except Fault MEOrderBook := do
  let levelHead ← deref (b.level orderAtPrice).ordersHead
  let last ← deref (b.order levelHead).prevOrder
  let b := b.modifyOrder last fun o => { o with nextOrder := some order }
  let b := b.modifyOrder order fun o => { o with nextOrder := some levelHead }
  let b := b.modifyOrder order fun o => { o with prevOrder := (b.order levelHead).prevOrder }
  return b.modifyOrder levelHead fun o => { o with prevOrder := some order }

/-- Link the order into the level found for its price, or make a new level for it. -/
def addOrderToPriceLevel (b : MEOrderBook) (order : OrderPtr) : Except Fault MEOrderBook := do
  let b ←
    match b.getOrderAtPrice (b.order order).price with
    | none => b.startLevel order
    | some orderAtPrice => b.joinLevel order orderAtPrice
  if inTable (b.order order).clientId (b.order order).clientOrderId then
    return b.setCidOid (b.order order).clientId (b.order order).clientOrderId (some order)
  else .error .outOfRange

/-! ## Removing -/

/-- Take a level out of the list of its side. -/
def unlinkLevel (b : MEOrderBook) (orderAtPrice : LevelPtr) : Except Fault MEOrderBook := do
  let side := (b.level orderAtPrice).side
  if (b.level orderAtPrice).next = some orderAtPrice then
    return b.setLevelsHead side none
  else
    let prev ← deref (b.level orderAtPrice).prev
    let b := b.modifyLevel prev fun l => { l with next := (b.level orderAtPrice).next }
    let next ← deref (b.level orderAtPrice).next
    let b := b.modifyLevel next fun l => { l with prev := (b.level orderAtPrice).prev }
    let b :=
      if b.levelsHead side = some orderAtPrice then
        b.setLevelsHead side (b.level orderAtPrice).next
      else b
    let b := b.modifyLevel orderAtPrice fun l => { l with next := none }
    return b.modifyLevel orderAtPrice fun l => { l with prev := none }

def removeOrderAtPrice (b : MEOrderBook) (orderAtPrice : LevelPtr) : Except Fault MEOrderBook := do
  let b ← b.unlinkLevel orderAtPrice
  let b := { b with
    priceToOrdersAtPrice :=
      Function.update b.priceToOrdersAtPrice (priceToIndex (b.level orderAtPrice).price) none }
  let pool ← b.ordersAtPricePool.deallocate orderAtPrice
  return { b with ordersAtPricePool := pool }

/-- Take an order out of its level, and the level out of the book if it is left empty. -/
def unlinkOrder (b : MEOrderBook) (order : OrderPtr) : Except Fault MEOrderBook := do
  let orderLevel := b.getOrderAtPrice (b.order order).price
  if (b.order order).nextOrder = some order ∧ (b.order order).prevOrder = some order then
    let orderLevel ← deref orderLevel
    b.removeOrderAtPrice orderLevel
  else
    let prev ← deref (b.order order).prevOrder
    let b := b.modifyOrder prev fun o => { o with nextOrder := (b.order order).nextOrder }
    let next ← deref (b.order order).nextOrder
    let b := b.modifyOrder next fun o => { o with prevOrder := (b.order order).prevOrder }
    let orderLevel ← deref orderLevel
    let b :=
      if some order = (b.level orderLevel).ordersHead then
        b.modifyLevel orderLevel fun l => { l with ordersHead := (b.order order).nextOrder }
      else b
    let b := b.modifyOrder order fun o => { o with prevOrder := none }
    return b.modifyOrder order fun o => { o with nextOrder := none }

def removeOrder (b : MEOrderBook) (order : OrderPtr) : Except Fault MEOrderBook := do
  let b ← b.unlinkOrder order
  let b := b.setCidOid (b.order order).clientId (b.order order).clientOrderId none
  let pool ← b.ordersPool.deallocate order
  return { b with ordersPool := pool }

/-! ## Matching -/

/-- `match`: given a passive order and an aggressive order that match, handle the matching. Returns
what is left of the aggressive order. -/
def matchOrder (b : MEOrderBook) (clientId : ClientId) (clientOrderId marketOrderId : OrderId)
    (side : Side) (order : OrderPtr) (left : Qty) : Except Fault (Qty × MEOrderBook) := do
  let orderQty := (b.order order).qty
  let filledQty := if left < orderQty then left else orderQty
  let left := left - filledQty
  let b := b.modifyOrder order fun o => { o with qty := o.qty - filledQty }
  let o := b.order order
  let b := b.sendClientResponse {
    type := .filled, clientId := clientId, tickerId := b.ticker, clientOrderId := clientOrderId,
    marketOrderId := marketOrderId, side := side, price := o.price, execQty := filledQty,
    leftQty := left }
  let b := b.sendClientResponse {
    type := .filled, clientId := o.clientId, tickerId := b.ticker, clientOrderId := o.clientOrderId,
    marketOrderId := o.marketOrderId, side := o.side, price := o.price, execQty := filledQty,
    leftQty := o.qty }
  let b := b.sendMarketUpdate {
    type := .trade, orderId := orderIdInvalid, tickerId := b.ticker, side := side, price := o.price,
    qty := filledQty, priority := priorityInvalid }
  if o.qty = 0 then
    let b := b.sendMarketUpdate {
      type := .cancel, orderId := o.marketOrderId, tickerId := b.ticker, side := o.side,
      price := o.price, qty := o.qty, priority := o.priority }
    let b ← b.removeOrder order
    return (left, b)
  else
    return (left, b.sendMarketUpdate {
      type := .modify, orderId := o.marketOrderId, tickerId := b.ticker, side := o.side,
      price := o.price, qty := o.qty, priority := o.priority })

/-- The limit of an incoming order is not satisfied by a passive order of price `p`; the test that
breaks the loops of `checkForMatch`. -/
def stops (side : Side) (price p : Price) : Bool :=
  match side with
  | .buy => price < p
  | .sell => price > p
  | _ => true

/-- The two `while` loops of `checkForMatch`, which differ in the list they take (`opposite`) and in
the test that breaks them (`stops`). -/
def matchLoop (clientId : ClientId) (clientOrderId marketOrderId : OrderId) (side : Side)
    (price : Price) (opposite : MEOrderBook → Option LevelPtr) :
    Nat → Qty → MEOrderBook → Except Fault (Qty × MEOrderBook)
  | 0, _, _ => .error .diverges
  | fuel + 1, leftOver, b =>
    if leftOver > 0 then
      match opposite b with
      | none => .ok (leftOver, b)
      | some best => do
        let head ← deref (b.level best).ordersHead
        if stops side price (b.order head).price then
          return (leftOver, b)
        else
          let (leftOver, b) ←
            b.matchOrder clientId clientOrderId marketOrderId side head leftOver
          matchLoop clientId clientOrderId marketOrderId side price opposite fuel leftOver b
    else .ok (leftOver, b)

/-- Match the incoming order against the other side's list; returns what is left of it. -/
def checkForMatch (b : MEOrderBook) (clientId : ClientId) (clientOrderId : OrderId) (side : Side)
    (price : Price) (qty : Qty) (marketOrderId : OrderId) : Except Fault (Qty × MEOrderBook) :=
  if side = .buy then
    matchLoop clientId clientOrderId marketOrderId side price asksByPrice
      (b.ordersPool.numCells + 2) qty b
  else if side = .sell then
    matchLoop clientId clientOrderId marketOrderId side price bidsByPrice
      (b.ordersPool.numCells + 2) qty b
  else .ok (qty, b)

/-! ## The two requests -/

/-- Add request to the order book. -/
def add (b : MEOrderBook) (clientId : ClientId) (clientOrderId : OrderId) (side : Side)
    (price : Price) (qty : Qty) : Except Fault MEOrderBook := do
  let (newMarketOrderId, b) := b.generateNextOrderId
  let b := b.sendClientResponse {
    type := .accepted, clientId := clientId, tickerId := b.ticker, clientOrderId := clientOrderId,
    marketOrderId := newMarketOrderId, side := side, price := price, execQty := 0, leftQty := qty }
  let (qtyLeft, b) ← b.checkForMatch clientId clientOrderId side price qty newMarketOrderId
  if qtyLeft > 0 then
    let priority ← b.getPriority price
    let (orderObj, pool) ← b.ordersPool.allocate {
      tickerId := b.ticker, clientId := clientId, clientOrderId := clientOrderId,
      marketOrderId := newMarketOrderId, side := side, price := price, qty := qtyLeft,
      priority := priority }
    let b ← { b with ordersPool := pool }.addOrderToPriceLevel orderObj
    -- the update carries the quantity of the request, not what is left of it
    return b.sendMarketUpdate {
      type := .add, orderId := newMarketOrderId, tickerId := b.ticker, side := side, price := price,
      qty := qty, priority := priority }
  else return b

/-- Cancel the order a client names by its own ids. -/
def cancel (b : MEOrderBook) (clientId : ClientId) (orderId : OrderId) :
    Except Fault MEOrderBook :=
  match if inTable clientId orderId then b.cidOidToOrder clientId orderId else none with
  | none =>
    .ok (b.sendClientResponse {
      type := .cancelRejected, clientId := clientId, tickerId := b.ticker, clientOrderId := orderId,
      marketOrderId := orderIdInvalid, side := .invalid, price := priceInvalid,
      execQty := qtyInvalid, leftQty := qtyInvalid })
  | some order => do
    let o := b.order order
    let b ← b.removeOrder order
    let b := b.sendClientResponse {
      type := .cancelled, clientId := clientId, tickerId := b.ticker, clientOrderId := orderId,
      marketOrderId := o.marketOrderId, side := o.side, price := o.price, execQty := qtyInvalid,
      leftQty := o.qty }
    return b.sendMarketUpdate {
      type := .cancel, orderId := o.marketOrderId, tickerId := b.ticker, side := o.side,
      price := o.price, qty := o.qty, priority := o.priority }

/-- The body of `MatchingEngine::processClientRequest`, on the order book of the request's
ticker. -/
def processClientRequest (b : MEOrderBook) (r : MEClientRequest) : Except Fault MEOrderBook :=
  match r.type with
  | .new => b.add r.clientId r.orderId r.side r.price r.qty
  | .cancel => b.cancel r.clientId r.orderId
  | .invalid => .error .assertion
  | .unnamed _ => .ok b

/-- Process requests one after the other. -/
def processAll (b : MEOrderBook) (rs : List MEClientRequest) : Except Fault MEOrderBook :=
  rs.foldlM processClientRequest b

/-! ## What rests in the book -/

/-- The orders of a level, from `orders_head_` along `next_order_`. -/
def restingAt (b : MEOrderBook) (l : LevelPtr) : List OrderInfo :=
  (readCircle (fun p => (b.order p).nextOrder) b.ordersPool.numCells (b.level l).ordersHead).map
    fun p => (b.order p).toOrderInfo

/-- The levels of a side, from its head along `next_`. -/
def levelPtrs (b : MEOrderBook) (head : Option LevelPtr) : List LevelPtr :=
  readCircle (fun p => (b.level p).next) b.ordersAtPricePool.numCells head

/-- The orders resting in the bid list, level by level. -/
def restingBids (b : MEOrderBook) : List OrderInfo :=
  (b.levelPtrs b.bidsByPrice).flatMap b.restingAt

/-- The orders resting in the ask list, level by level. -/
def restingAsks (b : MEOrderBook) : List OrderInfo :=
  (b.levelPtrs b.asksByPrice).flatMap b.restingAt

/-- All orders resting in the book. -/
def resting (b : MEOrderBook) : List OrderInfo := b.restingBids ++ b.restingAsks

end MEOrderBook

end TradingSystem
