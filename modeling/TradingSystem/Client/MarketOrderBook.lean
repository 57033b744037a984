import TradingSystem.Exchange.OrderBook
import TradingSystem.Client.PositionKeeper

/-!
# `MarketOrderBook`: the client's order book, pointer by pointer

`client/market_order.hpp`, `client/market_order_book.hpp` and `client/market_order_book.cpp`. The client
keeps a book of each ticker from the market updates it receives. Its lists and pools are those of the
exchange's book, in a copy of its code; one table finds an order by its market order id, and the best
prices are kept in a `BBO`.

What the book tells its trade engine is appended to `notices`; the trade engine is taken as set. The two
tables are not initialized in the source, and are taken as null.
-/

namespace TradingSystem.Client

structure MarketOrder where
  orderId : OrderId := orderIdInvalid
  side : Side := .invalid
  price : Price := priceInvalid
  qty : Qty := qtyInvalid
  priority : Priority := priorityInvalid
  prevOrder : Option OrderPtr := none
  nextOrder : Option OrderPtr := none

structure MarketOrdersAtPrice where
  side : Side := .invalid
  price : Price := priceInvalid
  firstOrder : Option OrderPtr := none
  prev : Option LevelPtr := none
  next : Option LevelPtr := none

/-- A call of the trade engine. -/
inductive Notice where
  | tradeUpdate (marketUpdate : MEMarketUpdate)
  | orderBookUpdate (tickerId : TickerId) (price : Price) (side : Side)

structure MarketOrderBook where
  tickerId : TickerId
  oidToOrder : OrderId → Option OrderPtr
  ordersAtPricePool : MemPool MarketOrdersAtPrice
  bidsByPrice : Option LevelPtr
  asksByPrice : Option LevelPtr
  oidToPriceLevel : Price → Option LevelPtr
  orderPool : MemPool MarketOrder
  bbo : BBO
  /-- the calls of the trade engine, oldest first -/
  notices : List Notice

namespace MarketOrderBook

/-- The constructor. -/
def init (tickerId : TickerId) : MarketOrderBook where
  tickerId := tickerId
  oidToOrder := fun _ => none
  ordersAtPricePool := MemPool.init meMaxPriceLevels {}
  bidsByPrice := none
  asksByPrice := none
  oidToPriceLevel := fun _ => none
  orderPool := MemPool.init meMaxOrderIds {}
  bbo := {}
  notices := []

/-! ## Reading and writing through pointers -/

def order (b : MarketOrderBook) (p : OrderPtr) : MarketOrder := b.orderPool.get p

def level (b : MarketOrderBook) (p : LevelPtr) : MarketOrdersAtPrice := b.ordersAtPricePool.get p

def modifyOrder (b : MarketOrderBook) (p : OrderPtr) (f : MarketOrder → MarketOrder) :
    MarketOrderBook :=
  { b with orderPool := b.orderPool.modify p f }

def modifyLevel (b : MarketOrderBook) (p : LevelPtr)
    (f : MarketOrdersAtPrice → MarketOrdersAtPrice) : MarketOrderBook :=
  { b with ordersAtPricePool := b.ordersAtPricePool.modify p f }

def notify (b : MarketOrderBook) (notice : Notice) : MarketOrderBook :=
  { b with notices := b.notices ++ [notice] }

/-- The slot of a price, `price % ME_MAX_PRICE_LEVELS`. -/
def priceToIndex (price : Price) : Price := price % 256

def getOrdersAtPrice (b : MarketOrderBook) (price : Price) : Option LevelPtr :=
  b.oidToPriceLevel (priceToIndex price)

def setOid (b : MarketOrderBook) (id : OrderId) (p : Option OrderPtr) : MarketOrderBook :=
  { b with oidToOrder := Function.update b.oidToOrder id p }

/-- The list of levels an order or a level of this side belongs to. -/
def levelsHead (b : MarketOrderBook) (side : Side) : Option LevelPtr :=
  if side = .buy then b.bidsByPrice else b.asksByPrice

def setLevelsHead (b : MarketOrderBook) (side : Side) (p : Option LevelPtr) : MarketOrderBook :=
  if side = .buy then { b with bidsByPrice := p } else { b with asksByPrice := p }

/-! ## Inserting -/

/-- `move_cond`: the new level belongs behind `curr`. -/
def moveCond (new curr : MarketOrdersAtPrice) : Bool :=
  (new.side = .buy && new.price < curr.price) || (new.side = .sell && new.price > curr.price)

/-- The `while` of `AddOrderAtPrice`. -/
def walk (b : MarketOrderBook) (new : MarketOrdersAtPrice) (head : LevelPtr) :
    Nat → LevelPtr → Bool → Except Fault LevelPtr
  | 0, _, _ => .error .diverges
  | fuel + 1, curr, move =>
    if move && curr != head then
      if moveCond new (b.level curr) then do
        let next ← deref (b.level curr).next
        walk b new head fuel next true
      else walk b new head fuel curr false
    else .ok curr

/-- Find the level of a non-empty list in front of which the new one belongs. -/
def findSpot (b : MarketOrderBook) (new : MarketOrdersAtPrice) (head : LevelPtr) :
    Except Fault LevelPtr :=
  if moveCond new (b.level head) then do
    let second ← deref (b.level head).next
    b.walk new head (b.ordersAtPricePool.numCells + 2) second (moveCond new (b.level second))
  else .ok head

/-- Link the new level in between `curr` and its predecessor. -/
def linkBefore (b : MarketOrderBook) (newOrderAtPrice curr : LevelPtr) :
    Except Fault MarketOrderBook := do
  let curr ← deref (b.level curr).prev
  let b := b.modifyLevel newOrderAtPrice fun l => { l with next := (b.level curr).next }
  let b := b.modifyLevel newOrderAtPrice fun l => { l with prev := some curr }
  let next ← deref (b.level curr).next
  let b := b.modifyLevel next fun l => { l with prev := some newOrderAtPrice }
  return b.modifyLevel curr fun l => { l with next := some newOrderAtPrice }

def addOrderAtPrice (b : MarketOrderBook) (newOrderAtPrice : LevelPtr) :
    Except Fault MarketOrderBook := do
  let new := b.level newOrderAtPrice
  let b := { b with
    oidToPriceLevel :=
      Function.update b.oidToPriceLevel (priceToIndex new.price) (some newOrderAtPrice) }
  match b.levelsHead new.side with
  | none =>
    let b := b.setLevelsHead new.side (some newOrderAtPrice)
    let b := b.modifyLevel newOrderAtPrice fun l => { l with prev := some newOrderAtPrice }
    return b.modifyLevel newOrderAtPrice fun l => { l with next := some newOrderAtPrice }
  | some head =>
    let curr ← b.findSpot new head
    let b ← b.linkBefore newOrderAtPrice curr
    if (new.side = .buy && new.price > (b.level head).price) ||
        (new.side = .sell && new.price < (b.level head).price) then
      return b.setLevelsHead new.side (some newOrderAtPrice)
    else return b

/-- Make a level for the order alone. -/
def startLevel (b : MarketOrderBook) (order : OrderPtr) : Except Fault MarketOrderBook := do
  let b := b.modifyOrder order fun o => { o with nextOrder := some order }
  let b := b.modifyOrder order fun o => { o with prevOrder := some order }
  let (orderAtPrice, pool) ← b.ordersAtPricePool.allocate
    { side := (b.order order).side, price := (b.order order).price, firstOrder := some order }
  { b with ordersAtPricePool := pool }.addOrderAtPrice orderAtPrice

/-- Link the order at the tail of a level. -/
def joinLevel (b : MarketOrderBook) (order : OrderPtr) (orderAtPrice : LevelPtr) :
    Except Fault MarketOrderBook := do
  let levelHead ← deref (b.level orderAtPrice).firstOrder
  let last ← deref (b.order levelHead).prevOrder
  let b := b.modifyOrder last fun o => { o with nextOrder := some order }
  let b := b.modifyOrder order fun o => { o with nextOrder := some levelHead }
  let b := b.modifyOrder order fun o => { o with prevOrder := (b.order levelHead).prevOrder }
  return b.modifyOrder levelHead fun o => { o with prevOrder := some order }

/-- `AddOrder`. The table checks its index, after the order has been linked in. -/
def addOrder (b : MarketOrderBook) (order : OrderPtr) : Except Fault MarketOrderBook := do
  let b ←
    match b.getOrdersAtPrice (b.order order).price with
    | none => b.startLevel order
    | some orderAtPrice => b.joinLevel order orderAtPrice
  if (b.order order).orderId.toNat < meMaxOrderIds then
    return b.setOid (b.order order).orderId (some order)
  else .error .outOfRange

/-! ## Removing -/

/-- Take a level out of the list of its side. -/
def unlinkLevel (b : MarketOrderBook) (orderAtPrice : LevelPtr) : Except Fault MarketOrderBook := do
  let side := (b.level orderAtPrice).side
  if (b.level orderAtPrice).next = some orderAtPrice then
    return b.setLevelsHead side none
  else
    let prev ← deref (b.level orderAtPrice).prev
    let b := b.modifyLevel prev fun l => { l with next := (b.level orderAtPrice).next }
    let next ← deref (b.level orderAtPrice).next
    let b := b.modifyLevel next fun l => { l with prev := (b.level orderAtPrice).prev }
    let b :=
      if b.levelsHead side = some orderAtPrice then
        b.setLevelsHead side (b.level orderAtPrice).next
      else b
    let b := b.modifyLevel orderAtPrice fun l => { l with next := none }
    return b.modifyLevel orderAtPrice fun l => { l with prev := none }

def removeOrderAtPrice (b : MarketOrderBook) (orderAtPrice : LevelPtr) :
    Except Fault MarketOrderBook := do
  let b ← b.unlinkLevel orderAtPrice
  let b := { b with
    oidToPriceLevel :=
      Function.update b.oidToPriceLevel (priceToIndex (b.level orderAtPrice).price) none }
  let pool ← b.ordersAtPricePool.deallocate orderAtPrice
  return { b with ordersAtPricePool := pool }

/-- Take an order out of its level, and the level out of the book if it is left empty. -/
def unlinkOrder (b : MarketOrderBook) (order : OrderPtr) : Except Fault MarketOrderBook := do
  let orderLevel := b.getOrdersAtPrice (b.order order).price
  if (b.order order).nextOrder = some order ∧ (b.order order).prevOrder = some order then
    let orderLevel ← deref orderLevel
    b.removeOrderAtPrice orderLevel
  else
    let prev ← deref (b.order order).prevOrder
    let b := b.modifyOrder prev fun o => { o with nextOrder := (b.order order).nextOrder }
    let next ← deref (b.order order).nextOrder
    let b := b.modifyOrder next fun o => { o with prevOrder := (b.order order).prevOrder }
    let orderLevel ← deref orderLevel
    let b :=
      if some order = (b.level orderLevel).firstOrder then
        b.modifyLevel orderLevel fun l => { l with firstOrder := (b.order order).nextOrder }
      else b
    let b := b.modifyOrder order fun o => { o with prevOrder := none }
    return b.modifyOrder order fun o => { o with nextOrder := none }

/-- `removeOrder`. The table does not check its index. -/
def removeOrder (b : MarketOrderBook) (order : OrderPtr) : Except Fault MarketOrderBook := do
  let b ← b.unlinkOrder order
  if (b.order order).orderId.toNat < meMaxOrderIds then
    let b := b.setOid (b.order order).orderId none
    let pool ← b.orderPool.deallocate order
    return { b with orderPool := pool }
  else .error .outOfBounds

/-! ## Clearing -/

/-- The loop over `oid_to_order_` of `CLEAR`. -/
def deallocateOrders (b : MarketOrderBook) : Except Fault MarketOrderBook :=
  (List.range meMaxOrderIds).foldlM (fun b i =>
    match b.oidToOrder (UInt64.ofNat i) with
    | none => .ok b
    | some order => do
      let pool ← b.orderPool.deallocate order
      return { b with orderPool := pool }) b

/-- The `for` over a list of levels of `CLEAR`. It takes the level behind the head every time. -/
def deallocateBehind (b : MarketOrderBook) (head : LevelPtr) : Nat → Except Fault MarketOrderBook
  | 0 => .error .diverges
  | fuel + 1 => do
    let orderAtPrice ← deref (b.level head).next
    if orderAtPrice = head then return b
    else
      let pool ← b.ordersAtPricePool.deallocate orderAtPrice
      deallocateBehind { b with ordersAtPricePool := pool } head fuel

/-- What `CLEAR` does with the levels of a side. -/
def deallocateLevels (b : MarketOrderBook) (head : Option LevelPtr) : Except Fault MarketOrderBook :=
  match head with
  | none => .ok b
  | some head => do
    let b ← b.deallocateBehind head (b.ordersAtPricePool.numCells + 1)
    let pool ← b.ordersAtPricePool.deallocate head
    return { b with ordersAtPricePool := pool }

/-- `CLEAR`. The heads and the table of levels stay as they are. -/
def clear (b : MarketOrderBook) : Except Fault MarketOrderBook := do
  let b ← b.deallocateOrders
  let b := { b with oidToOrder := fun _ => none }
  let b ← b.deallocateLevels b.bidsByPrice
  b.deallocateLevels b.asksByPrice

/-! ## The best prices -/

/-- The loop over the orders of a level behind its first one. -/
def addQtys (b : MarketOrderBook) (first : OrderPtr) :
    Nat → OrderPtr → Qty → Except Fault Qty
  | 0, _, _ => .error .diverges
  | fuel + 1, curr, qty =>
    if curr = first then .ok qty
    else do
      let next ← deref (b.order curr).nextOrder
      addQtys b first fuel next (qty + (b.order curr).qty)

/-- The price of the first level of a list, and the quantity in it. -/
def bestOf (b : MarketOrderBook) (head : Option LevelPtr) : Except Fault (Price × Qty) :=
  match head with
  | none => .ok (priceInvalid, qtyInvalid)
  | some best => do
    let first ← deref (b.level best).firstOrder
    let second ← deref (b.order first).nextOrder
    let qty ← b.addQtys first (b.orderPool.numCells + 1) second (b.order first).qty
    return ((b.level best).price, qty)

def updateBid (b : MarketOrderBook) : Except Fault MarketOrderBook := do
  let best ← b.bestOf b.bidsByPrice
  return { b with bbo := { b.bbo with bidPrice := best.1, bidQty := best.2 } }

def updateAsk (b : MarketOrderBook) : Except Fault MarketOrderBook := do
  let best ← b.bestOf b.asksByPrice
  return { b with bbo := { b.bbo with askPrice := best.1, askQty := best.2 } }

def updateBBO (b : MarketOrderBook) (updateBid updateAsk : Bool) : Except Fault MarketOrderBook := do
  let b ← if updateBid then b.updateBid else .ok b
  if updateAsk then b.updateAsk else .ok b

/-! ## The update -/

def bidUpdated (b : MarketOrderBook) (u : MEMarketUpdate) : Bool :=
  match b.bidsByPrice with
  | none => false
  | some best => u.side = .buy && u.price ≥ (b.level best).price

def askUpdated (b : MarketOrderBook) (u : MEMarketUpdate) : Bool :=
  match b.asksByPrice with
  | none => false
  | some best => u.side = .sell && u.price ≤ (b.level best).price

/-- `oid_to_order_[...]`, which does not check its index. -/
def findOrder (b : MarketOrderBook) (id : OrderId) : Except Fault (Option OrderPtr) :=
  if id.toNat < meMaxOrderIds then .ok (b.oidToOrder id) else .error .outOfBounds

/-- The `switch` of `onMarketUpdate`. -/
def applyUpdate (b : MarketOrderBook) (u : MEMarketUpdate) : Except Fault MarketOrderBook :=
  match u.type with
  | .add => do
    let (order, pool) ← b.orderPool.allocate {
      orderId := u.orderId, side := u.side, price := u.price, qty := u.qty, priority := u.priority }
    { b with orderPool := pool }.addOrder order
  | .modify => do
    match ← b.findOrder u.orderId with
    | none => return b
    | some order => return b.modifyOrder order fun o => { o with qty := u.qty }
  | .cancel => do
    match ← b.findOrder u.orderId with
    | none => return b
    | some order => b.removeOrder order
  | .clear => b.clear
  | _ => .ok b

def onMarketUpdate (b : MarketOrderBook) (u : MEMarketUpdate) : Except Fault MarketOrderBook :=
  if u.type = .trade then .ok (b.notify (.tradeUpdate u))
  else do
    let updateBid := b.bidUpdated u
    let updateAsk := b.askUpdated u
    let b ← b.applyUpdate u
    let b ← b.updateBBO updateBid updateAsk
    return b.notify (.orderBookUpdate u.tickerId u.price u.side)

/-- Process updates one after the other. -/
def onMarketUpdates (b : MarketOrderBook) (us : List MEMarketUpdate) :
    Except Fault MarketOrderBook :=
  us.foldlM onMarketUpdate b

/-! ## What rests in the book -/

/-- The levels of a side, from its head along `next_`. -/
def levelPtrs (b : MarketOrderBook) (side : Side) : List LevelPtr :=
  readCircle (fun p => (b.level p).next) b.ordersAtPricePool.numCells (b.levelsHead side)

/-- The orders of a level, from `first_order_` along `next_order_`. -/
def orderPtrs (b : MarketOrderBook) (p : LevelPtr) : List OrderPtr :=
  readCircle (fun o => (b.order o).nextOrder) b.orderPool.numCells (b.level p).firstOrder

end MarketOrderBook

end TradingSystem.Client
