import TradingSystem.Lib.Run
import TradingSystem.Client.MarketOrderBook

/-!
# The client's book does what the exchange's book does

The code that links orders and levels into the client's book is the exchange's, written once more over
the client's types. `toExchange` shows a client's book as a book of the exchange: an order belongs to
client 0, under its market order id. Every function that links or unlinks mimics its counterpart
(`addOrder_mimics`, `removeOrder_mimics`), step by step, so that what is proved of the exchange's lists
holds of the client's.
-/

namespace TradingSystem.Client

namespace MarketOrder

/-- The order as an order of the exchange. -/
def toExchange (tickerId : TickerId) (o : MarketOrder) : MEOrder :=
  { tickerId := tickerId, clientId := 0, clientOrderId := o.orderId, marketOrderId := o.orderId
    side := o.side, price := o.price, qty := o.qty, priority := o.priority
    nextOrder := o.nextOrder, prevOrder := o.prevOrder }

@[simp] theorem toExchange_nextOrder (tickerId : TickerId) (o : MarketOrder) :
    (o.toExchange tickerId).nextOrder = o.nextOrder := rfl

@[simp] theorem toExchange_prevOrder (tickerId : TickerId) (o : MarketOrder) :
    (o.toExchange tickerId).prevOrder = o.prevOrder := rfl

end MarketOrder

namespace MarketOrdersAtPrice

def toExchange (l : MarketOrdersAtPrice) : MEOrdersAtPrice :=
  { side := l.side, price := l.price, ordersHead := l.firstOrder, next := l.next, prev := l.prev }

@[simp] theorem toExchange_next (l : MarketOrdersAtPrice) : l.toExchange.next = l.next := rfl

@[simp] theorem toExchange_prev (l : MarketOrdersAtPrice) : l.toExchange.prev = l.prev := rfl

@[simp] theorem toExchange_side (l : MarketOrdersAtPrice) : l.toExchange.side = l.side := rfl

@[simp] theorem toExchange_ordersHead (l : MarketOrdersAtPrice) :
    l.toExchange.ordersHead = l.firstOrder := rfl

end MarketOrdersAtPrice

namespace MarketOrderBook

/-- The book as a book of the exchange that has sent nothing. -/
def toExchange (b : MarketOrderBook) : MEOrderBook where
  ticker := b.tickerId
  cidOidToOrder := fun c o => if c = 0 then b.oidToOrder o else none
  ordersAtPricePool := b.ordersAtPricePool.map MarketOrdersAtPrice.toExchange
  bidsByPrice := b.bidsByPrice
  asksByPrice := b.asksByPrice
  priceToOrdersAtPrice := b.oidToPriceLevel
  ordersPool := b.orderPool.map (MarketOrder.toExchange b.tickerId)
  nextOrderId := 1
  responses := []
  updates := []

/-- What the exchange's book knows nothing of. -/
def frame (b : MarketOrderBook) : BBO × List Notice := (b.bbo, b.notices)

/-- The client's computation `x`, which starts in `b`, is the exchange's computation `y`. -/
abbrev Does (b : MarketOrderBook) (x : Except Fault MarketOrderBook) (y : Except Fault MEOrderBook) :
    Prop :=
  Mimics toExchange frame b x y

variable (b : MarketOrderBook)

theorem toExchange_init (tickerId : TickerId) :
    (init tickerId).toExchange = { MEOrderBook.init tickerId with
      ordersPool := MemPool.init meMaxOrderIds (({} : MarketOrder).toExchange tickerId) } := by
  unfold toExchange MEOrderBook.init
  congr 1
  funext c o
  split <;> rfl

/-! ## Reading and writing -/

theorem order_toExchange (p : OrderPtr) :
    b.toExchange.order p = (b.order p).toExchange b.tickerId := rfl

theorem level_toExchange (p : LevelPtr) : b.toExchange.level p = (b.level p).toExchange := rfl

theorem levelsHead_toExchange (side : Side) : b.toExchange.levelsHead side = b.levelsHead side := rfl

theorem toExchange_setLevelsHead (side : Side) (p : Option LevelPtr) :
    b.toExchange.setLevelsHead side p = (b.setLevelsHead side p).toExchange := by
  unfold setLevelsHead MEOrderBook.setLevelsHead
  split <;> rfl

theorem setLevelsHead_frame (side : Side) (p : Option LevelPtr) :
    (b.setLevelsHead side p).frame = b.frame := by
  unfold setLevelsHead
  split <;> rfl

theorem toExchange_modifyLevel (p : LevelPtr) {f : MarketOrdersAtPrice → MarketOrdersAtPrice}
    {g : MEOrdersAtPrice → MEOrdersAtPrice} (h : ∀ l, (f l).toExchange = g l.toExchange) :
    b.toExchange.modifyLevel p g = (b.modifyLevel p f).toExchange :=
  congrArg (fun pool => { b.toExchange with ordersAtPricePool := pool })
    (MemPool.map_modify _ _ _ h).symm

theorem toExchange_modifyOrder (p : OrderPtr) {f : MarketOrder → MarketOrder} {g : MEOrder → MEOrder}
    (h : ∀ o, (f o).toExchange b.tickerId = g (o.toExchange b.tickerId)) :
    b.toExchange.modifyOrder p g = (b.modifyOrder p f).toExchange :=
  congrArg (fun pool => { b.toExchange with ordersPool := pool }) (MemPool.map_modify _ _ _ h).symm

/-! One lemma for each field that is written. -/

theorem toExchange_setLevelNext (p : LevelPtr) (v : Option LevelPtr) :
    b.toExchange.modifyLevel p (fun l => { l with next := v }) =
      (b.modifyLevel p fun l => { l with next := v }).toExchange :=
  b.toExchange_modifyLevel p fun _ => rfl

theorem toExchange_setLevelPrev (p : LevelPtr) (v : Option LevelPtr) :
    b.toExchange.modifyLevel p (fun l => { l with prev := v }) =
      (b.modifyLevel p fun l => { l with prev := v }).toExchange :=
  b.toExchange_modifyLevel p fun _ => rfl

theorem toExchange_setFirstOrder (p : LevelPtr) (v : Option OrderPtr) :
    b.toExchange.modifyLevel p (fun l => { l with ordersHead := v }) =
      (b.modifyLevel p fun l => { l with firstOrder := v }).toExchange :=
  b.toExchange_modifyLevel p fun _ => rfl

theorem toExchange_setOrderNext (p : OrderPtr) (v : Option OrderPtr) :
    b.toExchange.modifyOrder p (fun o => { o with nextOrder := v }) =
      (b.modifyOrder p fun o => { o with nextOrder := v }).toExchange :=
  b.toExchange_modifyOrder p fun _ => rfl

theorem toExchange_setOrderPrev (p : OrderPtr) (v : Option OrderPtr) :
    b.toExchange.modifyOrder p (fun o => { o with prevOrder := v }) =
      (b.modifyOrder p fun o => { o with prevOrder := v }).toExchange :=
  b.toExchange_modifyOrder p fun _ => rfl

theorem toExchange_setQty (p : OrderPtr) (q : Qty) :
    b.toExchange.modifyOrder p (fun o => { o with qty := q }) =
      (b.modifyOrder p fun o => { o with qty := q }).toExchange :=
  b.toExchange_modifyOrder p fun _ => rfl

theorem toExchange_setOid (id : OrderId) (p : Option OrderPtr) :
    b.toExchange.setCidOid 0 id p = (b.setOid id p).toExchange := by
  have htable : Function.update b.toExchange.cidOidToOrder 0
        (Function.update (b.toExchange.cidOidToOrder 0) id p) =
      fun c o => if c = 0 then Function.update b.oidToOrder id p o else none := by
    funext c o
    by_cases hc : c = 0
    · subst hc
      rw [if_pos rfl, Function.update_self]
      rfl
    · rw [if_neg hc, Function.update_of_ne hc]
      exact if_neg hc
  exact congrArg (fun table => { b.toExchange with cidOidToOrder := table }) htable

/-! ## Putting in -/

theorem moveCond_toExchange (new curr : MarketOrdersAtPrice) :
    MEOrderBook.moveCond new.toExchange curr.toExchange = moveCond new curr := rfl

theorem walk_toExchange (new : MarketOrdersAtPrice) (head : LevelPtr) (fuel : Nat) (curr : LevelPtr)
    (move : Bool) :
    b.toExchange.walk new.toExchange head fuel curr move = b.walk new head fuel curr move := by
  induction fuel generalizing curr move with
  | zero => rfl
  | succ fuel ih =>
    unfold MEOrderBook.walk walk
    simp only [ih, level_toExchange, moveCond_toExchange]
    rfl

theorem findSpot_toExchange (new : MarketOrdersAtPrice) (head : LevelPtr) :
    b.toExchange.findSpot new.toExchange head = b.findSpot new head := by
  unfold MEOrderBook.findSpot findSpot
  simp only [walk_toExchange, level_toExchange, moveCond_toExchange]
  rfl

theorem linkBefore_does (newOrderAtPrice curr : LevelPtr) :
    b.Does (b.linkBefore newOrderAtPrice curr) (b.toExchange.linkBefore newOrderAtPrice curr) := by
  unfold linkBefore MEOrderBook.linkBefore
  apply Mimics.bind_same (deref (b.level curr).prev)
  intro curr
  simp only [toExchange_setLevelNext, toExchange_setLevelPrev, level_toExchange]
  apply Mimics.bind_same
  intro next
  exact Mimics.ok rfl

theorem addOrderAtPrice_does (newOrderAtPrice : LevelPtr) :
    b.Does (b.addOrderAtPrice newOrderAtPrice) (b.toExchange.addOrderAtPrice newOrderAtPrice) := by
  unfold addOrderAtPrice MEOrderBook.addOrderAtPrice
  obtain ⟨b₁, hb₁⟩ : ∃ b₁ : MarketOrderBook, b₁ = { b with
    oidToPriceLevel := Function.update b.oidToPriceLevel
      (priceToIndex (b.level newOrderAtPrice).price) (some newOrderAtPrice) } := ⟨_, rfl⟩
  have hframe : b₁.frame = b.frame := by rw [hb₁]; rfl
  have htable : ({ b.toExchange with
      priceToOrdersAtPrice := Function.update b.toExchange.priceToOrdersAtPrice
        (MEOrderBook.priceToIndex (b.toExchange.level newOrderAtPrice).price)
        (some newOrderAtPrice) } : MEOrderBook) = b₁.toExchange := by
    rw [hb₁]
    rfl
  simp only [htable, ← hb₁]
  rw [levelsHead_toExchange]
  refine Mimics.of_frame (?_ : b₁.Does _ _) hframe
  rw [show (b.toExchange.level newOrderAtPrice).side = (b.level newOrderAtPrice).side from rfl]
  cases b₁.levelsHead (b.level newOrderAtPrice).side with
  | none =>
    simp only [toExchange_setLevelsHead, toExchange_setLevelNext, toExchange_setLevelPrev]
    exact Mimics.ok (setLevelsHead_frame _ _ _)
  | some head =>
    dsimp only
    rw [level_toExchange, findSpot_toExchange]
    apply Mimics.bind_same
    intro curr
    apply Mimics.bind (b₁.linkBefore_does newOrderAtPrice curr)
    intro b₂
    rw [toExchange_setLevelsHead]
    apply Mimics.ite
    · intro _
      exact Mimics.ok (setLevelsHead_frame _ _ _)
    · intro _
      exact Mimics.ok rfl

theorem startLevel_does (order : OrderPtr) :
    b.Does (b.startLevel order) (b.toExchange.startLevel order) := by
  unfold startLevel MEOrderBook.startLevel
  simp only [toExchange_setOrderNext, toExchange_setOrderPrev]
  obtain ⟨b₁, hb₁⟩ : ∃ b₁ : MarketOrderBook,
    b₁ = (b.modifyOrder order fun o => { o with nextOrder := some order }).modifyOrder order
      fun o => { o with prevOrder := some order } := ⟨_, rfl⟩
  have hframe : b₁.frame = b.frame := by rw [hb₁]; rfl
  simp only [← hb₁]
  refine Mimics.of_frame (?_ : b₁.Does _ _) hframe
  have halloc : b₁.toExchange.ordersAtPricePool.allocate {
      side := (b₁.toExchange.order order).side, price := (b₁.toExchange.order order).price,
      ordersHead := some order } =
        (b₁.ordersAtPricePool.allocate {
          side := (b₁.order order).side, price := (b₁.order order).price,
          firstOrder := some order }).map
            fun r => (r.1, r.2.map MarketOrdersAtPrice.toExchange) :=
    MemPool.allocate_map MarketOrdersAtPrice.toExchange b₁.ordersAtPricePool {
      side := (b₁.order order).side, price := (b₁.order order).price, firstOrder := some order }
  rw [halloc]
  cases b₁.ordersAtPricePool.allocate
      { side := (b₁.order order).side, price := (b₁.order order).price, firstOrder := some order } with
  | error e => exact Mimics.error e
  | ok r =>
    obtain ⟨orderAtPrice, pool⟩ := r
    exact ({ b₁ with ordersAtPricePool := pool } : MarketOrderBook).addOrderAtPrice_does orderAtPrice
      |>.of_frame rfl

theorem joinLevel_does (order : OrderPtr) (orderAtPrice : LevelPtr) :
    b.Does (b.joinLevel order orderAtPrice) (b.toExchange.joinLevel order orderAtPrice) := by
  unfold joinLevel MEOrderBook.joinLevel
  apply Mimics.bind_same (deref (b.level orderAtPrice).firstOrder)
  intro levelHead
  apply Mimics.bind_same (deref (b.order levelHead).prevOrder)
  intro last
  simp only [toExchange_setOrderNext, order_toExchange]
  rw [toExchange_setOrderPrev]
  simp only [toExchange_setOrderPrev]
  exact Mimics.ok rfl

/-- The last write of `AddOrder`. Client 0 is in the table of the exchange, so it is the order id that
is checked there, too. -/
theorem setOid_does (order : OrderPtr) :
    b.Does
      (if (b.order order).orderId.toNat < meMaxOrderIds then
        .ok (b.setOid (b.order order).orderId (some order))
      else .error .outOfRange)
      (if MEOrderBook.inTable (b.toExchange.order order).clientId
          (b.toExchange.order order).clientOrderId then
        .ok (b.toExchange.setCidOid (b.toExchange.order order).clientId
          (b.toExchange.order order).clientOrderId (some order))
      else .error .outOfRange) := by
  have hids : MEOrderBook.inTable (b.toExchange.order order).clientId
      (b.toExchange.order order).clientOrderId =
        decide ((b.order order).orderId.toNat < meMaxOrderIds) := by
    show (decide ((0 : ClientId).toNat < meMaxNumClients) && _) = _
    rw [decide_eq_true (by decide), Bool.true_and]
    rfl
  have hset : b.toExchange.setCidOid (b.toExchange.order order).clientId
      (b.toExchange.order order).clientOrderId (some order) =
        (b.setOid (b.order order).orderId (some order)).toExchange :=
    b.toExchange_setOid _ _
  rw [hids, hset]
  simp only [decide_eq_true_eq]
  apply Mimics.ite
  · intro _
    exact Mimics.ok rfl
  · intro _
    exact Mimics.error _

/-- **`AddOrder` does what `AddOrderToPriceLevel` does.** -/
theorem addOrder_does (order : OrderPtr) :
    b.Does (b.addOrder order) (b.toExchange.addOrderToPriceLevel order) := by
  unfold addOrder MEOrderBook.addOrderToPriceLevel
  rw [show b.toExchange.getOrderAtPrice (b.toExchange.order order).price =
    b.getOrdersAtPrice (b.order order).price from rfl]
  cases b.getOrdersAtPrice (b.order order).price with
  | none => exact (b.startLevel_does order).bind fun b₁ => b₁.setOid_does order
  | some orderAtPrice =>
    exact (b.joinLevel_does order orderAtPrice).bind fun b₁ => b₁.setOid_does order

/-! ## Taking out -/

theorem unlinkLevel_does (orderAtPrice : LevelPtr) :
    b.Does (b.unlinkLevel orderAtPrice) (b.toExchange.unlinkLevel orderAtPrice) := by
  unfold unlinkLevel MEOrderBook.unlinkLevel
  apply Mimics.ite (c := (b.level orderAtPrice).next = some orderAtPrice)
  · intro _
    rw [toExchange_setLevelsHead]
    exact Mimics.ok (setLevelsHead_frame _ _ _)
  · intro _
    apply Mimics.bind_same (deref (b.level orderAtPrice).prev)
    intro prev
    simp only [toExchange_setLevelNext, level_toExchange, MarketOrdersAtPrice.toExchange_next,
      MarketOrdersAtPrice.toExchange_prev, MarketOrdersAtPrice.toExchange_side]
    apply Mimics.bind_same
    intro next
    simp only [toExchange_setLevelPrev, toExchange_setLevelsHead, levelsHead_toExchange,
      level_toExchange, MarketOrdersAtPrice.toExchange_next]
    split
    · simp only [toExchange_setLevelNext, toExchange_setLevelPrev]
      exact Mimics.ok (setLevelsHead_frame _ _ _)
    · simp only [toExchange_setLevelNext, toExchange_setLevelPrev]
      exact Mimics.ok rfl

theorem removeOrderAtPrice_does (orderAtPrice : LevelPtr) :
    b.Does (b.removeOrderAtPrice orderAtPrice) (b.toExchange.removeOrderAtPrice orderAtPrice) := by
  unfold removeOrderAtPrice MEOrderBook.removeOrderAtPrice
  apply (b.unlinkLevel_does orderAtPrice).bind
  intro b₁
  have hdealloc : b₁.toExchange.ordersAtPricePool.deallocate orderAtPrice =
      (b₁.ordersAtPricePool.deallocate orderAtPrice).map
        (MemPool.map MarketOrdersAtPrice.toExchange) :=
    MemPool.deallocate_map MarketOrdersAtPrice.toExchange b₁.ordersAtPricePool orderAtPrice
  dsimp only
  rw [hdealloc]
  cases b₁.ordersAtPricePool.deallocate orderAtPrice with
  | error e => exact Mimics.error e
  | ok pool =>
    have hok : b₁.Does (.ok { b₁ with
      oidToPriceLevel :=
        Function.update b₁.oidToPriceLevel (priceToIndex (b₁.level orderAtPrice).price) none
      ordersAtPricePool := pool }) _ := Mimics.ok rfl
    exact hok

theorem unlinkOrder_does (order : OrderPtr) :
    b.Does (b.unlinkOrder order) (b.toExchange.unlinkOrder order) := by
  unfold unlinkOrder MEOrderBook.unlinkOrder
  rw [show b.toExchange.getOrderAtPrice (b.toExchange.order order).price =
    b.getOrdersAtPrice (b.order order).price from rfl]
  apply Mimics.ite (c := (b.order order).nextOrder = some order ∧ (b.order order).prevOrder = some order)
  · intro _
    apply Mimics.bind_same
    intro orderLevel
    exact b.removeOrderAtPrice_does orderLevel
  · intro _
    apply Mimics.bind_same (deref (b.order order).prevOrder)
    intro prev
    simp only [toExchange_setOrderNext, order_toExchange, MarketOrder.toExchange_nextOrder,
      MarketOrder.toExchange_prevOrder]
    apply Mimics.bind_same
    intro next
    apply Mimics.bind_same
    intro orderLevel
    simp only [toExchange_setOrderPrev, level_toExchange, order_toExchange,
      MarketOrdersAtPrice.toExchange_ordersHead, MarketOrder.toExchange_nextOrder]
    split
    · rw [toExchange_setFirstOrder, toExchange_setOrderPrev, toExchange_setOrderNext]
      exact Mimics.ok rfl
    · rw [toExchange_setOrderPrev, toExchange_setOrderNext]
      exact Mimics.ok rfl

/-- What `removeOrder` does once the order is unlinked, if the id of the order is in the table. -/
theorem forget_does (order : OrderPtr) (hid : (b.order order).orderId.toNat < meMaxOrderIds) :
    b.Does
      (if (b.order order).orderId.toNat < meMaxOrderIds then do
        let pool ← (b.setOid (b.order order).orderId none).orderPool.deallocate order
        return { b.setOid (b.order order).orderId none with orderPool := pool }
      else .error .outOfBounds)
      (do
        let pool ← (b.toExchange.setCidOid (b.toExchange.order order).clientId
          (b.toExchange.order order).clientOrderId none).ordersPool.deallocate order
        return { b.toExchange.setCidOid (b.toExchange.order order).clientId
          (b.toExchange.order order).clientOrderId none with ordersPool := pool }) := by
  have hset : b.toExchange.setCidOid (b.toExchange.order order).clientId
      (b.toExchange.order order).clientOrderId none =
        (b.setOid (b.order order).orderId none).toExchange :=
    b.toExchange_setOid _ _
  rw [if_pos hid, hset]
  obtain ⟨b₁, hb₁⟩ : ∃ b₁ : MarketOrderBook, b₁ = b.setOid (b.order order).orderId none := ⟨_, rfl⟩
  have hframe : b₁.frame = b.frame := by rw [hb₁]; rfl
  rw [← hb₁]
  refine Mimics.of_frame (?_ : b₁.Does _ _) hframe
  have hdealloc : b₁.toExchange.ordersPool.deallocate order =
      (b₁.orderPool.deallocate order).map (MemPool.map (MarketOrder.toExchange b₁.tickerId)) :=
    MemPool.deallocate_map _ b₁.orderPool order
  rw [hdealloc]
  cases b₁.orderPool.deallocate order with
  | error e => exact Mimics.error e
  | ok pool =>
    have hok : b₁.Does (.ok { b₁ with orderPool := pool }) _ := Mimics.ok rfl
    exact hok

/-- **`removeOrder` does what the exchange's does**, for an order whose id is in the table. -/
theorem removeOrder_does (order : OrderPtr)
    (hid : ∀ b₁, b.toExchange.unlinkOrder order = .ok b₁ →
      (b₁.order order).marketOrderId.toNat < meMaxOrderIds) :
    b.Does (b.removeOrder order) (b.toExchange.removeOrder order) := by
  unfold removeOrder MEOrderBook.removeOrder
  have hunlink := b.unlinkOrder_does order
  cases hb₁ : b.unlinkOrder order with
  | error e =>
    have hview := hunlink.view_eq
    rw [hb₁] at hview
    rw [← hview]
    exact Mimics.error e
  | ok b₁ =>
    have hview := hunlink.view_eq
    rw [hb₁] at hview
    rw [← hview]
    exact (b₁.forget_does order (hid _ hview.symm)).of_frame (hunlink.frame_eq _ hb₁)

end MarketOrderBook

end TradingSystem.Client
