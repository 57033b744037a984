import TradingSystem.Exchange.OrderBook

/-!
# The order book as lists, and the events that change it

The same book as `MEOrderBook` with the links taken away: a side is a list of levels, best first,
and a level a list of orders, oldest first. An order keeps the cell it lives in as its identity, so
that two orders with equal ids stay apart.

A request is answered by a list of `Event`s. Each event changes the book (`Book.apply`) and says
what the clients and the market are told (`Event.responses`, `Event.updates`); everything the
exchange ever sends is the events of its run, flattened. That the pointer structure does the same is
`MEOrderBook.processClientRequest_refines`.

As in the source, the level of an order is the one in its price's slot, whatever that level's own
price and side are.
-/

namespace TradingSystem

/-- An order resting in the book, with the cell it lives in. -/
structure Entry where
  ptr : OrderPtr
  info : OrderInfo
  deriving DecidableEq

/-- A level with its orders, oldest first. -/
structure Level where
  ptr : LevelPtr
  side : Side
  price : Price
  orders : List Entry
  deriving DecidableEq

namespace Level

/-- The level's slot in the price table. -/
def slot (l : Level) : Price := MEOrderBook.priceToIndex l.price

end Level

namespace Entry

def slot (e : Entry) : Price := MEOrderBook.priceToIndex e.info.price

end Entry

/-! ## Lists of levels -/

/-- The orders of a list of levels, level by level. -/
def levelOrders (ls : List Level) : List Entry := ls.flatMap Level.orders

/-- Change or drop orders; levels that lose their last order go with it. -/
def filterOrders (f : Entry → Option Entry) (ls : List Level) : List Level :=
  (ls.map fun l => { l with orders := l.orders.filterMap f }).filter fun l => l.orders ≠ []

/-- A price `p` belongs behind a price `q` in the list of levels of this side. -/
def behind (side : Side) (p q : Price) : Bool :=
  (side = .buy && p < q) || (side = .sell && p > q)

/-- Put a level in front of the first level it does not belong behind. -/
def insertLevel (new : Level) : List Level → List Level
  | [] => [new]
  | l :: ls => if behind new.side new.price l.price then l :: insertLevel new ls else new :: l :: ls

/-- Append an order to the level in its slot. -/
def appendOrder (e : Entry) (ls : List Level) : List Level :=
  ls.map fun l => if l.slot = e.slot then { l with orders := l.orders ++ [e] } else l

@[simp] theorem levelOrders_nil : levelOrders [] = [] := rfl

@[simp] theorem levelOrders_cons (l : Level) (ls : List Level) :
    levelOrders (l :: ls) = l.orders ++ levelOrders ls := rfl

@[simp] theorem levelOrders_append (ls ls' : List Level) :
    levelOrders (ls ++ ls') = levelOrders ls ++ levelOrders ls' := by
  simp [levelOrders]

theorem mem_levelOrders {e : Entry} {ls : List Level} :
    e ∈ levelOrders ls ↔ ∃ l ∈ ls, e ∈ l.orders := by
  simp [levelOrders]

@[simp] theorem filterOrders_append (f : Entry → Option Entry) (ls ls' : List Level) :
    filterOrders f (ls ++ ls') = filterOrders f ls ++ filterOrders f ls' := by
  simp [filterOrders]

@[simp] theorem filterOrders_nil (f : Entry → Option Entry) : filterOrders f [] = [] := rfl

theorem filterOrders_cons (f : Entry → Option Entry) (l : Level) (ls : List Level) :
    filterOrders f (l :: ls) =
      if l.orders.filterMap f = [] then filterOrders f ls
      else { l with orders := l.orders.filterMap f } :: filterOrders f ls := by
  by_cases h : l.orders.filterMap f = [] <;> simp [filterOrders, h]

/-- Dropping the emptied levels does not lose an order. -/
theorem levelOrders_filterOrders (f : Entry → Option Entry) (ls : List Level) :
    levelOrders (filterOrders f ls) = (levelOrders ls).filterMap f := by
  induction ls with
  | nil => rfl
  | cons l ls ih =>
    rw [filterOrders_cons]
    split
    · next h => simp [ih, h]
    · simp [ih]

theorem mem_filterOrders {f : Entry → Option Entry} {ls : List Level} {l : Level} :
    l ∈ filterOrders f ls ↔
      ∃ l₀ ∈ ls, l = { l₀ with orders := l₀.orders.filterMap f } ∧ l.orders ≠ [] := by
  constructor
  · intro h
    obtain ⟨hmem, hne⟩ := List.mem_filter.mp h
    obtain ⟨l₀, hl₀, rfl⟩ := List.mem_map.mp hmem
    exact ⟨l₀, hl₀, rfl, by simpa using hne⟩
  · rintro ⟨l₀, hl₀, rfl, hne⟩
    exact List.mem_filter.mpr ⟨List.mem_map.mpr ⟨l₀, hl₀, rfl⟩, by simpa using hne⟩

/-- What a level is (all but its orders) survives in a sublist. -/
theorem filterOrders_map_sublist {β : Type} (g : Level → β)
    (hg : ∀ l os, g { l with orders := os } = g l) (f : Entry → Option Entry) (ls : List Level) :
    ((filterOrders f ls).map g).Sublist (ls.map g) := by
  have h : ((filterOrders f ls).map g).Sublist
      ((ls.map fun l => { l with orders := l.orders.filterMap f }).map g) :=
    List.Sublist.map g List.filter_sublist
  rw [List.map_map] at h
  have hcomp : (g ∘ fun l => { l with orders := l.orders.filterMap f }) = g := by
    funext l
    exact hg l _
  rwa [hcomp] at h

theorem filterOrders_pairwise {R : Level → Level → Prop}
    (hR : ∀ a b os os', R a b → R { a with orders := os } { b with orders := os' })
    (f : Entry → Option Entry) {ls : List Level} (h : ls.Pairwise R) :
    (filterOrders f ls).Pairwise R := by
  refine List.Pairwise.filter _ ?_
  rw [List.pairwise_map]
  exact h.imp fun hab => hR _ _ _ _ hab

theorem filterOrders_eq_self {f : Entry → Option Entry} {ls : List Level}
    (hne : ∀ l ∈ ls, l.orders ≠ []) (hf : ∀ e ∈ levelOrders ls, f e = some e) :
    filterOrders f ls = ls := by
  induction ls with
  | nil => rfl
  | cons l ls ih =>
    have hl : l.orders.filterMap f = l.orders := by
      rw [List.filterMap_congr (g := some) (fun e he => hf e (by simp [he]))]
      simp
    rw [filterOrders_cons, hl, if_neg (hne l (by simp)),
      ih (fun l' hl' => hne l' (by simp [hl'])) (fun e he => hf e (by simp [he]))]

/-! ## Inserting a level -/

theorem mem_insertLevel {new l : Level} {ls : List Level} :
    l ∈ insertLevel new ls ↔ l = new ∨ l ∈ ls := by
  induction ls with
  | nil => simp [insertLevel]
  | cons x ls ih =>
    rw [insertLevel]
    split
    · simp [ih]; tauto
    · simp

theorem insertLevel_perm (new : Level) (ls : List Level) :
    (insertLevel new ls).Perm (new :: ls) := by
  induction ls with
  | nil => rfl
  | cons x ls ih =>
    rw [insertLevel]
    split
    · exact (ih.cons x).trans (List.Perm.swap new x ls)
    · rfl

/-- The new level goes between the levels it belongs behind and the rest. -/
theorem insertLevel_eq (new : Level) (ls : List Level) :
    insertLevel new ls =
      (ls.takeWhile fun l => behind new.side new.price l.price) ++
        new :: (ls.dropWhile fun l => behind new.side new.price l.price) := by
  induction ls with
  | nil => rfl
  | cons x ls ih =>
    rw [insertLevel, List.takeWhile_cons, List.dropWhile_cons]
    split <;> simp [ih]

/-! ## The book -/

structure Book where
  ticker : TickerId
  bids : List Level
  asks : List Level
  cidOidToOrder : ClientId → OrderId → Option OrderPtr
  nextOrderId : OrderId

namespace Book

variable {k : Book} {s : Side} {e : Entry} {l : Level}

def init (ticker : TickerId) : Book where
  ticker := ticker
  bids := []
  asks := []
  cidOidToOrder := fun _ _ => none
  nextOrderId := 1

/-- The list of levels that orders of this side are put in. -/
def side (k : Book) (s : Side) : List Level := if s = .buy then k.bids else k.asks

def levels (k : Book) : List Level := k.bids ++ k.asks

def entries (k : Book) : List Entry := levelOrders k.levels

/-- The orders an incoming order of side `s` meets, in the order it meets them. -/
def queue (k : Book) (s : Side) : List Entry :=
  match s with
  | .buy => levelOrders k.asks
  | .sell => levelOrders k.bids
  | _ => []

def setCidOid (k : Book) (c : ClientId) (o : OrderId) (p : Option OrderPtr) : Book :=
  { k with
    cidOidToOrder := Function.update k.cidOidToOrder c (Function.update (k.cidOidToOrder c) o p) }

def filter (k : Book) (f : Entry → Option Entry) : Book :=
  { k with bids := filterOrders f k.bids, asks := filterOrders f k.asks }

/-- The function that drops the order in cell `p`. -/
def dropping (p : OrderPtr) (e : Entry) : Option Entry := if e.ptr = p then none else some e

/-- The function that gives the order in cell `p` a new quantity. -/
def requantifying (p : OrderPtr) (q : Qty) (e : Entry) : Option Entry :=
  if e.ptr = p then some { e with info := { e.info with qty := q } } else some e

/-- Take an order out of the book. -/
def remove (k : Book) (e : Entry) : Book :=
  (k.filter (dropping e.ptr)).setCidOid e.info.clientId e.info.clientOrderId none

def setQty (k : Book) (p : OrderPtr) (q : Qty) : Book := k.filter (requantifying p q)

/-- Some level occupies the slot of `e`. -/
def slotTaken (k : Book) (e : Entry) : Bool := k.levels.any fun l => l.slot = e.slot

/-- Put an order into the book: at the tail of the level in its slot, or in a new level (`lp`). -/
def rest (k : Book) (e : Entry) (lp : LevelPtr) : Book :=
  let new : Level := { ptr := lp, side := e.info.side, price := e.info.price, orders := [e] }
  let k :=
    if k.slotTaken e then { k with bids := appendOrder e k.bids, asks := appendOrder e k.asks }
    else if e.info.side = .buy then { k with bids := insertLevel new k.bids }
    else { k with asks := insertLevel new k.asks }
  k.setCidOid e.info.clientId e.info.clientOrderId (some e.ptr)

/-- The priority an order of this price gets when it rests. -/
def priorityAt (k : Book) (p : Price) : Priority :=
  match k.levels.find? fun l => l.slot = MEOrderBook.priceToIndex p with
  | none => 1
  | some l => ((l.orders.getLast?.map fun e => e.info.priority).getD 0) + 1

@[simp] theorem filter_bids (f : Entry → Option Entry) :
    (k.filter f).bids = filterOrders f k.bids := rfl

@[simp] theorem filter_asks (f : Entry → Option Entry) :
    (k.filter f).asks = filterOrders f k.asks := rfl

@[simp] theorem filter_levels (f : Entry → Option Entry) :
    (k.filter f).levels = filterOrders f k.levels := by
  simp [levels]

@[simp] theorem filter_entries (f : Entry → Option Entry) :
    (k.filter f).entries = k.entries.filterMap f := by
  rw [entries, filter_levels, levelOrders_filterOrders]
  rfl

theorem filter_side (f : Entry → Option Entry) : (k.filter f).side s = filterOrders f (k.side s) := by
  unfold side
  split <;> rfl

@[simp] theorem filter_cidOidToOrder (f : Entry → Option Entry) :
    (k.filter f).cidOidToOrder = k.cidOidToOrder := rfl

@[simp] theorem setCidOid_levels (c : ClientId) (o : OrderId) (p : Option OrderPtr) :
    (k.setCidOid c o p).levels = k.levels := rfl

@[simp] theorem setCidOid_entries (c : ClientId) (o : OrderId) (p : Option OrderPtr) :
    (k.setCidOid c o p).entries = k.entries := rfl

@[simp] theorem setCidOid_side (c : ClientId) (o : OrderId) (p : Option OrderPtr) :
    (k.setCidOid c o p).side s = k.side s := rfl

@[simp] theorem setCidOid_queue (c : ClientId) (o : OrderId) (p : Option OrderPtr) :
    (k.setCidOid c o p).queue s = k.queue s := rfl

theorem setCidOid_cidOidToOrder (c c' : ClientId) (o o' : OrderId) (p : Option OrderPtr) :
    (k.setCidOid c o p).cidOidToOrder c' o' =
      if c' = c ∧ o' = o then p else k.cidOidToOrder c' o' := by
  by_cases hc : c' = c
  · subst hc
    by_cases ho : o' = o
    · subst ho; simp [setCidOid]
    · simp [setCidOid, ho]
  · simp [setCidOid, hc]

theorem mem_levels_of_mem_side (h : l ∈ k.side s) : l ∈ k.levels := by
  unfold side at h
  split at h <;> simp [levels, h]

theorem mem_levels : l ∈ k.levels ↔ l ∈ k.side .buy ∨ l ∈ k.side .sell := by
  simp [levels, side]

theorem mem_entries : e ∈ k.entries ↔ ∃ l ∈ k.levels, e ∈ l.orders := mem_levelOrders

theorem mem_entries_of_mem_queue (h : e ∈ k.queue s) : e ∈ k.entries := by
  unfold queue at h
  split at h
  · simp [entries, levels, h]
  · simp [entries, levels, h]
  · simp at h

theorem filter_queue (f : Entry → Option Entry) :
    (k.filter f).queue s = (k.queue s).filterMap f := by
  cases s <;> simp [queue, levelOrders_filterOrders]

end Book

/-! ## Fills and events -/

/-- One match: the passive order as it stood, the quantity traded, and what is then left of the
aggressive order. -/
structure Fill where
  passive : Entry
  exec : Qty
  left : Qty

/-- The matches of an incoming order with `left` still to trade, against the orders it meets. -/
def fills (side : Side) (price : Price) : Qty → List Entry → List Fill
  | _, [] => []
  | left, e :: rest =>
    if left = 0 || MEOrderBook.stops side price e.info.price then []
    else
      let exec := if left < e.info.qty then left else e.info.qty
      { passive := e, exec := exec, left := left - exec } :: fills side price (left - exec) rest

/-- What is left of an incoming order after its matches. -/
def leftOver (qty : Qty) : List Fill → Qty
  | [] => qty
  | f :: fs => leftOver f.left fs

/-- What happens at the exchange. -/
inductive Event where
  /-- a new order got its market order id -/
  | accepted (order : OrderInfo)
  /-- the new order `aggressor` traded -/
  | fill (aggressor : OrderInfo) (f : Fill)
  /-- what is left of an order for `submitted` rests, in level `level` if its slot has none -/
  | rest (e : Entry) (level : LevelPtr) (submitted : Qty)
  | cancelled (e : Entry)
  | rejected (clientId : ClientId) (orderId : OrderId)

namespace Event

/-- The responses of an event, as the source fills them in. -/
def responses (ticker : TickerId) : Event → List MEClientResponse
  | .accepted o => [{
      type := .accepted, clientId := o.clientId, tickerId := ticker,
      clientOrderId := o.clientOrderId, marketOrderId := o.marketOrderId, side := o.side,
      price := o.price, execQty := 0, leftQty := o.qty }]
  | .fill a f => [{
      type := .filled, clientId := a.clientId, tickerId := ticker,
      clientOrderId := a.clientOrderId, marketOrderId := a.marketOrderId, side := a.side,
      price := f.passive.info.price, execQty := f.exec, leftQty := f.left }, {
      type := .filled, clientId := f.passive.info.clientId, tickerId := ticker,
      clientOrderId := f.passive.info.clientOrderId,
      marketOrderId := f.passive.info.marketOrderId, side := f.passive.info.side,
      price := f.passive.info.price, execQty := f.exec,
      leftQty := f.passive.info.qty - f.exec }]
  | .rest _ _ _ => []
  | .cancelled e => [{
      type := .cancelled, clientId := e.info.clientId, tickerId := ticker,
      clientOrderId := e.info.clientOrderId, marketOrderId := e.info.marketOrderId,
      side := e.info.side, price := e.info.price, execQty := qtyInvalid, leftQty := e.info.qty }]
  | .rejected c o => [{
      type := .cancelRejected, clientId := c, tickerId := ticker, clientOrderId := o,
      marketOrderId := orderIdInvalid, side := .invalid, price := priceInvalid,
      execQty := qtyInvalid, leftQty := qtyInvalid }]

/-- The market updates of an event, as the source fills them in. -/
def updates (ticker : TickerId) : Event → List MEMarketUpdate
  | .accepted _ => []
  | .fill a f => [{
      type := .trade, orderId := orderIdInvalid, tickerId := ticker, side := a.side,
      price := f.passive.info.price, qty := f.exec, priority := priorityInvalid }, {
      type := if f.passive.info.qty - f.exec = 0 then .cancel else .modify,
      orderId := f.passive.info.marketOrderId, tickerId := ticker, side := f.passive.info.side,
      price := f.passive.info.price, qty := f.passive.info.qty - f.exec,
      priority := f.passive.info.priority }]
  | .rest e _ submitted => [{
      type := .add, orderId := e.info.marketOrderId, tickerId := ticker, side := e.info.side,
      price := e.info.price, qty := submitted, priority := e.info.priority }]
  | .cancelled e => [{
      type := .cancel, orderId := e.info.marketOrderId, tickerId := ticker, side := e.info.side,
      price := e.info.price, qty := e.info.qty, priority := e.info.priority }]
  | .rejected _ _ => []

end Event

namespace Book

/-- The passive order of a match loses what was traded, and its place if nothing is left. -/
def fill (k : Book) (f : Fill) : Book :=
  if f.passive.info.qty - f.exec = 0 then k.remove f.passive
  else k.setQty f.passive.ptr (f.passive.info.qty - f.exec)

/-- What an event does to the book. -/
def apply (k : Book) : Event → Book
  | .accepted _ => { k with nextOrderId := k.nextOrderId + 1 }
  | .fill _ f => k.fill f
  | .rest e lp _ => k.rest e lp
  | .cancelled e => k.remove e
  | .rejected _ _ => k

def applyAll (k : Book) (evs : List Event) : Book := evs.foldl apply k

/-- **The rule for a fill**: the resting order goes, or it stays with what is left of it. -/
theorem fill_rule {P : Book → Prop} {k : Book} {f : Fill}
    (gone : f.passive.info.qty - f.exec = 0 → P (k.remove f.passive))
    (left : f.passive.info.qty - f.exec ≠ 0 →
      P (k.setQty f.passive.ptr (f.passive.info.qty - f.exec))) : P (k.fill f) := by
  unfold fill
  split
  · next hzero => exact gone hzero
  · next hne => exact left hne

@[simp] theorem applyAll_nil (k : Book) : k.applyAll [] = k := rfl

@[simp] theorem applyAll_cons (k : Book) (ev : Event) (evs : List Event) :
    k.applyAll (ev :: evs) = (k.apply ev).applyAll evs := rfl

theorem applyAll_append (k : Book) (evs evs' : List Event) :
    k.applyAll (evs ++ evs') = (k.applyAll evs).applyAll evs' := by
  simp [applyAll, List.foldl_append]

/-- The cells a request finds free: one for an order, one for a level. -/
structure Cells where
  order : OrderPtr
  level : LevelPtr

/-- The order a `NEW` request asks for, under the next market order id. -/
def incoming (k : Book) (r : MEClientRequest) : OrderInfo where
  tickerId := k.ticker
  clientId := r.clientId
  clientOrderId := r.orderId
  marketOrderId := k.nextOrderId
  side := r.side
  price := r.price
  qty := r.qty

/-- The events of a `NEW` request up to its last match. -/
def matchEvents (k : Book) (r : MEClientRequest) : List Event :=
  .accepted (k.incoming r) ::
    (fills r.side r.price r.qty (k.queue r.side)).map (.fill (k.incoming r))

/-- The order a `NEW` request leaves in the book, if anything is left of it. -/
def remainder (k : Book) (cells : Cells) (r : MEClientRequest) : Option Entry :=
  let left := leftOver r.qty (fills r.side r.price r.qty (k.queue r.side))
  if left > 0 then
    some {
      ptr := cells.order
      info := { k.incoming r with
        qty := left, priority := (k.applyAll (k.matchEvents r)).priorityAt r.price } }
  else none

/-- The events of a request. -/
def events (k : Book) (cells : Cells) (r : MEClientRequest) : List Event :=
  match r.type with
  | .new =>
    k.matchEvents r ++
      match k.remainder cells r with
      | some e => [.rest e cells.level r.qty]
      | none => []
  | .cancel =>
    let p := if MEOrderBook.inTable r.clientId r.orderId then k.cidOidToOrder r.clientId r.orderId
      else none
    match k.entries.find? fun e => some e.ptr = p with
    | some e => [.cancelled e]
    | none => [.rejected r.clientId r.orderId]
  | _ => []

end Book

end TradingSystem
