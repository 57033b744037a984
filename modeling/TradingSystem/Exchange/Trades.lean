import TradingSystem.Exchange.Crossing

/-!
# The trades of a run

A match sends two `FILLED` responses next to each other, the aggressor's first, and one `TRADE`
update. So the trades of a run can be read off either log: the `FILLED` responses pair up
(`pairs_filled`), and the `TRADE` updates are as many, in the same order (`trade_updates`).
-/

namespace TradingSystem

open MEOrderBook (stops)

/-- The elements of a list two by two. -/
def pairs {α : Type} : List α → List (α × α)
  | x :: y :: l => (x, y) :: pairs l
  | _ => []

theorem pairs_flatMap {α β : Type} (f g : β → α) (l : List β) :
    pairs (l.flatMap fun b => [f b, g b]) = l.map fun b => (f b, g b) := by
  induction l with
  | nil => rfl
  | cons b l ih =>
    show pairs (f b :: g b :: l.flatMap fun b => [f b, g b]) = _
    rw [pairs, ih]
    rfl

/-- The matches among the events, each with the order that caused it. -/
def tradesOf (evs : List Event) : List (OrderInfo × Fill) :=
  evs.filterMap fun
    | .fill a f => some (a, f)
    | _ => none

@[simp] theorem tradesOf_append (evs evs' : List Event) :
    tradesOf (evs ++ evs') = tradesOf evs ++ tradesOf evs' :=
  List.filterMap_append

theorem mem_tradesOf {evs : List Event} {t : OrderInfo × Fill} :
    t ∈ tradesOf evs ↔ Event.fill t.1 t.2 ∈ evs := by
  unfold tradesOf
  rw [List.mem_filterMap]
  constructor
  · rintro ⟨ev, hev, h⟩
    cases ev with
    | fill a f =>
      obtain rfl := Option.some.inj h
      exact hev
    | _ => cases h
  · intro h
    exact ⟨_, h, rfl⟩

/-- The aggressor's response to a match. -/
def aggressorFilled (ticker : TickerId) (t : OrderInfo × Fill) : MEClientResponse where
  type := .filled
  clientId := t.1.clientId
  tickerId := ticker
  clientOrderId := t.1.clientOrderId
  marketOrderId := t.1.marketOrderId
  side := t.1.side
  price := t.2.passive.info.price
  execQty := t.2.exec
  leftQty := t.2.left

/-- The passive order's response to a match. -/
def passiveFilled (ticker : TickerId) (t : OrderInfo × Fill) : MEClientResponse where
  type := .filled
  clientId := t.2.passive.info.clientId
  tickerId := ticker
  clientOrderId := t.2.passive.info.clientOrderId
  marketOrderId := t.2.passive.info.marketOrderId
  side := t.2.passive.info.side
  price := t.2.passive.info.price
  execQty := t.2.exec
  leftQty := t.2.passive.info.qty - t.2.exec

/-- The update of a match. -/
def tradeUpdate (ticker : TickerId) (t : OrderInfo × Fill) : MEMarketUpdate where
  type := .trade
  orderId := orderIdInvalid
  tickerId := ticker
  side := t.1.side
  price := t.2.passive.info.price
  qty := t.2.exec
  priority := priorityInvalid

theorem filled_responses (ticker : TickerId) (evs : List Event) :
    (evs.flatMap (Event.responses ticker)).filter (fun r => r.type = .filled) =
      (tradesOf evs).flatMap fun t => [aggressorFilled ticker t, passiveFilled ticker t] := by
  induction evs with
  | nil => rfl
  | cons ev evs ih =>
    rw [List.flatMap_cons, List.filter_append, ih]
    cases ev with
    | fill a f =>
      show _ = (tradesOf ([.fill a f] ++ evs)).flatMap _
      rw [tradesOf_append, List.flatMap_append]
      rfl
    | _ => rfl

/-- The `FILLED` responses come in pairs, one for each match. -/
theorem pairs_filled (ticker : TickerId) (evs : List Event) :
    pairs ((evs.flatMap (Event.responses ticker)).filter fun r => r.type = .filled) =
      (tradesOf evs).map fun t => (aggressorFilled ticker t, passiveFilled ticker t) := by
  rw [filled_responses, pairs_flatMap]

/-- The `TRADE` updates are one for each match. -/
theorem trade_updates (ticker : TickerId) (evs : List Event) :
    (evs.flatMap (Event.updates ticker)).filter (fun u => u.type = .trade) =
      (tradesOf evs).map (tradeUpdate ticker) := by
  induction evs with
  | nil => rfl
  | cons ev evs ih =>
    rw [List.flatMap_cons, List.filter_append, ih]
    cases ev with
    | fill a f =>
      show _ = (tradesOf ([.fill a f] ++ evs)).map _
      rw [tradesOf_append, List.map_append]
      have hkind : ∀ b : Bool, (if b then MarketUpdateType.cancel else .modify) ≠ .trade := by
        decide
      by_cases hzero : f.passive.info.qty - f.exec = 0 <;> simp [Event.updates, hzero] <;> rfl
    | _ => rfl

/-! ## The trades of a request -/

/-- A match is with an order of the queue. -/
theorem passive_mem_of_mem_fills {s : Side} {price : Price} {left : Qty} {es : List Entry} {f : Fill}
    (h : f ∈ fills s price left es) :
    f.passive ∈ es ∧ stops s price f.passive.info.price = false := by
  induction es generalizing left with
  | nil => cases h
  | cons e es ih =>
    cases hstop : stops s price e.info.price with
    | true =>
      rw [fills_stop hstop] at h
      cases h
    | false =>
      by_cases hzero : left = 0
      · subst hzero
        rw [fills_zero] at h
        cases h
      · rw [fills_cons hzero hstop] at h
        rcases List.mem_cons.mp h with rfl | h
        · exact ⟨by simp, hstop⟩
        · exact ⟨List.mem_cons_of_mem _ (ih h).1, (ih h).2⟩

/-- The matches of a request are those of its order against its queue. -/
theorem mem_tradesOf_events {k : Book} {cells : Book.Cells} {r : MEClientRequest}
    {t : OrderInfo × Fill} (h : t ∈ tradesOf (k.events cells r)) :
    r.type = .new ∧ t.1 = k.incoming r ∧
      t.2 ∈ fills r.side r.price r.qty (k.queue r.side) := by
  rw [mem_tradesOf] at h
  unfold Book.events at h
  cases htype : r.type with
  | new =>
    rw [htype] at h
    rcases List.mem_append.mp h with h | h
    · rcases List.mem_cons.mp h with h | h
      · cases h
      · obtain ⟨f, hf, heq⟩ := List.mem_map.mp h
        obtain ⟨ha, rfl⟩ := Event.fill.inj heq
        exact ⟨rfl, ha.symm, hf⟩
    · split at h
      · cases List.mem_singleton.mp h
      · cases h
  | cancel =>
    rw [htype] at h
    dsimp only at h
    split at h
    · cases List.mem_singleton.mp h
    · cases List.mem_singleton.mp h
  | _ =>
    rw [htype] at h
    cases h

end TradingSystem
