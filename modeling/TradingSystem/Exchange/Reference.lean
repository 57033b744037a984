import TradingSystem.Lib.StableSort
import TradingSystem.Exchange.Legality

/-!
# The reference book

What a price-time priority book is meant to do, in its own terms: the resting orders are one list, in
the order of their arrival. An incoming order trades with the best order of the other side, the
oldest among equals (`best`), until it is used up or the best price does not satisfy its limit
(`trade`); what is left of it joins the list at the end. A cancel takes out the order with its name.
A side is read off in price-time priority by sorting it by price (`priceTime`), which keeps orders
of one price in the order of their arrival.

`MEOrderBook` does exactly this as long as distinct prices have distinct slots, which they have in a
window of fewer than `ME_MAX_PRICE_LEVELS` ticks (`processAll_reference`).
-/

namespace TradingSystem

namespace Reference

/-- A resting or incoming order. A client names its orders by its own ids. -/
structure Order where
  clientId : ClientId
  clientOrderId : OrderId
  marketOrderId : OrderId
  side : Side
  price : Price
  qty : Qty
  deriving DecidableEq

/-- The orders resting, oldest first, and the market order id the next order gets. -/
structure State where
  orders : List Order
  nextId : OrderId

def init : State := ⟨[], 1⟩

def Order.Named (o : Order) (c : ClientId) (id : OrderId) : Prop :=
  o.clientId = c ∧ o.clientOrderId = id

instance (o : Order) (c : ClientId) (id : OrderId) : Decidable (o.Named c id) :=
  inferInstanceAs (Decidable (_ ∧ _))

/-- For an incoming order of side `s`, the price `p` is better than the price `q`. -/
def better (s : Side) (p q : Price) : Prop := (s = .buy ∧ p < q) ∨ (s = .sell ∧ q < p)

instance (s : Side) (p q : Price) : Decidable (better s p q) := inferInstanceAs (Decidable (_ ∨ _))

/-- The price `p` satisfies the limit of an incoming order of side `s`. -/
def satisfies (s : Side) (limit p : Price) : Prop := (s = .buy ∧ p ≤ limit) ∨ (s = .sell ∧ limit ≤ p)

instance (s : Side) (limit p : Price) : Decidable (satisfies s limit p) :=
  inferInstanceAs (Decidable (_ ∨ _))

/-- The best order for an incoming order of side `s`: an older order yields only to a strictly better
price. -/
def best (s : Side) : List Order → Option Order
  | [] => none
  | o :: os =>
    match best s os with
    | none => if o.side = s.opposite then some o else none
    | some o' => if o.side = s.opposite ∧ ¬ better s o'.price o.price then some o else some o'

def withdraw (c : ClientId) (id : OrderId) (os : List Order) : List Order :=
  os.filter fun o => ¬ o.Named c id

def requantify (c : ClientId) (id : OrderId) (q : Qty) (os : List Order) : List Order :=
  os.map fun o => if o.Named c id then { o with qty := q } else o

/-- The responses to a trade of `exec` between an incoming order and a resting one, as they stand
before it. -/
def filled (ticker : TickerId) (a o : Order) (exec : Qty) : List MEClientResponse := [{
  type := .filled, clientId := a.clientId, tickerId := ticker, clientOrderId := a.clientOrderId,
  marketOrderId := a.marketOrderId, side := a.side, price := o.price, execQty := exec,
  leftQty := a.qty - exec }, {
  type := .filled, clientId := o.clientId, tickerId := ticker, clientOrderId := o.clientOrderId,
  marketOrderId := o.marketOrderId, side := o.side, price := o.price, execQty := exec,
  leftQty := o.qty - exec }]

/-- Trade the incoming order `a`, at most `n` times: what is sent, what is left of the order, and
what then rests. -/
def trade (ticker : TickerId) : Nat → Order → List Order → List MEClientResponse × Order × List Order
  | 0, a, os => ([], a, os)
  | n + 1, a, os =>
    match best a.side os with
    | none => ([], a, os)
    | some o =>
      if 0 < a.qty ∧ satisfies a.side a.price o.price then
        let exec := if a.qty < o.qty then a.qty else o.qty
        let os :=
          if o.qty = exec then withdraw o.clientId o.clientOrderId os
          else requantify o.clientId o.clientOrderId (o.qty - exec) os
        let rest := trade ticker n { a with qty := a.qty - exec } os
        (filled ticker a o exec ++ rest.1, rest.2)
      else ([], a, os)

/-- Process a request. Each trade uses up the incoming order or a resting one, so there are fewer
trades than resting orders, and one. -/
def process (ticker : TickerId) (st : State) (r : MEClientRequest) :
    State × List MEClientResponse :=
  match r.type with
  | .new =>
    let a : Order := ⟨r.clientId, r.orderId, st.nextId, r.side, r.price, r.qty⟩
    let accepted : MEClientResponse := {
      type := .accepted, clientId := r.clientId, tickerId := ticker, clientOrderId := r.orderId,
      marketOrderId := st.nextId, side := r.side, price := r.price, execQty := 0, leftQty := r.qty }
    let (sent, a, os) := trade ticker (st.orders.length + 1) a st.orders
    (⟨if 0 < a.qty then os ++ [a] else os, st.nextId + 1⟩, accepted :: sent)
  | .cancel =>
    match st.orders.find? fun o => o.Named r.clientId r.orderId with
    | some o =>
      (⟨withdraw r.clientId r.orderId st.orders, st.nextId⟩, [{
        type := .cancelled, clientId := r.clientId, tickerId := ticker, clientOrderId := r.orderId,
        marketOrderId := o.marketOrderId, side := o.side, price := o.price, execQty := qtyInvalid,
        leftQty := o.qty }])
    | none =>
      (st, [{
        type := .cancelRejected, clientId := r.clientId, tickerId := ticker,
        clientOrderId := r.orderId, marketOrderId := orderIdInvalid, side := .invalid,
        price := priceInvalid, execQty := qtyInvalid, leftQty := qtyInvalid }])
  | _ => (st, [])

/-- The state after the requests `rs`, and all that was sent. -/
def run (ticker : TickerId) (rs : List MEClientRequest) : State × List MEClientResponse :=
  rs.foldl (fun acc r => ((process ticker acc.1 r).1, acc.2 ++ (process ticker acc.1 r).2))
    (init, [])

theorem run_concat (ticker : TickerId) (rs : List MEClientRequest) (r : MEClientRequest) :
    run ticker (rs ++ [r]) = ((process ticker (run ticker rs).1 r).1,
      (run ticker rs).2 ++ (process ticker (run ticker rs).1 r).2) := by
  simp [run, List.foldl_append]

/-- The resting orders of a side in price-time priority. -/
def priceTime (s : Side) (os : List Order) : List Order :=
  (os.filter fun o => o.side = s).mergeSort fun a b => ¬ better s.opposite b.price a.price

/-! ## The best order -/

variable {s : Side} {p : Price} {os : List Order} {o : Order}

theorem best_eq_none : best s os = none ↔ ∀ o ∈ os, o.side ≠ s.opposite := by
  induction os with
  | nil => simp [best]
  | cons o os ih =>
    rw [best]
    cases hb : best s os with
    | none =>
      have hall := ih.mp hb
      by_cases ho : o.side = s.opposite
      · simp [ho]
      · simp only [ho, if_false, true_iff]
        intro o' ho'
        rcases List.mem_cons.mp ho' with rfl | ho'
        · exact ho
        · exact hall o' ho'
    | some o' =>
      have hne : ¬ ∀ o ∈ os, o.side ≠ s.opposite := fun hall => by
        rw [ih.mpr hall] at hb
        cases hb
      have hne' : ¬ ∀ o'' ∈ o :: os, o''.side ≠ s.opposite := fun hall =>
        hne fun o'' ho'' => hall o'' (List.mem_cons_of_mem _ ho'')
      simp only [hne', iff_false]
      split <;> simp

theorem best_mem (h : best s os = some o) : o ∈ os ∧ o.side = s.opposite := by
  induction os generalizing o with
  | nil => cases h
  | cons x os ih =>
    rw [best] at h
    cases hb : best s os with
    | none =>
      rw [hb] at h
      dsimp only at h
      split at h
      · next hx =>
        obtain rfl := Option.some.inj h
        exact ⟨by simp, hx⟩
      · cases h
    | some o' =>
      rw [hb] at h
      dsimp only at h
      split at h
      · next hx =>
        obtain rfl := Option.some.inj h
        exact ⟨by simp, hx.1⟩
      · obtain rfl := Option.some.inj h
        exact ⟨List.mem_cons_of_mem _ (ih hb).1, (ih hb).2⟩

/-- The oldest order of a price no other price is better than is the best. -/
theorem best_eq_some (hp : ∀ o ∈ os, o.side = s.opposite → ¬ better s o.price p)
    (hstrict : ∀ o ∈ os, o.side = s.opposite → o.price ≠ p → better s p o.price) {rest : List Order}
    (h : (os.filter fun o => o.side = s.opposite ∧ o.price = p) = o :: rest) :
    best s os = some o := by
  induction os generalizing o rest with
  | nil => cases h
  | cons x os ih =>
    have hp' := fun o ho => hp o (List.mem_cons_of_mem x ho)
    have hstrict' := fun o ho => hstrict o (List.mem_cons_of_mem x ho)
    rw [best]
    by_cases hx : x.side = s.opposite ∧ x.price = p
    · -- the oldest order of the price: nothing later is strictly better
      rw [List.filter_cons_of_pos (by simp [hx])] at h
      obtain ⟨rfl, -⟩ := List.cons.inj h
      cases hb : best s os with
      | none => simp [hx.1]
      | some o' =>
        have ho' := best_mem hb
        have hnb : ¬ better s o'.price x.price := by
          rw [hx.2]
          exact hp' o' ho'.1 ho'.2
        simp [hx.1, hnb]
    · rw [List.filter_cons_of_neg (by simpa using hx)] at h
      rw [ih hp' hstrict' h]
      have ho : o.price = p := by
        have hmem : o ∈ os.filter fun o => o.side = s.opposite ∧ o.price = p := by rw [h]; simp
        have := (List.mem_filter.mp hmem).2
        simp only [Bool.decide_and, Bool.and_eq_true, decide_eq_true_eq] at this
        exact this.2
      dsimp only
      rw [if_neg]
      rintro ⟨hside, hnb⟩
      rw [ho] at hnb
      exact hnb (hstrict x (by simp) hside fun heq => hx ⟨hside, heq⟩)

end Reference

end TradingSystem
