import TradingSystem.Exchange.OwnOrder
import TradingSystem.Client.OrderManager

/-!
# A client and the exchange

An `OrderManager` and the `MatchingEngine`, with the requests and the responses between them: two
channels that lose nothing and keep the order. A step of a session is a call of `moveOrders`, the
exchange processing the client's next request, the exchange processing a request of another client, or
the client processing its next response. Any of these may come next.

The client applies a response to the slot of its ticker and side, without looking at the order id. That
the slots and the books agree all the same (`run_inAgreement`) rests on what is on its way: the requests
for a slot and the responses about it are tied to its state (`SlotInv`), which every step preserves.
-/

namespace TradingSystem

structure Session where
  client : OrderManager
  /-- sent by the client, not yet processed, oldest first -/
  requests : List MEClientRequest
  exchange : MatchingEngine
  /-- sent to the client, not yet processed, oldest first -/
  responses : List MEClientResponse

namespace Session

/-- What can happen next. -/
inductive Action where
  | moveOrders (check : TickerId → Side → Qty → RiskCheckResult) (ticker : TickerId)
      (bidPrice askPrice : Price) (qty : Qty)
  /-- the exchange processes the client's next request -/
  | serve
  /-- the exchange processes a request of another client -/
  | serveOther (r : MEClientRequest)
  /-- the client processes its next response -/
  | onOrderUpdate

/-- The client's slots are dead, no order is in the books, and nothing is on its way. -/
def init (clientId : ClientId) : Session where
  client := OrderManager.allDead clientId
  requests := []
  exchange := MatchingEngine.init
  responses := []

/-- The exchange processes a request, and the client is sent the responses that are its own. -/
def process (S : Session) (r : MEClientRequest) : Except Fault Session := do
  let exchange ← S.exchange.processClientRequest r
  return { S with
    exchange := exchange
    responses := S.responses ++ (exchange.responses.drop S.exchange.responses.length).filter
      fun x => x.clientId = S.client.clientId }

def step (S : Session) : Action → Except Fault Session
  | .moveOrders check ticker bidPrice askPrice qty => do
    let (client, sent) ← S.client.moveOrders check ticker bidPrice askPrice qty
    return { S with client := client, requests := S.requests ++ sent }
  | .serve =>
    match S.requests with
    | [] => .ok S
    | r :: requests => { S with requests := requests }.process r
  | .serveOther r => S.process r
  | .onOrderUpdate =>
    match S.responses with
    | [] => .ok S
    | x :: responses => do
      let client ← S.client.onOrderUpdate x
      return { S with client := client, responses := responses }

/-- The ids of the new orders sent are in the range of the books' tables. -/
def NewIdsInRange : Except Fault (OrderManager × List MEClientRequest) → Prop
  | .ok (_, sent) => ∀ r ∈ sent, r.type = .new → r.orderId.toNat < meMaxOrderIds
  | .error _ => True

instance : (result : Except Fault (OrderManager × List MEClientRequest)) →
    Decidable (NewIdsInRange result)
  | .ok (_, sent) => inferInstanceAs (Decidable (∀ r ∈ sent, _ → _))
  | .error _ => isTrue trivial

/-- What is asked of a step: orders are for something and their ids in range, and other clients have
other ids. -/
def Permitted (S : Session) : Action → Prop
  | .moveOrders check ticker bidPrice askPrice qty =>
    qty ≠ 0 ∧ NewIdsInRange (S.client.moveOrders check ticker bidPrice askPrice qty)
  | .serveOther r => r.clientId ≠ S.client.clientId ∧ r.Valid
  | .serve => True
  | .onOrderUpdate => True

instance (S : Session) : (a : Action) → Decidable (Permitted S a)
  | .moveOrders _ _ _ _ _ => inferInstanceAs (Decidable (_ ∧ _))
  | .serveOther _ => inferInstanceAs (Decidable (_ ∧ _))
  | .serve => isTrue trivial
  | .onOrderUpdate => isTrue trivial

/-- The client's orders resting on a side of a ticker's book. -/
def resting (S : Session) (t : TickerId) (s : Side) : List OrderInfo :=
  (S.exchange.tickerOrderBook t).resting.filter fun i =>
    i.clientId = S.client.clientId ∧ i.side = s

/-- **The client and the exchange agree**: no side of a book has two of the client's orders; for a dead
slot none rests, and no `NEW` is unanswered; and once both channels are empty, a slot is live or dead,
and live exactly if its order rests. -/
structure InAgreement (S : Session) : Prop where
  single : ∀ t s, (S.resting t s).length ≤ 1
  dead : ∀ t s, (S.client.tickerSideOrder t s).orderState = .dead →
    S.resting t s = [] ∧
      (∀ r ∈ S.requests, ¬ (r.type = .new ∧ r.tickerId = t ∧ r.side = s)) ∧
      ∀ x ∈ S.responses, ¬ (x.type = .accepted ∧ x.tickerId = t ∧ x.side = s)
  quiet : S.requests = [] → S.responses = [] → ∀ t s,
    ((S.client.tickerSideOrder t s).orderState = .live ∨
      (S.client.tickerSideOrder t s).orderState = .dead) ∧
    ((S.client.tickerSideOrder t s).orderState = .live ↔
      ∃ i ∈ S.resting t s, i.clientOrderId = (S.client.tickerSideOrder t s).orderId ∧
        i.side = (S.client.tickerSideOrder t s).side ∧
        i.price = (S.client.tickerSideOrder t s).price ∧
        i.qty = (S.client.tickerSideOrder t s).qty)

/-! ## What is on its way for a slot -/

/-- The `NEW` requests for a slot. -/
def newsFor (q : List MEClientRequest) (t : TickerId) (s : Side) : List MEClientRequest :=
  q.filter fun r => r.type = .new ∧ r.tickerId = t ∧ r.side = s

/-- The request cancels order `id`. -/
def Cancels (r : MEClientRequest) (id : OrderId) : Prop := r.type = .cancel ∧ r.orderId = id

/-- The responses about a slot. -/
def told (xs : List MEClientResponse) (t : TickerId) (s : Side) : List MEClientResponse :=
  xs.filter fun x => x.tickerId = t ∧ x.side = s

/-- The `NEW` request for the order of a slot. -/
def newRequestOf (c : ClientId) (o : OMOrder) : MEClientRequest where
  type := .new
  clientId := c
  tickerId := o.tickerId
  orderId := o.orderId
  side := o.side
  price := o.price
  qty := o.qty

/-- The state of a slot, the requests `q` and the responses `xs` on their way, and what rests in the
book, with one case for each turn that the life of an order can take. -/
inductive SlotInv (c : ClientId) (t : TickerId) (s : Side) (o : OMOrder) (q : List MEClientRequest)
    (xs : List MEClientResponse) (k : Book) : Prop
  /-- there is no order -/
  | dead (hstate : o.orderState = .dead) (hnews : newsFor q t s = []) (hxs : xs = [])
      (hgone : k.Gone c s)
  /-- the `NEW` is on its way -/
  | sent (hstate : o.orderState = .pendingNew) (hnews : newsFor q t s = [newRequestOf c o])
      (hcancel : ∀ r ∈ q, ¬ Cancels r o.orderId) (hqty : o.qty ≠ 0) (hxs : xs = [])
      (hgone : k.Gone c s)
  /-- the answer to the `NEW` is on its way -/
  | accepted (hstate : o.orderState = .pendingNew) (hnews : newsFor q t s = [])
      (hcancel : ∀ r ∈ q, ¬ Cancels r o.orderId) {x : MEClientResponse}
      {xs' : List MEClientResponse} (hxs : xs = x :: xs') (htype : x.type = .accepted)
      (hleads : Leads (k.Rests c s o.orderId o.price) (k.Gone c s) o.qty xs')
  /-- the order was accepted, and is gone only if this is on its way -/
  | live (hstate : o.orderState = .live) (hnews : newsFor q t s = [])
      (hcancel : ∀ r ∈ q, ¬ Cancels r o.orderId)
      (hleads : Leads (k.Rests c s o.orderId o.price) (k.Gone c s) o.qty xs)
  /-- the `CANCEL` is on its way, or the order is gone -/
  | cancelling (hstate : o.orderState = .pendingCancel) (hnews : newsFor q t s = [])
      (hcancel : k.Gone c s ∨ ∃ r ∈ q, Cancels r o.orderId ∧ r.tickerId = t)
      (hleads : Leads (k.Rests c s o.orderId o.price) (k.Gone c s) o.qty xs)

namespace SlotInv

variable {c : ClientId} {t : TickerId} {s : Side} {o : OMOrder} {q : List MEClientRequest}
  {xs ys : List MEClientResponse} {k k' : Book} {r : MEClientRequest} {x : MEClientResponse}

/-- There is nothing about a dead slot. -/
theorem of_dead (h : SlotInv c t s o q xs k) (hdead : o.orderState = .dead) :
    newsFor q t s = [] ∧ xs = [] ∧ k.Gone c s := by
  cases h with
  | dead _ hnews hxs hgone => exact ⟨hnews, hxs, hgone⟩
  | sent hstate | accepted hstate | live hstate | cancelling hstate =>
    rw [hdead] at hstate
    cases hstate

/-- What is on its way for a live slot. -/
theorem of_live (h : SlotInv c t s o q xs k) (hlive : o.orderState = .live) :
    newsFor q t s = [] ∧ Leads (k.Rests c s o.orderId o.price) (k.Gone c s) o.qty xs := by
  cases h with
  | live _ hnews _ hleads => exact ⟨hnews, hleads⟩
  | dead hstate | sent hstate | accepted hstate | cancelling hstate =>
    rw [hlive] at hstate
    cases hstate

/-- The exchange has done something that is not a new order for the slot. -/
theorem follows (h : SlotInv c t s o q xs k) (hf : k.Follows c s ys k') :
    SlotInv c t s o q (xs ++ ys) k' := by
  cases h with
  | dead hstate hnews hxs hgone =>
    obtain ⟨rfl, hgone'⟩ := hf.gone hgone
    exact .dead hstate hnews (by rw [hxs]; rfl) hgone'
  | sent hstate hnews hcancel hqty hxs hgone =>
    obtain ⟨rfl, hgone'⟩ := hf.gone hgone
    exact .sent hstate hnews hcancel hqty (by rw [hxs]; rfl) hgone'
  | accepted hstate hnews hcancel hxs htype hleads =>
    exact .accepted hstate hnews hcancel (by rw [hxs]; rfl) htype
      (hleads.append (fun _ h => hf.rests h) hf.gone)
  | live hstate hnews hcancel hleads =>
    exact .live hstate hnews hcancel (hleads.append (fun _ h => hf.rests h) hf.gone)
  | cancelling hstate hnews hcancel hleads =>
    exact .cancelling hstate hnews (hcancel.imp_left fun h => (hf.gone h).2)
      (hleads.append (fun _ h => hf.rests h) hf.gone)

theorem newsFor_append (q : List MEClientRequest)
    (h : ¬ (r.type = .new ∧ r.tickerId = t ∧ r.side = s)) :
    newsFor (q ++ [r]) t s = newsFor q t s := by
  unfold newsFor
  rw [List.filter_append, List.filter_cons_of_neg (by simpa using h), List.filter_nil,
    List.append_nil]

theorem newsFor_cons (q : List MEClientRequest)
    (h : ¬ (r.type = .new ∧ r.tickerId = t ∧ r.side = s)) :
    newsFor (r :: q) t s = newsFor q t s :=
  List.filter_cons_of_neg (by simpa using h)

/-- The client has sent something that is not about the slot. -/
theorem push (h : SlotInv c t s o q xs k) (hnew : ¬ (r.type = .new ∧ r.tickerId = t ∧ r.side = s))
    (hother : o.orderState ≠ .dead → ¬ Cancels r o.orderId) : SlotInv c t s o (q ++ [r]) xs k := by
  have hnone : o.orderState ≠ .dead → (∀ r' ∈ q, ¬ Cancels r' o.orderId) →
      ∀ r' ∈ q ++ [r], ¬ Cancels r' o.orderId := by
    intro hstate hcancel r' hr'
    rcases List.mem_append.mp hr' with hr' | hr'
    · exact hcancel r' hr'
    · rw [List.mem_singleton.mp hr']
      exact hother hstate
  cases h with
  | dead hstate hnews hxs hgone =>
    exact .dead hstate ((newsFor_append q hnew).trans hnews) hxs hgone
  | sent hstate hnews hcancel hqty hxs hgone =>
    exact .sent hstate ((newsFor_append q hnew).trans hnews)
      (hnone (by rw [hstate]; decide) hcancel) hqty hxs hgone
  | accepted hstate hnews hcancel hxs htype hleads =>
    exact .accepted hstate ((newsFor_append q hnew).trans hnews)
      (hnone (by rw [hstate]; decide) hcancel) hxs htype hleads
  | live hstate hnews hcancel hleads =>
    exact .live hstate ((newsFor_append q hnew).trans hnews)
      (hnone (by rw [hstate]; decide) hcancel) hleads
  | cancelling hstate hnews hcancel hleads =>
    refine .cancelling hstate ((newsFor_append q hnew).trans hnews) (hcancel.imp_right ?_) hleads
    intro ⟨r', hr', h⟩
    exact ⟨r', List.mem_append_left _ hr', h⟩

/-- The exchange has processed a request that was not a new order for the slot, and the order is gone
if it was to cancel it. -/
theorem pop (h : SlotInv c t s o (r :: q) xs k)
    (hnew : ¬ (r.type = .new ∧ r.tickerId = t ∧ r.side = s))
    (hgone : Cancels r o.orderId → r.tickerId = t → o.orderState ≠ .dead → k.Gone c s) :
    SlotInv c t s o q xs k := by
  cases h with
  | dead hstate hnews hxs hgone =>
    exact .dead hstate ((newsFor_cons q hnew).symm.trans hnews) hxs hgone
  | sent hstate hnews hcancel hqty hxs hgone =>
    exact .sent hstate ((newsFor_cons q hnew).symm.trans hnews)
      (fun r' hr' => hcancel r' (List.mem_cons_of_mem _ hr')) hqty hxs hgone
  | accepted hstate hnews hcancel hxs htype hleads =>
    exact .accepted hstate ((newsFor_cons q hnew).symm.trans hnews)
      (fun r' hr' => hcancel r' (List.mem_cons_of_mem _ hr')) hxs htype hleads
  | live hstate hnews hcancel hleads =>
    exact .live hstate ((newsFor_cons q hnew).symm.trans hnews)
      (fun r' hr' => hcancel r' (List.mem_cons_of_mem _ hr')) hleads
  | cancelling hstate hnews hcancel hleads =>
    refine .cancelling hstate ((newsFor_cons q hnew).symm.trans hnews) ?_ hleads
    rcases hcancel with hnone | ⟨r', hr', hcancels, ht⟩
    · exact Or.inl hnone
    · rcases List.mem_cons.mp hr' with rfl | hr'
      · exact Or.inl (hgone hcancels ht (by rw [hstate]; decide))
      · exact Or.inr ⟨r', hr', hcancels, ht⟩

/-- The client has processed a response about the slot. -/
theorem answer (h : SlotInv c t s o q (x :: xs) k) :
    SlotInv c t s (OrderManager.applyResponse x o) q xs k := by
  cases h with
  | dead hstate hnews hxs hgone => cases hxs
  | sent hstate hnews hcancel hqty hxs hgone => cases hxs
  | accepted hstate hnews hcancel hxs htype hleads =>
    obtain ⟨rfl, rfl⟩ := List.cons.inj hxs
    unfold OrderManager.applyResponse
    rw [htype]
    exact .live rfl hnews hcancel hleads
  | live hstate hnews hcancel hleads =>
    unfold OrderManager.applyResponse
    cases hleads with
    | part htype hleft h =>
      rw [htype]
      dsimp only
      rw [if_neg hleft]
      exact .live hstate hnews hcancel h
    | filled htype hleft hgone =>
      rw [htype]
      dsimp only
      rw [if_pos hleft]
      exact .dead rfl hnews rfl hgone
    | cancelled htype hgone =>
      rw [htype]
      exact .dead rfl hnews rfl hgone
  | cancelling hstate hnews hcancel hleads =>
    unfold OrderManager.applyResponse
    cases hleads with
    | part htype hleft h =>
      rw [htype]
      dsimp only
      rw [if_neg hleft]
      exact .cancelling hstate hnews hcancel h
    | filled htype hleft hgone =>
      rw [htype]
      dsimp only
      rw [if_pos hleft]
      exact .dead rfl hnews rfl hgone
    | cancelled htype hgone =>
      rw [htype]
      exact .dead rfl hnews rfl hgone

/-- A `NEW` for the slot is the slot's own. -/
theorem of_new (h : SlotInv c r.tickerId r.side o (r :: q) xs k) (hnew : r.type = .new) :
    o.orderState = .pendingNew ∧ newRequestOf c o = r ∧ newsFor q r.tickerId r.side = [] ∧
      (∀ r' ∈ q, ¬ Cancels r' o.orderId) ∧ o.qty ≠ 0 ∧ xs = [] ∧ k.Gone c r.side := by
  have hcons : newsFor (r :: q) r.tickerId r.side = r :: newsFor q r.tickerId r.side :=
    List.filter_cons_of_pos (by simp [hnew])
  have hsome : newsFor (r :: q) r.tickerId r.side ≠ [] := by
    rw [hcons]
    exact List.cons_ne_nil _ _
  cases h with
  | sent hstate hnews hcancel hqty hxs hgone =>
    rw [hcons] at hnews
    obtain ⟨hr, hnone⟩ := List.cons.inj hnews
    exact ⟨hstate, hr.symm, hnone, fun r' hr' => hcancel r' (List.mem_cons_of_mem _ hr'), hqty, hxs,
      hgone⟩
  | dead _ hnews => exact absurd hnews hsome
  | accepted _ hnews => exact absurd hnews hsome
  | live _ hnews => exact absurd hnews hsome
  | cancelling _ hnews => exact absurd hnews hsome

/-- The order of a slot rests, or none does. -/
theorem rests_or_gone (h : SlotInv c t s o q xs k) :
    (o.orderState ≠ .dead ∧ ∃ qty, k.Rests c s o.orderId o.price qty) ∨ k.Gone c s := by
  cases h with
  | dead _ _ _ hgone => exact Or.inr hgone
  | sent _ _ _ _ _ hgone => exact Or.inr hgone
  | accepted hstate _ _ _ _ hleads =>
    exact hleads.rests_or_gone.imp_left fun h => ⟨by rw [hstate]; decide, h⟩
  | live hstate _ _ hleads =>
    exact hleads.rests_or_gone.imp_left fun h => ⟨by rw [hstate]; decide, h⟩
  | cancelling hstate _ _ hleads =>
    exact hleads.rests_or_gone.imp_left fun h => ⟨by rw [hstate]; decide, h⟩

/-- An order of the client on the side is the order of the slot. -/
theorem order_eq (h : SlotInv c t s o q xs k) {e : Entry} (he : e ∈ k.entries) (hown : e.Own c s) :
    o.orderState ≠ .dead ∧ e.info.clientOrderId = o.orderId ∧ ∀ e' ∈ k.entries, e'.Own c s → e' = e := by
  rcases h.rests_or_gone with ⟨hstate, qty, hrests⟩ | hgone
  · obtain ⟨hid, -, -, huniq⟩ := hrests.eq he hown
    exact ⟨hstate, hid, huniq⟩
  · exact absurd hown (hgone e he)

end SlotInv

end Session

end TradingSystem
