import TradingSystem.System.Session

/-!
# The client and the exchange agree

`Inv` ties all slots of the client to what is on its way and to the books: `SlotInv` for each slot, and
what keeps the slots apart, which is that no two orders of the client share an id. There is a lemma for
each kind of step (`Inv.moveOrder`, `Inv.serve`, `Inv.serveOther`, `Inv.onOrderUpdate`), and
`run_inAgreement` reads the agreement off.
-/

namespace TradingSystem

open MEOrderBook (inTable)

namespace Session

/-- The invariant of a session of client `c`, whose books are `k`. -/
structure Inv (c : ClientId) (S : Session) (k : TickerId → Book) : Prop where
  clientId : S.client.clientId = c
  reached : S.exchange.Reached k
  names : ∀ t, (k t).Names c
  ids : S.client.nextOrderId.toNat ≤ meMaxOrderIds
  requests : ∀ r ∈ S.requests, r.clientId = c ∧ r.orderId < S.client.nextOrderId ∧
    (r.type = .new ∧ (r.side = .buy ∨ r.side = .sell) ∨ r.type = .cancel)
  responses : ∀ x ∈ S.responses, (x.side = .buy ∨ x.side = .sell) ∨ x.type = .cancelRejected
  slots : ∀ t s, (S.client.tickerSideOrder t s).orderState ≠ .dead →
    (s = .buy ∨ s = .sell) ∧ (S.client.tickerSideOrder t s).tickerId = t ∧
      (S.client.tickerSideOrder t s).side = s ∧
      (S.client.tickerSideOrder t s).orderId < S.client.nextOrderId
  apart : ∀ t s t' s', (S.client.tickerSideOrder t s).orderState ≠ .dead →
    (S.client.tickerSideOrder t' s').orderState ≠ .dead →
    (S.client.tickerSideOrder t s).orderId = (S.client.tickerSideOrder t' s').orderId →
    t = t' ∧ s = s'
  slot : ∀ t s, s = .buy ∨ s = .sell →
    SlotInv c t s (S.client.tickerSideOrder t s) S.requests (told S.responses t s) (k t)

variable {c : ClientId} {S S' : Session} {k : TickerId → Book} {t t' : TickerId} {s s' : Side}
  {r : MEClientRequest}

theorem inv_init (c : ClientId) : Inv c (init c) Book.init where
  clientId := rfl
  reached := MatchingEngine.reached_init
  names := fun t => Book.names_init t c
  ids := by
    show (1 : OrderId).toNat ≤ meMaxOrderIds
    decide
  requests := by simp [init]
  responses := by simp [init]
  slots := fun t s h => absurd rfl h
  apart := fun t s t' s' h => absurd rfl h
  slot := by
    intro t s _
    refine .dead rfl rfl rfl ?_
    intro e he
    simp [Book.init, Book.entries, Book.levels] at he

/-! ## The client sends -/

/-- The client has sent a request about a slot, and changed the slot. -/
theorem Inv.send (h : Inv c S k) (hs : s = .buy ∨ s = .sell) {o : OMOrder} {next : OrderId}
    (hnext : S.client.nextOrderId ≤ next) (hids : next.toNat ≤ meMaxOrderIds)
    (ho : o.tickerId = t ∧ o.side = s ∧ o.orderId < next)
    (hr : r.clientId = c ∧ r.orderId < next ∧
      (r.type = .new ∧ (r.side = .buy ∨ r.side = .sell) ∨ r.type = .cancel))
    (hapart : ∀ t' s', ¬ (t' = t ∧ s' = s) →
      (S.client.tickerSideOrder t' s').orderState ≠ .dead →
      (S.client.tickerSideOrder t' s').orderId ≠ o.orderId)
    (hnew : r.type = .new → r.tickerId = t ∧ r.side = s)
    (hcancel : r.type = .cancel → r.orderId = o.orderId)
    (hslot : SlotInv c t s o (S.requests ++ [r]) (told S.responses t s) (k t)) :
    Inv c { S with
      client := { S.client.setOrder t s o with nextOrderId := next }
      requests := S.requests ++ [r] } k := by
  have hset : ∀ t' s', (S.client.setOrder t s o).tickerSideOrder t' s' =
      if t' = t ∧ s' = s then o else S.client.tickerSideOrder t' s' :=
    fun t' s' => OrderManager.setOrder_tickerSideOrder o
  refine ⟨h.clientId, h.reached, h.names, hids, ?_, h.responses, ?_, ?_, ?_⟩
  · intro r' hr'
    rcases List.mem_append.mp hr' with hr' | hr'
    · obtain ⟨hc, hid, htype⟩ := h.requests r' hr'
      exact ⟨hc, UInt64.lt_of_lt_of_le hid hnext, htype⟩
    · rw [List.mem_singleton.mp hr']
      exact hr
  · intro t' s' hstate
    show (s' = .buy ∨ s' = .sell) ∧ ((S.client.setOrder t s o).tickerSideOrder t' s').tickerId = t' ∧
      ((S.client.setOrder t s o).tickerSideOrder t' s').side = s' ∧
      ((S.client.setOrder t s o).tickerSideOrder t' s').orderId < next
    change ((S.client.setOrder t s o).tickerSideOrder t' s').orderState ≠ .dead at hstate
    rw [hset] at hstate ⊢
    split at hstate
    · next heq =>
      rw [if_pos heq, heq.1, heq.2]
      exact ⟨hs, ho⟩
    · next hne =>
      rw [if_neg hne]
      obtain ⟨hs', ht', hside', hid'⟩ := h.slots t' s' hstate
      exact ⟨hs', ht', hside', UInt64.lt_of_lt_of_le hid' hnext⟩
  · intro t₁ s₁ t₂ s₂ hstate₁ hstate₂ hid
    change ((S.client.setOrder t s o).tickerSideOrder t₁ s₁).orderState ≠ .dead at hstate₁
    change ((S.client.setOrder t s o).tickerSideOrder t₂ s₂).orderState ≠ .dead at hstate₂
    change ((S.client.setOrder t s o).tickerSideOrder t₁ s₁).orderId =
      ((S.client.setOrder t s o).tickerSideOrder t₂ s₂).orderId at hid
    rw [hset] at hstate₁ hstate₂
    rw [hset, hset] at hid
    by_cases h₁ : t₁ = t ∧ s₁ = s
    · by_cases h₂ : t₂ = t ∧ s₂ = s
      · exact ⟨h₁.1.trans h₂.1.symm, h₁.2.trans h₂.2.symm⟩
      · rw [if_neg h₂] at hstate₂
        rw [if_pos h₁, if_neg h₂] at hid
        exact absurd hid.symm (hapart t₂ s₂ h₂ hstate₂)
    · rw [if_neg h₁] at hstate₁
      by_cases h₂ : t₂ = t ∧ s₂ = s
      · rw [if_neg h₁, if_pos h₂] at hid
        exact absurd hid (hapart t₁ s₁ h₁ hstate₁)
      · rw [if_neg h₂] at hstate₂
        rw [if_neg h₁, if_neg h₂] at hid
        exact h.apart t₁ s₁ t₂ s₂ hstate₁ hstate₂ hid
  · intro t' s' hs'
    show SlotInv c t' s' ((S.client.setOrder t s o).tickerSideOrder t' s') _ _ _
    rw [hset]
    by_cases heq : t' = t ∧ s' = s
    · rw [if_pos heq, heq.1, heq.2]
      exact hslot
    · rw [if_neg heq]
      apply (h.slot t' s' hs').push
      · intro ⟨htype, ht, hside⟩
        obtain ⟨ht', hside'⟩ := hnew htype
        exact heq ⟨ht.symm.trans ht', hside.symm.trans hside'⟩
      · intro hstate hcancels
        exact hapart t' s' heq hstate (hcancels.2.symm.trans (hcancel hcancels.1))

/-- The client sends a `NEW` for a dead slot. -/
theorem Inv.newOrder (h : Inv c S k) {price : Price} {qty : Qty} (hs : s = .buy ∨ s = .sell)
    (hqty : qty ≠ 0) (hdead : (S.client.tickerSideOrder t s).orderState = .dead)
    (hlt : S.client.nextOrderId.toNat < meMaxOrderIds) :
    Inv c { S with
      client := (S.client.newOrder t price s qty).1
      requests := S.requests ++ (S.client.newOrder t price s qty).2 } k := by
  have hnext : (S.client.nextOrderId + 1).toNat = S.client.nextOrderId.toNat + 1 := by
    rw [UInt64.toNat_add, Nat.mod_eq_of_lt]
    · rfl
    · unfold meMaxOrderIds at hlt
      show S.client.nextOrderId.toNat + 1 < 2 ^ 64
      omega
  have hlt' : S.client.nextOrderId < S.client.nextOrderId + 1 := by
    rw [UInt64.lt_iff_toNat_lt]
    omega
  obtain ⟨hnews, hxs, hgone⟩ := (h.slot t s hs).of_dead hdead
  refine h.send hs (UInt64.le_of_lt hlt') (by omega) ⟨rfl, rfl, hlt'⟩
    ⟨h.clientId, hlt', Or.inl ⟨rfl, hs⟩⟩ ?_ ?_ ?_ ?_
  · intro t' s' _ hstate hid
    have hlt := (h.slots t' s' hstate).2.2.2
    rw [hid] at hlt
    exact UInt64.lt_irrefl _ hlt
  · exact fun _ => ⟨rfl, rfl⟩
  · intro htype
    cases htype
  · refine .sent rfl ?_ ?_ hqty hxs hgone
    · unfold newsFor at hnews ⊢
      rw [List.filter_append, hnews, List.filter_cons_of_pos (by simp), List.filter_nil, h.clientId]
      rfl
    · intro r hr ⟨htype, hid⟩
      rcases List.mem_append.mp hr with hr | hr
      · have hlt := (h.requests r hr).2.1
        rw [hid] at hlt
        exact UInt64.lt_irrefl _ hlt
      · rw [List.mem_singleton.mp hr] at htype
        cases htype

/-- The client sends a `CANCEL` for a live slot. -/
theorem Inv.cancelOrder (h : Inv c S k) (hs : s = .buy ∨ s = .sell)
    (hlive : (S.client.tickerSideOrder t s).orderState = .live) :
    Inv c { S with
      client := (S.client.cancelOrder t s).1
      requests := S.requests ++ (S.client.cancelOrder t s).2 } k := by
  have hstate : (S.client.tickerSideOrder t s).orderState ≠ .dead := by
    rw [hlive]
    decide
  obtain ⟨-, ht, hside, hid⟩ := h.slots t s hstate
  obtain ⟨hnews, hleads⟩ := (h.slot t s hs).of_live hlive
  refine h.send hs (UInt64.le_refl _) h.ids ⟨ht, hside, hid⟩ ⟨h.clientId, hid, Or.inr rfl⟩
    ?_ ?_ ?_ ?_
  · intro t' s' hne hstate' hid'
    exact hne (h.apart t' s' t s hstate' hstate hid')
  · intro htype
    cases htype
  · exact fun _ => rfl
  · refine .cancelling rfl ?_ (Or.inr ⟨_, List.mem_append_right _ (List.mem_singleton_self _),
      ⟨rfl, rfl⟩, ht⟩) hleads
    rw [SlotInv.newsFor_append]
    · exact hnews
    · simp

/-- **Step lemma**, for one side of `moveOrders`. -/
theorem Inv.moveOrder (h : Inv c S k) {check : TickerId → Side → Qty → RiskCheckResult}
    {price : Price} {qty : Qty} {m' : OrderManager} {sent : List MEClientRequest}
    (hs : s = .buy ∨ s = .sell) (hqty : qty ≠ 0)
    (hok : S.client.moveOrder check t price s qty = (m', sent))
    (hids : ∀ r ∈ sent, r.type = .new → r.orderId.toNat < meMaxOrderIds) :
    Inv c { S with client := m', requests := S.requests ++ sent } k := by
  have hmoved := OrderManager.moved check S.client t price s qty
  rw [hok] at hmoved
  cases hmoved with
  | sentNew hdead hallowed =>
    exact h.newOrder hs hqty hdead (hids _ (List.mem_singleton_self _) rfl)
  | sentCancel hlive hprice => exact h.cancelOrder hs hlive
  | kept =>
    rw [List.append_nil]
    exact h

/-- **Step lemma**, for `moveOrders`. -/
theorem Inv.moveOrders (h : Inv c S k) {check : TickerId → Side → Qty → RiskCheckResult}
    {bidPrice askPrice : Price} {qty : Qty}
    (hP : Permitted S (.moveOrders check t bidPrice askPrice qty))
    (hok : S.step (.moveOrders check t bidPrice askPrice qty) = .ok S') : Inv c S' k := by
  obtain ⟨hqty, hids⟩ := hP
  obtain ⟨⟨m', sent⟩, hmove, hS'⟩ := bind_eq_ok.mp hok
  obtain rfl := Except.ok.inj hS'
  rw [hmove] at hids
  obtain ⟨-, m₁, bidSent, askSent, hbid, hask, rfl⟩ := OrderManager.moveOrders_eq hmove
  have hboth := (h.moveOrder (Or.inl rfl) hqty hbid fun r hr =>
    hids r (List.mem_append_left _ hr)).moveOrder (Or.inr rfl) hqty hask fun r hr =>
      hids r (List.mem_append_right _ hr)
  rwa [List.append_assoc] at hboth

/-! ## The exchange processes a request -/

/-- What the client is told of a side of a book. -/
theorem told_append (xs : List MEClientResponse) {ys : List MEClientResponse} {ticker : TickerId}
    (hys : ∀ y ∈ ys, y.tickerId = ticker) :
    told (xs ++ ys.filter fun y => y.clientId = c) t s =
      told xs t s ++ if t = ticker then ownResponses c s ys else [] := by
  unfold told ownResponses
  rw [List.filter_append, List.filter_filter]
  congr 1
  split
  · next ht =>
    apply List.filter_congr
    intro y hy
    simp [hys y hy, ht, Bool.and_comm]
  · next ht =>
    rw [List.filter_eq_nil_iff]
    intro y hy
    simp [hys y hy, Ne.symm ht]

/-- The exchange has processed a request, and `q` is left of the client's requests. -/
theorem Inv.processed (h : Inv c S k) (hr : r.Valid) {q : List MEClientRequest}
    (hq : ∀ r' ∈ q, r' ∈ S.requests) (hok : { S with requests := q }.process r = .ok S')
    (hfresh : r.type = .new → r.clientId = c → ∀ e ∈ (k r.tickerId).entries, e.info.clientId = c →
      e.info.clientOrderId ≠ r.orderId)
    (hslot : ∀ cells, (k r.tickerId).OkAll ((k r.tickerId).events cells r) →
      ∀ t s, s = .buy ∨ s = .sell → SlotInv c t s (S.client.tickerSideOrder t s) q
        (told S.responses t s ++ if t = r.tickerId then ownResponses c s
          (((k r.tickerId).events cells r).flatMap (Event.responses r.tickerId)) else [])
        (Function.update k r.tickerId ((k r.tickerId).applyAll ((k r.tickerId).events cells r)) t)) :
    ∃ k', Inv c S' k' := by
  obtain ⟨exchange, hexchange, hS'⟩ := bind_eq_ok.mp hok
  obtain rfl := Except.ok.inj hS'
  obtain ⟨-, cells, hevs, hreached, hresponses, -⟩ := h.reached.step hr hexchange
  have hwf := h.reached.wf r.tickerId
  have hsent : exchange.responses.drop S.exchange.responses.length =
      ((k r.tickerId).events cells r).flatMap (Event.responses r.tickerId) := by
    rw [hresponses, List.drop_left]
  refine ⟨_, h.clientId, hreached, ?_, h.ids, fun r' hr' => h.requests r' (hq r' hr'), ?_, h.slots,
    h.apart, ?_⟩
  · intro t
    by_cases ht : t = r.tickerId
    · subst ht
      rw [Function.update_self]
      exact Book.events_names hwf hr hevs (h.names _) hfresh
    · rw [Function.update_of_ne ht]
      exact h.names t
  · intro x hx
    rcases List.mem_append.mp hx with hx | hx
    · exact h.responses x hx
    · have hx := (List.mem_filter.mp hx).1
      change x ∈ exchange.responses.drop S.exchange.responses.length at hx
      rw [hsent] at hx
      exact (Book.events_responses hwf hr hevs hx).2
  · intro t s hs
    show SlotInv c t s (S.client.tickerSideOrder t s) q (told (S.responses ++
      (exchange.responses.drop S.exchange.responses.length).filter
        fun x => x.clientId = S.client.clientId) t s) _
    rw [hsent, h.clientId, told_append _ fun y hy => (Book.events_responses hwf hr hevs hy).1]
    exact hslot cells hevs t s hs

/-- A slot after a request that was not a new order for it. -/
theorem Inv.slot_follows (h : Inv c S k) (t : TickerId) {cells : Book.Cells}
    (hok : (k r.tickerId).OkAll ((k r.tickerId).events cells r)) (hs : s = .buy ∨ s = .sell)
    (hnew : r.type = .new → r.clientId = c → ¬ (t = r.tickerId ∧ r.side = s)) :
    SlotInv c t s (S.client.tickerSideOrder t s) S.requests
      (told S.responses t s ++ if t = r.tickerId then ownResponses c s
        (((k r.tickerId).events cells r).flatMap (Event.responses r.tickerId)) else [])
      (Function.update k r.tickerId ((k r.tickerId).applyAll ((k r.tickerId).events cells r)) t) := by
  by_cases ht : t = r.tickerId
  · subst ht
    rw [if_pos rfl, Function.update_self]
    exact (h.slot r.tickerId s hs).follows (Book.events_follows (h.reached.wf _) hok hs
      fun htype hown => hnew htype hown.1 ⟨rfl, hown.2⟩)
  · rw [if_neg ht, List.append_nil, Function.update_of_ne ht]
    exact h.slot t s hs

/-- **Step lemma**, for a request of another client. -/
theorem Inv.serveOther (h : Inv c S k) (hP : Permitted S (.serveOther r))
    (hok : S.step (.serveOther r) = .ok S') : ∃ k', Inv c S' k' := by
  have hother : r.clientId ≠ c := h.clientId ▸ hP.1
  exact h.processed hP.2 (fun _ hr' => hr') hok (fun _ hc => absurd hc hother)
    fun cells hevs t s hs => h.slot_follows t hevs hs fun _ hc => absurd hc hother

/-- The id of a new order of the client is not that of an order resting in the book. -/
theorem Inv.fresh (h : Inv c S k) {q : List MEClientRequest} (hq : S.requests = r :: q)
    (hnew : r.type = .new) (hs : r.side = .buy ∨ r.side = .sell) :
    ∀ e ∈ (k r.tickerId).entries, e.info.clientId = c → e.info.clientOrderId ≠ r.orderId := by
  intro e he hc hid
  have hslot := h.slot r.tickerId r.side hs
  rw [hq] at hslot
  obtain ⟨hstate, hrequest, -, -, -, -, hgone⟩ := hslot.of_new hnew
  have horder : (S.client.tickerSideOrder r.tickerId r.side).orderId = r.orderId :=
    congrArg MEClientRequest.orderId hrequest
  obtain ⟨hstate', hid', -⟩ := (h.slot r.tickerId e.info.side
    ((h.reached.wf _).sides e he)).order_eq he ⟨hc, rfl⟩
  obtain ⟨-, hside⟩ := h.apart r.tickerId e.info.side r.tickerId r.side hstate'
    (by rw [hstate]; decide) (hid'.symm.trans (hid.trans horder.symm))
  exact hgone e he ⟨hc, hside⟩

/-- The slot of a new order after the exchange has processed it. -/
theorem Inv.slot_accepted (h : Inv c S k) {q : List MEClientRequest} (hq : S.requests = r :: q)
    (hnew : r.type = .new) (hs : r.side = .buy ∨ r.side = .sell) (hc : r.clientId = c)
    (cells : Book.Cells) :
    SlotInv c r.tickerId r.side (S.client.tickerSideOrder r.tickerId r.side) q
      (told S.responses r.tickerId r.side ++ ownResponses c r.side
        (((k r.tickerId).events cells r).flatMap (Event.responses r.tickerId)))
      ((k r.tickerId).applyAll ((k r.tickerId).events cells r)) := by
  have hslot := h.slot r.tickerId r.side hs
  rw [hq] at hslot
  obtain ⟨hstate, hrequest, hnews, hcancel, hqty, hxs, hgone⟩ := hslot.of_new hnew
  obtain ⟨o, ho⟩ : ∃ o, o = S.client.tickerSideOrder r.tickerId r.side := ⟨_, rfl⟩
  rw [← ho] at hstate hrequest hcancel hqty ⊢
  have hid : r.orderId = o.orderId := (congrArg MEClientRequest.orderId hrequest).symm
  have hprice : r.price = o.price := (congrArg MEClientRequest.price hrequest).symm
  have hqty' : r.qty = o.qty := (congrArg MEClientRequest.qty hrequest).symm
  obtain ⟨evs, hreached⟩ := h.reached r.tickerId
  obtain ⟨x, xs, hown, htype, hleads⟩ := Book.new_leads hreached.wf hreached.positive hnew
    (hqty' ▸ hqty) (hc ▸ hgone)
  rw [hc] at hown hleads
  rw [hid, hprice, hqty'] at hleads
  refine .accepted hstate hnews hcancel ?_ htype hleads
  rw [hxs, List.nil_append, hown]

/-- The slot of an order after the exchange has processed a cancel of it. -/
theorem Inv.gone_of_cancel (h : Inv c S k) (hclients : c.toNat < meMaxNumClients)
    {cells : Book.Cells} (hok : (k t).OkAll ((k t).events cells r)) (hs : s = .buy ∨ s = .sell)
    (hr : r ∈ S.requests) (hcancels : Cancels r (S.client.tickerSideOrder t s).orderId) :
    ((k t).applyAll ((k t).events cells r)).Gone c s := by
  obtain ⟨hc, hid, -⟩ := h.requests r hr
  have hin : inTable c r.orderId = true := by
    have hlt := UInt64.lt_iff_toNat_lt.mp hid
    have hle := h.ids
    unfold inTable
    rw [Bool.and_eq_true, decide_eq_true_eq, decide_eq_true_eq]
    exact ⟨hclients, by omega⟩
  rcases (h.slot t s hs).rests_or_gone with ⟨-, qty, hrests⟩ | hgone
  · rw [← hcancels.2] at hrests
    exact Book.cancel_gone (h.reached.wf t) (h.names t) hcancels.1 hc hin hrests
  · have hfollows := @Book.events_follows (k t) c s t r cells (h.reached.wf t) hok hs fun hnew => by
      rw [hcancels.1] at hnew
      cases hnew
    exact (hfollows.gone hgone).2

/-- **Step lemma**, for the client's next request. -/
theorem Inv.serve (h : Inv c S k) (hclients : c.toNat < meMaxNumClients)
    (hok : S.step .serve = .ok S') : ∃ k', Inv c S' k' := by
  unfold step at hok
  dsimp only at hok
  split at hok
  · obtain rfl := Except.ok.inj hok
    exact ⟨k, h⟩
  · next r q hq =>
    have hmem : r ∈ S.requests := by
      rw [hq]
      exact List.mem_cons_self
    obtain ⟨hc, hid, hkind⟩ := h.requests r hmem
    have hrest : ∀ r' ∈ q, r' ∈ S.requests := by
      intro r' hr'
      rw [hq]
      exact List.mem_cons_of_mem _ hr'
    have hlt := UInt64.lt_iff_toNat_lt.mp hid
    have hle := h.ids
    rcases hkind with ⟨hnew, hside⟩ | hcancel
    · have hin : inTable r.clientId r.orderId = true := by
        unfold inTable
        rw [hc, Bool.and_eq_true, decide_eq_true_eq, decide_eq_true_eq]
        exact ⟨hclients, by omega⟩
      apply h.processed (Or.inl ⟨hnew, hside, hin⟩) hrest hok fun _ _ => h.fresh hq hnew hside
      intro cells hevs t s hs
      by_cases hslot : t = r.tickerId ∧ s = r.side
      · obtain ⟨rfl, rfl⟩ := hslot
        rw [if_pos rfl, Function.update_self]
        exact h.slot_accepted hq hnew hside hc cells
      · have hother := h.slot_follows t hevs hs fun _ _ ⟨ht, hs'⟩ => hslot ⟨ht, hs'.symm⟩
        rw [hq] at hother
        apply hother.pop
        · exact fun ⟨_, ht, hs'⟩ => hslot ⟨ht.symm, hs'.symm⟩
        · intro hcancels
          rw [hcancels.1] at hnew
          cases hnew
    · have hnot : r.type ≠ .new := by
        rw [hcancel]
        decide
      apply h.processed (Or.inr hcancel) hrest hok fun hnew => absurd hnew hnot
      intro cells hevs t s hs
      have hafter := h.slot_follows t hevs hs fun hnew => absurd hnew hnot
      rw [hq] at hafter
      apply hafter.pop
      · exact fun hnew => hnot hnew.1
      · rintro hcancels rfl -
        rw [Function.update_self]
        exact h.gone_of_cancel hclients hevs hs hmem hcancels

/-! ## The client processes a response -/

/-- A response changes the state and the quantity of the order of a slot, and no dead slot's state. -/
theorem applyResponse_keeps (x : MEClientResponse) (o : OMOrder) :
    (OrderManager.applyResponse x o).tickerId = o.tickerId ∧
      (OrderManager.applyResponse x o).side = o.side ∧
      (OrderManager.applyResponse x o).orderId = o.orderId := by
  unfold OrderManager.applyResponse
  split
  · exact ⟨rfl, rfl, rfl⟩
  · exact ⟨rfl, rfl, rfl⟩
  · dsimp only
    split <;> exact ⟨rfl, rfl, rfl⟩
  · exact ⟨rfl, rfl, rfl⟩
  · exact ⟨rfl, rfl, rfl⟩
  · exact ⟨rfl, rfl, rfl⟩

/-- A slot that awaits no response is not changed by one. -/
theorem Inv.applyResponse_of_dead (h : Inv c S k) {x : MEClientResponse}
    {xs : List MEClientResponse} (hxs : S.responses = x :: xs)
    (hdead : (S.client.tickerSideOrder x.tickerId x.side).orderState = .dead) :
    OrderManager.applyResponse x (S.client.tickerSideOrder x.tickerId x.side) =
      S.client.tickerSideOrder x.tickerId x.side := by
  rcases h.responses x (hxs ▸ List.mem_cons_self) with hs | htype
  · have htold : told S.responses x.tickerId x.side ≠ [] := by
      rw [hxs]
      unfold told
      rw [List.filter_cons_of_pos (by simp)]
      exact List.cons_ne_nil _ _
    exact absurd ((h.slot x.tickerId x.side hs).of_dead hdead).2.1 htold
  · unfold OrderManager.applyResponse
    rw [htype]

/-- **Step lemma**, for the client's next response. -/
theorem Inv.onOrderUpdate (h : Inv c S k) (hok : S.step .onOrderUpdate = .ok S') : Inv c S' k := by
  unfold step at hok
  dsimp only at hok
  split at hok
  · obtain rfl := Except.ok.inj hok
    exact h
  · next x xs hxs =>
    obtain ⟨client, hclient, hS'⟩ := bind_eq_ok.mp hok
    obtain rfl := Except.ok.inj hS'
    obtain rfl := OrderManager.onOrderUpdate_eq hclient
    obtain ⟨o', ho'⟩ : ∃ o', o' = OrderManager.applyResponse x
      (S.client.tickerSideOrder x.tickerId x.side) := ⟨_, rfl⟩
    obtain ⟨hticker, hside, hid⟩ := applyResponse_keeps x
      (S.client.tickerSideOrder x.tickerId x.side)
    rw [← ho'] at hticker hside hid ⊢
    have hset : ∀ t s, (S.client.setOrder x.tickerId x.side o').tickerSideOrder t s =
        if t = x.tickerId ∧ s = x.side then o' else S.client.tickerSideOrder t s :=
      fun t s => OrderManager.setOrder_tickerSideOrder o'
    have hids : ∀ t s, ((S.client.setOrder x.tickerId x.side o').tickerSideOrder t s).orderId =
        (S.client.tickerSideOrder t s).orderId := by
      intro t s
      rw [hset]
      split
      · next heq => rw [hid, heq.1, heq.2]
      · rfl
    have hdead : (S.client.tickerSideOrder x.tickerId x.side).orderState = .dead →
        o' = S.client.tickerSideOrder x.tickerId x.side :=
      fun hdead => ho'.trans (h.applyResponse_of_dead hxs hdead)
    have halive : ∀ t s,
        ((S.client.setOrder x.tickerId x.side o').tickerSideOrder t s).orderState ≠ .dead →
        (S.client.tickerSideOrder t s).orderState ≠ .dead := by
      intro t s hstate hwas
      apply hstate
      rw [hset]
      split
      · next heq =>
        rw [heq.1, heq.2] at hwas
        rw [hdead hwas]
        exact hwas
      · exact hwas
    refine ⟨h.clientId, h.reached, h.names, h.ids, h.requests, ?_, ?_, ?_, ?_⟩
    · intro x' hx'
      apply h.responses
      rw [hxs]
      exact List.mem_cons_of_mem _ hx'
    · intro t s hstate
      obtain ⟨hs, ht, hside', hid'⟩ := h.slots t s (halive t s hstate)
      refine ⟨hs, ?_, ?_, ?_⟩
      · show ((S.client.setOrder x.tickerId x.side o').tickerSideOrder t s).tickerId = t
        rw [hset]
        split
        · next heq => rw [hticker, ← heq.1, ← heq.2, ht]
        · exact ht
      · show ((S.client.setOrder x.tickerId x.side o').tickerSideOrder t s).side = s
        rw [hset]
        split
        · next heq => rw [hside, ← heq.1, ← heq.2, hside']
        · exact hside'
      · show ((S.client.setOrder x.tickerId x.side o').tickerSideOrder t s).orderId <
          S.client.nextOrderId
        rw [hids]
        exact hid'
    · intro t₁ s₁ t₂ s₂ hstate₁ hstate₂ hsame
      apply h.apart t₁ s₁ t₂ s₂ (halive t₁ s₁ hstate₁) (halive t₂ s₂ hstate₂)
      rw [← hids t₁ s₁, ← hids t₂ s₂]
      exact hsame
    · intro t s hs
      have hslot := h.slot t s hs
      show SlotInv c t s ((S.client.setOrder x.tickerId x.side o').tickerSideOrder t s) _ _ _
      rw [hxs] at hslot
      rw [hset]
      by_cases heq : t = x.tickerId ∧ s = x.side
      · have htold : told (x :: xs) t s = x :: told xs t s :=
          List.filter_cons_of_pos (by simp [heq.1, heq.2])
        rw [htold] at hslot
        rw [if_pos heq, ho', ← heq.1, ← heq.2]
        exact hslot.answer
      · have htold : told (x :: xs) t s = told xs t s :=
          List.filter_cons_of_neg (by
            simpa using fun ht hs' => heq ⟨ht.symm, hs'.symm⟩)
        rw [htold] at hslot
        rw [if_neg heq]
        exact hslot

/-! ## Runs -/

/-- **Step lemma.** -/
theorem Inv.step {a : Action} (h : Inv c S k) (hclients : c.toNat < meMaxNumClients)
    (hP : Permitted S a) (hok : S.step a = .ok S') : ∃ k', Inv c S' k' := by
  cases a with
  | moveOrders check t bidPrice askPrice qty => exact ⟨k, h.moveOrders hP hok⟩
  | serve => exact h.serve hclients hok
  | serveOther r => exact h.serveOther hP hok
  | onOrderUpdate => exact ⟨k, h.onOrderUpdate hok⟩

theorem Inv.resting_eq (h : Inv c S k) (t : TickerId) (s : Side) :
    S.resting t s = ((k t).entries.filter fun e =>
      e.info.clientId = c ∧ e.info.side = s).map Entry.info := by
  obtain ⟨evs, hreached⟩ := h.reached t
  unfold resting
  rw [Holds.resting_eq hreached.rep hreached.wf.toLists, List.filter_map, h.clientId]
  rfl

theorem Inv.resting_nil (h : Inv c S k) (hgone : (k t).Gone c s) : S.resting t s = [] := by
  rw [h.resting_eq, List.map_eq_nil_iff, List.filter_eq_nil_iff]
  intro e he hown
  exact hgone e he (of_decide_eq_true hown)

theorem Inv.mem_resting_iff (h : Inv c S k) {i : OrderInfo} :
    i ∈ S.resting t s ↔ ∃ e ∈ (k t).entries, e.Own c s ∧ e.info = i := by
  rw [h.resting_eq, List.mem_map]
  constructor
  · intro ⟨e, he, hi⟩
    obtain ⟨hmem, hown⟩ := List.mem_filter.mp he
    exact ⟨e, hmem, of_decide_eq_true hown, hi⟩
  · intro ⟨e, hmem, hown, hi⟩
    exact ⟨e, List.mem_filter.mpr ⟨hmem, decide_eq_true hown⟩, hi⟩

/-- Orders are on one of the two sides. -/
theorem Inv.gone_of_other (h : Inv c S k) (hs : ¬ (s = .buy ∨ s = .sell)) : (k t).Gone c s := by
  intro e he hown
  exact hs (hown.2 ▸ (h.reached.wf t).sides e he)

theorem Inv.dead_of_other (h : Inv c S k) (hs : ¬ (s = .buy ∨ s = .sell)) :
    (S.client.tickerSideOrder t s).orderState = .dead := by
  by_contra hstate
  exact hs (h.slots t s hstate).1

/-- No side of a book has two orders of the client. -/
theorem Inv.single (h : Inv c S k) (t : TickerId) (s : Side) : (S.resting t s).length ≤ 1 := by
  by_cases hs : s = .buy ∨ s = .sell
  · rw [h.resting_eq, List.length_map]
    have hnodup : (k t).entries.Nodup := List.Nodup.of_map Entry.ptr (h.reached.wf t).orderPtrs
    have hnodup := hnodup.filter fun e => decide (e.info.clientId = c ∧ e.info.side = s)
    have hmem : ∀ e ∈ (k t).entries.filter fun e => e.info.clientId = c ∧ e.info.side = s,
        e ∈ (k t).entries ∧ e.Own c s := by
      intro e he
      obtain ⟨hmem, hown⟩ := List.mem_filter.mp he
      exact ⟨hmem, of_decide_eq_true hown⟩
    cases hlist : (k t).entries.filter fun e => e.info.clientId = c ∧ e.info.side = s with
    | nil => exact Nat.zero_le 1
    | cons e₁ es =>
      cases es with
      | nil => exact Nat.le_refl 1
      | cons e₂ es =>
        rw [hlist] at hnodup hmem
        obtain ⟨he₁, hown₁⟩ := hmem e₁ (by simp)
        obtain ⟨he₂, hown₂⟩ := hmem e₂ (by simp)
        have heq := ((h.slot t s hs).order_eq he₁ hown₁).2.2 e₂ he₂ hown₂
        exact absurd (heq ▸ List.mem_cons_self) (List.nodup_cons.mp hnodup).1
  · rw [h.resting_nil (h.gone_of_other hs)]
    exact Nat.zero_le 1

/-- A dead slot awaits nothing. -/
theorem Inv.dead (h : Inv c S k) (hdead : (S.client.tickerSideOrder t s).orderState = .dead) :
    S.resting t s = [] ∧
      (∀ r ∈ S.requests, ¬ (r.type = .new ∧ r.tickerId = t ∧ r.side = s)) ∧
      ∀ x ∈ S.responses, ¬ (x.type = .accepted ∧ x.tickerId = t ∧ x.side = s) := by
  by_cases hs : s = .buy ∨ s = .sell
  · obtain ⟨hnews, hxs, hgone⟩ := (h.slot t s hs).of_dead hdead
    refine ⟨h.resting_nil hgone, ?_, ?_⟩
    · intro r hr hnew
      have hmem : r ∈ newsFor S.requests t s := List.mem_filter.mpr ⟨hr, decide_eq_true hnew⟩
      rw [hnews] at hmem
      cases hmem
    · intro x hx ⟨_, hslot⟩
      have hmem : x ∈ told S.responses t s := List.mem_filter.mpr ⟨hx, decide_eq_true hslot⟩
      rw [hxs] at hmem
      cases hmem
  · refine ⟨h.resting_nil (h.gone_of_other hs), ?_, ?_⟩
    · intro r hr ⟨hnew, _, hside⟩
      rcases (h.requests r hr).2.2 with ⟨-, hs'⟩ | hcancel
      · exact hs (hside ▸ hs')
      · rw [hnew] at hcancel
        cases hcancel
    · intro x hx ⟨htype, _, hside⟩
      rcases h.responses x hx with hs' | htype'
      · exact hs (hside ▸ hs')
      · rw [htype] at htype'
        cases htype'

/-- With nothing on its way, a slot is what its book says. -/
theorem Inv.quiet (h : Inv c S k) (hrequests : S.requests = []) (hresponses : S.responses = [])
    (t : TickerId) (s : Side) :
    ((S.client.tickerSideOrder t s).orderState = .live ∨
      (S.client.tickerSideOrder t s).orderState = .dead) ∧
    ((S.client.tickerSideOrder t s).orderState = .live ↔
      ∃ i ∈ S.resting t s, i.clientOrderId = (S.client.tickerSideOrder t s).orderId ∧
        i.side = (S.client.tickerSideOrder t s).side ∧
        i.price = (S.client.tickerSideOrder t s).price ∧
        i.qty = (S.client.tickerSideOrder t s).qty) := by
  have hdead : (S.client.tickerSideOrder t s).orderState = .dead → S.resting t s = [] →
      ((S.client.tickerSideOrder t s).orderState = .live ∨
        (S.client.tickerSideOrder t s).orderState = .dead) ∧
      ((S.client.tickerSideOrder t s).orderState = .live ↔
        ∃ i ∈ S.resting t s, i.clientOrderId = (S.client.tickerSideOrder t s).orderId ∧
          i.side = (S.client.tickerSideOrder t s).side ∧
          i.price = (S.client.tickerSideOrder t s).price ∧
          i.qty = (S.client.tickerSideOrder t s).qty) := by
    intro hstate hnone
    rw [hstate, hnone]
    refine ⟨Or.inr rfl, ?_⟩
    simp
  by_cases hs : s = .buy ∨ s = .sell
  · have hslot := h.slot t s hs
    rw [hrequests, hresponses] at hslot
    cases hslot with
    | dead hstate _ _ hgone => exact hdead hstate (h.resting_nil hgone)
    | sent _ hnews => cases hnews
    | accepted _ _ _ hxs => cases hxs
    | live hstate _ _ hleads =>
      refine ⟨Or.inl hstate, fun _ => ?_, fun _ => hstate⟩
      obtain ⟨-, -, hside, -⟩ := h.slots t s (by rw [hstate]; decide)
      cases hleads with
      | nil hrests =>
        obtain ⟨e, he, hown, hid, hprice, hqty, -⟩ := hrests
        exact ⟨e.info, h.mem_resting_iff.mpr ⟨e, he, hown, rfl⟩, hid, hown.2.trans hside.symm, hprice,
          hqty⟩
    | cancelling _ _ hcancel hleads =>
      cases hleads with
      | nil hrests =>
        obtain ⟨e, he, hown, -⟩ := hrests
        rcases hcancel with hgone | ⟨r, hr, -⟩
        · exact absurd hown (hgone e he)
        · cases hr
  · exact hdead (h.dead_of_other hs) (h.resting_nil (h.gone_of_other hs))

/-- **The client and the exchange agree in every state a session reaches.** -/
theorem run_inAgreement {actions : List Action} (hclients : c.toNat < meMaxNumClients)
    (hsteps : AllSteps Session.step (init c) (fun _ => Permitted) actions)
    (hrun : actions.foldlM Session.step (init c) = .ok S) : S.InAgreement := by
  obtain ⟨k, h⟩ : ∃ k, Inv c S k := by
    apply run_induction (motive := fun _ S => ∃ k, Inv c S k) ⟨_, inv_init c⟩ _ hsteps hrun
    intro as a S S' _ hP ⟨k, h⟩ hok
    exact h.step hclients hP hok
  exact ⟨h.single, fun t s hdead => h.dead hdead, h.quiet⟩

/-- Another client buys what is offered at 105. -/
def otherBuy : MEClientRequest where
  type := .new
  clientId := 2
  tickerId := 0
  orderId := 1
  side := .buy
  price := 105
  qty := 5

/-- The client quotes both sides and moves its quotes once they are live; its offer is taken before the
cancel of it comes in. -/
def overtaken : List Action := [
  .moveOrders (fun _ _ _ => .allowed) 0 100 105 5, .serve, .serve, .onOrderUpdate, .onOrderUpdate,
  .moveOrders (fun _ _ _ => .allowed) 0 101 106 5, .serveOther otherBuy, .serve, .serve,
  .onOrderUpdate, .onOrderUpdate, .onOrderUpdate]

theorem run_inAgreement_overtaken :
    ∃ S, overtaken.foldlM Session.step (init 1) = .ok S ∧ S.InAgreement := by
  have hsteps : AllSteps Session.step (init 1) (fun _ => Permitted) overtaken :=
    AllSteps.of_check (by decide +kernel)
  obtain ⟨S, hS⟩ : ∃ S, overtaken.foldlM Session.step (init 1) = .ok S :=
    exists_ok (by decide +kernel)
  exact ⟨S, hS, run_inAgreement (by decide) hsteps hS⟩

end Session

end TradingSystem
