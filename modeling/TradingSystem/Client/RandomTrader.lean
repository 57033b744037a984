import TradingSystem.Lib.Run
import TradingSystem.Exchange.BookInvariant

/-!
# `RandomTrader`

`client/random_trader.hpp`: the strategy that sends a `NEW` and a `CANCEL` in turn. What `rand()` returns
and what the clock shows are inputs, of which nothing is assumed.

Each trader has ids of its own kind, and a request of any trader is one that the exchange accepts, at one
of the prices from 101 to 209 (`RandomTrader.Fair`). A `NEW` and a `CANCEL` come in turn, with a pause after
each, and no trader sends more than 10000 orders (`RandomTrader.run_regular`).
-/

namespace TradingSystem

structure RandomTrader where
  clientId : ClientId
  nextOrderId : OrderId
  orderCount : Nat
  nextActionTime : Nanos
  cancelNext : Bool
  /-- the `NEW`s sent, oldest first -/
  requests : List MEClientRequest
  tickerBasePrice : TickerId → Price

namespace RandomTrader

/-- The constructor. -/
def init (clientId : ClientId) (now : Nanos) (rand : TickerId → Nat) : RandomTrader where
  clientId := clientId
  nextOrderId := (clientId * 1000).toUInt64
  orderCount := 0
  nextActionTime := now + 10 * nanosToSecs
  cancelNext := false
  requests := []
  tickerBasePrice := fun ticker => UInt64.ofNat (rand ticker % 100 + 100)

/-- What a call of `onTimer` reads from the clock, and what its calls of `rand()` return. -/
structure Draw where
  now : Nanos
  later : Nanos
  ticker : Nat
  price : Nat
  qty : Nat
  side : Nat
  cancelIndex : Nat

def newRequest (t : RandomTrader) (d : Draw) : MEClientRequest :=
  let tickerId := UInt32.ofNat (d.ticker % meMaxTickers)
  { type := .new
    clientId := t.clientId
    tickerId := tickerId
    orderId := t.nextOrderId
    side := if d.side % 2 ≠ 0 then .buy else .sell
    price := t.tickerBasePrice tickerId + UInt64.ofNat (d.price % 10) + 1
    qty := UInt32.ofNat (1 + d.qty % 100 + 1) }

/-- `onTimer`, and what it sends. -/
def onTimer (t : RandomTrader) (d : Draw) : Except Fault (RandomTrader × List MEClientRequest) :=
  if t.orderCount ≥ 10000 ∨ d.now < t.nextActionTime then .ok (t, [])
  else
    let nextActionTime := d.later + 20 * 1000 * 1000
    if !t.cancelNext then
      let request := t.newRequest d
      .ok ({ t with
        nextOrderId := t.nextOrderId + 1
        orderCount := t.orderCount + 1
        nextActionTime := nextActionTime
        cancelNext := true
        requests := t.requests ++ [request] }, [request])
    else
      -- an empty `requests_` would be a division by zero
      match t.requests[d.cancelIndex % t.requests.length]? with
      | none => .error .outOfBounds
      | some request =>
        .ok ({ t with nextActionTime := nextActionTime, cancelNext := false },
          [{ request with type := .cancel }])

/-! ## What a trader sends -/

/-- What all requests of the trader of a client have in common. -/
structure Fair (c : ClientId) (r : MEClientRequest) : Prop where
  clientId : r.clientId = c
  ticker : r.tickerId.toNat < meMaxTickers
  side : r.side = .buy ∨ r.side = .sell
  orderId : c.toNat * 1000 ≤ r.orderId.toNat ∧ r.orderId.toNat < c.toNat * 1000 + 10000
  price : 101 ≤ r.price.toNat ∧ r.price.toNat ≤ 209
  qty : 2 ≤ r.qty.toNat ∧ r.qty.toNat ≤ 101

variable {c : ClientId} {r : MEClientRequest} {t t' : RandomTrader} {d : Draw}
  {sent : List MEClientRequest}

/-- The exchange accepts it. -/
theorem Fair.valid (h : Fair c r) (hc : c.toNat < meMaxNumClients) (htype : r.type = .new ∨ r.type = .cancel) :
    r.Valid := by
  rcases htype with hnew | hcancel
  · refine Or.inl ⟨hnew, h.side, ?_⟩
    have hid := h.orderId
    unfold meMaxNumClients at hc
    unfold MEOrderBook.inTable meMaxNumClients meMaxOrderIds
    rw [h.clientId, Bool.and_eq_true, decide_eq_true_eq, decide_eq_true_eq]
    omega
  · exact Or.inr hcancel

/-- What holds between calls. -/
structure Sane (t : RandomTrader) : Prop where
  clientId : t.clientId.toNat < meMaxNumClients
  count : t.requests.length = t.orderCount
  countLe : t.orderCount ≤ 10000
  nextId : t.nextOrderId.toNat = t.clientId.toNat * 1000 + t.orderCount
  cancel : t.cancelNext = true → t.requests ≠ []
  base : ∀ ticker, 100 ≤ (t.tickerBasePrice ticker).toNat ∧ (t.tickerBasePrice ticker).toNat < 200
  requests : ∀ r ∈ t.requests, r.type = .new ∧ Fair t.clientId r

theorem sane_init (hc : c.toNat < meMaxNumClients) (now : Nanos) (rand : TickerId → Nat) :
    (init c now rand).Sane where
  clientId := hc
  count := rfl
  countLe := Nat.zero_le _
  nextId := by
    unfold meMaxNumClients at hc
    show (c * 1000).toUInt64.toNat = c.toNat * 1000 + 0
    rw [UInt32.toNat_toUInt64, UInt32.toNat_mul]
    show c.toNat * 1000 % 2 ^ 32 = _
    omega
  cancel := nofun
  base := by
    intro ticker
    show 100 ≤ (UInt64.ofNat (rand ticker % 100 + 100)).toNat ∧
      (UInt64.ofNat (rand ticker % 100 + 100)).toNat < 200
    rw [UInt64.toNat_ofNat']
    omega
  requests := nofun

theorem Sane.newRequest_fair (h : t.Sane) (hcount : t.orderCount < 10000) (d : Draw) :
    Fair t.clientId (t.newRequest d) where
  clientId := rfl
  ticker := by
    show (UInt32.ofNat (d.ticker % meMaxTickers)).toNat < meMaxTickers
    unfold meMaxTickers
    rw [UInt32.toNat_ofNat']
    omega
  side := by
    unfold newRequest
    dsimp only
    split
    · exact Or.inl rfl
    · exact Or.inr rfl
  orderId := by
    show _ ≤ t.nextOrderId.toNat ∧ t.nextOrderId.toNat < _
    rw [h.nextId]
    omega
  price := by
    obtain ⟨ticker, hticker⟩ : ∃ ticker, ticker = UInt32.ofNat (d.ticker % meMaxTickers) := ⟨_, rfl⟩
    have hprice : (t.newRequest d).price =
        t.tickerBasePrice ticker + UInt64.ofNat (d.price % 10) + 1 := by
      rw [hticker]
      rfl
    obtain ⟨hlow, hhigh⟩ := h.base ticker
    rw [hprice, UInt64.toNat_add, UInt64.toNat_add, UInt64.toNat_ofNat', UInt64.toNat_one]
    omega
  qty := by
    show 2 ≤ (UInt32.ofNat (1 + d.qty % 100 + 1)).toNat ∧
      (UInt32.ofNat (1 + d.qty % 100 + 1)).toNat ≤ 101
    rw [UInt32.toNat_ofNat']
    omega

/-- What `onTimer` can do: nothing, send a `NEW`, or send a `CANCEL` of an order that was sent. -/
inductive Timed (t : RandomTrader) (d : Draw) : RandomTrader × List MEClientRequest → Prop
  | nothing : Timed t d (t, [])
  | sentNew (hcount : t.orderCount < 10000) (hpause : t.nextActionTime ≤ d.now) (hturn : t.cancelNext = false) :
      Timed t d ({ t with
        nextOrderId := t.nextOrderId + 1
        orderCount := t.orderCount + 1
        nextActionTime := d.later + 20 * 1000 * 1000
        cancelNext := true
        requests := t.requests ++ [t.newRequest d] }, [t.newRequest d])
  | sentCancel {request : MEClientRequest} (hmem : request ∈ t.requests) (hpause : t.nextActionTime ≤ d.now)
      (hturn : t.cancelNext = true) :
      Timed t d ({ t with nextActionTime := d.later + 20 * 1000 * 1000, cancelNext := false },
        [{ request with type := .cancel }])

/-- A call of `onTimer` goes through. -/
theorem Sane.timed (h : t.Sane) (d : Draw) : ∃ result, t.onTimer d = .ok result ∧ Timed t d result := by
  unfold RandomTrader.onTimer
  split
  · exact ⟨_, rfl, .nothing⟩
  · next hgo =>
    rw [not_or, Nat.not_le, Int64.not_lt] at hgo
    obtain ⟨hcount, hpause⟩ := hgo
    dsimp only
    split
    · next hturn => exact ⟨_, rfl, .sentNew hcount hpause (by simpa using hturn)⟩
    · next hturn =>
      have hcancel : t.cancelNext = true := by simpa using hturn
      have hlt : d.cancelIndex % t.requests.length < t.requests.length :=
        Nat.mod_lt _ (List.length_pos_iff.mpr (h.cancel hcancel))
      obtain ⟨request, hrequest⟩ : ∃ request,
          t.requests[d.cancelIndex % t.requests.length]? = some request :=
        ⟨_, List.getElem?_eq_getElem hlt⟩
      rw [hrequest]
      exact ⟨_, rfl, .sentCancel (List.mem_of_getElem? hrequest) hpause hcancel⟩

/-- **Step lemma.** A call keeps the ids and the count, and what it sends the exchange accepts. -/
theorem Sane.of_timed (h : t.Sane) (htimed : Timed t d (t', sent)) :
    t'.Sane ∧ t'.clientId = t.clientId ∧ t'.orderCount = t.orderCount + (newRequests sent).length ∧
      ∀ r ∈ sent, (r.type = .new ∨ r.type = .cancel) ∧ Fair t.clientId r := by
  cases htimed with
  | nothing => exact ⟨h, rfl, rfl, nofun⟩
  | sentNew hcount =>
    have hfair := h.newRequest_fair hcount d
    have htype : (t.newRequest d).type = .new := rfl
    generalize t.newRequest d = request at hfair htype
    have hone : (newRequests [request]).length = 1 := by simp [newRequests, htype]
    refine ⟨⟨h.clientId, ?_, hcount, ?_, ?_, h.base, ?_⟩, rfl, ?_, ?_⟩
    · show (t.requests ++ [request]).length = t.orderCount + 1
      rw [List.length_append, h.count]
      rfl
    · show (t.nextOrderId + 1).toNat = t.clientId.toNat * 1000 + (t.orderCount + 1)
      have hid := h.nextId
      have hclient := h.clientId
      unfold meMaxNumClients at hclient
      rw [UInt64.toNat_add, UInt64.toNat_one]
      omega
    · exact fun _ => List.concat_ne_nil _ _
    · intro r hr
      rcases List.mem_append.mp hr with hr | hr
      · exact h.requests r hr
      · rw [List.mem_singleton.mp hr]
        exact ⟨htype, hfair⟩
    · rw [hone]
    · intro r hr
      rw [List.mem_singleton.mp hr]
      exact ⟨Or.inl htype, hfair⟩
  | sentCancel hmem =>
    obtain ⟨-, hfair⟩ := h.requests _ hmem
    refine ⟨⟨h.clientId, h.count, h.countLe, h.nextId, nofun, h.base, h.requests⟩, rfl, rfl, ?_⟩
    intro r hr
    rw [List.mem_singleton.mp hr]
    exact ⟨Or.inr rfl, ⟨hfair.clientId, hfair.ticker, hfair.side, hfair.orderId, hfair.price, hfair.qty⟩⟩

/-! ## Runs -/

/-- A request, and the call it was sent in. -/
structure Sending where
  draw : Draw
  request : MEClientRequest

/-- A trader, and what it has sent, oldest first. -/
structure Logged where
  trader : RandomTrader
  log : List Sending

/-- A call of `onTimer`. -/
def Logged.call (l : Logged) (d : Draw) : Except Fault Logged := do
  let (trader, sent) ← l.trader.onTimer d
  return { trader := trader, log := l.log ++ sent.map (Sending.mk d) }

/-- The `NEW`s of a log. -/
def news (log : List Sending) : List MEClientRequest := newRequests (log.map Sending.request)

/-- Nothing is sent in the 20 milliseconds after a call that sent something. -/
def Paced (x y : Sending) : Prop := x.draw.later + 20 * 1000 * 1000 ≤ y.draw.now

/-- What a trader sends: a `NEW` and a `CANCEL` in turn, each `CANCEL` of an order that was sent before, the
orders numbered from 1000 times the client id on, and no more than 10000 of them. -/
structure Regular (c : ClientId) (log : List Sending) : Prop where
  turns : ∀ i x, log[i]? = some x → x.request.type = if i % 2 = 0 then .new else .cancel
  cancels : ∀ i x, log[i]? = some x → x.request.type = .cancel →
    ∃ y ∈ log.take i, y.request.type = .new ∧ x.request = { y.request with type := .cancel }
  ids : (news log).map (fun r => r.orderId.toNat) = List.range' (c.toNat * 1000) (news log).length
  few : (news log).length ≤ 10000
  paced : log.IsChain Paced

theorem regular_nil (c : ClientId) : Regular c [] :=
  ⟨by simp, by simp, rfl, by simp [news, newRequests], List.IsChain.nil⟩

theorem news_concat (log : List Sending) (x : Sending) :
    news (log ++ [x]) = news log ++ newRequests [x.request] := by
  unfold news
  rw [List.map_append, newRequests_append]
  rfl

/-- One more request, after the pause. -/
theorem Regular.concat {log : List Sending} {x : Sending} (h : Regular c log)
    (htype : x.request.type = if log.length % 2 = 0 then .new else .cancel)
    (hcancel : x.request.type = .cancel →
      ∃ y ∈ log, y.request.type = .new ∧ x.request = { y.request with type := .cancel })
    (hnew : x.request.type = .new →
      x.request.orderId.toNat = c.toNat * 1000 + (news log).length ∧ (news log).length < 10000)
    (hpaced : ∀ y ∈ log.getLast?, Paced y x) : Regular c (log ++ [x]) := by
  have hnews : newRequests [x.request] = if log.length % 2 = 0 then [x.request] else [] := by
    unfold newRequests
    rw [List.filter_singleton, htype]
    split <;> rfl
  refine ⟨?_, ?_, ?_, ?_, ?_⟩
  · intro i y hy
    rcases Nat.lt_or_ge i log.length with hi | hi
    · rw [List.getElem?_append_left hi] at hy
      exact h.turns i y hy
    · rw [List.getElem?_append_right hi, List.getElem?_singleton] at hy
      split at hy
      · next hzero =>
        obtain rfl := Option.some.inj hy
        obtain rfl : i = log.length := by omega
        exact htype
      · cases hy
  · intro i y hy htypey
    rcases Nat.lt_or_ge i log.length with hi | hi
    · rw [List.getElem?_append_left hi] at hy
      rw [List.take_append_of_le_length (Nat.le_of_lt hi)]
      exact h.cancels i y hy htypey
    · rw [List.getElem?_append_right hi, List.getElem?_singleton] at hy
      split at hy
      · next hzero =>
        obtain rfl := Option.some.inj hy
        obtain rfl : i = log.length := by omega
        rw [List.take_left]
        exact hcancel htypey
      · cases hy
  · rw [news_concat, hnews]
    split
    · next heven =>
      obtain ⟨hid, -⟩ := hnew (by rw [htype, if_pos heven])
      rw [List.map_append, h.ids, List.length_append, List.length_singleton, List.range'_1_concat,
        List.map_singleton, hid]
    · rw [List.append_nil]
      exact h.ids
  · rw [news_concat, hnews]
    split
    · next heven =>
      obtain ⟨-, hfew⟩ := hnew (by rw [htype, if_pos heven])
      rw [List.length_append, List.length_singleton]
      omega
    · rw [List.append_nil]
      exact h.few
  · refine List.isChain_append.mpr ⟨h.paced, List.IsChain.singleton x, ?_⟩
    intro y hy z hz
    obtain rfl := Option.some.inj hz
    exact hpaced y hy

/-- What holds of a trader and its log. -/
structure Logged.Inv (c : ClientId) (l : Logged) : Prop where
  sane : l.trader.Sane
  clientId : l.trader.clientId = c
  regular : Regular c l.log
  requests : news l.log = l.trader.requests
  turn : l.trader.cancelNext = decide (l.log.length % 2 = 1)
  pause : ∀ x ∈ l.log.getLast?, l.trader.nextActionTime = x.draw.later + 20 * 1000 * 1000

theorem Logged.inv_init (hc : c.toNat < meMaxNumClients) (now : Nanos) (rand : TickerId → Nat) :
    Logged.Inv c ⟨.init c now rand, []⟩ where
  sane := sane_init hc now rand
  clientId := rfl
  regular := regular_nil c
  requests := rfl
  turn := rfl
  pause := by simp

/-- **Step lemma.** -/
theorem Logged.Inv.call {l : Logged} (h : l.Inv c) (d : Draw) : ∃ l', l.call d = .ok l' ∧ l'.Inv c := by
  obtain ⟨⟨t', sent⟩, hok, htimed⟩ := h.sane.timed d
  obtain ⟨hsane, hclient, -, -⟩ := h.sane.of_timed htimed
  have hcall : l.call d = .ok { trader := t', log := l.log ++ sent.map (Sending.mk d) } := by
    unfold Logged.call
    rw [hok]
    rfl
  suffices hlog : Regular c (l.log ++ sent.map (Sending.mk d)) ∧
      news (l.log ++ sent.map (Sending.mk d)) = t'.requests ∧
      t'.cancelNext = decide ((l.log ++ sent.map (Sending.mk d)).length % 2 = 1) ∧
      ∀ x ∈ (l.log ++ sent.map (Sending.mk d)).getLast?,
        t'.nextActionTime = x.draw.later + 20 * 1000 * 1000 from
    ⟨_, hcall, hsane, hclient.trans h.clientId, hlog.1, hlog.2.1, hlog.2.2.1, hlog.2.2.2⟩
  -- the pause after the last request is over
  have hpaced : l.trader.nextActionTime ≤ d.now → ∀ r, ∀ y ∈ l.log.getLast?, Paced y ⟨d, r⟩ := by
    intro hpause r y hy
    unfold Paced
    rw [← h.pause y hy]
    exact hpause
  have hturn := h.turn
  cases htimed with
  | nothing =>
    rw [List.map_nil, List.append_nil]
    exact ⟨h.regular, h.requests, h.turn, h.pause⟩
  | sentNew hcount hpause hfalse =>
    have heven : l.log.length % 2 = 0 := by
      rw [hfalse] at hturn
      have hne := of_decide_eq_false hturn.symm
      omega
    have htype : (l.trader.newRequest d).type = .new := rfl
    have hid : (l.trader.newRequest d).orderId.toNat = c.toNat * 1000 + l.trader.orderCount := by
      rw [← h.clientId]
      exact h.sane.nextId
    have hlength : (news l.log).length = l.trader.orderCount := by rw [h.requests, h.sane.count]
    generalize l.trader.newRequest d = request at htype hid
    rw [List.map_singleton]
    refine ⟨h.regular.concat ?_ ?_ ?_ (hpaced hpause request), ?_, ?_, ?_⟩
    · rw [if_pos heven]
      exact htype
    · intro hcancel
      rw [htype] at hcancel
      cases hcancel
    · intro _
      rw [hlength]
      exact ⟨hid, hcount⟩
    · rw [news_concat, h.requests]
      simp [newRequests, htype]
    · rw [List.length_append, List.length_singleton]
      exact (decide_eq_true (by omega)).symm
    · intro x hx
      rw [List.getLast?_concat] at hx
      obtain rfl := Option.some.inj hx
      rfl
  | @sentCancel request hmem hpause htrue =>
    have hodd : l.log.length % 2 = 1 := by
      rw [htrue] at hturn
      exact of_decide_eq_true hturn.symm
    rw [List.map_singleton]
    refine ⟨h.regular.concat ?_ ?_ nofun (hpaced hpause _), ?_, ?_, ?_⟩
    · rw [if_neg (by omega)]
    · intro _
      rw [← h.requests] at hmem
      obtain ⟨hmem, hnew⟩ := List.mem_filter.mp hmem
      obtain ⟨y, hy, rfl⟩ := List.mem_map.mp hmem
      exact ⟨y, hy, of_decide_eq_true hnew, rfl⟩
    · rw [news_concat, h.requests]
      exact List.append_nil _
    · rw [List.length_append, List.length_singleton]
      exact (decide_eq_false (by omega)).symm
    · intro x hx
      rw [List.getLast?_concat] at hx
      obtain rfl := Option.some.inj hx
      rfl

/-- **What a random trader sends**, over any number of calls with any draws: a `NEW` and a `CANCEL` in turn,
never in the 20 milliseconds after the last one, each `CANCEL` of an order of its own, with new ids in a row
and no more than 10000 of them. No call fails. -/
theorem run_regular (hc : c.toNat < meMaxNumClients) (now : Nanos) (rand : TickerId → Nat)
    (draws : List Draw) :
    ∃ l, draws.foldlM Logged.call ⟨.init c now rand, []⟩ = .ok l ∧ Regular c l.log := by
  obtain ⟨l, hrun, hinv⟩ : ∃ l, draws.foldlM Logged.call ⟨.init c now rand, []⟩ = .ok l ∧ l.Inv c := by
    induction draws using List.reverseRecOn with
    | nil => exact ⟨_, rfl, Logged.inv_init hc now rand⟩
    | append_singleton draws d ih =>
      obtain ⟨l, hrun, hinv⟩ := ih
      obtain ⟨l', hcall, hinv'⟩ := hinv.call d
      exact ⟨l', foldlM_concat_eq_ok.mpr ⟨l, hrun, hcall⟩, hinv'⟩
  exact ⟨l, hrun, hinv.regular⟩

/-- Client 1 is called at eleven seconds, too early after this, and once more. -/
theorem run_regular_three_calls :
    ∃ l, [⟨11000000000, 11000000000, 0, 0, 0, 0, 0⟩, ⟨11000000005, 11000000005, 0, 0, 0, 0, 0⟩,
        ⟨12000000000, 12000000000, 0, 0, 0, 0, 0⟩].foldlM Logged.call ⟨.init 1 0 fun _ => 0, []⟩ = .ok l ∧
      l.log.length = 2 ∧ Regular 1 l.log := by
  obtain ⟨l, hrun, hregular⟩ := run_regular (c := 1) (by decide) 0 (fun _ => 0)
    [⟨11000000000, 11000000000, 0, 0, 0, 0, 0⟩, ⟨11000000005, 11000000005, 0, 0, 0, 0, 0⟩,
      ⟨12000000000, 12000000000, 0, 0, 0, 0, 0⟩]
  refine ⟨l, hrun, ?_, hregular⟩
  obtain rfl := Except.ok.inj hrun
  decide +kernel

end RandomTrader

end TradingSystem
