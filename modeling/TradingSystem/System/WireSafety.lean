import TradingSystem.Exchange.MatchingEngine
import TradingSystem.Exchange.OrderServer

/-!
# What a request from the wire can do to the exchange

The order server and the matching engine as one machine: the server reads requests from its sockets and
publishes them in rounds, and the engine takes them from the queue, in any interleaving. The tables on
this way are indexed by fields of the requests, which are not checked by the server, by
`processClientRequest` or by `add`. Only `cancel` checks them.

So an id that is out of range is harmless in a `CANCEL` and nowhere else: `run_withstands_iff` says of
every run that it withstands its requests exactly if the ids that index a table fit it.
-/

namespace TradingSystem

open MEOrderBook (inTable)

structure Exchange (σ : Type) where
  server : OrderServer σ
  engine : MatchingEngine
  /-- how many requests the engine has taken from its queue -/
  processed : Nat

namespace Exchange

/-- What one of the two components does next. -/
inductive Turn (σ : Type) where
  /-- one pass of the loop in `OrderServer::recvCallbacks` -/
  | read (socket : σ) (rxTime : Nanos) (request : OGClientRequest)
  /-- `OrderServer::recvFinishedCallbacks` -/
  | publish
  /-- one pass of the loop in `MatchingEngine::run` -/
  | process

variable {σ : Type} [DecidableEq σ]

def init : Exchange σ where
  server := OrderServer.init
  engine := MatchingEngine.init
  processed := 0

/-- The request that the engine takes next. -/
def next (x : Exchange σ) : Option MEClientRequest :=
  x.server.fifoSequencer.incomingRequest[x.processed]?

def step (sort : List RecvTimeClientRequest → List RecvTimeClientRequest) (x : Exchange σ) :
    Turn σ → Except Fault (Exchange σ)
  | .read socket rxTime request => do
    let server ← x.server.readRequest socket rxTime request
    return { x with server := server }
  | .publish => .ok { x with server := x.server.recvFinishedCallbacks sort }
  | .process =>
    match x.next with
    | none => .ok x
    | some r => do
      let engine ← x.engine.processClientRequest r
      return { x with engine := engine, processed := x.processed + 1 }

/-- A request is a `NEW` or `CANCEL` of a proper side; every other field is arbitrary. -/
def WellFramed (r : MEClientRequest) : Prop :=
  (r.type = .new ∨ r.type = .cancel) ∧ (r.side = .buy ∨ r.side = .sell)

def Turn.WellFramed : Turn σ → Prop
  | .read _ _ request => Exchange.WellFramed request.meClientRequest
  | _ => True

/-- **The condition**: a client id that is read, the ticker id of a request that is processed and the
order id of a `NEW` that is processed fit the tables that they index. -/
def InRange (x : Exchange σ) : Turn σ → Prop
  | .read _ _ request => request.meClientRequest.clientId.toNat < meMaxNumClients
  | .publish => True
  | .process => ∀ r ∈ x.next, r.tickerId.toNat < meMaxTickers ∧
      (r.type = .new → r.orderId.toNat < meMaxOrderIds)

/-- An array was accessed past its end, or `.at()` threw. -/
def IndexFault (f : Fault) : Prop := f = .outOfBounds ∨ f = .outOfRange

/-- The fields of a request fit the tables of the engine. -/
def Fits (r : MEClientRequest) : Prop :=
  r.tickerId.toNat < meMaxTickers ∧ inTable r.clientId r.orderId = true

/-- From `m` to `m'` the request is refused: its client is told so, and no book changes. -/
structure Refused (m m' : MatchingEngine) (r : MEClientRequest) : Prop where
  response : ∃ response, m'.responses = m.responses ++ [response] ∧
    response.type = .cancelRejected ∧ response.clientId = r.clientId ∧
    response.clientOrderId = r.orderId
  marketUpdates : m'.marketUpdates = m.marketUpdates
  books : ∀ t, m'.tickerOrderBook t =
    { m.tickerOrderBook t with responses := (m'.tickerOrderBook t).responses }

/-- No index is out of range on the turn, and a request that does not fit is refused. -/
structure Withstands (sort : List RecvTimeClientRequest → List RecvTimeClientRequest)
    (x : Exchange σ) (turn : Turn σ) : Prop where
  noIndexFault : ∀ f, x.step sort turn = .error f → ¬ IndexFault f
  refused : turn = .process → ∀ r ∈ x.next, ¬ Fits r →
    ∃ m', x.engine.processClientRequest r = .ok m' ∧ Refused x.engine m' r

/-! ## The engine -/

variable {m m' : MatchingEngine} {k : TickerId → Book} {r : MEClientRequest}

theorem process_outOfBounds (h : ¬ r.tickerId.toNat < meMaxTickers) :
    m.processClientRequest r = .error .outOfBounds := if_neg h

/-- What the engine does with a request for a ticker that it has. -/
theorem process_eq (hticker : r.tickerId.toNat < meMaxTickers) :
    m.processClientRequest r =
      (m.tickerOrderBook r.tickerId).processClientRequest r >>= fun b =>
        .ok {
          tickerOrderBook := Function.update m.tickerOrderBook r.tickerId b
          responses :=
            m.responses ++ b.responses.drop (m.tickerOrderBook r.tickerId).responses.length
          marketUpdates :=
            m.marketUpdates ++ b.updates.drop (m.tickerOrderBook r.tickerId).updates.length } :=
  if_pos hticker

/-- A request that fits is processed, unless it exhausts a pool. -/
theorem process_fits (hm : m.Reached k) (hwf : WellFramed r) (hfits : Fits r) {f : Fault}
    (herr : m.processClientRequest r = .error f) : f = .poolExhausted := by
  have hvalid : r.Valid := by
    rcases hwf.1 with hnew | hcancel
    · exact Or.inl ⟨hnew, hwf.2, hfits.2⟩
    · exact Or.inr hcancel
  obtain ⟨evs, hreached⟩ := hm r.tickerId
  rw [process_eq hfits.1] at herr
  rcases hreached.step hvalid with ⟨hpool, -⟩ | ⟨cells, b', hok, -, -⟩
  · rw [hpool] at herr
    exact (Except.error.inj herr).symm
  · rw [hok] at herr
    cases herr

/-- A `CANCEL` under ids that are not in the table is refused. -/
theorem process_cancel_refused (hcancel : r.type = .cancel) (hticker : r.tickerId.toNat < meMaxTickers)
    (hout : inTable r.clientId r.orderId = false) :
    ∃ m', m.processClientRequest r = .ok m' ∧ Refused m m' r := by
  obtain ⟨b, hb⟩ : ∃ b, b = m.tickerOrderBook r.tickerId := ⟨_, rfl⟩
  obtain ⟨rejection, hrejection⟩ : ∃ rejection : MEClientResponse, rejection = {
      type := .cancelRejected, clientId := r.clientId, tickerId := b.ticker,
      clientOrderId := r.orderId, marketOrderId := orderIdInvalid, side := .invalid,
      price := priceInvalid, execQty := qtyInvalid, leftQty := qtyInvalid } := ⟨_, rfl⟩
  have hbook : b.processClientRequest r = .ok (b.sendClientResponse rejection) := by
    unfold MEOrderBook.processClientRequest MEOrderBook.cancel
    rw [hcancel, hout, hrejection]
    rfl
  rw [process_eq hticker, ← hb, hbook]
  refine ⟨_, rfl, ⟨⟨rejection, ?_, ?_, ?_, ?_⟩, ?_, ?_⟩⟩
  · exact congrArg (m.responses ++ ·) List.drop_left
  · rw [hrejection]
  · rw [hrejection]
  · rw [hrejection]
  · show m.marketUpdates ++ b.updates.drop b.updates.length = _
    rw [List.drop_length, List.append_nil]
  · intro t
    by_cases ht : t = r.tickerId
    · subst ht
      simp only [Function.update_self, ← hb]
      rfl
    · simp only [Function.update_of_ne ht]

/-- A `NEW` under such ids never is: before anything is checked, it is accepted. -/
theorem process_new_not_refused (hm : m.Reached k) (hnew : r.type = .new)
    (hside : r.side = .buy ∨ r.side = .sell) (hticker : r.tickerId.toNat < meMaxTickers)
    (hout : inTable r.clientId r.orderId = false) (hok : m.processClientRequest r = .ok m') :
    ¬ Refused m m' r := by
  obtain ⟨evs, hreached⟩ := hm r.tickerId
  obtain ⟨b, hb⟩ : ∃ b, b = m.tickerOrderBook r.tickerId := ⟨_, rfl⟩
  obtain ⟨b₁, h₁, hsent, hadd⟩ := MEOrderBook.add_eq (r := r) hreached.rep hreached.wf hside
  have hbook : b.processClientRequest r = b.add r.clientId r.orderId r.side r.price r.qty := by
    unfold MEOrderBook.processClientRequest
    rw [hnew]
  rw [process_eq hticker, ← hb, hbook] at hok
  rw [← hb] at hadd hsent
  rw [hadd] at hok
  split at hok
  · next hleft =>
    rcases MEOrderBook.restOrder_outOfRange h₁ hreached.wf hside hout hleft with herr | herr
    · rw [herr] at hok
      cases hok
    · rw [herr] at hok
      cases hok
  · obtain rfl := Except.ok.inj hok
    rintro ⟨⟨response, hresponse, htype, -, -⟩, -, -⟩
    -- what the book has sent begins with the acceptance
    have hsends : b₁.responses.drop b.responses.length =
        ((k r.tickerId).matchEvents r).flatMap (Event.responses b.ticker) := by
      rw [hsent.responses, List.drop_left]
    have hone := List.append_cancel_left hresponse
    rw [hsends] at hone
    obtain rfl := (List.cons.inj hone).1
    cases htype

/-! ## The server -/

/-- A request that has come past the tables of the server. -/
structure Admitted (r : MEClientRequest) : Prop where
  wellFramed : WellFramed r
  clientId : r.clientId.toNat < meMaxNumClients

theorem Admitted.fits (h : Admitted r) (hticker : r.tickerId.toNat < meMaxTickers)
    (horder : r.orderId.toNat < meMaxOrderIds) : Fits r := by
  refine ⟨hticker, ?_⟩
  unfold MEOrderBook.inTable
  rw [decide_eq_true h.clientId, decide_eq_true horder]
  rfl

variable {server server' : OrderServer σ} {socket : σ} {rxTime : Nanos} {request : OGClientRequest}

/-- What the server does with a request of a client that it has. -/
theorem readRequest_cases (server : OrderServer σ) (socket : σ) (rxTime : Nanos)
    (h : request.meClientRequest.clientId.toNat < meMaxNumClients) :
    server.readRequest socket rxTime request = .error .assertion ∨
    ∃ server', server.readRequest socket rxTime request = .ok server' ∧
      server'.fifoSequencer.incomingRequest = server.fifoSequencer.incomingRequest ∧
      (server'.fifoSequencer.pendingClientRequests = server.fifoSequencer.pendingClientRequests ∨
        server'.fifoSequencer.pendingClientRequests =
          server.fifoSequencer.pendingClientRequests ++ [⟨rxTime, request.meClientRequest⟩]) := by
  by_cases hdue : server.Due socket request
  · rw [OrderServer.readRequest_of_due h hdue]
    unfold FifoSequencer.addClientRequest
    split
    · exact Or.inr ⟨_, rfl, rfl, Or.inr rfl⟩
    · exact Or.inl rfl
  · rw [OrderServer.readRequest_of_not_due h hdue]
    exact Or.inr ⟨_, rfl, by rw [OrderServer.bindSocket_sequencer],
      Or.inl (by rw [OrderServer.bindSocket_sequencer])⟩

/-! ## The two together -/

/-- What holds as long as no index was out of range: the books are such as requests lead to, and every
request on its way to the engine has come past the tables of the server. -/
structure Sane (x : Exchange σ) : Prop where
  engine : ∃ k, x.engine.Reached k
  incoming : ∀ r ∈ x.server.fifoSequencer.incomingRequest, Admitted r
  pending : ∀ q ∈ x.server.fifoSequencer.pendingClientRequests, Admitted q.request

variable {sort : List RecvTimeClientRequest → List RecvTimeClientRequest} {x x' : Exchange σ}
  {turn : Turn σ}

omit [DecidableEq σ] in
theorem sane_init : Sane (init : Exchange σ) where
  engine := ⟨_, MatchingEngine.reached_init⟩
  incoming := by
    intro r hr
    cases hr
  pending := by
    intro q hq
    cases hq

omit [DecidableEq σ] in
theorem Sane.admitted (h : Sane x) (hr : r ∈ x.next) : Admitted r :=
  h.incoming r (List.mem_of_getElem? hr)

theorem step_read :
    x.step sort (.read socket rxTime request) =
      x.server.readRequest socket rxTime request >>= fun server => .ok { x with server := server } :=
  rfl

theorem step_process (hr : x.next = some r) :
    x.step sort .process = x.engine.processClientRequest r >>= fun engine =>
      .ok { x with engine := engine, processed := x.processed + 1 } := by
  unfold step
  rw [hr]
  rfl

theorem step_process_none (hr : x.next = none) : x.step sort .process = .ok x := by
  unfold step
  rw [hr]

theorem withstands_read_iff :
    Withstands sort x (.read socket rxTime request) ↔ InRange x (.read socket rxTime request) := by
  constructor
  · intro hw
    by_contra hout
    refine hw.noIndexFault .outOfBounds ?_ (Or.inl rfl)
    rw [step_read, OrderServer.readRequest_outOfBounds hout]
    rfl
  · intro hin
    refine ⟨?_, fun hprocess => by cases hprocess⟩
    intro f herr
    rw [step_read] at herr
    rcases readRequest_cases x.server socket rxTime hin with hassert | ⟨server', hok, -⟩
    · rw [hassert] at herr
      obtain rfl := Except.error.inj herr
      rintro (hf | hf) <;> cases hf
    · rw [hok] at herr
      cases herr

theorem withstands_process_none (hnext : x.next = none) : Withstands sort x .process := by
  constructor
  · intro f herr
    rw [step_process_none hnext] at herr
    cases herr
  · intro _ r hr
    rw [hnext] at hr
    cases hr

/-- An id of the request that is out of range would be used as an index: a ticker id at once, the order id
of a `NEW` once the order rests. -/
theorem Sane.inRange_of_withstands (h : Sane x) (hmem : r ∈ x.next) (hw : Withstands sort x .process) :
    InRange x .process := by
  obtain ⟨k, hreached⟩ := h.engine
  intro r' hr'
  obtain rfl := Option.mem_unique hmem hr'
  have hticker : r.tickerId.toNat < meMaxTickers := by
    by_contra hout
    refine hw.noIndexFault .outOfBounds ?_ (Or.inl rfl)
    rw [step_process hmem, process_outOfBounds hout]
    rfl
  refine ⟨hticker, fun hnew => ?_⟩
  by_contra hout
  have hids : inTable r.clientId r.orderId = false := by
    unfold MEOrderBook.inTable
    rw [decide_eq_false hout, Bool.and_false]
  obtain ⟨m', hok, hrefused⟩ := hw.refused rfl r hmem fun hfits => by
    rw [hfits.2] at hids
    cases hids
  exact process_new_not_refused hreached hnew (h.admitted hmem).wellFramed.2 hticker hids hok hrefused

/-- A request that fits all tables. -/
theorem Sane.withstands_fits (h : Sane x) (hmem : r ∈ x.next) (hfits : Fits r) :
    Withstands sort x .process := by
  obtain ⟨k, hreached⟩ := h.engine
  constructor
  · intro f herr
    rw [step_process hmem] at herr
    cases hprocess : x.engine.processClientRequest r with
    | ok m' =>
      rw [hprocess] at herr
      cases herr
    | error f' =>
      rw [hprocess] at herr
      obtain rfl := Except.error.inj herr
      rw [process_fits hreached (h.admitted hmem).wellFramed hfits hprocess]
      rintro (hf | hf) <;> cases hf
  · intro _ r' hr' hnot
    obtain rfl := Option.mem_unique hmem hr'
    exact absurd hfits hnot

/-- One that does not, but has its ids in range where they are used: it is a `CANCEL`, and refused. -/
theorem Sane.withstands_not_fits (h : Sane x) (hmem : r ∈ x.next) (hfits : ¬ Fits r)
    (hin : InRange x .process) : Withstands sort x .process := by
  obtain ⟨hticker, horder⟩ := hin r hmem
  have hadmitted := h.admitted hmem
  have hcancel : r.type = .cancel :=
    hadmitted.wellFramed.1.resolve_left fun hnew => hfits (hadmitted.fits hticker (horder hnew))
  have hout : inTable r.clientId r.orderId = false :=
    Bool.eq_false_iff.mpr fun hin => hfits ⟨hticker, hin⟩
  obtain ⟨m', hok, hrefused⟩ : ∃ m', x.engine.processClientRequest r = .ok m' ∧ Refused x.engine m' r :=
    process_cancel_refused hcancel hticker hout
  constructor
  · intro f herr
    rw [step_process hmem, hok] at herr
    cases herr
  · intro _ r' hr' _
    obtain rfl := Option.mem_unique hmem hr'
    exact ⟨m', hok, hrefused⟩

/-- **What a turn withstands**: it is the condition on the ids that decides. -/
theorem Sane.withstands_iff (h : Sane x) : Withstands sort x turn ↔ InRange x turn := by
  cases turn with
  | read socket rxTime request => exact withstands_read_iff
  | publish =>
    refine ⟨fun _ => trivial, fun _ => ⟨?_, fun hprocess => by cases hprocess⟩⟩
    intro f herr
    cases herr
  | process =>
    cases hnext : x.next with
    | none =>
      refine iff_of_true (withstands_process_none hnext) ?_
      intro r hr
      rw [hnext] at hr
      cases hr
    | some r =>
      constructor
      · exact h.inRange_of_withstands hnext
      · intro hin
        by_cases hfits : Fits r
        · exact h.withstands_fits hnext hfits
        · exact h.withstands_not_fits hnext hfits hin

/-- **Step lemma.** -/
theorem Sane.step (h : Sane x) (hsort : FifoSequencer.Sorts sort) (hwf : turn.WellFramed)
    (hin : InRange x turn) (hok : x.step sort turn = .ok x') : Sane x' := by
  cases turn with
  | read socket rxTime request =>
    rw [step_read] at hok
    rcases readRequest_cases x.server socket rxTime hin with hassert | ⟨server', hread, hincoming, hpending⟩
    · rw [hassert] at hok
      cases hok
    · rw [hread] at hok
      obtain rfl := Except.ok.inj hok
      refine ⟨h.engine, fun r hr => h.incoming r (hincoming ▸ hr), fun q hq => ?_⟩
      rcases hpending with hsame | hmore
      · exact h.pending q (hsame ▸ hq)
      · rw [hmore] at hq
        rcases List.mem_append.mp hq with hq | hq
        · exact h.pending q hq
        · rw [List.mem_singleton.mp hq]
          exact ⟨hwf, hin⟩
  | publish =>
    obtain rfl := Except.ok.inj hok
    refine ⟨h.engine, fun r hr => ?_, fun q hq => ?_⟩
    · change r ∈ (x.server.fifoSequencer.sequenceAndPublish sort).incomingRequest at hr
      rw [FifoSequencer.sequenceAndPublish_incomingRequest hsort] at hr
      rcases List.mem_append.mp hr with hr | hr
      · exact h.incoming r hr
      · obtain ⟨q, hq, rfl⟩ := List.mem_map.mp hr
        exact h.pending q ((hsort _).1.mem_iff.mp hq)
    · change q ∈ (x.server.fifoSequencer.sequenceAndPublish sort).pendingClientRequests at hq
      rw [FifoSequencer.sequenceAndPublish_pendingClientRequests] at hq
      cases hq
  | process =>
    cases hnext : x.next with
    | none =>
      rw [step_process_none hnext] at hok
      obtain rfl := Except.ok.inj hok
      exact h
    | some r =>
      have hmem : r ∈ x.next := hnext
      obtain ⟨k, hreached⟩ := h.engine
      have hadmitted := h.admitted hmem
      obtain ⟨hticker, horder⟩ := hin r hmem
      have hvalid : r.Valid := by
        rcases hadmitted.wellFramed.1 with hnew | hcancel
        · exact Or.inl ⟨hnew, hadmitted.wellFramed.2, (hadmitted.fits hticker (horder hnew)).2⟩
        · exact Or.inr hcancel
      rw [step_process hnext] at hok
      cases hprocess : x.engine.processClientRequest r with
      | error f =>
        rw [hprocess] at hok
        cases hok
      | ok m' =>
        rw [hprocess] at hok
        obtain rfl := Except.ok.inj hok
        obtain ⟨-, cells, -, hreached', -⟩ := hreached.step hvalid hprocess
        exact ⟨⟨_, hreached'⟩, h.incoming, h.pending⟩

theorem foldlM_reads (requests : List OGClientRequest) :
    (requests.map fun request => Turn.read socket rxTime request).foldlM (Exchange.step sort) x =
      (requests.foldlM (OrderServer.readRequest socket rxTime) x.server).map
        fun server => { x with server := server } := by
  induction requests generalizing x with
  | nil => rfl
  | cons request requests ih =>
    rw [List.map_cons, List.foldlM_cons, List.foldlM_cons, step_read]
    cases x.server.readRequest socket rxTime request with
    | error f => rfl
    | ok server => exact ih (x := { x with server := server })

/-- A call of `recvCallbacks` on complete requests is a turn for each of them. -/
theorem recvCallbacks_turns (requests : List OGClientRequest) :
    (requests.map fun request => Turn.read socket rxTime request).foldlM (Exchange.step sort) x =
      (x.server.recvCallbacks socket rxTime (requests.flatMap OGClientRequest.codec.encode)).map
        fun received => { x with server := received.1 } := by
  have hlength : (requests.flatMap OGClientRequest.codec.encode).length =
      requests.length * OGClientRequest.codec.size := by
    induction requests with
    | nil => exact (Nat.zero_mul _).symm
    | cons request requests ih =>
      rw [List.flatMap_cons, List.length_append, ih, OGClientRequest.codec.length_encode,
        List.length_cons, Nat.succ_mul, Nat.add_comm]
  have hframes : (frames OGClientRequest.codec.size
      (requests.flatMap OGClientRequest.codec.encode)).map OGClientRequest.codec.decode = requests := by
    rw [List.flatMap_def, frames_flatten (by decide), List.map_map]
    · apply List.map_id''
      intro request
      have hdecode := OGClientRequest.codec.decode_encode request []
      rwa [List.append_nil] at hdecode
    · intro f hf
      obtain ⟨request, -, rfl⟩ := List.mem_map.mp hf
      exact OGClientRequest.codec.length_encode request
  rw [foldlM_reads]
  unfold OrderServer.recvCallbacks
  rw [hframes]
  split
  · next hlt =>
    rw [hlength] at hlt
    have hnone : requests = [] := by
      cases requests with
      | nil => rfl
      | cons request requests =>
        rw [List.length_cons, Nat.succ_mul] at hlt
        omega
    rw [hnone]
    rfl
  · dsimp only
    cases requests.foldlM (OrderServer.readRequest socket rxTime) x.server with
    | error f => rfl
    | ok server => rfl

/-- **When the exchange withstands its requests**: whatever the sockets and the interleaving, no index
is out of range and every request that does not fit is refused, exactly if on every turn the ids that
index a table are in range. -/
theorem run_withstands_iff (hsort : FifoSequencer.Sorts sort) {turns : List (Turn σ)}
    (hwf : ∀ turn ∈ turns, turn.WellFramed) :
    AllSteps (Exchange.step sort) init (fun _ => Withstands sort) turns ↔
      AllSteps (Exchange.step sort) init (fun _ => InRange) turns :=
  allSteps_congr (C := fun _ turn => turn.WellFramed) (fun _ _ h _ => h.withstands_iff)
    (fun _ _ _ h hturn hin hok => h.step hsort hturn hin hok)
    (AllSteps.of_forall fun turn hturn _ => hwf turn hturn) sane_init

/-! ## One request -/

instance decidableWellFramed (turn : Turn σ) : Decidable turn.WellFramed :=
  match turn with
  | .read _ _ request => inferInstanceAs (Decidable
      ((request.meClientRequest.type = .new ∨ request.meClientRequest.type = .cancel) ∧
        (request.meClientRequest.side = .buy ∨ request.meClientRequest.side = .sell)))
  | .publish => isTrue trivial
  | .process => isTrue trivial

instance decidableInRange (x : Exchange σ) (turn : Turn σ) : Decidable (x.InRange turn) :=
  match turn with
  | .read _ _ request =>
    inferInstanceAs (Decidable (request.meClientRequest.clientId.toNat < meMaxNumClients))
  | .publish => isTrue trivial
  | .process => inferInstanceAs (Decidable (∀ r ∈ x.next, _))

open FifoSequencer (sortByTime sorts_sortByTime)

/-- The turns in which one request comes in, is published and is processed. -/
def sendOne (r : MEClientRequest) : List (Turn Bool) := [.read true 0 ⟨1, r⟩, .publish, .process]

/-- A `CANCEL` of an order id that is out of range. -/
theorem withstands_cancel :
    AllSteps (Exchange.step sortByTime) init (fun _ => Withstands sortByTime)
      (sendOne { type := .cancel, clientId := 0, tickerId := 0, orderId := 1048576, side := .buy }) :=
  (run_withstands_iff sorts_sortByTime (by decide)).mpr (AllSteps.of_check (by decide +kernel))

/-- A `NEW` of such an order id, which is accepted and linked into a level before `.at()` throws. -/
theorem not_withstands_new :
    ∃ f, IndexFault f ∧
      (sendOne { type := .new, clientId := 0, tickerId := 0, orderId := 1048576, side := .buy,
                 price := 100, qty := 1 }).foldlM (Exchange.step sortByTime) init = .error f := by
  refine ⟨.outOfRange, Or.inr rfl, ?_⟩
  apply eq_error_of_map (f := fun _ => ())
  decide +kernel

end Exchange

end TradingSystem
