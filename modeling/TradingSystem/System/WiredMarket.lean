import TradingSystem.Utils.SpscUnchecked
import TradingSystem.System.Line
import TradingSystem.System.Market
import TradingSystem.System.RequestPath

/-!
# The market over its wires

In `Market` a request waits until the exchange takes it, and a client reads the responses to it where the
exchange has put them. Here requests and responses take the way that they take in the program: a gateway
numbers the requests and writes them to its connection, the order server reads bytes and hands complete
requests to its sequencer, the sequencer writes to the queue of the exchange, and the responses go back over
the same connection. All queues are rings that are written without a look at their size. Bytes are read in
pieces that end anywhere, and everything runs at its own pace.

The market updates come to a client in order and none is lost; the way that they take is `MarketData`. A
socket takes all bytes that are passed to it.

As long as no ring is read more than a round behind, no more requests are pending than the sequencer has room
for and the gateways leave in their buffers what they have not read, this machine does what the market does
(`run_refines`). So it goes on (`run_goes_on`), and loses no request and no response on the way
(`run_answered`).
-/

namespace TradingSystem

open OrderServer (Follows carrier carried)
open Client (liveOrders)
open MatchingEngine (updatesOf)

variable {D : Type}

structure WiredMarket (D : Type) where
  exchange : MatchingEngine
  client : ClientId → Client.TradeEngine D
  /-- how many of the market updates have come to a client -/
  updatesDelivered : ClientId → Nat
  /-- how many of them its trade engine has read, and how many of the responses from its gateway -/
  updatesRead : ClientId → Nat
  responsesRead : ClientId → Nat
  /-- each client has one connection, so that the socket of a client is its id -/
  server : OrderServer ClientId
  line : ClientId → Line
  /-- how many requests the exchange has processed, and how many responses the server has written -/
  requestsProcessed : Nat
  responsesWritten : Nat

inductive WiredMarket.Turn where
  /-- turns of the trade engine of a client, with its timer and with what its queues hold -/
  | timer (c : ClientId) (d : RandomTrader.Draw)
  | update (c : ClientId)
  | response (c : ClientId)
  /-- the next market update comes to a client -/
  | deliver (c : ClientId)
  /-- turns of the gateway of a client -/
  | writeRequest (c : ClientId)
  | receiveResponses (c : ClientId) (n : Nat)
  /-- turns of the order server -/
  | receiveRequests (c : ClientId) (n : Nat) (rxTime : Nanos)
  | publish
  | writeResponse
  /-- the turn of the exchange -/
  | process

namespace WiredMarket

def withLine (s : WiredMarket D) (c : ClientId) (l : Line) : WiredMarket D :=
  { s with line := Function.update s.line c l }

/-- The market updates that have come to a client. -/
def incomingMarketUpdates (s : WiredMarket D) (c : ClientId) : List MEMarketUpdate :=
  s.exchange.marketUpdates.take (s.updatesDelivered c)

/-- What is found in a ring by a reader that has read `k` elements. -/
def nextRead {T : Type} (pushed : List T) (k : Nat) : Option T :=
  SpscHistory.nextRead meMaxClientsUpdates pushed k

section

variable [Add D] [Sub D] [Mul D] [Div D] [LT D] [DecidableLT D] [LE D] [DecidableLE D] [IntCast D]

def init (setup : Market.Setup D) : WiredMarket D where
  exchange := .init
  client := setup.client
  updatesDelivered := fun _ => 0
  updatesRead := fun _ => 0
  responsesRead := fun _ => 0
  server := .init
  line := Line.init
  requestsProcessed := 0
  responsesWritten := 0

/-! ## A trade engine -/

def handle (s : WiredMarket D) (c : ClientId) (input : Client.TradeEngine.Input) :
    Except Fault (WiredMarket D) := do
  let e ← (s.client c).step input
  return { s with client := Function.update s.client c e }

def readUpdate (s : WiredMarket D) (c : ClientId) : Except Fault (WiredMarket D) :=
  match nextRead (s.incomingMarketUpdates c) (s.updatesRead c) with
  | some u => do
    let s' ← s.handle c (.marketUpdate u)
    return { s' with updatesRead := Function.update s.updatesRead c (s.updatesRead c + 1) }
  | none => .ok s

def readResponse (s : WiredMarket D) (c : ClientId) : Except Fault (WiredMarket D) :=
  match nextRead (s.line c).gateway.incomingResponses (s.responsesRead c) with
  | some x => do
    let s' ← s.handle c (.response x)
    return { s' with responsesRead := Function.update s.responsesRead c (s.responsesRead c + 1) }
  | none => .ok s

/-- The next market update comes to a client, if there is one. -/
def deliver (s : WiredMarket D) (c : ClientId) : WiredMarket D :=
  if s.updatesDelivered c < s.exchange.marketUpdates.length then
    { s with updatesDelivered := Function.update s.updatesDelivered c (s.updatesDelivered c + 1) }
  else s

/-! ## The way of the requests -/

/-- The gateway takes the next request of its trade engine. -/
def writeRequest (s : WiredMarket D) (c : ClientId) : WiredMarket D :=
  match nextRead (s.client c).outgoingRequests (s.line c).requestsWritten with
  | some r => s.withLine c ((s.line c).writeRequest r)
  | none => s

/-- The server reads `n` bytes from the connection of a client. -/
def receiveRequests (s : WiredMarket D) (c : ClientId) (n : Nat) (rxTime : Nanos) :
    Except Fault (WiredMarket D) := do
  let (server, left) ← s.server.recvCallbacks c rxTime ((s.line c).readRequests n)
  return { s.withLine c ((s.line c).receiveRequests n left) with server := server }

def publish (sort : List RecvTimeClientRequest → List RecvTimeClientRequest) (s : WiredMarket D) :
    WiredMarket D :=
  { s with server := s.server.recvFinishedCallbacks sort }

/-- The exchange takes the next request from its queue. -/
def process (s : WiredMarket D) : Except Fault (WiredMarket D) :=
  match nextRead s.server.fifoSequencer.incomingRequest s.requestsProcessed with
  | some r => do
    let exchange ← s.exchange.processClientRequest r
    return { s with exchange := exchange, requestsProcessed := s.requestsProcessed + 1 }
  | none => .ok s

/-! ## The way of the responses -/

/-- The server takes the next response of the exchange. -/
def writeResponse (s : WiredMarket D) : Except Fault (WiredMarket D) :=
  match nextRead s.exchange.responses s.responsesWritten with
  | some x => do
    let (server, socket, bytes) ← s.server.writeResponse x
    return { s.withLine socket ((s.line socket).writeResponse bytes) with
      server := server
      responsesWritten := s.responsesWritten + 1 }
  | none => .ok s

def receiveResponses (s : WiredMarket D) (c : ClientId) (n : Nat) : WiredMarket D :=
  s.withLine c ((s.line c).receiveResponses n)

def step (sort : List RecvTimeClientRequest → List RecvTimeClientRequest) (s : WiredMarket D) :
    Turn → Except Fault (WiredMarket D)
  | .timer c d => s.handle c (.timer d)
  | .update c => s.readUpdate c
  | .response c => s.readResponse c
  | .deliver c => .ok (s.deliver c)
  | .writeRequest c => .ok (s.writeRequest c)
  | .receiveResponses c n => .ok (s.receiveResponses c n)
  | .receiveRequests c n rxTime => s.receiveRequests c n rxTime
  | .publish => .ok (s.publish sort)
  | .writeResponse => s.writeResponse
  | .process => s.process

end

/-- At most a round of a ring is unread. -/
def InTime {T : Type} (pushed : List T) (k : Nat) : Prop := pushed.length - k ≤ meMaxClientsUpdates

/-- No ring is read more than a round behind, no more requests are pending than the sequencer has room for,
and a gateway leaves in its buffer what it has not read. -/
def Permitted (s : WiredMarket D) : Turn → Prop
  | .update c => InTime (s.incomingMarketUpdates c) (s.updatesRead c)
  | .response c => InTime (s.line c).gateway.incomingResponses (s.responsesRead c)
  | .writeRequest c => InTime (s.client c).outgoingRequests (s.line c).requestsWritten
  | .receiveResponses c n =>
    ((s.line c).gateway.recvCallback ((s.line c).readResponses n)).2 =
      rest OGClientResponse.codec.size ((s.line c).readResponses n)
  | .receiveRequests c n _ =>
    s.server.fifoSequencer.pendingClientRequests.length +
      (OGClientRequest.codec.unpack ((s.line c).readRequests n)).length ≤ maxPendingRequests
  | .writeResponse => InTime s.exchange.responses s.responsesWritten
  | .process => InTime s.server.fifoSequencer.incomingRequest s.requestsProcessed
  | _ => True

/-! ## What is on the way -/

/-- The requests that the exchange has processed. -/
def processed (s : WiredMarket D) : List MEClientRequest :=
  s.server.fifoSequencer.incomingRequest.take s.requestsProcessed

/-- The requests of a client that the exchange has not processed. -/
def requestsOnTheWay (s : WiredMarket D) (c : ClientId) : List MEClientRequest :=
  (s.server.fifoSequencer.incomingRequest.drop s.requestsProcessed ++
      s.server.fifoSequencer.pendingClientRequests.map RecvTimeClientRequest.request).filter
    (fun r => r.clientId = c) ++
  ((OGClientRequest.codec.unpack ((s.line c).requestBuffer ++ (s.line c).requestBytes)).map
      OGClientRequest.meClientRequest ++
    (s.client c).outgoingRequests.drop (s.line c).requestsWritten)

/-- The responses to a client that the server has written. -/
def responsesTo (s : WiredMarket D) (c : ClientId) : List MEClientResponse :=
  (s.exchange.responses.take s.responsesWritten).filter fun x => x.clientId = c

/-- The responses to a client that its gateway has not handed on. -/
def responsesOnTheWay (s : WiredMarket D) (c : ClientId) : List MEClientResponse :=
  (OGClientResponse.codec.unpack ((s.line c).responseBuffer ++ (s.line c).responseBytes)).map
      OGClientResponse.meClientResponse ++
    (s.exchange.responses.drop s.responsesWritten).filter fun x => x.clientId = c

/-- The requests that have arrived over the connection of a client. -/
def arrivedFrom (as : List (ClientId × OGClientRequest)) (c : ClientId) : List OGClientRequest :=
  (as.filter fun a => a.1 = c).map Prod.snd

/-- The requests `forwarded` were published, and `as` have arrived at the server. -/
structure Wired (s : WiredMarket D) (forwarded : List MEClientRequest)
    (as : List (ClientId × OGClientRequest)) : Prop where
  own : ∀ c, ∀ r ∈ (s.client c).outgoingRequests, r.clientId = c ∧ c.toNat < meMaxNumClients
  queued : s.server.fifoSequencer.incomingRequest.Perm forwarded
  follows : Follows s.server forwarded as
  processed : s.requestsProcessed ≤ s.server.fifoSequencer.incomingRequest.length
  written : s.responsesWritten ≤ s.exchange.responses.length
  numbered : ∀ c, s.server.cidNextOutgoingSeqNum c = 1 + UInt64.ofNat (s.responsesTo c).length
  line : ∀ c, ∃ got, (s.line c).Inv c (s.client c).outgoingRequests (arrivedFrom as c) (s.responsesTo c) got

variable {s s' : WiredMarket D} {forwarded : List MEClientRequest}
  {as : List (ClientId × OGClientRequest)} {a : ClientId × OGClientRequest} {c : ClientId}

/-! ## Requests come from their clients -/

/-- What arrives over the connection of a client is what its trade engine has sent. -/
theorem Wired.arrived (h : s.Wired forwarded as) (c : ClientId) :
    (arrivedFrom as c ++ OGClientRequest.codec.unpack
        ((s.line c).requestBuffer ++ (s.line c).requestBytes)).map OGClientRequest.meClientRequest =
      (s.client c).outgoingRequests.take (s.line c).requestsWritten := by
  obtain ⟨got, hline⟩ := h.line c
  rw [← hline.requests.sent_eq (by decide), Line.numberedRequests_values]

theorem Wired.arrived_own (h : s.Wired forwarded as) (ha : a ∈ as) :
    a.2.meClientRequest.clientId = a.1 ∧ a.1.toNat < meMaxNumClients := by
  have hmem : a.2.meClientRequest ∈
      (arrivedFrom as a.1 ++ OGClientRequest.codec.unpack
        ((s.line a.1).requestBuffer ++ (s.line a.1).requestBytes)).map OGClientRequest.meClientRequest := by
    apply List.mem_map_of_mem
    apply List.mem_append_left
    exact List.mem_map_of_mem (List.mem_filter.mpr ⟨ha, decide_eq_true rfl⟩)
  rw [h.arrived] at hmem
  exact h.own _ _ (List.mem_of_mem_take hmem)

theorem Wired.carrier_own (h : s.Wired forwarded as) {c' : ClientId} (hc : carrier as c = some c') :
    c' = c := by
  unfold carrier at hc
  obtain ⟨a, hfind, rfl⟩ := Option.map_eq_some_iff.mp hc
  have hclient : a.2.meClientRequest.clientId = c := by simpa using List.find?_some hfind
  rw [← (h.arrived_own (List.mem_of_find?_eq_some hfind)).1]
  exact hclient

theorem Wired.carried_eq (h : s.Wired forwarded as) (c : ClientId) : carried as c = arrivedFrom as c := by
  unfold carried arrivedFrom
  congr 1
  apply List.filter_congr
  intro a ha
  have hown := (h.arrived_own ha).1
  by_cases hc : a.1 = c
  · obtain ⟨b, -, hb⟩ := OrderServer.exists_carrier ha (hown.trans hc)
    rw [h.carrier_own hb] at hb
    simp [hown, hc, hb]
  · simp [hown, hc]

/-- The server forwards all that arrives. -/
theorem Wired.forwarded_eq (h : s.Wired forwarded as) (c : ClientId) :
    (forwarded ++ s.server.fifoSequencer.pendingClientRequests.map RecvTimeClientRequest.request).filter
        (fun r => r.clientId = c) =
      (arrivedFrom as c).map OGClientRequest.meClientRequest := by
  obtain ⟨got, hline⟩ := h.line c
  rw [h.follows.forwarded, h.carried_eq]
  congr 1
  obtain ⟨left, hsent, -⟩ := hline.requests
  apply taken_of_append _ hsent
  exact fun _ => rfl

/-- **No request is lost or doubled on its way.** -/
theorem Wired.requests_perm (h : s.Wired forwarded as) (c : ClientId) :
    (s.processed.filter (fun r => r.clientId = c) ++ s.requestsOnTheWay c).Perm
      (s.client c).outgoingRequests := by
  unfold requestsOnTheWay WiredMarket.processed
  rw [← List.append_assoc, ← List.filter_append, ← List.append_assoc (List.take _ _), List.take_append_drop]
  have hforwarded : ((s.server.fifoSequencer.incomingRequest ++
      s.server.fifoSequencer.pendingClientRequests.map RecvTimeClientRequest.request).filter
        fun r => r.clientId = c).Perm ((arrivedFrom as c).map OGClientRequest.meClientRequest) := by
    rw [← h.forwarded_eq]
    exact (h.queued.append_right _).filter _
  refine (hforwarded.append_right _).trans ?_
  rw [← List.append_assoc, ← List.map_append, h.arrived, List.take_append_drop]

/-- **No response is lost or doubled on its way**, and they come in order. -/
theorem Wired.responses_eq (h : s.Wired forwarded as) (c : ClientId) :
    (s.line c).gateway.incomingResponses ++ s.responsesOnTheWay c =
      s.exchange.responses.filter fun x => x.clientId = c := by
  obtain ⟨got, hline⟩ := h.line c
  have hown : ∀ x ∈ s.responsesTo c, x.clientId = c := fun x hx =>
    of_decide_eq_true (List.mem_filter.mp hx).2
  have hsent := congrArg (List.map OGClientResponse.meClientResponse) (hline.responses.sent_eq (by decide))
  rw [Line.numberedResponses_values, List.map_append] at hsent
  unfold responsesOnTheWay
  rw [hline.incomingResponses hown, ← List.append_assoc, ← hsent]
  unfold responsesTo
  rw [← List.filter_append, List.take_append_drop]

/-! ## Turns of the gateways and of the server -/

/-- A turn which the market does not see. -/
structure Unseen (s s' : WiredMarket D) : Prop where
  exchange : s'.exchange = s.exchange
  client : s'.client = s.client
  updatesRead : s'.updatesRead = s.updatesRead
  responsesRead : s'.responsesRead = s.responsesRead
  processed : s'.processed = s.processed

theorem nextRead_eq {T : Type} {pushed : List T} {k : Nat} {v : T} (htime : InTime pushed k)
    (hread : nextRead pushed k = some v) : pushed[k]? = some v := SpscHistory.nextRead_of_le htime hread

/-- Something happens on the line of a client. -/
theorem Wired.withLine (h : s.Wired forwarded as) {l : Line}
    (hl : ∃ got, l.Inv c (s.client c).outgoingRequests (arrivedFrom as c) (s.responsesTo c) got) :
    (s.withLine c l).Wired forwarded as := by
  refine ⟨h.own, h.queued, h.follows, h.processed, h.written, h.numbered, fun c' => ?_⟩
  show ∃ got, (Function.update s.line c l c').Inv c' _ _ (s.responsesTo c') got
  by_cases hc : c' = c
  · subst hc
    rw [Function.update_self]
    exact hl
  · rw [Function.update_of_ne hc]
    exact h.line c'

theorem unseen_withLine (l : Line) : Unseen s (s.withLine c l) := ⟨rfl, rfl, rfl, rfl, rfl⟩

theorem Wired.writeRequest (h : s.Wired forwarded as)
    (htime : InTime (s.client c).outgoingRequests (s.line c).requestsWritten) :
    (s.writeRequest c).Wired forwarded as ∧ Unseen s (s.writeRequest c) := by
  unfold WiredMarket.writeRequest
  split
  · next r hread =>
    obtain ⟨got, hline⟩ := h.line c
    exact ⟨h.withLine ⟨got, hline.writeRequest (nextRead_eq htime hread)⟩, unseen_withLine _⟩
  · exact ⟨h, rfl, rfl, rfl, rfl, rfl⟩

theorem Wired.receiveResponses (h : s.Wired forwarded as) {n : Nat}
    (hkeeps : ((s.line c).gateway.recvCallback ((s.line c).readResponses n)).2 =
      rest OGClientResponse.codec.size ((s.line c).readResponses n)) :
    (s.receiveResponses c n).Wired forwarded as := by
  obtain ⟨got, hline⟩ := h.line c
  exact h.withLine ⟨_, hline.receiveResponses hkeeps⟩

/-- The server knows the clients whose requests it reads. -/
theorem Wired.read_own (h : s.Wired forwarded as) {n : Nat} {m : OGClientRequest}
    (hm : m ∈ OGClientRequest.codec.unpack ((s.line c).readRequests n)) :
    m.meClientRequest.clientId.toNat < meMaxNumClients := by
  obtain ⟨got, hline⟩ := h.line c
  obtain ⟨left, hsent, -⟩ := (hline.receiveRequests n).requests
  have hmem : m.meClientRequest ∈ (s.client c).outgoingRequests.take (s.line c).requestsWritten := by
    have hvalues := Line.numberedRequests_values
      ((s.client c).outgoingRequests.take (s.line c).requestsWritten)
    have hsent : Line.numberedRequests ((s.client c).outgoingRequests.take (s.line c).requestsWritten) =
      (arrivedFrom as c ++ OGClientRequest.codec.unpack ((s.line c).readRequests n)) ++ left := hsent
    rw [← hvalues, hsent]
    exact List.mem_map_of_mem (List.mem_append_left _ (List.mem_append_right _ hm))
  obtain ⟨hclient, hid⟩ := h.own c _ (List.mem_of_mem_take hmem)
  rwa [hclient]

theorem arrivedFrom_append (as : List (ClientId × OGClientRequest)) (ms : List OGClientRequest)
    (c c' : ClientId) :
    arrivedFrom (as ++ ms.map fun m => (c, m)) c' = arrivedFrom as c' ++ if c' = c then ms else [] := by
  unfold arrivedFrom
  rw [List.filter_append, List.map_append]
  congr 1
  split
  · next hc =>
    subst hc
    rw [List.filter_eq_self.mpr (by simp), List.map_map]
    exact List.map_id _
  · next hc => rw [List.filter_eq_nil_iff.mpr (by simp [Ne.symm hc]), List.map_nil]

theorem Wired.receiveRequests (h : s.Wired forwarded as) {n : Nat} (rxTime : Nanos)
    (hroom : s.server.fifoSequencer.pendingClientRequests.length +
      (OGClientRequest.codec.unpack ((s.line c).readRequests n)).length ≤ maxPendingRequests) :
    ∃ s', s.receiveRequests c n rxTime = .ok s' ∧ Unseen s s' ∧ s'.Wired forwarded
      (as ++ (OGClientRequest.codec.unpack ((s.line c).readRequests n)).map fun m => (c, m)) := by
  obtain ⟨server', hok, hfollows⟩ := h.follows.readRequests (fun m hm => h.read_own hm) hroom c rxTime
  have hincoming := OrderServer.readRequests_incomingRequest hok
  refine ⟨{ s.withLine c ((s.line c).receiveRequests n
    (rest OGClientRequest.codec.size ((s.line c).readRequests n))) with server := server' }, ?_, ?_, ?_⟩
  · unfold WiredMarket.receiveRequests
    rw [OrderServer.recvCallbacks_eq]
    unfold Codec.unpack at hok
    rw [hok]
    rfl
  · refine ⟨rfl, rfl, rfl, rfl, ?_⟩
    show server'.fifoSequencer.incomingRequest.take _ = _
    rw [hincoming]
    rfl
  · refine ⟨h.own, hincoming ▸ h.queued, hfollows, hincoming ▸ h.processed, h.written, ?_, fun c' => ?_⟩
    · intro c'
      show server'.cidNextOutgoingSeqNum c' = _
      rw [(OrderServer.keeps_readRequests hok).outgoing]
      exact h.numbered c'
    · show ∃ got, (Function.update s.line c _ c').Inv c' _ _ (s.responsesTo c') got
      rw [arrivedFrom_append]
      by_cases hc : c' = c
      · subst hc
        obtain ⟨got, hline⟩ := h.line c'
        rw [Function.update_self, if_pos rfl]
        exact ⟨got, hline.receiveRequests n⟩
      · rw [Function.update_of_ne hc, if_neg hc, List.append_nil]
        exact h.line c'

theorem Wired.publish (h : s.Wired forwarded as)
    {sort : List RecvTimeClientRequest → List RecvTimeClientRequest} (hsort : FifoSequencer.Sorts sort) :
    (s.publish sort).Wired
      (forwarded ++ s.server.fifoSequencer.pendingClientRequests.map RecvTimeClientRequest.request) as := by
  have hincoming := FifoSequencer.sequenceAndPublish_incomingRequest (s := s.server.fifoSequencer) hsort
  refine ⟨h.own, ?_, h.follows.flush sort, ?_, h.written, h.numbered, h.line⟩
  · show (s.server.fifoSequencer.sequenceAndPublish sort).incomingRequest.Perm _
    rw [hincoming]
    exact h.queued.append ((hsort _).1.map _)
  · show s.requestsProcessed ≤ (s.server.fifoSequencer.sequenceAndPublish sort).incomingRequest.length
    rw [hincoming, List.length_append]
    exact Nat.le_add_right_of_le h.processed

/-- Whoever has sent a request to the exchange has a connection. -/
theorem Wired.known (h : s.Wired forwarded as) {r : MEClientRequest}
    (hr : r ∈ s.server.fifoSequencer.incomingRequest) :
    s.server.cidToSocket r.clientId = some r.clientId ∧ r.clientId.toNat < meMaxNumClients := by
  have hmem : r ∈ (forwarded ++
      s.server.fifoSequencer.pendingClientRequests.map RecvTimeClientRequest.request).filter
        (fun r' => r'.clientId = r.clientId) :=
    List.mem_filter.mpr ⟨List.mem_append_left _ (h.queued.subset hr), decide_eq_true rfl⟩
  rw [h.forwarded_eq] at hmem
  obtain ⟨m, hm, rfl⟩ := List.mem_map.mp hmem
  obtain ⟨a, ha, rfl⟩ := List.mem_map.mp hm
  have ha := List.mem_of_mem_filter ha
  obtain ⟨b, -, hb⟩ := OrderServer.exists_carrier ha rfl
  obtain ⟨hclient, hid⟩ := h.arrived_own ha
  rw [h.follows.socket, hb, h.carrier_own hb]
  exact ⟨rfl, hclient ▸ hid⟩

/-- The server writes a response of the exchange to the connection of the client. -/
theorem Wired.writeResponse (h : s.Wired forwarded as)
    (htime : InTime s.exchange.responses s.responsesWritten)
    (hknown : ∀ x ∈ s.exchange.responses, ∃ r ∈ s.processed, r.clientId = x.clientId) :
    ∃ s', s.writeResponse = .ok s' ∧ Unseen s s' ∧ s'.Wired forwarded as := by
  unfold WiredMarket.writeResponse
  cases hread : nextRead s.exchange.responses s.responsesWritten with
  | none => exact ⟨s, rfl, ⟨rfl, rfl, rfl, rfl, rfl⟩, h⟩
  | some x =>
    have hx := nextRead_eq htime hread
    obtain ⟨r, hr, hclient⟩ := hknown x (List.mem_of_getElem? hx)
    obtain ⟨hsocket, hid⟩ := h.known (List.mem_of_mem_take hr)
    rw [hclient] at hsocket hid
    have hwrite := OrderServer.writeResponse_of_socket hid hsocket
    refine ⟨_, bind_eq_ok.mpr ⟨_, hwrite, rfl⟩, ⟨rfl, rfl, rfl, rfl, rfl⟩, ?_⟩
    have hto : ∀ c', ((s.exchange.responses.take (s.responsesWritten + 1)).filter fun y => y.clientId = c') =
        s.responsesTo c' ++ if c' = x.clientId then [x] else [] := by
      intro c'
      rw [List.take_add_one, hx, Option.toList_some, List.filter_append]
      by_cases hc : c' = x.clientId
      · simp [responsesTo, hc]
      · simp [responsesTo, hc, Ne.symm hc]
    refine ⟨h.own, h.queued, ⟨h.follows.socket, h.follows.expected, h.follows.forwarded⟩, h.processed,
      (List.getElem?_eq_some_iff.mp hx).1, fun c' => ?_, fun c' => ?_⟩
    · show Function.update s.server.cidNextOutgoingSeqNum x.clientId _ c' = 1 + UInt64.ofNat
        ((s.exchange.responses.take (s.responsesWritten + 1)).filter fun y => y.clientId = c').length
      rw [hto]
      by_cases hc : c' = x.clientId
      · subst hc
        rw [Function.update_self, if_pos rfl, List.length_append, List.length_singleton, h.numbered,
          UInt64.ofNat_add, ← add_assoc]
        rfl
      · rw [Function.update_of_ne hc, if_neg hc, List.append_nil]
        exact h.numbered c'
    · show ∃ got, (Function.update s.line x.clientId _ c').Inv c' _ _
        ((s.exchange.responses.take (s.responsesWritten + 1)).filter fun y => y.clientId = c') got
      rw [hto]
      obtain ⟨got, hline⟩ := h.line c'
      by_cases hc : c' = x.clientId
      · subst hc
        rw [Function.update_self, if_pos rfl, h.numbered]
        exact ⟨got, hline.writeResponse x⟩
      · rw [Function.update_of_ne hc, if_neg hc, List.append_nil]
        exact ⟨got, hline⟩

/-! ## Turns of the exchange and of the trade engines -/

/-- The exchange takes a request. -/
theorem Wired.process (h : s.Wired forwarded as) {r : MEClientRequest}
    (hr : s.server.fifoSequencer.incomingRequest[s.requestsProcessed]? = some r) {m : MatchingEngine}
    (hok : s.exchange.processClientRequest r = .ok m) :
    Wired { s with exchange := m, requestsProcessed := s.requestsProcessed + 1 } forwarded as := by
  obtain ⟨-, b, -, rfl⟩ := MatchingEngine.processClientRequest_eq_ok.mp hok
  have hsame : ∀ more, (s.exchange.responses ++ more).take s.responsesWritten =
      s.exchange.responses.take s.responsesWritten := fun more => List.take_append_of_le_length h.written
  refine ⟨h.own, h.queued, h.follows, (List.getElem?_eq_some_iff.mp hr).1, ?_, fun c => ?_, fun c => ?_⟩
  · show s.responsesWritten ≤ (s.exchange.responses ++ _).length
    rw [List.length_append]
    exact Nat.le_add_right_of_le h.written
  · show _ = 1 + UInt64.ofNat
      (((s.exchange.responses ++ _).take s.responsesWritten).filter fun x => x.clientId = c).length
    rw [hsame]
    exact h.numbered c
  · show ∃ got, (s.line c).Inv c _ _
      (((s.exchange.responses ++ _).take s.responsesWritten).filter fun x => x.clientId = c) got
    rw [hsame]
    exact h.line c

section

variable [Add D] [Sub D] [Mul D] [Div D] [LT D] [DecidableLT D] [LE D] [DecidableLE D] [IntCast D]
  {setup : Market.Setup D} {traders : Finset ClientId}
  {sort : List RecvTimeClientRequest → List RecvTimeClientRequest} {t : Market D}
  {waiting waiting' : List MEClientRequest}

/-- A trade engine handles an input. -/
theorem Wired.handle (h : s.Wired forwarded as) {input : Client.TradeEngine.Input}
    {e : Client.TradeEngine D} (hstep : (s.client c).step input = .ok e)
    (hown : ∀ r ∈ e.outgoingRequests, r.clientId = c ∧ c.toNat < meMaxNumClients)
    (updatesRead responsesRead : ClientId → Nat) :
    Wired { s with
      client := Function.update s.client c e
      updatesRead := updatesRead
      responsesRead := responsesRead } forwarded as := by
  refine ⟨fun c' => ?_, h.queued, h.follows, h.processed, h.written, h.numbered, fun c' => ?_⟩
  · show ∀ r ∈ (Function.update s.client c e c').outgoingRequests, _
    by_cases hc : c' = c
    · subst hc
      rw [Function.update_self]
      exact hown
    · rw [Function.update_of_ne hc]
      exact h.own c'
  · show ∃ got, (s.line c').Inv c' (Function.update s.client c e c').outgoingRequests _
      (s.responsesTo c') got
    obtain ⟨got, hline⟩ := h.line c'
    by_cases hc : c' = c
    · subst hc
      rw [Function.update_self]
      exact ⟨got, hline.grow (Client.TradeEngine.step_outgoingRequests hstep)⟩
    · rw [Function.update_of_ne hc]
      exact ⟨got, hline⟩

/-! ## The market does the same -/

/-- The market, with the requests that wait. -/
def toMarket (s : WiredMarket D) (waiting : List MEClientRequest) : Market D where
  exchange := s.exchange
  waiting := waiting
  client := s.client
  updatesRead := s.updatesRead
  responsesRead := s.responsesRead

/-- The wires carry what the market says, in which the requests `waiting` wait. -/
structure Refines (setup : Market.Setup D) (traders : Finset ClientId) (waiting : List MEClientRequest)
    (s : WiredMarket D) : Prop where
  wired : ∃ forwarded as, s.Wired forwarded as
  sound : (s.toMarket waiting).Sound setup traders s.processed

theorem refines_init (hsetup : setup.Staffed traders) : Refines setup traders [] (init setup) where
  wired := by
    refine ⟨[], [], nofun, List.Perm.nil, OrderServer.follows_init, le_rfl, le_rfl, fun _ => rfl, ?_⟩
    exact fun c => ⟨[], Line.inv_init c⟩
  sound := Market.sound_init hsetup

/-- What waits is on the way. -/
theorem Refines.onTheWay (h : Refines setup traders waiting s) (c : ClientId) :
    (s.requestsOnTheWay c).Perm (waiting.filter fun r => r.clientId = c) := by
  obtain ⟨forwarded, as, hwired⟩ := h.wired
  have hsent := h.sound.sent c
  rw [List.filter_append] at hsent
  exact (List.perm_append_left_iff _).mp ((hwired.requests_perm c).trans hsent.symm)

/-- **A turn that the market does not see.** -/
theorem Refines.unseen (h : Refines setup traders waiting s) (hunseen : Unseen s s')
    (hwired : ∃ forwarded as, s'.Wired forwarded as) :
    s'.toMarket waiting = s.toMarket waiting ∧ Refines setup traders waiting s' := by
  have hsame : s'.toMarket waiting = s.toMarket waiting := by
    unfold toMarket
    rw [hunseen.exchange, hunseen.client, hunseen.updatesRead, hunseen.responsesRead]
  refine ⟨hsame, hwired, ?_⟩
  rw [hsame, hunseen.processed]
  exact h.sound

/-- A trade engine handles an input here if it does so in the market. -/
theorem handle_toMarket {input : Client.TradeEngine.Input}
    (hok : (s.toMarket waiting).handle c input = .ok t) :
    ∃ e waiting', (s.client c).step input = .ok e ∧
      s.handle c input = .ok { s with client := Function.update s.client c e } ∧
      t = toMarket { s with client := Function.update s.client c e } waiting' := by
  obtain ⟨e, hstep, hok⟩ := bind_eq_ok.mp hok
  refine ⟨e, _, hstep, ?_, (Except.ok.inj hok).symm⟩
  unfold handle
  rw [show (s.client c).step input = .ok e from hstep]
  rfl

theorem Refines.handled (h : Refines setup traders waiting s) (hsetup : setup.Staffed traders)
    {input : Client.TradeEngine.Input} {e : Client.TradeEngine D}
    (hstep : (s.client c).step input = .ok e) {updatesRead responsesRead : ClientId → Nat}
    (hsound : (toMarket { s with
      client := Function.update s.client c e
      updatesRead := updatesRead
      responsesRead := responsesRead } waiting').Sound setup traders s.processed) :
    Refines setup traders waiting' { s with
      client := Function.update s.client c e
      updatesRead := updatesRead
      responsesRead := responsesRead } := by
  obtain ⟨forwarded, as, hwired⟩ := h.wired
  refine ⟨⟨forwarded, as, hwired.handle hstep ?_ _ _⟩, hsound⟩
  intro r hr
  have hr : r ∈ (Function.update s.client c e c).outgoingRequests := by
    rwa [Function.update_self]
  obtain ⟨hclient, hc⟩ := hsound.own hr
  exact ⟨hclient, hsetup.ids c hc⟩

/-- The market that the wires carry. -/
def Shows (setup : Market.Setup D) (traders : Finset ClientId) (s : WiredMarket D) (t : Market D) : Prop :=
  ∃ waiting, t = s.toMarket waiting ∧ Refines setup traders waiting s

/-- Some turns of the market lead to what is shown. -/
def Matched (setup : Market.Setup D) (traders : Finset ClientId) (t : Market D) (s' : WiredMarket D) : Prop :=
  ∃ (turns : List Market.Turn) (t' : Market D),
    turns.foldlM Market.step t = .ok t' ∧ Shows setup traders s' t'

theorem Matched.of_unseen (h : Refines setup traders waiting s) (hunseen : Unseen s s')
    (hwired : ∃ forwarded as, s'.Wired forwarded as) : Matched setup traders (s.toMarket waiting) s' := by
  obtain ⟨hsame, hrefines⟩ := h.unseen hunseen hwired
  exact ⟨[], s.toMarket waiting, rfl, waiting, hsame.symm, hrefines⟩

theorem Matched.of_step (turn : Market.Turn)
    (hok : (s.toMarket waiting).step turn = .ok (s'.toMarket waiting'))
    (h : Refines setup traders waiting' s') : Matched setup traders (s.toMarket waiting) s' := by
  refine ⟨[turn], s'.toMarket waiting', ?_, waiting', rfl, h⟩
  rw [List.foldlM_cons, hok]
  rfl

theorem Refines.timer (h : Refines setup traders waiting s) (hsetup : setup.Staffed traders) (c : ClientId)
    (d : RandomTrader.Draw) :
    ∃ s', s.handle c (.timer d) = .ok s' ∧ Matched setup traders (s.toMarket waiting) s' := by
  obtain ⟨t, hok, hsound⟩ := h.sound.timer hsetup c d
  obtain ⟨e, waiting', hstep, hok', rfl⟩ := handle_toMarket hok
  exact ⟨_, hok', Matched.of_step (.timer c d) hok (h.handled hsetup hstep hsound)⟩

theorem Refines.readUpdate (h : Refines setup traders waiting s) (hsetup : setup.Staffed traders)
    (htime : InTime (s.incomingMarketUpdates c) (s.updatesRead c)) :
    ∃ s', s.readUpdate c = .ok s' ∧ Matched setup traders (s.toMarket waiting) s' := by
  unfold WiredMarket.readUpdate
  cases hread : nextRead (s.incomingMarketUpdates c) (s.updatesRead c) with
  | none => exact ⟨s, rfl, Matched.of_unseen h ⟨rfl, rfl, rfl, rfl, rfl⟩ h.wired⟩
  | some u =>
    have hu : (s.toMarket waiting).exchange.marketUpdates[(s.toMarket waiting).updatesRead c]? = some u :=
      getElem?_of_prefix (List.take_prefix _ _) (nextRead_eq htime hread)
    obtain ⟨t, hok, hsound⟩ := h.sound.readUpdate hsetup c
    have hturn := hok
    unfold Market.readUpdate at hok
    rw [hu] at hok
    obtain ⟨t', hhandle, hok⟩ := bind_eq_ok.mp hok
    obtain ⟨e, waiting', hstep, hok', rfl⟩ := handle_toMarket hhandle
    obtain rfl := Except.ok.inj hok
    exact ⟨_, bind_eq_ok.mpr ⟨_, hok', rfl⟩, Matched.of_step (.update c) hturn
      (h.handled hsetup hstep hsound)⟩

theorem Refines.readResponse (h : Refines setup traders waiting s) (hsetup : setup.Staffed traders)
    (htime : InTime (s.line c).gateway.incomingResponses (s.responsesRead c)) :
    ∃ s', s.readResponse c = .ok s' ∧ Matched setup traders (s.toMarket waiting) s' := by
  unfold WiredMarket.readResponse
  cases hread : nextRead (s.line c).gateway.incomingResponses (s.responsesRead c) with
  | none => exact ⟨s, rfl, Matched.of_unseen h ⟨rfl, rfl, rfl, rfl, rfl⟩ h.wired⟩
  | some x =>
    obtain ⟨forwarded, as, hwired⟩ := h.wired
    have hx : ((s.toMarket waiting).exchange.responses.filter fun x => x.clientId = c)[
        (s.toMarket waiting).responsesRead c]? = some x :=
      getElem?_of_prefix ⟨_, hwired.responses_eq c⟩ (nextRead_eq htime hread)
    obtain ⟨t, hok, hsound⟩ := h.sound.readResponse hsetup c
    have hturn := hok
    unfold Market.readResponse at hok
    rw [hx] at hok
    obtain ⟨t', hhandle, hok⟩ := bind_eq_ok.mp hok
    obtain ⟨e, waiting', hstep, hok', rfl⟩ := handle_toMarket hhandle
    obtain rfl := Except.ok.inj hok
    exact ⟨_, bind_eq_ok.mpr ⟨_, hok', rfl⟩, Matched.of_step (.response c) hturn
      (h.handled hsetup hstep hsound)⟩

theorem Refines.process (h : Refines setup traders waiting s) (hsetup : setup.Staffed traders)
    (htime : InTime s.server.fifoSequencer.incomingRequest s.requestsProcessed) :
    ∃ s', s.process = .ok s' ∧ Matched setup traders (s.toMarket waiting) s' := by
  unfold WiredMarket.process
  cases hread : nextRead s.server.fifoSequencer.incomingRequest s.requestsProcessed with
  | none => exact ⟨s, rfl, Matched.of_unseen h ⟨rfl, rfl, rfl, rfl, rfl⟩ h.wired⟩
  | some r =>
    have hr := nextRead_eq htime hread
    obtain ⟨forwarded, as, hwired⟩ := h.wired
    -- the request is on its way, and so it waits
    have hway : r ∈ s.requestsOnTheWay r.clientId := by
      apply List.mem_append_left
      apply List.mem_filter.mpr
      refine ⟨List.mem_append_left _ ?_, decide_eq_true rfl⟩
      obtain ⟨hlt, heq⟩ := List.getElem?_eq_some_iff.mp hr
      rw [List.drop_eq_getElem_cons hlt, heq]
      exact List.mem_cons_self
    have hwaits : r ∈ waiting := List.mem_of_mem_filter ((h.onTheWay r.clientId).subset hway)
    obtain ⟨i, hi⟩ := List.mem_iff_getElem?.mp hwaits
    obtain ⟨t, hok, hsound⟩ := h.sound.take hsetup (i := i) hi
    have hturn := hok
    unfold Market.processRequest at hok
    rw [show (s.toMarket waiting).waiting[i]? = some r from hi] at hok
    obtain ⟨m, hm, hok⟩ := bind_eq_ok.mp hok
    obtain rfl := Except.ok.inj hok
    refine ⟨_, bind_eq_ok.mpr ⟨m, hm, rfl⟩, Matched.of_step (.request i) hturn ⟨?_, ?_⟩⟩
    · exact ⟨forwarded, as, hwired.process hr hm⟩
    · unfold WiredMarket.processed
      rw [List.take_add_one, hr]
      exact hsound

/-- **Step lemma.** A turn that is permitted goes through, and the market keeps up with it. -/
theorem Refines.step (h : Refines setup traders waiting s) (hsetup : setup.Staffed traders)
    (hsort : FifoSequencer.Sorts sort) {turn : Turn} (hpermitted : s.Permitted turn) :
    ∃ s', s.step sort turn = .ok s' ∧ Matched setup traders (s.toMarket waiting) s' := by
  obtain ⟨forwarded, as, hwired⟩ := h.wired
  cases turn with
  | timer c d => exact h.timer hsetup c d
  | update c => exact h.readUpdate hsetup hpermitted
  | response c => exact h.readResponse hsetup hpermitted
  | deliver c =>
    refine ⟨_, rfl, ?_⟩
    unfold deliver
    split
    · exact Matched.of_unseen h ⟨rfl, rfl, rfl, rfl, rfl⟩ ⟨forwarded, as, hwired.own, hwired.queued,
        hwired.follows, hwired.processed, hwired.written, hwired.numbered, hwired.line⟩
    · exact Matched.of_unseen h ⟨rfl, rfl, rfl, rfl, rfl⟩ h.wired
  | writeRequest c =>
    obtain ⟨hwired', hunseen⟩ := hwired.writeRequest hpermitted
    exact ⟨_, rfl, Matched.of_unseen h hunseen ⟨forwarded, as, hwired'⟩⟩
  | receiveResponses c n =>
    exact ⟨_, rfl, Matched.of_unseen h (unseen_withLine _)
      ⟨forwarded, as, hwired.receiveResponses hpermitted⟩⟩
  | receiveRequests c n rxTime =>
    obtain ⟨s', hok, hunseen, hwired'⟩ := hwired.receiveRequests rxTime hpermitted
    exact ⟨s', hok, Matched.of_unseen h hunseen ⟨_, _, hwired'⟩⟩
  | publish =>
    refine ⟨_, rfl, Matched.of_unseen h ⟨rfl, rfl, rfl, rfl, ?_⟩ ⟨_, _, hwired.publish hsort⟩⟩
    show (s.server.fifoSequencer.sequenceAndPublish sort).incomingRequest.take s.requestsProcessed = _
    rw [FifoSequencer.sequenceAndPublish_incomingRequest hsort,
      List.take_append_of_le_length hwired.processed]
    rfl
  | writeResponse =>
    have hvalid := (h.sound.manageable hsetup (List.sublist_append_left _ _).subperm).valid
    obtain ⟨s', hok, hunseen, hwired'⟩ := hwired.writeResponse hpermitted fun x hx =>
      (MatchingEngine.processAll_responses hvalid h.sound.exchange x hx).2.1
    exact ⟨s', hok, Matched.of_unseen h hunseen ⟨forwarded, as, hwired'⟩⟩
  | process => exact h.process hsetup hpermitted

/-! ## Runs -/

variable {turns : List Turn}

/-- **The wired market is the market.** Every turn of a run goes through, and a run of the market leads to
the same exchange and the same trade engines. -/
theorem run_refines (hsetup : setup.Staffed traders) (hsort : FifoSequencer.Sorts sort)
    (hpermitted : AllSteps (step sort) (init setup) (fun _ => Permitted) turns) :
    ∃ s, turns.foldlM (step sort) (init setup) = .ok s ∧ Matched setup traders (.init setup) s := by
  have hinit : Shows setup traders (init setup) (.init setup) := ⟨[], rfl, refines_init hsetup⟩
  refine run_simulation hinit ?_ hpermitted
  rintro _ turn s _ ⟨waiting, rfl, h⟩ hpermitted
  exact h.step hsetup hsort hpermitted

/-- **The market goes on over its wires.** With at most 104 random traders no schedule stops the exchange, the
order server or a client, as long as the rings are read in time. Whatever a client has read, its books list
the orders that are live by it; once it has read all updates, these are the orders that rest in the exchange.
Market makers and liquidity takers never send anything. -/
theorem run_goes_on (hsetup : setup.Staffed traders) (hsort : FifoSequencer.Sorts sort)
    (hpermitted : AllSteps (step sort) (init setup) (fun _ => Permitted) turns) :
    ∃ s, turns.foldlM (step sort) (init setup) = .ok s ∧ ∀ c,
      (∀ t, Client.MarketOrderBook.ListsLive ((s.client c).tickerOrderBook t)
        (liveOrders (updatesOf t (s.exchange.marketUpdates.take (s.updatesRead c))))) ∧
      (s.updatesRead c = s.exchange.marketUpdates.length → ∀ t,
        ((liveOrders (updatesOf t (s.exchange.marketUpdates.take (s.updatesRead c)))).map
          Client.LiveOrder.ident).Perm
            ((s.exchange.tickerOrderBook t).resting.map fun o => (o.marketOrderId, o.side, o.price))) ∧
      (setup.algoType c ≠ .random → (s.client c).outgoingRequests = []) := by
  obtain ⟨s, hrun, turns', _, hrun', waiting, rfl, -⟩ := run_refines hsetup hsort hpermitted
  exact ⟨s, hrun, Market.books_of_run hsetup hrun'⟩

instance decidablePermitted (s : WiredMarket D) : DecidablePred s.Permitted
  | .update _ => inferInstanceAs (Decidable (_ - _ ≤ _))
  | .response _ => inferInstanceAs (Decidable (_ - _ ≤ _))
  | .writeRequest _ => inferInstanceAs (Decidable (_ - _ ≤ _))
  | .receiveResponses _ _ => inferInstanceAs (Decidable (_ = _))
  | .receiveRequests _ _ _ => inferInstanceAs (Decidable (_ ≤ _))
  | .writeResponse => inferInstanceAs (Decidable (_ - _ ≤ _))
  | .process => inferInstanceAs (Decidable (_ - _ ≤ _))
  | .timer _ _ => isTrue trivial
  | .deliver _ => isTrue trivial
  | .publish => isTrue trivial

/-- Two random traders, and a market maker. -/
def smallSetup : Market.Setup Int where
  algoType := fun c => if c = 1 ∨ c = 2 then .random else if c = 3 then .maker else .invalid
  tickerCfg := fun _ _ => ⟨10, 0, 100, 100, 0⟩
  featureInvalid := 0
  now := fun _ => 0
  rand := fun _ _ => 0

/-- The draws of a call after the first ten seconds. -/
def afterStart : RandomTrader.Draw where
  now := 11 * nanosToSecs
  later := 11 * nanosToSecs
  ticker := 0
  price := 0
  qty := 0
  side := 0
  cancelIndex := 0

theorem staffed_smallSetup : smallSetup.Staffed {1, 2} where
  random := by
    intro c
    unfold smallSetup
    dsimp only
    rw [Finset.mem_insert, Finset.mem_singleton]
    split
    · next h => simp [h]
    · next h => split <;> simp [h]
  ids := by
    intro c hc
    rw [Finset.mem_insert, Finset.mem_singleton] at hc
    rcases hc with rfl | rfl <;> decide
  few := Finset.card_le_two.trans (by decide)

/-- Both traders send an order, of which the first comes in two pieces and later than the second. The
exchange takes the second, its client reads the answer, and the market maker hears of it. -/
def twoOrders : List Turn :=
  [.timer 1 afterStart, .timer 2 afterStart, .writeRequest 1, .writeRequest 2,
    .receiveRequests 1 20 0, .receiveRequests 2 1000 5, .receiveRequests 1 1000 6, .publish,
    .process, .writeResponse, .deliver 3, .update 3, .receiveResponses 2 1000, .response 2]

theorem permitted_twoOrders :
    AllSteps (step FifoSequencer.sortByTime) (init smallSetup) (fun _ => Permitted) twoOrders :=
  AllSteps.of_check (by decide +kernel)

theorem run_goes_on_twoOrders :
    ∃ s, twoOrders.foldlM (step FifoSequencer.sortByTime) (init smallSetup) = .ok s ∧ ∀ c,
      (∀ t, Client.MarketOrderBook.ListsLive ((s.client c).tickerOrderBook t)
        (liveOrders (updatesOf t (s.exchange.marketUpdates.take (s.updatesRead c))))) ∧
      (s.updatesRead c = s.exchange.marketUpdates.length → ∀ t,
        ((liveOrders (updatesOf t (s.exchange.marketUpdates.take (s.updatesRead c)))).map
          Client.LiveOrder.ident).Perm
            ((s.exchange.tickerOrderBook t).resting.map fun o => (o.marketOrderId, o.side, o.price))) ∧
      (smallSetup.algoType c ≠ .random → (s.client c).outgoingRequests = []) :=
  run_goes_on staffed_smallSetup FifoSequencer.sorts_sortByTime permitted_twoOrders

/-- **No request and no response is lost or doubled.** At any time the requests that a client has sent are
those that the exchange has answered, each once, and those that are on their way; and the responses to it, in
order, are those that its gateway has handed on and those that are on their way. -/
theorem run_answered (hsetup : setup.Staffed traders) (hsort : FifoSequencer.Sorts sort)
    (hpermitted : AllSteps (step sort) (init setup) (fun _ => Permitted) turns) :
    ∃ s, turns.foldlM (step sort) (init setup) = .ok s ∧ ∀ c,
      (∃ answered : List MEClientRequest,
        List.Forall₂ Answers (answersIn (s.exchange.responses.filter fun x => x.clientId = c)) answered ∧
        (answered ++ s.requestsOnTheWay c).Perm (s.client c).outgoingRequests) ∧
      (s.line c).gateway.incomingResponses ++ s.responsesOnTheWay c =
        s.exchange.responses.filter fun x => x.clientId = c := by
  obtain ⟨s, hrun, turns', _, hrun', waiting, rfl, hrefines⟩ := run_refines hsetup hsort hpermitted
  obtain ⟨forwarded, as, hwired⟩ := hrefines.wired
  refine ⟨s, hrun, fun c => ⟨?_, hwired.responses_eq c⟩⟩
  obtain ⟨answered, hanswered, hsent⟩ := Market.answers_of_run hsetup hrun' c
  exact ⟨answered, hanswered, ((hrefines.onTheWay c).append_left answered).trans hsent⟩

theorem run_answered_twoOrders :
    ∃ s, twoOrders.foldlM (step FifoSequencer.sortByTime) (init smallSetup) = .ok s ∧ ∀ c,
      (∃ answered : List MEClientRequest,
        List.Forall₂ Answers (answersIn (s.exchange.responses.filter fun x => x.clientId = c)) answered ∧
        (answered ++ s.requestsOnTheWay c).Perm (s.client c).outgoingRequests) ∧
      (s.line c).gateway.incomingResponses ++ s.responsesOnTheWay c =
        s.exchange.responses.filter fun x => x.clientId = c :=
  run_answered staffed_smallSetup FifoSequencer.sorts_sortByTime permitted_twoOrders

end

end WiredMarket

end TradingSystem
