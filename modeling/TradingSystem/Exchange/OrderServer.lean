import TradingSystem.Lib.Framing
import TradingSystem.Exchange.FifoSequencer
import TradingSystem.Exchange.MessageCodec

/-!
# `OrderServer`: requests from many sockets, responses to their clients

`exchange/order_server.hpp` and `exchange/order_server.cpp`. The server reads requests from its sockets,
checks for each client that they come from one socket and are numbered one after the other, and hands
them to the sequencer. It writes each response to the socket of its client, numbered for this client.

The type `σ` of the sockets is a parameter; what the server does with a socket is to compare it with
another.
-/

namespace TradingSystem

structure OrderServer (σ : Type) where
  cidToSocket : ClientId → Option σ
  /-- the sequence number of the next response to each client -/
  cidNextOutgoingSeqNum : ClientId → UInt64
  /-- the sequence number expected of the next request of each client -/
  cidNextExpSeqNum : ClientId → UInt64
  fifoSequencer : FifoSequencer

namespace OrderServer

variable {σ : Type} [DecidableEq σ]

/-- The constructor. -/
def init : OrderServer σ where
  cidToSocket := fun _ => none
  cidNextOutgoingSeqNum := fun _ => 1
  cidNextExpSeqNum := fun _ => 1
  fifoSequencer := FifoSequencer.init

/-- The first request of a client binds it to the socket. -/
def bindSocket (server : OrderServer σ) (clientId : ClientId) (socket : σ) : OrderServer σ :=
  if server.cidToSocket clientId = none then
    { server with cidToSocket := Function.update server.cidToSocket clientId (some socket) }
  else server

/-- One pass of the loop in `recvCallbacks`. The tables do not check their index. -/
def readRequest (socket : σ) (rxTime : Nanos) (server : OrderServer σ) (request : OGClientRequest) :
    Except Fault (OrderServer σ) :=
  let clientId := request.meClientRequest.clientId
  if clientId.toNat < meMaxNumClients then
    let server := server.bindSocket clientId socket
    if server.cidToSocket clientId ≠ some socket then .ok server
    else if server.cidNextExpSeqNum clientId ≠ request.seqNum then .ok server
    else do
      let fifoSequencer ← server.fifoSequencer.addClientRequest rxTime request.meClientRequest
      return { server with
        cidNextExpSeqNum := Function.update server.cidNextExpSeqNum clientId
          (server.cidNextExpSeqNum clientId + 1)
        fifoSequencer := fifoSequencer }
  else .error .outOfBounds

/-- Read the complete requests in the receive buffer of a socket. What is left in the buffer is
returned with the server. -/
def recvCallbacks (server : OrderServer σ) (socket : σ) (rxTime : Nanos) (recvBuffer : List UInt8) :
    Except Fault (OrderServer σ × List UInt8) :=
  if recvBuffer.length < OGClientRequest.codec.size then .ok (server, recvBuffer)
  else do
    let requests := (frames OGClientRequest.codec.size recvBuffer).map OGClientRequest.codec.decode
    let server ← requests.foldlM (readRequest socket rxTime) server
    -- the `memmove` to the front, by the length of the requests read
    let i := recvBuffer.length / OGClientRequest.codec.size * OGClientRequest.codec.size
    return (server, recvBuffer.drop i)

def recvFinishedCallbacks (sort : List RecvTimeClientRequest → List RecvTimeClientRequest)
    (server : OrderServer σ) : OrderServer σ :=
  { server with fifoSequencer := server.fifoSequencer.sequenceAndPublish sort }

/-- One pass of the loop over the responses in `run`: the socket that the response is written to is
returned with the server, and the bytes passed to its `send`. -/
def writeResponse (server : OrderServer σ) (clientResponse : MEClientResponse) :
    Except Fault (OrderServer σ × σ × List UInt8) :=
  let clientId := clientResponse.clientId
  if clientId.toNat < meMaxNumClients then
    match server.cidToSocket clientId with
    | none => .error .assertion
    | some socket =>
      let nextOutgoingSeqNum := server.cidNextOutgoingSeqNum clientId
      .ok ({ server with
          cidNextOutgoingSeqNum :=
            Function.update server.cidNextOutgoingSeqNum clientId (nextOutgoingSeqNum + 1) },
        socket,
        Codec.uint64.encode nextOutgoingSeqNum ++ MEClientResponse.codec.encode clientResponse)
  else .error .outOfBounds

/-! ## What reading a request does -/

/-- A request that is passed on to the sequencer: it is on the socket of its client, which is this one if
the client had none, and it has the number expected. -/
def Due (server : OrderServer σ) (socket : σ) (request : OGClientRequest) : Prop :=
  (server.bindSocket request.meClientRequest.clientId socket).cidToSocket
      request.meClientRequest.clientId = some socket ∧
    request.seqNum = server.cidNextExpSeqNum request.meClientRequest.clientId

/-- The server once it has passed a request on. -/
def advance (server : OrderServer σ) (socket : σ) (request : OGClientRequest)
    (fifoSequencer : FifoSequencer) : OrderServer σ :=
  { server.bindSocket request.meClientRequest.clientId socket with
    cidNextExpSeqNum := Function.update server.cidNextExpSeqNum request.meClientRequest.clientId
      (server.cidNextExpSeqNum request.meClientRequest.clientId + 1)
    fifoSequencer := fifoSequencer }

variable {server : OrderServer σ} {socket : σ} {rxTime : Nanos} {request : OGClientRequest} {c : ClientId}

omit [DecidableEq σ] in
theorem bindSocket_cidToSocket (server : OrderServer σ) (clientId : ClientId) (socket : σ) (c : ClientId) :
    (server.bindSocket clientId socket).cidToSocket c =
      (server.cidToSocket c).or (if clientId = c then some socket else none) := by
  unfold bindSocket
  split
  · next hnone =>
    dsimp only
    by_cases hc : clientId = c
    · subst hc
      rw [Function.update_self, hnone, if_pos rfl, Option.none_or]
    · rw [Function.update_of_ne (Ne.symm hc), if_neg hc, Option.or_none]
  · next hsome =>
    by_cases hc : clientId = c
    · subst hc
      obtain ⟨s, hs⟩ := Option.ne_none_iff_exists'.mp hsome
      rw [hs, Option.some_or]
    · rw [if_neg hc, Option.or_none]

omit [DecidableEq σ] in
theorem bindSocket_outgoing :
    (server.bindSocket c socket).cidNextOutgoingSeqNum = server.cidNextOutgoingSeqNum := by
  unfold bindSocket
  split <;> rfl

omit [DecidableEq σ] in
theorem bindSocket_expected :
    (server.bindSocket c socket).cidNextExpSeqNum = server.cidNextExpSeqNum := by
  unfold bindSocket
  split <;> rfl

omit [DecidableEq σ] in
theorem bindSocket_sequencer :
    (server.bindSocket c socket).fifoSequencer = server.fifoSequencer := by
  unfold bindSocket
  split <;> rfl

omit [DecidableEq σ] in
theorem advance_expected (fifoSequencer : FifoSequencer) :
    (server.advance socket request fifoSequencer).cidNextExpSeqNum =
      Function.update server.cidNextExpSeqNum request.meClientRequest.clientId
        (server.cidNextExpSeqNum request.meClientRequest.clientId + 1) := rfl

theorem readRequest_outOfBounds (h : ¬ request.meClientRequest.clientId.toNat < meMaxNumClients) :
    server.readRequest socket rxTime request = .error .outOfBounds := if_neg h

theorem readRequest_of_due (hid : request.meClientRequest.clientId.toNat < meMaxNumClients)
    (hdue : server.Due socket request) :
    server.readRequest socket rxTime request =
      (server.fifoSequencer.addClientRequest rxTime request.meClientRequest).map
        (server.advance socket request) := by
  unfold readRequest
  dsimp only
  rw [if_pos hid, if_neg (not_not_intro hdue.1), bindSocket_expected,
    if_neg (not_not_intro hdue.2.symm), bindSocket_sequencer]
  cases server.fifoSequencer.addClientRequest rxTime request.meClientRequest <;> rfl

/-- Any other request at most binds its client to the socket. -/
theorem readRequest_of_not_due (hid : request.meClientRequest.clientId.toNat < meMaxNumClients)
    (hdue : ¬ server.Due socket request) :
    server.readRequest socket rxTime request =
      .ok (server.bindSocket request.meClientRequest.clientId socket) := by
  unfold readRequest
  dsimp only
  rw [if_pos hid]
  split
  · rfl
  · next hsocket =>
    rw [bindSocket_expected, if_pos]
    exact fun hseq => hdue ⟨not_not.mp hsocket, hseq.symm⟩

/-! ## The server and its sockets -/

/-- Bytes that were read from a socket. -/
structure Chunk (σ : Type) where
  socket : σ
  rxTime : Nanos
  bytes : List UInt8

/-- The server, what is in the receive buffer of each socket, and what has gone through. -/
structure Connections (σ : Type) where
  server : OrderServer σ
  recvBuffer : σ → List UInt8
  /-- the requests passed to `addClientRequest`, oldest first -/
  forwarded : List MEClientRequest
  /-- the bytes passed to `send` of each socket -/
  sent : σ → List UInt8

namespace Connections

def init : Connections σ where
  server := OrderServer.init
  recvBuffer := fun _ => []
  forwarded := []
  sent := fun _ => []

/-- A chunk is read into the buffer of its socket, the server called, and the sequencer flushed. -/
def receive (sort : List RecvTimeClientRequest → List RecvTimeClientRequest) (n : Connections σ)
    (chunk : Chunk σ) : Except Fault (Connections σ) := do
  let (server, left) ← n.server.recvCallbacks chunk.socket chunk.rxTime
    (n.recvBuffer chunk.socket ++ chunk.bytes)
  return { n with
    server := server.recvFinishedCallbacks sort
    recvBuffer := Function.update n.recvBuffer chunk.socket left
    forwarded :=
      n.forwarded ++ server.fifoSequencer.pendingClientRequests.map RecvTimeClientRequest.request }

def respond (n : Connections σ) (clientResponse : MEClientResponse) :
    Except Fault (Connections σ) := do
  let (server, socket, bytes) ← n.server.writeResponse clientResponse
  return { n with
    server := server
    sent := Function.update n.sent socket (n.sent socket ++ bytes) }

end Connections

end OrderServer

end TradingSystem
