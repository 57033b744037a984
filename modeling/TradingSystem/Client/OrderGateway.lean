import TradingSystem.Lib.Framing
import TradingSystem.Lib.Numbering
import TradingSystem.Exchange.MessageCodec
import TradingSystem.Networking.TCPSocket

/-!
# `OrderGateway`: the client's side of the connection to the order server

`client/order_gateway.hpp` and `client/order_gateway.cpp`. The gateway numbers the requests of the trade
engine and writes them to the socket. It reads the responses from the receive buffer and hands those to
the trade engine that are for this client and have the number expected next.
-/

namespace TradingSystem

structure OrderGateway where
  clientId : ClientId
  /-- what went into `incoming_responses_`, oldest first -/
  incomingResponses : List MEClientResponse
  nextOutgoingSeqNum : UInt64
  nextIncomingSeqNum : UInt64

namespace OrderGateway

/-- The constructor. -/
def init (clientId : ClientId) : OrderGateway where
  clientId := clientId
  incomingResponses := []
  nextOutgoingSeqNum := 1
  nextIncomingSeqNum := 1

/-- One pass of the loop in `run`. The bytes passed to `send` are returned with the gateway. -/
def writeRequest (g : OrderGateway) (clientRequest : MEClientRequest) : OrderGateway × List UInt8 :=
  ({ g with nextOutgoingSeqNum := g.nextOutgoingSeqNum + 1 },
    Codec.uint64.encode g.nextOutgoingSeqNum ++ MEClientRequest.codec.encode clientRequest)

/-- The loop in `run`. -/
def writeRequests (g : OrderGateway) : List MEClientRequest → OrderGateway × List UInt8
  | [] => (g, [])
  | clientRequest :: clientRequests =>
    let (g, bytes) := g.writeRequest clientRequest
    let (g, bytes') := g.writeRequests clientRequests
    (g, bytes ++ bytes')

/-- One pass of the loop in `recvCallback`. -/
def readResponse (g : OrderGateway) (response : OGClientResponse) : OrderGateway :=
  if response.meClientResponse.clientId ≠ g.clientId then g
  else if response.seqNum ≠ g.nextIncomingSeqNum then g
  else { g with
    nextIncomingSeqNum := g.nextIncomingSeqNum + 1
    incomingResponses := g.incomingResponses ++ [response.meClientResponse] }

/-- Read the complete responses in the receive buffer. What is left in the buffer is returned with the
gateway. -/
def recvCallback (g : OrderGateway) (recvBuffer : List UInt8) : OrderGateway × List UInt8 :=
  if OGClientResponse.codec.size ≤ recvBuffer.length then
    let responses := (frames OGClientResponse.codec.size recvBuffer).map OGClientResponse.codec.decode
    let i := recvBuffer.length / OGClientResponse.codec.size * OGClientResponse.codec.size
    -- the `memmove` to the front is from the second byte of the buffer, not from the one at `i`
    (responses.foldl readResponse g, (recvBuffer.drop 1).take (recvBuffer.length - i))
  else (g, recvBuffer)

/-- A chunk is read into the receive buffer, and the callback called. -/
def receive (s : OrderGateway × List UInt8) (chunk : List UInt8) : OrderGateway × List UInt8 :=
  s.1.recvCallback (s.2 ++ chunk)

variable {g : OrderGateway} {s : TCPSocket} {chunk : List UInt8}

/-- `receive` is what becomes of the gateway and the receive buffer in `TCPSocket::sendAndRecv`. -/
theorem sendAndRecv_receive (hchunk : chunk ≠ []) (rxTime : Nanos) (n : ℤ) :
    (s.sendAndRecv (fun g recvBuffer _ => .ok (g.recvCallback recvBuffer)) g chunk rxTime n).map
        (fun r => (r.1, r.2.1.recvBuffer)) =
      .ok (receive (g, s.recvBuffer) chunk) := by
  unfold TCPSocket.sendAndRecv
  rw [if_pos (List.length_pos_iff.mpr hchunk)]
  rfl

/-- What `run` writes: the requests numbered one after the other. -/
theorem writeRequests_bytes (g : OrderGateway) (clientRequests : List MEClientRequest) :
    (g.writeRequests clientRequests).2 =
      ((numberFrom g.nextOutgoingSeqNum clientRequests).map fun e =>
        OGClientRequest.codec.encode ⟨e.1, e.2⟩).flatten := by
  induction clientRequests generalizing g with
  | nil => rfl
  | cons r rs ih =>
    rw [numberFrom_cons, List.map_cons, List.flatten_cons]
    show _ ++ ((g.writeRequest r).1.writeRequests rs).2 = _
    rw [ih]
    rfl

end OrderGateway

end TradingSystem
