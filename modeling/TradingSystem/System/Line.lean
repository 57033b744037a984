import TradingSystem.Lib.Connection
import TradingSystem.System.ResponsePath

/-!
# The connection between a client's gateway and the order server

The gateway numbers the requests of its trade engine and writes them to the connection; the server numbers
the responses to the client and writes them. Each side reads bytes in pieces that end anywhere. What holds
between the four steps is `Line.Inv`.
-/

namespace TradingSystem

/-- The connection of a client, and its gateway. -/
structure Line where
  gateway : OrderGateway
  /-- how many of the requests of the trade engine are written -/
  requestsWritten : Nat
  /-- the bytes that the server has not read, and its receive buffer -/
  requestBytes : List UInt8
  requestBuffer : List UInt8
  /-- the bytes that the gateway has not read, and its receive buffer -/
  responseBytes : List UInt8
  responseBuffer : List UInt8

namespace Line

def init (c : ClientId) : Line := ⟨.init c, 0, [], [], [], []⟩

/-- The receive buffer of the server once it has read `n` bytes. -/
def readRequests (l : Line) (n : Nat) : List UInt8 := l.requestBuffer ++ l.requestBytes.take n

/-- The receive buffer of the gateway once it has read `n` bytes. -/
def readResponses (l : Line) (n : Nat) : List UInt8 := l.responseBuffer ++ l.responseBytes.take n

def writeRequest (l : Line) (clientRequest : MEClientRequest) : Line :=
  let (gateway, bytes) := l.gateway.writeRequest clientRequest
  { l with
    gateway := gateway
    requestsWritten := l.requestsWritten + 1
    requestBytes := l.requestBytes ++ bytes }

/-- `left` is what the callback of the server leaves in its buffer. -/
def receiveRequests (l : Line) (n : Nat) (left : List UInt8) : Line :=
  { l with requestBytes := l.requestBytes.drop n, requestBuffer := left }

def writeResponse (l : Line) (bytes : List UInt8) : Line :=
  { l with responseBytes := l.responseBytes ++ bytes }

def receiveResponses (l : Line) (n : Nat) : Line :=
  let (gateway, left) := l.gateway.recvCallback (l.readResponses n)
  { l with gateway := gateway, responseBytes := l.responseBytes.drop n, responseBuffer := left }

/-! ## What a connection carries -/

/-- Requests as they are written, numbered one after the other. -/
def numberedRequests (rs : List MEClientRequest) : List OGClientRequest :=
  (numberFrom 1 rs).map fun e => ⟨e.1, e.2⟩

def numberedResponses (xs : List MEClientResponse) : List OGClientResponse :=
  (numberFrom 1 xs).map fun e => ⟨e.1, e.2⟩

theorem numberedRequests_concat (rs : List MEClientRequest) (r : MEClientRequest) :
    numberedRequests (rs ++ [r]) = numberedRequests rs ++ [⟨1 + UInt64.ofNat rs.length, r⟩] := by
  rw [numberedRequests, numberFrom_append, List.map_append]
  rfl

theorem numberedResponses_concat (xs : List MEClientResponse) (x : MEClientResponse) :
    numberedResponses (xs ++ [x]) = numberedResponses xs ++ [⟨1 + UInt64.ofNat xs.length, x⟩] := by
  rw [numberedResponses, numberFrom_append, List.map_append]
  rfl

theorem numberedRequests_values (rs : List MEClientRequest) :
    (numberedRequests rs).map OGClientRequest.meClientRequest = rs := by
  rw [numberedRequests, List.map_map]
  exact numberFrom_values

theorem numberedResponses_values (xs : List MEClientResponse) :
    (numberedResponses xs).map OGClientResponse.meClientResponse = xs := by
  rw [numberedResponses, List.map_map]
  exact numberFrom_values

/-- The gateway of a client that has written `k` requests and read the responses `got`. -/
def gatewayAfter (c : ClientId) (k : Nat) (got : List OGClientResponse) : OrderGateway :=
  { got.foldl OrderGateway.readResponse (.init c) with nextOutgoingSeqNum := 1 + UInt64.ofNat k }

/-- The connection of a client: its trade engine has sent the requests `outgoing`, of which the server has
read those in `arrived`, and the server has written `responses`, of which the gateway has read `got`. -/
structure Inv (l : Line) (c : ClientId) (outgoing : List MEClientRequest) (arrived : List OGClientRequest)
    (responses : List MEClientResponse) (got : List OGClientResponse) : Prop where
  written : l.requestsWritten ≤ outgoing.length
  requests : OGClientRequest.codec.Carries (numberedRequests (outgoing.take l.requestsWritten)) arrived
    (l.requestBuffer ++ l.requestBytes)
  responses : OGClientResponse.codec.Carries (numberedResponses responses) got
    (l.responseBuffer ++ l.responseBytes)
  gateway : l.gateway = gatewayAfter c l.requestsWritten got

variable {l : Line} {c : ClientId} {outgoing outgoing' : List MEClientRequest} {arrived : List OGClientRequest}
  {responses : List MEClientResponse} {got : List OGClientResponse}

theorem inv_init (c : ClientId) : (init c).Inv c [] [] [] [] :=
  ⟨le_rfl, Codec.carries_nil, Codec.carries_nil, rfl⟩

/-- The trade engine sends more. -/
theorem Inv.grow (h : l.Inv c outgoing arrived responses got) (hgrow : outgoing <+: outgoing') :
    l.Inv c outgoing' arrived responses got := by
  obtain ⟨more, rfl⟩ := hgrow
  refine ⟨?_, ?_, h.responses, h.gateway⟩
  · rw [List.length_append]
    exact Nat.le_add_right_of_le h.written
  · rw [List.take_append_of_le_length h.written]
    exact h.requests

theorem writeRequest_gatewayAfter (c : ClientId) (k : Nat) (got : List OGClientResponse) (r : MEClientRequest) :
    (gatewayAfter c k got).writeRequest r =
      (gatewayAfter c (k + 1) got, OGClientRequest.codec.encode ⟨1 + UInt64.ofNat k, r⟩) := by
  unfold OrderGateway.writeRequest gatewayAfter
  rw [UInt64.ofNat_add, ← add_assoc]
  rfl

/-- Reading a response has nothing to do with the requests. -/
theorem readResponse_outgoing (g : OrderGateway) (k : UInt64) (m : OGClientResponse) :
    OrderGateway.readResponse { g with nextOutgoingSeqNum := k } m =
      { g.readResponse m with nextOutgoingSeqNum := k } := by
  unfold OrderGateway.readResponse
  split
  · rfl
  · split <;> rfl

theorem foldl_gatewayAfter (c : ClientId) (k : Nat) (got ms : List OGClientResponse) :
    ms.foldl OrderGateway.readResponse (gatewayAfter c k got) = gatewayAfter c k (got ++ ms) := by
  induction ms generalizing got with
  | nil => rw [List.append_nil, List.foldl_nil]
  | cons m ms ih =>
    rw [List.foldl_cons, List.append_cons, ← ih]
    unfold gatewayAfter
    rw [readResponse_outgoing, List.foldl_append]
    rfl

theorem Inv.writeRequest (h : l.Inv c outgoing arrived responses got) {r : MEClientRequest}
    (hr : outgoing[l.requestsWritten]? = some r) :
    (l.writeRequest r).Inv c outgoing arrived responses got := by
  have hline : l.writeRequest r = { l with
      gateway := gatewayAfter c (l.requestsWritten + 1) got
      requestsWritten := l.requestsWritten + 1
      requestBytes := l.requestBytes ++
        OGClientRequest.codec.encode ⟨1 + UInt64.ofNat l.requestsWritten, r⟩ } := by
    unfold Line.writeRequest
    rw [h.gateway, writeRequest_gatewayAfter]
  rw [hline]
  refine ⟨(List.getElem?_eq_some_iff.mp hr).1, ?_, h.responses, rfl⟩
  have hcarries := h.requests.send [⟨1 + UInt64.ofNat l.requestsWritten, r⟩]
  rw [Codec.pack_singleton, List.append_assoc] at hcarries
  show OGClientRequest.codec.Carries (numberedRequests (outgoing.take (l.requestsWritten + 1))) arrived _
  rw [List.take_add_one, hr, Option.toList_some, numberedRequests_concat, List.length_take_of_le h.written]
  exact hcarries

/-- The server reads. -/
theorem Inv.receiveRequests (h : l.Inv c outgoing arrived responses got) (n : Nat) :
    (l.receiveRequests n (rest OGClientRequest.codec.size (l.readRequests n))).Inv c outgoing
      (arrived ++ OGClientRequest.codec.unpack (l.readRequests n)) responses got :=
  ⟨h.written, h.requests.receive (by decide) n, h.responses, h.gateway⟩

theorem Inv.writeResponse (h : l.Inv c outgoing arrived responses got) (x : MEClientResponse) :
    (l.writeResponse (OGClientResponse.codec.encode ⟨1 + UInt64.ofNat responses.length, x⟩)).Inv c outgoing
      arrived (responses ++ [x]) got := by
  refine ⟨h.written, h.requests, ?_, h.gateway⟩
  have hcarries := h.responses.send [⟨1 + UInt64.ofNat responses.length, x⟩]
  rw [Codec.pack_singleton, List.append_assoc] at hcarries
  rw [numberedResponses_concat]
  exact hcarries

/-- The gateway reads, and leaves in its buffer what it has not read. -/
theorem Inv.receiveResponses (h : l.Inv c outgoing arrived responses got) {n : Nat}
    (hkeeps : (l.gateway.recvCallback (l.readResponses n)).2 =
      rest OGClientResponse.codec.size (l.readResponses n)) :
    (l.receiveResponses n).Inv c outgoing arrived responses
      (got ++ OGClientResponse.codec.unpack (l.readResponses n)) := by
  refine ⟨h.written, h.requests, ?_, ?_⟩
  · show OGClientResponse.codec.Carries _ _
      ((l.gateway.recvCallback (l.readResponses n)).2 ++ l.responseBytes.drop n)
    rw [hkeeps]
    exact h.responses.receive (by decide) n
  · show (l.gateway.recvCallback (l.readResponses n)).1 = _
    rw [OrderGateway.recvCallback_responses, h.gateway]
    exact foldl_gatewayAfter c _ got _

/-- **What the gateway has handed on** is what it has read. -/
theorem Inv.incomingResponses (h : l.Inv c outgoing arrived responses got)
    (hresponses : ∀ x ∈ responses, x.clientId = c) :
    l.gateway.incomingResponses = got.map OGClientResponse.meClientResponse := by
  obtain ⟨left, hsent, -⟩ := h.responses
  have hall : (got.filter fun m => m.meClientResponse.clientId = c) = got := by
    apply List.filter_eq_self.mpr
    intro m hm
    apply decide_eq_true
    apply hresponses
    rw [← numberedResponses_values responses, hsent]
    exact List.mem_map_of_mem (List.mem_append_left _ hm)
  rw [h.gateway]
  show (got.foldl OrderGateway.readResponse (.init c)).incomingResponses = _
  rw [OrderGateway.readResponses_incoming]
  show [] ++ (taken OGClientResponse.seqNum 1
    (got.filter fun m => m.meClientResponse.clientId = c)).map _ = _
  rw [hall, List.nil_append]
  congr 1
  apply taken_of_append _ hsent
  exact fun _ => rfl

end Line

end TradingSystem
