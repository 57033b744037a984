import TradingSystem.Lib.Numbering
import TradingSystem.Client.OrderGateway
import TradingSystem.Exchange.OrderServer

/-!
# The responses of a client, from the order server to its gateway

The bytes that the server writes to the socket of a client are the responses, numbered for this client
(`run_written`), whatever else the server reads and writes in the meantime. The gateway receives them in
chunks that may end anywhere.

After the complete responses are read, the gateway moves the bytes from the second one on to the front
of its buffer, as many as are left over, where those of the incomplete response are meant. The responses
arrive exactly once if and only if this makes no difference at any chunk (`receive_delivered_iff`):
`Intact` compares the bytes of the stream.
-/

namespace TradingSystem

/-! ## What the server writes -/

namespace OrderServer

variable {σ : Type} [DecidableEq σ]

/-- What the server does next. -/
inductive Input (σ : Type) where
  | received (chunk : Chunk σ)
  | response (clientResponse : MEClientResponse)

namespace Connections

def step (sort : List RecvTimeClientRequest → List RecvTimeClientRequest) (n : Connections σ) :
    Input σ → Except Fault (Connections σ)
  | .received chunk => n.receive sort chunk
  | .response clientResponse => n.respond clientResponse

end Connections

/-- The responses to a client. -/
def responsesTo (inputs : List (Input σ)) (c : ClientId) : List MEClientResponse :=
  inputs.filterMap fun
    | .received _ => none
    | .response clientResponse =>
      if clientResponse.clientId = c then some clientResponse else none

variable {server server' : OrderServer σ} {n n' : Connections σ} {inputs : List (Input σ)}
  {input : Input σ} {c : ClientId} {s : σ}
  {sort : List RecvTimeClientRequest → List RecvTimeClientRequest}

/-- A client that is bound stays so, and nothing is written. -/
structure Keeps (server server' : OrderServer σ) : Prop where
  socket : ∀ c s, server.cidToSocket c = some s → server'.cidToSocket c = some s
  outgoing : server'.cidNextOutgoingSeqNum = server.cidNextOutgoingSeqNum

omit [DecidableEq σ] in
theorem keeps_bindSocket (server : OrderServer σ) (c : ClientId) (s : σ) :
    Keeps server (server.bindSocket c s) where
  socket := by
    intro c' s' hs
    rw [bindSocket_cidToSocket, hs, Option.some_or]
  outgoing := bindSocket_outgoing

theorem keeps_readRequest {rxTime : Nanos} {request : OGClientRequest}
    (hok : server.readRequest s rxTime request = .ok server') : Keeps server server' := by
  have hbind := keeps_bindSocket server request.meClientRequest.clientId s
  by_cases hid : request.meClientRequest.clientId.toNat < meMaxNumClients
  · by_cases hdue : server.Due s request
    · rw [readRequest_of_due hid hdue] at hok
      obtain ⟨fifoSequencer, -, rfl⟩ := exists_of_map_eq_ok hok
      exact ⟨hbind.socket, hbind.outgoing⟩
    · rw [readRequest_of_not_due hid hdue] at hok
      obtain rfl := Except.ok.inj hok
      exact hbind
  · rw [readRequest_outOfBounds hid] at hok
    cases hok

theorem keeps_readRequests {rxTime : Nanos} {requests : List OGClientRequest}
    (hok : requests.foldlM (readRequest s rxTime) server = .ok server') : Keeps server server' := by
  induction requests generalizing server with
  | nil =>
    obtain rfl := Except.ok.inj hok
    exact ⟨fun _ _ hs => hs, rfl⟩
  | cons r requests ih =>
    rw [List.foldlM_cons] at hok
    obtain ⟨server'', hread, hrest⟩ := bind_eq_ok.mp hok
    have hfirst := keeps_readRequest hread
    have hothers := ih hrest
    exact ⟨fun c s hs => hothers.socket c s (hfirst.socket c s hs),
      hothers.outgoing.trans hfirst.outgoing⟩

/-- What is read is pending at most. -/
theorem readRequest_incomingRequest {rxTime : Nanos} {request : OGClientRequest}
    (hok : server.readRequest s rxTime request = .ok server') :
    server'.fifoSequencer.incomingRequest = server.fifoSequencer.incomingRequest := by
  by_cases hid : request.meClientRequest.clientId.toNat < meMaxNumClients
  · by_cases hdue : server.Due s request
    · rw [readRequest_of_due hid hdue] at hok
      obtain ⟨fifoSequencer, hadd, rfl⟩ := exists_of_map_eq_ok hok
      unfold FifoSequencer.addClientRequest at hadd
      split at hadd
      · obtain rfl := Except.ok.inj hadd
        rfl
      · cases hadd
    · rw [readRequest_of_not_due hid hdue] at hok
      obtain rfl := Except.ok.inj hok
      rw [bindSocket_sequencer]
  · rw [readRequest_outOfBounds hid] at hok
    cases hok

theorem readRequests_incomingRequest {rxTime : Nanos} {requests : List OGClientRequest}
    (hok : requests.foldlM (readRequest s rxTime) server = .ok server') :
    server'.fifoSequencer.incomingRequest = server.fifoSequencer.incomingRequest := by
  induction requests generalizing server with
  | nil =>
    obtain rfl := Except.ok.inj hok
    rfl
  | cons r requests ih =>
    rw [List.foldlM_cons] at hok
    obtain ⟨server'', hread, hrest⟩ := bind_eq_ok.mp hok
    exact (ih hrest).trans (readRequest_incomingRequest hread)

theorem keeps_receive {chunk : Chunk σ} (hok : n.receive sort chunk = .ok n') :
    Keeps n.server n'.server ∧ n'.sent = n.sent := by
  obtain ⟨⟨server, left⟩, hcallbacks, hn⟩ := bind_eq_ok.mp hok
  obtain rfl := Except.ok.inj hn
  refine ⟨?_, rfl⟩
  have hkeeps : Keeps n.server server := by
    unfold recvCallbacks at hcallbacks
    split at hcallbacks
    · obtain ⟨rfl, -⟩ := Prod.mk.inj (Except.ok.inj hcallbacks)
      exact ⟨fun _ _ hs => hs, rfl⟩
    · obtain ⟨server', hread, hresult⟩ := bind_eq_ok.mp hcallbacks
      obtain ⟨rfl, -⟩ := Prod.mk.inj (Except.ok.inj hresult)
      exact keeps_readRequests hread
  exact ⟨hkeeps.socket, hkeeps.outgoing⟩

/-- What has been written after the inputs: to each socket a sequence of responses, and of those to a
client that is bound to it, all, numbered from 1 on. -/
structure Written (n : Connections σ) (inputs : List (Input σ)) : Prop where
  next : ∀ c, n.server.cidNextOutgoingSeqNum c = 1 + UInt64.ofNat (responsesTo inputs c).length
  unbound : ∀ c, n.server.cidToSocket c = none → responsesTo inputs c = []
  sent : ∀ s, ∃ ms : List OGClientResponse,
    n.sent s = (ms.map OGClientResponse.codec.encode).flatten ∧
      ∀ c, ms.filter (fun m => m.meClientResponse.clientId = c) =
        if n.server.cidToSocket c = some s then
          (numberFrom 1 (responsesTo inputs c)).map fun e => ⟨e.1, e.2⟩
        else []

theorem written_init : Written (σ := σ) Connections.init [] where
  next _ := rfl
  unbound _ _ := rfl
  sent _ := ⟨[], rfl, fun _ => (ite_self _).symm⟩

theorem Written.receive (h : Written n inputs) {chunk : Chunk σ}
    (hok : n.receive sort chunk = .ok n') : Written n' (inputs ++ [.received chunk]) := by
  obtain ⟨hkeeps, hsent⟩ := keeps_receive hok
  have hresponses : ∀ c, responsesTo (inputs ++ [.received chunk]) c = responsesTo inputs c := by
    intro c
    unfold responsesTo
    rw [List.filterMap_append]
    exact List.append_nil _
  refine ⟨?_, ?_, ?_⟩
  · intro c
    rw [hkeeps.outgoing, hresponses]
    exact h.next c
  · intro c hnone
    rw [hresponses]
    apply h.unbound c
    by_contra hsome
    obtain ⟨s, hs⟩ := Option.ne_none_iff_exists'.mp hsome
    rw [hkeeps.socket c s hs] at hnone
    cases hnone
  · intro s
    obtain ⟨ms, hbytes, hms⟩ := h.sent s
    refine ⟨ms, by rw [hsent, hbytes], ?_⟩
    intro c
    rw [hms, hresponses]
    cases hbound : n.server.cidToSocket c with
    | some s' => rw [hkeeps.socket c s' hbound]
    | none =>
      -- a client that was not bound has been sent nothing
      rw [h.unbound c hbound, if_neg (by simp)]
      exact (ite_self _).symm

omit [DecidableEq σ] in
theorem responsesTo_concat (x : MEClientResponse) (c : ClientId) :
    responsesTo (inputs ++ [.response x]) c =
      responsesTo inputs c ++ if x.clientId = c then [x] else [] := by
  unfold responsesTo
  rw [List.filterMap_append]
  congr 1
  by_cases h : x.clientId = c
  · simp [h]
  · simp [h]

omit [DecidableEq σ] in
theorem writeResponse_eq_ok {x : MEClientResponse} {bytes : List UInt8}
    (hok : server.writeResponse x = .ok (server', s, bytes)) :
    server.cidToSocket x.clientId = some s ∧ server'.cidToSocket = server.cidToSocket ∧
      server'.cidNextOutgoingSeqNum = Function.update server.cidNextOutgoingSeqNum x.clientId
        (server.cidNextOutgoingSeqNum x.clientId + 1) ∧
      server'.fifoSequencer = server.fifoSequencer ∧
      bytes = OGClientResponse.codec.encode ⟨server.cidNextOutgoingSeqNum x.clientId, x⟩ := by
  unfold writeResponse at hok
  dsimp only at hok
  split at hok
  · split at hok
    · cases hok
    · next s' hs =>
      obtain ⟨rfl, hrest⟩ := Prod.mk.inj (Except.ok.inj hok)
      obtain ⟨rfl, rfl⟩ := Prod.mk.inj hrest
      exact ⟨hs, rfl, rfl, rfl, rfl⟩
  · cases hok

omit [DecidableEq σ] in
theorem writeResponse_of_socket {x : MEClientResponse} (hid : x.clientId.toNat < meMaxNumClients)
    (hs : server.cidToSocket x.clientId = some s) :
    server.writeResponse x = .ok
      ({ server with
          cidNextOutgoingSeqNum := Function.update server.cidNextOutgoingSeqNum x.clientId
            (server.cidNextOutgoingSeqNum x.clientId + 1) },
        s, OGClientResponse.codec.encode ⟨server.cidNextOutgoingSeqNum x.clientId, x⟩) := by
  unfold writeResponse
  dsimp only
  rw [if_pos hid, hs]
  rfl

theorem Written.respond (h : Written n inputs) {x : MEClientResponse}
    (hok : n.respond x = .ok n') : Written n' (inputs ++ [.response x]) := by
  obtain ⟨⟨server, s, bytes⟩, hwrite, hn⟩ := bind_eq_ok.mp hok
  obtain rfl := Except.ok.inj hn
  obtain ⟨hbound, hsocket, hnext, -, rfl⟩ := writeResponse_eq_ok hwrite
  refine ⟨?_, ?_, ?_⟩
  · intro c
    rw [hnext, responsesTo_concat]
    by_cases hc : x.clientId = c
    · subst hc
      rw [Function.update_self, if_pos rfl, h.next, List.length_append, List.length_singleton,
        UInt64.ofNat_add, add_assoc]
      rfl
    · rw [Function.update_of_ne (Ne.symm hc), if_neg hc, List.append_nil, h.next]
  · intro c hnone
    rw [hsocket] at hnone
    rw [responsesTo_concat, h.unbound c hnone, if_neg, List.append_nil]
    rintro rfl
    rw [hbound] at hnone
    cases hnone
  · intro s'
    obtain ⟨ms, hbytes, hms⟩ := h.sent s'
    by_cases hs : s' = s
    · subst hs
      refine ⟨ms ++ [⟨n.server.cidNextOutgoingSeqNum x.clientId, x⟩], ?_, ?_⟩
      · show Function.update n.sent s' _ s' = _
        rw [Function.update_self, hbytes, List.map_append, List.flatten_append]
        simp
      · intro c
        rw [List.filter_append, hms, hsocket, responsesTo_concat]
        by_cases hc : x.clientId = c
        · subst hc
          rw [if_pos hbound, if_pos hbound, if_pos rfl, numberFrom_append, List.map_append, h.next]
          simp
        · rw [if_neg hc, List.append_nil, List.filter_cons_of_neg (by simpa using hc),
            List.filter_nil, List.append_nil]
    · refine ⟨ms, ?_, ?_⟩
      · show Function.update n.sent s _ s' = _
        rw [Function.update_of_ne hs, hbytes]
      · intro c
        rw [hms, hsocket, responsesTo_concat]
        split
        · next hsame =>
          rw [if_neg, List.append_nil]
          rintro rfl
          exact hs (Option.some.inj (hsame.symm.trans hbound))
        · rfl

/-- **What the server has written** after any run. -/
theorem run_written (hrun : inputs.foldlM (Connections.step sort) Connections.init = .ok n) :
    Written n inputs := by
  induction inputs using List.reverseRecOn generalizing n with
  | nil =>
    obtain rfl := Except.ok.inj hrun
    exact written_init
  | append_singleton inputs input ih =>
    obtain ⟨n', hrun', hstep⟩ := foldlM_concat_eq_ok.mp hrun
    cases input with
    | received chunk => exact (ih hrun').receive hstep
    | response x => exact (ih hrun').respond hstep

end OrderServer

/-! ## What the gateway reads -/

namespace OrderGateway

variable {g : OrderGateway} {c : ClientId} {before chunk : List UInt8} {chunks : List (List UInt8)}

/-- The responses arrive in order, each once, and after every chunk the bytes of the response that is
not complete are in the buffer. -/
structure Delivered (c : ClientId) (responses : List MEClientResponse) (chunks : List (List UInt8)) :
    Prop where
  incoming : (chunks.foldl receive (init c, [])).1.incomingResponses = responses
  recvBuffer : ∀ pre post, chunks = pre ++ post →
    (pre.foldl receive (init c, [])).2 = rest OGClientResponse.codec.size pre.flatten

/-- If a chunk completes a response, then the bytes left over are the same as those from the second
byte of the buffer on. In the bytes received so far, the buffer starts at `a`, and `b` is where the
complete responses end. -/
def Intact (before chunk : List UInt8) : Prop :=
  let received := before ++ chunk
  let a := before.length / OGClientResponse.codec.size * OGClientResponse.codec.size
  let b := received.length / OGClientResponse.codec.size * OGClientResponse.codec.size
  a < b → (received.drop (a + 1)).take (received.length - b) = received.drop b

/-- The complete responses in the bytes received. -/
def responsesIn (bytes : List UInt8) : List OGClientResponse :=
  (frames OGClientResponse.codec.size bytes).map OGClientResponse.codec.decode

theorem responsesIn_append (before chunk : List UInt8) :
    responsesIn (before ++ chunk) = responsesIn before ++
      responsesIn (rest OGClientResponse.codec.size before ++ chunk) := by
  unfold responsesIn
  rw [frames_append (by decide), List.map_append]

/-- The responses are read in any case, also if there are none. -/
theorem recvCallback_responses (g : OrderGateway) (recvBuffer : List UInt8) :
    (g.recvCallback recvBuffer).1 = (responsesIn recvBuffer).foldl readResponse g := by
  unfold recvCallback responsesIn
  split
  · rfl
  · next hlt =>
    rw [frames_of_lt (Nat.lt_of_not_le hlt)]
    rfl

/-- **What is left in the buffer** is the rest of the stream if and only if the chunk leaves it
intact. -/
theorem receive_rest_iff (g : OrderGateway) (before chunk : List UInt8) :
    (receive (g, rest OGClientResponse.codec.size before) chunk).2 =
        rest OGClientResponse.codec.size (before ++ chunk) ↔
      Intact before chunk := by
  have hbuffer : rest OGClientResponse.codec.size before ++ chunk =
      (before ++ chunk).drop
        (before.length / OGClientResponse.codec.size * OGClientResponse.codec.size) := by
    unfold rest
    rw [List.drop_append_of_le_length (Nat.div_mul_le_self _ _)]
  unfold receive recvCallback Intact
  dsimp only
  rw [hbuffer, List.length_drop]
  unfold rest
  rw [OGClientResponse.codec_size]
  have hle : before.length ≤ (before ++ chunk).length := by
    rw [List.length_append]
    exact Nat.le_add_right _ _
  generalize before ++ chunk = received at hle ⊢
  split
  · next hcomplete =>
    rw [List.drop_drop]
    have hlength : received.length - before.length / 50 * 50 -
        (received.length - before.length / 50 * 50) / 50 * 50 =
        received.length - received.length / 50 * 50 := by omega
    rw [hlength]
    constructor
    · intro h _
      exact h
    · intro h
      apply h
      omega
  · next hnone =>
    have hsame : before.length / 50 * 50 = received.length / 50 * 50 := by omega
    rw [hsame]
    constructor
    · intro _ hlt
      exact absurd hlt (Nat.lt_irrefl _)
    · intro _
      rfl

/-- **Run lemma.** While every chunk leaves the rest intact, the gateway has read the responses in the
bytes received, and the rest is in the buffer. -/
theorem receive_run
    (h : ∀ pre chunk post, chunks = pre ++ chunk :: post → Intact pre.flatten chunk) :
    chunks.foldl receive (init c, []) =
      ((responsesIn chunks.flatten).foldl readResponse (init c),
        rest OGClientResponse.codec.size chunks.flatten) := by
  induction chunks using List.reverseRecOn with
  | nil =>
    have hnil : responsesIn [] = [] := by
      unfold responsesIn
      rw [frames_of_lt (by decide)]
      rfl
    rw [List.flatten_nil, hnil, rest_of_lt (by decide)]
    rfl
  | append_singleton chunks chunk ih =>
    have hbefore := ih (by
      intro pre d post hchunks
      refine h pre d (post ++ [chunk]) ?_
      rw [hchunks, List.append_assoc, List.cons_append])
    rw [List.foldl_append, hbefore, List.flatten_append, List.flatten_singleton]
    apply Prod.ext
    · rw [responsesIn_append, List.foldl_append]
      exact recvCallback_responses _ _
    · exact (receive_rest_iff _ _ _).mpr (h chunks chunk [] rfl)

/-- What the gateway hands on: the responses to its client with the numbers expected. -/
theorem readResponses_incoming (g : OrderGateway) (ms : List OGClientResponse) :
    (ms.foldl readResponse g).incomingResponses = g.incomingResponses ++
      (taken OGClientResponse.seqNum g.nextIncomingSeqNum
        (ms.filter fun m => m.meClientResponse.clientId = g.clientId)).map
        OGClientResponse.meClientResponse := by
  induction ms generalizing g with
  | nil => exact (List.append_nil _).symm
  | cons m ms ih =>
    rw [List.foldl_cons, ih]
    unfold readResponse
    by_cases hclient : m.meClientResponse.clientId = g.clientId
    · rw [if_neg (not_not_intro hclient), List.filter_cons_of_pos (by simpa using hclient), taken]
      by_cases hseq : m.seqNum = g.nextIncomingSeqNum
      · rw [if_neg (not_not_intro hseq), if_pos hseq, List.map_cons]
        show (g.incomingResponses ++ [m.meClientResponse]) ++ _ = _
        rw [List.append_assoc]
        rfl
      · rw [if_pos hseq, if_neg hseq]
    · rw [if_pos hclient, List.filter_cons_of_neg (by simpa using hclient)]

/-- The responses in the bytes that responses were written as. -/
theorem responsesIn_written (ms : List OGClientResponse) :
    responsesIn (ms.map OGClientResponse.codec.encode).flatten = ms := by
  unfold responsesIn
  rw [frames_flatten (by decide), List.map_map]
  · conv_rhs => rw [← List.map_id ms]
    apply List.map_congr_left
    intro m _
    have hdecode := OGClientResponse.codec.decode_encode m []
    rwa [List.append_nil] at hdecode
  · intro f hf
    obtain ⟨m, -, rfl⟩ := List.mem_map.mp hf
    exact OGClientResponse.codec.length_encode _

theorem taken_written (next : UInt64) (xs : List MEClientResponse) :
    taken OGClientResponse.seqNum next ((numberFrom next xs).map fun e => ⟨e.1, e.2⟩) =
      (numberFrom next xs).map fun e => ⟨e.1, e.2⟩ := by
  apply taken_numberFrom
  exact fun _ => rfl

/-- **When the responses arrive exactly once**: whatever the server did, and however what it wrote to
the socket of the client is cut into chunks, exactly if each chunk leaves the bytes of an incomplete
response intact. -/
theorem receive_delivered_iff {σ : Type} [DecidableEq σ]
    {sort : List RecvTimeClientRequest → List RecvTimeClientRequest}
    {inputs : List (OrderServer.Input σ)} {n : OrderServer.Connections σ} {s : σ}
    (hrun : inputs.foldlM (OrderServer.Connections.step sort) OrderServer.Connections.init = .ok n)
    (hsocket : n.server.cidToSocket c = some s) (hchunks : chunks.flatten = n.sent s) :
    Delivered c (OrderServer.responsesTo inputs c) chunks ↔
      ∀ pre chunk post, chunks = pre ++ chunk :: post → Intact pre.flatten chunk := by
  constructor
  · intro hdelivered pre chunk post hsplit
    have hbefore := hdelivered.recvBuffer pre (chunk :: post) hsplit
    have hafter := hdelivered.recvBuffer (pre ++ [chunk]) post (by rw [hsplit]; simp)
    rw [List.foldl_append, List.flatten_append, List.flatten_singleton] at hafter
    apply (receive_rest_iff (pre.foldl receive (init c, [])).1 _ _).mp
    rw [← hbefore]
    exact hafter
  · intro hintact
    refine ⟨?_, ?_⟩
    · obtain ⟨ms, hbytes, hms⟩ := (OrderServer.run_written hrun).sent s
      rw [receive_run hintact, hchunks, hbytes, responsesIn_written, readResponses_incoming]
      show [] ++ (taken _ 1 (ms.filter fun m => m.meClientResponse.clientId = c)).map _ = _
      rw [hms, if_pos hsocket, taken_written, List.map_map, List.nil_append]
      exact numberFrom_values
    · intro pre post hsplit
      rw [receive_run]
      intro pre' chunk post' hpre
      refine hintact pre' chunk (post' ++ post) ?_
      rw [hsplit, hpre, List.append_assoc, List.cons_append]

/-- A chunk that ends where a response ends leaves nothing over. -/
theorem intact_of_dvd (h : OGClientResponse.codec.size ∣ (before ++ chunk).length) :
    Intact before chunk := by
  intro _
  rw [Nat.div_mul_cancel h, Nat.sub_self, List.take_zero, List.drop_length]

/-- A response to client 1. -/
def responseOf (type : ClientResponseType) : MEClientResponse where
  type := type
  clientId := 1
  tickerId := 0
  clientOrderId := 1
  marketOrderId := 1
  side := .buy
  price := 100
  execQty := 0
  leftQty := 10

/-- Client 1 sends a request, and is sent two responses. -/
def twoResponses : List (OrderServer.Input Unit) :=
  [.received ⟨(), 5, ((init 1).writeRequest { type := .new, clientId := 1 }).2⟩,
    .response (responseOf .accepted), .response (responseOf .cancelled)]

/-- What the server writes for them. -/
def writtenBytes : List UInt8 :=
  OGClientResponse.codec.encode ⟨1, responseOf .accepted⟩ ++
    OGClientResponse.codec.encode ⟨2, responseOf .cancelled⟩

theorem twoResponses_written :
    ∃ n, twoResponses.foldlM (OrderServer.Connections.step id) OrderServer.Connections.init = .ok n ∧
      n.server.cidToSocket 1 = some () ∧ n.sent () = writtenBytes := by
  have hrun : (twoResponses.foldlM (OrderServer.Connections.step id)
      OrderServer.Connections.init).map (fun n => (n.server.cidToSocket 1, n.sent ())) =
      .ok (some (), writtenBytes) := rfl
  cases hn : twoResponses.foldlM (OrderServer.Connections.step id) OrderServer.Connections.init with
  | error e =>
    rw [hn] at hrun
    cases hrun
  | ok n =>
    rw [hn] at hrun
    obtain ⟨hsocket, hsent⟩ := Prod.mk.inj (Except.ok.inj hrun)
    exact ⟨n, rfl, hsocket, hsent⟩

/-- Cut where the first response ends, and inside both. -/
theorem receive_delivered_pieces :
    Delivered 1 (OrderServer.responsesTo twoResponses 1)
      [writtenBytes.take 20, (writtenBytes.drop 20).take 30, (writtenBytes.drop 50).take 45,
        writtenBytes.drop 95] := by
  obtain ⟨n, hrun, hsocket, hsent⟩ := twoResponses_written
  have hflatten : [writtenBytes.take 20, (writtenBytes.drop 20).take 30, (writtenBytes.drop 50).take 45,
      writtenBytes.drop 95].flatten = n.sent () := by
    rw [hsent]
    decide
  refine (receive_delivered_iff hrun hsocket hflatten).mpr ?_
  intro pre chunk post hsplit
  rcases pre with _ | ⟨c₁, _ | ⟨c₂, _ | ⟨c₃, _ | ⟨c₄, pre⟩⟩⟩⟩ <;>
    simp only [List.nil_append, List.cons_append, List.cons.injEq] at hsplit
  · obtain ⟨rfl, -⟩ := hsplit
    unfold Intact
    decide
  · obtain ⟨rfl, rfl, -⟩ := hsplit
    apply intact_of_dvd
    decide
  · obtain ⟨rfl, rfl, rfl, -⟩ := hsplit
    unfold Intact
    decide
  · obtain ⟨rfl, rfl, rfl, rfl, -⟩ := hsplit
    apply intact_of_dvd
    decide
  · simp at hsplit

/-- The first of two chunks holds one byte of the second response. In its place the gateway keeps a
byte of the first, and it skips what it then reads. -/
theorem not_delivered_of_cut_inside :
    ∃ n, twoResponses.foldlM (OrderServer.Connections.step id) OrderServer.Connections.init = .ok n ∧
      n.server.cidToSocket 1 = some () ∧
      [writtenBytes.take 51, writtenBytes.drop 51].flatten = n.sent () ∧
      OrderServer.responsesTo twoResponses 1 = [responseOf .accepted, responseOf .cancelled] ∧
      ([writtenBytes.take 51, writtenBytes.drop 51].foldl receive (init 1, [])).1.incomingResponses =
        [responseOf .accepted] ∧
      ¬ Delivered 1 (OrderServer.responsesTo twoResponses 1)
        [writtenBytes.take 51, writtenBytes.drop 51] := by
  obtain ⟨n, hrun, hsocket, hsent⟩ := twoResponses_written
  have hincoming : ([writtenBytes.take 51, writtenBytes.drop 51].foldl receive
      (init 1, [])).1.incomingResponses = [responseOf .accepted] := by decide
  have hresponses : OrderServer.responsesTo twoResponses 1 =
      [responseOf .accepted, responseOf .cancelled] := by decide
  refine ⟨n, hrun, hsocket, ?_, hresponses, hincoming, ?_⟩
  · rw [hsent]
    decide
  · intro hdelivered
    have hall := hdelivered.incoming
    rw [hincoming, hresponses] at hall
    revert hall
    decide

end OrderGateway

end TradingSystem
