import TradingSystem.Lib.Numbering
import TradingSystem.Client.OrderGateway
import TradingSystem.Exchange.OrderServer

/-!
# The requests of the clients, from their sockets to the sequencer

The bytes of a socket are a sequence of requests, however they are cut into chunks and however the
chunks of the sockets interleave. What the server forwards for a client is read off these sequences: a
client belongs to the socket that completed a request of it first, and of its requests there those are
taken that are numbered 1, 2, 3, … (`receive_exactly_once`).

The proof goes through the complete requests in the order they arrive, from whatever socket
(`arrivals`). The tables of the server say of them which socket came first for a client, and which
number comes next (`Follows`).
-/

namespace TradingSystem

namespace OrderServer

variable {σ : Type} [DecidableEq σ]

/-! ## What has arrived -/

/-- All bytes read from a socket. -/
def streamOf (chunks : List (Chunk σ)) (s : σ) : List UInt8 :=
  (chunks.filter fun chunk => chunk.socket = s).flatMap Chunk.bytes

/-- The complete requests in the bytes of a socket. -/
def requestsOn (chunks : List (Chunk σ)) (s : σ) : List OGClientRequest :=
  (frames OGClientRequest.codec.size (streamOf chunks s)).map OGClientRequest.codec.decode

/-- The requests that a chunk completes. -/
def completed (before : List (Chunk σ)) (chunk : Chunk σ) : List OGClientRequest :=
  (requestsOn (before ++ [chunk]) chunk.socket).drop (requestsOn before chunk.socket).length

/-- The complete requests of all sockets, in the order in which they were completed. -/
def arrivals (before : List (Chunk σ)) : List (Chunk σ) → List (σ × OGClientRequest)
  | [] => []
  | chunk :: chunks =>
    (completed before chunk).map (fun r => (chunk.socket, r)) ++ arrivals (before ++ [chunk]) chunks

/-- The socket that carried a client first. -/
def carrier (as : List (σ × OGClientRequest)) (c : ClientId) : Option σ :=
  (as.find? fun a => a.2.meClientRequest.clientId = c).map Prod.fst

/-- What the requests of one socket say of a client. -/
def carrying (rs : List OGClientRequest) (c : ClientId) : List OGClientRequest :=
  rs.filter fun r => r.meClientRequest.clientId = c

/-- The requests of a client on the socket that carried it first. -/
def carried (as : List (σ × OGClientRequest)) (c : ClientId) : List OGClientRequest :=
  (as.filter fun a => a.2.meClientRequest.clientId = c ∧ carrier as c = some a.1).map Prod.snd

variable {chunks before : List (Chunk σ)} {chunk : Chunk σ} {as : List (σ × OGClientRequest)}
  {a : σ × OGClientRequest} {c : ClientId} {s socket : σ}

theorem streamOf_concat (chunks : List (Chunk σ)) (chunk : Chunk σ) (s : σ) :
    streamOf (chunks ++ [chunk]) s =
      streamOf chunks s ++ if chunk.socket = s then chunk.bytes else [] := by
  unfold streamOf
  rw [List.filter_append, List.flatMap_append]
  congr 1
  split
  · next h => rw [List.filter_cons_of_pos (by simpa using h)]; simp
  · next h => rw [List.filter_cons_of_neg (by simpa using h)]; rfl

/-- The requests that a chunk completes are those in what was left of the socket's bytes and the
chunk. -/
theorem completed_eq (chunks : List (Chunk σ)) (chunk : Chunk σ) :
    completed chunks chunk =
      (frames OGClientRequest.codec.size
        (rest OGClientRequest.codec.size (streamOf chunks chunk.socket) ++ chunk.bytes)).map
        OGClientRequest.codec.decode := by
  unfold completed requestsOn
  rw [streamOf_concat, if_pos rfl, frames_append (by decide), List.map_append, List.drop_left]

theorem requestsOn_concat (chunks : List (Chunk σ)) (chunk : Chunk σ) (s : σ) :
    requestsOn (chunks ++ [chunk]) s =
      requestsOn chunks s ++ if chunk.socket = s then completed chunks chunk else [] := by
  split
  · next h =>
    subst h
    rw [completed_eq]
    unfold requestsOn
    rw [streamOf_concat, if_pos rfl, frames_append (by decide), List.map_append]
  · next h =>
    unfold requestsOn
    rw [streamOf_concat, if_neg h, List.append_nil, List.append_nil]

theorem arrivals_concat :
    arrivals before (chunks ++ [chunk]) =
      arrivals before chunks ++ (completed (before ++ chunks) chunk).map fun r => (chunk.socket, r) := by
  induction chunks generalizing before with
  | nil =>
    rw [List.nil_append, arrivals, arrivals, arrivals, List.append_nil, List.append_nil,
      List.nil_append]
  | cons d chunks ih =>
    rw [List.cons_append, arrivals, arrivals, ih, List.append_assoc, List.append_assoc,
      List.singleton_append]

/-- The arrivals from a socket are its complete requests. -/
theorem arrivals_on (chunks : List (Chunk σ)) (s : σ) :
    ((arrivals [] chunks).filter fun a => a.1 = s).map Prod.snd = requestsOn chunks s := by
  induction chunks using List.reverseRecOn with
  | nil =>
    have hnil : requestsOn ([] : List (Chunk σ)) s = [] := by
      show (frames _ ([] : List UInt8)).map _ = []
      rw [frames_of_lt (by decide)]
      rfl
    rw [hnil]
    rfl
  | append_singleton chunks chunk ih =>
    rw [arrivals_concat, List.filter_append, List.map_append, ih, requestsOn_concat, List.nil_append]
    congr 1
    split
    · next h =>
      rw [List.filter_eq_self.mpr (by simp [h]), List.map_map]
      exact List.map_id _
    · next h =>
      rw [List.filter_eq_nil_iff.mpr (by simp [h])]
      rfl

theorem carried_eq (chunks : List (Chunk σ)) (h : carrier (arrivals [] chunks) c = some s) :
    carried (arrivals [] chunks) c = carrying (requestsOn chunks s) c := by
  unfold carried carrying
  rw [← arrivals_on chunks s, List.filter_map, List.filter_filter, h]
  congr 1
  apply List.filter_congr
  intro a _
  simp [eq_comm]

theorem carried_of_none (h : carrier as c = none) : carried as c = [] := by
  unfold carried
  rw [h]
  simp

omit [DecidableEq σ] in
/-- A client that was carried has a socket that carried it first. -/
theorem exists_carrier (ha : a ∈ as) (hclient : a.2.meClientRequest.clientId = c) :
    ∃ b ∈ as, carrier as c = some b.1 := by
  unfold carrier
  cases hfind : as.find? fun a => a.2.meClientRequest.clientId = c with
  | none => exact absurd hclient (by simpa using List.find?_eq_none.mp hfind a ha)
  | some b => exact ⟨b, List.mem_of_find?_eq_some hfind, rfl⟩

omit [DecidableEq σ] in
theorem carrier_concat :
    carrier (as ++ [a]) c =
      (carrier as c).or (if a.2.meClientRequest.clientId = c then some a.1 else none) := by
  unfold carrier
  rw [List.find?_append]
  cases as.find? fun a => a.2.meClientRequest.clientId = c with
  | some b => rfl
  | none =>
    by_cases h : a.2.meClientRequest.clientId = c
    · simp [h]
    · simp [h]

/-- An arrival counts for its client if its socket carried the client first. -/
theorem carried_concat :
    carried (as ++ [a]) c = carried as c ++
      if a.2.meClientRequest.clientId = c ∧ carrier (as ++ [a]) c = some a.1 then [a.2] else [] := by
  unfold carried
  rw [List.filter_append, List.map_append]
  congr 1
  · congr 1
    apply List.filter_congr
    intro b hb
    by_cases hclient : b.2.meClientRequest.clientId = c
    · -- the client was carried before
      obtain ⟨d, -, hs⟩ := exists_carrier hb hclient
      rw [carrier_concat, hs, Option.some_or]
    · simp [hclient]
  · by_cases h : a.2.meClientRequest.clientId = c ∧ carrier (as ++ [a]) c = some a.1
    · simp [h]
    · simp [h]

/-! ## What the server knows -/

/-- The tables of the server, and the requests forwarded so far with those that are pending, are what
the arrivals make of them. -/
structure Follows (server : OrderServer σ) (forwarded : List MEClientRequest)
    (as : List (σ × OGClientRequest)) : Prop where
  socket : ∀ c, server.cidToSocket c = carrier as c
  expected : ∀ c, server.cidNextExpSeqNum c = expectedAfter OGClientRequest.seqNum 1 (carried as c)
  forwarded : ∀ c,
    (forwarded ++ server.fifoSequencer.pendingClientRequests.map RecvTimeClientRequest.request).filter
        (fun r => r.clientId = c) =
      (taken OGClientRequest.seqNum 1 (carried as c)).map OGClientRequest.meClientRequest

variable {server : OrderServer σ} {forwarded : List MEClientRequest} {request : OGClientRequest}
  {rxTime : Nanos}

theorem follows_init : Follows (σ := σ) init [] [] where
  socket _ := rfl
  expected _ := rfl
  forwarded _ := rfl

theorem bindSocket_socket (h : Follows server forwarded as) (c : ClientId) :
    (server.bindSocket request.meClientRequest.clientId socket).cidToSocket c =
      carrier (as ++ [(socket, request)]) c := by
  rw [carrier_concat, ← h.socket]
  exact bindSocket_cidToSocket server _ socket c

/-- An arrival that is not taken. -/
theorem Follows.skip (h : Follows server forwarded as)
    (hskip : carrier (as ++ [(socket, request)]) request.meClientRequest.clientId = some socket →
      request.seqNum ≠ server.cidNextExpSeqNum request.meClientRequest.clientId) :
    Follows (server.bindSocket request.meClientRequest.clientId socket) forwarded
      (as ++ [(socket, request)]) where
  socket := bindSocket_socket h
  expected := by
    intro c
    rw [bindSocket_expected, h.expected, carried_concat]
    split
    · next hcarried =>
      obtain ⟨rfl, hsocket⟩ := hcarried
      rw [expectedAfter_concat, if_neg]
      rw [← h.expected]
      exact hskip hsocket
    · rw [List.append_nil]
  forwarded := by
    intro c
    rw [bindSocket_sequencer, h.forwarded, carried_concat]
    split
    · next hcarried =>
      obtain ⟨rfl, hsocket⟩ := hcarried
      rw [taken_concat, if_neg]
      rw [← h.expected]
      exact hskip hsocket
    · rw [List.append_nil]

/-- An arrival that is taken. -/
theorem Follows.take (h : Follows server forwarded as)
    (hsocket : carrier (as ++ [(socket, request)]) request.meClientRequest.clientId = some socket)
    (hseq : request.seqNum = server.cidNextExpSeqNum request.meClientRequest.clientId)
    {server' : OrderServer σ}
    (hsocket' : server'.cidToSocket =
      (server.bindSocket request.meClientRequest.clientId socket).cidToSocket)
    (hexpected' : server'.cidNextExpSeqNum = Function.update server.cidNextExpSeqNum
      request.meClientRequest.clientId
      (server.cidNextExpSeqNum request.meClientRequest.clientId + 1))
    (hpending' : server'.fifoSequencer.pendingClientRequests =
      server.fifoSequencer.pendingClientRequests ++ [⟨rxTime, request.meClientRequest⟩]) :
    Follows server' forwarded (as ++ [(socket, request)]) where
  socket := by
    rw [hsocket']
    exact bindSocket_socket h
  expected := by
    intro c
    rw [hexpected', carried_concat]
    by_cases hc : request.meClientRequest.clientId = c
    · subst hc
      rw [if_pos ⟨rfl, hsocket⟩, expectedAfter_concat, ← h.expected, if_pos hseq,
        Function.update_self]
    · rw [if_neg (fun hand => hc hand.1), List.append_nil, Function.update_of_ne (Ne.symm hc)]
      exact h.expected c
  forwarded := by
    intro c
    rw [hpending', List.map_append, ← List.append_assoc, List.filter_append, h.forwarded,
      carried_concat]
    by_cases hc : request.meClientRequest.clientId = c
    · subst hc
      rw [if_pos ⟨rfl, hsocket⟩, taken_concat, ← h.expected, if_pos hseq, List.map_append]
      simp
    · rw [if_neg (fun hand => hc hand.1), List.append_nil]
      simp [hc]

/-- **Step lemma.** A request that arrives at a server with room for it. -/
theorem Follows.readRequest (h : Follows server forwarded as)
    (hid : request.meClientRequest.clientId.toNat < meMaxNumClients)
    (hroom : server.fifoSequencer.pendingClientRequests.length < maxPendingRequests)
    (socket : σ) (rxTime : Nanos) :
    ∃ server', server.readRequest socket rxTime request = .ok server' ∧
      Follows server' forwarded (as ++ [(socket, request)]) ∧
      server'.fifoSequencer.pendingClientRequests.length ≤
        server.fifoSequencer.pendingClientRequests.length + 1 := by
  have hcarrier : (server.bindSocket request.meClientRequest.clientId socket).cidToSocket
      request.meClientRequest.clientId =
        carrier (as ++ [(socket, request)]) request.meClientRequest.clientId := bindSocket_socket h _
  by_cases hdue : server.Due socket request
  · rw [readRequest_of_due hid hdue]
    unfold FifoSequencer.addClientRequest
    rw [if_pos hroom]
    refine ⟨_, rfl, h.take (hcarrier.symm.trans hdue.1) hdue.2 rfl rfl rfl, ?_⟩
    simp [advance]
  · rw [readRequest_of_not_due hid hdue]
    refine ⟨_, rfl, h.skip ?_, ?_⟩
    · intro hsocket hseq
      exact hdue ⟨hcarrier.trans hsocket, hseq⟩
    · rw [bindSocket_sequencer]
      exact Nat.le_succ _

/-- The requests of a callback. -/
theorem Follows.readRequests (h : Follows server forwarded as) {requests : List OGClientRequest}
    (hids : ∀ r ∈ requests, r.meClientRequest.clientId.toNat < meMaxNumClients)
    (hroom : server.fifoSequencer.pendingClientRequests.length + requests.length ≤
      maxPendingRequests) (socket : σ) (rxTime : Nanos) :
    ∃ server', requests.foldlM (OrderServer.readRequest socket rxTime) server = .ok server' ∧
      Follows server' forwarded (as ++ requests.map fun r => (socket, r)) := by
  induction requests generalizing server as with
  | nil =>
    rw [List.map_nil, List.append_nil]
    exact ⟨server, rfl, h⟩
  | cons r requests ih =>
    rw [List.length_cons] at hroom
    obtain ⟨server', hok, h', hlength⟩ :=
      h.readRequest (hids r List.mem_cons_self) (by omega) socket rxTime
    obtain ⟨server'', hok', h''⟩ :=
      ih h' (fun r' hr' => hids r' (List.mem_cons_of_mem _ hr')) (by omega)
    refine ⟨server'', ?_, ?_⟩
    · rw [List.foldlM_cons, hok]
      exact hok'
    · rw [List.map_cons, List.append_cons]
      exact h''

/-- What was pending is in the queue of the engine. -/
theorem Follows.flush (h : Follows server forwarded as)
    (sort : List RecvTimeClientRequest → List RecvTimeClientRequest) :
    Follows (server.recvFinishedCallbacks sort)
      (forwarded ++
        server.fifoSequencer.pendingClientRequests.map RecvTimeClientRequest.request) as where
  socket := h.socket
  expected := h.expected
  forwarded := by
    intro c
    rw [← h.forwarded c]
    unfold recvFinishedCallbacks
    rw [FifoSequencer.sequenceAndPublish_pendingClientRequests, List.map_nil, List.append_nil]

/-! ## Runs -/

/-- Reading and moving the rest to the front, also where there is nothing to read yet. -/
theorem recvCallbacks_eq (server : OrderServer σ) (socket : σ) (rxTime : Nanos)
    (recvBuffer : List UInt8) :
    server.recvCallbacks socket rxTime recvBuffer =
      (((frames OGClientRequest.codec.size recvBuffer).map OGClientRequest.codec.decode).foldlM
        (OrderServer.readRequest socket rxTime) server).map
        fun server => (server, rest OGClientRequest.codec.size recvBuffer) := by
  unfold recvCallbacks
  split
  · next hlt =>
    rw [frames_of_lt hlt, rest_of_lt hlt]
    rfl
  · rfl

namespace Connections

/-- What holds after the chunks. -/
structure Inv (n : Connections σ) (chunks : List (Chunk σ)) : Prop where
  follows : Follows n.server n.forwarded (arrivals [] chunks)
  flushed : n.server.fifoSequencer.pendingClientRequests = []
  recvBuffer : ∀ s, n.recvBuffer s = rest OGClientRequest.codec.size (streamOf chunks s)

variable {n : Connections σ}
  (sort : List RecvTimeClientRequest → List RecvTimeClientRequest)

theorem inv_init : Inv (σ := σ) init [] where
  follows := follows_init
  flushed := rfl
  recvBuffer _ := (rest_of_lt (by decide : ([] : List UInt8).length < _)).symm

/-- **Step lemma.** -/
theorem Inv.receive (h : n.Inv chunks)
    (hids : ∀ r ∈ completed chunks chunk, r.meClientRequest.clientId.toNat < meMaxNumClients)
    (hpending : (completed chunks chunk).length ≤ maxPendingRequests) :
    ∃ n', n.receive sort chunk = .ok n' ∧ n'.Inv (chunks ++ [chunk]) := by
  obtain ⟨server, hok, hfollows⟩ := h.follows.readRequests hids
    (by rw [h.flushed, List.length_nil, Nat.zero_add]; exact hpending) chunk.socket chunk.rxTime
  have hcallbacks : n.server.recvCallbacks chunk.socket chunk.rxTime
      (n.recvBuffer chunk.socket ++ chunk.bytes) =
      .ok (server, rest OGClientRequest.codec.size
        (streamOf (chunks ++ [chunk]) chunk.socket)) := by
    rw [recvCallbacks_eq, h.recvBuffer, ← completed_eq, hok, streamOf_concat, if_pos rfl,
      rest_append (by decide) (streamOf chunks chunk.socket)]
    rfl
  unfold Connections.receive
  rw [hcallbacks]
  refine ⟨_, rfl, ?_, ?_, ?_⟩
  · rw [arrivals_concat, List.nil_append]
    exact hfollows.flush sort
  · exact FifoSequencer.sequenceAndPublish_pendingClientRequests sort
  · intro s
    show Function.update n.recvBuffer chunk.socket _ s = _
    by_cases hs : s = chunk.socket
    · rw [hs, Function.update_self]
    · rw [Function.update_of_ne hs, h.recvBuffer, streamOf_concat, if_neg (Ne.symm hs),
        List.append_nil]

theorem mem_requestsOn_of_completed {r : OGClientRequest} (hr : r ∈ completed chunks chunk) :
    r ∈ requestsOn (chunks ++ [chunk]) chunk.socket :=
  List.mem_of_mem_drop hr

/-- **Run lemma.** -/
theorem exists_run (chunks : List (Chunk σ))
    (hids : ∀ s, ∀ r ∈ requestsOn chunks s, r.meClientRequest.clientId.toNat < meMaxNumClients)
    (hpending : ∀ pre chunk post, chunks = pre ++ chunk :: post →
      (completed pre chunk).length ≤ maxPendingRequests) :
    ∃ n, chunks.foldlM (Connections.receive sort) init = .ok n ∧ n.Inv chunks := by
  induction chunks using List.reverseRecOn with
  | nil => exact ⟨init, rfl, inv_init⟩
  | append_singleton chunks chunk ih =>
    obtain ⟨n, hok, hinv⟩ := ih
      (by
        intro s r hr
        apply hids s r
        rw [requestsOn_concat]
        exact List.mem_append_left _ hr)
      (by
        intro pre d post hchunks
        refine hpending pre d (post ++ [chunk]) ?_
        rw [hchunks, List.append_assoc, List.cons_append])
    obtain ⟨n', hok', hinv'⟩ := hinv.receive sort
      (fun r hr => hids _ r (mem_requestsOn_of_completed hr)) (hpending chunks chunk [] rfl)
    exact ⟨n', foldlM_concat_eq_ok.mpr ⟨n, hok, hok'⟩, hinv'⟩

end Connections

/-- A client that no other socket carried first. -/
theorem carried_of_own (h : ∀ s', carrier (arrivals [] chunks) c = some s' → s' = s) :
    carried (arrivals [] chunks) c = carrying (requestsOn chunks s) c := by
  cases hcarrier : carrier (arrivals [] chunks) c with
  | some s' =>
    obtain rfl := h s' hcarrier
    exact carried_eq chunks hcarrier
  | none =>
    rw [carried_of_none hcarrier]
    symm
    unfold carrier at hcarrier
    rw [Option.map_eq_none_iff, List.find?_eq_none] at hcarrier
    apply List.filter_eq_nil_iff.mpr
    intro r hr
    rw [← arrivals_on chunks s] at hr
    obtain ⟨a, ha, rfl⟩ := List.mem_map.mp hr
    exact hcarrier a (List.mem_of_mem_filter ha)

theorem length_of_mem_encoded {es : List (UInt64 × MEClientRequest)} :
    ∀ f ∈ es.map fun e => OGClientRequest.codec.encode ⟨e.1, e.2⟩,
      f.length = OGClientRequest.codec.size := by
  intro f hf
  obtain ⟨e, -, rfl⟩ := List.mem_map.mp hf
  exact OGClientRequest.codec.length_encode _

theorem decode_encoded (es : List (UInt64 × MEClientRequest)) :
    (es.map fun e => OGClientRequest.codec.encode ⟨e.1, e.2⟩).map OGClientRequest.codec.decode =
      es.map fun e => ⟨e.1, e.2⟩ := by
  rw [List.map_map]
  apply List.map_congr_left
  intro e _
  have hdecode := OGClientRequest.codec.decode_encode ⟨e.1, e.2⟩ []
  rwa [List.append_nil] at hdecode

/-- The complete requests in the beginning of what a gateway writes. -/
theorem requestsOn_of_written {g : OrderGateway} {reqs : List MEClientRequest}
    (h : streamOf chunks s <+: (g.writeRequests reqs).2) :
    requestsOn chunks s =
      (numberFrom g.nextOutgoingSeqNum
        (reqs.take ((streamOf chunks s).length / OGClientRequest.codec.size))).map
        fun e => ⟨e.1, e.2⟩ := by
  rw [OrderGateway.writeRequests_bytes] at h
  unfold requestsOn
  rw [frames_initial (by decide) length_of_mem_encoded h, ← List.map_take, numberFrom_take,
    decode_encoded]

/-- All that a gateway writes. -/
theorem decode_written (g : OrderGateway) (reqs : List MEClientRequest) :
    (frames OGClientRequest.codec.size (g.writeRequests reqs).2).map OGClientRequest.codec.decode =
      (numberFrom g.nextOutgoingSeqNum reqs).map fun e => ⟨e.1, e.2⟩ := by
  rw [OrderGateway.writeRequests_bytes, frames_flatten (by decide) length_of_mem_encoded,
    decode_encoded]

/-- A gateway's numbering has no gap. -/
theorem taken_written (next : UInt64) (reqs : List MEClientRequest) :
    taken OGClientRequest.seqNum next ((numberFrom next reqs).map fun e => ⟨e.1, e.2⟩) =
      (numberFrom next reqs).map fun e => ⟨e.1, e.2⟩ := by
  apply taken_numberFrom
  exact fun _ => rfl

/-- **Exactly once, for every chunking and interleaving.** For each client the server forwards the
requests numbered 1, 2, 3, … on the socket that carried the client first, in order. A client that no
other socket carried first, and whose gateway wrote the bytes, has each complete request forwarded. -/
theorem receive_exactly_once (sort : List RecvTimeClientRequest → List RecvTimeClientRequest)
    (chunks : List (Chunk σ))
    (hids : ∀ s, ∀ r ∈ requestsOn chunks s, r.meClientRequest.clientId.toNat < meMaxNumClients)
    (hpending : ∀ pre chunk post, chunks = pre ++ chunk :: post →
      (completed pre chunk).length ≤ maxPendingRequests) :
    ∃ n, chunks.foldlM (Connections.receive sort) Connections.init = .ok n ∧
      (∀ c, n.forwarded.filter (fun r => r.clientId = c) =
        match carrier (arrivals [] chunks) c with
        | none => []
        | some s =>
          (taken OGClientRequest.seqNum 1 (carrying (requestsOn chunks s) c)).map
            OGClientRequest.meClientRequest) ∧
      ∀ c s reqs, (∀ r ∈ reqs, r.clientId = c) →
        streamOf chunks s <+: ((OrderGateway.init c).writeRequests reqs).2 →
        (∀ s', carrier (arrivals [] chunks) c = some s' → s' = s) →
        n.forwarded.filter (fun r => r.clientId = c) =
          reqs.take ((streamOf chunks s).length / OGClientRequest.codec.size) := by
  obtain ⟨n, hok, hinv⟩ := Connections.exists_run sort chunks hids hpending
  have hforwarded : ∀ c, n.forwarded.filter (fun r => r.clientId = c) =
      (taken OGClientRequest.seqNum 1 (carried (arrivals [] chunks) c)).map
        OGClientRequest.meClientRequest := by
    intro c
    have h := hinv.follows.forwarded c
    rwa [hinv.flushed, List.map_nil, List.append_nil] at h
  refine ⟨n, hok, ?_, ?_⟩
  · intro c
    rw [hforwarded]
    split
    · next hcarrier =>
      rw [carried_of_none hcarrier]
      rfl
    · next s hcarrier => rw [carried_eq chunks hcarrier]
  · intro c s reqs hclient hwritten hcarrier
    have hall : carrying (requestsOn chunks s) c = requestsOn chunks s := by
      rw [requestsOn_of_written hwritten]
      apply List.filter_eq_self.mpr
      intro r hr
      obtain ⟨e, he, rfl⟩ := List.mem_map.mp hr
      obtain ⟨i, hi, -⟩ := mem_numberFrom.mp he
      simpa using hclient e.2 (List.mem_of_mem_take (List.mem_of_getElem? hi))
    rw [hforwarded, carried_of_own hcarrier, hall, requestsOn_of_written hwritten]
    show (taken _ (OrderGateway.init c).nextOutgoingSeqNum _).map _ = _
    rw [taken_written, List.map_map]
    exact numberFrom_values

theorem length_completed_le (chunks : List (Chunk σ)) (chunk : Chunk σ) :
    (completed chunks chunk).length ≤ chunk.bytes.length := by
  have hrest := length_rest_lt (by decide : 0 < OGClientRequest.codec.size)
    (streamOf chunks chunk.socket)
  rw [completed_eq, List.length_map, length_frames, List.length_append]
  rw [OGClientRequest.codec_size] at hrest ⊢
  omega

/-- A request of client 1. -/
def requestOf (orderId : OrderId) : MEClientRequest where
  type := .new
  clientId := 1
  tickerId := 0
  orderId := orderId
  side := .buy
  price := 100
  qty := 10

/-- Two requests of client 1 on one socket, cut inside the second, and between the pieces a request on
another socket that carries this client too. -/
def twoSockets : List (Chunk Bool) :=
  let bytes := ((OrderGateway.init 1).writeRequests [requestOf 1, requestOf 2]).2
  [⟨false, 5, bytes.take 50⟩, ⟨true, 6, ((OrderGateway.init 1).writeRequests [requestOf 7]).2⟩,
    ⟨false, 7, bytes.drop 50⟩]

theorem receive_exactly_once_two_sockets :
    ∃ n, twoSockets.foldlM (Connections.receive id) Connections.init = .ok n ∧
      n.forwarded.filter (fun r => r.clientId = 1) = [requestOf 1, requestOf 2] := by
  have hlengths : ∀ chunk ∈ twoSockets, chunk.bytes.length ≤ maxPendingRequests := by decide
  obtain ⟨n, hok, -, hown⟩ := receive_exactly_once id twoSockets (by decide) (by
    intro pre chunk post hchunks
    apply Nat.le_trans (length_completed_le pre chunk)
    exact hlengths chunk (by simp [hchunks]))
  refine ⟨n, hok, ?_⟩
  exact hown 1 false [requestOf 1, requestOf 2] (by decide) (by decide) (by decide)

end OrderServer

end TradingSystem
