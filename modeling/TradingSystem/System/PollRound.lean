import TradingSystem.Networking.TCPServer
import TradingSystem.System.RequestPath
import TradingSystem.System.ResponsePath

/-!
# The rounds of the order server

The loop in `OrderServer::run`: the sockets are polled, `TCPServer::sendAndRecv` goes through them, and
the responses are written. In a round `recvCallbacks` is called for each socket that has data and passes
requests to the sequencer, which has room for `MAX_PENDING_REQUESTS` of them. Only the end of the round
makes room again.

Nothing in the code bounds a round by this room. How many requests a round passes on is counted for each
client by itself (`dueOf`): those numbered one after the other from the number expected next, on the
socket the client belongs to. The `ASSERT` of the sequencer fires exactly in the rounds in which these
are more than there is room for (`run_never_overflows_iff`).
-/

namespace TradingSystem

namespace OrderServer

variable {σ : Type} [DecidableEq σ]

/-! ## What is due -/

/-- The client id is one the tables have room for. -/
def InTable (a : σ × OGClientRequest) : Prop := a.2.meClientRequest.clientId.toNat < meMaxNumClients

instance decidableInTable : DecidablePred (InTable (σ := σ)) :=
  fun a => inferInstanceAs (Decidable (a.2.meClientRequest.clientId.toNat < meMaxNumClients))

/-- The socket of a client as requests come in: the one it is bound to, or the first to carry it. -/
def home (server : OrderServer σ) (as : List (σ × OGClientRequest)) (c : ClientId) : Option σ :=
  (server.cidToSocket c).or (carrier as c)

/-- The requests of a client that are due: of those on its socket, the ones that are numbered one after
the other from the number expected next. -/
def dueOf (server : OrderServer σ) (as : List (σ × OGClientRequest)) (c : ClientId) :
    List OGClientRequest :=
  taken OGClientRequest.seqNum (server.cidNextExpSeqNum c)
    ((as.filter fun a => a.2.meClientRequest.clientId = c ∧ home server as c = some a.1).map Prod.snd)

/-- How many requests are due, of all clients. -/
def due (server : OrderServer σ) (as : List (σ × OGClientRequest)) : Nat :=
  ∑ i ∈ Finset.range meMaxNumClients, (dueOf server as (UInt32.ofNat i)).length

variable {server server' : OrderServer σ} {as : List (σ × OGClientRequest)} {a : σ × OGClientRequest}
  {c : ClientId} {rxTime : Nanos}

omit [DecidableEq σ] in
theorem carrier_cons :
    carrier (a :: as) c =
      (if a.2.meClientRequest.clientId = c then some a.1 else none).or (carrier as c) := by
  unfold carrier
  by_cases h : a.2.meClientRequest.clientId = c
  · rw [List.find?_cons_of_pos (by simpa using h), if_pos h]
    rfl
  · rw [List.find?_cons_of_neg (by simpa using h), if_neg h, Option.none_or]

omit [DecidableEq σ] in
/-- Once a request has come in, the table says what is left of its socket. -/
theorem home_cons (hsocket : server'.cidToSocket =
      (server.bindSocket a.2.meClientRequest.clientId a.1).cidToSocket) :
    home server (a :: as) c = home server' as c := by
  unfold home
  rw [hsocket, bindSocket_cidToSocket, carrier_cons, Option.or_assoc]

omit [DecidableEq σ] in
theorem home_cons_self :
    home server (a :: as) a.2.meClientRequest.clientId = some a.1 ↔
      (server.bindSocket a.2.meClientRequest.clientId a.1).cidToSocket
        a.2.meClientRequest.clientId = some a.1 := by
  unfold home
  rw [bindSocket_cidToSocket, carrier_cons, if_pos rfl, Option.some_or]

/-- A request that is due is the first of its client; the rest is as at the server that has taken it. -/
theorem length_dueOf_cons_of_due (hdue : server.Due a.1 a.2) (fifoSequencer : FifoSequencer) :
    (dueOf server (a :: as) c).length = (dueOf (server.advance a.1 a.2 fifoSequencer) as c).length +
      if a.2.meClientRequest.clientId = c then 1 else 0 := by
  unfold dueOf
  have hhome : home server (a :: as) = home (server.advance a.1 a.2 fifoSequencer) as := by
    funext c
    exact home_cons rfl
  rw [hhome, List.filter_cons]
  by_cases hc : a.2.meClientRequest.clientId = c
  · subst hc
    have hself : home (server.advance a.1 a.2 fifoSequencer) as a.2.meClientRequest.clientId = some a.1 := by
      rw [← hhome, home_cons_self]
      exact hdue.1
    rw [if_pos (by simpa using hself), if_pos rfl, List.map_cons, taken, if_pos hdue.2,
      List.length_cons, advance_expected, Function.update_self]
  · rw [if_neg (by simp [hc]), if_neg hc, Nat.add_zero, advance_expected,
      Function.update_of_ne (Ne.symm hc)]

/-- A request that is not due counts for nothing. -/
theorem dueOf_cons_of_not_due (hdue : ¬ server.Due a.1 a.2) :
    dueOf server (a :: as) c =
      dueOf (server.bindSocket a.2.meClientRequest.clientId a.1) as c := by
  unfold dueOf
  rw [home_cons rfl, bindSocket_expected, List.filter_cons]
  split
  · next hhome =>
    obtain ⟨rfl, hhome⟩ : a.2.meClientRequest.clientId = c ∧ _ := by simpa using hhome
    have hseq : ¬ a.2.seqNum = server.cidNextExpSeqNum a.2.meClientRequest.clientId := by
      intro hseq
      rw [← home_cons rfl, home_cons_self] at hhome
      exact hdue ⟨hhome, hseq⟩
    rw [List.map_cons, taken, if_neg hseq]
  · rfl

/-- **One request more.** It is of one client, so that the sum grows by one. -/
theorem due_cons_of_due (hid : InTable a) (hdue : server.Due a.1 a.2) (fifoSequencer : FifoSequencer) :
    due server (a :: as) = due (server.advance a.1 a.2 fifoSequencer) as + 1 := by
  have hone : ∀ i ∈ Finset.range meMaxNumClients,
      (if a.2.meClientRequest.clientId = UInt32.ofNat i then 1 else 0) =
        if a.2.meClientRequest.clientId.toNat = i then 1 else 0 := by
    intro i hi
    have hlt : i < UInt32.size := Nat.lt_trans (Finset.mem_range.mp hi) (by decide)
    congr 1
    rw [← UInt32.toNat_inj, UInt32.toNat_ofNat_of_lt' hlt]
  unfold due
  simp only [length_dueOf_cons_of_due hdue fifoSequencer]
  rw [Finset.sum_add_distrib, Finset.sum_congr rfl hone, Finset.sum_ite_eq,
    if_pos (Finset.mem_range.mpr hid)]

theorem due_cons_of_not_due (hdue : ¬ server.Due a.1 a.2) :
    due server (a :: as) = due (server.bindSocket a.2.meClientRequest.clientId a.1) as := by
  unfold due
  simp only [dueOf_cons_of_not_due hdue]

theorem due_nil : due server [] = 0 := Finset.sum_eq_zero fun _ _ => rfl

/-- Never more is due than has come in. -/
theorem due_le_length (hids : ∀ a ∈ as, InTable a) : due server as ≤ as.length := by
  induction as generalizing server with
  | nil => exact Nat.le_of_eq due_nil
  | cons a as ih =>
    have hrest : ∀ server, due server as ≤ as.length := fun server =>
      ih fun a' ha' => hids a' (List.mem_cons_of_mem _ ha')
    rw [List.length_cons]
    by_cases hdue : server.Due a.1 a.2
    · rw [due_cons_of_due (hids a List.mem_cons_self) hdue server.fifoSequencer]
      exact Nat.succ_le_succ (hrest _)
    · rw [due_cons_of_not_due hdue]
      exact Nat.le_succ_of_le (hrest _)

/-! ## Reading -/

/-- A request, with the time its data was received. -/
def readArrival (server : OrderServer σ) (arrival : Nanos × σ × OGClientRequest) :
    Except Fault (OrderServer σ) :=
  server.readRequest arrival.2.1 arrival.1 arrival.2.2

/-- **When the `ASSERT` fires**: exactly if more is due than there is room for. By induction on the
requests, each of which takes one place if it is due. -/
theorem readArrivals_assertion_iff (arrived : List (Nanos × σ × OGClientRequest))
    (hpending : server.fifoSequencer.pendingClientRequests.length ≤ maxPendingRequests) :
    arrived.foldlM readArrival server = .error .assertion ↔
      maxPendingRequests < server.fifoSequencer.pendingClientRequests.length +
        due server ((arrived.map Prod.snd).takeWhile fun a => InTable a) := by
  induction arrived generalizing server with
  | nil =>
    rw [List.map_nil, List.takeWhile_nil, due_nil, Nat.add_zero]
    exact iff_of_false nofun (Nat.not_lt.mpr hpending)
  | cons arrival arrived ih =>
    obtain ⟨rxTime, a⟩ := arrival
    rw [List.foldlM_cons, List.map_cons]
    unfold readArrival
    dsimp only
    by_cases hid : InTable a
    · rw [List.takeWhile_cons_of_pos (by simpa using hid)]
      by_cases hdue : server.Due a.1 a.2
      · rw [readRequest_of_due hid hdue]
        unfold FifoSequencer.addClientRequest
        split
        · next hroom =>
          -- it takes one of the places that are left
          obtain ⟨fifoSequencer, hadded⟩ : ∃ fifoSequencer : FifoSequencer, fifoSequencer =
            { server.fifoSequencer with pendingClientRequests :=
                server.fifoSequencer.pendingClientRequests ++ [⟨rxTime, a.2.meClientRequest⟩] } :=
            ⟨_, rfl⟩
          have hlength : (server.advance a.1 a.2 fifoSequencer).fifoSequencer.pendingClientRequests.length =
              server.fifoSequencer.pendingClientRequests.length + 1 := by
            show fifoSequencer.pendingClientRequests.length = _
            rw [hadded, List.length_append, List.length_singleton]
          rw [← hadded, due_cons_of_due hid hdue fifoSequencer]
          refine (ih (by omega)).trans ?_
          omega
        · next hfull =>
          refine iff_of_true rfl ?_
          rw [due_cons_of_due hid hdue server.fifoSequencer]
          omega
      · rw [readRequest_of_not_due hid hdue, due_cons_of_not_due hdue]
        rw [← bindSocket_sequencer] at hpending
        refine (ih hpending).trans ?_
        rw [bindSocket_sequencer]
    · -- the table is accessed past its end, which is the end of the run
      have hout : server.readRequest a.1 rxTime a.2 = .error .outOfBounds := if_neg hid
      rw [List.takeWhile_cons_of_neg (by simpa using hid), due_nil, hout, Nat.add_zero]
      exact iff_of_false nofun (Nat.not_lt.mpr hpending)

/-! ## Rounds -/

/-- The lambda that the constructor sets as the callback of the sockets. -/
def recvCallback (server : OrderServer σ) (socket : σ) (recvBuffer : List UInt8) (rxTime : Nanos) :
    Except Fault (OrderServer σ × List UInt8) :=
  server.recvCallbacks socket rxTime recvBuffer

/-- What the loop in `run` works on. -/
structure Loop (σ : Type) where
  server : OrderServer σ
  tcpServer : TCPServer σ

/-- A part of the loop in `run`. -/
inductive Call (σ : Type) where
  | poll (events : List (EpollEvent σ)) (accepted : List σ)
  | sendAndRecv (kernel kernel' : σ → Exchanged)
  /-- one pass of the loop over the responses -/
  | respond (clientResponse : MEClientResponse)

namespace Loop

def init (listenerSocket : σ) : Loop σ := ⟨OrderServer.init, TCPServer.init listenerSocket⟩

def step (sort : List RecvTimeClientRequest → List RecvTimeClientRequest)
    (iterate : List σ → List σ) (n : Loop σ) : Call σ → Except Fault (Loop σ)
  | .poll events accepted => .ok { n with tcpServer := n.tcpServer.poll events accepted }
  | .sendAndRecv kernel kernel' => do
    let (server, tcpServer) ← TCPServer.sendAndRecv recvCallback (recvFinishedCallbacks sort) iterate
      kernel kernel' n.server n.tcpServer
    return ⟨server, tcpServer⟩
  | .respond clientResponse => do
    let (server, fd, bytes) ← n.server.writeResponse clientResponse
    let socket ← deref (n.tcpServer.allSockets fd)
    let socket ← socket.send bytes
    return ⟨server,
      { n.tcpServer with allSockets := Function.update n.tcpServer.allSockets fd (some socket) }⟩

/-- What `epoll_wait` reports is what was asked for. -/
def Asked (_ : Loop σ) : Call σ → Prop
  | .poll events _ => ∀ event ∈ events, TCPServer.Asked event
  | _ => True

/-- The requests in the buffer that the callback is called with. -/
def requestsIn (d : TCPServer.Delivery σ) : List (Nanos × σ × OGClientRequest) :=
  ((frames OGClientRequest.codec.size d.recvBuffer).map OGClientRequest.codec.decode).map
    fun request => (d.rxTime, d.fd, request)

/-- The requests of a round, in the order in which they are read. -/
def requests (n : Loop σ) (iterate : List σ → List σ) (kernel : σ → Exchanged) :
    List (Nanos × σ × OGClientRequest) :=
  (n.tcpServer.deliveries kernel (iterate n.tcpServer.recvSockets)).flatMap requestsIn

/-- The `ASSERT` of the sequencer does not fire. There is no other one in a round. -/
def NeverOverflows (sort : List RecvTimeClientRequest → List RecvTimeClientRequest)
    (iterate : List σ → List σ) (n : Loop σ) : Call σ → Prop
  | .sendAndRecv kernel kernel' =>
    n.step sort iterate (.sendAndRecv kernel kernel') ≠ .error .assertion
  | _ => True

/-- **The condition**: of the requests of a round, up to the first whose client is not in the tables, no
more are due than the sequencer has room for. -/
def FitsPending (iterate : List σ → List σ) (n : Loop σ) : Call σ → Prop
  | .sendAndRecv kernel _ =>
    due n.server (((n.requests iterate kernel).map Prod.snd).takeWhile fun a => InTable a) ≤
      maxPendingRequests
  | _ => True

variable {sort : List RecvTimeClientRequest → List RecvTimeClientRequest} {iterate : List σ → List σ}
  {n n' : Loop σ} {call : Call σ} {kernel kernel' : σ → Exchanged}

/-- The callbacks of a round read its requests. -/
theorem deliver_eq (ds : List (TCPServer.Delivery σ)) (server : OrderServer σ) :
    ds.foldlM (TCPServer.deliver recvCallback) server =
      (ds.flatMap requestsIn).foldlM readArrival server := by
  induction ds generalizing server with
  | nil => rfl
  | cons d ds ih =>
    have hone : TCPServer.deliver recvCallback server d =
        (requestsIn d).foldlM readArrival server := by
      have hfold : (requestsIn d).foldlM readArrival server =
          ((frames OGClientRequest.codec.size d.recvBuffer).map
            OGClientRequest.codec.decode).foldlM (readRequest d.fd d.rxTime) server := List.foldlM_map
      unfold TCPServer.deliver recvCallback
      rw [recvCallbacks_eq, hfold]
      cases ((frames OGClientRequest.codec.size d.recvBuffer).map
        OGClientRequest.codec.decode).foldlM (readRequest d.fd d.rxTime) server <;> rfl
    rw [List.foldlM_cons, List.flatMap_cons, List.foldlM_append, hone]
    apply bind_congr
    exact ih

theorem step_sendAndRecv :
    n.step sort iterate (.sendAndRecv kernel kernel') =
      (TCPServer.sendAndRecv recvCallback (recvFinishedCallbacks sort) iterate kernel kernel'
        n.server n.tcpServer).map fun r => ⟨r.1, r.2⟩ := by
  show _ >>= _ = _
  cases TCPServer.sendAndRecv recvCallback (recvFinishedCallbacks sort) iterate kernel kernel'
    n.server n.tcpServer <;> rfl

/-- What holds between two parts of the loop. -/
structure Inv (n : Loop σ) : Prop where
  idle : n.tcpServer.Idle
  flushed : n.server.fifoSequencer.pendingClientRequests = []

omit [DecidableEq σ] in
theorem inv_init (listenerSocket : σ) : (init listenerSocket).Inv where
  idle := TCPServer.idle_init listenerSocket
  flushed := rfl

/-- The server after a round, if it goes through. -/
theorem Inv.server_eq (h : n.Inv) (sort : List RecvTimeClientRequest → List RecvTimeClientRequest)
    (hiterate : TCPServer.Iterates iterate) (kernel kernel' : σ → Exchanged) :
    (n.step sort iterate (.sendAndRecv kernel kernel')).map Loop.server =
      ((n.requests iterate kernel).foldlM readArrival n.server).map fun server =>
        if n.tcpServer.deliveries kernel (iterate n.tcpServer.recvSockets) = [] then server
        else server.recvFinishedCallbacks sort := by
  have hround := TCPServer.sendAndRecv_eq recvCallback (recvFinishedCallbacks sort) hiterate
    h.idle.nodup h.idle.sendSockets kernel kernel' n.server
  rw [deliver_eq] at hround
  unfold requests
  rw [← hround, step_sendAndRecv]
  cases TCPServer.sendAndRecv recvCallback (recvFinishedCallbacks sort) iterate kernel kernel'
    n.server n.tcpServer <;> rfl

/-- **Step lemma.** A round that goes through leaves nothing pending. -/
theorem Inv.step (h : n.Inv) (hiterate : TCPServer.Iterates iterate) (hasked : n.Asked call)
    (hok : n.step sort iterate call = .ok n') : n'.Inv := by
  cases call with
  | poll events accepted =>
    obtain rfl := Except.ok.inj hok
    exact ⟨h.idle.poll hasked accepted, h.flushed⟩
  | sendAndRecv kernel kernel' =>
    have hserver := h.server_eq sort hiterate kernel kernel'
    rw [hok] at hserver
    obtain ⟨server, hread, hn⟩ := exists_of_map_eq_ok hserver.symm
    rw [step_sendAndRecv] at hok
    obtain ⟨r, hround, rfl⟩ := exists_of_map_eq_ok hok
    refine ⟨h.idle.sendAndRecv hround, ?_⟩
    rw [← hn]
    split
    · next hnone =>
      -- no callback, and nothing was pending
      unfold requests at hread
      rw [hnone] at hread
      obtain rfl := Except.ok.inj hread
      exact h.flushed
    · exact FifoSequencer.sequenceAndPublish_pendingClientRequests sort
  | respond clientResponse =>
    obtain ⟨⟨server, fd, bytes⟩, hwrite, hrest⟩ := bind_eq_ok.mp hok
    obtain ⟨socket, -, hrest⟩ := bind_eq_ok.mp hrest
    obtain ⟨socket', -, hn⟩ := bind_eq_ok.mp hrest
    obtain rfl := Except.ok.inj hn
    refine ⟨⟨h.idle.sendSockets, h.idle.nodup⟩, ?_⟩
    obtain ⟨-, -, -, hsequencer, -⟩ := writeResponse_eq_ok hwrite
    rw [← h.flushed]
    exact congrArg _ hsequencer

/-- **What a round can take**: it is the condition that decides. -/
theorem Inv.neverOverflows_iff (h : n.Inv) (hiterate : TCPServer.Iterates iterate) :
    NeverOverflows sort iterate n call ↔ FitsPending iterate n call := by
  cases call with
  | poll events accepted => rfl
  | respond clientResponse => rfl
  | sendAndRecv kernel kernel' =>
    have hserver := h.server_eq sort hiterate kernel kernel'
    have hassertion : n.step sort iterate (.sendAndRecv kernel kernel') = .error .assertion ↔
        (n.requests iterate kernel).foldlM readArrival n.server = .error .assertion := by
      constructor
      · intro herr
        rw [herr] at hserver
        exact eq_error_of_map hserver.symm
      · intro herr
        rw [herr] at hserver
        exact eq_error_of_map hserver
    have hpending : n.server.fifoSequencer.pendingClientRequests.length = 0 :=
      List.length_eq_zero_iff.mpr h.flushed
    have hroom := readArrivals_assertion_iff (n.requests iterate kernel)
      (hpending.le.trans (Nat.zero_le _))
    rw [hpending, Nat.zero_add] at hroom
    unfold NeverOverflows FitsPending
    dsimp only
    rw [Ne, hassertion, hroom, Nat.not_lt]

/-- No more is due in a round than comes in. -/
theorem fitsPending_of_length (h : (n.requests iterate kernel).length ≤ maxPendingRequests) :
    FitsPending iterate n (.sendAndRecv kernel kernel') := by
  obtain ⟨as, has⟩ : ∃ as, as = (n.requests iterate kernel).map Prod.snd := ⟨_, rfl⟩
  have hlength : (as.takeWhile fun a => InTable a).length ≤ (n.requests iterate kernel).length := by
    have htake := (List.takeWhile_sublist (l := as) fun a => decide (InTable a)).length_le
    rwa [has, List.length_map, ← has] at htake
  have hids : ∀ a ∈ as.takeWhile fun a => InTable a, InTable a := by
    intro a ha
    simpa using List.mem_takeWhile_imp ha
  unfold FitsPending
  dsimp only
  rw [← has]
  exact (due_le_length hids).trans (hlength.trans h)

/-- **When a round never overflows the sequencer**: in every run of the server, with any sockets and
whatever is in their buffers, exactly in the rounds in which no more is due than there is room for. -/
theorem run_never_overflows_iff
    (sort : List RecvTimeClientRequest → List RecvTimeClientRequest)
    (hiterate : TCPServer.Iterates iterate) (listenerSocket : σ) {calls : List (Call σ)}
    (hasked : AllSteps (step sort iterate) (init listenerSocket) (fun _ => Asked) calls) :
    AllSteps (step sort iterate) (init listenerSocket) (fun _ => NeverOverflows sort iterate) calls ↔
      AllSteps (step sort iterate) (init listenerSocket) (fun _ => FitsPending iterate) calls := by
  apply allSteps_congr (I := Inv) (C := Asked) _ _ hasked (inv_init listenerSocket)
  · intro n call h _
    exact h.neverOverflows_iff hiterate
  · intro n call n' h hcall _ hok
    exact h.step hiterate hcall hok

/-! ## One burst -/

/-- A client connects. -/
def connect : Call Bool := .poll [⟨false, true, false, false⟩] [true]

/-- What there is to be read of its socket, once its gateway has written requests. -/
def written (reqs : List MEClientRequest) (_ : Bool) : Exchanged where
  read := ((OrderGateway.init 1).writeRequests reqs).2

/-- The server once the client is connected. -/
def connected : Loop Bool where
  server := OrderServer.init
  tcpServer := ⟨false, Function.update (fun _ => none) true (some {}), [], [true]⟩

/-- The requests come in, in one round. -/
def burst (reqs : List MEClientRequest) : Call Bool := .sendAndRecv (written reqs) fun _ => {}

theorem allSteps_connect_iff {P : Loop Bool → Call Bool → Prop} {call : Call Bool} :
    AllSteps (step id id) (init false) (fun _ => P) [connect, call] ↔
      P (init false) connect ∧ P connected call := by
  rw [allSteps_cons_iff]
  apply and_congr_right
  intro _
  constructor
  · intro h
    exact h connected rfl [] call [] connected rfl rfl
  · intro h n hn
    obtain rfl : connected = n := Except.ok.inj hn
    refine AllSteps.cons h ?_
    intro n' _ pre call' post _ hnil
    simp at hnil

theorem step_connect : step id id (init false) connect = .ok connected := rfl

theorem asked_burst (reqs : List MEClientRequest) :
    AllSteps (step id id) (init false) (fun _ => Asked) [connect, burst reqs] := by
  rw [allSteps_connect_iff]
  refine ⟨?_, trivial⟩
  intro event hevent
  obtain rfl := List.mem_singleton.mp hevent
  rfl

theorem requests_written {reqs : List MEClientRequest} (hne : reqs ≠ []) :
    (connected.requests id (written reqs)).map Prod.snd =
      (numberFrom 1 reqs).map fun e => (true, ⟨e.1, e.2⟩) := by
  have hread : (written reqs true).read ≠ [] := by
    obtain ⟨r, reqs, rfl⟩ := List.exists_cons_of_ne_nil hne
    intro hnil
    have hfirst : ((OrderGateway.init 1).writeRequest r).2 = [] := (List.append_eq_nil_iff.mp hnil).1
    exact absurd (List.append_eq_nil_iff.mp hfirst).1 (by decide)
  have hsocket : connected.tcpServer.allSockets true = some {} := rfl
  have hdeliveries : connected.tcpServer.deliveries (written reqs) [true] =
      [⟨true, (written reqs true).read, 0⟩] := TCPServer.deliveries_cons_some hsocket hread
  unfold requests
  show ((connected.tcpServer.deliveries (written reqs) [true]).flatMap requestsIn).map Prod.snd = _
  rw [hdeliveries, List.flatMap_singleton]
  unfold requestsIn written
  rw [decode_written, List.map_map, List.map_map]
  rfl

/-- All that a gateway writes is due. -/
theorem due_written {reqs : List MEClientRequest} (hids : ∀ r ∈ reqs, r.clientId = 1) :
    reqs.length ≤ due connected.server ((numberFrom 1 reqs).map fun e => (true, ⟨e.1, e.2⟩)) := by
  obtain ⟨as, has⟩ : ∃ as : List (Bool × OGClientRequest),
    as = (numberFrom 1 reqs).map fun e => (true, ⟨e.1, e.2⟩) := ⟨_, rfl⟩
  have hclient : ∀ a ∈ as, a.2.meClientRequest.clientId = 1 ∧ a.1 = true := by
    intro a ha
    rw [has] at ha
    obtain ⟨e, he, rfl⟩ := List.mem_map.mp ha
    obtain ⟨i, hi, -⟩ := mem_numberFrom.mp he
    exact ⟨hids e.2 (List.mem_of_getElem? hi), rfl⟩
  have hone : (dueOf connected.server as 1).length = reqs.length := by
    have hall : (as.filter fun a => a.2.meClientRequest.clientId = 1 ∧
        home connected.server as 1 = some a.1) = as := by
      apply List.filter_eq_self.mpr
      intro a ha
      obtain ⟨b, hb, hcarrier⟩ := exists_carrier ha (hclient a ha).1
      have hhome : home connected.server as 1 = some a.1 := by
        rw [(hclient a ha).2, ← (hclient b hb).2]
        exact hcarrier
      simpa using ⟨(hclient a ha).1, hhome⟩
    have hsnd : as.map Prod.snd = (numberFrom 1 reqs).map fun e => ⟨e.1, e.2⟩ := by
      rw [has, List.map_map]
      rfl
    have hnext : connected.server.cidNextExpSeqNum 1 = 1 := rfl
    unfold dueOf
    rw [hall, hsnd, hnext, taken_written, List.length_map, length_numberFrom]
  rw [← has, ← hone]
  exact Finset.single_le_sum (f := fun i => (dueOf connected.server as (UInt32.ofNat i)).length)
    (fun _ _ => Nat.zero_le _) (Finset.mem_range.mpr (by decide : 1 < meMaxNumClients))

theorem length_written (reqs : List MEClientRequest) :
    (written reqs true).read.length / OGClientRequest.codec.size = reqs.length := by
  have hlength := congrArg List.length (decode_written (OrderGateway.init 1) reqs)
  rwa [List.length_map, length_frames, List.length_map, length_numberFrom] at hlength

/-- As many requests in a round as there is room for. -/
theorem run_never_overflows_1024 :
    AllSteps (step id id) (init false) (fun _ => NeverOverflows id id)
      [connect, burst ((List.range 1024).map fun i => requestOf (UInt64.ofNat i))] := by
  have hiterate : TCPServer.Iterates (id : List Bool → List Bool) := fun _ => List.Perm.refl _
  obtain ⟨reqs, hreqs⟩ : ∃ reqs, reqs = (List.range 1024).map fun i => requestOf (UInt64.ofNat i) :=
    ⟨_, rfl⟩
  have hlength : reqs.length = 1024 := by rw [hreqs, List.length_map, List.length_range]
  rw [← hreqs]
  refine (run_never_overflows_iff id hiterate false (asked_burst _)).mpr ?_
  rw [allSteps_connect_iff]
  refine ⟨trivial, fitsPending_of_length ?_⟩
  rw [← List.length_map Prod.snd, requests_written (List.ne_nil_of_length_eq_add_one hlength),
    List.length_map, length_numberFrom, hlength]
  exact le_rfl

/-- One client, whose gateway has written 1025 requests before the socket is read: all of them are in
the buffer, numbered as they should be. -/
theorem overflows_of_1025 :
    AllSteps (step id id) (init false) (fun _ => Asked)
        [connect, burst (List.replicate 1025 (requestOf 1))] ∧
      (written (List.replicate 1025 (requestOf 1)) true).read.length ≤ tcpBufferSize ∧
      [connect, burst (List.replicate 1025 (requestOf 1))].foldlM (step id id) (init false) =
        .error .assertion := by
  obtain ⟨reqs, hreqs⟩ : ∃ reqs, reqs = List.replicate 1025 (requestOf 1) := ⟨_, rfl⟩
  have hlength : reqs.length = 1025 := by rw [hreqs, List.length_replicate]
  have hclient : ∀ r ∈ reqs, r.clientId = 1 := by
    intro r hr
    rw [hreqs] at hr
    rw [List.eq_of_mem_replicate hr]
    rfl
  rw [← hreqs]
  refine ⟨asked_burst reqs, ?_, ?_⟩
  · have hframes := length_written reqs
    rw [OGClientRequest.codec_size, hlength] at hframes
    unfold tcpBufferSize
    omega
  · have hinv : connected.Inv := ⟨⟨rfl, List.nodup_singleton true⟩, rfl⟩
    have hne : reqs ≠ [] := List.ne_nil_of_length_eq_add_one hlength
    -- every request is due, which is one too many
    have hfits : ¬ FitsPending id connected (burst reqs) := by
      intro hfits
      unfold FitsPending burst at hfits
      dsimp only at hfits
      rw [requests_written hne, List.takeWhile_eq_self_iff.mpr] at hfits
      · have hdue := (due_written hclient).trans hfits
        rw [hlength] at hdue
        exact absurd hdue (by decide)
      · intro a ha
        obtain ⟨e, he, rfl⟩ := List.mem_map.mp ha
        obtain ⟨i, hi, -⟩ := mem_numberFrom.mp he
        have hid : e.2.clientId = 1 := hclient e.2 (List.mem_of_getElem? hi)
        apply decide_eq_true
        show e.2.clientId.toNat < meMaxNumClients
        rw [hid]
        decide
    have hiterate : TCPServer.Iterates (id : List Bool → List Bool) := fun _ => List.Perm.refl _
    have hstep : connected.step id id (burst reqs) = .error .assertion := by
      by_contra hne
      exact hfits ((hinv.neverOverflows_iff hiterate).mp hne)
    rw [List.foldlM_cons, step_connect]
    show connected.step id id (burst reqs) >>= _ = _
    rw [hstep]
    rfl

end Loop

end OrderServer

end TradingSystem
