import TradingSystem.Networking.TCPSocket

/-!
# `TCPServer`: the sockets of a round

`networking/tcp_server.hpp` and `network/tcp_server.cpp`. `poll` asks the kernel which sockets have something
and accepts new connections; `sendAndRecv` goes through the sockets that may have data, calls back for each of
them that has, and once more at the end of the round.

A descriptor is of a type `σ`, and the callbacks have a state `τ`, which changes with them. In which order an
`unordered_set` is gone through is not said; `iterate` is any order (`Iterates`). That the calls of the kernel
which set a socket up succeed is taken for granted.
-/

namespace TradingSystem

/-- What `epoll_wait` reports of a descriptor. -/
structure EpollEvent (σ : Type) where
  fd : σ
  epollin : Bool := false
  epollout : Bool := false
  /-- `EPOLLERR | EPOLLHUP` -/
  epollerr : Bool := false

/-- What the kernel does for a socket: the bytes it has for it, when they came, and what its `send` returns. -/
structure Exchanged where
  read : List UInt8 := []
  rxTime : Nanos := 0
  n : ℤ := 0

structure TCPServer (σ : Type) where
  listenerSocket : σ
  allSockets : σ → Option TCPSocket
  sendSockets : List σ
  recvSockets : List σ

namespace TCPServer

variable {σ τ : Type} [DecidableEq σ]

/-- The server once it listens. -/
def init (listenerSocket : σ) : TCPServer σ := ⟨listenerSocket, fun _ => none, [], []⟩

/-- One pass of the loop over the events in `poll`. -/
def handleEvent (server : TCPServer σ) (event : EpollEvent σ) : TCPServer σ :=
  if event.epollin ∧ event.fd = server.listenerSocket then server
  else { server with
    sendSockets := if event.epollout then server.sendSockets.insert event.fd else server.sendSockets
    recvSockets :=
      if event.epollin ∨ event.epollerr then server.recvSockets.insert event.fd else server.recvSockets }

/-- One pass of the loop that accepts connections. `emplace` leaves a socket that is there. -/
def accept (server : TCPServer σ) (fd : σ) : TCPServer σ :=
  { server with
    allSockets := Function.update server.allSockets fd (some ((server.allSockets fd).getD {}))
    recvSockets := server.recvSockets.insert fd }

/-- `accepted` are the descriptors that `accept` returns before it returns -1. -/
def poll (server : TCPServer σ) (events : List (EpollEvent σ)) (accepted : List σ) : TCPServer σ :=
  let haveNewConn := events.any fun event => event.epollin && event.fd = server.listenerSocket
  let server := events.foldl handleEvent server
  if haveNewConn then accepted.foldl accept server else server

/-- One pass of a loop in `sendAndRecv`. The flag says whether anything was received. -/
def visit (recvCallback : τ → σ → List UInt8 → Nanos → Except Fault (τ × List UInt8))
    (kernel : σ → Exchanged) (round : τ × TCPServer σ × Bool) (fd : σ) :
    Except Fault (τ × TCPServer σ × Bool) :=
  match round.2.1.allSockets fd with
  | none => .ok round
  | some socket => do
    let (state, socket, _) ← socket.sendAndRecv (fun state => recvCallback state fd) round.1
      (kernel fd).read (kernel fd).rxTime (kernel fd).n
    return (state,
      { round.2.1 with allSockets := Function.update round.2.1.allSockets fd (some socket) },
      round.2.2 || (kernel fd).read ≠ [])

/-- The kernel is called twice for a socket that is in both sets. -/
def sendAndRecv (recvCallback : τ → σ → List UInt8 → Nanos → Except Fault (τ × List UInt8))
    (recvFinishedCallback : τ → τ) (iterate : List σ → List σ) (kernel kernel' : σ → Exchanged)
    (state : τ) (server : TCPServer σ) : Except Fault (τ × TCPServer σ) := do
  let (state, server, recv) ←
    (iterate server.recvSockets).foldlM (visit recvCallback kernel) (state, server, false)
  let state := if recv then recvFinishedCallback state else state
  let (state, server, _) ←
    (iterate server.sendSockets).foldlM (visit recvCallback kernel') (state, server, false)
  return (state, server)

/-- What is known of the order of an `unordered_set`. -/
def Iterates (iterate : List σ → List σ) : Prop := ∀ fds, (iterate fds).Perm fds

/-- What a callback is called with. -/
structure Delivery (σ : Type) where
  fd : σ
  recvBuffer : List UInt8
  rxTime : Nanos

/-- The callbacks of a round, for sockets in this order. -/
def deliveries (server : TCPServer σ) (kernel : σ → Exchanged) (fds : List σ) : List (Delivery σ) :=
  fds.filterMap fun fd =>
    match server.allSockets fd with
    | none => none
    | some socket =>
      if (kernel fd).read = [] then none
      else some ⟨fd, socket.recvBuffer ++ (kernel fd).read, (kernel fd).rxTime⟩

variable {recvCallback : τ → σ → List UInt8 → Nanos → Except Fault (τ × List UInt8)}
  {server server' : TCPServer σ} {kernel : σ → Exchanged} {fds : List σ} {fd : σ} {state : τ}
  {recv : Bool} {socket : TCPSocket}

theorem visit_none (hfd : server.allSockets fd = none) :
    visit recvCallback kernel (state, server, recv) fd = .ok (state, server, recv) := by
  unfold visit
  rw [hfd]

variable (recvCallback state recv) in
/-- A socket that has data: its callback decides. -/
theorem visit_some (hfd : server.allSockets fd = some socket) (hread : (kernel fd).read ≠ []) :
    ∃ sent : List UInt8 → TCPSocket, visit recvCallback kernel (state, server, recv) fd =
      (recvCallback state fd (socket.recvBuffer ++ (kernel fd).read) (kernel fd).rxTime).map
        fun r => (r.1, { server with
          allSockets := Function.update server.allSockets fd (some (sent r.2)) }, true) := by
  refine ⟨fun left => ⟨[], left⟩, ?_⟩
  unfold visit TCPSocket.sendAndRecv
  rw [hfd]
  have hpos : (kernel fd).read.length > 0 := List.length_pos_of_ne_nil hread
  simp only [hpos, if_true]
  cases recvCallback state fd (socket.recvBuffer ++ (kernel fd).read) (kernel fd).rxTime with
  | error e => rfl
  | ok r => simp [hread, bind, Except.bind, Except.map, pure, Except.pure]

variable (recvCallback state recv) in
/-- A socket without data: no callback. -/
theorem visit_empty (hfd : server.allSockets fd = some socket) (hread : (kernel fd).read = []) :
    ∃ sent, visit recvCallback kernel (state, server, recv) fd =
      .ok (state, { server with
        allSockets := Function.update server.allSockets fd (some sent) }, recv) := by
  refine ⟨⟨[], socket.recvBuffer⟩, ?_⟩
  unfold visit TCPSocket.sendAndRecv
  rw [hfd]
  simp [hread, bind, Except.bind, pure, Except.pure]

/-- No call changes which sockets are gone through. -/
theorem visit_sockets {round : τ × TCPServer σ × Bool}
    (hok : visit recvCallback kernel (state, server, recv) fd = .ok round) :
    round.2.1.recvSockets = server.recvSockets ∧ round.2.1.sendSockets = server.sendSockets := by
  unfold visit at hok
  split at hok
  · obtain rfl := Except.ok.inj hok
    exact ⟨rfl, rfl⟩
  · obtain ⟨r, -, hr⟩ := bind_eq_ok.mp hok
    obtain rfl := Except.ok.inj hr
    exact ⟨rfl, rfl⟩

theorem visits_sockets {round : τ × TCPServer σ × Bool}
    (hok : fds.foldlM (visit recvCallback kernel) (state, server, recv) = .ok round) :
    round.2.1.recvSockets = server.recvSockets ∧ round.2.1.sendSockets = server.sendSockets := by
  induction fds generalizing state server recv with
  | nil =>
    obtain rfl := Except.ok.inj hok
    exact ⟨rfl, rfl⟩
  | cons fd fds ih =>
    rw [List.foldlM_cons] at hok
    obtain ⟨⟨state', server', recv'⟩, hvisit, hrest⟩ := bind_eq_ok.mp hok
    obtain ⟨hrecv, hsend⟩ := visit_sockets hvisit
    obtain ⟨hrecv', hsend'⟩ := ih hrest
    exact ⟨hrecv'.trans hrecv, hsend'.trans hsend⟩

/-- What a callback makes of the state. -/
def deliver (recvCallback : τ → σ → List UInt8 → Nanos → Except Fault (τ × List UInt8)) (state : τ)
    (d : Delivery σ) : Except Fault τ :=
  (recvCallback state d.fd d.recvBuffer d.rxTime).map Prod.fst

omit [DecidableEq σ] in
theorem deliveries_congr (h : ∀ fd ∈ fds, server'.allSockets fd = server.allSockets fd) :
    server'.deliveries kernel fds = server.deliveries kernel fds := by
  unfold deliveries
  apply List.filterMap_congr
  intro fd hfd
  rw [h fd hfd]

omit [DecidableEq σ] in
theorem deliveries_cons_none (hfd : server.allSockets fd = none) :
    server.deliveries kernel (fd :: fds) = server.deliveries kernel fds := by
  unfold deliveries
  rw [List.filterMap_cons, hfd]

omit [DecidableEq σ] in
theorem deliveries_cons_empty (hfd : server.allSockets fd = some socket)
    (hread : (kernel fd).read = []) :
    server.deliveries kernel (fd :: fds) = server.deliveries kernel fds := by
  unfold deliveries
  rw [List.filterMap_cons, hfd]
  simp only [hread, if_true]

omit [DecidableEq σ] in
theorem deliveries_cons_some (hfd : server.allSockets fd = some socket)
    (hread : (kernel fd).read ≠ []) :
    server.deliveries kernel (fd :: fds) =
      ⟨fd, socket.recvBuffer ++ (kernel fd).read, (kernel fd).rxTime⟩ ::
        server.deliveries kernel fds := by
  unfold deliveries
  rw [List.filterMap_cons, hfd]
  simp only [hread, if_false]

/-- **The callbacks of a loop** over sockets are its deliveries, one after the other. By induction on the
sockets still ahead, whose buffers are as they were. -/
theorem visits_eq (hnd : fds.Nodup) :
    (fds.foldlM (visit recvCallback kernel) (state, server, recv)).map (fun r => (r.1, r.2.2)) =
      ((server.deliveries kernel fds).foldlM (deliver recvCallback) state).map
        fun state => (state, recv || server.deliveries kernel fds ≠ []) := by
  induction fds generalizing state server recv with
  | nil =>
    show Except.ok (state, recv) = .ok (state, recv || false)
    rw [Bool.or_false]
  | cons fd fds ih =>
    obtain ⟨hfd, hnd⟩ := List.nodup_cons.mp hnd
    -- the sockets still ahead are other ones
    have hahead : ∀ sent, deliveries { server with
        allSockets := Function.update server.allSockets fd (some sent) } kernel fds =
          server.deliveries kernel fds := by
      intro sent
      apply deliveries_congr
      intro fd' hfd'
      apply Function.update_of_ne
      rintro rfl
      exact hfd hfd'
    rw [List.foldlM_cons]
    cases hsocket : server.allSockets fd with
    | none =>
      rw [visit_none hsocket, deliveries_cons_none hsocket]
      exact ih hnd
    | some socket =>
      by_cases hread : (kernel fd).read = []
      · obtain ⟨sent, hvisit⟩ := visit_empty recvCallback state recv hsocket hread
        rw [hvisit, deliveries_cons_empty hsocket hread, ← hahead sent]
        exact ih hnd
      · obtain ⟨sent, hvisit⟩ := visit_some recvCallback state recv hsocket hread
        rw [hvisit, deliveries_cons_some hsocket hread, List.foldlM_cons]
        unfold deliver
        dsimp only
        cases recvCallback state fd (socket.recvBuffer ++ (kernel fd).read) (kernel fd).rxTime with
        | error e => rfl
        | ok r =>
          have hdecide : (recv || decide (⟨fd, socket.recvBuffer ++ (kernel fd).read,
              (kernel fd).rxTime⟩ :: server.deliveries kernel fds ≠ [])) = true := by simp
          rw [hdecide]
          refine (ih hnd).trans ?_
          rw [hahead]
          simp only [Bool.true_or]
          rfl

variable (recvCallback) in
/-- **A round** in which nothing is left to be sent: the callbacks, and the last one if there were any. -/
theorem sendAndRecv_eq (recvFinishedCallback : τ → τ) {iterate : List σ → List σ}
    (hiterate : Iterates iterate) (hnd : server.recvSockets.Nodup) (hsend : server.sendSockets = [])
    (kernel kernel' : σ → Exchanged) (state : τ) :
    (sendAndRecv recvCallback recvFinishedCallback iterate kernel kernel' state server).map Prod.fst =
      ((server.deliveries kernel (iterate server.recvSockets)).foldlM (deliver recvCallback) state).map
        fun state =>
          if server.deliveries kernel (iterate server.recvSockets) = [] then state
          else recvFinishedCallback state := by
  obtain ⟨ds, hds⟩ : ∃ ds, ds = server.deliveries kernel (iterate server.recvSockets) := ⟨_, rfl⟩
  have hvisits : ((iterate server.recvSockets).foldlM (visit recvCallback kernel)
      (state, server, false)).map (fun r => (r.1, r.2.2)) =
        (ds.foldlM (deliver recvCallback) state).map fun state => (state, false || decide (ds ≠ [])) := by
    rw [hds]
    exact visits_eq ((hiterate _).nodup_iff.mpr hnd)
  unfold sendAndRecv
  rw [← hds]
  cases hloop : (iterate server.recvSockets).foldlM (visit recvCallback kernel)
      (state, server, false) with
  | error e =>
    rw [hloop] at hvisits
    have herr : ds.foldlM (deliver recvCallback) state = .error e := eq_error_of_map hvisits.symm
    rw [herr]
    rfl
  | ok round =>
    rw [hloop] at hvisits
    obtain ⟨state', hstate', hround⟩ := exists_of_map_eq_ok hvisits.symm
    obtain ⟨hstate, hrecv⟩ := Prod.mk.inj hround
    obtain ⟨-, hsend'⟩ := visits_sockets hloop
    -- no socket has anything to be sent
    have hnone : iterate round.2.1.sendSockets = [] := by
      rw [hsend', hsend]
      exact (hiterate []).eq_nil
    have hfinished : (if round.2.2 then recvFinishedCallback round.1 else round.1) =
        if ds = [] then state' else recvFinishedCallback state' := by
      rw [← hstate, ← hrecv]
      by_cases hempty : ds = [] <;> simp [hempty]
    rw [hstate']
    refine Eq.trans ?_ (congrArg Except.ok hfinished)
    simp only [bind, Except.bind, hnone, List.foldlM_nil, pure, Except.pure, Except.map]

/-- Nor does a round change which sockets are gone through. -/
theorem sendAndRecv_sockets {recvFinishedCallback : τ → τ} {iterate : List σ → List σ}
    {kernel' : σ → Exchanged} {r : τ × TCPServer σ}
    (hok : sendAndRecv recvCallback recvFinishedCallback iterate kernel kernel' state server = .ok r) :
    r.2.recvSockets = server.recvSockets ∧ r.2.sendSockets = server.sendSockets := by
  obtain ⟨⟨state', server', recv'⟩, hloop, hrest⟩ := bind_eq_ok.mp hok
  obtain ⟨⟨state'', server'', recv''⟩, hloop', hr⟩ := bind_eq_ok.mp hrest
  obtain rfl := Except.ok.inj hr
  obtain ⟨hrecv, hsend⟩ := visits_sockets hloop
  obtain ⟨hrecv', hsend'⟩ := visits_sockets hloop'
  exact ⟨hrecv'.trans hrecv, hsend'.trans hsend⟩

/-! ## Polling -/

/-- What the kernel reports is what it was asked for: `AddToEpollList` asks for `EPOLLIN`, and errors come
unasked. -/
def Asked (event : EpollEvent σ) : Prop := event.epollout = false

/-- What holds between two rounds: nothing is to be sent, and no socket is gone through twice. -/
structure Idle (server : TCPServer σ) : Prop where
  sendSockets : server.sendSockets = []
  nodup : server.recvSockets.Nodup

variable {event : EpollEvent σ} {events : List (EpollEvent σ)}

omit [DecidableEq σ] in
theorem idle_init (listenerSocket : σ) : (init listenerSocket).Idle := ⟨rfl, List.nodup_nil⟩

theorem Idle.handleEvent (h : server.Idle) (hasked : Asked event) :
    (server.handleEvent event).Idle := by
  unfold TCPServer.handleEvent
  split
  · exact h
  · constructor
    · dsimp only
      rw [hasked]
      exact h.sendSockets
    · dsimp only
      split
      · exact h.nodup.insert
      · exact h.nodup

theorem Idle.accept (h : server.Idle) (fd : σ) : (server.accept fd).Idle :=
  ⟨h.sendSockets, h.nodup.insert⟩

theorem Idle.poll (h : server.Idle) (hasked : ∀ event ∈ events, Asked event) (accepted : List σ) :
    (server.poll events accepted).Idle := by
  have hevents : (events.foldl TCPServer.handleEvent server).Idle :=
    List.foldlRecOn events _ h fun _ hs event hevent => hs.handleEvent (hasked event hevent)
  unfold TCPServer.poll
  dsimp only
  split
  · exact List.foldlRecOn accepted _ hevents fun _ hs fd _ => hs.accept fd
  · exact hevents

theorem Idle.sendAndRecv {recvFinishedCallback : τ → τ} {iterate : List σ → List σ}
    {kernel' : σ → Exchanged} {r : τ × TCPServer σ} (h : server.Idle)
    (hok : sendAndRecv recvCallback recvFinishedCallback iterate kernel kernel' state server = .ok r) :
    r.2.Idle := by
  obtain ⟨hrecv, hsend⟩ := sendAndRecv_sockets hok
  exact ⟨hsend.trans h.sendSockets, hrecv ▸ h.nodup⟩

end TCPServer

end TradingSystem
