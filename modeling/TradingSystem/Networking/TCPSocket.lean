import TradingSystem.Lib.Run
import TradingSystem.Utils.Types

/-!
# `TCPSocket`: what becomes of the bytes passed to `send`

`networking/tcp_socket.hpp` and `network/tcp_socket.cpp`. A socket keeps a buffer for the bytes to be
sent and one for those received; here each is the bytes below its index. `sendAndRecv` hands the
received bytes to a callback and offers the outgoing ones to the kernel.

The socket is not blocking: the kernel may accept any number of the bytes offered, or refuse them with
-1. `sendAndRecv` does not look at the number. Nothing is lost exactly in the runs in which every offer
is accepted whole (`run_nothing_lost_iff`).
-/

namespace TradingSystem

def tcpBufferSize : Nat := 8 * 1024 * 1024

structure TCPSocket where
  /-- `send_buffer_[0, send_next_valid_idx_)` -/
  sendBuffer : List UInt8 := []
  /-- `recv_buffer_[0, recv_next_valid_idx_)` -/
  recvBuffer : List UInt8 := []

namespace TCPSocket

/-- Write outgoing data to the send buffer. `memcpy` does not check whether there is room. -/
def send (s : TCPSocket) (data : List UInt8) : Except Fault TCPSocket :=
  if s.sendBuffer.length + data.length ≤ tcpBufferSize then
    .ok { s with sendBuffer := s.sendBuffer ++ data }
  else .error .outOfBounds

variable {σ : Type}

/-- Receive what the kernel has read, if anything, and offer it what is in the send buffer. The
callback has a state `σ`, which changes with it, and returns what it leaves in the receive buffer; the
kernel returns `n` from its `send`. The bytes it accepted are returned last. -/
def sendAndRecv (recvCallback : σ → List UInt8 → Nanos → Except Fault (σ × List UInt8)) (state : σ)
    (s : TCPSocket) (read : List UInt8) (rxTime : Nanos) (n : ℤ) :
    Except Fault (σ × TCPSocket × List UInt8) := do
  let (state, recvBuffer) ←
    (if read.length > 0 then recvCallback state (s.recvBuffer ++ read) rxTime
    else .ok (state, s.recvBuffer))
  let accepted := if s.sendBuffer.length > 0 then s.sendBuffer.take n.toNat else []
  return (state, { sendBuffer := [], recvBuffer := recvBuffer }, accepted)

/-! ## Runs of a connection -/

/-- A socket, the state of its callback, and the bytes the kernel has accepted so far. -/
structure Connection (σ : Type) where
  socket : TCPSocket
  state : σ
  accepted : List UInt8

inductive Call where
  | send (data : List UInt8)
  | sendAndRecv (read : List UInt8) (rxTime : Nanos) (n : ℤ)

namespace Connection

variable {recvCallback : σ → List UInt8 → Nanos → Except Fault (σ × List UInt8)}
  {c c' : Connection σ} {calls : List Call} {call : Call} {state : σ}

/-- The constructor. -/
def init (state : σ) : Connection σ := ⟨{}, state, []⟩

def step (recvCallback : σ → List UInt8 → Nanos → Except Fault (σ × List UInt8)) (c : Connection σ) :
    Call → Except Fault (Connection σ)
  | .send data => do
    let socket ← c.socket.send data
    return { c with socket := socket }
  | .sendAndRecv read rxTime n => do
    let (state, socket, accepted) ← c.socket.sendAndRecv recvCallback c.state read rxTime n
    return { socket := socket, state := state, accepted := c.accepted ++ accepted }

/-- What the kernel can return: -1, or how many of the bytes offered it accepted. -/
def CanReturn (c : Connection σ) : Call → Prop
  | .send _ => True
  | .sendAndRecv _ _ n => -1 ≤ n ∧ n ≤ c.socket.sendBuffer.length

/-- If bytes are offered, all of them are accepted. -/
def AcceptsAll (c : Connection σ) : Call → Prop
  | .send _ => True
  | .sendAndRecv _ _ n => c.socket.sendBuffer ≠ [] → n = c.socket.sendBuffer.length

/-- All bytes passed to `send`. -/
def passed (calls : List Call) : List UInt8 :=
  calls.flatMap fun
    | .send data => data
    | .sendAndRecv _ _ _ => []

/-- The bytes the kernel has accepted and those that it will still be offered. -/
def kept (c : Connection σ) : List UInt8 := c.accepted ++ c.socket.sendBuffer

theorem passed_concat (call : Call) : passed (calls ++ [call]) = passed calls ++ passed [call] := by
  unfold passed
  rw [List.flatMap_append]

/-- A call of `send` keeps its data. -/
theorem kept_send {data : List UInt8} (hok : c.step recvCallback (.send data) = .ok c') :
    c'.kept = c.kept ++ data := by
  obtain ⟨socket, hsend, hc⟩ := bind_eq_ok.mp hok
  obtain rfl := Except.ok.inj hc
  unfold TCPSocket.send at hsend
  split at hsend
  · obtain rfl := Except.ok.inj hsend
    unfold kept
    rw [List.append_assoc]
  · cases hsend

/-- A call of `sendAndRecv` keeps what was accepted before and what is accepted now. -/
theorem kept_sendAndRecv {read : List UInt8} {rxTime : Nanos} {n : ℤ}
    (hok : c.step recvCallback (.sendAndRecv read rxTime n) = .ok c') :
    c'.kept = c.accepted ++ c.socket.sendBuffer.take n.toNat := by
  obtain ⟨⟨state, socket, accepted⟩, hsend, hc⟩ := bind_eq_ok.mp hok
  obtain rfl := Except.ok.inj hc
  obtain ⟨⟨state', recvBuffer⟩, -, hresult⟩ := bind_eq_ok.mp hsend
  obtain ⟨-, hrest⟩ := Prod.mk.inj (Except.ok.inj hresult)
  obtain ⟨rfl, rfl⟩ := Prod.mk.inj hrest
  unfold kept
  rw [List.append_nil]
  split
  · rfl
  · next hempty =>
    have hnil : c.socket.sendBuffer = [] := List.length_eq_zero_iff.mp (by omega)
    rw [hnil, List.take_nil]

/-- What a step keeps: all, exactly if what is offered is accepted. -/
theorem length_kept_step (hreturn : c.CanReturn call) (hok : c.step recvCallback call = .ok c') :
    c'.kept.length ≤ c.kept.length + (passed [call]).length ∧
      (c'.kept.length = c.kept.length + (passed [call]).length ↔ c.AcceptsAll call) := by
  cases call with
  | send data =>
    rw [kept_send hok, List.length_append]
    simp [passed, AcceptsAll]
  | sendAndRecv read rxTime n =>
    obtain ⟨hlow, hhigh⟩ := hreturn
    rw [kept_sendAndRecv hok]
    unfold kept AcceptsAll
    simp only [List.length_append, List.length_take, passed, List.flatMap_cons, List.flatMap_nil,
      List.append_nil, List.length_nil, ← List.length_pos_iff]
    refine ⟨by omega, ?_⟩
    constructor
    · intro h hpos
      omega
    · intro h
      by_cases hpos : 0 < c.socket.sendBuffer.length
      · have := h hpos
        omega
      · omega

theorem kept_step (hall : c.AcceptsAll call) (hok : c.step recvCallback call = .ok c') :
    c'.kept = c.kept ++ passed [call] := by
  cases call with
  | send data =>
    rw [kept_send hok]
    simp [passed]
  | sendAndRecv read rxTime n =>
    rw [kept_sendAndRecv hok]
    show _ = (c.accepted ++ c.socket.sendBuffer) ++ []
    rw [List.append_nil]
    congr 1
    by_cases hempty : c.socket.sendBuffer = []
    · rw [hempty, List.take_nil]
    · rw [hall hempty, Int.toNat_natCast, List.take_length]

/-- **When nothing is lost**: exactly in the runs in which the kernel accepts all it is offered. -/
theorem run_nothing_lost_iff (hreturn : AllSteps (step recvCallback) (init state)
      (fun _ => CanReturn) calls)
    (hrun : calls.foldlM (step recvCallback) (init state) = .ok c) :
    c.accepted ++ c.socket.sendBuffer = passed calls ↔
      AllSteps (step recvCallback) (init state) (fun _ => AcceptsAll) calls := by
  -- what is lost once stays missing, so that the lengths tell
  have hholds : c.kept.length ≤ (passed calls).length ∧
      (c.kept.length = (passed calls).length →
        AllSteps (step recvCallback) (init state) (fun _ => AcceptsAll) calls) ∧
      (AllSteps (step recvCallback) (init state) (fun _ => AcceptsAll) calls →
        c.kept = passed calls) := by
    apply run_induction (motive := fun calls c => c.kept.length ≤ (passed calls).length ∧
      (c.kept.length = (passed calls).length →
        AllSteps (step recvCallback) (init state) (fun _ => AcceptsAll) calls) ∧
      (AllSteps (step recvCallback) (init state) (fun _ => AcceptsAll) calls →
        c.kept = passed calls)) _ _ hreturn hrun
    · refine ⟨le_rfl, ?_, fun _ => rfl⟩
      intro _ pre call post _ hcalls
      simp at hcalls
    · intro calls call c c' hrun hcan ⟨hle, hlength, hkept⟩ hok
      obtain ⟨hstep, hiff⟩ := length_kept_step hcan hok
      rw [passed_concat, List.length_append]
      refine ⟨by omega, ?_, ?_⟩
      · intro heq
        rw [allSteps_concat_iff hrun]
        exact ⟨hlength (by omega), hiff.mp (by omega)⟩
      · intro hall
        rw [allSteps_concat_iff hrun] at hall
        rw [kept_step hall.2 hok, hkept hall.1]
  constructor
  · intro heq
    exact hholds.2.1 (congrArg List.length heq)
  · intro hall
    exact hholds.2.2 hall

/-- A callback that leaves everything in the buffer. -/
def noCallback (_ : Unit) (recvBuffer : List UInt8) (_ : Nanos) :
    Except Fault (Unit × List UInt8) :=
  .ok ((), recvBuffer)

instance (c : Connection σ) : DecidablePred c.CanReturn
  | .send _ => inferInstanceAs (Decidable True)
  | .sendAndRecv _ _ _ => inferInstanceAs (Decidable (_ ∧ _))

instance (c : Connection σ) : DecidablePred c.AcceptsAll
  | .send _ => inferInstanceAs (Decidable True)
  | .sendAndRecv _ _ _ => inferInstanceAs (Decidable (_ → _))

/-- Three bytes are sent, of which the kernel accepts `n`. -/
def threeBytes (n : ℤ) : List Call := [.send [1, 2, 3], .sendAndRecv [] 0 n]

theorem run_nothing_lost_whole :
    ∃ c, (threeBytes 3).foldlM (step noCallback) (init ()) = .ok c ∧
      c.accepted ++ c.socket.sendBuffer = passed (threeBytes 3) := by
  have hreturn : AllSteps (step noCallback) (init ()) (fun _ => CanReturn) (threeBytes 3) :=
    AllSteps.of_check (by decide)
  have hall : AllSteps (step noCallback) (init ()) (fun _ => AcceptsAll) (threeBytes 3) :=
    AllSteps.of_check (by decide)
  exact ⟨_, rfl, (run_nothing_lost_iff hreturn rfl).mpr hall⟩

/-- Of the three bytes the kernel accepts two. The third is neither accepted nor kept. -/
theorem lost_of_accepted_in_part :
    ∃ c, AllSteps (step noCallback) (init ()) (fun _ => CanReturn) (threeBytes 2) ∧
      (threeBytes 2).foldlM (step noCallback) (init ()) = .ok c ∧
      passed (threeBytes 2) = [1, 2, 3] ∧ c.accepted ++ c.socket.sendBuffer = [1, 2] :=
  ⟨_, AllSteps.of_check (by decide), rfl, rfl, rfl⟩

end Connection

end TCPSocket

end TradingSystem
