import TradingSystem.Lib.Packing
import TradingSystem.Utils.Types

/-!
# `McastSocket`: one call of `::send` for all that was passed to `send`

`networking/mcast_socket.hpp` and `network/mcast_socket.cpp`. `send` collects data in the send buffer,
and `sendAndRecv` passes the whole buffer to `::send` and forgets it. What `::send` returns is only logged,
so that a buffer which is too large for a datagram is lost (`datagrams`). A datagram that has come in is put
behind what is left in the receive buffer, and the callback is called.

What is passed to `send` are the bytes of messages, one whole message after the other. So each call of
`::send` is for a batch of them, and what is in the send buffer is the next batch (`Batched`).
-/

namespace TradingSystem

def mcastBufferSize : Nat := 8 * 1024 * 1024

/-- The most bytes that a UDP datagram carries. -/
def maxDatagramSize : Nat := 65507

structure McastSocket where
  /-- `outbound_data_[0, next_send_valid_index_)` -/
  outboundData : List UInt8 := []
  /-- `inbound_data_[0, next_rcv_valid_index_)` -/
  inboundData : List UInt8 := []
  /-- the buffers that were passed to `::send`, oldest first -/
  sendCalls : List (List UInt8) := []
deriving DecidableEq

namespace McastSocket

/-- The datagrams among them. A larger buffer `::send` refuses, and so it is dropped. -/
def datagrams (s : McastSocket) : List (List UInt8) :=
  s.sendCalls.filter fun data => data.length ≤ maxDatagramSize

/-- Copy data to the send buffer. -/
def send (s : McastSocket) (data : List UInt8) : Except Fault McastSocket :=
  if s.outboundData.length + data.length ≤ mcastBufferSize then
    .ok { s with outboundData := s.outboundData ++ data }
  else .error .assertion

/-- The second half of `sendAndRecv`: what is in the send buffer is passed to `::send`. -/
def publish (s : McastSocket) : McastSocket :=
  { s with
    outboundData := []
    sendCalls := if s.outboundData.length > 0 then s.sendCalls ++ [s.outboundData] else s.sendCalls }

variable {σ : Type}

/-- Read a datagram, if one has come in (`read` is empty otherwise), and publish what is in the send
buffer. The callback has a state `σ`, and returns what it leaves in the receive buffer. -/
def sendAndRecv (recvCallback : σ → List UInt8 → σ × List UInt8) (state : σ) (s : McastSocket)
    (read : List UInt8) : σ × McastSocket :=
  -- `recv` cuts a datagram off at the end of the buffer
  let read := read.take (mcastBufferSize - s.inboundData.length)
  let (state, inboundData) :=
    if read.length > 0 then recvCallback state (s.inboundData ++ read) else (state, s.inboundData)
  (state, { s with inboundData := inboundData }.publish)

variable {s s' : McastSocket} {data : List UInt8} {recvCallback : σ → List UInt8 → σ × List UInt8}
  {state : σ} {read : List UInt8}

/-- A socket that is only sent on receives nothing. -/
theorem sendAndRecv_nil : s.sendAndRecv recvCallback state [] = (state, s.publish) := by
  unfold sendAndRecv
  rw [List.take_nil]
  rfl

/-- A datagram that there is room for comes in whole. -/
theorem sendAndRecv_of_le (hread : read ≠ [])
    (hroom : s.inboundData.length + read.length ≤ mcastBufferSize) :
    s.sendAndRecv recvCallback state read =
      ((recvCallback state (s.inboundData ++ read)).1,
        { s with inboundData := (recvCallback state (s.inboundData ++ read)).2 }.publish) := by
  unfold sendAndRecv
  rw [List.take_of_length_le (by omega)]
  dsimp only
  rw [if_pos (List.length_pos_iff.mpr hread)]

theorem send_of_le (h : s.outboundData.length + data.length ≤ mcastBufferSize) :
    s.send data = .ok { s with outboundData := s.outboundData ++ data } := if_pos h

theorem send_of_lt (h : mcastBufferSize < s.outboundData.length + data.length) :
    s.send data = .error .assertion := if_neg (Nat.not_le.mpr h)

/-- Two pieces are sent as one. -/
theorem send_send (data data' : List UInt8) :
    (s.send data >>= fun s => s.send data') = s.send (data ++ data') := by
  by_cases hfirst : s.outboundData.length + data.length ≤ mcastBufferSize
  · rw [send_of_le hfirst]
    show send { s with outboundData := s.outboundData ++ data } data' = _
    unfold send
    simp only [List.length_append, List.append_assoc, Nat.add_assoc]
  · rw [send_of_lt (Nat.not_le.mp hfirst), send_of_lt (by rw [List.length_append]; omega)]
    rfl

/-! ## Batches of messages -/

variable {α : Type} {c : Codec α} {before : List (List UInt8)} {batches : List (List α)}
  {pending : List α} {a : α}

/-- After the calls `before` the socket has passed the batches to `::send`, and `pending` is to come. -/
structure Batched (s : McastSocket) (c : Codec α) (before : List (List UInt8))
    (batches : List (List α)) (pending : List α) : Prop where
  sendCalls : s.sendCalls = before ++ batches.map c.pack
  outbound : s.outboundData = c.pack pending
  nonempty : [] ∉ batches

/-- The batches with the last one, if there is something in it. -/
def withLast (batches : List (List α)) (pending : List α) : List (List α) :=
  if pending.length > 0 then batches ++ [pending] else batches

theorem flatten_withLast : (withLast batches pending).flatten = batches.flatten ++ pending := by
  unfold withLast
  split
  · rw [List.flatten_concat]
  · next hempty =>
    rw [List.length_eq_zero_iff.mp (Nat.eq_zero_of_not_pos hempty), List.append_nil]

theorem mem_withLast {b : List α} (h : b ∈ withLast batches pending) : b ∈ batches ∨ b = pending := by
  unfold withLast at h
  split at h
  · rw [List.mem_append, List.mem_singleton] at h
    exact h
  · exact Or.inl h

namespace Batched

/-- A socket with nothing to send. -/
theorem of_empty (houtbound : s.outboundData = []) : s.Batched c s.sendCalls [] [] :=
  ⟨(List.append_nil _).symm, houtbound, nofun⟩

/-- Whether there is room for another message. -/
theorem room_iff (h : s.Batched c before batches pending) :
    s.outboundData.length + (c.encode a).length ≤ mcastBufferSize ↔
      (pending.length + 1) * c.size ≤ mcastBufferSize := by
  rw [h.outbound, Codec.length_pack, c.length_encode, Nat.succ_mul]

theorem send_of_le (h : s.Batched c before batches pending)
    (hroom : (pending.length + 1) * c.size ≤ mcastBufferSize) :
    ∃ s', s.send (c.encode a) = .ok s' ∧ s'.Batched c before batches (pending ++ [a]) := by
  refine ⟨_, McastSocket.send_of_le (h.room_iff.mpr hroom), h.sendCalls, ?_, h.nonempty⟩
  dsimp only
  rw [h.outbound, Codec.pack_append, Codec.pack_singleton]

theorem send_of_lt (h : s.Batched c before batches pending)
    (hfull : mcastBufferSize < (pending.length + 1) * c.size) :
    s.send (c.encode a) = .error .assertion :=
  McastSocket.send_of_lt (Nat.not_le.mp (mt h.room_iff.mp (Nat.not_le.mpr hfull)))

/-- What is pending is the last batch. -/
theorem publish (h : s.Batched c before batches pending) (hsize : 0 < c.size) :
    s.publish.Batched c before (withLast batches pending) [] := by
  have hlength : s.outboundData.length > 0 ↔ pending.length > 0 := by
    rw [h.outbound, Codec.length_pack]
    exact Nat.mul_pos_iff_of_pos_right hsize
  refine ⟨?_, rfl, ?_⟩
  · show (if s.outboundData.length > 0 then _ else _) = _
    unfold withLast
    by_cases hpos : pending.length > 0
    · rw [if_pos (hlength.mpr hpos), if_pos hpos, h.sendCalls, h.outbound, List.map_append,
        List.append_assoc]
      rfl
    · rw [if_neg (mt hlength.mp hpos), if_neg hpos, h.sendCalls]
  · unfold withLast
    split
    · next hpos =>
      rw [List.mem_append, List.mem_singleton]
      rintro (hmem | hnil)
      · exact h.nonempty hmem
      · rw [← hnil] at hpos
        exact Nat.lt_irrefl 0 hpos
    · exact h.nonempty

end Batched

end McastSocket

end TradingSystem
