import TradingSystem.Networking.McastSocket
import TradingSystem.Exchange.MessageCodec
import TradingSystem.Client.MarketDataConsumer

/-!
# The bytes that the market data consumer receives

`MarketDataConsumer::recvCallbacks` and `run`, with the two sockets. The loop takes messages from the
front of the receive buffer as long as there is a whole one; while the consumer is not in recovery, the
buffer of the snapshot socket is thrown away. Datagrams that carry whole messages leave nothing in a
buffer, and the consumer does with them what it does with the lists of their messages
(`receiveAll_pack`).
-/

namespace TradingSystem

namespace MarketDataConsumer

/-- The loop in `recvCallbacks`. What is left in the buffer is returned with the consumer. -/
def recvLoop (isSnapshot : Bool) (c : MarketDataConsumer) (inboundData : List UInt8) :
    MarketDataConsumer × List UInt8 :=
  if MDPMarketUpdate.codec.size ≤ inboundData.length then
    let message := MDPMarketUpdate.codec.decode (inboundData.take MDPMarketUpdate.codec.size)
    recvLoop isSnapshot (c.receive isSnapshot message)
      (inboundData.drop MDPMarketUpdate.codec.size)
  else (c, inboundData)
termination_by inboundData.length
decreasing_by
  have hsize := MDPMarketUpdate.codec_size
  rw [List.length_drop]
  omega

/-- `recvCallbacks`, on the bytes in the receive buffer. -/
def recvBytes (isSnapshot : Bool) (c : MarketDataConsumer) (inboundData : List UInt8) :
    MarketDataConsumer × List UInt8 :=
  if !c.packetLost && isSnapshot then (c, []) else c.recvLoop isSnapshot inboundData

end MarketDataConsumer

structure MarketDataReceiver where
  consumer : MarketDataConsumer
  incrementalSocket : McastSocket
  snapshotSocket : McastSocket

namespace MarketDataReceiver

open MarketDataConsumer (recvLoop recvBytes receive)

/-- The constructor. -/
def init : MarketDataReceiver where
  consumer := .init
  incrementalSocket := {}
  snapshotSocket := {}

/-- `sendAndRecv` on one of the two sockets, with the datagram that has come in, if any. -/
def sendAndRecv (r : MarketDataReceiver) (isSnapshot : Bool) (datagram : List UInt8) :
    MarketDataReceiver :=
  if isSnapshot then
    let (consumer, socket) :=
      r.snapshotSocket.sendAndRecv (fun c bytes => c.recvBytes true bytes) r.consumer datagram
    { r with consumer := consumer, snapshotSocket := socket }
  else
    let (consumer, socket) :=
      r.incrementalSocket.sendAndRecv (fun c bytes => c.recvBytes false bytes) r.consumer datagram
    { r with consumer := consumer, incrementalSocket := socket }

/-- The loop in `run`. -/
def receiveAll (r : MarketDataReceiver) (datagrams : List (Bool × List UInt8)) :
    MarketDataReceiver :=
  datagrams.foldl (fun r datagram => r.sendAndRecv datagram.1 datagram.2) r

variable {r : MarketDataReceiver} {c : MarketDataConsumer} {isSnapshot : Bool} {bytes : List UInt8}
  {ms : List MDPMarketUpdate}

/-- The loop takes the complete messages, and leaves what comes after them. -/
theorem recvLoop_eq :
    c.recvLoop isSnapshot bytes =
      ((MDPMarketUpdate.codec.unpack bytes).foldl (receive isSnapshot) c,
        rest MDPMarketUpdate.codec.size bytes) := by
  induction c, bytes using MarketDataConsumer.recvLoop.induct isSnapshot with
  | case1 c bytes hle message ih =>
    rw [recvLoop, if_pos hle, Codec.unpack_of_le (by decide) hle, rest_of_le (by decide) hle,
      List.foldl_cons]
    exact ih
  | case2 c bytes hlt =>
    have hlt := Nat.not_le.mp hlt
    rw [recvLoop, if_neg (Nat.not_le.mpr hlt), Codec.unpack_of_lt hlt, rest_of_lt hlt]
    rfl

/-- A buffer of whole messages is a callback with these messages, and is emptied. -/
theorem recvBytes_pack :
    c.recvBytes isSnapshot (MDPMarketUpdate.codec.pack ms) = (c.recvCallbacks isSnapshot ms, []) := by
  unfold recvBytes MarketDataConsumer.recvCallbacks
  split
  · rfl
  · rw [recvLoop_eq, Codec.unpack_pack (by decide), Codec.rest_pack (by decide)]

/-- Nothing is left in the receive buffers, and nothing is there to be sent. -/
structure Idle (r : MarketDataReceiver) : Prop where
  incremental : r.incrementalSocket = {}
  snapshot : r.snapshotSocket = {}

theorem idle_init : init.Idle := ⟨rfl, rfl⟩

/-- A socket with empty buffers takes a datagram of whole messages. -/
theorem sendAndRecv_socket (hsize : (MDPMarketUpdate.codec.pack ms).length ≤ mcastBufferSize) :
    McastSocket.sendAndRecv (fun c bytes => c.recvBytes isSnapshot bytes) c {}
        (MDPMarketUpdate.codec.pack ms) =
      (c.recvCallbacks isSnapshot ms, {}) := by
  by_cases hnil : ms = []
  · subst hnil
    rw [Codec.pack_nil, McastSocket.sendAndRecv_nil]
    unfold MarketDataConsumer.recvCallbacks
    split <;> rfl
  · have hread : MDPMarketUpdate.codec.pack ms ≠ [] := fun h =>
      hnil ((Codec.pack_eq_nil (by decide)).mp h)
    rw [McastSocket.sendAndRecv_of_le hread (by simpa using hsize)]
    dsimp only
    rw [List.nil_append, recvBytes_pack]
    rfl

/-- **Step lemma.** -/
theorem Idle.sendAndRecv (h : r.Idle) (isSnapshot : Bool)
    (hsize : (MDPMarketUpdate.codec.pack ms).length ≤ mcastBufferSize) :
    (r.sendAndRecv isSnapshot (MDPMarketUpdate.codec.pack ms)).Idle ∧
      (r.sendAndRecv isSnapshot (MDPMarketUpdate.codec.pack ms)).consumer =
        r.consumer.recvCallbacks isSnapshot ms := by
  unfold MarketDataReceiver.sendAndRecv
  rw [h.incremental, h.snapshot]
  cases isSnapshot with
  | true =>
    rw [if_pos rfl, sendAndRecv_socket hsize]
    exact ⟨⟨rfl, rfl⟩, rfl⟩
  | false =>
    rw [if_neg Bool.false_ne_true, sendAndRecv_socket hsize]
    exact ⟨⟨rfl, rfl⟩, rfl⟩

/-- **From bytes to messages.** Whatever datagrams of whole messages come in on the two sockets, the
consumer is as after the callbacks with their messages. -/
theorem receiveAll_pack (callbacks : List (Bool × List MDPMarketUpdate))
    (hsize : ∀ callback ∈ callbacks,
      (MDPMarketUpdate.codec.pack callback.2).length ≤ mcastBufferSize) :
    (init.receiveAll (callbacks.map fun callback =>
        (callback.1, MDPMarketUpdate.codec.pack callback.2))).consumer =
      MarketDataConsumer.init.run callbacks := by
  suffices ∀ r : MarketDataReceiver, r.Idle → (r.receiveAll (callbacks.map fun callback =>
      (callback.1, MDPMarketUpdate.codec.pack callback.2))).consumer = r.consumer.run callbacks from
    this init idle_init
  induction callbacks with
  | nil =>
    intro r _
    rfl
  | cons callback callbacks ih =>
    intro r h
    obtain ⟨h', hconsumer⟩ := h.sendAndRecv callback.1
      (hsize callback List.mem_cons_self)
    have hrest := ih (fun callback' hmem => hsize callback' (List.mem_cons_of_mem _ hmem)) _ h'
    rw [hconsumer] at hrest
    exact hrest

end MarketDataReceiver

end TradingSystem
