import TradingSystem.Lib.Codec
import TradingSystem.Exchange.Messages

/-!
# The bytes of the messages

The messages between a client and the order server, and those of the multicast streams, are packed
structures, written to the socket as they lie in memory and `reinterpret_cast` on the other side. Their
members follow each other without padding, the integers little-endian, an enumeration as its byte.
-/

namespace TradingSystem

namespace ClientRequestType

def toByte : ClientRequestType → UInt8
  | .invalid => 0
  | .new => 1
  | .cancel => 2
  | .unnamed v => v.val

def ofByte (v : UInt8) : ClientRequestType :=
  if h : v ∈ [0, 1, 2] then if v = 0 then .invalid else if v = 1 then .new else .cancel
  else .unnamed ⟨v, h⟩

@[simp] theorem ofByte_toByte (t : ClientRequestType) : ofByte t.toByte = t := by
  cases t with
  | unnamed v =>
    unfold toByte ofByte
    rw [dif_neg v.property]
  | _ => rfl

def codec : Codec ClientRequestType := Codec.uint8.map ofByte toByte ofByte_toByte

end ClientRequestType

namespace ClientResponseType

def toByte : ClientResponseType → UInt8
  | .invalid => 0
  | .accepted => 1
  | .cancelled => 2
  | .filled => 3
  | .cancelRejected => 5
  | .unnamed v => v.val

def ofByte (v : UInt8) : ClientResponseType :=
  if h : v ∈ [0, 1, 2, 3, 5] then
    if v = 0 then .invalid
    else if v = 1 then .accepted
    else if v = 2 then .cancelled
    else if v = 3 then .filled
    else .cancelRejected
  else .unnamed ⟨v, h⟩

@[simp] theorem ofByte_toByte (t : ClientResponseType) : ofByte t.toByte = t := by
  cases t with
  | unnamed v =>
    unfold toByte ofByte
    rw [dif_neg v.property]
  | _ => rfl

def codec : Codec ClientResponseType := Codec.uint8.map ofByte toByte ofByte_toByte

end ClientResponseType

namespace MarketUpdateType

def toByte : MarketUpdateType → UInt8
  | .invalid => 0
  | .add => 1
  | .modify => 2
  | .cancel => 3
  | .trade => 4
  | .clear => 5
  | .snapshotStart => 6
  | .snapshotEnd => 7
  | .unnamed v => v.val

def ofByte (v : UInt8) : MarketUpdateType :=
  if h : v ∈ [0, 1, 2, 3, 4, 5, 6, 7] then
    if v = 0 then .invalid
    else if v = 1 then .add
    else if v = 2 then .modify
    else if v = 3 then .cancel
    else if v = 4 then .trade
    else if v = 5 then .clear
    else if v = 6 then .snapshotStart
    else .snapshotEnd
  else .unnamed ⟨v, h⟩

@[simp] theorem ofByte_toByte (t : MarketUpdateType) : ofByte t.toByte = t := by
  cases t with
  | unnamed v =>
    unfold toByte ofByte
    rw [dif_neg v.property]
  | _ => rfl

def codec : Codec MarketUpdateType := Codec.uint8.map ofByte toByte ofByte_toByte

end MarketUpdateType

def Side.codec : Codec Side := Codec.uint8.map ofByte toByte ofByte_toByte

def MEClientRequest.codec : Codec MEClientRequest :=
  (ClientRequestType.codec.pair <| Codec.uint32.pair <| Codec.uint32.pair <| Codec.uint64.pair <|
    Side.codec.pair <| Codec.uint64.pair Codec.uint32).map
    (fun (type, clientId, tickerId, orderId, side, price, qty) =>
      { type, clientId, tickerId, orderId, side, price, qty })
    (fun r => (r.type, r.clientId, r.tickerId, r.orderId, r.side, r.price, r.qty))
    (fun _ => rfl)

def OGClientRequest.codec : Codec OGClientRequest :=
  (Codec.uint64.pair MEClientRequest.codec).map
    (fun (seqNum, meClientRequest) => { seqNum, meClientRequest })
    (fun m => (m.seqNum, m.meClientRequest)) (fun _ => rfl)

def MEClientResponse.codec : Codec MEClientResponse :=
  (ClientResponseType.codec.pair <| Codec.uint32.pair <| Codec.uint32.pair <| Codec.uint64.pair <|
    Codec.uint64.pair <| Side.codec.pair <| Codec.uint64.pair <| Codec.uint32.pair Codec.uint32).map
    (fun (type, clientId, tickerId, clientOrderId, marketOrderId, side, price, execQty, leftQty) =>
      { type, clientId, tickerId, clientOrderId, marketOrderId, side, price, execQty, leftQty })
    (fun x => (x.type, x.clientId, x.tickerId, x.clientOrderId, x.marketOrderId, x.side, x.price,
      x.execQty, x.leftQty))
    (fun _ => rfl)

def OGClientResponse.codec : Codec OGClientResponse :=
  (Codec.uint64.pair MEClientResponse.codec).map
    (fun (seqNum, meClientResponse) => { seqNum, meClientResponse })
    (fun m => (m.seqNum, m.meClientResponse)) (fun _ => rfl)

def MEMarketUpdate.codec : Codec MEMarketUpdate :=
  (MarketUpdateType.codec.pair <| Codec.uint64.pair <| Codec.uint32.pair <| Side.codec.pair <|
    Codec.uint64.pair <| Codec.uint32.pair Codec.uint64).map
    (fun (type, orderId, tickerId, side, price, qty, priority) =>
      { type, orderId, tickerId, side, price, qty, priority })
    (fun u => (u.type, u.orderId, u.tickerId, u.side, u.price, u.qty, u.priority))
    (fun _ => rfl)

def MDPMarketUpdate.codec : Codec MDPMarketUpdate :=
  (Codec.uint64.pair MEMarketUpdate.codec).map
    (fun (seqNum, meMarketUpdate) => { seqNum, meMarketUpdate })
    (fun m => (m.seqNum, m.meMarketUpdate)) (fun _ => rfl)

/-- `sizeof(OGClientResquest)`. -/
theorem OGClientRequest.codec_size : OGClientRequest.codec.size = 38 := rfl

/-- `sizeof(OGClientResponse)`. -/
theorem OGClientResponse.codec_size : OGClientResponse.codec.size = 50 := rfl

/-- `sizeof(MDPMarketUpdate)`. -/
theorem MDPMarketUpdate.codec_size : MDPMarketUpdate.codec.size = 42 := rfl

end TradingSystem
