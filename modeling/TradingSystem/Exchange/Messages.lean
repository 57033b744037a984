import TradingSystem.Utils.Types

/-!
# The messages of the exchange

`exchange/client_request.hpp`, `exchange/client_response.hpp` and `exchange/market_data.hpp`. Every
field has the default the source gives it, so that a message built from a few fields (a `CLEAR`, a
`SNAPSHOT_START`) carries the source's values in the others.
-/

namespace TradingSystem

/-- `enum class ClientRequestType : uint8_t`. -/
inductive ClientRequestType where
  | invalid
  | new
  | cancel
  | unnamed (v : { v : UInt8 // v ∉ [0, 1, 2] })
  deriving DecidableEq

/-- A request as the matching engine reads it. -/
structure MEClientRequest where
  type : ClientRequestType := .invalid
  clientId : ClientId := clientIdInvalid
  tickerId : TickerId := tickerIdInvalid
  orderId : OrderId := orderIdInvalid
  side : Side := .invalid
  price : Price := priceInvalid
  qty : Qty := qtyInvalid
  deriving DecidableEq

/-- A request as a client sends it to the order gateway. -/
structure OGClientRequest where
  seqNum : UInt64 := 0
  meClientRequest : MEClientRequest
  deriving DecidableEq

/-- `enum class ClientResponseType : uint8_t`. -/
inductive ClientResponseType where
  | invalid
  | accepted
  | cancelled
  | filled
  | cancelRejected
  | unnamed (v : { v : UInt8 // v ∉ [0, 1, 2, 3, 5] })
  deriving DecidableEq

/-- A response as the matching engine writes it. -/
structure MEClientResponse where
  type : ClientResponseType := .invalid
  clientId : ClientId := clientIdInvalid
  tickerId : TickerId := tickerIdInvalid
  clientOrderId : OrderId := orderIdInvalid
  marketOrderId : OrderId := orderIdInvalid
  side : Side := .invalid
  price : Price := priceInvalid
  execQty : Qty := qtyInvalid
  leftQty : Qty := qtyInvalid
  deriving DecidableEq

/-- A response as the order gateway sends it to a client. -/
structure OGClientResponse where
  seqNum : UInt64 := 0
  meClientResponse : MEClientResponse
  deriving DecidableEq

/-- `enum class MarketUpdateType : uint8_t`. -/
inductive MarketUpdateType where
  | invalid
  | add
  | modify
  | cancel
  | trade
  | clear
  | snapshotStart
  | snapshotEnd
  | unnamed (v : { v : UInt8 // v ∉ [0, 1, 2, 3, 4, 5, 6, 7] })
  deriving DecidableEq

/-- A market data update as the matching engine writes it. -/
structure MEMarketUpdate where
  type : MarketUpdateType := .invalid
  orderId : OrderId := orderIdInvalid
  tickerId : TickerId := tickerIdInvalid
  side : Side := .invalid
  price : Price := priceInvalid
  qty : Qty := qtyInvalid
  priority : Priority := priorityInvalid
  deriving DecidableEq

/-- A market data update in the public format of the multicast streams. -/
structure MDPMarketUpdate where
  seqNum : UInt64 := 0
  meMarketUpdate : MEMarketUpdate
  deriving DecidableEq

end TradingSystem
