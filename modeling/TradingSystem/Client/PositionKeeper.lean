import TradingSystem.Exchange.Messages

/-!
# `PositionKeeper` and `RiskManager`

`client/position_keeper.hpp`, `client/risk_manager.hpp` and what they use of `utils/types.hpp` and
`client/market_order.hpp`. A position is updated from each fill, and the risk of an order is checked
against it before the order is sent.

Profit and loss are in doubles in the source. Here they are in any type `D` with the operations that
the source uses, of which nothing is assumed: integers are converted to `D` where the source
converts them. Indices into the arrays of sides are sides.
-/

namespace TradingSystem

/-- `sideToValue`. -/
def Side.toValue (s : Side) : Int32 := s.toByte.toInt8.toInt32

structure BBO where
  bidPrice : Price := priceInvalid
  askPrice : Price := priceInvalid
  bidQty : Qty := qtyInvalid
  askQty : Qty := qtyInvalid
  deriving DecidableEq

variable {D : Type} [Add D] [Sub D] [Mul D] [Div D] [LT D] [DecidableLT D] [IntCast D]

/-- An unsigned 64-bit integer as a `D`. -/
def ofUInt64 (x : UInt64) : D := ((x.toNat : ℤ) : D)

/-- A signed 32-bit integer as a `D`. -/
def ofInt32 (x : Int32) : D := (x.toInt : D)

structure PositionInfo (D : Type) where
  position : Int32
  realPnl : D
  unrealPnl : D
  totalPnl : D
  openVwap : Side → D
  volume : Qty
  bbo : BBO

namespace PositionInfo

def init : PositionInfo D where
  position := 0
  realPnl := ofInt32 0
  unrealPnl := ofInt32 0
  totalPnl := ofInt32 0
  openVwap := fun _ => ofInt32 0
  volume := 0
  bbo := {}

/-- The profit or loss of the open position at a price. -/
def unrealAt (p : PositionInfo D) (price : Price) : D :=
  if p.position > 0 then
    (ofUInt64 price - p.openVwap .buy / ofInt32 p.position.abs) * ofInt32 p.position.abs
  else
    (p.openVwap .sell / ofInt32 p.position.abs - ofUInt64 price) * ofInt32 p.position.abs

def addFill (p : PositionInfo D) (r : MEClientResponse) : PositionInfo D :=
  let oldPosition := p.position
  let oppSide : Side := if r.side = .buy then .sell else .buy
  let sideValue := r.side.toValue
  -- both are assigned, not added to
  let volume := r.execQty
  let position := (volume * sideValue.toUInt32).toInt32
  let p : PositionInfo D := { p with volume := volume, position := position }
  let p : PositionInfo D :=
    if oldPosition * sideValue ≥ 0 then
      let sideVwap := p.openVwap r.side + ofUInt64 (r.price * r.execQty.toUInt64)
      { p with openVwap := Function.update p.openVwap r.side sideVwap }
    else
      let oppSideVwap := p.openVwap oppSide / ofInt32 oldPosition.abs
      let openVwap := Function.update p.openVwap oppSide (oppSideVwap * ofInt32 position.abs)
      let realPnl := p.realPnl + ofInt32 (min r.execQty.toInt32 oldPosition.abs) *
        (oppSideVwap - ofUInt64 r.price) * ofInt32 sideValue
      if position * oldPosition < 0 then
        -- the position has changed its sign
        let sideVwap := ofUInt64 (r.price * position.abs.toInt64.toUInt64)
        let openVwap := Function.update openVwap r.side sideVwap
        { p with realPnl := realPnl, openVwap := Function.update openVwap oppSide (ofInt32 0) }
      else { p with realPnl := realPnl, openVwap := openVwap }
  let p : PositionInfo D :=
    if p.position = 0 then
      -- the source resets the entry of the buy side twice
      { p with openVwap := Function.update p.openVwap .buy (ofInt32 0), unrealPnl := ofInt32 0 }
    else { p with unrealPnl := p.unrealAt r.price }
  { p with totalPnl := p.unrealPnl + p.realPnl }

def updateBBO (p : PositionInfo D) (bbo : BBO) : PositionInfo D :=
  let p := { p with bbo := bbo }
  if p.position ≠ 0 ∧ bbo.askPrice ≠ priceInvalid ∧ bbo.bidPrice ≠ priceInvalid then
    let p := { p with unrealPnl := p.unrealAt ((bbo.askPrice + bbo.bidPrice) / 2) }
    { p with totalPnl := p.realPnl + p.unrealPnl }
  else p

end PositionInfo

/-- `ticker_position_`. -/
abbrev PositionKeeper (D : Type) := TickerId → PositionInfo D

namespace PositionKeeper

def init : PositionKeeper D := fun _ => .init

def addFill (k : PositionKeeper D) (r : MEClientResponse) : Except Fault (PositionKeeper D) :=
  if r.tickerId.toNat < meMaxTickers then
    .ok (Function.update k r.tickerId ((k r.tickerId).addFill r))
  else .error .outOfRange

def updateBBO (k : PositionKeeper D) (ticker : TickerId) (bbo : BBO) :
    Except Fault (PositionKeeper D) :=
  if ticker.toNat < meMaxTickers then
    .ok (Function.update k ticker ((k ticker).updateBBO bbo))
  else .error .outOfRange

end PositionKeeper

/-! ## Risk -/

inductive RiskCheckResult where
  | invalid
  | orderTooLarge
  | positionTooLarge
  | lossTooLarge
  | allowed
  deriving DecidableEq

structure RiskCfg (D : Type) where
  maxOrderSize : Qty
  maxPosition : Qty
  maxLoss : D

structure TradeEngineCfg (D : Type) where
  clip : Qty
  threshold : D
  riskCfg : RiskCfg D

structure RiskInfo (D : Type) where
  positionInfo : PositionInfo D
  riskCfg : RiskCfg D

def RiskInfo.checkPreTradeRisk (i : RiskInfo D) (side : Side) (qty : Qty) : RiskCheckResult :=
  if qty > i.riskCfg.maxOrderSize then .orderTooLarge
  else if (i.positionInfo.position + side.toValue * qty.toInt32).abs > i.riskCfg.maxPosition.toInt32
  then .positionTooLarge
  else if i.positionInfo.totalPnl < i.riskCfg.maxLoss then .lossTooLarge
  else .allowed

/-- `RiskManager::checkPreTradeRisk`, for a ticker in the table of risks. The risk manager reads the
positions of the keeper. -/
def checkPreTradeRisk (k : PositionKeeper D) (tickerCfg : TickerId → TradeEngineCfg D)
    (ticker : TickerId) (side : Side) (qty : Qty) : RiskCheckResult :=
  RiskInfo.checkPreTradeRisk ⟨k ticker, (tickerCfg ticker).riskCfg⟩ side qty

end TradingSystem
