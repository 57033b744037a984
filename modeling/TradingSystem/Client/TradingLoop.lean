import TradingSystem.Lib.Components
import TradingSystem.Client.MarketOrderBook
import TradingSystem.Client.Strategies
import TradingSystem.Client.RandomTrader
import TradingSystem.Client.TradeEngine

/-!
# The loop of `TradeEngine`

`client/feature_engine.hpp`, and the whole of `client/trade_engine.hpp` and `client/trade_engine.cpp`: the
books of all tickers, the features, and the strategy that the algorithm type selects, over the part that
keeps positions and orders. A pass of `run` calls the random trader, then handles responses, then market
updates; here these come in any order.

Whatever the strategy does, the books are machines side by side, each fed the updates of its ticker
(`run_books`).
-/

namespace TradingSystem

/-- `enum class AlgoType : int8_t`. -/
inductive AlgoType where
  | invalid
  | random
  | maker
  | taker
  | max
  deriving DecidableEq

variable {D : Type} [Add D] [Sub D] [Mul D] [Div D] [LT D] [DecidableLT D] [LE D] [DecidableLE D]
  [IntCast D]

structure FeatureEngine (D : Type) where
  mktPrice : D
  aggTradeQtyRatio : D

namespace FeatureEngine

def onOrderBookUpdate (f : FeatureEngine D) (bbo : BBO) : FeatureEngine D :=
  if bbo.bidPrice ≠ priceInvalid ∧ bbo.askPrice ≠ priceInvalid then
    { f with mktPrice :=
        ofUInt64 (bbo.bidPrice * bbo.bidQty.toUInt64 + bbo.askPrice * bbo.askQty.toUInt64) /
          ofUInt64 (bbo.askQty + bbo.bidQty).toUInt64 }
  else f

def onTradeUpdate (f : FeatureEngine D) (u : MEMarketUpdate) (bbo : BBO) : FeatureEngine D :=
  if bbo.bidPrice ≠ priceInvalid ∧ bbo.askPrice ≠ priceInvalid then
    { f with aggTradeQtyRatio :=
        ofUInt64 u.qty.toUInt64 /
          ofUInt64 (if u.side = .buy then bbo.askQty else bbo.bidQty).toUInt64 }
  else f

end FeatureEngine

namespace OrderManager

variable {ticker : TickerId}

/-- What a strategy quotes can be passed on. Slots as they are constructed are left alone. -/
theorem exists_quote (m : OrderManager) (check : TickerId → Side → Qty → RiskCheckResult)
    (hticker : ticker.toNat < meMaxTickers) (quotes : Option (Price × Price)) (clip : Qty) :
    ∃ result, m.quote check ticker quotes clip = .ok result ∧
      ((∀ t s, (m.tickerSideOrder t s).orderState = .invalid) → result = (m, [])) := by
  cases quotes with
  | none => exact ⟨_, rfl, fun _ => rfl⟩
  | some prices =>
    obtain ⟨result, hresult⟩ :
        ∃ result, m.moveOrders check ticker prices.1 prices.2 clip = .ok result := by
      unfold moveOrders inTable
      rw [if_pos ⟨⟨hticker, by decide⟩, ⟨hticker, by decide⟩⟩]
      exact ⟨_, rfl⟩
    obtain ⟨m', sent⟩ := result
    refine ⟨(m', sent), hresult, ?_⟩
    intro hinvalid
    obtain ⟨-, m₁, bidSent, askSent, hbid, hask, hsent⟩ := moveOrders_eq hresult
    rw [moveOrder_invalid (hinvalid _ _)] at hbid
    obtain ⟨rfl, rfl⟩ := Prod.mk.inj hbid
    rw [moveOrder_invalid (hinvalid _ _)] at hask
    obtain ⟨hm, rfl⟩ := Prod.mk.inj hask
    exact Prod.ext hm.symm hsent

end OrderManager

namespace Client

/-- All of a trade engine. -/
structure TradeEngine (D : Type) extends TradingSystem.TradeEngine D where
  algoType : AlgoType
  tickerOrderBook : TickerId → MarketOrderBook
  featureEngine : FeatureEngine D
  /-- only called for the type `RANDOM` -/
  randomAlgo : RandomTrader
  /-- what went into `outgoing_requests_`, oldest first -/
  outgoingRequests : List MEClientRequest

namespace TradeEngine

/-- The constructor; `featureInvalid` is `Feature_INVALID`. -/
def init (clientId : ClientId) (algoType : AlgoType) (tickerCfg : TickerId → TradeEngineCfg D)
    (featureInvalid : D) (randomAlgo : RandomTrader) : TradeEngine D where
  orderManager := .init clientId
  positionKeeper := .init
  tickerCfg := tickerCfg
  algoType := algoType
  tickerOrderBook := .init
  featureEngine := ⟨featureInvalid, featureInvalid⟩
  randomAlgo := randomAlgo
  outgoingRequests := []

/-- The orders a strategy moves, and the requests it sends. -/
def moved (e : TradeEngine D) (result : OrderManager × List MEClientRequest) : TradeEngine D :=
  { e with orderManager := result.1, outgoingRequests := e.outgoingRequests ++ result.2 }

/-- Only the market maker does something about a change of the book. -/
def onOrderBookUpdate (e : TradeEngine D) (ticker : TickerId) (bbo : BBO) :
    Except Fault (TradeEngine D) := do
  let trading ← e.toTradeEngine.onOrderBookUpdate ticker bbo
  let e := { e with
    toTradeEngine := trading, featureEngine := e.featureEngine.onOrderBookUpdate bbo }
  match e.algoType with
  | .maker => do
    let result ← MarketMaker.onOrderBookUpdate e.check e.orderManager e.tickerCfg
      e.featureEngine.mktPrice bbo ticker
    return e.moved result
  | _ => return e

/-- Only the liquidity taker does something about a trade. -/
def onTradeUpdate (e : TradeEngine D) (u : MEMarketUpdate) (bbo : BBO) :
    Except Fault (TradeEngine D) := do
  let e := { e with featureEngine := e.featureEngine.onTradeUpdate u bbo }
  match e.algoType with
  | .taker => do
    let result ← LiquidityTaker.onTradeUpdate e.check e.orderManager e.tickerCfg
      e.featureEngine.aggTradeQtyRatio bbo u
    return e.moved result
  | _ => return e

/-- The book of the ticker takes the update, and calls its trade engine as the last thing it does. -/
def onMarketUpdate (e : TradeEngine D) (u : MEMarketUpdate) : Except Fault (TradeEngine D) :=
  -- the `ASSERT` lets the ticker behind the last one pass
  if meMaxTickers < u.tickerId.toNat then .error .assertion
  else if u.tickerId.toNat = meMaxTickers then .error .outOfBounds
  else do
    let book ← (e.tickerOrderBook u.tickerId).onMarketUpdate u
    let e := { e with tickerOrderBook := Function.update e.tickerOrderBook u.tickerId book }
    match book.notices.getLast? with
    | some (.tradeUpdate u) => e.onTradeUpdate u book.bbo
    | some (.orderBookUpdate ticker _ _) => e.onOrderBookUpdate ticker book.bbo
    | none => return e

/-- The two strategies pass a response on to the order manager; `RANDOM` and the others only log it. -/
def onOrderUpdate (e : TradeEngine D) (r : MEClientResponse) : Except Fault (TradeEngine D) :=
  if e.algoType = .maker ∨ e.algoType = .taker then do
    let trading ← e.toTradeEngine.onOrderUpdate r
    return { e with toTradeEngine := trading }
  else do
    let positionKeeper ←
      (if r.type = .filled then e.positionKeeper.addFill r else .ok e.positionKeeper)
    return { e with positionKeeper := positionKeeper }

def onRandomTimer (e : TradeEngine D) (d : RandomTrader.Draw) : Except Fault (TradeEngine D) :=
  if e.algoType = .random then do
    let (randomAlgo, sent) ← e.randomAlgo.onTimer d
    return { e with randomAlgo := randomAlgo, outgoingRequests := e.outgoingRequests ++ sent }
  else .ok e

/-- What a pass of `run` handles. -/
inductive Input where
  | timer (d : RandomTrader.Draw)
  | response (r : MEClientResponse)
  | marketUpdate (u : MEMarketUpdate)

def step (e : TradeEngine D) : Input → Except Fault (TradeEngine D)
  | .timer d => e.onRandomTimer d
  | .response r => e.onOrderUpdate r
  | .marketUpdate u => e.onMarketUpdate u

/-- The market updates among the inputs. -/
def marketUpdates (inputs : List Input) : List MEMarketUpdate :=
  inputs.filterMap fun
    | .marketUpdate u => some u
    | _ => none

/-! ## The books -/

variable {e e' : TradeEngine D} {u : MEMarketUpdate} {b b' : MarketOrderBook} {inputs : List Input}
  {input : Input} {ticker : TickerId} {bbo : BBO} {d : RandomTrader.Draw} {r : MEClientResponse}

/-- The last call is the one about the update. -/
theorem getLast_notices (hok : b.onMarketUpdate u = .ok b') :
    b'.notices.getLast? = some (if u.type = .trade then .tradeUpdate u
      else .orderBookUpdate u.tickerId u.price u.side) := by
  unfold MarketOrderBook.onMarketUpdate at hok
  split at hok
  · next htrade =>
    obtain rfl := Except.ok.inj hok
    rw [if_pos htrade]
    exact List.getLast?_concat
  · next htrade =>
    obtain ⟨b₁, -, hok⟩ := bind_eq_ok.mp hok
    obtain ⟨b₂, -, hok⟩ := bind_eq_ok.mp hok
    obtain rfl := Except.ok.inj hok
    rw [if_neg htrade]
    exact List.getLast?_concat

/-- A call of the strategy leaves the books and the type, and with slots as they are constructed it sends
nothing. -/
structure Called (e e' : TradeEngine D) : Prop where
  books : e'.tickerOrderBook = e.tickerOrderBook
  algoType : e'.algoType = e.algoType
  randomAlgo : e'.randomAlgo = e.randomAlgo
  sent : e.outgoingRequests <+: e'.outgoingRequests
  quiet : (∀ t s, (e.orderManager.tickerSideOrder t s).orderState = .invalid) →
    e'.orderManager = e.orderManager ∧ e'.outgoingRequests = e.outgoingRequests

/-- **The calls of the books** go through for the tickers there are. -/
theorem exists_onOrderBookUpdate (e : TradeEngine D) (hticker : ticker.toNat < meMaxTickers) (bbo : BBO) :
    ∃ e', e.onOrderBookUpdate ticker bbo = .ok e' ∧ Called e e' := by
  unfold onOrderBookUpdate TradingSystem.TradeEngine.onOrderBookUpdate PositionKeeper.updateBBO
  rw [if_pos hticker]
  simp only [bind, Except.bind, pure, Except.pure]
  split
  · unfold MarketMaker.onOrderBookUpdate
    generalize TradingSystem.TradeEngine.check (_ : TradingSystem.TradeEngine D) = check
    generalize MarketMaker.quotes (_ : TradeEngineCfg D) _ _ = quotes
    obtain ⟨result, hresult, hquiet⟩ :=
      OrderManager.exists_quote e.orderManager check hticker quotes (e.tickerCfg ticker).clip
    rw [hresult]
    refine ⟨_, rfl, rfl, rfl, rfl, List.prefix_append _ _, ?_⟩
    intro hinvalid
    rw [hquiet hinvalid]
    exact ⟨rfl, List.append_nil _⟩
  · exact ⟨_, rfl, rfl, rfl, rfl, List.prefix_rfl, fun _ => ⟨rfl, rfl⟩⟩

omit [Add D] [Sub D] [Mul D] in
theorem exists_onTradeUpdate (e : TradeEngine D) (hticker : u.tickerId.toNat < meMaxTickers) (bbo : BBO) :
    ∃ e', e.onTradeUpdate u bbo = .ok e' ∧ Called e e' := by
  unfold onTradeUpdate
  simp only [bind, Except.bind, pure, Except.pure]
  split
  · unfold LiquidityTaker.onTradeUpdate
    generalize TradingSystem.TradeEngine.check (_ : TradingSystem.TradeEngine D) = check
    generalize LiquidityTaker.quotes (_ : TradeEngineCfg D) _ _ _ = quotes
    obtain ⟨result, hresult, hquiet⟩ :=
      OrderManager.exists_quote e.orderManager check hticker quotes (e.tickerCfg u.tickerId).clip
    rw [hresult]
    refine ⟨_, rfl, rfl, rfl, rfl, List.prefix_append _ _, ?_⟩
    intro hinvalid
    rw [hquiet hinvalid]
    exact ⟨rfl, List.append_nil _⟩
  · exact ⟨_, rfl, rfl, rfl, rfl, List.prefix_rfl, fun _ => ⟨rfl, rfl⟩⟩

/-- The engine once the book of the ticker has taken the update. -/
def withBook (e : TradeEngine D) (ticker : TickerId) (book : MarketOrderBook) : TradeEngine D :=
  { e with tickerOrderBook := Function.update e.tickerOrderBook ticker book }

theorem exists_onMarketUpdate (hticker : u.tickerId.toNat < meMaxTickers)
    (hb : (e.tickerOrderBook u.tickerId).onMarketUpdate u = .ok b) :
    ∃ e', e.onMarketUpdate u = .ok e' ∧ Called (e.withBook u.tickerId b) e' := by
  unfold onMarketUpdate
  rw [if_neg (by omega), if_neg (by omega), hb]
  simp only [bind, Except.bind, getLast_notices hb]
  by_cases htrade : u.type = .trade
  · simp only [if_pos htrade]
    exact exists_onTradeUpdate _ hticker _
  · simp only [if_neg htrade]
    exact exists_onOrderBookUpdate _ hticker _

/-- **An update goes through** if its ticker is one of those there are and its book takes it. -/
theorem onMarketUpdate_called (hok : e.onMarketUpdate u = .ok e') :
    u.tickerId.toNat < meMaxTickers ∧ ∃ b, (e.tickerOrderBook u.tickerId).onMarketUpdate u = .ok b ∧
      Called (e.withBook u.tickerId b) e' := by
  have hok₀ := hok
  unfold onMarketUpdate at hok
  split at hok
  · cases hok
  · next hle =>
    split at hok
    · cases hok
    · next hne =>
      have hticker : u.tickerId.toNat < meMaxTickers := by omega
      obtain ⟨b, hb, -⟩ := bind_eq_ok.mp hok
      obtain ⟨e₁, hok₁, hcalled⟩ := exists_onMarketUpdate hticker hb
      obtain rfl := Except.ok.inj (hok₁.symm.trans hok₀)
      exact ⟨hticker, b, hb, hcalled⟩

omit [LT D] [DecidableLT D] [LE D] [DecidableLE D] in
theorem onOrderUpdate_keeps (hok : e.onOrderUpdate r = .ok e') :
    e'.tickerOrderBook = e.tickerOrderBook ∧ e'.outgoingRequests = e.outgoingRequests := by
  unfold onOrderUpdate at hok
  split at hok
  · obtain ⟨trading, -, hok⟩ := bind_eq_ok.mp hok
    obtain rfl := Except.ok.inj hok
    exact ⟨rfl, rfl⟩
  · obtain ⟨positionKeeper, -, hok⟩ := bind_eq_ok.mp hok
    obtain rfl := Except.ok.inj hok
    exact ⟨rfl, rfl⟩

omit [Add D] [Sub D] [Mul D] [Div D] [LT D] [DecidableLT D] [LE D] [DecidableLE D] [IntCast D] in
theorem onRandomTimer_keeps (hok : e.onRandomTimer d = .ok e') :
    e'.tickerOrderBook = e.tickerOrderBook ∧ e.outgoingRequests <+: e'.outgoingRequests := by
  unfold onRandomTimer at hok
  split at hok
  · obtain ⟨⟨randomAlgo, sent⟩, -, hok⟩ := bind_eq_ok.mp hok
    obtain rfl := Except.ok.inj hok
    exact ⟨rfl, List.prefix_append _ _⟩
  · obtain rfl := Except.ok.inj hok
    exact ⟨rfl, List.prefix_rfl⟩

theorem step_books (hok : e.step input = .ok e') :
    (∃ u, input = .marketUpdate u ∧
      stepAt MarketOrderBook.onMarketUpdate MEMarketUpdate.tickerId e.tickerOrderBook u =
        .ok e'.tickerOrderBook) ∨
    ((∀ u, input ≠ .marketUpdate u) ∧ e'.tickerOrderBook = e.tickerOrderBook) := by
  cases input with
  | marketUpdate u =>
    obtain ⟨-, b, hb, hcalled⟩ := onMarketUpdate_called hok
    exact Or.inl ⟨u, rfl, stepAt_eq_ok.mpr ⟨b, hb, hcalled.books⟩⟩
  | response r => exact Or.inr ⟨nofun, (onOrderUpdate_keeps hok).1⟩
  | timer d => exact Or.inr ⟨nofun, (onRandomTimer_keeps hok).1⟩

/-- What a trade engine has sent stays sent. -/
theorem step_outgoingRequests (hok : e.step input = .ok e') :
    e.outgoingRequests <+: e'.outgoingRequests := by
  cases input with
  | marketUpdate u =>
    obtain ⟨-, b, -, hcalled⟩ := onMarketUpdate_called hok
    exact hcalled.sent
  | response r => exact (onOrderUpdate_keeps hok).2 ▸ List.prefix_rfl
  | timer d => exact (onRandomTimer_keeps hok).2

/-- **The books of a run**: each is fed the updates of its ticker, whatever else the inputs are. -/
theorem run_books (hrun : inputs.foldlM step e = .ok e') (t : TickerId) :
    (e.tickerOrderBook t).onMarketUpdates ((marketUpdates inputs).filter fun u => u.tickerId = t) =
      .ok (e'.tickerOrderBook t) := by
  suffices (marketUpdates inputs).foldlM
      (stepAt MarketOrderBook.onMarketUpdate MEMarketUpdate.tickerId) e.tickerOrderBook =
        .ok e'.tickerOrderBook from (foldlM_stepAt_iff MEMarketUpdate.tickerId).mp this t
  induction inputs generalizing e with
  | nil =>
    obtain rfl := Except.ok.inj hrun
    rfl
  | cons input inputs ih =>
    rw [List.foldlM_cons] at hrun
    obtain ⟨e₁, hstep, hrest⟩ := bind_eq_ok.mp hrun
    rcases step_books hstep with ⟨u, rfl, hbooks⟩ | ⟨hother, hbooks⟩
    · show (u :: marketUpdates inputs).foldlM _ _ = _
      rw [List.foldlM_cons]
      exact bind_eq_ok.mpr ⟨_, hbooks, ih hrest⟩
    · have hsame : marketUpdates (input :: inputs) = marketUpdates inputs := by
        cases input with
        | marketUpdate u => exact absurd rfl (hother u)
        | _ => rfl
      rw [hsame, ← hbooks]
      exact ih hrest

/-! ## What goes through -/

/-- The engine can handle the input. -/
def Takes (e : TradeEngine D) : Input → Prop
  | .timer _ => True
  | .response r => OrderManager.inTable r.tickerId r.side
  | .marketUpdate u =>
    u.tickerId.toNat < meMaxTickers ∧ ∃ b, (e.tickerOrderBook u.tickerId).onMarketUpdate u = .ok b

/-- What handling an input makes of the random trader. As long as the slots are as they are constructed, it
is the random trader who sends. -/
structure Handled (e : TradeEngine D) (input : Input) (e' : TradeEngine D) : Prop where
  algoType : e'.algoType = e.algoType
  sane : e'.algoType = .random → e'.randomAlgo.Sane
  clientId : e'.randomAlgo.clientId = e.randomAlgo.clientId
  quiet : (∀ t s, (e.orderManager.tickerSideOrder t s).orderState = .invalid) →
    (∀ r, input = .response r → e.algoType = .random) →
    e'.orderManager = e.orderManager ∧ ∃ sent,
      e'.outgoingRequests = e.outgoingRequests ++ sent ∧
      e'.randomAlgo.orderCount = e.randomAlgo.orderCount + (newRequests sent).length ∧
      ∀ r ∈ sent, e.algoType = .random ∧ (r.type = .new ∨ r.type = .cancel) ∧
        RandomTrader.Fair e.randomAlgo.clientId r

omit [Add D] [Sub D] [Mul D] [Div D] [LT D] [DecidableLT D] [LE D] [DecidableLE D] [IntCast D] in
theorem exists_onRandomTimer (h : e.algoType = .random → e.randomAlgo.Sane) (d : RandomTrader.Draw) :
    ∃ e', e.onRandomTimer d = .ok e' ∧ Handled e (.timer d) e' := by
  unfold onRandomTimer
  split
  · next hrandom =>
    obtain ⟨⟨t', sent⟩, ht', htimed⟩ := (h hrandom).timed d
    obtain ⟨hsane, hclient, hcount, hsent⟩ := (h hrandom).of_timed htimed
    rw [ht']
    refine ⟨_, rfl, rfl, fun _ => hsane, hclient, fun _ _ => ⟨rfl, sent, rfl, hcount, ?_⟩⟩
    intro r hr
    exact ⟨hrandom, hsent r hr⟩
  · exact ⟨e, rfl, rfl, h, rfl, fun _ _ => ⟨rfl, [], (List.append_nil _).symm, rfl, nofun⟩⟩

omit [LT D] [DecidableLT D] [LE D] [DecidableLE D] in
theorem exists_onOrderUpdate (h : e.algoType = .random → e.randomAlgo.Sane)
    (hr : OrderManager.inTable r.tickerId r.side) :
    ∃ e', e.onOrderUpdate r = .ok e' ∧ Handled e (.response r) e' := by
  have hfill : ∃ k, (if r.type = .filled then e.positionKeeper.addFill r else .ok e.positionKeeper) =
      (.ok k : Except Fault (PositionKeeper D)) := by
    unfold PositionKeeper.addFill
    rw [if_pos hr.1]
    split
    · exact ⟨_, rfl⟩
    · exact ⟨_, rfl⟩
  obtain ⟨k, hk⟩ := hfill
  unfold onOrderUpdate TradingSystem.TradeEngine.onOrderUpdate OrderManager.onOrderUpdate
  rw [hk, if_pos hr]
  simp only [bind, Except.bind, pure, Except.pure]
  split
  · next htype =>
    refine ⟨_, rfl, rfl, h, rfl, fun _ hresponse => ?_⟩
    -- the type is one of the two others
    have hrandom := hresponse r rfl
    rw [hrandom] at htype
    rcases htype with htype | htype <;> cases htype
  · exact ⟨_, rfl, rfl, h, rfl, fun _ _ => ⟨rfl, [], (List.append_nil _).symm, rfl, nofun⟩⟩

/-- **Step lemma.** -/
theorem exists_step (h : e.algoType = .random → e.randomAlgo.Sane) (hinput : e.Takes input) :
    ∃ e', e.step input = .ok e' ∧ Handled e input e' := by
  cases input with
  | timer d => exact exists_onRandomTimer h d
  | response r => exact exists_onOrderUpdate h hinput
  | marketUpdate u =>
    obtain ⟨hticker, b, hb⟩ := hinput
    obtain ⟨e', hok, hcalled⟩ := exists_onMarketUpdate hticker hb
    refine ⟨e', hok, hcalled.algoType, ?_, ?_, ?_⟩
    · rw [hcalled.algoType, hcalled.randomAlgo]
      exact h
    · rw [hcalled.randomAlgo]
      rfl
    · intro hinvalid _
      obtain ⟨hmanager, hsent⟩ := hcalled.quiet hinvalid
      refine ⟨hmanager, [], ?_, ?_, nofun⟩
      · rw [hsent, List.append_nil]
        rfl
      · rw [hcalled.randomAlgo]
        rfl

end TradeEngine

end Client

end TradingSystem
