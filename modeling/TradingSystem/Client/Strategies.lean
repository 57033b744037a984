import TradingSystem.Client.OrderManager

/-!
# `LiquidityTaker` and `MarketMaker`: which prices they quote

`client/liquidity_taker.hpp` and `client/market_maker.hpp`. Each strategy calls `moveOrders` with a
price for each side, in answer to a trade or to a change of the book. The prices it passes are
`quotes`. `Price_INVALID` is meant to leave a side alone, but a dead slot sends its `NEW` with
whatever price it is given (`quote_sane_iff`), and one step below 0 or above the largest valid
price is `Price_INVALID` too.

The fair price and the aggressor ratio are doubles; of the operations on them nothing is assumed.
`!= Feature_INVALID` compares with a NaN, which is true of every double, so that this test is left
out.
-/

namespace TradingSystem

variable {D : Type} [LE D] [DecidableLE D]

/-! ## `LiquidityTaker` -/

namespace LiquidityTaker

/-- The prices passed to `moveOrders`, if it is called. -/
def quotes (cfg : TradeEngineCfg D) (aggQtyRatio : D) (bbo : BBO) (u : MEMarketUpdate) :
    Option (Price × Price) :=
  if bbo.askPrice ≠ priceInvalid ∧ bbo.bidPrice ≠ priceInvalid then
    if cfg.threshold ≤ aggQtyRatio then
      if u.side = .buy then some (bbo.askPrice, priceInvalid)
      else some (priceInvalid, bbo.bidPrice)
    else none
  else none

end LiquidityTaker

/-! ## `MarketMaker` -/

variable [Sub D] [IntCast D]

namespace MarketMaker

/-- The prices passed to `moveOrders`, if it is called. -/
def quotes (cfg : TradeEngineCfg D) (fairPrice : D) (bbo : BBO) : Option (Price × Price) :=
  if bbo.bidPrice ≠ priceInvalid ∧ bbo.askPrice ≠ priceInvalid then
    let bidPrice := bbo.bidPrice - if cfg.threshold ≤ fairPrice - ofUInt64 bbo.bidPrice then 0 else 1
    let askPrice := bbo.askPrice + if cfg.threshold ≤ ofUInt64 bbo.askPrice - fairPrice then 0 else 1
    some (bidPrice, askPrice)
  else none

end MarketMaker

namespace OrderManager

/-- Move the orders of a ticker to the prices a strategy quotes, if it does. -/
def quote (check : TickerId → Side → Qty → RiskCheckResult) (m : OrderManager) (ticker : TickerId)
    (quotes : Option (Price × Price)) (clip : Qty) :
    Except Fault (OrderManager × List MEClientRequest) :=
  match quotes with
  | some (bidPrice, askPrice) => m.moveOrders check ticker bidPrice askPrice clip
  | none => .ok (m, [])

end OrderManager

def LiquidityTaker.onTradeUpdate (check : TickerId → Side → Qty → RiskCheckResult)
    (m : OrderManager) (tickerCfg : TickerId → TradeEngineCfg D) (aggQtyRatio : D) (bbo : BBO)
    (u : MEMarketUpdate) : Except Fault (OrderManager × List MEClientRequest) :=
  m.quote check u.tickerId (quotes (tickerCfg u.tickerId) aggQtyRatio bbo u)
    (tickerCfg u.tickerId).clip

def MarketMaker.onOrderBookUpdate (check : TickerId → Side → Qty → RiskCheckResult)
    (m : OrderManager) (tickerCfg : TickerId → TradeEngineCfg D) (fairPrice : D) (bbo : BBO)
    (ticker : TickerId) : Except Fault (OrderManager × List MEClientRequest) :=
  m.quote check ticker (quotes (tickerCfg ticker) fairPrice bbo) (tickerCfg ticker).clip

/-! ## What is sent at which price -/

namespace OrderManager

/-- At most the live order of the slot was cancelled. -/
def OnlyCancels (m : OrderManager) (ticker : TickerId) (side : Side)
    (result : OrderManager × List MEClientRequest) : Prop :=
  (∀ r ∈ result.2, r.type = .new → r.side ≠ side) ∧
    (result.1.tickerSideOrder ticker side = m.tickerSideOrder ticker side ∨
      (m.tickerSideOrder ticker side).orderState = .live ∧
        (m.cancelOrder ticker side).2 ⊆ result.2 ∧
        result.1.tickerSideOrder ticker side =
          { m.tickerSideOrder ticker side with orderState := .pendingCancel })

/-- No `NEW` has the price `Price_INVALID`, and where this is the price passed for a side, at most the
live order there is cancelled. -/
structure Sane (m : OrderManager) (ticker : TickerId) (quotes : Option (Price × Price))
    (result : OrderManager × List MEClientRequest) : Prop where
  prices : ∀ r ∈ result.2, r.type = .new → r.price ≠ priceInvalid
  bid : ∀ askPrice, quotes = some (priceInvalid, askPrice) → m.OnlyCancels ticker .buy result
  ask : ∀ bidPrice, quotes = some (bidPrice, priceInvalid) → m.OnlyCancels ticker .sell result

variable {check : TickerId → Side → Qty → RiskCheckResult} {m m' : OrderManager}
  {ticker : TickerId} {side : Side} {price bidPrice askPrice : Price} {qty : Qty}
  {sent : List MEClientRequest} {result : OrderManager × List MEClientRequest}

/-- On a side without a `NEW`, at most the live order is cancelled. -/
theorem moveOrders_onlyCancels
    (hok : m.moveOrders check ticker bidPrice askPrice qty = .ok (m', sent))
    (hside : side = .buy ∨ side = .sell) (h : ¬ m.Sends check ticker side qty) :
    m.OnlyCancels ticker side (m', sent) := by
  constructor
  · intro r hr htype heq
    rcases new_mem_moveOrders hok hr htype with ⟨hbuy, -, hsends⟩ | ⟨hsell, -, hsends⟩
    · rw [← heq, hbuy] at h
      exact h hsends
    · rw [← heq, hsell] at h
      exact h hsends
  · obtain ⟨m₁, bidSent, askSent, hbid, hask, rfl, hclient, hsell, hbuy⟩ := moveOrders_sides hok
    rcases hside with rfl | rfl
    · dsimp only
      rw [hbuy]
      rcases moveOrder_slot h hbid with hkept | ⟨hlive, hsent, hslot⟩
      · exact Or.inl hkept
      · rw [hsent]
        exact Or.inr ⟨hlive, List.subset_append_left _ _, hslot⟩
    · have h₁ : ¬ m₁.Sends check ticker .sell qty := by
        unfold Sends at h ⊢
        rwa [hsell]
      rcases moveOrder_slot h₁ hask with hkept | ⟨hlive, hsent, hslot⟩
      · left
        exact hkept.trans hsell
      · right
        rw [hsell] at hlive hslot
        rw [cancelOrder_requests hclient hsell] at hsent
        rw [hsent]
        exact ⟨hlive, List.subset_append_right _ _, hslot⟩

/-- **When a quote is sane**: no slot that would send is given the price `Price_INVALID`. -/
theorem quote_sane_iff {quotes : Option (Price × Price)}
    (hok : m.quote check ticker quotes qty = .ok result) :
    m.Sane ticker quotes result ↔ ∀ bidPrice askPrice, quotes = some (bidPrice, askPrice) →
      ¬ (bidPrice = priceInvalid ∧ m.Sends check ticker .buy qty) ∧
        ¬ (askPrice = priceInvalid ∧ m.Sends check ticker .sell qty) := by
  obtain ⟨m', sent⟩ := result
  cases quotes with
  | none =>
    obtain ⟨rfl, rfl⟩ := Prod.mk.inj (Except.ok.inj hok)
    constructor
    · intro _ _ _ h
      cases h
    · intro _
      constructor
      · intro r hr
        cases hr
      · intro _ h
        cases h
      · intro _ h
        cases h
  | some prices =>
    obtain ⟨bidPrice, askPrice⟩ := prices
    have hmove : m.moveOrders check ticker bidPrice askPrice qty = .ok (m', sent) := hok
    constructor
    · intro hsane bid ask h
      obtain ⟨rfl, rfl⟩ := Prod.mk.inj (Option.some.inj h)
      constructor
      · intro ⟨hinvalid, hsends⟩
        obtain ⟨r, hr, htype, -, hprice⟩ := exists_new_of_sends hmove (Or.inl rfl) hsends
        exact hsane.prices r hr htype (hprice.trans hinvalid)
      · intro ⟨hinvalid, hsends⟩
        obtain ⟨r, hr, htype, -, hprice⟩ := exists_new_of_sends hmove (Or.inr rfl) hsends
        exact hsane.prices r hr htype (hprice.trans hinvalid)
    · intro h
      obtain ⟨hbuy, hsell⟩ := h bidPrice askPrice rfl
      constructor
      · intro r hr htype hinvalid
        rcases new_mem_moveOrders hmove hr htype with ⟨-, hprice, hsends⟩ | ⟨-, hprice, hsends⟩
        · exact hbuy ⟨hprice.symm.trans hinvalid, hsends⟩
        · exact hsell ⟨hprice.symm.trans hinvalid, hsends⟩
      · intro ask hquotes
        obtain ⟨rfl, rfl⟩ := Prod.mk.inj (Option.some.inj hquotes)
        exact moveOrders_onlyCancels hmove (Or.inl rfl) (fun hsends => hbuy ⟨rfl, hsends⟩)
      · intro bid hquotes
        obtain ⟨rfl, rfl⟩ := Prod.mk.inj (Option.some.inj hquotes)
        exact moveOrders_onlyCancels hmove (Or.inr rfl) (fun hsends => hsell ⟨rfl, hsends⟩)

end OrderManager

/-! ## The two strategies -/

section

open OrderManager

variable {check : TickerId → Side → Qty → RiskCheckResult} {m : OrderManager}
  {tickerCfg : TickerId → TradeEngineCfg D} {bbo : BBO} {u : MEMarketUpdate} {ticker : TickerId}
  {aggQtyRatio fairPrice : D} {result : OrderManager × List MEClientRequest}

omit [Sub D] [IntCast D] in
/-- The slot on the side that the taker leaves alone. -/
theorem LiquidityTaker.sane_iff (hbid : bbo.bidPrice ≠ priceInvalid)
    (hask : bbo.askPrice ≠ priceInvalid)
    (hok : LiquidityTaker.onTradeUpdate check m tickerCfg aggQtyRatio bbo u = .ok result) :
    m.Sane u.tickerId (quotes (tickerCfg u.tickerId) aggQtyRatio bbo u) result ↔
      ((tickerCfg u.tickerId).threshold ≤ aggQtyRatio →
        ¬ m.Sends check u.tickerId (if u.side = .buy then .sell else .buy)
          (tickerCfg u.tickerId).clip) := by
  rw [quote_sane_iff hok]
  unfold quotes
  rw [if_pos ⟨hask, hbid⟩]
  by_cases hthreshold : (tickerCfg u.tickerId).threshold ≤ aggQtyRatio
  · rw [if_pos hthreshold]
    by_cases hside : u.side = .buy
    · rw [if_pos hside, if_pos hside]
      constructor
      · intro h _ hsends
        exact (h _ _ rfl).2 ⟨rfl, hsends⟩
      · intro h bid ask heq
        obtain ⟨rfl, rfl⟩ := Prod.mk.inj (Option.some.inj heq)
        exact ⟨fun hbuy => hask hbuy.1, fun hsell => h hthreshold hsell.2⟩
    · rw [if_neg hside, if_neg hside]
      constructor
      · intro h _ hsends
        exact (h _ _ rfl).1 ⟨rfl, hsends⟩
      · intro h bid ask heq
        obtain ⟨rfl, rfl⟩ := Prod.mk.inj (Option.some.inj heq)
        exact ⟨fun hbuy => h hthreshold hbuy.2, fun hsell => hbid hsell.1⟩
  · rw [if_neg hthreshold]
    constructor
    · intro _ hcontra
      exact absurd hcontra hthreshold
    · intro _ _ _ heq
      cases heq

/-- One step below a bid of 0, or above an ask of `Price_INVALID - 1`. -/
theorem MarketMaker.sane_iff (hbid : bbo.bidPrice ≠ priceInvalid)
    (hask : bbo.askPrice ≠ priceInvalid)
    (hok : MarketMaker.onOrderBookUpdate check m tickerCfg fairPrice bbo ticker = .ok result) :
    m.Sane ticker (quotes (tickerCfg ticker) fairPrice bbo) result ↔
      ¬ (bbo.bidPrice = 0 ∧
          ¬ (tickerCfg ticker).threshold ≤ fairPrice - ofUInt64 bbo.bidPrice ∧
          m.Sends check ticker .buy (tickerCfg ticker).clip) ∧
        ¬ (bbo.askPrice = priceInvalid - 1 ∧
          ¬ (tickerCfg ticker).threshold ≤ ofUInt64 bbo.askPrice - fairPrice ∧
          m.Sends check ticker .sell (tickerCfg ticker).clip) := by
  rw [quote_sane_iff hok]
  unfold quotes
  rw [if_pos ⟨hbid, hask⟩]
  have hbidQuote : (bbo.bidPrice -
      if (tickerCfg ticker).threshold ≤ fairPrice - ofUInt64 bbo.bidPrice then 0 else 1) =
        priceInvalid ↔ bbo.bidPrice = 0 ∧
          ¬ (tickerCfg ticker).threshold ≤ fairPrice - ofUInt64 bbo.bidPrice := by
    split
    · next h => grind
    · next h =>
      unfold priceInvalid at *
      grind
  have haskQuote : (bbo.askPrice +
      if (tickerCfg ticker).threshold ≤ ofUInt64 bbo.askPrice - fairPrice then 0 else 1) =
        priceInvalid ↔ bbo.askPrice = priceInvalid - 1 ∧
          ¬ (tickerCfg ticker).threshold ≤ ofUInt64 bbo.askPrice - fairPrice := by
    split
    · next h => grind
    · next h =>
      unfold priceInvalid at *
      grind
  constructor
  · intro h
    obtain ⟨hbuy, hsell⟩ := h _ _ rfl
    rw [hbidQuote, and_assoc] at hbuy
    rw [haskQuote, and_assoc] at hsell
    exact ⟨hbuy, hsell⟩
  · intro h bid ask heq
    obtain ⟨rfl, rfl⟩ := Prod.mk.inj (Option.some.inj heq)
    rw [hbidQuote, haskQuote, and_assoc, and_assoc]
    exact h

/-- **When no order is sent at the invalid price.** -/
theorem strategies_sane_iff (check : TickerId → Side → Qty → RiskCheckResult) (m : OrderManager)
    (tickerCfg : TickerId → TradeEngineCfg D) (aggQtyRatio fairPrice : D) (bbo : BBO)
    (u : MEMarketUpdate) (ticker : TickerId) (hbid : bbo.bidPrice ≠ priceInvalid)
    (hask : bbo.askPrice ≠ priceInvalid) :
    (∀ result, LiquidityTaker.onTradeUpdate check m tickerCfg aggQtyRatio bbo u = .ok result →
      (m.Sane u.tickerId (LiquidityTaker.quotes (tickerCfg u.tickerId) aggQtyRatio bbo u) result ↔
        ((tickerCfg u.tickerId).threshold ≤ aggQtyRatio →
          ¬ m.Sends check u.tickerId (if u.side = .buy then .sell else .buy)
            (tickerCfg u.tickerId).clip))) ∧
    (∀ result, MarketMaker.onOrderBookUpdate check m tickerCfg fairPrice bbo ticker = .ok result →
      (m.Sane ticker (MarketMaker.quotes (tickerCfg ticker) fairPrice bbo) result ↔
        ¬ (bbo.bidPrice = 0 ∧
            ¬ (tickerCfg ticker).threshold ≤ fairPrice - ofUInt64 bbo.bidPrice ∧
            m.Sends check ticker .buy (tickerCfg ticker).clip) ∧
          ¬ (bbo.askPrice = priceInvalid - 1 ∧
            ¬ (tickerCfg ticker).threshold ≤ ofUInt64 bbo.askPrice - fairPrice ∧
            m.Sends check ticker .sell (tickerCfg ticker).clip))) :=
  ⟨fun _ hok => LiquidityTaker.sane_iff hbid hask hok,
    fun _ hok => MarketMaker.sane_iff hbid hask hok⟩

/-- A manager with a live sell order, and its other slots free. -/
def oneLive : OrderManager :=
  (OrderManager.allDead 1).setOrder 0 .sell
    { tickerId := 0, orderId := 7, side := .sell, price := 105, qty := 10, orderState := .live }

/-- With a favourable verdict the taker buys at the ask price, and cancels its sell order. -/
theorem strategies_sane_of_oneLive :
    ∃ result, LiquidityTaker.onTradeUpdate (D := ℤ) (fun _ _ _ => .allowed) oneLive
        (fun _ => ⟨10, 0, ⟨10, 10, 0⟩⟩) 1 ⟨100, 101, 5, 5⟩ { tickerId := 0, side := .buy } = .ok result ∧
      result.2.map (fun r => (r.type, r.side, r.price)) = [(.new, .buy, 101), (.cancel, .sell, 105)] ∧
      oneLive.Sane 0 (some (101, priceInvalid)) result := by
  refine ⟨_, rfl, by decide, ?_⟩
  apply ((strategies_sane_iff (D := ℤ) (fun _ _ _ => .allowed) oneLive (fun _ => ⟨10, 0, ⟨10, 10, 0⟩⟩)
    1 100 ⟨100, 101, 5, 5⟩ { tickerId := 0, side := .buy } 0 (by decide) (by decide)).1 _ rfl).mpr
  intro _ hsends
  exact absurd hsends.1 (by decide)

/-- A trade of a buyer, at a ratio above the threshold: the taker buys at the ask price and passes
`Price_INVALID` for the sell side, whose slot is dead. An order is sold at this price. -/
theorem not_sane_of_dead_slot :
    ∃ m sent, LiquidityTaker.onTradeUpdate (D := ℤ) (fun _ _ _ => .allowed) (.allDead 1)
        (fun _ => ⟨10, 0, ⟨10, 10, 0⟩⟩) 1 ⟨100, 101, 5, 5⟩ { tickerId := 0, side := .buy } = .ok (m, sent) ∧
      ∃ r ∈ sent, r.type = .new ∧ r.side = .sell ∧ r.price = priceInvalid :=
  ⟨_, _, rfl, _, List.mem_append_right _ (List.mem_singleton.mpr rfl), rfl, rfl, rfl⟩

end

end TradingSystem
