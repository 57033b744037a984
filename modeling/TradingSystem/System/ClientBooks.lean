import TradingSystem.Client.TradingLoop
import TradingSystem.System.Capacity

/-!
# The books of a trade engine follow the exchange

A trade engine is fed market updates of the exchange, responses of the exchange and calls of its timer, in
any order. As long as the exchange takes what it is sent, nothing of this stops the engine, whatever its
strategy does, and its books list the live orders (`exists_run`, `FedBy.listsLive`). When it has read all
updates, these are the orders that rest in the exchange's books (`run_lists_exchange`).
-/

namespace TradingSystem

open Client (liveOrders Followed)
open MatchingEngine (Manageable updatesOf)

namespace Client.TradeEngine

variable {D : Type} [Add D] [Sub D] [Mul D] [Div D] [LT D] [DecidableLT D] [LE D] [DecidableLE D]
  [IntCast D]

variable {lo : TickerId → Price} {rs : List MEClientRequest} {m : MatchingEngine} {e₀ e : TradeEngine D}
  {inputs : List Input} {input : Input}

/-- What the engine is fed comes from the exchange: its updates in order, and some of its responses. -/
structure FedBy (m : MatchingEngine) (inputs : List Input) : Prop where
  updates : marketUpdates inputs <+: m.marketUpdates
  responses : ∀ r, .response r ∈ inputs → r ∈ m.responses

theorem marketUpdates_append (inputs more : List Input) :
    marketUpdates (inputs ++ more) = marketUpdates inputs ++ marketUpdates more :=
  List.filterMap_append

theorem FedBy.of_append {more : List Input} (h : FedBy m (inputs ++ more)) : FedBy m inputs where
  updates := by
    have hupdates := h.updates
    rw [marketUpdates_append] at hupdates
    exact (List.prefix_append _ _).trans hupdates
  responses := fun r hr => h.responses r (List.mem_append_left _ hr)

/-- What has been read of a ticker can be followed. -/
theorem FedBy.followed (h : FedBy m inputs) {t : TickerId} {window : Price}
    (hm : Followed window (updatesOf t m.marketUpdates)) :
    Followed window (updatesOf t (marketUpdates inputs)) := by
  obtain ⟨rest, hrest⟩ := h.updates
  rw [← hrest, updatesOf, List.filter_append] at hm
  exact hm.of_append

/-- The next input can be handled. -/
theorem FedBy.takes (h : FedBy m (inputs ++ [input])) (hvalid : ∀ r ∈ rs, r.Valid)
    (hm : MatchingEngine.init.processAll rs = .ok m)
    (hfollowed : ∀ t, Followed (lo t) (updatesOf t m.marketUpdates))
    (hbooks : e₀.tickerOrderBook = .init) (hrun : inputs.foldlM step e₀ = .ok e) : e.Takes input := by
  cases input with
  | timer d => trivial
  | response r =>
    obtain ⟨hticker, -, hside⟩ :=
      MatchingEngine.processAll_responses hvalid hm r (h.responses r (by simp))
    refine ⟨hticker, ?_⟩
    rcases hside with hside | hside | hside <;> rw [hside] <;> decide
  | marketUpdate u =>
    have hmem : u ∈ m.marketUpdates := by
      apply h.updates.subset
      rw [marketUpdates_append]
      exact List.mem_append_right _ (by simp [marketUpdates])
    refine ⟨MatchingEngine.processAll_updates hvalid hm u hmem, ?_⟩
    -- the book has come as far as the updates before this one, and takes one more
    have hbook := run_books hrun u.tickerId
    rw [hbooks] at hbook
    obtain ⟨b, hb, -⟩ := (h.followed (hfollowed u.tickerId)).exists_onMarketUpdates u.tickerId
    have hsplit : updatesOf u.tickerId (marketUpdates (inputs ++ [Input.marketUpdate u])) =
        updatesOf u.tickerId (marketUpdates inputs) ++ [u] := by
      rw [marketUpdates_append, updatesOf, List.filter_append]
      simp [updatesOf, marketUpdates]
    rw [hsplit] at hb
    obtain ⟨b₁, hb₁, hstep⟩ := foldlM_concat_eq_ok.mp hb
    obtain rfl := Except.ok.inj (hbook.symm.trans hb₁)
    exact ⟨b, hstep⟩

/-- The books of a run list the live orders. -/
theorem FedBy.listsLive (h : FedBy m inputs) {t : TickerId} {window : Price}
    (hfollowed : Followed window (updatesOf t m.marketUpdates)) (hbooks : e₀.tickerOrderBook = .init)
    (hrun : inputs.foldlM step e₀ = .ok e) :
    MarketOrderBook.ListsLive (e.tickerOrderBook t) (liveOrders (updatesOf t (marketUpdates inputs))) := by
  have hbook := run_books hrun t
  rw [hbooks] at hbook
  obtain ⟨b, hb, hlists⟩ := (h.followed hfollowed).exists_onMarketUpdates t
  obtain rfl := Except.ok.inj (hbook.symm.trans hb)
  exact hlists

/-- **Run lemma.** An engine that is fed by the exchange goes on. -/
theorem exists_run (hvalid : ∀ r ∈ rs, r.Valid) (hm : MatchingEngine.init.processAll rs = .ok m)
    (hfollowed : ∀ t, Followed (lo t) (updatesOf t m.marketUpdates)) (h : FedBy m inputs)
    (hbooks : e₀.tickerOrderBook = .init) (hsane : e₀.algoType = .random → e₀.randomAlgo.Sane) :
    ∃ e, inputs.foldlM step e₀ = .ok e ∧ (e.algoType = .random → e.randomAlgo.Sane) := by
  induction inputs using List.reverseRecOn with
  | nil => exact ⟨e₀, rfl, hsane⟩
  | append_singleton inputs input ih =>
    obtain ⟨e, hrun, hsane⟩ := ih h.of_append
    obtain ⟨e', hstep, hhandled⟩ := exists_step hsane (h.takes hvalid hm hfollowed hbooks hrun)
    exact ⟨e', foldlM_concat_eq_ok.mpr ⟨e, hrun, hstep⟩, hhandled.sane⟩

/-- **A trade engine follows the exchange.** Fed by an exchange that takes its requests, it goes on whatever
its type; its books list the live orders; and once it has read all updates, these are the orders that rest
in the exchange. -/
theorem run_lists_exchange {clientId : ClientId} (hclient : clientId.toNat < meMaxNumClients)
    (algoType : AlgoType) (tickerCfg : TickerId → TradeEngineCfg D) (featureInvalid : D) (now : Nanos)
    (rand : TickerId → Nat) (hrs : Manageable lo rs) (hm : MatchingEngine.init.processAll rs = .ok m)
    (h : FedBy m inputs) :
    ∃ e, inputs.foldlM step
        (init clientId algoType tickerCfg featureInvalid (.init clientId now rand)) = .ok e ∧
      ∀ t, MarketOrderBook.ListsLive (e.tickerOrderBook t)
          (liveOrders (updatesOf t (marketUpdates inputs))) ∧
        (marketUpdates inputs = m.marketUpdates →
          ((liveOrders (updatesOf t (marketUpdates inputs))).map LiveOrder.ident).Perm
            ((m.tickerOrderBook t).resting.map fun o => (o.marketOrderId, o.side, o.price))) := by
  obtain ⟨m', hm', hstream⟩ := hrs.exists_processAll
  obtain rfl := Except.ok.inj (hm'.symm.trans hm)
  have hstart : (init clientId algoType tickerCfg featureInvalid
      (.init clientId now rand)).tickerOrderBook = .init := rfl
  obtain ⟨e, hrun, -⟩ := exists_run hrs.valid hm (fun t => (hstream t).1) h hstart
    (fun _ => RandomTrader.sane_init hclient now rand)
  refine ⟨e, hrun, fun t => ⟨h.listsLive (hstream t).1 hstart hrun, fun hall => ?_⟩⟩
  rw [hall]
  exact (hstream t).2

/-- Everything that the exchange sent: its updates, and then its responses. -/
def everythingOf (m : MatchingEngine) : List Input :=
  m.marketUpdates.map .marketUpdate ++ m.responses.map .response

theorem marketUpdates_everythingOf (m : MatchingEngine) : marketUpdates (everythingOf m) = m.marketUpdates := by
  simp [everythingOf, marketUpdates]

theorem fedBy_everythingOf (m : MatchingEngine) : FedBy m (everythingOf m) where
  updates := by rw [marketUpdates_everythingOf]
  responses := by simp [everythingOf]

/-- A market maker reads all that came of three orders, of which two matched. -/
theorem run_lists_exchange_two_tickers :
    ∃ m, MatchingEngine.init.processAll
        [MatchingEngine.sellFive, MatchingEngine.buyFour, MatchingEngine.buyThree] = .ok m ∧
      ∃ e, (everythingOf m).foldlM step
          (init 3 .maker (fun _ => ⟨10, 0, 100, 100, 0⟩) (0 : Int) (.init 3 0 fun _ => 0)) = .ok e ∧
        ∀ t, ((liveOrders (updatesOf t (marketUpdates (everythingOf m)))).map LiveOrder.ident).Perm
          ((m.tickerOrderBook t).resting.map fun o => (o.marketOrderId, o.side, o.price)) := by
  have hrs : Manageable (fun _ => 50)
      [MatchingEngine.sellFive, MatchingEngine.buyFour, MatchingEngine.buyThree] :=
    .of_window (by decide) (by decide) (by decide) (by decide)
  obtain ⟨m, hm, -⟩ := hrs.exists_processAll
  have hclient : (3 : ClientId).toNat < meMaxNumClients := by decide
  obtain ⟨e, hrun, hlists⟩ := run_lists_exchange hclient .maker (fun _ => ⟨10, 0, 100, 100, 0⟩) (0 : Int)
    0 (fun _ => 0) hrs hm (fedBy_everythingOf m)
  exact ⟨m, hm, e, hrun, fun t => (hlists t).2 (marketUpdates_everythingOf m)⟩

end Client.TradeEngine

end TradingSystem
