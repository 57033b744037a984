import TradingSystem.System.Capacity

/-!
# What is bought is sold

A match is told three times: to the buyer, to the seller and, as a `TRADE`, to the market. Where buyers meet
sellers only, the fills of the buyers, the fills of the sellers and the trades are the same prices and
quantities in the same order (`processAll_cleared`). So over all clients positions and payments add up to
nothing.
-/

namespace TradingSystem

/-- What the clients on a side are told they have traded: the prices and quantities of their fills. -/
def filledOn (s : Side) (xs : List MEClientResponse) : List (Price × Qty) :=
  (xs.filter fun x => x.type = .filled ∧ x.side = s).map fun x => (x.price, x.execQty)

/-- What the market is told of trades. -/
def tradedIn (us : List MEMarketUpdate) : List (Price × Qty) :=
  (us.filter fun u => u.type = .trade).map fun u => (u.price, u.qty)

variable {ticker : TickerId} {s : Side} {evs : List Event} {lo : TickerId → Price}
  {rs : List MEClientRequest} {m : MatchingEngine}

/-- One of the two orders of a match is on the side. -/
theorem filledOn_match (ticker : TickerId) {t : OrderInfo × Fill} (hs : s = .buy ∨ s = .sell)
    (h : Opposed t.1.side t.2.passive.info.side) :
    filledOn s [aggressorFilled ticker t, passiveFilled ticker t] = [(t.2.passive.info.price, t.2.exec)] := by
  unfold filledOn
  rcases h with ⟨ha, hp⟩ | ⟨ha, hp⟩ <;> rcases hs with rfl | rfl <;>
    simp [ha, hp, aggressorFilled, passiveFilled]

theorem filledOn_flatMap {ts : List (OrderInfo × Fill)} (hs : s = .buy ∨ s = .sell)
    (h : ∀ t ∈ ts, Opposed t.1.side t.2.passive.info.side) :
    filledOn s (ts.flatMap fun t => [aggressorFilled ticker t, passiveFilled ticker t]) =
      ts.map fun t => (t.2.passive.info.price, t.2.exec) := by
  induction ts with
  | nil => rfl
  | cons t ts ih =>
    have hfirst := filledOn_match ticker hs (h t List.mem_cons_self)
    have hrest := ih fun t' ht' => h t' (List.mem_cons_of_mem _ ht')
    rw [List.flatMap_cons, List.map_cons, ← hrest]
    unfold filledOn at hfirst ⊢
    rw [List.filter_append, List.map_append, hfirst]
    rfl

/-- The fills of a side are the trades. -/
theorem filledOn_events (hs : s = .buy ∨ s = .sell)
    (h : ∀ t ∈ tradesOf evs, Opposed t.1.side t.2.passive.info.side) :
    filledOn s (evs.flatMap (Event.responses ticker)) = tradedIn (evs.flatMap (Event.updates ticker)) := by
  have hfilled : filledOn s (evs.flatMap (Event.responses ticker)) =
      filledOn s ((evs.flatMap (Event.responses ticker)).filter fun x => x.type = .filled) := by
    unfold filledOn
    rw [List.filter_filter]
    congr 1
    apply List.filter_congr
    intro x _
    grind
  rw [hfilled, filled_responses, filledOn_flatMap hs h, tradedIn, trade_updates, List.map_map]
  rfl

/-- **What is bought is sold.** For each ticker the fills of the buyers, the fills of the sellers and the
trades the market is told of have the same prices and quantities, in the same order. -/
theorem MatchingEngine.processAll_cleared (h : Manageable lo rs) (hrun : init.processAll rs = .ok m)
    (t : TickerId) :
    filledOn .buy (responsesOf t m.responses) = tradedIn (updatesOf t m.marketUpdates) ∧
      filledOn .sell (responsesOf t m.responses) = tradedIn (updatesOf t m.marketUpdates) := by
  obtain ⟨hbook, hresponses, hupdates⟩ := processAll_ticker h.valid hrun t
  obtain ⟨b, k, evs, hb, hreached, -, -, -, -, hopposed⟩ := MEOrderBook.exists_run t
    (fun r hr => h.valid r (List.mem_of_mem_filter hr)) (h.prices t) (h.count t)
  obtain rfl := Except.ok.inj (hb.symm.trans hbook)
  rw [hresponses, hupdates, hreached.sent.responses, hreached.sent.updates]
  exact ⟨filledOn_events (Or.inl rfl) hopposed, filledOn_events (Or.inr rfl) hopposed⟩

/-- The buyer of four is told of the four that the seller of five is told of. -/
theorem MatchingEngine.processAll_cleared_two_tickers :
    ∃ m, init.processAll [sellFive, buyFour, buyThree] = .ok m ∧
      filledOn .buy (responsesOf 0 m.responses) = tradedIn (updatesOf 0 m.marketUpdates) ∧
      filledOn .sell (responsesOf 0 m.responses) = tradedIn (updatesOf 0 m.marketUpdates) := by
  have hrs : Manageable (fun _ => 50) [sellFive, buyFour, buyThree] :=
    .of_window (by decide) (by decide) (by decide) (by decide)
  obtain ⟨m, hm, -⟩ := hrs.exists_processAll
  exact ⟨m, hm, processAll_cleared hrs hm 0⟩

end TradingSystem
