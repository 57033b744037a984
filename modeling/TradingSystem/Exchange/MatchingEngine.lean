import TradingSystem.Exchange.Crossing

/-!
# `MatchingEngine`: one order book for each ticker

`exchange/matching_engine.hpp` and `exchange/matching_engine.cpp`. The engine hands each request to
the book of its ticker; what the book sends goes into two queues that all books share. The requests
of different tickers interleave in these queues, and so do the updates of the stream that is
published from them.

Everything a run can do is `process_run_rule`: for each book it is what `MEOrderBook` does, and the
updates of a request are appended as one block.
-/

namespace TradingSystem

structure MatchingEngine where
  tickerOrderBook : TickerId → MEOrderBook
  /-- what went into `outcoming_response_queue_`, oldest first -/
  responses : List MEClientResponse
  /-- what went into `market_updates_queue_`, oldest first -/
  marketUpdates : List MEMarketUpdate

namespace MatchingEngine

/-- The constructor. -/
def init : MatchingEngine where
  tickerOrderBook := MEOrderBook.init
  responses := []
  marketUpdates := []

/-- Process a request. `ticker_order_book_[...]` does not check its index. -/
def processClientRequest (m : MatchingEngine) (r : MEClientRequest) :
    Except Fault MatchingEngine :=
  if r.tickerId.toNat < meMaxTickers then do
    let orderBook := m.tickerOrderBook r.tickerId
    let orderBook' ← orderBook.processClientRequest r
    return {
      tickerOrderBook := Function.update m.tickerOrderBook r.tickerId orderBook'
      responses := m.responses ++ orderBook'.responses.drop orderBook.responses.length
      marketUpdates := m.marketUpdates ++ orderBook'.updates.drop orderBook.updates.length }
  else .error .outOfBounds

/-- Process requests one after the other. -/
def processAll (m : MatchingEngine) (rs : List MEClientRequest) : Except Fault MatchingEngine :=
  rs.foldlM processClientRequest m

/-- Every book is one that a run of requests reaches; `k` gives the books as lists. -/
def Reached (m : MatchingEngine) (k : TickerId → Book) : Prop :=
  ∀ t, ∃ evs, MEOrderBook.Reached t (m.tickerOrderBook t) (k t) evs

variable {m m' : MatchingEngine} {k : TickerId → Book} {r : MEClientRequest}

theorem reached_init : Reached init Book.init :=
  fun t => ⟨[], MEOrderBook.reached_init t⟩

theorem Reached.wf (h : Reached m k) (t : TickerId) : (k t).WF := by
  obtain ⟨evs, h⟩ := h t
  exact h.wf

/-- **Step lemma.** A request does its events, in the book of its ticker. -/
theorem Reached.step (h : Reached m k) (hr : r.Valid) (hok : m.processClientRequest r = .ok m') :
    r.tickerId.toNat < meMaxTickers ∧
    ∃ cells, (k r.tickerId).OkAll ((k r.tickerId).events cells r) ∧
      Reached m' (Function.update k r.tickerId
        ((k r.tickerId).applyAll ((k r.tickerId).events cells r))) ∧
      m'.responses = m.responses ++
        ((k r.tickerId).events cells r).flatMap (Event.responses r.tickerId) ∧
      m'.marketUpdates = m.marketUpdates ++
        ((k r.tickerId).events cells r).flatMap (Event.updates r.tickerId) := by
  unfold processClientRequest at hok
  split at hok
  · next hticker =>
    obtain ⟨evs, hreached⟩ := h r.tickerId
    rcases hreached.step hr with ⟨herr, -⟩ | ⟨cells, b', hok', hevs, hreached'⟩
    · dsimp only at hok
      rw [herr] at hok
      cases hok
    · dsimp only at hok
      rw [hok'] at hok
      obtain rfl := Except.ok.inj hok
      refine ⟨hticker, cells, hevs, ?_, ?_, ?_⟩
      · intro t
        show ∃ evs, MEOrderBook.Reached t (Function.update m.tickerOrderBook r.tickerId b' t) _ evs
        by_cases ht : t = r.tickerId
        · subst ht
          rw [Function.update_self, Function.update_self]
          exact ⟨_, hreached'⟩
        · rw [Function.update_of_ne ht, Function.update_of_ne ht]
          exact h t
      · -- the logs of the book grew by what the request sent
        have hsent := hreached.sent.responses
        have hsent' := hreached'.sent.responses
        rw [List.flatMap_append, ← List.append_assoc, ← hsent] at hsent'
        show m.responses ++ b'.responses.drop _ = _
        rw [hsent', List.drop_left]
        rfl
      · have hsent := hreached.sent.updates
        have hsent' := hreached'.sent.updates
        rw [List.flatMap_append, ← List.append_assoc, ← hsent] at hsent'
        show m.marketUpdates ++ b'.updates.drop _ = _
        rw [hsent', List.drop_left]
        rfl
  · cases hok

/-- **The rule for runs of the engine**, as `MEOrderBook.run_rule` for one book. -/
theorem process_run_rule {rs : List MEClientRequest}
    (I : List MEClientRequest → (TickerId → Book) → List MEMarketUpdate → Prop)
    (hinit : I [] Book.init [])
    (hstep : ∀ rs m k r cells, Reached m k → I rs k m.marketUpdates → r.Valid →
      r.tickerId.toNat < meMaxTickers → (k r.tickerId).OkAll ((k r.tickerId).events cells r) →
      I (rs ++ [r]) (Function.update k r.tickerId
          ((k r.tickerId).applyAll ((k r.tickerId).events cells r)))
        (m.marketUpdates ++ ((k r.tickerId).events cells r).flatMap (Event.updates r.tickerId)))
    (hvalid : ∀ r ∈ rs, r.Valid) (hrun : init.processAll rs = .ok m) :
    ∃ k, Reached m k ∧ I rs k m.marketUpdates := by
  have hall : AllSteps processClientRequest init (fun _ _ r => r.Valid) rs := by
    intro pre r post s hrs _
    exact hvalid r (by simp [hrs])
  apply run_induction (motive := fun rs m => ∃ k, Reached m k ∧ I rs k m.marketUpdates)
    ⟨_, reached_init, hinit⟩ _ hall hrun
  intro rs r m m' _ hr hI hok
  obtain ⟨k, hreached, hI⟩ := hI
  obtain ⟨hticker, cells, hevs, hreached', -, hupdates⟩ := hreached.step hr hok
  refine ⟨_, hreached', ?_⟩
  rw [hupdates]
  exact hstep rs m k r cells hreached hI hr hticker hevs

end MatchingEngine

end TradingSystem
