import TradingSystem.Lib.Components
import TradingSystem.Exchange.EngineFeed
import TradingSystem.Exchange.OwnOrder

/-!
# The tickers of the engine do not see each other

The engine's books are machines side by side, which share the queues they write to. So the requests of a
ticker alone make its book, and what the queues have for the ticker is what the book sent
(`processAll_ticker`). How requests for different tickers interleave only shows in how their responses
and updates interleave (`processAll_interleavings`).
-/

namespace TradingSystem

/-! ## Who is answered -/

namespace Book

variable {k : Book} {P : ClientId → Prop} {r : MEClientRequest} {cells : Cells} {e : Entry}

/-- The orders are those of certain clients, on the two sides. -/
def Known (P : ClientId → Prop) (k : Book) : Prop :=
  ∀ e ∈ k.entries, P e.info.clientId ∧ (e.info.side = .buy ∨ e.info.side = .sell)

/-- A response to one of these clients. -/
def Addressed (P : ClientId → Prop) (x : MEClientResponse) : Prop :=
  P x.clientId ∧ (x.side = .buy ∨ x.side = .sell ∨ x.side = .invalid)

theorem addressed_of_side {x : MEClientResponse} (hP : P x.clientId) (hside : x.side = .buy ∨ x.side = .sell) :
    Addressed P x :=
  ⟨hP, hside.imp id Or.inl⟩

/-- Matching tells the owners of the two orders. -/
theorem Known.matchEvents (h : k.Known P) (hside : r.side = .buy ∨ r.side = .sell) (hr : P r.clientId)
    (ticker : TickerId) :
    (k.applyAll (k.matchEvents r)).Known P ∧
      ∀ x ∈ (k.matchEvents r).flatMap (Event.responses ticker), Addressed P x := by
  constructor
  · intro e he
    obtain ⟨e₀, he₀, q, rfl⟩ := mem_matchEvents_entries he
    exact h e₀ he₀
  · intro x hx
    obtain ⟨ev, hev, hx⟩ := List.mem_flatMap.mp hx
    rcases List.mem_cons.mp hev with rfl | hev
    · rw [List.mem_singleton.mp hx]
      exact addressed_of_side hr hside
    · obtain ⟨f, hf, rfl⟩ := List.mem_map.mp hev
      rcases List.mem_cons.mp hx with rfl | hx
      · exact addressed_of_side hr hside
      · rw [List.mem_singleton.mp hx]
        obtain ⟨hclient, hpassive⟩ :=
          h f.passive (mem_entries_of_mem_queue (passive_mem_of_mem_fills hf).1)
        exact addressed_of_side hclient hpassive

/-- **Step lemma.** -/
theorem Known.events (h : k.Known P) (hk : k.WF) (hr : r.Valid) (hP : P r.clientId)
    (hok : k.OkAll (k.events cells r)) (ticker : TickerId) :
    (k.applyAll (k.events cells r)).Known P ∧
      ∀ x ∈ (k.events cells r).flatMap (Event.responses ticker), Addressed P x := by
  rcases hr with ⟨hnew, hside, -⟩ | hcancel
  · obtain ⟨hmatch, haddressed⟩ := h.matchEvents hside hP ticker
    cases hrem : k.remainder cells r with
    | none =>
      rw [events_of_used_up hnew hrem]
      exact ⟨hmatch, haddressed⟩
    | some e =>
      obtain ⟨-, -, hinfo⟩ := remainder_eq_some hrem
      rw [events_of_rest hnew hrem] at hok ⊢
      have hk₁ := (applyAll_wf hk (along_append.mp hok).1).toLists
      rw [applyAll_append, List.flatMap_append]
      refine ⟨?_, ?_⟩
      · intro e' he'
        rcases (mem_rest_entries hk₁).mp he' with rfl | he'
        · rw [hinfo]
          exact ⟨hP, hside⟩
        · exact hmatch e' he'
      · -- resting is not answered
        intro x hx
        rcases List.mem_append.mp hx with hx | hx
        · exact haddressed x hx
        · cases hx
  · simp only [Book.events, hcancel] at hok ⊢
    split at hok
    · next e hfind =>
      have he := List.mem_of_find?_eq_some hfind
      refine ⟨?_, ?_⟩
      · intro e' he'
        exact h e' ((mem_remove_entries hk.toLists hok.1).mp he').1
      · intro x hx
        rw [List.flatMap_singleton] at hx
        rw [List.mem_singleton.mp hx]
        exact addressed_of_side (h e he).1 (h e he).2
    · refine ⟨h, ?_⟩
      intro x hx
      rw [List.flatMap_singleton] at hx
      rw [List.mem_singleton.mp hx]
      exact ⟨hP, Or.inr (Or.inr rfl)⟩

end Book

/-- **Run lemma.** Every response of a book is to a client that sent a request. -/
theorem MEOrderBook.responses_known {ticker : TickerId} {rs : List MEClientRequest} {b : MEOrderBook}
    (hvalid : ∀ r ∈ rs, r.Valid) (hrun : (MEOrderBook.init ticker).processAll rs = .ok b) :
    ∀ x ∈ b.responses, Book.Addressed (fun c => ∃ r ∈ rs, r.clientId = c) x := by
  have hall : AllSteps processClientRequest (MEOrderBook.init ticker) (fun _ _ r => r ∈ rs) rs := by
    apply AllSteps.of_forall
    intro r hr _
    exact hr
  obtain ⟨k, evs, hreached, -, haddressed⟩ := MEOrderBook.run_rule
    (fun _ k evs => k.Known (fun c => ∃ r ∈ rs, r.clientId = c) ∧
      ∀ x ∈ evs.flatMap (Event.responses ticker), Book.Addressed (fun c => ∃ r ∈ rs, r.clientId = c) x)
    (fun _ _ r => r ∈ rs) ⟨by simp [Book.Known, Book.init, Book.entries, Book.levels], nofun⟩
    (by
      intro rs' b k evs cells r hreached hI hr hmem hok
      obtain ⟨hknown, hnew⟩ := hI.1.events hreached.wf hr ⟨r, hmem, rfl⟩ hok ticker
      refine ⟨hknown, ?_⟩
      intro x hx
      rw [List.flatMap_append] at hx
      rcases List.mem_append.mp hx with hx | hx
      · exact hI.2 x hx
      · exact hnew x hx) hvalid hall hrun
  rw [hreached.sent.responses]
  exact haddressed

/-! ## The engine -/

namespace MatchingEngine

variable {m m' : MatchingEngine} {r : MEClientRequest} {rs rs' : List MEClientRequest}

/-- The requests, responses and updates for a ticker. -/
def requestsOf (t : TickerId) (rs : List MEClientRequest) : List MEClientRequest :=
  rs.filter fun r => r.tickerId = t

def responsesOf (t : TickerId) (xs : List MEClientResponse) : List MEClientResponse :=
  xs.filter fun x => x.tickerId = t

def updatesOf (t : TickerId) (us : List MEMarketUpdate) : List MEMarketUpdate :=
  us.filter fun u => u.tickerId = t

/-- A request is one of its book. -/
theorem processClientRequest_eq_ok :
    m.processClientRequest r = .ok m' ↔ r.tickerId.toNat < meMaxTickers ∧
      ∃ b, (m.tickerOrderBook r.tickerId).processClientRequest r = .ok b ∧
        m' = {
          tickerOrderBook := Function.update m.tickerOrderBook r.tickerId b
          responses := m.responses ++
            b.responses.drop (m.tickerOrderBook r.tickerId).responses.length
          marketUpdates := m.marketUpdates ++
            b.updates.drop (m.tickerOrderBook r.tickerId).updates.length } := by
  unfold processClientRequest
  split
  · next hticker =>
    rw [bind_eq_ok]
    constructor
    · rintro ⟨b, hb, hm'⟩
      exact ⟨hticker, b, hb, (Except.ok.inj hm').symm⟩
    · rintro ⟨-, b, hb, rfl⟩
      exact ⟨b, hb, rfl⟩
  · next hticker =>
    constructor
    · intro h
      cases h
    · intro h
      exact absurd h.1 hticker

theorem exists_processClientRequest_iff {books : TickerId → MEOrderBook} :
    (∃ m', m.processClientRequest r = .ok m' ∧ m'.tickerOrderBook = books) ↔
      r.tickerId.toNat < meMaxTickers ∧
        stepAt MEOrderBook.processClientRequest MEClientRequest.tickerId m.tickerOrderBook r =
          .ok books := by
  simp only [processClientRequest_eq_ok, stepAt_eq_ok]
  constructor
  · rintro ⟨m', ⟨hticker, b, hb, rfl⟩, rfl⟩
    exact ⟨hticker, b, hb, rfl⟩
  · rintro ⟨hticker, b, hb, rfl⟩
    exact ⟨_, ⟨hticker, b, hb, rfl⟩, rfl⟩

/-- **The books are machines side by side.** -/
theorem exists_processAll_iff {books : TickerId → MEOrderBook} :
    (∃ m', m.processAll rs = .ok m' ∧ m'.tickerOrderBook = books) ↔
      (∀ r ∈ rs, r.tickerId.toNat < meMaxTickers) ∧
        ∀ t, (m.tickerOrderBook t).processAll (requestsOf t rs) = .ok (books t) := by
  unfold requestsOf MEOrderBook.processAll
  rw [← foldlM_stepAt_iff MEClientRequest.tickerId]
  induction rs generalizing m with
  | nil =>
    constructor
    · rintro ⟨m', hm', rfl⟩
      obtain rfl := Except.ok.inj hm'
      exact ⟨by simp, rfl⟩
    · rintro ⟨-, hbooks⟩
      exact ⟨m, rfl, Except.ok.inj hbooks⟩
  | cons r rs ih =>
    rw [List.forall_mem_cons, List.foldlM_cons, bind_eq_ok]
    unfold processAll at ih ⊢
    simp only [List.foldlM_cons, bind_eq_ok]
    constructor
    · rintro ⟨m', ⟨m₁, hfirst, hrest⟩, hbooks⟩
      obtain ⟨hticker, hstep⟩ := exists_processClientRequest_iff.mp ⟨m₁, hfirst, rfl⟩
      obtain ⟨htickers, hall⟩ := ih.mp ⟨m', hrest, hbooks⟩
      exact ⟨⟨hticker, htickers⟩, _, hstep, hall⟩
    · rintro ⟨⟨hticker, htickers⟩, books₁, hstep, hall⟩
      obtain ⟨m₁, hfirst, rfl⟩ := exists_processClientRequest_iff.mpr ⟨hticker, hstep⟩
      obtain ⟨m', hrest, hbooks⟩ := ih.mpr ⟨htickers, hall⟩
      exact ⟨m', ⟨m₁, hfirst, hrest⟩, hbooks⟩

/-! ## What the queues have for a ticker -/

/-- What the events of a book send is for the ticker of the book. -/
theorem responsesOf_events (t t' : TickerId) (evs : List Event) :
    responsesOf t (evs.flatMap (Event.responses t')) =
      if t = t' then evs.flatMap (Event.responses t') else [] := by
  have hticker : ∀ x ∈ evs.flatMap (Event.responses t'), x.tickerId = t' := by
    intro x hx
    obtain ⟨ev, -, hx⟩ := List.mem_flatMap.mp hx
    exact Book.responses_ticker hx
  unfold responsesOf
  split
  · next heq =>
    apply List.filter_eq_self.mpr
    intro x hx
    exact decide_eq_true ((hticker x hx).trans heq.symm)
  · next hne =>
    apply List.filter_eq_nil_iff.mpr
    intro x hx htrue
    exact hne ((of_decide_eq_true htrue).symm.trans (hticker x hx))

theorem updatesOf_events (t t' : TickerId) (evs : List Event) :
    updatesOf t (evs.flatMap (Event.updates t')) =
      if t = t' then evs.flatMap (Event.updates t') else [] := by
  have hticker : ∀ u ∈ evs.flatMap (Event.updates t'), u.tickerId = t' := by
    intro u hu
    obtain ⟨ev, -, hu⟩ := List.mem_flatMap.mp hu
    exact Event.updates_ticker hu
  unfold updatesOf
  split
  · next heq =>
    apply List.filter_eq_self.mpr
    intro u hu
    exact decide_eq_true ((hticker u hu).trans heq.symm)
  · next hne =>
    apply List.filter_eq_nil_iff.mpr
    intro u hu htrue
    exact hne ((of_decide_eq_true htrue).symm.trans (hticker u hu))

/-- What the queues have for a ticker is what its book sent. -/
structure PerTicker (m : MatchingEngine) : Prop where
  responses : ∀ t, responsesOf t m.responses = (m.tickerOrderBook t).responses
  updates : ∀ t, updatesOf t m.marketUpdates = (m.tickerOrderBook t).updates

/-- **Step lemma.** -/
theorem PerTicker.step {k : TickerId → Book} (h : m.PerTicker) (hreached : m.Reached k) (hr : r.Valid)
    (hok : m.processClientRequest r = .ok m') : m'.PerTicker := by
  obtain ⟨-, b, hb, rfl⟩ := processClientRequest_eq_ok.mp hok
  obtain ⟨evs, hevs⟩ := hreached r.tickerId
  rcases hevs.step hr with ⟨herr, -⟩ | ⟨cells, b', hb', -, hevs'⟩
  · rw [herr] at hb
    cases hb
  · obtain rfl := Except.ok.inj (hb'.symm.trans hb)
    obtain ⟨new, hnew⟩ : ∃ new, new = (k r.tickerId).events cells r := ⟨_, rfl⟩
    rw [← hnew] at hevs'
    have hresponses : b'.responses = (m.tickerOrderBook r.tickerId).responses ++
        new.flatMap (Event.responses r.tickerId) := by
      have hsent := hevs'.sent.responses
      rw [List.flatMap_append, ← List.append_assoc, ← hevs.sent.responses] at hsent
      exact hsent
    have hupdates : b'.updates = (m.tickerOrderBook r.tickerId).updates ++
        new.flatMap (Event.updates r.tickerId) := by
      have hsent := hevs'.sent.updates
      rw [List.flatMap_append, ← List.append_assoc, ← hevs.sent.updates] at hsent
      exact hsent
    constructor
    · intro t
      show responsesOf t (m.responses ++ b'.responses.drop _) =
        (Function.update m.tickerOrderBook r.tickerId b' t).responses
      rw [hresponses, List.drop_left, responsesOf, List.filter_append, ← responsesOf, ← responsesOf,
        h.responses, responsesOf_events]
      by_cases ht : t = r.tickerId
      · subst ht
        rw [if_pos rfl, Function.update_self, hresponses]
      · rw [if_neg ht, Function.update_of_ne ht, List.append_nil]
    · intro t
      show updatesOf t (m.marketUpdates ++ b'.updates.drop _) =
        (Function.update m.tickerOrderBook r.tickerId b' t).updates
      rw [hupdates, List.drop_left, updatesOf, List.filter_append, ← updatesOf, ← updatesOf,
        h.updates, updatesOf_events]
      by_cases ht : t = r.tickerId
      · subst ht
        rw [if_pos rfl, Function.update_self, hupdates]
      · rw [if_neg ht, Function.update_of_ne ht, List.append_nil]

/-- **The requests of a ticker alone make its book**, and the queues have for the ticker what the book
sent. -/
theorem processAll_ticker (hvalid : ∀ r ∈ rs, r.Valid) (hrun : init.processAll rs = .ok m)
    (t : TickerId) :
    (MEOrderBook.init t).processAll (requestsOf t rs) = .ok (m.tickerOrderBook t) ∧
      responsesOf t m.responses = (m.tickerOrderBook t).responses ∧
      updatesOf t m.marketUpdates = (m.tickerOrderBook t).updates := by
  have hbooks := (exists_processAll_iff.mp ⟨m, hrun, rfl⟩).2 t
  have hall : AllSteps processClientRequest init (fun _ _ r => r.Valid) rs := by
    apply AllSteps.of_forall
    intro r hr _
    exact hvalid r hr
  obtain ⟨-, -, hper⟩ : ∃ k, m.Reached k ∧ m.PerTicker := by
    apply run_induction (motive := fun _ m => ∃ k, Reached m k ∧ m.PerTicker)
      ⟨_, reached_init, fun _ => rfl, fun _ => rfl⟩ _ hall hrun
    intro rs r m m' _ hr hm hok
    obtain ⟨k, hreached, hper⟩ := hm
    obtain ⟨-, cells, -, hreached', -⟩ := hreached.step hr hok
    exact ⟨_, hreached', hper.step hreached hr hok⟩
  exact ⟨hbooks, hper.responses t, hper.updates t⟩

/-- Every response is about a ticker there is, and to a client that sent a request. -/
theorem processAll_responses (hvalid : ∀ r ∈ rs, r.Valid) (hrun : init.processAll rs = .ok m) :
    ∀ x ∈ m.responses, x.tickerId.toNat < meMaxTickers ∧
      Book.Addressed (fun c => ∃ r ∈ rs, r.clientId = c) x := by
  intro x hx
  obtain ⟨hbook, hresponses, -⟩ := processAll_ticker hvalid hrun x.tickerId
  have hof : x ∈ (m.tickerOrderBook x.tickerId).responses := by
    rw [← hresponses]
    exact List.mem_filter.mpr ⟨hx, decide_eq_true rfl⟩
  obtain ⟨⟨r, hr, hclient⟩, hside⟩ :=
    MEOrderBook.responses_known (fun r hr => hvalid r (List.mem_of_mem_filter hr)) hbook x hof
  obtain ⟨hmem, hticker⟩ := List.mem_filter.mp hr
  refine ⟨?_, ⟨r, hmem, hclient⟩, hside⟩
  rw [← of_decide_eq_true hticker]
  exact (exists_processAll_iff.mp ⟨m, hrun, rfl⟩).1 r hmem

/-- Every update is about a ticker there is. -/
theorem processAll_updates (hvalid : ∀ r ∈ rs, r.Valid) (hrun : init.processAll rs = .ok m) :
    ∀ u ∈ m.marketUpdates, u.tickerId.toNat < meMaxTickers := by
  intro u hu
  obtain ⟨hbook, -, hupdates⟩ := processAll_ticker hvalid hrun u.tickerId
  by_contra hlarge
  have hnone : requestsOf u.tickerId rs = [] := by
    apply List.filter_eq_nil_iff.mpr
    intro r hr htrue
    have hticker := (exists_processAll_iff.mp ⟨m, hrun, rfl⟩).1 r hr
    rw [of_decide_eq_true htrue] at hticker
    exact hlarge hticker
  rw [hnone] at hbook
  have hof : u ∈ updatesOf u.tickerId m.marketUpdates := List.mem_filter.mpr ⟨hu, decide_eq_true rfl⟩
  rw [hupdates, ← Except.ok.inj hbook] at hof
  cases hof

/-- **Interleavings.** Requests that come in another order, but for each ticker in the same one, go
through as well. They make the same books, and for each ticker the same responses and updates. -/
theorem processAll_interleavings (hvalid : ∀ r ∈ rs, r.Valid) (hrun : init.processAll rs = .ok m)
    (hsame : ∀ t, requestsOf t rs' = requestsOf t rs) :
    ∃ m', init.processAll rs' = .ok m' ∧ m'.tickerOrderBook = m.tickerOrderBook ∧
      ∀ t, responsesOf t m'.responses = responsesOf t m.responses ∧
        updatesOf t m'.marketUpdates = updatesOf t m.marketUpdates := by
  have hmem : ∀ r ∈ rs', r ∈ rs := by
    intro r hr
    have hof : r ∈ requestsOf r.tickerId rs' := List.mem_filter.mpr ⟨hr, decide_eq_true rfl⟩
    rw [hsame] at hof
    exact List.mem_of_mem_filter hof
  obtain ⟨htickers, hbooks⟩ := exists_processAll_iff.mp ⟨m, hrun, rfl⟩
  have hbooks₁ : ∀ t, (init.tickerOrderBook t).processAll (requestsOf t rs') = .ok (m.tickerOrderBook t) :=
    fun t => (hsame t).symm ▸ hbooks t
  obtain ⟨m', hrun', hbooks'⟩ :=
    exists_processAll_iff.mpr ⟨fun r hr => htickers r (hmem r hr), hbooks₁⟩
  refine ⟨m', hrun', hbooks', fun t => ?_⟩
  obtain ⟨-, hresponses, hupdates⟩ := processAll_ticker hvalid hrun t
  obtain ⟨-, hresponses', hupdates'⟩ :=
    processAll_ticker (fun r hr => hvalid r (hmem r hr)) hrun' t
  rw [hresponses, hresponses', hupdates, hupdates', hbooks']
  exact ⟨rfl, rfl⟩

/-- An order on ticker 0 and one that it matches, and an order on ticker 1. -/
def sellFive : MEClientRequest :=
  { type := .new, clientId := 1, tickerId := 0, orderId := 1, side := .sell, price := 101, qty := 5 }

def buyFour : MEClientRequest :=
  { type := .new, clientId := 2, tickerId := 0, orderId := 1, side := .buy, price := 101, qty := 4 }

def buyThree : MEClientRequest :=
  { type := .new, clientId := 1, tickerId := 1, orderId := 2, side := .buy, price := 50, qty := 3 }

/-- The order on the other ticker comes last, or in between. -/
theorem processAll_interleavings_two_tickers :
    ∃ m, init.processAll [sellFive, buyFour, buyThree] = .ok m ∧
      ∃ m', init.processAll [sellFive, buyThree, buyFour] = .ok m' ∧
        m'.tickerOrderBook = m.tickerOrderBook ∧
        ∀ t, responsesOf t m'.responses = responsesOf t m.responses ∧
          updatesOf t m'.marketUpdates = updatesOf t m.marketUpdates := by
  obtain ⟨m, hm⟩ := exists_ok (x := init.processAll [sellFive, buyFour, buyThree]) (by decide +kernel)
  refine ⟨m, hm, processAll_interleavings (by decide) hm fun t => ?_⟩
  unfold requestsOf
  by_cases ht : t = buyThree.tickerId
  · subst ht
    rfl
  · have hother : buyThree.tickerId ≠ t := fun heq => ht heq.symm
    simp [List.filter_cons, hother]

end MatchingEngine

end TradingSystem
