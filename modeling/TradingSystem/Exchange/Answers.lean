import Mathlib.Data.List.Forall2
import TradingSystem.Exchange.TickerBooks

/-!
# Every request is answered once

A `NEW` is answered by `ACCEPTED`, a `CANCEL` by `CANCELED` or `CANCEL_REJECTED`, and the fills that a request
leads to come besides. In the queue of responses the answers stand in the order of the requests, each under
the names that its request has (`answersIn_responses`). So a client is answered in the order of its own
requests (`processAll_answered`).
-/

namespace TradingSystem

/-- The response answers the request: it is of a type that the request is to get, and has its names. -/
structure Answers (x : MEClientResponse) (r : MEClientRequest) : Prop where
  type : x.type = .accepted ∧ r.type = .new ∨
    (x.type = .cancelled ∨ x.type = .cancelRejected) ∧ r.type = .cancel
  tickerId : x.tickerId = r.tickerId
  clientId : x.clientId = r.clientId
  orderId : x.clientOrderId = r.orderId

/-- The answers among the responses. -/
def answersIn (xs : List MEClientResponse) : List MEClientResponse :=
  xs.filter fun x => x.type ≠ .filled

theorem answersIn_append (xs ys : List MEClientResponse) :
    answersIn (xs ++ ys) = answersIn xs ++ answersIn ys := List.filter_append _ _

/-- The answers to a client. -/
theorem answersIn_client (c : ClientId) (xs : List MEClientResponse) :
    answersIn (xs.filter fun x => x.clientId = c) = (answersIn xs).filter fun x => x.clientId = c := by
  unfold answersIn
  rw [List.filter_filter, List.filter_filter]
  apply List.filter_congr
  intro x _
  exact Bool.and_comm _ _

/-- Answers are to the client that the requests are of. -/
theorem answered_client {xs : List MEClientResponse} {rs : List MEClientRequest}
    (h : List.Forall₂ Answers xs rs) (c : ClientId) :
    List.Forall₂ Answers (xs.filter fun x => x.clientId = c) (rs.filter fun r => r.clientId = c) := by
  refine List.rel_filter ?_ h
  intro x r hanswers
  show decide (x.clientId = c) = true ↔ decide (r.clientId = c) = true
  rw [hanswers.clientId]

namespace Book

variable {k : Book} {r : MEClientRequest} {cells : Cells}

/-- Fills answer no request. -/
theorem answersIn_fills (a : OrderInfo) (fs : List Fill) (ticker : TickerId) :
    answersIn ((fs.map (.fill a)).flatMap (Event.responses ticker)) = [] := by
  induction fs with
  | nil => rfl
  | cons f fs ih =>
    rw [List.map_cons, List.flatMap_cons, answersIn_append, ih]
    rfl

theorem answersIn_matchEvents (hnew : r.type = .new) :
    ∃ x, answersIn ((k.matchEvents r).flatMap (Event.responses r.tickerId)) = [x] ∧ Answers x r := by
  have haccepted : answersIn ((k.matchEvents r).flatMap (Event.responses r.tickerId)) =
      answersIn ((Event.accepted (k.incoming r)).responses r.tickerId) := by
    unfold matchEvents
    rw [List.flatMap_cons, answersIn_append, answersIn_fills, List.append_nil]
  exact ⟨_, haccepted, Or.inl ⟨rfl, hnew⟩, rfl, rfl, rfl⟩

/-- The order that a `CANCEL` finds has the names of the request. -/
theorem names_of_find (hk : k.WF) {e : Entry}
    (hfind : (k.entries.find? fun e => some e.ptr =
      if MEOrderBook.inTable r.clientId r.orderId then k.cidOidToOrder r.clientId r.orderId
      else none) = some e) :
    e.info.clientId = r.clientId ∧ e.info.clientOrderId = r.orderId := by
  have hptr : some e.ptr = if MEOrderBook.inTable r.clientId r.orderId then
      k.cidOidToOrder r.clientId r.orderId else none := by simpa using List.find?_some hfind
  split at hptr
  · obtain ⟨e', he', hsame, hclient, hid⟩ := hk.table _ _ _ hptr.symm
    obtain rfl := hk.eq_of_ptr he' (List.mem_of_find?_eq_some hfind) hsame
    exact ⟨hclient, hid⟩
  · cases hptr

/-- **Step lemma.** -/
theorem answersIn_events (hk : k.WF) (hr : r.Valid) :
    ∃ x, answersIn ((k.events cells r).flatMap (Event.responses r.tickerId)) = [x] ∧ Answers x r := by
  rcases hr with ⟨hnew, -, -⟩ | hcancel
  · obtain ⟨x, hx, hanswers⟩ := answersIn_matchEvents (k := k) hnew
    refine ⟨x, ?_, hanswers⟩
    cases hrem : k.remainder cells r with
    | none => rw [events_of_used_up hnew hrem, hx]
    | some e =>
      rw [events_of_rest hnew hrem, List.flatMap_append, answersIn_append, hx]
      rfl
  · simp only [events, hcancel]
    split
    · next e hfind =>
      obtain ⟨hclient, hid⟩ := names_of_find hk hfind
      exact ⟨_, rfl, Or.inr ⟨Or.inl rfl, hcancel⟩, rfl, hclient, hid⟩
    · exact ⟨_, rfl, Or.inr ⟨Or.inr rfl, hcancel⟩, rfl, rfl, rfl⟩

end Book

namespace MatchingEngine

variable {m : MatchingEngine} {rs : List MEClientRequest}

/-- **Run lemma.** The answers are to the requests, one by one. -/
theorem answersIn_responses (hvalid : ∀ r ∈ rs, r.Valid) (hrun : init.processAll rs = .ok m) :
    List.Forall₂ Answers (answersIn m.responses) rs := by
  have hall : AllSteps processClientRequest init (fun _ _ r => r.Valid) rs := by
    apply AllSteps.of_forall
    intro r hr _
    exact hvalid r hr
  obtain ⟨-, -, hanswered⟩ : ∃ k, m.Reached k ∧ List.Forall₂ Answers (answersIn m.responses) rs := by
    apply run_induction
      (motive := fun rs m => ∃ k, Reached m k ∧ List.Forall₂ Answers (answersIn m.responses) rs)
      ⟨_, reached_init, .nil⟩ _ hall hrun
    intro rs r m m' _ hr hm hok
    obtain ⟨k, hreached, hanswered⟩ := hm
    obtain ⟨-, cells, -, hreached', hresponses, -⟩ := hreached.step hr hok
    refine ⟨_, hreached', ?_⟩
    obtain ⟨evs, hevs⟩ := hreached r.tickerId
    obtain ⟨x, hx, hanswers⟩ := @Book.answersIn_events _ _ cells hevs.wf hr
    rw [hresponses, answersIn_append, hx]
    exact List.rel_append hanswered (.cons hanswers .nil)
  exact hanswered

/-- **Every request is answered once**: among the responses to a client, fills apart, there is one for each
of its requests, in their order and under their names. -/
theorem processAll_answered (hvalid : ∀ r ∈ rs, r.Valid) (hrun : init.processAll rs = .ok m) (c : ClientId) :
    List.Forall₂ Answers (answersIn (m.responses.filter fun x => x.clientId = c))
      (rs.filter fun r => r.clientId = c) := by
  rw [answersIn_client]
  exact answered_client (answersIn_responses hvalid hrun) c

/-- A client has a buy order matched, and cancels a sell order that rests and one that does not. -/
theorem processAll_answered_cancels :
    ∃ m, init.processAll [sellFive, buyFour, { sellFive with type := .cancel },
        { sellFive with type := .cancel }] = .ok m ∧
      List.Forall₂ Answers (answersIn (m.responses.filter fun x => x.clientId = 1))
        [sellFive, { sellFive with type := .cancel }, { sellFive with type := .cancel }] := by
  obtain ⟨m, hm⟩ := exists_ok (x := init.processAll [sellFive, buyFour, { sellFive with type := .cancel },
    { sellFive with type := .cancel }]) (by decide +kernel)
  exact ⟨m, hm, processAll_answered (by decide) hm 1⟩

end MatchingEngine

end TradingSystem
