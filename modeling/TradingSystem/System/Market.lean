import Mathlib.Algebra.BigOperators.Group.Finset.Piecewise
import TradingSystem.Exchange.Answers
import TradingSystem.System.ClientBooks

/-!
# The market: the exchange and the trade engines of its clients

The market as it is meant to be, without gateways, sockets and queues. What a client sends waits until the
exchange takes it, in any order, and each client reads the market updates and the responses to it where the
exchange has put them, at its own pace. What lies between is in `WiredMarket`.

Only random traders ever send anything, and none of them more than 10000 orders. With at most 104 of them
the market never stops: every turn of every schedule goes through (`exists_run`). At any time the books of a
client list the orders that are live by the updates it has read (`books_of_run`), and what it has sent
either waits or has been answered, once (`answers_of_run`).
-/

namespace TradingSystem

open Client (liveOrders Followed)
open Client.TradeEngine (Input FedBy marketUpdates)
open MatchingEngine (Manageable updatesOf)

variable {D : Type} [Add D] [Sub D] [Mul D] [Div D] [LT D] [DecidableLT D] [LE D] [DecidableLE D]
  [IntCast D]

structure Market (D : Type) where
  exchange : MatchingEngine
  /-- requests that the exchange has not processed -/
  waiting : List MEClientRequest
  client : ClientId → Client.TradeEngine D
  /-- how many of the market updates a client has read, and how many of the responses to it -/
  updatesRead : ClientId → Nat
  responsesRead : ClientId → Nat

/-- What the constructors of the trade engines are given. -/
structure Market.Setup (D : Type) where
  algoType : ClientId → AlgoType
  tickerCfg : ClientId → TickerId → TradeEngineCfg D
  featureInvalid : D
  now : ClientId → Nanos
  rand : ClientId → TickerId → Nat

inductive Market.Turn where
  | timer (c : ClientId) (d : RandomTrader.Draw)
  | request (i : Nat)
  | update (c : ClientId)
  | response (c : ClientId)

namespace Market

def Setup.client (setup : Setup D) (c : ClientId) : Client.TradeEngine D :=
  .init c (setup.algoType c) (setup.tickerCfg c) setup.featureInvalid (.init c (setup.now c) (setup.rand c))

def init (setup : Setup D) : Market D where
  exchange := .init
  waiting := []
  client := setup.client
  updatesRead := fun _ => 0
  responsesRead := fun _ => 0

/-- A client handles an input; what it sends is on its way. -/
def handle (s : Market D) (c : ClientId) (input : Input) : Except Fault (Market D) := do
  let e ← (s.client c).step input
  return { s with
    client := Function.update s.client c e
    waiting := s.waiting ++ e.outgoingRequests.drop (s.client c).outgoingRequests.length }

/-- The exchange processes a request. -/
def processRequest (s : Market D) (i : Nat) : Except Fault (Market D) :=
  match s.waiting[i]? with
  | some r => do
    let exchange ← s.exchange.processClientRequest r
    return { s with exchange := exchange, waiting := s.waiting.eraseIdx i }
  | none => .ok s

/-- A client reads its next market update. -/
def readUpdate (s : Market D) (c : ClientId) : Except Fault (Market D) :=
  match s.exchange.marketUpdates[s.updatesRead c]? with
  | some u => do
    let s' ← s.handle c (.marketUpdate u)
    return { s' with updatesRead := Function.update s.updatesRead c (s.updatesRead c + 1) }
  | none => .ok s

/-- A client reads the next response to it. -/
def readResponse (s : Market D) (c : ClientId) : Except Fault (Market D) :=
  match (s.exchange.responses.filter fun r => r.clientId = c)[s.responsesRead c]? with
  | some r => do
    let s' ← s.handle c (.response r)
    return { s' with responsesRead := Function.update s.responsesRead c (s.responsesRead c + 1) }
  | none => .ok s

def step (s : Market D) : Turn → Except Fault (Market D)
  | .timer c d => s.handle c (.timer d)
  | .request i => s.processRequest i
  | .update c => s.readUpdate c
  | .response c => s.readResponse c

/-- The random traders: few enough for the ids of the exchange. -/
structure Setup.Staffed (setup : Setup D) (traders : Finset ClientId) : Prop where
  random : ∀ c, setup.algoType c = .random ↔ c ∈ traders
  ids : ∀ c ∈ traders, c.toNat < meMaxNumClients
  few : traders.card ≤ 104

/-! ## What holds at any time -/

/-- A client has come to its state by what the exchange sent. -/
structure Played (setup : Setup D) (c : ClientId) (m : MatchingEngine) (n : Nat) (e : Client.TradeEngine D)
    (inputs : List Input) : Prop where
  run : inputs.foldlM Client.TradeEngine.step (setup.client c) = .ok e
  fed : FedBy m inputs
  updates : marketUpdates inputs = m.marketUpdates.take n
  algoType : e.algoType = setup.algoType c
  clientId : e.randomAlgo.clientId = c
  sane : e.algoType = .random → e.randomAlgo.Sane
  slots : ∀ t s, (e.orderManager.tickerSideOrder t s).orderState = .invalid
  quiet : e.algoType ≠ .random → e.outgoingRequests = []

/-- After the requests `processed`. -/
structure Sound (setup : Setup D) (traders : Finset ClientId) (processed : List MEClientRequest)
    (s : Market D) : Prop where
  exchange : MatchingEngine.init.processAll processed = .ok s.exchange
  requests : ∀ r ∈ processed ++ s.waiting, (r.type = .new ∨ r.type = .cancel) ∧
    ∃ c ∈ traders, RandomTrader.Fair c r
  count : (newRequests (processed ++ s.waiting)).length =
    ∑ c ∈ traders, (s.client c).randomAlgo.orderCount
  sent : ∀ c, ((processed ++ s.waiting).filter fun r => r.clientId = c).Perm (s.client c).outgoingRequests
  client : ∀ c, s.updatesRead c ≤ s.exchange.marketUpdates.length ∧
    ∃ inputs, Played setup c s.exchange (s.updatesRead c) (s.client c) inputs

variable {setup : Setup D} {traders : Finset ClientId} {processed rs : List MEClientRequest} {s : Market D}
  {c : ClientId}

theorem sound_init (h : setup.Staffed traders) : Sound setup traders [] (init setup) where
  exchange := rfl
  requests := nofun
  count := by
    show 0 = ∑ c ∈ traders, 0
    simp
  sent := fun _ => List.Perm.nil
  client := by
    intro c
    refine ⟨Nat.zero_le _, [], rfl, ⟨List.nil_prefix, nofun⟩, rfl, rfl, rfl, ?_, fun _ _ => rfl,
      fun _ => rfl⟩
    intro hrandom
    exact RandomTrader.sane_init (h.ids c ((h.random c).mp hrandom)) _ _

/-- The exchange can take all that was sent. -/
theorem Sound.manageable (h : Sound setup traders processed s) (hsetup : setup.Staffed traders)
    (hrs : rs.Subperm (processed ++ s.waiting)) : Manageable (fun _ => 101) rs := by
  have hfair : ∀ r ∈ rs, (r.type = .new ∨ r.type = .cancel) ∧ ∃ c ∈ traders, RandomTrader.Fair c r :=
    fun r hr => h.requests r (hrs.subset hr)
  apply Manageable.of_window
  · intro r hr
    obtain ⟨htype, c, hc, hr⟩ := hfair r hr
    exact hr.valid (hsetup.ids c hc) htype
  · intro r hr
    obtain ⟨-, c, -, hr⟩ := hfair r hr
    exact hr.ticker
  · intro r hr _
    obtain ⟨-, c, -, hr⟩ := hfair r hr
    obtain ⟨hlow, hhigh⟩ := hr.price
    have hmax : meMaxPriceLevels = 256 := rfl
    refine ⟨hlow, ?_⟩
    show r.price.toNat < 101 + (meMaxPriceLevels - 1)
    omega
  · have hle : (newRequests rs).length ≤ (newRequests (processed ++ s.waiting)).length :=
      (hrs.filter _).length_le
    have hsum : ∑ c ∈ traders, (s.client c).randomAlgo.orderCount ≤ traders.card * 10000 := by
      apply Finset.sum_le_card_nsmul
      intro c hc
      obtain ⟨-, inputs, hplayed⟩ := h.client c
      exact (hplayed.sane (hplayed.algoType.trans ((hsetup.random c).mpr hc))).countLe
    have hfew := hsetup.few
    have hcount := h.count
    have hmax : meMaxOrderIds = 1048576 := rfl
    omega

omit [Add D] [Sub D] [Mul D] [Div D] [LT D] [DecidableLT D] [LE D] [DecidableLE D] [IntCast D] in
/-- One client has sent `k` more orders. -/
theorem sum_orderCount_update {client : ClientId → Client.TradeEngine D} {e : Client.TradeEngine D} {k : Nat}
    (hcount : e.randomAlgo.orderCount = (client c).randomAlgo.orderCount + k) (hc : c ∉ traders → k = 0) :
    ∑ c' ∈ traders, (Function.update client c e c').randomAlgo.orderCount =
      ∑ c' ∈ traders, (client c').randomAlgo.orderCount + k := by
  by_cases hmem : c ∈ traders
  · rw [← Finset.add_sum_erase _ _ hmem, ← Finset.add_sum_erase _ _ hmem]
    have hothers : ∑ c' ∈ traders.erase c, (Function.update client c e c').randomAlgo.orderCount =
        ∑ c' ∈ traders.erase c, (client c').randomAlgo.orderCount := by
      apply Finset.sum_congr rfl
      intro c' hc'
      rw [Function.update_of_ne (Finset.ne_of_mem_erase hc')]
    rw [hothers, Function.update_self, hcount]
    omega
  · rw [hc hmem, Nat.add_zero]
    apply Finset.sum_congr rfl
    intro c' hc'
    have hne : c' ≠ c := fun heq => hmem (heq ▸ hc')
    rw [Function.update_of_ne hne]

/-- Whoever sends requests is a random trader, and sends them under its own name. -/
theorem Sound.own (h : Sound setup traders processed s) {r : MEClientRequest}
    (hr : r ∈ (s.client c).outgoingRequests) : r.clientId = c ∧ c ∈ traders := by
  obtain ⟨hmem, hclient⟩ := List.mem_filter.mp ((h.sent c).mem_iff.mpr hr)
  have hc : r.clientId = c := of_decide_eq_true hclient
  obtain ⟨-, c', hc', hfair⟩ := h.requests r hmem
  rw [← hc, hfair.clientId]
  exact ⟨rfl, hc'⟩

/-- **Step lemma**, for a client that handles an input from the exchange. -/
theorem Sound.handle (h : Sound setup traders processed s) (hsetup : setup.Staffed traders)
    (input : Input) {n : Nat} (hn : n ≤ s.exchange.marketUpdates.length)
    (hinput : ∀ inputs, FedBy s.exchange inputs →
      marketUpdates inputs = s.exchange.marketUpdates.take (s.updatesRead c) →
      FedBy s.exchange (inputs ++ [input]) ∧
        marketUpdates (inputs ++ [input]) = s.exchange.marketUpdates.take n)
    (hresponse : ∀ r, input = .response r → setup.algoType c = .random) :
    ∃ s', s.handle c input = .ok s' ∧ s'.updatesRead = s.updatesRead ∧ ∀ responsesRead,
      Sound setup traders processed
        { s' with updatesRead := Function.update s.updatesRead c n, responsesRead := responsesRead } := by
  obtain ⟨-, inputs, hplayed⟩ := h.client c
  obtain ⟨hfed, htake⟩ := hinput inputs hplayed.fed hplayed.updates
  have hmanageable := h.manageable hsetup (List.sublist_append_left _ _).subperm
  obtain ⟨m, hm, hstream⟩ := hmanageable.exists_processAll
  obtain rfl := Except.ok.inj (hm.symm.trans h.exchange)
  have htakes := hfed.takes hmanageable.valid hm (fun t => (hstream t).1) rfl hplayed.run
  obtain ⟨e', hstep, hhandled⟩ := Client.TradeEngine.exists_step hplayed.sane htakes
  obtain ⟨hmanager, sent, hsent, hcount, hfair⟩ := hhandled.quiet hplayed.slots
    (fun r hr => hplayed.algoType.trans (hresponse r hr))
  have htrader : ∀ r ∈ sent, c ∈ traders := fun r hr =>
    (hsetup.random c).mp (hplayed.algoType.symm.trans (hfair r hr).1)
  have hok : s.handle c input = .ok { s with
      client := Function.update s.client c e'
      waiting := s.waiting ++ sent } := by
    have hdrop : e'.outgoingRequests.drop (s.client c).outgoingRequests.length = sent := by
      rw [hsent, List.drop_left]
    rw [← hdrop, Market.handle, hstep]
    rfl
  refine ⟨_, hok, rfl, fun responsesRead => ?_⟩
  refine ⟨h.exchange, ?_, ?_, ?_, ?_⟩
  · intro r hr
    rw [← List.append_assoc] at hr
    rcases List.mem_append.mp hr with hr | hr
    · exact h.requests r hr
    · obtain ⟨-, htype, hof⟩ := hfair r hr
      rw [hplayed.clientId] at hof
      exact ⟨htype, c, htrader r hr, hof⟩
  · rw [← List.append_assoc, newRequests_append, List.length_append, h.count]
    refine (sum_orderCount_update hcount ?_).symm
    intro hc
    cases sent with
    | nil => rfl
    | cons r sent => exact absurd (htrader r List.mem_cons_self) hc
  · -- what is sent is the client's own
    intro c'
    have hown : ∀ r ∈ sent, r.clientId = c := fun r hr => by
      rw [(hfair r hr).2.2.clientId, hplayed.clientId]
    rw [← List.append_assoc, List.filter_append]
    by_cases hc : c' = c
    · subst hc
      have hall : (sent.filter fun r => r.clientId = c') = sent :=
        List.filter_eq_self.mpr fun r hr => decide_eq_true (hown r hr)
      simp only [Function.update_self]
      rw [hall, hsent]
      exact (h.sent c').append_right sent
    · have hnone : (sent.filter fun r => r.clientId = c') = [] :=
        List.filter_eq_nil_iff.mpr fun r hr htrue =>
          hc ((of_decide_eq_true htrue).symm.trans (hown r hr))
      simp only [Function.update_of_ne hc]
      rw [hnone, List.append_nil]
      exact h.sent c'
  · intro c'
    by_cases hc : c' = c
    · subst hc
      simp only [Function.update_self]
      refine ⟨hn, _, foldlM_concat_eq_ok.mpr ⟨_, hplayed.run, hstep⟩, hfed, htake,
        hhandled.algoType.trans hplayed.algoType, hhandled.clientId.trans hplayed.clientId,
        hhandled.sane, hmanager ▸ hplayed.slots, ?_⟩
      intro hother
      rw [hhandled.algoType] at hother
      rw [hsent, hplayed.quiet hother, List.nil_append]
      exact List.eq_nil_iff_forall_not_mem.mpr fun r hr => hother (hfair r hr).1
    · simp only [Function.update_of_ne hc]
      exact h.client c'

/-- An input that is not an update. -/
theorem fedBy_concat {m : MatchingEngine} {inputs : List Input} (h : FedBy m inputs) (input : Input)
    (hnone : marketUpdates [input] = []) (hresponse : ∀ r, input = .response r → r ∈ m.responses) :
    FedBy m (inputs ++ [input]) ∧ marketUpdates (inputs ++ [input]) = marketUpdates inputs := by
  have hsame : marketUpdates (inputs ++ [input]) = marketUpdates inputs := by
    rw [Client.TradeEngine.marketUpdates_append, hnone, List.append_nil]
  refine ⟨⟨hsame ▸ h.updates, ?_⟩, hsame⟩
  intro r hr
  rcases List.mem_append.mp hr with hr | hr
  · exact h.responses r hr
  · exact hresponse r (List.mem_singleton.mp hr).symm

/-- The next update. -/
theorem fedBy_concat_update {m : MatchingEngine} {inputs : List Input} {u : MEMarketUpdate} {n : Nat}
    (h : FedBy m inputs) (htake : marketUpdates inputs = m.marketUpdates.take n)
    (hu : m.marketUpdates[n]? = some u) :
    FedBy m (inputs ++ [.marketUpdate u]) ∧
      marketUpdates (inputs ++ [.marketUpdate u]) = m.marketUpdates.take (n + 1) := by
  have hnext : marketUpdates (inputs ++ [.marketUpdate u]) = m.marketUpdates.take (n + 1) := by
    rw [Client.TradeEngine.marketUpdates_append, htake, List.take_add_one, hu]
    rfl
  refine ⟨⟨hnext ▸ List.take_prefix _ _, ?_⟩, hnext⟩
  intro r hr
  rcases List.mem_append.mp hr with hr | hr
  · exact h.responses r hr
  · cases List.mem_singleton.mp hr

/-- The exchange processes a request that waits. The clients have read what they have read. -/
theorem Sound.take (h : Sound setup traders processed s) (hsetup : setup.Staffed traders) {i : Nat}
    {r : MEClientRequest} (hi : s.waiting[i]? = some r) :
    ∃ s', s.processRequest i = .ok s' ∧ Sound setup traders (processed ++ [r]) s' := by
  unfold Market.processRequest
  rw [hi]
  have hperm : ((processed ++ [r]) ++ s.waiting.eraseIdx i).Perm (processed ++ s.waiting) := by
    obtain ⟨hlt, heq⟩ := List.getElem?_eq_some_iff.mp hi
    rw [List.append_assoc, ← heq]
    exact (List.getElem_cons_eraseIdx_perm hlt).append_left _
  have hrs : (processed ++ [r]).Subperm (processed ++ s.waiting) :=
    (List.sublist_append_left _ _).subperm.trans hperm.subperm
  obtain ⟨m, hm, -⟩ := (h.manageable hsetup hrs).exists_processAll
  obtain ⟨m₀, hm₀, hstep⟩ := foldlM_concat_eq_ok.mp hm
  obtain rfl := Except.ok.inj (hm₀.symm.trans h.exchange)
  refine ⟨_, bind_eq_ok.mpr ⟨m, hstep, rfl⟩, hm, fun r hr => h.requests r (hperm.subset hr), ?_,
    fun c => (hperm.filter _).trans (h.sent c), fun c => ?_⟩
  · rw [← h.count]
    exact (hperm.filter _).length_eq
  · obtain ⟨hread, inputs, hplayed⟩ := h.client c
    -- the exchange only adds to what it sends
    obtain ⟨-, b, -, rfl⟩ := MatchingEngine.processClientRequest_eq_ok.mp hstep
    refine ⟨?_, inputs, hplayed.run, ⟨?_, ?_⟩, ?_, hplayed.algoType, hplayed.clientId, hplayed.sane,
      hplayed.slots, hplayed.quiet⟩
    · show s.updatesRead c ≤ (s.exchange.marketUpdates ++ _).length
      rw [List.length_append]
      omega
    · exact hplayed.fed.updates.trans (List.prefix_append _ _)
    · exact fun r hr => List.mem_append_left _ (hplayed.fed.responses r hr)
    · show _ = (s.exchange.marketUpdates ++ _).take (s.updatesRead c)
      rw [List.take_append_of_le_length hread]
      exact hplayed.updates

theorem Sound.processRequest (h : Sound setup traders processed s) (hsetup : setup.Staffed traders) (i : Nat) :
    ∃ s' more, s.processRequest i = .ok s' ∧ Sound setup traders (processed ++ more) s' := by
  cases hi : s.waiting[i]? with
  | none =>
    refine ⟨s, [], ?_, (List.append_nil processed).symm ▸ h⟩
    unfold Market.processRequest
    rw [hi]
  | some r =>
    obtain ⟨s', hok, hsound⟩ := h.take hsetup hi
    exact ⟨s', [r], hok, hsound⟩

theorem Sound.readUpdate (h : Sound setup traders processed s) (hsetup : setup.Staffed traders)
    (c : ClientId) : ∃ s', s.readUpdate c = .ok s' ∧ Sound setup traders processed s' := by
  unfold Market.readUpdate
  cases hu : s.exchange.marketUpdates[s.updatesRead c]? with
  | none => exact ⟨s, rfl, h⟩
  | some u =>
    have hlt := (List.getElem?_eq_some_iff.mp hu).1
    obtain ⟨s', hok, -, hsound⟩ := h.handle hsetup (.marketUpdate u) hlt
      (fun inputs hfed htake => fedBy_concat_update hfed htake hu) nofun
    exact ⟨_, bind_eq_ok.mpr ⟨s', hok, rfl⟩, hsound s'.responsesRead⟩

theorem Sound.readResponse (h : Sound setup traders processed s) (hsetup : setup.Staffed traders)
    (c : ClientId) : ∃ s', s.readResponse c = .ok s' ∧ Sound setup traders processed s' := by
  unfold Market.readResponse
  cases hr : (s.exchange.responses.filter fun r => r.clientId = c)[s.responsesRead c]? with
  | none => exact ⟨s, rfl, h⟩
  | some r =>
    obtain ⟨hmem, hc⟩ := List.mem_filter.mp (List.mem_of_getElem? hr)
    -- who is answered has sent a request, and who sends requests is a random trader
    have hrandom : setup.algoType c = .random := by
      have hvalid := (h.manageable hsetup (List.sublist_append_left _ _).subperm).valid
      obtain ⟨-, ⟨r', hr', hclient⟩, -⟩ := MatchingEngine.processAll_responses hvalid h.exchange r hmem
      obtain ⟨-, c', hc', hfair⟩ := h.requests r' (List.mem_append_left _ hr')
      rw [hsetup.random, ← of_decide_eq_true hc, ← hclient, hfair.clientId]
      exact hc'
    obtain ⟨s', hok, hupdates, hsound⟩ := h.handle hsetup (.response r) (h.client c).1
      (fun inputs hfed htake => by
        rw [← htake]
        apply fedBy_concat hfed (.response r) rfl
        rintro r₀ ⟨⟩
        exact hmem) (fun _ _ => hrandom)
    refine ⟨_, bind_eq_ok.mpr ⟨s', hok, rfl⟩, ?_⟩
    have hs := hsound (Function.update s.responsesRead c (s.responsesRead c + 1))
    rw [Function.update_eq_self, ← hupdates] at hs
    exact hs

theorem Sound.timer (h : Sound setup traders processed s) (hsetup : setup.Staffed traders) (c : ClientId)
    (d : RandomTrader.Draw) :
    ∃ s', s.handle c (.timer d) = .ok s' ∧ Sound setup traders processed s' := by
  obtain ⟨s', hok, hupdates, hsound⟩ := h.handle hsetup (.timer d) (h.client c).1
    (fun inputs hfed htake => by
      rw [← htake]
      exact fedBy_concat hfed (.timer d) rfl nofun) nofun
  have hs := hsound s'.responsesRead
  rw [Function.update_eq_self, ← hupdates] at hs
  exact ⟨s', hok, hs⟩

/-- **Step lemma.** -/
theorem Sound.step (h : Sound setup traders processed s) (hsetup : setup.Staffed traders) (turn : Turn) :
    ∃ s' more, s.step turn = .ok s' ∧ Sound setup traders (processed ++ more) s' := by
  cases turn with
  | timer c d =>
    obtain ⟨s', hok, hsound⟩ := h.timer hsetup c d
    exact ⟨s', [], hok, (List.append_nil processed).symm ▸ hsound⟩
  | request i => exact h.processRequest hsetup i
  | update c =>
    obtain ⟨s', hok, hsound⟩ := h.readUpdate hsetup c
    exact ⟨s', [], hok, (List.append_nil processed).symm ▸ hsound⟩
  | response c =>
    obtain ⟨s', hok, hsound⟩ := h.readResponse hsetup c
    exact ⟨s', [], hok, (List.append_nil processed).symm ▸ hsound⟩

/-- **Run lemma.** -/
theorem exists_run (hsetup : setup.Staffed traders) (turns : List Turn) :
    ∃ s processed, turns.foldlM step (init setup) = .ok s ∧ Sound setup traders processed s := by
  induction turns using List.reverseRecOn with
  | nil => exact ⟨_, [], rfl, sound_init hsetup⟩
  | append_singleton turns turn ih =>
    obtain ⟨s, processed, hrun, hsound⟩ := ih
    obtain ⟨s', more, hstep, hsound'⟩ := hsound.step hsetup turn
    exact ⟨s', _, foldlM_concat_eq_ok.mpr ⟨s, hrun, hstep⟩, hsound'⟩

/-- What a run leads to is sound. -/
theorem sound_of_run (hsetup : setup.Staffed traders) {turns : List Turn}
    (hrun : turns.foldlM step (init setup) = .ok s) : ∃ processed, Sound setup traders processed s := by
  obtain ⟨s', processed, hrun', hsound⟩ := exists_run hsetup turns
  obtain rfl := Except.ok.inj (hrun'.symm.trans hrun)
  exact ⟨processed, hsound⟩

/-- **What a client has in its books**: the orders that are live by the updates that it has read; once it has
read all of them, the orders that rest in the exchange. Market makers and liquidity takers never send
anything. -/
theorem books_of_run (hsetup : setup.Staffed traders) {turns : List Turn}
    (hrun : turns.foldlM step (init setup) = .ok s) (c : ClientId) :
    (∀ t, Client.MarketOrderBook.ListsLive ((s.client c).tickerOrderBook t)
      (liveOrders (updatesOf t (s.exchange.marketUpdates.take (s.updatesRead c))))) ∧
    (s.updatesRead c = s.exchange.marketUpdates.length → ∀ t,
      ((liveOrders (updatesOf t (s.exchange.marketUpdates.take (s.updatesRead c)))).map
        Client.LiveOrder.ident).Perm
          ((s.exchange.tickerOrderBook t).resting.map fun o => (o.marketOrderId, o.side, o.price))) ∧
    (setup.algoType c ≠ .random → (s.client c).outgoingRequests = []) := by
  obtain ⟨processed, hsound⟩ := sound_of_run hsetup hrun
  have hmanageable := hsound.manageable hsetup (List.sublist_append_left _ _).subperm
  obtain ⟨m, hm, hstream⟩ := hmanageable.exists_processAll
  obtain rfl := Except.ok.inj (hm.symm.trans hsound.exchange)
  obtain ⟨-, inputs, hplayed⟩ := hsound.client c
  refine ⟨fun t => ?_, fun hall t => ?_, fun hother => ?_⟩
  · rw [← hplayed.updates]
    exact hplayed.fed.listsLive (hstream t).1 rfl hplayed.run
  · rw [hall, List.take_length]
    exact (hstream t).2
  · rw [← hplayed.algoType] at hother
    exact hplayed.quiet hother

/-- **What a client is answered**: of the requests that it has sent, those that do not wait, each once. -/
theorem answers_of_run (hsetup : setup.Staffed traders) {turns : List Turn}
    (hrun : turns.foldlM step (init setup) = .ok s) (c : ClientId) :
    ∃ answered : List MEClientRequest,
      List.Forall₂ Answers (answersIn (s.exchange.responses.filter fun x => x.clientId = c)) answered ∧
      (answered ++ s.waiting.filter fun r => r.clientId = c).Perm (s.client c).outgoingRequests := by
  obtain ⟨processed, hsound⟩ := sound_of_run hsetup hrun
  have hvalid := (hsound.manageable hsetup (List.sublist_append_left _ _).subperm).valid
  refine ⟨processed.filter fun r => r.clientId = c, ?_, ?_⟩
  · rw [answersIn_client]
    exact answered_client (MatchingEngine.answersIn_responses hvalid hsound.exchange) c
  · rw [← List.filter_append]
    exact hsound.sent c

end Market

end TradingSystem
