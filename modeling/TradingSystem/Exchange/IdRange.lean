import TradingSystem.Exchange.LifeCycle

/-!
# Which market order ids the updates carry

The synthesizer and the clients keep an order of the book in an array, at the index of its market order
id. The array has `ME_MAX_ORDER_IDS` places, and the ids count all the `NEW` requests of a run, however
few orders rest at a time. An update is about an order that rests, so that what matters is the next id
when an order comes to rest (`RestsInRange`).
-/

namespace TradingSystem

/-- The update adds, changes or removes an order by its id. -/
def MEMarketUpdate.NamesOrder (u : MEMarketUpdate) : Prop :=
  u.type = .add ∨ u.type = .modify ∨ u.type = .cancel

instance (u : MEMarketUpdate) : Decidable u.NamesOrder := inferInstanceAs (Decidable (_ ∨ _ ∨ _))

/-- The id can be looked up in the arrays of orders. -/
def IdInRange (id : OrderId) : Prop := id.toNat < meMaxOrderIds

namespace MEOrderBook

/-- Every id an update names can be looked up. -/
def UpdatesInRange (b : MEOrderBook) : Prop :=
  ∀ u ∈ b.updates, u.NamesOrder → IdInRange u.orderId

/-- No order comes to rest under an id that cannot be looked up. -/
def RestsInRange (b : MEOrderBook) (r : MEClientRequest) : Prop :=
  r.type = .new → b.available r < r.qty.toNat → IdInRange b.nextOrderId

instance (b : MEOrderBook) (r : MEClientRequest) : Decidable (RestsInRange b r) :=
  inferInstanceAs (Decidable (_ → _ → _ < _))

end MEOrderBook

/-- What comes to rest has an id in range. -/
def Event.InRange : Event → Prop
  | .rest e _ _ => IdInRange e.info.marketOrderId
  | _ => True

namespace Book

variable {k : Book} {e : Entry} {ev : Event} {evs : List Event} {r : MEClientRequest}
  {ticker : TickerId}

/-- All resting orders have ids in range. -/
def EntriesInRange (k : Book) : Prop := ∀ e ∈ k.entries, IdInRange e.info.marketOrderId

/-- **Step lemma.** An event announces ids in range, and leaves only such resting, exactly if what it
puts to rest has one. -/
theorem EntriesInRange.apply (h : k.EntriesInRange) (hk : k.Lists) (hok : ev.Ok k) :
    ((∀ u ∈ ev.updates ticker, u.NamesOrder → IdInRange u.orderId) ↔ ev.InRange) ∧
      (ev.InRange → (k.apply ev).EntriesInRange) := by
  cases ev with
  | accepted o =>
    refine ⟨⟨fun _ => trivial, ?_⟩, fun _ => h⟩
    intro _ u hu
    cases hu
  | fill a f =>
    refine ⟨⟨fun _ => trivial, ?_⟩, ?_⟩
    · intro _ u hu hnames
      rcases List.mem_cons.mp hu with rfl | hu
      · rcases hnames with hnames | hnames | hnames
        · cases hnames
        · cases hnames
        · cases hnames
      · rw [List.mem_singleton.mp hu]
        exact h f.passive hok.1
    · intro _ e he
      obtain ⟨e₀, he₀, q, rfl⟩ := mem_fill_entries he
      exact h e₀ he₀
  | rest e lp q =>
    refine ⟨⟨?_, ?_⟩, ?_⟩
    · intro hall
      exact hall _ (List.mem_singleton_self _) (Or.inl rfl)
    · intro hin u hu _
      rw [List.mem_singleton.mp hu]
      exact hin
    · intro hin e' he'
      rcases (mem_rest_entries hk).mp he' with rfl | he'
      · exact hin
      · exact h e' he'
  | cancelled e =>
    refine ⟨⟨fun _ => trivial, ?_⟩, ?_⟩
    · intro _ u hu _
      rw [List.mem_singleton.mp hu]
      exact h e hok
    · intro _ e' he'
      exact h e' ((mem_remove_entries hk hok).mp he').1
  | rejected c o =>
    refine ⟨⟨fun _ => trivial, ?_⟩, fun _ => h⟩
    intro _ u hu
    cases hu

/-- **Run lemma**, over events. -/
theorem EntriesInRange.applyAll (h : k.EntriesInRange) (hk : k.WF) (hok : k.OkAll evs) :
    ((∀ u ∈ evs.flatMap (Event.updates ticker), u.NamesOrder → IdInRange u.orderId) ↔
        ∀ ev ∈ evs, ev.InRange) ∧
      ((∀ ev ∈ evs, ev.InRange) → (k.applyAll evs).EntriesInRange) := by
  induction evs generalizing k with
  | nil =>
    refine ⟨⟨?_, ?_⟩, fun _ => h⟩
    · intro _ ev hev
      cases hev
    · intro _ u hu
      cases hu
  | cons ev evs ih =>
    obtain ⟨hiff, hstep⟩ : ((∀ u ∈ ev.updates ticker, u.NamesOrder → IdInRange u.orderId) ↔ _) ∧ _ :=
      h.apply hk.toLists hok.1
    have hsplit : (∀ u ∈ (ev :: evs).flatMap (Event.updates ticker),
        u.NamesOrder → IdInRange u.orderId) ↔
        (∀ u ∈ ev.updates ticker, u.NamesOrder → IdInRange u.orderId) ∧
          ∀ u ∈ evs.flatMap (Event.updates ticker), u.NamesOrder → IdInRange u.orderId := by
      rw [List.flatMap_cons]
      exact List.forall_mem_append
    rw [hsplit, hiff, List.forall_mem_cons]
    by_cases hin : ev.InRange
    · obtain ⟨hrest, hafter⟩ := ih (hstep hin) (apply_wf hk hok.1) hok.2
      rw [hrest]
      exact ⟨Iff.rfl, fun hall => hafter hall.2⟩
    · refine ⟨?_, fun hall => absurd hall.1 hin⟩
      constructor
      · intro hall
        exact absurd hall.1 hin
      · intro hall
        exact absurd hall.1 hin

/-- The events of a request that meets the condition, and of no other. -/
theorem events_inRange_iff {b : MEOrderBook} (h : Rep b k) (hk : k.WF) (hr : r.Valid)
    (cells : Cells) :
    (∀ ev ∈ k.events cells r, ev.InRange) ↔ MEOrderBook.RestsInRange b r := by
  have hsettle : ∀ ev : Event, ev.Settles → ev.InRange := by
    intro ev hev
    cases ev with
    | rest e lp q => cases hev
    | _ => trivial
  have hmatch : ∀ ev ∈ k.matchEvents r, ev.InRange :=
    fun ev hev => hsettle ev (matchEvents_settle k r ev hev)
  have hleft := h.leftOver_eq hk.toLists r
  rcases hr with ⟨hnew, -, -⟩ | hcancel
  · cases hrem : k.remainder cells r with
    | none =>
      have hle : ¬ b.available r < r.qty.toNat := by
        have hzero := congrArg UInt32.toNat (remainder_eq_none hrem)
        rw [hleft, UInt32.toNat_zero] at hzero
        omega
      rw [events_of_used_up hnew hrem]
      constructor
      · intro _ _ hlt
        exact absurd hlt hle
      · intro _
        exact hmatch
    | some e =>
      obtain ⟨hpos, -, hinfo⟩ := remainder_eq_some hrem
      have hlt : b.available r < r.qty.toNat := by
        have hpos' := UInt32.lt_iff_toNat_lt.mp hpos
        rw [hleft, UInt32.toNat_zero] at hpos'
        omega
      have hrest : (Event.rest e cells.level r.qty).InRange ↔ IdInRange b.nextOrderId := by
        show IdInRange e.info.marketOrderId ↔ _
        rw [hinfo, h.nextOrderId]
        exact Iff.rfl
      rw [events_of_rest hnew hrem, List.forall_mem_append, List.forall_mem_singleton, hrest]
      constructor
      · intro hall _ _
        exact hall.2
      · intro hin
        exact ⟨hmatch, hin hnew hlt⟩
  · have hne : r.type ≠ .new := by
      rw [hcancel]
      decide
    constructor
    · intro _ hnew
      exact absurd hnew hne
    · intro _ ev hev
      exact hsettle ev (events_settle hne ev hev)

/-- The ids count the `NEW` requests. -/
theorem events_nextOrderId {cells : Cells} (hr : r.Valid) :
    (k.applyAll (k.events cells r)).nextOrderId =
      k.nextOrderId + UInt64.ofNat (newRequests [r]).length := by
  rcases hr with ⟨hnew, -, -⟩ | hcancel
  · have hone : (newRequests [r]).length = 1 := by simp [newRequests, hnew]
    rw [hone]
    cases hrem : k.remainder cells r with
    | none =>
      rw [events_of_used_up hnew hrem]
      exact matchEvents_nextOrderId k r
    | some e =>
      rw [events_of_rest hnew hrem, applyAll_append]
      exact (rest_nextOrderId e cells.level).trans (matchEvents_nextOrderId k r)
  · have hnone : (newRequests [r]).length = 0 := by simp [newRequests, hcancel]
    rw [hnone]
    simp only [events, hcancel]
    split
    · exact (add_zero _).symm
    · exact (add_zero _).symm

end Book

namespace MEOrderBook

variable {ticker : TickerId} {b : MEOrderBook} {rs : List MEClientRequest}

/-- **Run lemma.** -/
theorem exists_reached_inRange (hvalid : ∀ r ∈ rs, r.Valid)
    (hrun : (init ticker).processAll rs = .ok b) :
    ∃ k evs, Reached ticker b k evs ∧
      (b.UpdatesInRange → k.EntriesInRange) ∧
      (b.UpdatesInRange ↔
        AllSteps processClientRequest (init ticker) (fun _ => RestsInRange) rs) := by
  have hall : AllSteps processClientRequest (init ticker) (fun _ _ r => r.Valid) rs := by
    intro pre r post s hrs _
    exact hvalid r (by simp [hrs])
  apply run_induction (motive := fun rs b => ∃ k evs, Reached ticker b k evs ∧
    (b.UpdatesInRange → k.EntriesInRange) ∧
    (b.UpdatesInRange ↔
      AllSteps processClientRequest (init ticker) (fun _ => RestsInRange) rs)) _ _ hall hrun
  · refine ⟨_, _, reached_init ticker, ?_, ?_⟩
    · intro _ e he
      simp [Book.init, Book.entries, Book.levels] at he
    · constructor
      · intro _ pre r post s hrs
        simp at hrs
      · intro _ u hu
        cases hu
  · rintro rs r b b' hpre hr ⟨k, evs, hreached, hentries, hiff⟩ hok
    rcases hreached.step hr with ⟨herr, -⟩ | ⟨cells, b'', hok', hevs, hreached'⟩
    · rw [herr] at hok
      cases hok
    · obtain rfl := Except.ok.inj (hok'.symm.trans hok)
      have hupdates : b''.updates =
          b.updates ++ (k.events cells r).flatMap (Event.updates ticker) := by
        have hsent : b''.updates = (evs ++ k.events cells r).flatMap (Event.updates ticker) :=
          hreached'.sent.updates
        rw [hsent, List.flatMap_append,
          show b.updates = evs.flatMap (Event.updates ticker) from hreached.sent.updates]
      have hsplit : b''.UpdatesInRange ↔ b.UpdatesInRange ∧
          ∀ u ∈ (k.events cells r).flatMap (Event.updates ticker),
            u.NamesOrder → IdInRange u.orderId := by
        unfold UpdatesInRange
        rw [hupdates]
        exact List.forall_mem_append
      refine ⟨_, _, hreached', ?_, ?_⟩
      · intro hin
        obtain ⟨hbefore, hnow⟩ := hsplit.mp hin
        obtain ⟨hrequest, hafter⟩ := (hentries hbefore).applyAll hreached.wf hevs
        exact hafter (hrequest.mp hnow)
      · rw [hsplit, allSteps_concat_iff hpre, ← hiff]
        apply and_congr_right
        intro hbefore
        obtain ⟨hrequest, -⟩ := (hentries hbefore).applyAll hreached.wf hevs
        rw [hrequest]
        exact Book.events_inRange_iff hreached.rep hreached.wf hr cells

/-- **Every id can be looked up** exactly in the runs in which no order comes to rest once the next
order id is out of range. -/
theorem processAll_updatesInRange_iff (hvalid : ∀ r ∈ rs, r.Valid)
    (hrun : (init ticker).processAll rs = .ok b) :
    b.UpdatesInRange ↔
      AllSteps processClientRequest (init ticker) (fun _ => RestsInRange) rs := by
  obtain ⟨k, evs, -, -, hiff⟩ := exists_reached_inRange hvalid hrun
  exact hiff

/-- An order to buy 1 at 1, of client 0. -/
def oneOrder : MEClientRequest :=
  { type := .new, clientId := 0, tickerId := 0, orderId := 0, side := .buy, price := 1, qty := 1 }

/-- A sell order for 5 that rests, a buy order for 3 of it, one order more, and a cancel. -/
theorem processAll_updatesInRange_four :
    ∃ b, (init 0).processAll [
        { oneOrder with orderId := 1, side := .sell, price := 9, qty := 5 },
        { oneOrder with clientId := 1, price := 9, qty := 3 }, oneOrder,
        { oneOrder with type := .cancel, orderId := 1 }] = .ok b ∧ b.UpdatesInRange := by
  obtain ⟨b, hb⟩ : ∃ b, (init 0).processAll [
      { oneOrder with orderId := 1, side := .sell, price := 9, qty := 5 },
      { oneOrder with clientId := 1, price := 9, qty := 3 }, oneOrder,
      { oneOrder with type := .cancel, orderId := 1 }] = .ok b := exists_ok (by decide +kernel)
  exact ⟨b, hb, (processAll_updatesInRange_iff (by decide) hb).mpr
    (AllSteps.of_check (by decide +kernel))⟩

/-- With fewer `NEW` requests than places no id is out of range. -/
theorem updatesInRange_of_few (hvalid : ∀ r ∈ rs, r.Valid)
    (hcount : (newRequests rs).length < meMaxOrderIds)
    (hrun : (init ticker).processAll rs = .ok b) : b.UpdatesInRange := by
  obtain ⟨-, -, -, -, hiff⟩ := exists_reached_inRange hvalid hrun
  rw [hiff]
  intro pre r post b' hrs hpre hnew _
  obtain ⟨k, evs, hreached, hid⟩ := run_rule (fun rs k _ => k.nextOrderId = idOf (newRequests rs).length)
    (fun _ _ _ => True) rfl
    (fun rs _ k _ cells r _ hid hr _ _ => by
      rw [Book.events_nextOrderId hr, hid, newRequests_append, List.length_append]
      unfold idOf
      rw [← UInt64.ofNat_add]
      congr 1
      omega)
    (fun r hr => hvalid r (by simp [hrs, hr])) (fun _ _ _ _ _ _ => trivial) hpre
  have hsplit : newRequests rs = newRequests pre ++ r :: newRequests post := by
    rw [hrs, newRequests_append]
    simp [newRequests, hnew]
  rw [hsplit, List.length_append, List.length_cons] at hcount
  unfold IdInRange
  rw [hreached.rep.nextOrderId, hid]
  have hmax : meMaxOrderIds = 1048576 := rfl
  rw [hmax] at hcount ⊢
  simp only [idOf, UInt64.toNat_ofNat']
  omega

theorem processClientRequest_one (n : Nat) :
    ((afterEmpty n).processClientRequest oneOrder).map
        (fun b => (b.updates.map fun u => (u.type, u.orderId), b.resting.length)) =
      .ok ([(.add, idOf n)], 1) := by
  rfl

/-- As many orders for nothing as there are ids in range, and then one that rests. Never does more
than one order rest. -/
theorem not_updatesInRange_of_long_run :
    ∃ rs b, (∀ r ∈ rs, r.Valid) ∧ (init 0).processAll rs = .ok b ∧
      (∀ pre b', pre <+: rs → (init 0).processAll pre = .ok b' → b'.resting.length ≤ 1) ∧
      ¬ b.UpdatesInRange := by
  obtain ⟨n, hn⟩ : ∃ n : Nat, n = meMaxOrderIds - 1 := ⟨_, rfl⟩
  have hone := processClientRequest_one n
  cases hok : (afterEmpty n).processClientRequest oneOrder with
  | error f =>
    rw [hok] at hone
    cases hone
  | ok b =>
    rw [hok] at hone
    obtain ⟨hupdates, hresting⟩ := Prod.mk.inj (Except.ok.inj hone)
    have hrun : (init 0).processAll (List.replicate n emptyOrder ++ [oneOrder]) = .ok b :=
      foldlM_concat_eq_ok.mpr ⟨_, processAll_empty n, hok⟩
    refine ⟨List.replicate n emptyOrder ++ [oneOrder], b, ?_, hrun, ?_, ?_⟩
    · intro r hr
      rcases List.mem_append.mp hr with hr | hr
      · rw [List.eq_of_mem_replicate hr]
        decide
      · rw [List.mem_singleton.mp hr]
        decide
    · intro pre b' hpre hok'
      rcases List.prefix_concat_iff.mp hpre with rfl | hpre
      · obtain rfl := Except.ok.inj (hrun.symm.trans hok')
        exact hresting.le
      · obtain ⟨m, -, rfl⟩ : ∃ m, m ≤ n ∧ pre = List.replicate m emptyOrder := by
          rw [List.prefix_replicate_iff] at hpre
          exact ⟨pre.length, hpre.1, hpre.2⟩
        rw [processAll_empty] at hok'
        obtain rfl := Except.ok.inj hok'
        exact Nat.zero_le 1
    · intro h
      have hmem : (MarketUpdateType.add, idOf n) ∈ b.updates.map fun u => (u.type, u.orderId) := by
        rw [hupdates]
        exact List.mem_singleton_self _
      obtain ⟨u, hu, heq⟩ := List.mem_map.mp hmem
      obtain ⟨htype, hid⟩ := Prod.mk.inj heq
      have hin := h u hu (Or.inl htype)
      rw [hid, hn] at hin
      exact absurd hin (by
        unfold IdInRange
        decide)

end MEOrderBook

end TradingSystem
