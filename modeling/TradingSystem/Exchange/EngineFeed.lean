import TradingSystem.Exchange.Feed
import TradingSystem.Exchange.MatchingEngine

/-!
# The engine's stream is well formed

`Fed f t k`: the feed `f` has the orders of the book `k` of ticker `t`, each under its own id, side
and price. Every event of the book takes the feed to one that has them again, and its updates can
come next (`Fed.fill`, `Fed.rest`, `Fed.cancelled`); so do the events of a request (`Fed.request`),
and with fewer than `ME_MAX_ORDER_IDS` orders in all every stream of the engine is well formed
(`MatchingEngine.processAll_wellFormed`).
-/

namespace TradingSystem

/-- The feed has the orders of the book of the ticker. -/
structure Fed (f : Feed) (t : TickerId) (k : Book) : Prop where
  known : ∀ e ∈ k.entries, ∃ o ∈ f.live t,
    o.orderId = e.info.marketOrderId ∧ o.side = e.info.side ∧ o.price = e.info.price
  ids : (k.entries.map fun e => e.info.marketOrderId).Nodup

/-- The updates of an event are for the ticker of its book. -/
theorem Event.updates_ticker {t : TickerId} {ev : Event} {u : MEMarketUpdate}
    (h : u ∈ ev.updates t) : u.tickerId = t := by
  cases ev <;> simp only [Event.updates, List.mem_cons, List.not_mem_nil, or_false] at h
  · rcases h with rfl | rfl <;> rfl
  · rw [h]
  · rw [h]

/-- The updates add no order. -/
def Feed.NoAdds (f f' : Feed) : Prop := f'.lastId = f.lastId ∧ f'.adds = f.adds

theorem Feed.step_noAdds {f : Feed} {u : MEMarketUpdate} (h : u.type ≠ .add) :
    f.NoAdds (f.step u) := by
  unfold step NoAdds
  split
  · next heq => exact absurd heq h
  · exact ⟨rfl, rfl⟩
  · exact ⟨rfl, rfl⟩
  · exact ⟨rfl, rfl⟩

theorem Feed.NoAdds.trans {f f' f'' : Feed} (h : f.NoAdds f') (h' : f'.NoAdds f'') :
    f.NoAdds f'' :=
  ⟨h'.1.trans h.1, h'.2.trans h.2⟩

namespace Fed

variable {f f' : Feed} {t : TickerId} {k : Book} {e : Entry} {u : MEMarketUpdate}

theorem init (f : Feed) (t : TickerId) : Fed f t (Book.init t) :=
  ⟨by simp [Book.init, Book.entries, Book.levels], by simp [Book.init, Book.entries, Book.levels]⟩

theorem of_live_eq (h : Fed f t k) (hlive : f'.live t = f.live t) : Fed f' t k :=
  ⟨fun e he => by rw [hlive]; exact h.known e he, h.ids⟩

theorem eq_of_id (h : Fed f t k) {e' : Entry} (he : e ∈ k.entries) (he' : e' ∈ k.entries)
    (hid : e.info.marketOrderId = e'.info.marketOrderId) : e = e' :=
  List.inj_on_of_nodup_map h.ids he he' hid

/-- The ids of resting orders have been added. -/
theorem id_le (h : Fed f t k) (hf : f.Sound) (he : e ∈ k.entries) :
    e.info.marketOrderId ≤ f.lastId t := by
  obtain ⟨o, ho, hid, -⟩ := h.known e he
  rw [← hid]
  exact hf.id_le t o ho

/-! ## Events -/

/-- A cancel update for an order that leaves the book. -/
theorem remove (h : Fed f t k) (hk : k.Lists) (ht : t.toNat < meMaxTickers) (he : e ∈ k.entries)
    (htype : u.type = .cancel) (hticker : u.tickerId = t)
    (hid : u.orderId = e.info.marketOrderId) (hside : u.side = e.info.side) :
    f.Admits u ∧ Fed (f.step u) t (k.remove e) := by
  subst hticker
  constructor
  · obtain ⟨o, ho, hoid, hoside, -⟩ := h.known e he
    unfold Feed.Admits Feed.Continues
    rw [htype]
    exact ⟨ht, o, ho, hoid.trans hid.symm, hoside.trans hside.symm⟩
  · constructor
    · intro e' he'
      obtain ⟨he', hne⟩ := (Book.mem_remove_entries hk he).mp he'
      obtain ⟨o, ho, hoid, hrest⟩ := h.known e' he'
      refine ⟨o, ?_, hoid, hrest⟩
      unfold Feed.step Feed.setLive
      rw [htype]
      dsimp only
      rw [Function.update_self, List.mem_filter]
      refine ⟨ho, decide_eq_true ?_⟩
      intro heq
      exact hne (h.eq_of_id he' he (hoid.symm.trans (heq.trans hid)))
    · rw [Book.remove, Book.setCidOid_entries, Book.filter_entries]
      exact h.ids.sublist ((Book.keeps_dropping _).map_sublist (fun _ _ => rfl) _)

/-- A modify update for an order that stays in the book. -/
theorem setQty (h : Fed f t k) (ht : t.toNat < meMaxTickers) (he : e ∈ k.entries) (q : Qty)
    (htype : u.type = .modify) (hticker : u.tickerId = t)
    (hid : u.orderId = e.info.marketOrderId) (hside : u.side = e.info.side)
    (hprice : u.price = e.info.price) :
    f.Admits u ∧ Fed (f.step u) t (k.setQty e.ptr q) := by
  subst hticker
  constructor
  · obtain ⟨o, ho, hoid, hoside, hoprice⟩ := h.known e he
    unfold Feed.Admits Feed.Continues
    rw [htype]
    exact ⟨ht, o, ho, hoid.trans hid.symm, hoside.trans hside.symm, hoprice.trans hprice.symm⟩
  · constructor
    · intro e' he'
      obtain ⟨e₀, he₀, rfl⟩ := Book.mem_setQty_entries.mp he'
      obtain ⟨o, ho, hoid, hoside, hoprice⟩ := h.known e₀ he₀
      -- what the update rewrites, the price included, is the order's own
      refine ⟨if o.orderId = u.orderId then { o with price := u.price, qty := u.qty } else o,
        ?_, ?_, ?_, ?_⟩
      · unfold Feed.step Feed.setLive
        rw [htype]
        dsimp only
        rw [Function.update_self]
        exact List.mem_map.mpr ⟨o, ho, rfl⟩
      · split <;> split <;> exact hoid
      · split <;> split <;> exact hoside
      · have heq : o.orderId = u.orderId → u.price = e₀.info.price := by
          intro heq
          rw [h.eq_of_id he₀ he (hoid.symm.trans (heq.trans hid)), hprice]
        by_cases hou : o.orderId = u.orderId
        · rw [if_pos hou]
          split
          · exact heq hou
          · exact heq hou
        · rw [if_neg hou]
          split
          · exact hoprice
          · exact hoprice
    · rw [Book.setQty, Book.filter_entries]
      exact h.ids.sublist ((Book.keeps_requantifying _ _).map_sublist (fun _ _ => rfl) _)

/-- The two updates of a match. -/
theorem fill (h : Fed f t k) (hk : k.Lists) (ht : t.toNat < meMaxTickers) (a : OrderInfo)
    {m : Fill} (hm : m.passive ∈ k.entries) :
    f.Accepts (Event.updates t (.fill a m)) ∧
      Fed (f.steps (Event.updates t (.fill a m))) t (k.fill m) ∧
      f.NoAdds (f.steps (Event.updates t (.fill a m))) := by
  -- the trade update says nothing about the book
  have htrade : ∀ u : MEMarketUpdate, u.type = .trade → f.step u = f := by
    intro u hu
    unfold Feed.step
    rw [hu]
  unfold Event.updates Book.fill
  simp only [Feed.Accepts, Feed.steps, List.foldl_cons, List.foldl_nil, and_true]
  rw [htrade _ rfl]
  by_cases hfull : m.passive.info.qty - m.exec = 0
  · rw [if_pos hfull, if_pos hfull]
    obtain ⟨hadm, hfed⟩ := h.remove hk ht hm (u := {
      type := .cancel,
      orderId := m.passive.info.marketOrderId, tickerId := t, side := m.passive.info.side,
      price := m.passive.info.price, qty := m.passive.info.qty - m.exec,
      priority := m.passive.info.priority }) rfl rfl rfl rfl
    exact ⟨⟨⟨ht, trivial⟩, hadm⟩, hfed, Feed.step_noAdds (by simp)⟩
  · rw [if_neg hfull, if_neg hfull]
    obtain ⟨hadm, hfed⟩ := h.setQty ht hm (m.passive.info.qty - m.exec) (u := {
      type := .modify,
      orderId := m.passive.info.marketOrderId, tickerId := t, side := m.passive.info.side,
      price := m.passive.info.price, qty := m.passive.info.qty - m.exec,
      priority := m.passive.info.priority }) rfl rfl rfl rfl rfl
    exact ⟨⟨⟨ht, trivial⟩, hadm⟩, hfed, Feed.step_noAdds (by simp)⟩

/-- The updates of all matches of an incoming order. -/
theorem fills (h : Fed f t k) (hk : k.WF) (ht : t.toNat < meMaxTickers) (a : OrderInfo)
    {ms : List Fill} (hok : k.OkAll (ms.map (.fill a))) :
    f.Accepts ((ms.map (Event.fill a)).flatMap (Event.updates t)) ∧
      Fed (f.steps ((ms.map (Event.fill a)).flatMap (Event.updates t))) t
        (k.applyAll (ms.map (.fill a))) ∧
      f.NoAdds (f.steps ((ms.map (Event.fill a)).flatMap (Event.updates t))) := by
  induction ms generalizing f k with
  | nil => exact ⟨trivial, h, rfl, rfl⟩
  | cons m ms ih =>
    obtain ⟨hacc, hfed, hno⟩ := h.fill hk.toLists ht a (m := m) hok.1.1
    obtain ⟨hacc', hfed', hno'⟩ := ih hfed (Book.apply_wf hk hok.1) hok.2
    rw [List.map_cons, List.flatMap_cons, Feed.accepts_append, Feed.steps_append]
    exact ⟨⟨hacc, hacc'⟩, hfed', hno.trans hno'⟩

/-- The update of an order that rests under a new id. -/
theorem rest (h : Fed f t k) (hf : f.Sound) (hk : k.Lists) (ht : t.toNat < meMaxTickers)
    (lp : LevelPtr) (q : Qty) (hnew : f.lastId t < e.info.marketOrderId)
    (hid : e.info.marketOrderId.toNat < meMaxOrderIds) (hadds : f.adds + 1 < meMaxOrderIds) :
    f.Accepts (Event.updates t (.rest e lp q)) ∧
      Fed (f.steps (Event.updates t (.rest e lp q))) t (k.rest e lp) := by
  refine ⟨⟨⟨ht, hnew, hid, hadds⟩, trivial⟩, ?_, ?_⟩
  · intro e' he'
    show ∃ o ∈ Function.update f.live t _ t, _
    rw [Function.update_self]
    rcases (Book.mem_rest_entries hk).mp he' with rfl | he'
    · exact ⟨_, List.mem_append_right _ (List.mem_singleton_self _), rfl, rfl, rfl⟩
    · obtain ⟨o, ho, hrest⟩ := h.known e' he'
      exact ⟨o, List.mem_append_left _ ho, hrest⟩
  · rw [((Book.rest_entries_perm hk e lp).map _).nodup_iff, List.map_cons, List.nodup_cons]
    refine ⟨?_, h.ids⟩
    intro hmem
    obtain ⟨e', he', hid'⟩ := List.mem_map.mp hmem
    have hle := h.id_le hf he'
    rw [hid'] at hle
    grind

/-! ## Requests -/

/-- **The updates of a request can come next**, and the feed then has the orders of the book. -/
theorem request {r : MEClientRequest} {cells : Book.Cells} (h : Fed f t k) (hf : f.Sound)
    (hk : k.WF) (ht : t.toNat < meMaxTickers) (hr : r.Valid) (hok : k.OkAll (k.events cells r))
    (hlast : f.lastId t < k.nextOrderId)
    (hroom : r.type = .new → k.nextOrderId.toNat < meMaxOrderIds ∧ f.adds + 1 < meMaxOrderIds) :
    f.Accepts ((k.events cells r).flatMap (Event.updates t)) ∧
      Fed (f.steps ((k.events cells r).flatMap (Event.updates t))) t
        (k.applyAll (k.events cells r)) ∧
      (f.steps ((k.events cells r).flatMap (Event.updates t))).lastId t <
        (k.applyAll (k.events cells r)).nextOrderId ∧
      (k.applyAll (k.events cells r)).nextOrderId.toNat ≤
        k.nextOrderId.toNat + (newRequests [r]).length ∧
      (f.steps ((k.events cells r).flatMap (Event.updates t))).adds ≤
        f.adds + (newRequests [r]).length := by
  rcases hr with ⟨hnew, -, -⟩ | hcancel
  · obtain ⟨hnext, hadds⟩ := hroom hnew
    have hcount : (newRequests [r]).length = 1 := by simp [newRequests, hnew]
    rw [hcount]
    have hsucc : (k.nextOrderId + 1).toNat = k.nextOrderId.toNat + 1 := by
      unfold meMaxOrderIds at hnext
      rw [UInt64.toNat_add]
      show (k.nextOrderId.toNat + 1) % 2 ^ 64 = _
      omega
    have hlt : k.nextOrderId < k.nextOrderId + 1 := by
      rw [UInt64.lt_iff_toNat_lt, hsucc]
      omega
    simp only [Book.events, hnew] at hok ⊢
    have hok := Book.along_append.mp hok
    have hk₁ := Book.applyAll_wf hk hok.1
    -- the matches; accepting the order sends no update
    obtain ⟨hacc, hfed, hno⟩ := fills (k := k.apply (.accepted (k.incoming r))) (f := f) (t := t)
      ⟨h.known, h.ids⟩ (Book.apply_wf hk trivial) ht (k.incoming r) hok.1.2
    have hupdates : (k.matchEvents r).flatMap (Event.updates t) =
        ((TradingSystem.fills r.side r.price r.qty (k.queue r.side)).map
          (Event.fill (k.incoming r))).flatMap (Event.updates t) := rfl
    have hid₁ : (k.applyAll (k.matchEvents r)).nextOrderId = k.nextOrderId + 1 :=
      Book.matchEvents_nextOrderId k r
    rw [List.flatMap_append, Book.applyAll_append, Feed.accepts_append, Feed.steps_append]
    rw [← hupdates] at hacc hfed hno
    have hlast₁ : (f.steps ((k.matchEvents r).flatMap (Event.updates t))).lastId t <
        k.nextOrderId := by
      rw [hno.1]
      exact hlast
    cases hrem : k.remainder cells r with
    | none =>
      refine ⟨⟨hacc, trivial⟩, hfed, ?_, ?_, ?_⟩
      · show (f.steps ((k.matchEvents r).flatMap (Event.updates t))).lastId t <
          (k.applyAll (k.matchEvents r)).nextOrderId
        rw [hid₁]
        grind
      · show (k.applyAll (k.matchEvents r)).nextOrderId.toNat ≤ _
        rw [hid₁, hsucc]
      · show (f.steps ((k.matchEvents r).flatMap (Event.updates t))).adds ≤ _
        rw [hno.2]
        omega
    | some e =>
      have heid : e.info.marketOrderId = k.nextOrderId := by
        obtain ⟨-, -, hinfo⟩ := Book.remainder_eq_some hrem
        rw [hinfo]
        rfl
      obtain ⟨hacc', hfed'⟩ := Fed.rest hfed (hf.steps hacc) hk₁.toLists ht cells.level r.qty
        (by rw [heid]; exact hlast₁) (by rw [heid]; exact hnext) (by rw [hno.2]; exact hadds)
      refine ⟨⟨hacc, ?_⟩, ?_, ?_, ?_, ?_⟩
      · exact hacc'
      · exact hfed'
      · show (Function.update (f.steps ((k.matchEvents r).flatMap (Event.updates t))).lastId t
          e.info.marketOrderId t) < ((k.applyAll (k.matchEvents r)).rest e cells.level).nextOrderId
        rw [Function.update_self, Book.rest_nextOrderId, hid₁, heid]
        exact hlt
      · show ((k.applyAll (k.matchEvents r)).rest e cells.level).nextOrderId.toNat ≤ _
        rw [Book.rest_nextOrderId, hid₁, hsucc]
      · show (f.steps ((k.matchEvents r).flatMap (Event.updates t))).adds + 1 ≤ _
        rw [hno.2]
  · have hcount : (newRequests [r]).length = 0 := by simp [newRequests, hcancel]
    rw [hcount]
    simp only [Book.events, hcancel] at hok ⊢
    split at hok
    · next e hfind =>
      obtain ⟨hadm, hfed⟩ := h.remove hk.toLists ht hok.1 (u := {
        type := .cancel, orderId := e.info.marketOrderId, tickerId := t, side := e.info.side,
        price := e.info.price, qty := e.info.qty, priority := e.info.priority }) rfl rfl rfl rfl
      refine ⟨⟨hadm, trivial⟩, hfed, ?_, Nat.le_refl _, Nat.le_refl _⟩
      exact hlast
    · exact ⟨trivial, h, hlast, Nat.le_refl _, Nat.le_refl _⟩

end Fed

/-! ## Runs of the engine -/

namespace MatchingEngine

/-- **The stream of the engine is well formed.** -/
theorem processAll_wellFormed {rs : List MEClientRequest} {m : MatchingEngine}
    (hvalid : ∀ r ∈ rs, r.Valid) (hcount : (newRequests rs).length < meMaxOrderIds)
    (hrun : init.processAll rs = .ok m) : WellFormed m.marketUpdates := by
  -- the feed has the orders of every book, and the ids and the orders have been counted
  have hinit : ∀ t, Fed (Feed.empty.steps []) t (Book.init t) ∧
      (Feed.empty.steps []).lastId t < (Book.init t).nextOrderId ∧
      (Book.init t).nextOrderId.toNat ≤ (newRequests []).length + 1 := by
    intro t
    exact ⟨Fed.init _ t, by show (0 : OrderId) < 1; decide, Nat.le_refl _⟩
  obtain ⟨k, -, hI⟩ := process_run_rule
    (fun rs k us => (newRequests rs).length < meMaxOrderIds → WellFormed us ∧
      (Feed.empty.steps us).adds ≤ (newRequests rs).length ∧
      ∀ t, Fed (Feed.empty.steps us) t (k t) ∧
        (Feed.empty.steps us).lastId t < (k t).nextOrderId ∧
        (k t).nextOrderId.toNat ≤ (newRequests rs).length + 1)
    (fun _ => ⟨trivial, by decide, hinit⟩)
    (fun rs m k r cells hreached hI hr hticker hok hcount => by
      rw [newRequests_append, List.length_append] at hcount ⊢
      obtain ⟨hwf, hadds, hall⟩ := hI (by omega)
      obtain ⟨hfed, hlast, hnext⟩ := hall r.tickerId
      obtain ⟨hacc, hfed', hlast', hnext', hadds'⟩ := hfed.request hwf.sound
        (hreached.wf r.tickerId) hticker hr hok hlast (fun hnew => by
          have : (newRequests [r]).length = 1 := by simp [newRequests, hnew]
          omega)
      refine ⟨Feed.accepts_append.mpr ⟨hwf, hacc⟩, ?_, ?_⟩
      · rw [Feed.steps_append]
        omega
      · intro t
        rw [Feed.steps_append]
        by_cases ht : t = r.tickerId
        · subst ht
          rw [Function.update_self]
          exact ⟨hfed', hlast', by omega⟩
        · rw [Function.update_of_ne ht]
          obtain ⟨hfedt, hlastt, hnextt⟩ := hall t
          have hnone : ∀ u ∈ ((k r.tickerId).events cells r).flatMap (Event.updates r.tickerId),
              t ≠ u.tickerId := by
            intro u hu
            obtain ⟨ev, -, hu⟩ := List.mem_flatMap.mp hu
            rw [Event.updates_ticker hu]
            exact ht
          obtain ⟨hlive, hlastId⟩ := Feed.empty.steps m.marketUpdates |>.steps_of_other hnone
          refine ⟨hfedt.of_live_eq hlive, ?_, by omega⟩
          rw [hlastId]
          exact hlastt)
    hvalid hrun
  exact (hI hcount).1

end MatchingEngine

end TradingSystem
