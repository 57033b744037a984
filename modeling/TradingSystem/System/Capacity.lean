import TradingSystem.Exchange.IdRange
import TradingSystem.Exchange.TickerBooks
import TradingSystem.System.MarketView

/-!
# What the exchange can take

A book stops with an error when a pool has no cell left for what rests. With fewer new orders for a
ticker than the pool of orders has cells, and their prices in one window, this does not happen
(`MEOrderBook.exists_run`): every order has an id of its own, below the next one (`Book.Counted`), and
the levels of a window take up all slots but one.
-/

namespace TradingSystem

open Client (liveOrders InWindow Orderly)
open Client.MarketOrderBook (NewIdInTable)
open MEOrderBook (priceToIndex)

namespace Client

variable {lo : Price} {us vs : List MEMarketUpdate}

/-- A stream that a client's book can follow, and look up the ids of. -/
structure Followed (lo : Price) (us : List MEMarketUpdate) : Prop where
  orderly : Along (Orderly lo) [] us
  ids : ∀ u ∈ us, NewIdInTable u

theorem Followed.of_append (h : Followed lo (us ++ vs)) : Followed lo us where
  orderly := (along_append.mp h.orderly).1
  ids := fun u hu => h.ids u (List.mem_append_left _ hu)

/-- A book that is fed the stream takes it and lists the live orders. -/
theorem Followed.exists_onMarketUpdates (h : Followed lo us) (ticker : TickerId) :
    ∃ b, (MarketOrderBook.init ticker).onMarketUpdates us = .ok b ∧
      MarketOrderBook.ListsLive b (liveOrders us) := by
  obtain ⟨b, k, hb, hstands, -⟩ := (MarketOrderBook.stands_init lo ticker).quote_run
    (by simp [MarketOrderBook.IdsInTable]) h.orderly h.ids (fun _ => false)
    (by rintro s (rfl | rfl) <;> rfl)
  exact ⟨b, hb, hstands.listsLive⟩

end Client

namespace Book

variable {k : Book} {lo : Price} {live : List Client.LiveOrder} {e : Entry} {r : MEClientRequest}
  {cells : Cells} {n : Nat}

/-- After `n` new orders: the next id, and how many orders rest, each under an id given before. -/
structure Counted (k : Book) (n : Nat) : Prop where
  next : k.nextOrderId.toNat = n + 1
  older : ∀ e ∈ k.entries, e.info.marketOrderId < k.nextOrderId
  length : k.entries.length ≤ n

theorem counted_init (ticker : TickerId) : (init ticker).Counted 0 where
  next := rfl
  older := by simp [init, entries, levels]
  length := by simp [init, entries, levels]

/-- Matching takes no name in the book twice. -/
theorem fills_map_sublist {β : Type} {g : Entry → β}
    (hg : ∀ (e : Entry) q, g { e with info := { e.info with qty := q } } = g e) (a : OrderInfo)
    (fs : List Fill) :
    ((k.applyAll (fs.map (.fill a))).entries.map g).Sublist (k.entries.map g) := by
  induction fs generalizing k with
  | nil => exact List.Sublist.refl _
  | cons f fs ih => exact ih.trans (fill_map_sublist hg f)

theorem matchEvents_length (k : Book) (r : MEClientRequest) :
    (k.applyAll (k.matchEvents r)).entries.length ≤ k.entries.length := by
  have hsub := fills_map_sublist (k := k.apply (.accepted (k.incoming r))) (g := Entry.ptr)
    (fun _ _ => rfl) (k.incoming r) (TradingSystem.fills r.side r.price r.qty (k.queue r.side))
  have hle := hsub.length_le
  rw [List.length_map, List.length_map] at hle
  exact hle

/-- The next id after another order. -/
theorem Counted.next_succ (h : k.Counted n) (hn : n + 2 < 2 ^ 64) :
    (k.nextOrderId + 1).toNat = n + 2 := by
  have hnext := h.next
  rw [UInt64.toNat_add]
  show (k.nextOrderId.toNat + 1) % 2 ^ 64 = _
  omega

theorem Counted.matchEvents (h : k.Counted n) (hn : n + 2 < 2 ^ 64) (r : MEClientRequest) :
    (k.applyAll (k.matchEvents r)).Counted (n + 1) ∧
      (k.applyAll (k.matchEvents r)).entries.length ≤ n := by
  have hlen := (matchEvents_length k r).trans h.length
  refine ⟨⟨?_, ?_, hlen.trans (Nat.le_succ n)⟩, hlen⟩
  · rw [matchEvents_nextOrderId]
    exact h.next_succ hn
  · intro e he
    obtain ⟨e₀, he₀, q, rfl⟩ := mem_matchEvents_entries he
    have hlt := UInt64.lt_iff_toNat_lt.mp (h.older e₀ he₀)
    rw [matchEvents_nextOrderId, UInt64.lt_iff_toNat_lt, h.next_succ hn]
    have hnext := h.next
    show e₀.info.marketOrderId.toNat < _
    omega

/-- **Step lemma.** -/
theorem Counted.request (h : k.Counted n) (hk : k.WF) (hn : n + 2 < 2 ^ 64) (hr : r.Valid)
    (hok : k.OkAll (k.events cells r)) :
    (k.applyAll (k.events cells r)).Counted (n + (newRequests [r]).length) := by
  rcases hr with ⟨hnew, -, -⟩ | hcancel
  · have hone : (newRequests [r]).length = 1 := by simp [newRequests, hnew]
    rw [hone]
    obtain ⟨hmatch, hlen⟩ := h.matchEvents hn r
    cases hrem : k.remainder cells r with
    | none =>
      rw [events_of_used_up hnew hrem]
      exact hmatch
    | some e =>
      obtain ⟨-, -, hinfo⟩ := remainder_eq_some hrem
      rw [events_of_rest hnew hrem] at hok ⊢
      have hk₁ := (applyAll_wf hk (along_append.mp hok).1).toLists
      rw [applyAll_append]
      show (((k.applyAll (k.matchEvents r)).rest e cells.level)).Counted (n + 1)
      refine ⟨?_, ?_, ?_⟩
      · rw [rest_nextOrderId]
        exact hmatch.next
      · intro e' he'
        rw [rest_nextOrderId]
        rcases (mem_rest_entries hk₁).mp he' with rfl | he'
        · rw [hinfo, UInt64.lt_iff_toNat_lt, hmatch.next]
          show k.nextOrderId.toNat < n + 1 + 1
          have hnext := h.next
          omega
        · exact hmatch.older e' he'
      · rw [(rest_entries_perm hk₁ e cells.level).length_eq, List.length_cons]
        exact Nat.succ_le_succ hlen
  · have hzero : (newRequests [r]).length = 0 := by simp [newRequests, hcancel]
    rw [hzero]
    simp only [events, hcancel] at hok ⊢
    split at hok
    · next e hfind =>
      refine ⟨h.next, ?_, ?_⟩
      · intro e' he'
        exact h.older e' ((mem_remove_entries hk.toLists hok.1).mp he').1
      · show (k.remove e).entries.length ≤ n
        rw [remove, setCidOid_entries, filter_entries]
        exact (List.length_filterMap_le _ _).trans h.length
    · exact h

/-- In a window there is always a level to spare. -/
theorem levels_spare (hk : k.Lists) (hlegal : k.Legal) (hwindow : ∀ e ∈ k.entries, InWindow lo e.info.price)
    {p : Price} (hp : InWindow lo p) (hfree : priceToIndex p ∉ k.levels.map Level.slot) :
    k.levels.length + 1 < meMaxPriceLevels := by
  have hprices : ∀ q ∈ p :: k.levels.map Level.price, InWindow lo q := by
    intro q hq
    rcases List.mem_cons.mp hq with rfl | hq
    · exact hp
    · obtain ⟨l, hl, rfl⟩ := List.mem_map.mp hq
      obtain ⟨e, es, hes⟩ := List.exists_cons_of_ne_nil (hk.nonempty l hl)
      have he : e ∈ l.orders := by rw [hes]; exact List.mem_cons_self
      rw [← (hlegal.own l hl e he).2]
      exact hwindow e (mem_entries.mpr ⟨l, hl, he⟩)
  have hnodup : (p :: k.levels.map Level.price).Nodup := by
    have hslots : ((k.levels.map Level.price).map priceToIndex).Nodup := by
      rw [List.map_map]
      exact hk.slots
    rw [List.nodup_cons]
    refine ⟨?_, hslots.of_map _⟩
    intro hmem
    obtain ⟨l, hl, rfl⟩ := List.mem_map.mp hmem
    exact hfree (List.mem_map_of_mem hl)
  have hle := InWindow.length_le hprices hnodup
  rw [List.length_cons, List.length_map] at hle
  have hmax : meMaxPriceLevels = 256 := rfl
  omega

/-- The request after the `n`-th order does not exhaust a pool. -/
theorem Counted.not_exhausts (h : k.Counted n) (hemits : Emits lo live k) (hk : k.WF) (hpos : k.Positive)
    (hwindow : r.type = .new → InWindow lo r.price) (hn : n + 1 < meMaxOrderIds) : ¬ k.Exhausts r := by
  rintro ⟨hnew, -, hfull⟩
  have hlen := (matchEvents_length k r).trans h.length
  rcases hfull with hfull | ⟨hfull, hfree⟩
  · omega
  · have hk₁ := applyAll_wf hk (matchEvents_ok hk hpos r)
    have hlegal₁ : (k.applyAll (k.matchEvents r)).Legal :=
      Legal.applyAll_fills (k := k.apply (.accepted (k.incoming r)))
        ⟨hemits.legal.own, hemits.legal.uncrossed⟩ _ _
    have hwindow₁ : ∀ e ∈ (k.applyAll (k.matchEvents r)).entries, InWindow lo e.info.price := by
      intro e he
      obtain ⟨e₀, he₀, q, rfl⟩ := mem_matchEvents_entries he
      exact hemits.window e₀ he₀
    have hspare := levels_spare hk₁.toLists hlegal₁ hwindow₁ (hwindow hnew) hfree
    omega

end Book

/-! ## Runs -/

/-- **Step lemma.** What a request makes of a book and of the orders a client sees. -/
theorem Emits.request {lo : Price} {live : List Client.LiveOrder} {k : Book} {b b' : MEOrderBook}
    {r : MEClientRequest} {cells : Book.Cells} (h : Emits lo live k) (hrep : Rep b k) (hk : k.WF)
    (hr : r.Valid) (hspaced : Spaced lo b r) (hok : k.OkAll (k.events cells r))
    (hrep' : Rep b' (k.applyAll (k.events cells r))) (ticker : TickerId) :
    Client.Along (Orderly lo) live ((k.events cells r).flatMap (Event.updates ticker)) ∧
      Emits lo (((k.events cells r).flatMap (Event.updates ticker)).foldl Client.liveStep live)
        (k.applyAll (k.events cells r)) := by
  have hlaw := Book.events_lawful hrep hk h.legal hr (h.fits hrep hk hr hspaced) cells
  have hemittable := events_emittable hrep hk hspaced hrep' (Book.applyAll_wf hk hok)
  exact h.applyAll hk (hok.and (hlaw.and hemittable)) ticker

namespace MEOrderBook

variable {ticker : TickerId} {lo : Price} {rs : List MEClientRequest}

/-- The new orders have prices in the window. -/
def PricesIn (lo : Price) (rs : List MEClientRequest) : Prop :=
  ∀ r ∈ rs, r.type = .new → InWindow lo r.price

instance (lo : Price) (rs : List MEClientRequest) : Decidable (PricesIn lo rs) :=
  inferInstanceAs (Decidable (∀ r ∈ rs, _ → _))

/-- **Run lemma.** The book takes fewer new orders than its pool has cells, with prices in a window. Its
updates can then be followed, every id in them looked up, and buyers meet sellers only. -/
theorem exists_run (ticker : TickerId) (hvalid : ∀ r ∈ rs, r.Valid) (hprices : PricesIn lo rs)
    (hcount : (newRequests rs).length < meMaxOrderIds) :
    ∃ b k evs, (init ticker).processAll rs = .ok b ∧ Reached ticker b k evs ∧
      k.Counted (newRequests rs).length ∧
      Client.Along (Orderly lo) [] (evs.flatMap (Event.updates ticker)) ∧
      Emits lo (liveOrders (evs.flatMap (Event.updates ticker))) k ∧ (∀ ev ∈ evs, ev.InRange) ∧
      ∀ t ∈ tradesOf evs, Opposed t.1.side t.2.passive.info.side := by
  induction rs using List.reverseRecOn with
  | nil =>
    exact ⟨_, _, [], rfl, reached_init ticker, Book.counted_init ticker, trivial,
      Emits.init lo ticker, by simp, by simp [tradesOf]⟩
  | append_singleton rs r ih =>
    rw [newRequests_append, List.length_append] at hcount ⊢
    have hmax : meMaxOrderIds = 1048576 := rfl
    obtain ⟨b, k, evs, hrun, hreached, hcounted, horderly, hemits, hinrange, hopposed⟩ :=
      ih (fun r' hr' => hvalid r' (List.mem_append_left _ hr'))
        (fun r' hr' => hprices r' (List.mem_append_left _ hr')) (by omega)
    have hr := hvalid r (by simp)
    have hwindow := hprices r (by simp)
    have hnew : r.type = .new → (newRequests [r]).length = 1 := fun hnew => by simp [newRequests, hnew]
    have hfits : ¬ k.Exhausts r := by
      intro hex
      have hone := hnew hex.1
      exact hcounted.not_exhausts hemits hreached.wf hreached.positive hwindow (by omega) hex
    have hspaced : Spaced lo b r := by
      intro htype
      refine ⟨hwindow htype, ?_⟩
      intro o ho heq
      -- a resting order has an older id
      rw [hreached.rep.resting_eq hreached.wf.toLists] at ho
      obtain ⟨e, he, rfl⟩ := List.mem_map.mp ho
      have hlt := hcounted.older e he
      rw [heq, hreached.rep.nextOrderId] at hlt
      exact absurd hlt (by simp)
    have hrests : RestsInRange b r := by
      intro htype _
      have hone := hnew htype
      have hnext := hcounted.next
      unfold IdInRange
      rw [hreached.rep.nextOrderId]
      omega
    rcases hreached.step hr with ⟨-, hex⟩ | ⟨cells, b', hok, hevs, hreached'⟩
    · exact absurd hex hfits
    · obtain ⟨hnext, hemits'⟩ :=
        hemits.request hreached.rep hreached.wf hr hspaced hevs hreached'.rep ticker
      refine ⟨b', _, _, foldlM_concat_eq_ok.mpr ⟨b, hrun, hok⟩, hreached',
        hcounted.request hreached.wf (by omega) hr hevs, ?_, ?_, ?_, ?_⟩
      · rw [List.flatMap_append, Client.along_append]
        exact ⟨horderly, hnext⟩
      · rw [List.flatMap_append, liveOrders, List.foldl_append]
        exact hemits'
      · intro ev hev
        rcases List.mem_append.mp hev with hev | hev
        · exact hinrange ev hev
        · exact (Book.events_inRange_iff hreached.rep hreached.wf hr cells).mpr hrests ev hev
      · intro t ht
        rw [tradesOf_append] at ht
        rcases List.mem_append.mp ht with ht | ht
        · exact hopposed t ht
        · obtain ⟨htype, ha, hf⟩ := mem_tradesOf_events ht
          rcases hr with ⟨-, hside, -⟩ | hcancel
          · rw [ha]
            exact hemits.legal.opposed hreached.wf.toLists hside (passive_mem_of_mem_fills hf).1
          · rw [htype] at hcancel
            cases hcancel

/-- The stream of such a run can be followed, to the orders that rest. -/
theorem exists_processAll (ticker : TickerId) (hvalid : ∀ r ∈ rs, r.Valid) (hprices : PricesIn lo rs)
    (hcount : (newRequests rs).length < meMaxOrderIds) :
    ∃ b, (init ticker).processAll rs = .ok b ∧ Client.Followed lo b.updates ∧
      ((liveOrders b.updates).map Client.LiveOrder.ident).Perm
        (b.resting.map fun o => (o.marketOrderId, o.side, o.price)) := by
  obtain ⟨b, k, evs, hrun, hreached, -, horderly, hemits, hinrange, -⟩ :=
    exists_run ticker hvalid hprices hcount
  have hupdates : b.updates = evs.flatMap (Event.updates ticker) := hreached.sent.updates
  refine ⟨b, hrun, ⟨?_, ?_⟩, ?_⟩
  · rw [hupdates]
    exact horderly
  · intro u hu hadd
    have hstart : (Book.init ticker).EntriesInRange := by
      simp [Book.EntriesInRange, Book.init, Book.entries, Book.levels]
    have hall : ∀ u ∈ evs.flatMap (Event.updates ticker), u.NamesOrder → IdInRange u.orderId :=
      (hstart.applyAll (Book.wf_init ticker) hreached.ok).1.mpr hinrange
    rw [hupdates] at hu
    exact hall u hu (Or.inl hadd)
  · rw [hupdates, hreached.rep.resting_eq hreached.wf.toLists, List.map_map]
    exact hemits.orders

end MEOrderBook

namespace MatchingEngine

open Client (Followed)
open MEOrderBook (PricesIn)

variable {rs : List MEClientRequest} {lo : TickerId → Price} {m : MatchingEngine}

/-- **What the engine can take**: for each ticker fewer new orders than a pool has cells, with prices in
one window. -/
structure Manageable (lo : TickerId → Price) (rs : List MEClientRequest) : Prop where
  valid : ∀ r ∈ rs, r.Valid
  tickers : ∀ r ∈ rs, r.tickerId.toNat < meMaxTickers
  prices : ∀ t, PricesIn (lo t) (requestsOf t rs)
  count : ∀ t, (newRequests (requestsOf t rs)).length < meMaxOrderIds

/-- One window for all tickers. -/
theorem Manageable.of_window {lo : Price} (hvalid : ∀ r ∈ rs, r.Valid)
    (htickers : ∀ r ∈ rs, r.tickerId.toNat < meMaxTickers) (hprices : PricesIn lo rs)
    (hcount : (newRequests rs).length < meMaxOrderIds) : Manageable (fun _ => lo) rs where
  valid := hvalid
  tickers := htickers
  prices := fun _ r hr => hprices r (List.mem_of_mem_filter hr)
  count := by
    intro t
    refine lt_of_le_of_lt ?_ hcount
    exact (List.filter_sublist.filter _).length_le

/-- Every request goes through, the stream of each ticker can be followed, and it leads to the orders that
rest. -/
theorem Manageable.exists_processAll (h : Manageable lo rs) :
    ∃ m, init.processAll rs = .ok m ∧ ∀ t, Followed (lo t) (updatesOf t m.marketUpdates) ∧
      ((liveOrders (updatesOf t m.marketUpdates)).map Client.LiveOrder.ident).Perm
        ((m.tickerOrderBook t).resting.map fun o => (o.marketOrderId, o.side, o.price)) := by
  have hbooks : ∀ t, ∃ b, (MEOrderBook.init t).processAll (requestsOf t rs) = .ok b ∧
      Followed (lo t) b.updates ∧ ((liveOrders b.updates).map Client.LiveOrder.ident).Perm
        (b.resting.map fun o => (o.marketOrderId, o.side, o.price)) := by
    intro t
    exact MEOrderBook.exists_processAll t (fun r hr => h.valid r (List.mem_of_mem_filter hr))
      (h.prices t) (h.count t)
  choose books hbooks hlist using hbooks
  obtain ⟨m, hm, hbook⟩ := (exists_processAll_iff (m := init)).mpr ⟨h.tickers, hbooks⟩
  refine ⟨m, hm, fun t => ?_⟩
  obtain ⟨-, -, hupdates⟩ := processAll_ticker h.valid hm t
  rw [hupdates, hbook]
  exact hlist t

end MatchingEngine

end TradingSystem
