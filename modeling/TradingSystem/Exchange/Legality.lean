import TradingSystem.Exchange.Trades

/-!
# Legal trades and the slots of the price table

`Legal b`: every trade was between a buy and a sell order, every resting order is in a level of its
own side and price, and the book is not crossed. The level of an order is looked up in a table of
256 slots that prices of both sides share, so an order can end up in a level of another price or of
the other side. It does exactly if something is left of it after matching and a level that is not
its own is then in its slot; `Fits` is the condition that excludes this.
-/

namespace TradingSystem

open MEOrderBook (priceToIndex stops)

/-- A buy and a sell order, in either order. -/
def Opposed (s t : Side) : Prop := (s = .buy ∧ t = .sell) ∨ (s = .sell ∧ t = .buy)

/-- The trades and the resting orders are legal. -/
structure Legal (b : MEOrderBook) : Prop where
  trades : ∀ p ∈ pairs (b.responses.filter fun r => r.type = .filled), Opposed p.1.side p.2.side
  levels : ∀ head ∈ [b.bidsByPrice, b.asksByPrice], ∀ l ∈ b.levelPtrs head, ∀ o ∈ b.restingAt l,
    (b.level l).side = o.side ∧ (b.level l).price = o.price
  uncrossed : ∀ o ∈ b.resting, ∀ o' ∈ b.resting, o.side = .buy → o'.side = .sell →
    o.price < o'.price

/-- The request is covered at once, or whatever rests in its price's slot is a level of its own side
and price or can be traded with. -/
def Fits (b : MEOrderBook) (r : MEClientRequest) : Prop :=
  r.type = .new → r.qty.toNat ≤ b.available r ∨
    ∀ o ∈ b.resting, priceToIndex o.price = priceToIndex r.price →
      (o.side = r.side ∧ o.price = r.price) ∨
        (o.side ≠ r.side ∧ stops r.side r.price o.price = false)

instance (b : MEOrderBook) (r : MEClientRequest) : Decidable (Fits b r) :=
  inferInstanceAs (Decidable (_ → _))

/-! ## Events -/

/-- Every order is in a level of its own side and price, and every bid is below every ask. -/
structure Book.Legal (k : Book) : Prop where
  own : ∀ l ∈ k.levels, ∀ e ∈ l.orders, e.info.side = l.side ∧ e.info.price = l.price
  uncrossed : ∀ l ∈ k.bids, ∀ l' ∈ k.asks, l.price < l'.price

/-- An order rests among levels that it cannot trade with, in a slot that is free or its own. -/
def Event.Lawful (k : Book) : Event → Prop
  | .rest e _ _ =>
    (∀ l ∈ k.levels, l.slot = e.slot → l.side = e.info.side ∧ l.price = e.info.price) ∧
      ∀ l ∈ k.side e.info.side.opposite, stops e.info.side e.info.price l.price = true
  | _ => True

namespace Book

variable {k : Book} {s : Side} {e : Entry} {l : Level} {ev : Event}

theorem Legal.filter (h : k.Legal) {f : Entry → Option Entry} (hf : Keeps f) :
    (k.filter f).Legal where
  own := by
    intro l hl e he
    rw [filter_levels] at hl
    obtain ⟨l₀, hl₀, rfl, -⟩ := mem_filterOrders.mp hl
    obtain ⟨e₀, he₀, hfe⟩ := List.mem_filterMap.mp he
    obtain ⟨q, rfl⟩ := hf e₀ e hfe
    exact h.own l₀ hl₀ e₀ he₀
  uncrossed := by
    intro l hl l' hl'
    obtain ⟨l₀, hl₀, rfl, -⟩ := mem_filterOrders.mp hl
    obtain ⟨l₁, hl₁, rfl, -⟩ := mem_filterOrders.mp hl'
    exact h.uncrossed l₀ hl₀ l₁ hl₁

theorem Legal.setCidOid (h : k.Legal) (c : ClientId) (o : OrderId) (p : Option OrderPtr) :
    (k.setCidOid c o p).Legal := ⟨h.own, h.uncrossed⟩

theorem Legal.fill (h : k.Legal) (f : Fill) : (k.fill f).Legal := by
  apply fill_rule (P := Book.Legal)
  · exact fun _ => (h.filter (keeps_dropping _)).setCidOid _ _ _
  · exact fun _ => h.filter (keeps_requantifying _ _)

theorem Legal.join (h : k.Legal)
    (hslot : ∀ l ∈ k.levels, l.slot = e.slot → l.side = e.info.side ∧ l.price = e.info.price) :
    (k.join e).Legal where
  own := by
    intro l hl e' he'
    rw [join_levels] at hl
    obtain ⟨l₀, hl₀, rfl⟩ := mem_appendOrder.mp hl
    split at he'
    · next hs =>
      rw [if_pos hs]
      rcases List.mem_append.mp he' with he' | he'
      · exact h.own l₀ hl₀ e' he'
      · rw [List.mem_singleton.mp he']
        exact ⟨(hslot l₀ hl₀ hs).1.symm, (hslot l₀ hl₀ hs).2.symm⟩
    · next hs =>
      rw [if_neg hs]
      exact h.own l₀ hl₀ e' he'
  uncrossed := by
    intro l hl l' hl'
    obtain ⟨l₀, hl₀, rfl⟩ := mem_appendOrder.mp hl
    obtain ⟨l₁, hl₁, rfl⟩ := mem_appendOrder.mp hl'
    have := h.uncrossed l₀ hl₀ l₁ hl₁
    split <;> split <;> exact this

theorem Legal.addLevel (h : k.Legal) {new : Level} (hs : new.side = .buy ∨ new.side = .sell)
    (hown : ∀ e ∈ new.orders, e.info.side = new.side ∧ e.info.price = new.price)
    (hstop : ∀ l ∈ k.side new.side.opposite, stops new.side new.price l.price = true) :
    (k.addLevel new).Legal where
  own := by
    intro l hl
    rcases mem_addLevel.mp hl with rfl | hl
    · exact hown
    · exact h.own l hl
  uncrossed := by
    intro l hl l' hl'
    rw [addLevel_eq] at hl hl'
    rcases hs with hs | hs
    · rw [hs] at hstop
      simp only [hs, if_true] at hl hl'
      rcases mem_insertLevel.mp hl with rfl | hl
      · exact of_decide_eq_true (hstop l' hl')
      · exact h.uncrossed l hl l' hl'
    · rw [hs] at hstop
      simp only [hs, reduceCtorEq, if_false] at hl hl'
      rcases mem_insertLevel.mp hl' with rfl | hl'
      · exact of_decide_eq_true (hstop l hl)
      · exact h.uncrossed l hl l' hl'

/-- **Step lemma.** A lawful event keeps the book legal. -/
theorem apply_legal (h : k.Legal) (hok : ev.Ok k) (hlaw : ev.Lawful k) :
    (k.apply ev).Legal := by
  cases ev with
  | accepted o => exact ⟨h.own, h.uncrossed⟩
  | fill a f => exact h.fill f
  | rest e lp q =>
    show (k.rest e lp).Legal
    rw [rest_eq]
    refine Legal.setCidOid ?_ _ _ _
    split
    · exact h.join hlaw.1
    · refine h.addLevel hok.1 ?_ hlaw.2
      intro e' he'
      rw [List.mem_singleton.mp he']
      exact ⟨rfl, rfl⟩
  | cancelled e => exact (h.filter (keeps_dropping _)).setCidOid _ _ _
  | rejected c o => exact h

/-! ## What is left after matching -/

theorem Legal.applyAll_fills (h : k.Legal) (a : OrderInfo) (fs : List Fill) :
    (k.applyAll (fs.map (.fill a))).Legal := by
  induction fs generalizing k with
  | nil => exact h
  | cons f fs ih => exact ih (h.fill f)

/-- An incoming order that is not used up has used up all orders it crosses. -/
theorem queue_of_leftOver (hk : k.Lists) {price : Price} {left : Qty} (a : OrderInfo)
    {es : List Entry} (hq : k.queue s = es) (hleft : 0 < leftOver left (fills s price left es)) :
    (k.applyAll ((fills s price left es).map (.fill a))).queue s =
      es.dropWhile fun e => !stops s price e.info.price := by
  induction es generalizing k left with
  | nil => exact hq
  | cons e es ih =>
    rw [List.dropWhile_cons]
    cases hstop : stops s price e.info.price with
    | true =>
      rw [fills_stop hstop]
      exact hq
    | false =>
      by_cases hzero : left = 0
      · subst hzero
        simp [leftOver] at hleft
      · rw [fills_cons hzero hstop] at hleft ⊢
        -- the order is used up, else nothing would be left
        have hge : ¬ left < e.info.qty := by
          intro hlt
          simp [hlt, leftOver] at hleft
        refine ih (hk.fill _) (fill_queue_of_full hk hq rfl ?_) hleft
        simp [hge]

/-- Behind a level that stops an incoming order all levels do. -/
theorem stops_of_queue (h : k.Legal) (hk : k.Lists) (hs : s = .buy ∨ s = .sell) {price : Price}
    (hhead : ∀ e ∈ (k.queue s).head?, stops s price e.info.price = true) :
    ∀ l ∈ k.side s.opposite, stops s price l.price = true := by
  have hopp : s.opposite = .buy ∨ s.opposite = .sell := by
    rcases hs with rfl | rfl <;> simp [Side.opposite]
  rw [queue_eq hs] at hhead
  have hsorted := hk.sorted hopp
  cases hlevels : k.side s.opposite with
  | nil => simp
  | cons l ls =>
    rw [hlevels] at hhead hsorted
    have hl : l ∈ k.levels := mem_levels_of_mem_side (by rw [hlevels]; simp)
    obtain ⟨e, es, hes⟩ := List.exists_cons_of_ne_nil (hk.nonempty l hl)
    have hstop : stops s price l.price = true := by
      have hprice := (h.own l hl e (by simp [hes])).2
      rw [← hprice]
      exact hhead e (by simp [hes])
    intro l' hl'
    rcases List.mem_cons.mp hl' with rfl | hl'
    · exact hstop
    · have hbehind := (List.pairwise_cons.mp hsorted).1 l' hl'
      rcases hs with rfl | rfl
      · simp only [Side.opposite, behind_iff_sell] at hbehind
        simp only [stops, decide_eq_true_eq] at hstop ⊢
        grind
      · simp only [Side.opposite, behind_iff_buy] at hbehind
        simp only [stops, decide_eq_true_eq] at hstop ⊢
        grind

/-- The orders an incoming order meets are of the other side. -/
theorem Legal.opposed (h : k.Legal) (hk : k.Lists) (hs : s = .buy ∨ s = .sell)
    (he : e ∈ k.queue s) : Opposed s e.info.side := by
  rw [queue_eq hs] at he
  obtain ⟨l, hl, hel⟩ := mem_levelOrders.mp he
  have hown := (h.own l (mem_levels_of_mem_side hl) e hel).1
  rcases hs with rfl | rfl
  · exact Or.inl ⟨rfl, hown.trans (hk.side_of_mem (Or.inr rfl) hl)⟩
  · exact Or.inr ⟨rfl, hown.trans (hk.side_of_mem (Or.inl rfl) hl)⟩

/-- After matching, what rests in the slot of an order that is not used up is its own level. -/
theorem remainder_lawful {b : MEOrderBook} (h : Rep b k) (hk : k.WF) (hlegal : k.Legal)
    {r : MEClientRequest} (hs : r.side = .buy ∨ r.side = .sell) (hnew : r.type = .new)
    (hfits : Fits b r) {cells : Cells} (hrem : k.remainder cells r = some e) (lp : LevelPtr)
    (q : Qty) : (Event.rest e lp q).Lawful (k.applyAll (k.matchEvents r)) := by
  obtain ⟨k₁, hk₁⟩ : ∃ k₁, k₁ = k.applyAll (k.matchEvents r) := ⟨_, rfl⟩
  have hk₀ : (k.apply (.accepted (k.incoming r))).WF := apply_wf hk trivial
  have hlists₁ : k₁.Lists := hk₁ ▸ hk₀.toLists.applyAll_fills _ _
  have hlegal₁ : k₁.Legal := hk₁ ▸ Legal.applyAll_fills
    (k := k.apply (.accepted (k.incoming r))) ⟨hlegal.own, hlegal.uncrossed⟩ _ _
  obtain ⟨hpos, -, hinfo⟩ := remainder_eq_some hrem
  have hqueue : k₁.queue r.side =
      (k.queue r.side).dropWhile fun e => !stops r.side r.price e.info.price :=
    hk₁ ▸ queue_of_leftOver (k := k.apply (.accepted (k.incoming r))) hk₀.toLists _ rfl hpos
  have hstops : ∀ l ∈ k₁.side r.side.opposite, stops r.side r.price l.price = true := by
    refine stops_of_queue hlegal₁ hlists₁ hs ?_
    intro e he
    rw [hqueue] at he
    have hhead := List.head?_dropWhile_not (fun e => !stops r.side r.price e.info.price)
      (k.queue r.side)
    rw [Option.mem_def.mp he] at hhead
    simpa using hhead
  rw [← hk₁]
  show (∀ l ∈ k₁.levels, l.slot = priceToIndex e.info.price → l.side = e.info.side ∧
    l.price = e.info.price) ∧ ∀ l ∈ k₁.side e.info.side.opposite, stops e.info.side e.info.price l.price
  rw [hinfo]
  refine ⟨?_, hstops⟩
  intro l hl hslot
  obtain ⟨e, es, hes⟩ := List.exists_cons_of_ne_nil (hlists₁.nonempty l hl)
  have hown := hlegal₁.own l hl e (by simp [hes])
  have hmem : e ∈ (k.applyAll (k.matchEvents r)).entries :=
    hk₁ ▸ mem_entries.mpr ⟨l, hl, by simp [hes]⟩
  obtain ⟨e₀, he₀, q₀, rfl⟩ := mem_matchEvents_entries hmem
  have hresting : e₀.info ∈ b.resting := by
    rw [h.resting_eq hk.toLists]
    exact List.mem_map_of_mem he₀
  rcases hfits hnew with hcover | hfits
  · have hleft := h.leftOver_eq hk.toLists r
    have hpos' := UInt32.lt_iff_toNat_lt.mp hpos
    rw [hleft, UInt32.toNat_zero] at hpos'
    omega
  · have hindex : priceToIndex e₀.info.price = priceToIndex r.price := by
      rw [show e₀.info.price = l.price from hown.2]
      exact hslot
    rcases hfits e₀.info hresting hindex with ⟨hside, hprice⟩ | ⟨hside, hgo⟩
    · exact ⟨hown.1.symm.trans hside, hown.2.symm.trans hprice⟩
    · -- an order of the other side that could be traded with would be gone
      have hlside : l ∈ k₁.side r.side.opposite := by
        have hne : l.side ≠ r.side := fun heq => hside (hown.1.trans heq)
        have hmem := hlists₁.mem_side hl
        rcases hs with hs | hs <;> rcases mem_levels.mp hl with hl' | hl'
        · exact absurd ((hlists₁.side_eq hl' (Or.inl rfl)).trans hs.symm) hne
        · rw [hs]
          exact hl'
        · rw [hs]
          exact hl'
        · exact absurd ((hlists₁.side_eq hl' (Or.inr rfl)).trans hs.symm) hne
      have hstop := hstops l hlside
      rw [← hown.2] at hstop
      exact absurd (hstop.symm.trans hgo) (by decide)

/-- The events of a request that meets the condition are lawful. -/
theorem events_lawful {b : MEOrderBook} (h : Rep b k) (hk : k.WF) (hlegal : k.Legal)
    {r : MEClientRequest} (hr : r.Valid) (hfits : Fits b r) (cells : Cells) :
    k.Along (fun k ev => ev.Lawful k) (k.events cells r) := by
  apply events_along
  · intro k ev hev
    cases ev with
    | rest e lp q => cases hev
    | _ => trivial
  · intro hnew e hrem
    rcases hr with ⟨-, hs, -⟩ | hcancel
    · exact remainder_lawful h hk hlegal hs hnew hfits hrem _ _
    · rw [hnew] at hcancel
      cases hcancel

end Book

/-! ## Runs -/

theorem legal_of_reached {ticker : TickerId} {b : MEOrderBook} {k : Book} {evs : List Event}
    (h : MEOrderBook.Reached ticker b k evs) (hlegal : k.Legal)
    (htrades : ∀ t ∈ tradesOf evs, Opposed t.1.side t.2.passive.info.side) : Legal b where
  trades := by
    have hresponses : b.responses = evs.flatMap (Event.responses ticker) := h.sent.responses
    intro p hp
    rw [hresponses, pairs_filled] at hp
    obtain ⟨t, ht, rfl⟩ := List.mem_map.mp hp
    exact htrades t ht
  levels := by
    have hside : ∀ s, ∀ p ∈ b.levelPtrs (b.levelsHead s), ∀ o ∈ b.restingAt p,
        (b.level p).side = o.side ∧ (b.level p).price = o.price := by
      intro s p hp o ho
      rw [h.rep.levelPtrs_eq h.wf.toLists] at hp
      obtain ⟨l, hl, rfl⟩ := List.mem_map.mp hp
      have hlk := Book.mem_levels_of_mem_side hl
      rw [h.rep.restingAt_eq h.wf.toLists hlk] at ho
      obtain ⟨e, he, rfl⟩ := List.mem_map.mp ho
      have hown := hlegal.own l hlk e he
      exact ⟨(h.rep.levelRep hlk).side_eq.trans hown.1.symm,
        (h.rep.levelRep hlk).price_eq.trans hown.2.symm⟩
    intro head hhead p hp o ho
    rcases List.mem_pair.mp hhead with rfl | rfl
    · exact hside .buy p hp o ho
    · exact hside .sell p hp o ho
  uncrossed := by
    intro o ho o' ho' hbuy hsell
    rw [h.rep.resting_eq h.wf.toLists] at ho ho'
    obtain ⟨e, he, rfl⟩ := List.mem_map.mp ho
    obtain ⟨e', he', rfl⟩ := List.mem_map.mp ho'
    obtain ⟨l, hl, hel⟩ := Book.mem_entries.mp he
    obtain ⟨l', hl', hel'⟩ := Book.mem_entries.mp he'
    have hown := hlegal.own l hl e hel
    have hown' := hlegal.own l' hl' e' hel'
    rw [hown.2, hown'.2]
    have hb : l ∈ k.bids := by
      have := h.wf.mem_side hl
      rwa [← hown.1, hbuy] at this
    have ha : l' ∈ k.asks := by
      have := h.wf.mem_side hl'
      rwa [← hown'.1, hsell] at this
    exact hlegal.uncrossed l hb l' ha

/-- **Trades and the book stay legal** in every run in which no order comes to rest in a slot that
holds a level that is not its own. -/
theorem processAll_legal {ticker : TickerId} {rs : List MEClientRequest} {b : MEOrderBook}
    (hvalid : ∀ r ∈ rs, r.Valid)
    (hfits : AllSteps MEOrderBook.processClientRequest (MEOrderBook.init ticker)
      (fun _ b r => Fits b r) rs)
    (hrun : (MEOrderBook.init ticker).processAll rs = .ok b) : Legal b := by
  have hinit : (Book.init ticker).Legal ∧
      ∀ t ∈ tradesOf [], Opposed t.1.side t.2.passive.info.side :=
    ⟨⟨by simp [Book.init, Book.levels], by simp [Book.init]⟩, by simp [tradesOf]⟩
  obtain ⟨k, evs, hreached, hlegal, htrades⟩ := MEOrderBook.run_rule
    (fun _ k evs => k.Legal ∧ ∀ t ∈ tradesOf evs, Opposed t.1.side t.2.passive.info.side) _ hinit
    (fun rs b k evs cells r hreached hI hr hPr hok => by
      have hlaw := Book.events_lawful hreached.rep hreached.wf hI.1 hr hPr cells
      refine ⟨(hok.and hlaw).induction (fun _ _ h hev => Book.apply_legal h hev.1 hev.2) hI.1, ?_⟩
      intro t ht
      rw [tradesOf_append] at ht
      rcases List.mem_append.mp ht with ht | ht
      · exact hI.2 t ht
      · obtain ⟨hnew, ha, hf⟩ := mem_tradesOf_events ht
        have hs : r.side = .buy ∨ r.side = .sell := by
          rcases hr with ⟨-, hs, -⟩ | hcancel
          · exact hs
          · rw [hnew] at hcancel
            cases hcancel
        rw [ha]
        exact hI.1.opposed hreached.wf.toLists hs (passive_mem_of_mem_fills hf).1)
    hvalid hfits hrun
  exact legal_of_reached hreached hlegal htrades

/-- Two sell orders of one price and a buy order below them. -/
theorem processAll_legal_apart :
    ∃ b, (MEOrderBook.init 0).processAll [
        { type := .new, clientId := 1, tickerId := 0, orderId := 1, side := .sell, price := 101,
          qty := 5 },
        { type := .new, clientId := 1, tickerId := 0, orderId := 2, side := .sell, price := 101,
          qty := 5 },
        { type := .new, clientId := 2, tickerId := 0, orderId := 1, side := .buy, price := 100,
          qty := 4 }] = .ok b ∧ Legal b := by
  obtain ⟨b, hb⟩ := exists_ok (x := (MEOrderBook.init 0).processAll [
        { type := .new, clientId := 1, tickerId := 0, orderId := 1, side := .sell, price := 101,
          qty := 5 },
        { type := .new, clientId := 1, tickerId := 0, orderId := 2, side := .sell, price := 101,
          qty := 5 },
        { type := .new, clientId := 2, tickerId := 0, orderId := 1, side := .buy, price := 100,
          qty := 4 }]) (by decide +kernel)
  exact ⟨b, hb, processAll_legal (by decide) (AllSteps.of_check (by decide +kernel)) hb⟩

/-- A sell order at 356 and a buy order at 100 share the slot 100: the buy order ends up in the
level of the sell order. -/
theorem not_legal_of_shared_slot :
    ¬ ∀ (ticker : TickerId) (rs : List MEClientRequest) (b : MEOrderBook), (∀ r ∈ rs, r.Valid) →
      AllSteps MEOrderBook.processClientRequest (MEOrderBook.init ticker)
        (fun _ b r => MEOrderBook.NotReused b r) rs →
      (MEOrderBook.init ticker).processAll rs = .ok b → Legal b := by
  intro hall
  let rs : List MEClientRequest := [
    { type := .new, clientId := 1, tickerId := 0, orderId := 1, side := .sell, price := 356,
      qty := 5 },
    { type := .new, clientId := 2, tickerId := 0, orderId := 1, side := .buy, price := 100,
      qty := 5 }]
  obtain ⟨b, hb⟩ := exists_ok (x := (MEOrderBook.init 0).processAll rs) (by decide +kernel)
  have hlegal := hall 0 rs b (by decide) (AllSteps.of_check (by decide +kernel)) hb
  have hread : ((MEOrderBook.init 0).processAll rs).map (fun b =>
      (b.levelPtrs b.asksByPrice, (b.level 0).side, (b.restingAt 0).map OrderInfo.side)) =
      .ok ([0], .sell, [.sell, .buy]) := by decide +kernel
  rw [hb] at hread
  simp only [Except.map, Except.ok.injEq, Prod.mk.injEq] at hread
  obtain ⟨hptrs, hside, hsides⟩ := hread
  have hmem : Side.buy ∈ (b.restingAt 0).map OrderInfo.side := by simp [hsides]
  obtain ⟨o, ho, hbuy⟩ := List.mem_map.mp hmem
  have hown := hlegal.levels b.asksByPrice (by simp) 0 (by simp [hptrs]) o ho
  rw [hside, hbuy] at hown
  cases hown.1

end TradingSystem
