import TradingSystem.Exchange.Reference

/-!
# The order book is the reference book

`Sim k os`: the book `k` holds the orders `os` of the reference book, each price's orders in the
order of their arrival. It rests on the book being legal (every order in a level of its own side and
price), and legality rests on distinct prices having distinct slots. Events preserve it
(`Sim.fill`, `Sim.remove`, `Sim.rest`), the matching loop of the reference does the fills
(`trade_eq`), and a run of requests does the same in both (`processAll_reference`).
-/

namespace TradingSystem

open MEOrderBook (priceToIndex stops)
open Book (dropping requantifying)
open Reference (Order better satisfies best withdraw requantify trade priceTime)

def OrderInfo.toOrder (o : OrderInfo) : Order :=
  ⟨o.clientId, o.clientOrderId, o.marketOrderId, o.side, o.price, o.qty⟩

/-- The name a client gave to an order. -/
def Entry.name (e : Entry) : ClientId × OrderId := (e.info.clientId, e.info.clientOrderId)

/-- The orders of one price on a side of the book. -/
def Book.ordersAt (k : Book) (s : Side) (p : Price) : List Entry :=
  (levelOrders (k.side s)).filter fun e => e.info.price = p

/-- The book holds the orders of the reference book. -/
structure Sim (k : Book) (os : List Order) : Prop where
  legal : k.Legal
  perm : (k.entries.map fun e => e.info.toOrder).Perm os
  ordersAt : ∀ s, s = .buy ∨ s = .sell → ∀ p, (k.ordersAt s p).map (fun e => e.info.toOrder) =
    os.filter fun o => o.side = s ∧ o.price = p
  names : (k.entries.map Entry.name).Nodup
  table : ∀ e ∈ k.entries, k.cidOidToOrder e.info.clientId e.info.clientOrderId = some e.ptr

variable {k : Book} {os : List Order} {s : Side} {p : Price} {e e' : Entry} {l : Level}

namespace Sim

theorem eq_of_name (h : Sim k os) (he : e ∈ k.entries) (he' : e' ∈ k.entries)
    (hn : e.name = e'.name) : e = e' :=
  List.inj_on_of_nodup_map h.names he he' hn

/-- An order is found by its cell or by its name. -/
theorem ptr_eq_iff (h : Sim k os) (hk : k.Lists) (he : e ∈ k.entries) (he' : e' ∈ k.entries) :
    e'.ptr = e.ptr ↔ e'.info.toOrder.Named e.info.clientId e.info.clientOrderId := by
  constructor
  · intro hptr
    rw [hk.eq_of_ptr he' he hptr]
    exact ⟨rfl, rfl⟩
  · rintro ⟨hc, ho⟩
    rw [h.eq_of_name he' he (Prod.ext hc ho)]

theorem init (ticker : TickerId) : Sim (Book.init ticker) Reference.init.orders where
  legal := ⟨by simp [Book.init, Book.levels], by simp [Book.init]⟩
  perm := by simp [Book.init, Book.entries, Book.levels, Reference.init]
  ordersAt := by
    intro s hs p
    rcases hs with rfl | rfl <;> simp [Book.ordersAt, Book.side, Book.init, Reference.init]
  names := List.nodup_nil
  table := by simp [Book.init, Book.entries, Book.levels]

/-! ## Events -/

theorem mem_entries_of_mem_side (he : e ∈ levelOrders (k.side s)) : e ∈ k.entries := by
  obtain ⟨l, hl, hel⟩ := mem_levelOrders.mp he
  exact Book.mem_entries.mpr ⟨l, Book.mem_levels_of_mem_side hl, hel⟩

/-- Taking an order out, in the book by its cell and in the reference by its name. -/
theorem remove (h : Sim k os) (hk : k.Lists) (he : e ∈ k.entries) :
    Sim (k.remove e) (withdraw e.info.clientId e.info.clientOrderId os) := by
  have hfilter : ∀ es : List Entry, (∀ e' ∈ es, e' ∈ k.entries) →
      es.filterMap (dropping e.ptr) =
        es.filter fun e' => ¬ e'.info.toOrder.Named e.info.clientId e.info.clientOrderId := by
    intro es hes
    rw [← List.filterMap_eq_filter]
    refine List.filterMap_congr fun e' he' => ?_
    have hiff := h.ptr_eq_iff hk he (hes e' he')
    by_cases hp : e'.ptr = e.ptr <;> simp [dropping, Option.guard, hp, hiff.mp, ← hiff]
  have hentries : (k.remove e).entries =
      k.entries.filter fun e' => ¬ e'.info.toOrder.Named e.info.clientId e.info.clientOrderId := by
    rw [Book.remove, Book.setCidOid_entries, Book.filter_entries, hfilter _ fun _ h => h]
  refine ⟨(h.legal.filter (Book.keeps_dropping _)).setCidOid _ _ _, ?_, ?_, ?_, ?_⟩
  · rw [hentries]
    have hperm := h.perm.filter fun o => ¬ o.Named e.info.clientId e.info.clientOrderId
    rw [List.filter_map] at hperm
    exact hperm
  · intro s hs p
    rw [Book.ordersAt, Book.remove, Book.setCidOid_side, Book.filter_side,
      levelOrders_filterOrders, hfilter _ fun _ => mem_entries_of_mem_side,
      List.filter_comm (fun e : Entry => decide (e.info.price = p)), withdraw,
      List.filter_comm (fun o : Order => decide (o.side = s ∧ o.price = p)), ← h.ordersAt s hs p,
      List.filter_map]
    rfl
  · rw [hentries]
    exact h.names.sublist (List.Sublist.map _ List.filter_sublist)
  · intro e' he'
    obtain ⟨he', hne⟩ := (Book.mem_remove_entries hk he).mp he'
    rw [Book.remove, Book.setCidOid_cidOidToOrder, if_neg]
    · exact h.table e' he'
    · rintro ⟨hc, ho⟩
      exact hne (h.eq_of_name he' he (Prod.ext hc ho))

/-- Giving an order another quantity, in the book by its cell and in the reference by its name. -/
theorem setQty (h : Sim k os) (hk : k.Lists) (he : e ∈ k.entries) (q : Qty) :
    Sim (k.setQty e.ptr q) (requantify e.info.clientId e.info.clientOrderId q os) := by
  have hmap : ∀ es : List Entry, (∀ e' ∈ es, e' ∈ k.entries) →
      (es.filterMap (requantifying e.ptr q)).map (fun e => e.info.toOrder) =
        requantify e.info.clientId e.info.clientOrderId q (es.map fun e => e.info.toOrder) := by
    intro es hes
    induction es with
    | nil => rfl
    | cons e' es ih =>
      have hiff := h.ptr_eq_iff hk he (hes e' (by simp))
      have ih := ih fun e'' he'' => hes e'' (List.mem_cons_of_mem _ he'')
      by_cases hp : e'.ptr = e.ptr
      · have hn := hiff.mp hp
        simp only [requantify] at ih ⊢
        simp only [List.map_cons, List.filterMap_cons, requantifying, if_pos hp, if_pos hn, ih]
        rfl
      · have hn := fun hn => hp (hiff.mpr hn)
        simp only [requantify] at ih ⊢
        simp only [List.map_cons, List.filterMap_cons, requantifying, if_neg hp, if_neg hn, ih]
  have hnames : (k.setQty e.ptr q).entries.map Entry.name = k.entries.map Entry.name := by
    rw [Book.setQty, Book.filter_entries]
    induction k.entries with
    | nil => rfl
    | cons e' es ih =>
      by_cases hp : e'.ptr = e.ptr <;> simp [requantifying, hp, Entry.name] <;> exact ih
  refine ⟨h.legal.filter (Book.keeps_requantifying _ _), ?_, ?_, hnames ▸ h.names, ?_⟩
  · rw [Book.setQty, Book.filter_entries, hmap _ fun _ h => h]
    exact h.perm.map _
  · intro s hs p
    have hcomm : ((levelOrders (k.side s)).filterMap (requantifying e.ptr q)).filter
        (fun e => e.info.price = p) =
        ((levelOrders (k.side s)).filter fun e => e.info.price = p).filterMap
          (requantifying e.ptr q) := by
      rw [List.filter_filterMap, List.filterMap_filter]
      refine List.filterMap_congr fun e' _ => ?_
      by_cases hp : e'.ptr = e.ptr <;> by_cases hpr : e'.info.price = p <;>
        simp [requantifying, hp, hpr]
    rw [Book.ordersAt, Book.setQty, Book.filter_side, levelOrders_filterOrders, hcomm,
      hmap _ fun e' he' => mem_entries_of_mem_side (List.mem_filter.mp he').1]
    show requantify _ _ q ((k.ordersAt s p).map fun e => e.info.toOrder) = _
    rw [h.ordersAt s hs p, requantify, requantify, List.filter_map]
    congr 1
    refine List.filter_congr fun o _ => ?_
    simp only [Function.comp]
    split <;> rfl
  · intro e' he'
    obtain ⟨e₀, he₀, rfl⟩ := Book.mem_setQty_entries.mp he'
    have htable := h.table e₀ he₀
    split <;> exact htable

/-- A match, in the book and in the reference. -/
theorem fill (h : Sim k os) (hk : k.Lists) {f : Fill} (hp : f.passive ∈ k.entries) :
    Sim (k.fill f) (if f.passive.info.qty - f.exec = 0 then
      withdraw f.passive.info.clientId f.passive.info.clientOrderId os
      else requantify f.passive.info.clientId f.passive.info.clientOrderId
        (f.passive.info.qty - f.exec) os) := by
  unfold Book.fill
  split
  · exact h.remove hk hp
  · exact h.setQty hk hp _

/-- A list of levels without the slot of a price has no order of the price. -/
theorem filter_price_of_free {ls : List Level}
    (hown : ∀ l ∈ ls, ∀ e ∈ l.orders, e.info.price = l.price) {q : Price}
    (hfree : priceToIndex q ∉ ls.map Level.slot) :
    ((levelOrders ls).filter fun e => e.info.price = q) = [] := by
  rw [List.filter_eq_nil_iff]
  intro e he hq
  obtain ⟨l, hl, hel⟩ := mem_levelOrders.mp he
  refine hfree (List.mem_map.mpr ⟨l, hl, ?_⟩)
  rw [← of_decide_eq_true hq, hown l hl e hel]
  rfl

/-- The orders of a price after an order joined the level of its slot. -/
theorem filter_price_appendOrder {ls : List Level} (hnd : (ls.map Level.slot).Nodup)
    (hown : ∀ l ∈ ls, ∀ e ∈ l.orders, e.info.price = l.price) (e : Entry) (q : Price) :
    ((levelOrders (appendOrder e ls)).filter fun e => e.info.price = q) =
      ((levelOrders ls).filter fun e => e.info.price = q) ++
        if e.slot ∈ ls.map Level.slot ∧ e.info.price = q then [e] else [] := by
  induction ls with
  | nil => simp [appendOrder]
  | cons l ls ih =>
    rw [List.map_cons, List.nodup_cons] at hnd
    have hown' := fun l' hl' => hown l' (List.mem_cons_of_mem l hl')
    rw [Book.appendOrder_cons]
    by_cases hl : l.slot = e.slot
    · rw [if_pos hl, Book.appendOrder_eq_self (hl ▸ hnd.1)]
      simp only [levelOrders_cons, List.filter_append, List.map_cons, List.mem_cons, hl, true_or,
        true_and]
      by_cases hq : e.info.price = q
      · have hnone : ((levelOrders ls).filter fun e => e.info.price = q) = [] := by
          refine filter_price_of_free hown' ?_
          rw [← hq]
          show e.slot ∉ _
          rw [← hl]
          exact hnd.1
        simp [hq, hnone]
      · simp [hq]
    · rw [if_neg hl]
      simp only [levelOrders_cons, List.filter_append, ih hnd.2 hown', List.map_cons, List.mem_cons,
        Ne.symm hl, false_or, List.append_assoc]

/-- The orders of a price after an order made a level of its own. -/
theorem filter_price_insertLevel {ls : List Level}
    (hown : ∀ l ∈ ls, ∀ e ∈ l.orders, e.info.price = l.price) {e : Entry} {lp : LevelPtr}
    (hfree : e.slot ∉ ls.map Level.slot) (q : Price) :
    ((levelOrders (insertLevel (Book.newLevel e lp) ls)).filter fun e => e.info.price = q) =
      ((levelOrders ls).filter fun e => e.info.price = q) ++
        if e.info.price = q then [e] else [] := by
  obtain ⟨A, B, hls, hins⟩ : ∃ A B, ls = A ++ B ∧
      insertLevel (Book.newLevel e lp) ls = A ++ Book.newLevel e lp :: B :=
    ⟨_, _, List.takeWhile_append_dropWhile.symm, insertLevel_eq _ _⟩
  rw [hins, hls]
  simp only [levelOrders_append, levelOrders_cons, List.filter_append, Book.newLevel]
  by_cases hq : e.info.price = q
  · have hnone : ((levelOrders ls).filter fun e => e.info.price = q) = [] := by
      refine filter_price_of_free hown ?_
      rw [← hq]
      exact hfree
    rw [hls, levelOrders_append, List.filter_append, List.append_eq_nil_iff] at hnone
    simp [hq, hnone.1, hnone.2]
  · simp [hq]

/-- An order rests behind every order of its price and side, and elsewhere nothing changes. -/
theorem ordersAt_rest (h : k.Legal) (hk : k.Lists) {lp : LevelPtr}
    (hside : e.info.side = .buy ∨ e.info.side = .sell)
    (hslot : ∀ l ∈ k.levels, l.slot = e.slot → l.side = e.info.side ∧ l.price = e.info.price)
    (hs : s = .buy ∨ s = .sell) (p : Price) :
    (k.rest e lp).ordersAt s p =
      k.ordersAt s p ++ if e.info.side = s ∧ e.info.price = p then [e] else [] := by
  have hown : ∀ l ∈ k.side s, ∀ e ∈ l.orders, e.info.price = l.price := fun l hl e he =>
    (h.own l (Book.mem_levels_of_mem_side hl) e he).2
  have hnd : ((k.side s).map Level.slot).Nodup := by
    refine hk.slots.sublist (List.Sublist.map _ ?_)
    unfold Book.side Book.levels
    split <;> simp
  unfold Book.ordersAt
  rw [Book.rest_eq, Book.setCidOid_side]
  cases htaken : k.slotTaken e with
  | true =>
    rw [if_pos rfl, Book.join_side, filter_price_appendOrder hnd hown]
    -- the level in the slot is on the order's side
    have hiff : e.slot ∈ (k.side s).map Level.slot ↔ e.info.side = s := by
      constructor
      · intro hmem
        obtain ⟨l, hl, hls⟩ := List.mem_map.mp hmem
        exact (hslot l (Book.mem_levels_of_mem_side hl) hls).1.symm.trans (hk.side_of_mem hs hl)
      · rintro rfl
        obtain ⟨l, hl, hls⟩ := List.mem_map.mp (Book.slotTaken_iff.mp htaken)
        refine List.mem_map.mpr ⟨l, ?_, hls⟩
        rw [← (hslot l hl hls).1]
        exact hk.mem_side hl
    simp only [hiff]
  | false =>
    rw [if_neg (by simp), Book.addLevel_side]
    have hfree : e.slot ∉ k.levels.map Level.slot := fun hmem => by
      rw [Book.slotTaken_iff.mpr hmem] at htaken
      cases htaken
    have hfree' : e.slot ∉ (k.side s).map Level.slot := fun hmem => by
      obtain ⟨l, hl, hls⟩ := List.mem_map.mp hmem
      exact hfree (List.mem_map.mpr ⟨l, Book.mem_levels_of_mem_side hl, hls⟩)
    have hiff : (s = .buy ↔ (Book.newLevel e lp).side = .buy) ↔ e.info.side = s := by
      show (s = .buy ↔ e.info.side = .buy) ↔ _
      rcases hs with rfl | rfl <;> rcases hside with he | he <;> simp [he]
    by_cases hes : e.info.side = s
    · rw [if_pos (hiff.mpr hes), filter_price_insertLevel hown hfree']
      simp only [hes, true_and]
    · rw [if_neg (fun hc => hes (hiff.mp hc))]
      simp only [hes, false_and, if_false, List.append_nil]

/-- The rest of an order goes to the end of the list. -/
theorem rest (h : Sim k os) (hk : k.Lists) {lp : LevelPtr} {q : Qty}
    (hok : (Event.rest e lp q).Ok k) (hlaw : (Event.rest e lp q).Lawful k)
    (hname : e.name ∉ k.entries.map Entry.name) :
    Sim (k.rest e lp) (os ++ [e.info.toOrder]) := by
  have hperm := Book.rest_entries_perm hk e lp
  refine ⟨Book.apply_legal h.legal hok hlaw, ?_, ?_, ?_, ?_⟩
  · refine (hperm.map _).trans ?_
    rw [List.map_cons]
    exact (h.perm.cons _).trans (List.perm_append_singleton _ _).symm
  · intro s hs p
    rw [ordersAt_rest h.legal hk hok.1 hlaw.1 hs, List.map_append, h.ordersAt s hs,
      List.filter_append]
    congr 1
    by_cases hsp : e.info.side = s ∧ e.info.price = p
    · rw [if_pos hsp]
      simp [OrderInfo.toOrder, hsp.1, hsp.2]
    · rw [if_neg hsp, List.filter_cons_of_neg]
      · rfl
      · exact fun hc => hsp (of_decide_eq_true hc)
  · rw [(hperm.map _).nodup_iff, List.map_cons, List.nodup_cons]
    exact ⟨hname, h.names⟩
  · intro e' he'
    rw [Book.rest_cidOidToOrder]
    rcases (Book.mem_rest_entries hk).mp he' with rfl | he'
    · rw [if_pos ⟨rfl, rfl⟩]
    · rw [if_neg]
      · exact h.table e' he'
      · rintro ⟨hc, ho⟩
        exact hname (List.mem_map.mpr ⟨e', he', Prod.ext hc ho⟩)

/-! ## Matching -/

theorem mem_os (h : Sim k os) (he : e ∈ k.entries) : e.info.toOrder ∈ os :=
  h.perm.mem_iff.mp (List.mem_map_of_mem he)

theorem exists_entry (h : Sim k os) {o : Order} (ho : o ∈ os) :
    ∃ e ∈ k.entries, e.info.toOrder = o :=
  List.mem_map.mp (h.perm.mem_iff.mpr ho)

/-- An order of a side is in a level of that side with its own price. -/
theorem level_of_side (h : Sim k os) (hk : k.Lists) (he : e ∈ k.entries) :
    ∃ l ∈ k.side e.info.side, e ∈ l.orders ∧ l.price = e.info.price := by
  obtain ⟨l, hl, hel⟩ := Book.mem_entries.mp he
  have hown := h.legal.own l hl e hel
  have hside := hk.mem_side hl
  rw [← hown.1] at hside
  exact ⟨l, hside, hel, hown.2.symm⟩

/-- **The head of the queue is the best order.** -/
theorem best_eq_head (h : Sim k os) (hk : k.Lists) (hs : s = .buy ∨ s = .sell) :
    best s os = (k.queue s).head?.map fun e => e.info.toOrder := by
  have hopp : s.opposite = .buy ∨ s.opposite = .sell := by
    rcases hs with rfl | rfl <;> simp [Side.opposite]
  rw [Book.queue_eq hs]
  cases hlevels : k.side s.opposite with
  | nil =>
    rw [levelOrders_nil, List.head?_nil, Option.map_none, Reference.best_eq_none]
    intro o ho hside
    obtain ⟨e, he, rfl⟩ := h.exists_entry ho
    obtain ⟨l, hl, -⟩ := h.level_of_side hk he
    rw [show e.info.side = s.opposite from hside, hlevels] at hl
    cases hl
  | cons l ls =>
    have hl : l ∈ k.side s.opposite := by rw [hlevels]; simp
    have hlk := Book.mem_levels_of_mem_side hl
    obtain ⟨e, es, hes⟩ := List.exists_cons_of_ne_nil (hk.nonempty l hlk)
    have hprice : e.info.price = l.price := (h.legal.own l hlk e (by simp [hes])).2
    rw [levelOrders_cons, hes, List.cons_append, List.head?_cons, Option.map_some]
    -- the prices behind the first level are strictly worse
    have hbehind : ∀ o ∈ os, o.side = s.opposite →
        o.price = l.price ∨ behind s.opposite o.price l.price = true := by
      intro o ho hside
      obtain ⟨e', he', rfl⟩ := h.exists_entry ho
      obtain ⟨l', hl', -, hprice'⟩ := h.level_of_side hk he'
      rw [show e'.info.side = s.opposite from hside, hlevels] at hl'
      have hsorted := hk.sorted hopp
      rw [hlevels] at hsorted
      rcases List.mem_cons.mp hl' with rfl | hl'
      · exact Or.inl hprice'.symm
      · right
        have := (List.pairwise_cons.mp hsorted).1 l' hl'
        rwa [hprice'] at this
    obtain ⟨rest, hrest⟩ : ∃ rest, (os.filter fun o => o.side = s.opposite ∧ o.price = l.price) =
        e.info.toOrder :: rest := by
      refine ⟨((es ++ levelOrders ls).filter fun e => e.info.price = l.price).map
        fun e => e.info.toOrder, ?_⟩
      rw [← h.ordersAt s.opposite hopp l.price, Book.ordersAt, hlevels, levelOrders_cons, hes,
        List.cons_append, List.filter_cons_of_pos (by simp [hprice]), List.map_cons]
    refine Reference.best_eq_some (p := l.price) ?_ ?_ hrest
    · intro o ho hside hbetter
      rcases hbehind o ho hside with heq | hb
      · rw [heq] at hbetter
        unfold better at hbetter
        grind
      · rcases hs with rfl | rfl
        · simp only [Side.opposite, Book.behind_iff_sell] at hb
          simp only [better, true_and, reduceCtorEq, false_and, or_false] at hbetter
          grind
        · simp only [Side.opposite, Book.behind_iff_buy] at hb
          simp only [better, true_and, reduceCtorEq, false_and, false_or] at hbetter
          grind
    · intro o ho hside hne
      rcases hbehind o ho hside with heq | hb
      · exact absurd heq hne
      · rcases hs with rfl | rfl
        · exact Or.inl ⟨rfl, Book.behind_iff_sell.mp hb⟩
        · exact Or.inr ⟨rfl, Book.behind_iff_buy.mp hb⟩

theorem satisfies_iff (hs : s = .buy ∨ s = .sell) (limit p : Price) :
    satisfies s limit p ↔ stops s limit p = false := by
  rcases hs with rfl | rfl <;> simp [satisfies, stops]

/-- An order that is used up trades no more. -/
theorem trade_zero (ticker : TickerId) (n : Nat) {a : Order} (ha : a.qty = 0) :
    trade ticker n a os = ([], a, os) := by
  cases n with
  | zero => rfl
  | succ n =>
    rw [trade]
    cases best a.side os with
    | none => rfl
    | some o =>
      dsimp only
      rw [if_neg]
      rintro ⟨hpos, -⟩
      rw [ha] at hpos
      exact absurd hpos (by decide)

/-- **The trades of the reference are the fills.** By induction on the queue, whose head is the best
order. `i` is the incoming order as the exchange saw it, `a` what is left of it. -/
theorem trade_eq (h : Sim k os) (hk : k.Lists) (i : OrderInfo) {a : Order}
    (hs : a.side = .buy ∨ a.side = .sell) (hi : { i with qty := a.qty }.toOrder = a) {n : Nat}
    {es : List Entry} (hq : k.queue a.side = es) (hn : es.length < n) :
    ∃ os', trade k.ticker n a os =
        (((fills a.side a.price a.qty es).map (.fill i)).flatMap (Event.responses k.ticker),
          { a with qty := leftOver a.qty (fills a.side a.price a.qty es) }, os') ∧
      Sim (k.applyAll ((fills a.side a.price a.qty es).map (.fill i))) os' := by
  induction es generalizing k os a n with
  | nil =>
    obtain ⟨n, rfl⟩ := Nat.exists_eq_add_one_of_ne_zero (Nat.ne_of_gt hn)
    refine ⟨os, ?_, h⟩
    rw [trade, h.best_eq_head hk hs, hq]
    rfl
  | cons e es ih =>
    obtain ⟨n, rfl⟩ := Nat.exists_eq_add_one_of_ne_zero (Nat.ne_of_gt (Nat.zero_lt_of_lt hn))
    have hbest : best a.side os = some e.info.toOrder := by
      rw [h.best_eq_head hk hs, hq]
      rfl
    by_cases hzero : a.qty = 0
    · refine ⟨os, ?_, ?_⟩
      · rw [trade_zero _ _ hzero, hzero, fills_zero]
        show _ = ([], { a with qty := 0 }, os)
        rw [← hzero]
      · rw [hzero, fills_zero]
        exact h
    have hpos : 0 < a.qty := by grind
    cases hstop : stops a.side a.price e.info.price with
    | true =>
      refine ⟨os, ?_, ?_⟩
      · rw [trade, hbest, fills_stop hstop]
        dsimp only
        rw [if_neg]
        · rfl
        · rintro ⟨-, hsat⟩
          rw [satisfies_iff hs] at hsat
          exact absurd (hstop.symm.trans hsat) (by decide)
      · rw [fills_stop hstop]
        exact h
    | false =>
      have he : e ∈ k.entries := Book.mem_entries_of_mem_queue (s := a.side) (by rw [hq]; simp)
      obtain ⟨exec, hexec⟩ : ∃ x, x = if a.qty < e.info.qty then a.qty else e.info.qty := ⟨_, rfl⟩
      obtain ⟨f, hf⟩ : ∃ f : Fill, f = ⟨e, exec, a.qty - exec⟩ := ⟨_, rfl⟩
      have hfills : fills a.side a.price a.qty (e :: es) =
          f :: fills a.side a.price (a.qty - exec) es := by
        rw [fills_cons hzero hstop, ← hexec, hf]
      have hfp : f.passive = e := by rw [hf]
      obtain ⟨os₁, hos₁⟩ : ∃ x, x = if e.info.qty - exec = 0 then
          withdraw e.info.clientId e.info.clientOrderId os
        else requantify e.info.clientId e.info.clientOrderId (e.info.qty - exec) os := ⟨_, rfl⟩
      have hsim : Sim (k.fill f) os₁ := by
        rw [hf, hos₁]
        exact h.fill hk he
      have htrade : trade k.ticker (n + 1) a os =
          (Reference.filled k.ticker a e.info.toOrder exec ++
              (trade k.ticker n { a with qty := a.qty - exec } os₁).1,
            (trade k.ticker n { a with qty := a.qty - exec } os₁).2) := by
        have hiff : (e.info.qty - exec = 0) = (e.info.qty = exec) := propext sub_eq_zero
        rw [trade, hbest]
        dsimp only
        rw [if_pos ⟨hpos, (satisfies_iff hs _ _).mpr hstop⟩, hos₁]
        simp only [hiff]
        rw [hexec]
        rfl
      have hresponses : Event.responses k.ticker (.fill i f) =
          Reference.filled k.ticker a e.info.toOrder exec := by
        rw [← hi, hf]
        rfl
      rw [htrade, hfills]
      simp only [List.map_cons, List.flatMap_cons, Book.applyAll_cons, hresponses]
      have hleft : leftOver a.qty (f :: fills a.side a.price (a.qty - exec) es) =
          leftOver (a.qty - exec) (fills a.side a.price (a.qty - exec) es) := by
        rw [hf]
        rfl
      rw [hleft]
      by_cases hlt : a.qty < e.info.qty
      · -- the incoming order is used up
        have hexec' : exec = a.qty := by rw [hexec, if_pos hlt]
        have hnone : a.qty - exec = 0 := by rw [hexec']; exact sub_self _
        rw [hnone, fills_zero]
        rw [trade_zero _ _ rfl]
        exact ⟨_, by simp [leftOver], hsim⟩
      · -- the passive order is used up
        have hexec' : exec = e.info.qty := by rw [hexec, if_neg hlt]
        have hqueue : (k.fill f).queue a.side = es :=
          Book.fill_queue_of_full hk hq hfp (by rw [hf, hexec']; exact sub_self _)
        have hi' : { i with qty := a.qty - exec }.toOrder = { a with qty := a.qty - exec } := by
          rw [← hi]
          rfl
        obtain ⟨os', htrade', hsim'⟩ := ih (a := { a with qty := a.qty - exec }) hsim (hk.fill f) hs
          hi' hqueue (by simpa using hn)
        have hticker : (k.fill f).ticker = k.ticker := Book.apply_ticker (.fill i f)
        rw [hticker] at htrade'
        rw [htrade']
        exact ⟨os', rfl, hsim'⟩

end Sim

/-! ## The window of prices -/

/-- A price in the window of `ME_MAX_PRICE_LEVELS - 1` ticks from `lo`. -/
def Windowed (lo : Nat) (p : Price) : Prop :=
  lo ≤ p.toNat ∧ p.toNat < lo + (meMaxPriceLevels - 1)

instance (lo : Nat) (p : Price) : Decidable (Windowed lo p) := inferInstanceAs (Decidable (_ ∧ _))

/-- In the window distinct prices have distinct slots. -/
theorem Windowed.eq_of_index {lo : Nat} {p q : Price} (hp : Windowed lo p) (hq : Windowed lo q)
    (h : priceToIndex p = priceToIndex q) : p = q := by
  have hnat : p.toNat % 256 = q.toNat % 256 := congrArg UInt64.toNat h
  unfold Windowed meMaxPriceLevels at hp hq
  exact UInt64.toNat_inj.mp (by omega)

/-- The order's ids fit the id table and its price is in the window. -/
def Entry.Within (lo : Nat) (e : Entry) : Prop :=
  MEOrderBook.inTable e.info.clientId e.info.clientOrderId = true ∧ Windowed lo e.info.price

namespace Book

variable {lo : Nat} {cells : Cells} {r : MEClientRequest}

/-- Levels of distinct slots in the window, and room for one more: the table has a slot to spare. -/
theorem levels_length_lt (hk : k.Lists) (hlegal : k.Legal)
    (hin : ∀ e ∈ k.entries, e.Within lo) {p : Price} (hp : Windowed lo p)
    (hfree : priceToIndex p ∉ k.levels.map Level.slot) :
    k.levels.length + 1 < meMaxPriceLevels := by
  have hwin : ∀ l ∈ k.levels, Windowed lo l.price := by
    intro l hl
    obtain ⟨e, es, hes⟩ := List.exists_cons_of_ne_nil (hk.nonempty l hl)
    have he : e ∈ l.orders := by simp [hes]
    rw [← (hlegal.own l hl e he).2]
    exact (hin e (mem_entries.mpr ⟨l, hl, he⟩)).2
  -- the prices' places in the window, that of `p` included
  let place : Price → Nat := fun q => q.toNat - lo
  have hnd : (place p :: (k.levels.map fun l => place l.price)).Nodup := by
    refine List.nodup_cons.mpr ⟨?_, ?_⟩
    · intro hmem
      obtain ⟨l, hl, hplace⟩ := List.mem_map.mp hmem
      refine hfree (List.mem_map.mpr ⟨l, hl, congrArg priceToIndex ?_⟩)
      have hw := hwin l hl
      unfold Windowed at hw hp
      exact UInt64.toNat_inj.mp (by dsimp only [place] at hplace; omega)
    · refine (List.nodup_map_iff_inj_on (List.Nodup.of_map _ hk.slots)).mpr ?_
      intro l hl l' hl' hplace
      refine hk.level_eq_of_slot hl hl' (congrArg priceToIndex ?_)
      have hw := hwin l hl
      have hw' := hwin l' hl'
      unfold Windowed at hw hw'
      exact UInt64.toNat_inj.mp (by dsimp only [place] at hplace; omega)
  have hsub : (place p :: (k.levels.map fun l => place l.price)) ⊆
      List.range (meMaxPriceLevels - 1) := by
    intro n hn
    rw [List.mem_range]
    rcases List.mem_cons.mp hn with rfl | hn
    · have := hp
      unfold Windowed meMaxPriceLevels at this
      dsimp only [place, meMaxPriceLevels]
      omega
    · obtain ⟨l, hl, rfl⟩ := List.mem_map.mp hn
      have := hwin l hl
      unfold Windowed meMaxPriceLevels at this
      dsimp only [place, meMaxPriceLevels]
      omega
  have hle := hnd.length_le_of_subset hsub
  simp only [List.length_cons, List.length_map, List.length_range] at hle
  unfold meMaxPriceLevels at hle ⊢
  omega

/-- The orders after a request are the orders before it, their quantities apart, and its own. -/
theorem mem_events_entries (hk : k.WF) (hr : r.Valid) (hok : k.OkAll (k.events cells r))
    (he : e ∈ (k.applyAll (k.events cells r)).entries) :
    (∃ e₀ ∈ k.entries, ∃ q, e = { e₀ with info := { e₀.info with qty := q } }) ∨
      (r.type = .new ∧ e.info.clientId = r.clientId ∧ e.info.clientOrderId = r.orderId ∧
        e.info.price = r.price) := by
  rcases hr with ⟨hnew, -, -⟩ | hcancel
  · simp only [events, hnew] at he hok
    rw [applyAll_append] at he
    have hlists := (applyAll_wf hk (along_append.mp hok).1).toLists
    cases hrem : k.remainder cells r with
    | none =>
      rw [hrem] at he
      exact Or.inl (mem_matchEvents_entries he)
    | some e₁ =>
      rw [hrem] at he
      rcases (mem_rest_entries hlists).mp he with rfl | he
      · obtain ⟨-, -, hinfo⟩ := remainder_eq_some hrem
        right
        rw [hinfo]
        exact ⟨hnew, rfl, rfl, rfl⟩
      · exact Or.inl (mem_matchEvents_entries he)
  · have hself : ∀ e ∈ k.entries,
        ∃ e₀ ∈ k.entries, ∃ q, e = { e₀ with info := { e₀.info with qty := q } } :=
      fun e he => ⟨e, he, e.info.qty, rfl⟩
    simp only [events, hcancel] at he
    split at he
    · next e₁ hfind =>
      have hmem := (mem_remove_entries hk.toLists (List.mem_of_find?_eq_some hfind)).mp he
      exact Or.inl (hself e hmem.1)
    · exact Or.inl (hself e he)

theorem within_events (hk : k.WF) (hr : r.Valid) (hwin : r.type = .new → Windowed lo r.price)
    (hok : k.OkAll (k.events cells r)) (hin : ∀ e ∈ k.entries, e.Within lo) :
    ∀ e ∈ (k.applyAll (k.events cells r)).entries, e.Within lo := by
  intro e he
  rcases mem_events_entries hk hr hok he with ⟨e₀, he₀, q, rfl⟩ | ⟨hnew, hc, ho, hprice⟩
  · exact hin e₀ he₀
  · refine ⟨?_, hprice ▸ hwin hnew⟩
    rw [hc, ho]
    rcases hr with ⟨-, -, hin⟩ | hcancel
    · exact hin
    · rw [hnew] at hcancel
      cases hcancel

/-- In the window every request fits. -/
theorem fits_of_within {b : MEOrderBook} (h : Rep b k) (hk : k.WF)
    (hin : ∀ e ∈ k.entries, e.Within lo) (hr : r.Valid)
    (hwin : r.type = .new → Windowed lo r.price) : Fits b r := by
  intro hnew
  right
  intro o ho hindex
  rw [h.resting_eq hk.toLists] at ho
  obtain ⟨e, he, rfl⟩ := List.mem_map.mp ho
  have hprice : e.info.price = r.price := (hin e he).2.eq_of_index (hwin hnew) hindex
  by_cases hside : e.info.side = r.side
  · exact Or.inl ⟨hside, hprice⟩
  · refine Or.inr ⟨hside, ?_⟩
    rw [hprice]
    rcases hr with ⟨-, hs, -⟩ | hcancel
    · rcases hs with hs | hs <;> simp [stops, hs]
    · rw [hnew] at hcancel
      cases hcancel

end Book

/-! ## Requests -/

namespace Sim

open Reference (process State)

variable {st : State} {r : MEClientRequest} {cells : Book.Cells}

/-- Up to the last match the events of a `NEW` are those of the reference. -/
theorem process_new (h : Sim k st.orders) (hk : k.WF) (hid : k.nextOrderId = st.nextId)
    (hnew : r.type = .new) (hs : r.side = .buy ∨ r.side = .sell) :
    ∃ os, Sim (k.applyAll (k.matchEvents r)) os ∧ process k.ticker st r =
      (⟨if 0 < leftOver r.qty (fills r.side r.price r.qty (k.queue r.side)) then
          os ++ [{ (k.incoming r).toOrder with
            qty := leftOver r.qty (fills r.side r.price r.qty (k.queue r.side)) }]
        else os, st.nextId + 1⟩,
        (k.matchEvents r).flatMap (Event.responses k.ticker)) := by
  have hk₀ : (k.apply (.accepted (k.incoming r))).WF := Book.apply_wf hk trivial
  have h₀ : Sim (k.apply (.accepted (k.incoming r))) st.orders :=
    ⟨⟨h.legal.own, h.legal.uncrossed⟩, h.perm, h.ordersAt, h.names, h.table⟩
  have hlen : (k.queue r.side).length < st.orders.length + 1 := by
    have hperm := h.perm.length_eq
    rw [List.length_map, Book.entries, Book.levels, levelOrders_append,
      List.length_append] at hperm
    unfold Book.queue
    split
    · omega
    · omega
    · simp
  obtain ⟨os, htrade, hsim⟩ := h₀.trade_eq hk₀.toLists (k.incoming r) (a := (k.incoming r).toOrder)
    hs rfl rfl hlen
  refine ⟨os, hsim, ?_⟩
  unfold process
  rw [hnew]
  dsimp only
  rw [← hid]
  have htrade : trade k.ticker (st.orders.length + 1)
      ⟨r.clientId, r.orderId, k.nextOrderId, r.side, r.price, r.qty⟩ st.orders = _ := htrade
  rw [htrade]
  rfl

/-- **A `NEW` does in the book what it does in the reference**, if what is left of it can rest. -/
theorem new (h : Sim k st.orders) (hk : k.WF) (hid : k.nextOrderId = st.nextId)
    (hnew : r.type = .new) (hs : r.side = .buy ∨ r.side = .sell)
    (hok : k.OkAll (k.events cells r))
    (hlaw : k.Along (fun k ev => ev.Lawful k) (k.events cells r))
    (hname : ∀ o ∈ st.orders, ¬ o.Named r.clientId r.orderId) :
    Sim (k.applyAll (k.events cells r)) (process k.ticker st r).1.orders ∧
      (k.applyAll (k.events cells r)).nextOrderId = (process k.ticker st r).1.nextId ∧
      (k.events cells r).flatMap (Event.responses k.ticker) = (process k.ticker st r).2 := by
  obtain ⟨os, hsim, hprocess⟩ := h.process_new hk hid hnew hs
  rw [hprocess]
  have hnext : (k.applyAll (k.matchEvents r)).nextOrderId = st.nextId + 1 := by
    rw [← hid]
    exact Book.applyAll_fills_nextOrderId (k := k.apply (.accepted (k.incoming r))) _ _
  simp only [Book.events, hnew] at hok hlaw ⊢
  have hok := Book.along_append.mp hok
  have hlaw := Book.along_append.mp hlaw
  have hk₁ : (k.applyAll (k.matchEvents r)).WF := Book.applyAll_wf hk hok.1
  rw [Book.applyAll_append, List.flatMap_append]
  cases hrem : k.remainder cells r with
  | none =>
    have hzero : ¬ 0 < leftOver r.qty (fills r.side r.price r.qty (k.queue r.side)) := by
      rw [Book.remainder_eq_none hrem]
      decide
    dsimp only
    rw [if_neg hzero, List.flatMap_nil, List.append_nil, Book.applyAll_nil]
    exact ⟨hsim, hnext, rfl⟩
  | some e =>
    rw [hrem] at hok hlaw
    obtain ⟨hpos, -, hinfo⟩ := Book.remainder_eq_some hrem
    have hfresh : e.name ∉ (k.applyAll (k.matchEvents r)).entries.map Entry.name := by
      intro hmem
      obtain ⟨e', he', hname'⟩ := List.mem_map.mp hmem
      obtain ⟨e₀, he₀, q, rfl⟩ := Book.mem_matchEvents_entries he'
      unfold Entry.name at hname'
      rw [hinfo] at hname'
      exact hname _ (h.mem_os he₀) ⟨congrArg Prod.fst hname', congrArg Prod.snd hname'⟩
    have hrest := hsim.rest hk₁.toLists hok.2.1 hlaw.2.1 hfresh
    have horder : e.info.toOrder = { (k.incoming r).toOrder with
        qty := leftOver r.qty (fills r.side r.price r.qty (k.queue r.side)) } := by
      rw [hinfo]
      rfl
    dsimp only
    rw [if_pos hpos, ← horder]
    refine ⟨hrest, ?_, ?_⟩
    · rw [← hnext]
      exact Book.rest_nextOrderId _ _
    · simp [Event.responses]

/-- **A `CANCEL` does in the book what it does in the reference.** The id table names the order the
client means. -/
theorem cancel (h : Sim k st.orders) (hk : k.WF) (hid : k.nextOrderId = st.nextId)
    (hcancel : r.type = .cancel)
    (hin : ∀ e ∈ k.entries, MEOrderBook.inTable e.info.clientId e.info.clientOrderId = true) :
    Sim (k.applyAll (k.events cells r)) (process k.ticker st r).1.orders ∧
      (k.applyAll (k.events cells r)).nextOrderId = (process k.ticker st r).1.nextId ∧
      (k.events cells r).flatMap (Event.responses k.ticker) = (process k.ticker st r).2 := by
  unfold Book.events process
  rw [hcancel]
  dsimp only
  cases hfind : st.orders.find? fun o => o.Named r.clientId r.orderId with
  | none =>
    have hnone := List.find?_eq_none.mp hfind
    have hbook : (k.entries.find? fun e => some e.ptr =
        if MEOrderBook.inTable r.clientId r.orderId then
          k.cidOidToOrder r.clientId r.orderId else none) = none := by
      rw [List.find?_eq_none]
      intro e he hptr
      have hptr := of_decide_eq_true hptr
      split at hptr
      · obtain ⟨e', he', -, hc, ho⟩ := hk.table _ _ _ hptr.symm
        exact hnone _ (h.mem_os he') (decide_eq_true ⟨hc, ho⟩)
      · cases hptr
    rw [hbook]
    exact ⟨h, hid, rfl⟩
  | some o =>
    have hnamed : o.Named r.clientId r.orderId := by simpa using List.find?_some hfind
    obtain ⟨e, he, rfl⟩ := h.exists_entry (List.mem_of_find?_eq_some hfind)
    obtain ⟨hc, ho⟩ : e.info.clientId = r.clientId ∧ e.info.clientOrderId = r.orderId := hnamed
    have htable : (if MEOrderBook.inTable r.clientId r.orderId then
        k.cidOidToOrder r.clientId r.orderId else none) = some e.ptr := by
      rw [← hc, ← ho, if_pos (hin e he), h.table e he]
    rw [htable, hk.find_ptr he]
    dsimp only
    rw [← hc, ← ho]
    refine ⟨h.remove hk.toLists he, hid, ?_⟩
    simp [Event.responses, OrderInfo.toOrder]

end Sim

/-! ## Runs -/

open Reference (run process)

/-- What is asked of a request `r` that comes after the requests `pre`: it is valid, its price
is in the window, its name is not that of a resting order, and the order pool has a cell for what
rests afterwards. What rests is what rests in the reference book. -/
structure Admissible (ticker : TickerId) (lo : Nat) (pre : List MEClientRequest)
    (r : MEClientRequest) : Prop where
  valid : r.Valid
  window : r.type = .new → Windowed lo r.price
  notReused : r.type = .new → ∀ o ∈ (run ticker pre).1.orders, ¬ o.Named r.clientId r.orderId
  room : (run ticker (pre ++ [r])).1.orders.length < meMaxOrderIds

instance (ticker : TickerId) (lo : Nat) (pre : List MEClientRequest) (r : MEClientRequest) :
    Decidable (Admissible ticker lo pre r) :=
  decidable_of_iff (r.Valid ∧ (r.type = .new → Windowed lo r.price) ∧
    (r.type = .new → ∀ o ∈ (run ticker pre).1.orders, ¬ o.Named r.clientId r.orderId) ∧
    (run ticker (pre ++ [r])).1.orders.length < meMaxOrderIds)
    ⟨fun ⟨h₁, h₂, h₃, h₄⟩ => ⟨h₁, h₂, h₃, h₄⟩, fun ⟨h₁, h₂, h₃, h₄⟩ => ⟨h₁, h₂, h₃, h₄⟩⟩

/-- The book a run reaches is the reference book, all its orders in the window. -/
structure Agrees (ticker : TickerId) (lo : Nat) (rs : List MEClientRequest) (k : Book)
    (evs : List Event) : Prop where
  sim : Sim k (run ticker rs).1.orders
  nextId : k.nextOrderId = (run ticker rs).1.nextId
  responses : evs.flatMap (Event.responses ticker) = (run ticker rs).2
  within : ∀ e ∈ k.entries, e.Within lo

variable {ticker : TickerId} {lo : Nat} {rs : List MEClientRequest} {b : MEOrderBook}
  {evs : List Event} {r : MEClientRequest}

/-- No request of the run exhausts a pool. -/
theorem Agrees.not_exhausts (h : Agrees ticker lo rs k evs)
    (hr : MEOrderBook.Reached ticker b k evs) (hadm : Admissible ticker lo rs r) :
    ¬ k.Exhausts r := by
  rintro ⟨hnew, hpos, hfull⟩
  have hs : r.side = .buy ∨ r.side = .sell := by
    rcases hadm.valid with ⟨-, hs, -⟩ | hcancel
    · exact hs
    · rw [hnew] at hcancel
      cases hcancel
  obtain ⟨os, hsim, hprocess⟩ := h.sim.process_new hr.wf h.nextId hnew hs
  have hroom := hadm.room
  rw [hr.ticker_eq] at hprocess
  rw [Reference.run_concat, hprocess, if_pos hpos, List.length_append] at hroom
  rcases hfull with hfull | ⟨hfull, hfree⟩
  · -- the order that rests is one of those counted
    have hperm := hsim.perm.length_eq
    rw [List.length_map] at hperm
    simp only [List.length_singleton] at hroom
    omega
  · have hk₁ : (k.applyAll (k.matchEvents r)).WF :=
      Book.applyAll_wf hr.wf (Book.matchEvents_ok hr.wf hr.positive r)
    have hin : ∀ e ∈ (k.applyAll (k.matchEvents r)).entries, e.Within lo := by
      intro e he
      obtain ⟨e₀, he₀, q, rfl⟩ := Book.mem_matchEvents_entries he
      exact h.within e₀ he₀
    have := Book.levels_length_lt hk₁.toLists hsim.legal hin (hadm.window hnew) hfree
    omega

/-- **Step lemma.** A request does the same in the order book and in the reference book. -/
theorem Agrees.step {cells : Book.Cells} (h : Agrees ticker lo rs k evs)
    (hr : MEOrderBook.Reached ticker b k evs) (hadm : Admissible ticker lo rs r)
    (hok : k.OkAll (k.events cells r)) :
    Agrees ticker lo (rs ++ [r]) (k.applyAll (k.events cells r)) (evs ++ k.events cells r) := by
  have hsame : Sim (k.applyAll (k.events cells r)) (process k.ticker (run ticker rs).1 r).1.orders ∧
      (k.applyAll (k.events cells r)).nextOrderId =
        (process k.ticker (run ticker rs).1 r).1.nextId ∧
      (k.events cells r).flatMap (Event.responses k.ticker) =
        (process k.ticker (run ticker rs).1 r).2 := by
    rcases hadm.valid with ⟨hnew, hs, -⟩ | hcancel
    · have hfits := Book.fits_of_within hr.rep hr.wf h.within hadm.valid hadm.window
      exact h.sim.new hr.wf h.nextId hnew hs hok
        (Book.events_lawful hr.rep hr.wf h.sim.legal hadm.valid hfits cells) (hadm.notReused hnew)
    · exact h.sim.cancel hr.wf h.nextId hcancel fun e he => (h.within e he).1
  rw [hr.ticker_eq] at hsame
  obtain ⟨hsim, hnext, hresponses⟩ := hsame
  refine ⟨?_, ?_, ?_, Book.within_events hr.wf hadm.valid hadm.window hok h.within⟩
  · rw [Reference.run_concat]
    exact hsim
  · rw [Reference.run_concat]
    exact hnext
  · rw [Reference.run_concat, List.flatMap_append, h.responses, hresponses]

theorem agrees_init (ticker : TickerId) (lo : Nat) :
    Agrees ticker lo [] (Book.init ticker) [] := by
  refine ⟨Sim.init ticker, rfl, rfl, ?_⟩
  simp [Book.init, Book.entries, Book.levels]

/-- An admissible request goes through. -/
theorem Agrees.next (h : Agrees ticker lo rs k evs) (hr : MEOrderBook.Reached ticker b k evs)
    (hadm : Admissible ticker lo rs r) :
    ∃ cells b', b.processClientRequest r = .ok b' ∧ k.OkAll (k.events cells r) ∧
      MEOrderBook.Reached ticker b' (k.applyAll (k.events cells r)) (evs ++ k.events cells r) ∧
      Agrees ticker lo (rs ++ [r]) (k.applyAll (k.events cells r)) (evs ++ k.events cells r) := by
  rcases hr.step hadm.valid with ⟨-, hex⟩ | ⟨cells, b', hok, hevs, hreached⟩
  · exact absurd hex (h.not_exhausts hr hadm)
  · exact ⟨cells, b', hok, hevs, hreached, h.step hr hadm hevs⟩

/-- **Run lemma.** The run goes through, and agrees with the reference. -/
theorem exists_agrees (h : ∀ pre r post, rs = pre ++ r :: post → Admissible ticker lo pre r) :
    ∃ b k evs, (MEOrderBook.init ticker).processAll rs = .ok b ∧
      MEOrderBook.Reached ticker b k evs ∧ Agrees ticker lo rs k evs := by
  induction rs using List.reverseRecOn with
  | nil => exact ⟨_, _, _, rfl, MEOrderBook.reached_init ticker, agrees_init ticker lo⟩
  | append_singleton rs r ih =>
    have hpre : ∀ pre r' post, rs = pre ++ r' :: post → Admissible ticker lo pre r' := by
      intro pre r' post hrs
      refine h pre r' (post ++ [r]) ?_
      rw [hrs]
      simp
    obtain ⟨b, k, evs, hrun, hreached, hagrees⟩ := ih hpre
    obtain ⟨cells, b', hok, -, hreached', hagrees'⟩ := hagrees.next hreached (h rs r [] rfl)
    exact ⟨b', _, _, foldlM_concat_eq_ok.mpr ⟨b, hrun, hok⟩, hreached', hagrees'⟩

/-! ## Reading the sides off -/

/-- A side of the book is the orders of the reference in price-time priority. -/
theorem Sim.side_eq (h : Sim k os) (hk : k.Lists) (hs : s = .buy ∨ s = .sell) :
    (levelOrders (k.side s)).map (fun e => e.info.toOrder) = priceTime s os := by
  let le : Price → Price → Bool := fun p q => decide (¬ better s.opposite q p)
  have htrans : ∀ p q r, le p q → le q r → le p r := by
    intro p q r hpq hqr
    rcases hs with rfl | rfl <;> simp [le, better, Side.opposite] at * <;> grind
  have htotal : ∀ p q, le p q || le q p := by
    intro p q
    rcases hs with rfl | rfl <;> simp [le, better, Side.opposite] <;> grind
  have hanti : ∀ p q, le p q → le q p → p = q := by
    intro p q hpq hqp
    rcases hs with rfl | rfl <;> simp [le, better, Side.opposite] at * <;> grind
  refine @eq_of_sorted_of_filter_eq _ _ _ (fun p q => le p q) hanti Order.price _ _ ?_ ?_ ?_
  · rw [List.pairwise_map, levelOrders, List.pairwise_flatMap]
    have hprice : ∀ l ∈ k.side s, ∀ e ∈ l.orders, e.info.price = l.price := fun l hl e he =>
      (h.legal.own l (Book.mem_levels_of_mem_side hl) e he).2
    refine ⟨?_, ?_⟩
    · intro l hl
      refine List.pairwise_of_forall_mem_list ?_
      intro e he e' he'
      have heq : e.info.price = e'.info.price := (hprice l hl e he).trans (hprice l hl e' he').symm
      show le e.info.price e'.info.price
      rw [heq]
      simpa using htotal e'.info.price e'.info.price
    · refine (List.Pairwise.imp_of_mem ?_ (hk.sorted hs))
      intro l l' hl hl' hb e he e' he'
      show le e.info.price e'.info.price
      rw [hprice l hl e he, hprice l' hl' e' he']
      rcases hs with rfl | rfl <;> simp [le, better, Side.opposite, behind] at * <;> grind
  · exact List.pairwise_mergeSort (fun a b c => htrans a.price b.price c.price)
      (fun a b => htotal a.price b.price) _
  · intro p
    have hsort := @filter_mergeSort _ _ _ le Order.price htrans htotal
      (os.filter fun o => o.side = s) p
    unfold priceTime
    rw [hsort, List.filter_filter, List.filter_map]
    have hside := h.ordersAt s hs p
    rw [Book.ordersAt] at hside
    simp only [Function.comp_def]
    show ((levelOrders (k.side s)).filter fun e => e.info.price = p).map _ = _
    rw [hside]
    refine List.filter_congr fun o _ => ?_
    simp [and_comm]

/-- **The order book is a price-time priority book.** In every run of admissible requests it sends
the responses of the reference book, and after each request holds its orders, each side in
price-time priority. -/
theorem processAll_reference
    (h : ∀ pre r post, rs = pre ++ r :: post → Admissible ticker lo pre r) {pre : List MEClientRequest}
    (hpre : pre <+: rs) :
    ∃ b, (MEOrderBook.init ticker).processAll pre = .ok b ∧
      b.responses = (run ticker pre).2 ∧
      b.restingBids.map OrderInfo.toOrder = priceTime .buy (run ticker pre).1.orders ∧
      b.restingAsks.map OrderInfo.toOrder = priceTime .sell (run ticker pre).1.orders := by
  obtain ⟨post, rfl⟩ := hpre
  have h' : ∀ pre' r post', pre = pre' ++ r :: post' → Admissible ticker lo pre' r := by
    rintro pre' r post' rfl
    exact h pre' r (post' ++ post) (by simp)
  obtain ⟨b, k, evs, hrun, hreached, hagrees⟩ := exists_agrees h'
  have hlists := hreached.wf.toLists
  refine ⟨b, hrun, ?_, ?_, ?_⟩
  · rw [← hagrees.responses]
    exact hreached.sent.responses
  · rw [hreached.rep.restingBids_eq hlists, List.map_map]
    exact hagrees.sim.side_eq hlists (Or.inl rfl)
  · rw [hreached.rep.restingAsks_eq hlists, List.map_map]
    exact hagrees.sim.side_eq hlists (Or.inr rfl)

/-- Three sell orders, a buy order that takes the best one and a part of the older of the other two,
and the same cancel twice. -/
theorem processAll_reference_three_sells :
    ∃ b, (MEOrderBook.init 0).processAll [
        { type := .new, clientId := 1, tickerId := 0, orderId := 1, side := .sell, price := 101,
          qty := 5 },
        { type := .new, clientId := 1, tickerId := 0, orderId := 2, side := .sell, price := 100,
          qty := 5 },
        { type := .new, clientId := 2, tickerId := 0, orderId := 1, side := .sell, price := 101,
          qty := 5 },
        { type := .new, clientId := 3, tickerId := 0, orderId := 1, side := .buy, price := 101,
          qty := 8 },
        { type := .cancel, clientId := 2, tickerId := 0, orderId := 1, side := .invalid, price := 0,
          qty := 0 },
        { type := .cancel, clientId := 2, tickerId := 0, orderId := 1, side := .invalid, price := 0,
          qty := 0 }] = .ok b ∧
      b.restingAsks.map OrderInfo.toOrder = [⟨1, 1, 1, .sell, 101, 2⟩] := by
  let rs : List MEClientRequest := [
    { type := .new, clientId := 1, tickerId := 0, orderId := 1, side := .sell, price := 101,
      qty := 5 },
    { type := .new, clientId := 1, tickerId := 0, orderId := 2, side := .sell, price := 100,
      qty := 5 },
    { type := .new, clientId := 2, tickerId := 0, orderId := 1, side := .sell, price := 101,
      qty := 5 },
    { type := .new, clientId := 3, tickerId := 0, orderId := 1, side := .buy, price := 101,
      qty := 8 },
    { type := .cancel, clientId := 2, tickerId := 0, orderId := 1, side := .invalid, price := 0,
      qty := 0 },
    { type := .cancel, clientId := 2, tickerId := 0, orderId := 1, side := .invalid, price := 0,
      qty := 0 }]
  have hadm : ∀ i (hi : i < rs.length), Admissible 0 100 (rs.take i) rs[i] := by decide +kernel
  have hsplit : ∀ pre r post, rs = pre ++ r :: post → Admissible 0 100 pre r := by
    intro pre r post hrs
    have hi : pre.length < rs.length := by simp [hrs]
    have := hadm pre.length hi
    simpa [hrs] using this
  obtain ⟨b, hb, -, -, hasks⟩ := processAll_reference hsplit (List.prefix_refl rs)
  refine ⟨b, hb, ?_⟩
  rw [hasks]
  decide +kernel

end TradingSystem
