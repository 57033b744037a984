import TradingSystem.Client.LiveOrders

/-!
# When the best bid and offer are right

`onMarketUpdate` reads a side's best level again only if the side had a level before the update and the
update is of the side, at a price no worse than the best. The order that starts an empty side is
therefore not read: until an update at the best price or a better one comes, the quote says that the
side is empty. `Quoted` follows the updates that are read, and `bbo_exact_iff` says when the quote is
right.
-/

namespace TradingSystem.Client

/-! ## What a quote should say -/

/-- The best price of the live orders of a side and the quantity at it, or nothing if there are none. -/
def Exact (live : List LiveOrder) (s : Side) (q : Price × Qty) : Prop :=
  if ∃ o ∈ live, o.side = s then
    (∃ o ∈ live, o.side = s ∧ o.price = q.1) ∧
      (∀ o ∈ live, o.side = s → behind s q.1 o.price = false) ∧
      q.2 = ((live.filter fun o => o.side = s ∧ o.price = q.1).map LiveOrder.qty).sum
  else q = (priceInvalid, qtyInvalid)

instance decidableExact (live : List LiveOrder) (s : Side) (q : Price × Qty) :
    Decidable (Exact live s q) :=
  inferInstanceAs (Decidable (if ∃ o ∈ live, o.side = s then _ else _))

/-- The best level of the side has the price and the quantity that stand for a side without orders. -/
def LooksEmpty (live : List LiveOrder) (s : Side) : Prop :=
  (∃ o ∈ live, o.side = s ∧ o.price = priceInvalid) ∧
    (∀ o ∈ live, o.side = s → behind s priceInvalid o.price = false) ∧
    qtyInvalid = ((live.filter fun o => o.side = s ∧ o.price = priceInvalid).map LiveOrder.qty).sum

instance decidableLooksEmpty (live : List LiveOrder) (s : Side) : Decidable (LooksEmpty live s) :=
  inferInstanceAs (Decidable (_ ∧ _))

/-- To say that a side has no orders is right if it has none, or seems to have none. -/
theorem exact_invalid_iff {live : List LiveOrder} {s : Side} :
    Exact live s (priceInvalid, qtyInvalid) ↔ (∀ o ∈ live, o.side ≠ s) ∨ LooksEmpty live s := by
  unfold Exact LooksEmpty
  by_cases hsome : ∃ o ∈ live, o.side = s
  · rw [if_pos hsome]
    obtain ⟨o, ho, hside⟩ := hsome
    constructor
    · exact Or.inr
    · rintro (hnone | hlooks)
      · exact absurd hside (hnone o ho)
      · exact hlooks
  · rw [if_neg hsome]
    refine ⟨fun _ => Or.inl fun o ho hside => hsome ⟨o, ho, hside⟩, fun _ => rfl⟩

/-- The update is one of the side, which has an order, and no order of the side is better. -/
def Touches (live : List LiveOrder) (u : MEMarketUpdate) (s : Side) : Prop :=
  u.type ≠ .trade ∧ u.side = s ∧ (∃ o ∈ live, o.side = s) ∧
    ∀ o ∈ live, o.side = s → behind s u.price o.price = false

instance decidableTouches (live : List LiveOrder) (u : MEMarketUpdate) (s : Side) :
    Decidable (Touches live u s) :=
  inferInstanceAs (Decidable (_ ∧ _))

/-- One update more: the live orders, and whether the side has been read since it last had none. -/
def quotedStep (s : Side) (st : List LiveOrder × Bool) (u : MEMarketUpdate) : List LiveOrder × Bool :=
  (liveStep st.1 u, decide (Touches st.1 u s) || (st.2 && decide (∃ o ∈ st.1, o.side = s)))

/-- Since the side last had no order, an update of it has come at a price no worse than its best. -/
def Quoted (s : Side) (us : List MEMarketUpdate) : Prop := (us.foldl (quotedStep s) ([], false)).2 = true

instance decidableQuoted (s : Side) (us : List MEMarketUpdate) : Decidable (Quoted s us) :=
  inferInstanceAs (Decidable (_ = _))

/-- An update of an order book: an `ADD` of a new order, or a `MODIFY` or `CANCEL` that names a live order
with its side and price. -/
def Orderly (lo : Price) (live : List LiveOrder) (u : MEMarketUpdate) : Prop :=
  match u.type with
  | .add => AddOk lo live u
  | .modify => ∃ o ∈ live, o.orderId = u.orderId ∧ o.side = u.side ∧ o.price = u.price
  | .cancel => ∃ o ∈ live, o.orderId = u.orderId ∧ o.side = u.side ∧ o.price = u.price
  | .trade => True
  | _ => False

instance decidableOrderly (lo : Price) (live : List LiveOrder) (u : MEMarketUpdate) :
    Decidable (Orderly lo live u) :=
  match h : u.type with
  | .add => decidable_of_iff (AddOk lo live u) (by simp [Orderly, h])
  | .modify => decidable_of_iff
      (∃ o ∈ live, o.orderId = u.orderId ∧ o.side = u.side ∧ o.price = u.price) (by simp [Orderly, h])
  | .cancel => decidable_of_iff
      (∃ o ∈ live, o.orderId = u.orderId ∧ o.side = u.side ∧ o.price = u.price) (by simp [Orderly, h])
  | .trade => isTrue (by simp [Orderly, h])
  | .invalid => isFalse (by simp [Orderly, h])
  | .clear => isFalse (by simp [Orderly, h])
  | .snapshotStart => isFalse (by simp [Orderly, h])
  | .snapshotEnd => isFalse (by simp [Orderly, h])
  | .unnamed _ => isFalse (by simp [Orderly, h])

/-! ## The first level is the best one -/

namespace Mirrors

variable {lo : Price} {k : Book} {live : List LiveOrder} {l : Level} {ls : List Level} {s : Side}
  {u : MEMarketUpdate} {q : Price × Qty}

/-- A side without levels is one without live orders. -/
theorem side_nil_iff (h : Mirrors lo k live) (hk : k.Lists) (hs : s = .buy ∨ s = .sell) :
    k.side s = [] ↔ ¬ ∃ o ∈ live, o.side = s := by
  constructor
  · rintro hnil ⟨o, ho, rfl⟩
    obtain ⟨l, hl, hside, -⟩ := h.level o ho
    have hmem := hk.mem_side hl
    rw [hside, hnil] at hmem
    cases hmem
  · intro hnone
    apply List.eq_nil_iff_forall_not_mem.mpr
    intro l hl
    have hlk := Book.mem_levels_of_mem_side hl
    obtain ⟨e, es, hes⟩ := List.exists_cons_of_ne_nil (hk.nonempty l hlk)
    have he : e ∈ l.orders := by rw [hes]; exact List.mem_cons_self
    refine hnone ⟨shown e, h.shown_mem (Book.mem_entries.mpr ⟨l, hlk, he⟩), ?_⟩
    exact (h.own hlk he).1.trans (hk.side_eq hl hs)

/-- No order of a side is better than its first level, and the first level has one. -/
theorem head_best (h : Mirrors lo k live) (hk : k.Lists) (hs : s = .buy ∨ s = .sell)
    (hside : k.side s = l :: ls) :
    (∃ o ∈ live, o.side = s ∧ o.price = l.price) ∧
      ∀ o ∈ live, o.side = s → o.price = l.price ∨ behind s o.price l.price = true := by
  have hl : l ∈ k.side s := by rw [hside]; exact List.mem_cons_self
  have hlk := Book.mem_levels_of_mem_side hl
  constructor
  · obtain ⟨e, es, hes⟩ := List.exists_cons_of_ne_nil (hk.nonempty l hlk)
    have he : e ∈ l.orders := by rw [hes]; exact List.mem_cons_self
    obtain ⟨heside, hprice⟩ := h.own hlk he
    exact ⟨shown e, h.shown_mem (Book.mem_entries.mpr ⟨l, hlk, he⟩),
      heside.trans (hk.side_eq hl hs), hprice⟩
  · rintro o ho rfl
    obtain ⟨l', hl', hoside, hprice⟩ := h.level o ho
    have hmem := hk.mem_side hl'
    rw [hoside, hside] at hmem
    have hsorted := hk.sorted hs
    rw [hside, List.pairwise_cons] at hsorted
    rcases List.mem_cons.mp hmem with rfl | hmem
    · exact Or.inl hprice.symm
    · rw [← hprice]
      exact Or.inr (hsorted.1 l' hmem)

/-- **What the first level says is exact**, and nothing else is. -/
theorem exact_iff (h : Mirrors lo k live) (hk : k.Lists) (hs : s = .buy ∨ s = .sell) :
    Exact live s q ↔ q = best (k.side s) := by
  unfold Exact
  cases hside : k.side s with
  | nil =>
    rw [if_neg ((h.side_nil_iff hk hs).mp hside)]
    rfl
  | cons l ls =>
    have hl : l ∈ k.side s := by rw [hside]; exact List.mem_cons_self
    have hlk := Book.mem_levels_of_mem_side hl
    obtain ⟨⟨o, ho, hoside, hoprice⟩, hbest⟩ := h.head_best hk hs hside
    have hsum : (l.orders.map fun e => e.info.qty).sum =
        ((live.filter fun o => o.side = s ∧ o.price = l.price).map LiveOrder.qty).sum := by
      have horders := h.orders l hlk
      rw [hk.side_eq hl hs] at horders
      rw [← horders, List.map_map]
      rfl
    rw [if_pos ⟨o, ho, hoside⟩]
    constructor
    · rintro ⟨⟨o', ho', hoside', hoprice'⟩, hnone, hqty⟩
      have hprice : q.1 = l.price := by
        rcases hbest o' ho' hoside' with heq | hbehind
        · exact hoprice'.symm.trans heq
        · have hfalse := hnone o ho hoside
          rw [hoprice, ← hoprice', hbehind] at hfalse
          cases hfalse
      apply Prod.ext hprice
      rw [hqty, hprice]
      exact hsum.symm
    · rintro rfl
      refine ⟨⟨o, ho, hoside, hoprice⟩, ?_, hsum⟩
      intro o' ho' hoside'
      show behind s l.price o'.price = false
      rcases hbest o' ho' hoside' with heq | hbehind
      · rw [heq]
        cases hirr : behind s l.price l.price with
        | false => rfl
        | true => exact absurd (hirr.symm.trans (Book.behind_asymm hirr)) (by decide)
      · exact Book.behind_asymm hbehind

/-- The code's test is right where there is something to test. -/
theorem touches_iff (h : Mirrors lo k live) (hk : k.Lists) (hs : s = .buy ∨ s = .sell) :
    (u.type ≠ .trade ∧ touches k u s = true) ↔ Touches live u s := by
  unfold Touches
  apply and_congr_right
  intro _
  unfold touches
  cases hside : k.side s with
  | nil =>
    have hnone := (h.side_nil_iff hk hs).mp hside
    constructor
    · intro hfalse
      cases hfalse
    · intro htouch
      exact absurd htouch.2.1 hnone
  | cons l ls =>
    obtain ⟨⟨o, ho, hoside, hoprice⟩, hbest⟩ := h.head_best hk hs hside
    simp only [Bool.and_eq_true, decide_eq_true_eq, Bool.not_eq_true']
    apply and_congr_right
    intro _
    constructor
    · intro hnot
      refine ⟨⟨o, ho, hoside⟩, ?_⟩
      intro o' ho' hoside'
      rcases hbest o' ho' hoside' with heq | hbehind
      · rw [heq]
        exact hnot
      · rw [Bool.eq_false_iff]
        intro htrue
        rw [Book.behind_trans htrue hbehind] at hnot
        cases hnot
    · rintro ⟨-, hall⟩
      rw [← hoprice]
      exact hall o ho hoside

end Mirrors

/-! ## An update that does not touch a side -/

section Untouched

variable {lo : Price} {live : List LiveOrder} {s : Side} {u : MEMarketUpdate} {q : Price × Qty}

/-- An update of a side that is not read comes at a price behind the side's best. -/
theorem behind_of_untouched (hs : s = .buy ∨ s = .sell) (hq : Exact live s q)
    (hsome : ∃ o ∈ live, o.side = s) (hnot : ¬ Touches live u s) (htype : u.type ≠ .trade)
    (hside : u.side = s) : behind s u.price q.1 = true := by
  unfold Exact at hq
  rw [if_pos hsome] at hq
  obtain ⟨o, ho, hoside, hbehind⟩ : ∃ o ∈ live, o.side = s ∧ behind s u.price o.price = true := by
    by_contra hnone
    refine hnot ⟨htype, hside, hsome, ?_⟩
    intro o ho hoside
    rw [Bool.eq_false_iff]
    exact fun htrue => hnone ⟨o, ho, hoside, htrue⟩
  by_cases hprice : q.1 = o.price
  · rw [hprice]
    exact hbehind
  · exact Book.behind_trans hbehind (Book.behind_total hs hprice (hq.2.1 o ho hoside))

/-- **What a side's quote should say is not changed** by an update that does not touch the side. -/
theorem exact_of_untouched (hs : s = .buy ∨ s = .sell) (hids : (live.map LiveOrder.orderId).Nodup)
    (hu : Orderly lo live u) (hq : Exact live s q) (hsome : ∃ o ∈ live, o.side = s)
    (hnot : ¬ Touches live u s) : Exact (liveStep live u) s q := by
  by_cases htrade : u.type = .trade
  · rw [liveStep_trade htrade]
    exact hq
  have hbehind := behind_of_untouched hs hq hsome hnot htrade
  have happart : ¬ (u.side = s ∧ u.price = q.1) := by
    rintro ⟨hside, hprice⟩
    have htrue := hbehind hside
    rw [hprice] at htrue
    exact absurd (htrue.symm.trans (Book.behind_asymm htrue)) (by decide)
  unfold Exact at hq
  rw [if_pos hsome] at hq
  obtain ⟨⟨o₁, ho₁, hside₁, hprice₁⟩, hbest, hqty⟩ := hq
  -- the order that is changed or goes out is not one at the best price
  have hnamed : (∃ o ∈ live, o.orderId = u.orderId ∧ o.side = u.side ∧ o.price = u.price) →
      ∀ o ∈ live, o.side = s ∧ o.price = q.1 → o.orderId ≠ u.orderId := by
    rintro ⟨o₀, ho₀, hid₀, hside₀, hprice₀⟩ o ho ⟨hside, hprice⟩ hid
    obtain rfl := List.inj_on_of_nodup_map hids ho ho₀ (hid.trans hid₀.symm)
    exact happart ⟨hside₀.symm.trans hside, hprice₀.symm.trans hprice⟩
  unfold Orderly at hu
  unfold Exact liveStep
  cases ht : u.type with
  | add =>
    rw [if_pos ⟨o₁, List.mem_append_left _ ho₁, hside₁⟩]
    refine ⟨⟨o₁, List.mem_append_left _ ho₁, hside₁, hprice₁⟩, ?_, ?_⟩
    · intro o ho hside
      rcases List.mem_append.mp ho with ho | ho
      · exact hbest o ho hside
      · obtain rfl := List.mem_singleton.mp ho
        exact Book.behind_asymm (hbehind hside)
    · rw [List.filter_append, hqty]
      simp [happart]
  | modify =>
    rw [ht] at hu
    have hkeep : (fun o : LiveOrder => decide (o.side = s ∧ o.price = q.1)) ∘
        (fun o => if o.orderId = u.orderId then { o with qty := u.qty } else o) =
        fun o => decide (o.side = s ∧ o.price = q.1) := by
      funext o
      simp only [Function.comp]
      split <;> rfl
    have hmem₁ : o₁ ∈ live.map fun o =>
        if o.orderId = u.orderId then { o with qty := u.qty } else o :=
      List.mem_map.mpr ⟨o₁, ho₁, if_neg (hnamed hu o₁ ho₁ ⟨hside₁, hprice₁⟩)⟩
    dsimp only
    rw [if_pos ⟨o₁, hmem₁, hside₁⟩]
    refine ⟨⟨o₁, hmem₁, hside₁, hprice₁⟩, ?_, ?_⟩
    · intro o ho hside
      obtain ⟨o₀, ho₀, rfl⟩ := List.mem_map.mp ho
      by_cases hid : o₀.orderId = u.orderId
      · rw [if_pos hid] at hside ⊢
        exact hbest o₀ ho₀ hside
      · rw [if_neg hid] at hside ⊢
        exact hbest o₀ ho₀ hside
    · rw [hqty, List.filter_map, hkeep, List.map_map]
      apply congrArg
      apply List.map_congr_left
      intro o ho
      obtain ⟨ho, hat⟩ := List.mem_filter.mp ho
      rw [Function.comp, if_neg (hnamed hu o ho (of_decide_eq_true hat))]
  | cancel =>
    rw [ht] at hu
    have hmem₁ : o₁ ∈ live.filter fun o => o.orderId ≠ u.orderId := by
      apply List.mem_filter.mpr
      exact ⟨ho₁, decide_eq_true (hnamed hu o₁ ho₁ ⟨hside₁, hprice₁⟩)⟩
    dsimp only
    rw [if_pos ⟨o₁, hmem₁, hside₁⟩]
    refine ⟨⟨o₁, hmem₁, hside₁, hprice₁⟩, ?_, ?_⟩
    · intro o ho hside
      exact hbest o (List.mem_of_mem_filter ho) hside
    · rw [hqty, List.filter_comm]
      apply congrArg
      apply congrArg
      symm
      apply List.filter_eq_self.mpr
      intro o ho
      obtain ⟨ho, hat⟩ := List.mem_filter.mp ho
      exact decide_eq_true (hnamed hu o ho (of_decide_eq_true hat))
  | trade => exact absurd ht htrade
  | _ =>
    rw [ht] at hu
    exact absurd hu id

end Untouched

/-! ## Runs -/

namespace MarketOrderBook

variable {lo : Price} {b : MarketOrderBook} {k : Book} {live : List LiveOrder} {u : MEMarketUpdate}
  {us : List MEMarketUpdate}

/-- The ids of the live orders are in the client's table. -/
def IdsInTable (live : List LiveOrder) : Prop := ∀ o ∈ live, o.orderId.toNat < meMaxOrderIds

/-- The id of a new order is in the client's table. -/
def NewIdInTable (u : MEMarketUpdate) : Prop := u.type = .add → u.orderId.toNat < meMaxOrderIds

instance (u : MEMarketUpdate) : Decidable (NewIdInTable u) := inferInstanceAs (Decidable (_ → _))

theorem Orderly.proper (hu : Orderly lo live u) (hlive : IdsInTable live) (hid : NewIdInTable u) :
    Proper lo live u := by
  unfold Orderly at hu
  unfold Proper
  cases ht : u.type with
  | add =>
    rw [ht] at hu
    exact ⟨hu, hid ht⟩
  | modify =>
    rw [ht] at hu
    obtain ⟨o, ho, hoid, -⟩ := hu
    show u.orderId.toNat < meMaxOrderIds
    rw [← hoid]
    exact hlive o ho
  | cancel =>
    rw [ht] at hu
    obtain ⟨o, ho, hoid, -⟩ := hu
    show u.orderId.toNat < meMaxOrderIds
    rw [← hoid]
    exact hlive o ho
  | trade => trivial
  | _ =>
    rw [ht] at hu
    exact absurd hu id

theorem IdsInTable.step (hlive : IdsInTable live) (hid : NewIdInTable u) :
    IdsInTable (liveStep live u) := by
  intro o ho
  unfold liveStep at ho
  cases ht : u.type <;> rw [ht] at ho
  case add =>
    rcases List.mem_append.mp ho with ho | ho
    · exact hlive o ho
    · obtain rfl := List.mem_singleton.mp ho
      exact hid ht
  case modify =>
    obtain ⟨o₀, ho₀, rfl⟩ := List.mem_map.mp ho
    split <;> exact hlive o₀ ho₀
  case cancel => exact hlive o (List.mem_of_mem_filter ho)
  all_goals exact hlive o ho

/-- What is said of a side: nothing, as long as it has not been read. -/
def saying (quoted : Bool) (levels : List Level) : Price × Qty :=
  if quoted then best levels else (priceInvalid, qtyInvalid)

/-- **Step lemma.** What is said of a side is what its first level says once the side has been read, and
that there is nothing until then. -/
theorem Stands.quote_step (h : Stands lo b k live) (hlive : IdsInTable live) (hu : Orderly lo live u)
    (hid : NewIdInTable u) (quoted : Side → Bool)
    (hq : ∀ s, s = .buy ∨ s = .sell → b.quote s = saying (quoted s) (k.side s)) :
    ∃ b' k', b.onMarketUpdate u = .ok b' ∧ Stands lo b' k' (liveStep live u) ∧
      ∀ s, s = .buy ∨ s = .sell →
        b'.quote s = saying (quotedStep s (live, quoted s) u).2 (k'.side s) := by
  obtain ⟨b', k', hok, h', hquote⟩ := h.step (Orderly.proper hu hlive hid)
  refine ⟨b', k', hok, h', ?_⟩
  intro s hs
  rw [hquote s hs]
  unfold quotedStep
  dsimp only
  by_cases htouch : Touches live u s
  · rw [if_pos ((h.mirrors.touches_iff h.wf.toLists hs).mpr htouch), decide_eq_true htouch,
      Bool.true_or]
    rfl
  · rw [if_neg fun hc => htouch ((h.mirrors.touches_iff h.wf.toLists hs).mp hc),
      decide_eq_false htouch, Bool.false_or, hq s hs]
    by_cases hsome : ∃ o ∈ live, o.side = s
    · rw [decide_eq_true hsome, Bool.and_true]
      unfold saying
      split
      · -- the first level is the same one, with the same orders
        have hexact := (h.mirrors.exact_iff h.wf.toLists hs (q := best (k.side s))).mpr rfl
        exact (h'.mirrors.exact_iff h'.wf.toLists hs).mp
          (exact_of_untouched hs h.mirrors.ids hu hexact hsome htouch)
      · rfl
    · rw [decide_eq_false hsome, Bool.and_false,
        (h.mirrors.side_nil_iff h.wf.toLists hs).mpr hsome]
      unfold saying
      split <;> rfl

/-- **Run lemma.** -/
theorem Stands.quote_run (h : Stands lo b k live) (hlive : IdsInTable live)
    (hus : Along (Orderly lo) live us) (hids : ∀ u ∈ us, NewIdInTable u) (quoted : Side → Bool)
    (hq : ∀ s, s = .buy ∨ s = .sell → b.quote s = saying (quoted s) (k.side s)) :
    ∃ b' k', b.onMarketUpdates us = .ok b' ∧ Stands lo b' k' (us.foldl liveStep live) ∧
      ∀ s, s = .buy ∨ s = .sell →
        b'.quote s = saying (us.foldl (quotedStep s) (live, quoted s)).2 (k'.side s) := by
  induction us generalizing b k live quoted with
  | nil => exact ⟨b, k, rfl, h, hq⟩
  | cons u us ih =>
    have hid := hids u List.mem_cons_self
    obtain ⟨b₁, k₁, hstep, h₁, hq₁⟩ := h.quote_step hlive hus.1 hid quoted hq
    obtain ⟨b', k', hrun, h', hq'⟩ := ih h₁ (hlive.step hid) hus.2
      (fun u' hu' => hids u' (List.mem_cons_of_mem _ hu')) _ hq₁
    refine ⟨b', k', ?_, h', hq'⟩
    unfold onMarketUpdates
    rw [List.foldlM_cons, hstep]
    exact hrun

/-- A new order whose id is not in the table stops the client. -/
theorem Stands.run_stops (h : Stands lo b k live) (hlive : IdsInTable live)
    (hus : Along (Orderly lo) live us) (hids : ¬ ∀ u ∈ us, NewIdInTable u) :
    b.onMarketUpdates us = .error .outOfRange := by
  induction us generalizing b k live with
  | nil => exact absurd (by simp) hids
  | cons u us ih =>
    unfold onMarketUpdates
    rw [List.foldlM_cons]
    by_cases hid : NewIdInTable u
    · obtain ⟨b₁, k₁, hstep, h₁, -⟩ := h.step (Orderly.proper hus.1 hlive hid)
      rw [hstep]
      apply ih h₁ (hlive.step hid) hus.2
      intro hall
      refine hids fun u' hu' => ?_
      rcases List.mem_cons.mp hu' with rfl | hu'
      · exact hid
      · exact hall u' hu'
    · obtain ⟨ht, hbig⟩ : u.type = .add ∧ ¬ u.orderId.toNat < meMaxOrderIds := by
        unfold NewIdInTable at hid
        exact Classical.not_imp.mp hid
      have hok : AddOk lo live u := by
        have hu := hus.1
        unfold Orderly at hu
        rwa [ht] at hu
      have happly : b.applyUpdate u = .error .outOfRange := by
        rcases applyUpdate_add h.shows h.wf ht hok.side with
          ⟨-, hfull⟩ | ⟨herr, -, -⟩ | ⟨-, -, -, -, -, hsmall, -⟩
        · exact absurd hfull (h.mirrors.not_full h.wf.toLists hok)
        · exact herr
        · exact absurd hsmall hbig
      rw [onMarketUpdate_error (by simp [ht]) happly]
      rfl

/-- **When the best bid and offer are right**: after a stream of an order book the quotes of both sides
are exact if and only if every new id was in the client's table and each side has no orders, or has been
read since it last had none, or looks as if it had none. -/
theorem bbo_exact_iff (tickerId : TickerId) (lo : Price) (us : List MEMarketUpdate)
    (hus : Along (Orderly lo) [] us) :
    (∃ b, (init tickerId).onMarketUpdates us = .ok b ∧
      ∀ s, s = .buy ∨ s = .sell → Exact (liveOrders us) s (b.quote s)) ↔
    (∀ u ∈ us, NewIdInTable u) ∧ ∀ s, s = .buy ∨ s = .sell →
      (∀ o ∈ liveOrders us, o.side ≠ s) ∨ Quoted s us ∨ LooksEmpty (liveOrders us) s := by
  have hstart := stands_init lo tickerId
  have hnone : IdsInTable [] := by simp [IdsInTable]
  by_cases hids : ∀ u ∈ us, NewIdInTable u
  · obtain ⟨b, k, hrun, h, hq⟩ := hstart.quote_run hnone hus hids (fun _ => false) (by
      rintro s (rfl | rfl) <;> rfl)
    have hiff : ∀ s, s = .buy ∨ s = .sell → (Exact (liveOrders us) s (b.quote s) ↔
        (∀ o ∈ liveOrders us, o.side ≠ s) ∨ Quoted s us ∨ LooksEmpty (liveOrders us) s) := by
      intro s hs
      rw [hq s hs]
      by_cases hquoted : Quoted s us
      · rw [show (us.foldl (quotedStep s) ([], false)).2 = true from hquoted]
        constructor
        · intro _
          exact Or.inr (Or.inl hquoted)
        · intro _
          exact (h.mirrors.exact_iff h.wf.toLists hs).mpr rfl
      · rw [show (us.foldl (quotedStep s) ([], false)).2 = false from Bool.eq_false_iff.mpr hquoted]
        refine exact_invalid_iff.trans ?_
        constructor
        · rintro (hempty | hlooks)
          · exact Or.inl hempty
          · exact Or.inr (Or.inr hlooks)
        · rintro (hempty | hquoted' | hlooks)
          · exact Or.inl hempty
          · exact absurd hquoted' hquoted
          · exact Or.inr hlooks
    constructor
    · rintro ⟨b', hrun', hexact⟩
      obtain rfl := Except.ok.inj (hrun.symm.trans hrun')
      exact ⟨hids, fun s hs => (hiff s hs).mp (hexact s hs)⟩
    · rintro ⟨-, hall⟩
      exact ⟨b, hrun, fun s hs => (hiff s hs).mpr (hall s hs)⟩
  · constructor
    · rintro ⟨b, hrun, -⟩
      rw [hstart.run_stops hnone hus hids] at hrun
      cases hrun
    · rintro ⟨hids', -⟩
      exact absurd hids' hids

/-- The second order at the best price is read with the first. -/
theorem bbo_exact_two :
    ∃ b, (init 0).onMarketUpdates [
        { type := .add, orderId := 1, tickerId := 0, side := .buy, price := 100, qty := 5, priority := 1 },
        { type := .add, orderId := 2, tickerId := 0, side := .buy, price := 100, qty := 7, priority := 2 }]
      = .ok b ∧ ∀ s, s = .buy ∨ s = .sell →
        Exact [⟨1, .buy, 100, 5⟩, ⟨2, .buy, 100, 7⟩] s (b.quote s) := by
  apply (bbo_exact_iff 0 100 [
        { type := .add, orderId := 1, tickerId := 0, side := .buy, price := 100, qty := 5, priority := 1 },
        { type := .add, orderId := 2, tickerId := 0, side := .buy, price := 100, qty := 7, priority := 2 }]
    (by decide)).mpr
  refine ⟨by decide, ?_⟩
  rintro s (rfl | rfl) <;> decide

/-- The order that starts a side is not read: there is a bid and the quote says that there is none. -/
theorem not_bbo_exact_one :
    ¬ ∀ (tickerId : TickerId) (lo : Price) (us : List MEMarketUpdate), Along (Orderly lo) [] us →
      ∃ b, (init tickerId).onMarketUpdates us = .ok b ∧
        ∀ s, s = .buy ∨ s = .sell → Exact (liveOrders us) s (b.quote s) := by
  intro hall
  have hus : Along (Orderly 100) [] [
      { type := .add, orderId := 1, tickerId := 0, side := .buy, price := 100, qty := 5, priority := 1 }] :=
    by decide
  obtain ⟨b, hrun, hexact⟩ := hall 0 100 _ hus
  obtain ⟨b', k, hrun', -, hq⟩ := (stands_init 100 0).quote_run (by simp [IdsInTable]) hus (by decide)
    (fun _ => false) (by rintro s (rfl | rfl) <;> rfl)
  obtain rfl := Except.ok.inj (hrun.symm.trans hrun')
  have hwrong : Exact [⟨1, .buy, 100, 5⟩] .buy (priceInvalid, qtyInvalid) := by
    have hbuy := hexact .buy (Or.inl rfl)
    rw [hq .buy (Or.inl rfl)] at hbuy
    exact hbuy
  revert hwrong
  decide

end MarketOrderBook

end TradingSystem.Client
