import TradingSystem.Exchange.Refinement

/-!
# Which orders an incoming order trades with

The orders an incoming order can trade with are the head of its queue up to the first one whose
price stops it. What is left of it afterwards only depends on their total quantity
(`leftOver_fills`).
-/

namespace TradingSystem

open MEOrderBook (priceToIndex stops)

/-- The orders at the head of a queue that satisfy the limit of an incoming order. -/
def crossing (s : Side) (price : Price) (queue : List OrderInfo) : List OrderInfo :=
  queue.takeWhile fun o => !stops s price o.price

/-- Their total quantity. -/
def crossingQty (s : Side) (price : Price) (queue : List OrderInfo) : Nat :=
  ((crossing s price queue).map fun o => o.qty.toNat).sum

variable {s : Side} {price : Price} {left : Qty} {es : List Entry} {e : Entry}

theorem crossing_cons (o : OrderInfo) (os : List OrderInfo) :
    crossing s price (o :: os) = if stops s price o.price then [] else o :: crossing s price os := by
  unfold crossing
  rw [List.takeWhile_cons]
  by_cases h : stops s price o.price = true <;> simp [h]

theorem crossingQty_cons (o : OrderInfo) (os : List OrderInfo) :
    crossingQty s price (o :: os) =
      if stops s price o.price then 0 else o.qty.toNat + crossingQty s price os := by
  unfold crossingQty
  rw [crossing_cons]
  split <;> simp

@[simp] theorem fills_zero (s : Side) (price : Price) (es : List Entry) : fills s price 0 es = [] := by
  cases es <;> simp [fills]

/-- One round of matching. -/
theorem fills_cons (hleft : left ≠ 0) (hgo : stops s price e.info.price = false) (es : List Entry) :
    fills s price left (e :: es) =
      ⟨e, if left < e.info.qty then left else e.info.qty,
        left - if left < e.info.qty then left else e.info.qty⟩ ::
      fills s price (left - if left < e.info.qty then left else e.info.qty) es := by
  rw [fills, if_neg (by simp [hleft, hgo])]

theorem fills_stop (hstop : stops s price e.info.price = true) (es : List Entry) :
    fills s price left (e :: es) = [] := by
  rw [fills, if_pos (by simp [hstop])]

/-- **What is left of an incoming order** is what the orders it crosses do not cover. -/
theorem leftOver_fills (s : Side) (price : Price) (left : Qty) (es : List Entry) :
    (leftOver left (fills s price left es)).toNat =
      left.toNat - crossingQty s price (es.map Entry.info) := by
  induction es generalizing left with
  | nil => simp [fills, leftOver, crossingQty, crossing]
  | cons e es ih =>
    rw [List.map_cons, crossingQty_cons]
    cases hstop : stops s price e.info.price with
    | true =>
      rw [fills_stop hstop]
      simp [leftOver]
    | false =>
      by_cases hleft : left = 0
      · subst hleft
        simp [leftOver]
      · rw [fills_cons hleft hstop, leftOver, ih]
        by_cases hlt : left < e.info.qty
        · have hnat : left.toNat < e.info.qty.toNat := UInt32.lt_iff_toNat_lt.mp hlt
          simp only [hlt, if_true, UInt32.sub_self, UInt32.toNat_zero, Bool.false_eq_true, if_false]
          omega
        · have hnat : e.info.qty.toNat ≤ left.toNat := by
            have := mt UInt32.lt_iff_toNat_lt.mpr hlt
            omega
          simp only [hlt, if_false, Bool.false_eq_true]
          rw [UInt32.toNat_sub_of_le _ _ (UInt32.le_iff_toNat_le.mpr hnat)]
          omega

/-! ## What matching leaves of the book -/

namespace Book

variable {k : Book} {e' : Entry}

/-- Changing orders in place makes no order up. -/
theorem Keeps.mem_filter {f : Entry → Option Entry} (hf : Keeps f) (h : e' ∈ (k.filter f).entries) :
    ∃ e ∈ k.entries, ∃ q, e' = { e with info := { e.info with qty := q } } := by
  rw [filter_entries] at h
  obtain ⟨e, he, hfe⟩ := List.mem_filterMap.mp h
  exact ⟨e, he, hf e e' hfe⟩

/-- The orders after a match: the passive order is gone or has less to trade. -/
theorem mem_fill_iff (hk : k.Lists) {f : Fill} (hp : f.passive ∈ k.entries) :
    e' ∈ (k.fill f).entries ↔ (e' ∈ k.entries ∧ e' ≠ f.passive) ∨
      (f.passive.info.qty - f.exec ≠ 0 ∧ e' = { f.passive with
        info := { f.passive.info with qty := f.passive.info.qty - f.exec } }) := by
  unfold fill
  by_cases hzero : f.passive.info.qty - f.exec = 0
  · rw [if_pos hzero, mem_remove_entries hk hp]
    simp [hzero]
  · rw [if_neg hzero, mem_setQty_entries]
    constructor
    · rintro ⟨e₀, he₀, rfl⟩
      by_cases hptr : e₀.ptr = f.passive.ptr
      · obtain rfl := hk.eq_of_ptr he₀ hp hptr
        exact Or.inr ⟨hzero, by simp⟩
      · rw [if_neg hptr]
        exact Or.inl ⟨he₀, fun heq => hptr (by rw [heq])⟩
    · rintro (⟨he', hne⟩ | ⟨-, rfl⟩)
      · exact ⟨e', he', by rw [if_neg fun hptr => hne (hk.eq_of_ptr he' hp hptr)]⟩
      · exact ⟨f.passive, hp, by simp⟩

/-- A match takes no name in the book twice. -/
theorem fill_map_sublist {β : Type} {g : Entry → β}
    (hg : ∀ (e : Entry) q, g { e with info := { e.info with qty := q } } = g e) (f : Fill) :
    ((k.fill f).entries.map g).Sublist (k.entries.map g) := by
  apply fill_rule (P := fun k' => (k'.entries.map g).Sublist (k.entries.map g))
  · intro _
    rw [remove, setCidOid_entries, filter_entries]
    exact (keeps_dropping _).map_sublist hg _
  · intro _
    rw [setQty, filter_entries]
    exact (keeps_requantifying _ _).map_sublist hg _

theorem mem_fill_entries {f : Fill} (h : e' ∈ (k.fill f).entries) :
    ∃ e ∈ k.entries, ∃ q, e' = { e with info := { e.info with qty := q } } := by
  unfold fill at h
  split at h
  · exact (keeps_dropping _).mem_filter h
  · exact (keeps_requantifying _ _).mem_filter h

/-- Matching makes no order up, and changes nothing of an order but its quantity. -/
theorem mem_fills_entries {a : OrderInfo} {fs : List Fill}
    (h : e' ∈ (k.applyAll (fs.map (.fill a))).entries) :
    ∃ e ∈ k.entries, ∃ q, e' = { e with info := { e.info with qty := q } } := by
  induction fs generalizing k with
  | nil => exact ⟨e', h, e'.info.qty, rfl⟩
  | cons f fs ih =>
    obtain ⟨e₁, he₁, q₁, rfl⟩ := ih h
    obtain ⟨e, he, q, rfl⟩ := mem_fill_entries he₁
    exact ⟨e, he, q₁, rfl⟩

theorem mem_matchEvents_entries {r : MEClientRequest}
    (h : e' ∈ (k.applyAll (k.matchEvents r)).entries) :
    ∃ e ∈ k.entries, ∃ q, e' = { e with info := { e.info with qty := q } } :=
  mem_fills_entries (k := k.apply (.accepted (k.incoming r))) h

@[simp] theorem fill_nextOrderId (f : Fill) : (k.fill f).nextOrderId = k.nextOrderId := by
  apply fill_rule (P := fun k' => k'.nextOrderId = k.nextOrderId) <;> exact fun _ => rfl

theorem applyAll_fills_nextOrderId (a : OrderInfo) (fs : List Fill) :
    (k.applyAll (fs.map (.fill a))).nextOrderId = k.nextOrderId := by
  induction fs generalizing k with
  | nil => rfl
  | cons f fs ih =>
    rw [List.map_cons, applyAll_cons, ih]
    exact fill_nextOrderId f

theorem matchEvents_nextOrderId (k : Book) (r : MEClientRequest) :
    (k.applyAll (k.matchEvents r)).nextOrderId = k.nextOrderId + 1 :=
  applyAll_fills_nextOrderId (k := k.apply (.accepted (k.incoming r))) _ _

@[simp] theorem rest_nextOrderId (e : Entry) (lp : LevelPtr) :
    (k.rest e lp).nextOrderId = k.nextOrderId := by
  rw [rest_eq]
  show (if k.slotTaken e then k.join e else k.addLevel (newLevel e lp)).nextOrderId = _
  split
  · rfl
  · rw [addLevel_eq]

end Book

namespace MEOrderBook

/-- The orders an incoming order of side `s` meets. -/
def opposite (b : MEOrderBook) (s : Side) : List OrderInfo :=
  match s with
  | .buy => b.restingAsks
  | .sell => b.restingBids
  | _ => []

/-- The quantity a `NEW` request can trade at once. -/
def available (b : MEOrderBook) (r : MEClientRequest) : Nat :=
  crossingQty r.side r.price (b.opposite r.side)

end MEOrderBook

theorem Holds.opposite_eq {b : MEOrderBook} {k : Book} (h : Rep b k) (hk : k.Lists) (s : Side) :
    b.opposite s = (k.queue s).map Entry.info := by
  cases s with
  | buy => exact h.restingAsks_eq hk
  | sell => exact h.restingBids_eq hk
  | _ => rfl

/-- A request that the book can cover leaves nothing to rest. -/
theorem Holds.leftOver_eq {b : MEOrderBook} {k : Book} (h : Rep b k) (hk : k.Lists)
    (r : MEClientRequest) :
    (leftOver r.qty (fills r.side r.price r.qty (k.queue r.side))).toNat =
      r.qty.toNat - b.available r := by
  rw [leftOver_fills, MEOrderBook.available, h.opposite_eq hk]

end TradingSystem
