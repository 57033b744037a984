import TradingSystem.Exchange.Book

/-!
# The invariant of the book, and what each event preserves

`Book.WF` is the shape every book keeps, for all prices, also for prices that share a slot: levels
sorted by their own prices, one level a slot, no empty level, no cell used twice, and an id table
that names resting orders by their own ids. `Event.Ok` is the condition under which an event can
happen in a book; `apply_wf` is the step lemma, and `events_ok` says that the events of a request
can happen one after the other.
-/

namespace TradingSystem

open MEOrderBook (priceToIndex inTable stops)

namespace Book

/-- `f` keeps everything of an order but its quantity. -/
def Keeps (f : Entry → Option Entry) : Prop :=
  ∀ e e', f e = some e' → ∃ q, e' = { e with info := { e.info with qty := q } }

theorem keeps_dropping (p : OrderPtr) : Keeps (dropping p) := by
  intro e e' h
  unfold dropping at h
  split at h
  · cases h
  · exact ⟨e.info.qty, (Option.some.inj h).symm⟩

theorem keeps_requantifying (p : OrderPtr) (q : Qty) : Keeps (requantifying p q) := by
  intro e e' h
  unfold requantifying at h
  split at h
  · exact ⟨q, (Option.some.inj h).symm⟩
  · exact ⟨e.info.qty, (Option.some.inj h).symm⟩

/-- The part of the invariant that concerns the lists alone. -/
structure Lists (k : Book) : Prop where
  bids_side : ∀ l ∈ k.bids, l.side = .buy
  asks_side : ∀ l ∈ k.asks, l.side = .sell
  bids_sorted : k.bids.Pairwise fun a b => behind .buy b.price a.price
  asks_sorted : k.asks.Pairwise fun a b => behind .sell b.price a.price
  slots : (k.levels.map Level.slot).Nodup
  levelPtrs : (k.levels.map Level.ptr).Nodup
  orderPtrs : (k.entries.map Entry.ptr).Nodup
  nonempty : ∀ l ∈ k.levels, l.orders ≠ []
  slot_eq : ∀ l ∈ k.levels, ∀ e ∈ l.orders, e.slot = l.slot
  sides : ∀ e ∈ k.entries, e.info.side = .buy ∨ e.info.side = .sell

/-- The id table points at resting orders, each under its own ids. -/
def Table (k : Book) : Prop :=
  ∀ c o p, k.cidOidToOrder c o = some p →
    ∃ e ∈ k.entries, e.ptr = p ∧ e.info.clientId = c ∧ e.info.clientOrderId = o

/-- The invariant of the book. -/
structure WF (k : Book) : Prop extends Lists k where
  table : Table k

/-- Every resting order has something left to trade. -/
def Positive (k : Book) : Prop := ∀ e ∈ k.entries, 0 < e.info.qty

variable {k : Book} {s : Side} {e e' : Entry} {l : Level} {p : OrderPtr}

theorem wf_init (ticker : TickerId) : (init ticker).WF where
  bids_side := by simp [init]
  asks_side := by simp [init]
  bids_sorted := by simp [init]
  asks_sorted := by simp [init]
  slots := by simp [init, levels]
  levelPtrs := by simp [init, levels]
  orderPtrs := by simp [init, entries, levels]
  nonempty := by simp [init, levels]
  slot_eq := by simp [init, levels]
  sides := by simp [init, entries, levels]
  table := by simp [Table, init]

theorem positive_init (ticker : TickerId) : (init ticker).Positive := by
  simp [Positive, init, entries, levels]

/-! ## Looking things up -/

theorem Lists.side_of_mem (h : k.Lists) (hs : s = .buy ∨ s = .sell) (hl : l ∈ k.side s) :
    l.side = s := by
  rcases hs with rfl | rfl
  · exact h.bids_side l (by simpa [side] using hl)
  · exact h.asks_side l (by simpa [side] using hl)

theorem Lists.sorted (h : k.Lists) (hs : s = .buy ∨ s = .sell) :
    (k.side s).Pairwise fun a b => behind s b.price a.price := by
  rcases hs with rfl | rfl
  · simpa [side] using h.bids_sorted
  · simpa [side] using h.asks_sorted

/-- A cell holds one order. -/
theorem Lists.eq_of_ptr (h : k.Lists) (he : e ∈ k.entries) (he' : e' ∈ k.entries)
    (hp : e.ptr = e'.ptr) : e = e' :=
  List.inj_on_of_nodup_map h.orderPtrs he he' hp

/-- An order is found through its cell. -/
theorem Lists.find_ptr (h : k.Lists) (he : e ∈ k.entries) :
    (k.entries.find? fun e' => some e'.ptr = some e.ptr) = some e := by
  cases hfind : k.entries.find? fun e' => some e'.ptr = some e.ptr with
  | none =>
    have := List.find?_eq_none.mp hfind e he
    simp at this
  | some e' =>
    have hptr : e'.ptr = e.ptr := by simpa using List.find?_some hfind
    rw [h.eq_of_ptr (List.mem_of_find?_eq_some hfind) he hptr]

theorem Lists.level_eq_of_slot (h : k.Lists) {l' : Level} (hl : l ∈ k.levels) (hl' : l' ∈ k.levels)
    (hs : l.slot = l'.slot) : l = l' :=
  List.inj_on_of_nodup_map h.slots hl hl' hs

theorem Lists.level_eq_of_ptr (h : k.Lists) {l' : Level} (hl : l ∈ k.levels) (hl' : l' ∈ k.levels)
    (hs : l.ptr = l'.ptr) : l = l' :=
  List.inj_on_of_nodup_map h.levelPtrs hl hl' hs

/-- An order is in one level only. -/
theorem Lists.level_eq_of_mem (h : k.Lists) {l' : Level} (hl : l ∈ k.levels) (hl' : l' ∈ k.levels)
    (he : e ∈ l.orders) (he' : e ∈ l'.orders) : l = l' :=
  h.level_eq_of_slot hl hl' ((h.slot_eq l hl e he).symm.trans (h.slot_eq l' hl' e he'))

/-! ## Changing orders in place -/

/-- What an order is, its quantity apart, survives in a sublist. -/
theorem Keeps.map_sublist {β : Type} {g : Entry → β} {f : Entry → Option Entry} (hf : Keeps f)
    (hg : ∀ (e : Entry) q, g { e with info := { e.info with qty := q } } = g e) (es : List Entry) :
    ((es.filterMap f).map g).Sublist (es.map g) := by
  induction es with
  | nil => simp
  | cons e es ih =>
    cases hfe : f e with
    | none => simpa [hfe] using ih.cons (g e)
    | some e' =>
      obtain ⟨q, rfl⟩ := hf e e' hfe
      simpa [hfe, hg] using ih.cons_cons (g e)

theorem Lists.filter (h : k.Lists) {f : Entry → Option Entry} (hf : Keeps f) :
    (k.filter f).Lists where
  bids_side := by
    intro l hl
    obtain ⟨l₀, hl₀, rfl, -⟩ := mem_filterOrders.mp hl
    exact h.bids_side l₀ hl₀
  asks_side := by
    intro l hl
    obtain ⟨l₀, hl₀, rfl, -⟩ := mem_filterOrders.mp hl
    exact h.asks_side l₀ hl₀
  bids_sorted := filterOrders_pairwise (fun _ _ _ _ hab => hab) f h.bids_sorted
  asks_sorted := filterOrders_pairwise (fun _ _ _ _ hab => hab) f h.asks_sorted
  slots := by
    rw [filter_levels]
    exact h.slots.sublist (filterOrders_map_sublist Level.slot (fun _ _ => rfl) f _)
  levelPtrs := by
    rw [filter_levels]
    exact h.levelPtrs.sublist (filterOrders_map_sublist Level.ptr (fun _ _ => rfl) f _)
  orderPtrs := by
    rw [filter_entries]
    exact h.orderPtrs.sublist (hf.map_sublist (fun _ _ => rfl) _)
  nonempty := by
    intro l hl
    rw [filter_levels] at hl
    obtain ⟨l₀, -, -, hne⟩ := mem_filterOrders.mp hl
    exact hne
  slot_eq := by
    intro l hl e he
    rw [filter_levels] at hl
    obtain ⟨l₀, hl₀, rfl, -⟩ := mem_filterOrders.mp hl
    obtain ⟨e₀, he₀, hfe⟩ := List.mem_filterMap.mp he
    obtain ⟨q, rfl⟩ := hf e₀ e hfe
    exact h.slot_eq l₀ hl₀ e₀ he₀
  sides := by
    intro e he
    rw [filter_entries] at he
    obtain ⟨e₀, he₀, hfe⟩ := List.mem_filterMap.mp he
    obtain ⟨q, rfl⟩ := hf e₀ e hfe
    exact h.sides e₀ he₀

theorem Lists.setCidOid (h : k.Lists) (c : ClientId) (o : OrderId) (p : Option OrderPtr) :
    (k.setCidOid c o p).Lists :=
  ⟨h.bids_side, h.asks_side, h.bids_sorted, h.asks_sorted, h.slots, h.levelPtrs, h.orderPtrs,
    h.nonempty, h.slot_eq, h.sides⟩

theorem mem_remove_entries (h : k.Lists) (he : e ∈ k.entries) :
    e' ∈ (k.remove e).entries ↔ e' ∈ k.entries ∧ e' ≠ e := by
  simp only [remove, setCidOid_entries, filter_entries, List.mem_filterMap]
  constructor
  · rintro ⟨e₀, he₀, hf⟩
    unfold dropping at hf
    split at hf
    · cases hf
    · next hne =>
      obtain rfl : e₀ = e' := Option.some.inj hf
      exact ⟨he₀, fun heq => hne (by rw [heq])⟩
  · rintro ⟨he', hne⟩
    refine ⟨e', he', ?_⟩
    unfold dropping
    rw [if_neg]
    intro hp
    exact hne (h.eq_of_ptr he' he hp)

theorem remove_wf (h : k.WF) (he : e ∈ k.entries) : (k.remove e).WF where
  toLists := (h.toLists.filter (keeps_dropping _)).setCidOid _ _ _
  table := by
    intro c o p hp
    rw [remove, setCidOid_cidOidToOrder] at hp
    split at hp
    · cases hp
    · next hne =>
      obtain ⟨e', he', hptr, hc, ho⟩ := h.table c o p hp
      refine ⟨e', (mem_remove_entries h.toLists he).mpr ⟨he', ?_⟩, hptr, hc, ho⟩
      rintro rfl
      exact hne ⟨hc.symm, ho.symm⟩

theorem mem_setQty_entries {q : Qty} :
    e' ∈ (k.setQty p q).entries ↔
      ∃ e ∈ k.entries, e' = if e.ptr = p then { e with info := { e.info with qty := q } } else e := by
  simp only [setQty, filter_entries, List.mem_filterMap]
  constructor
  · rintro ⟨e, he, hf⟩
    refine ⟨e, he, ?_⟩
    unfold requantifying at hf
    split at hf <;> simp_all
  · rintro ⟨e, he, rfl⟩
    refine ⟨e, he, ?_⟩
    unfold requantifying
    split <;> rfl

theorem setQty_wf (h : k.WF) (p : OrderPtr) (q : Qty) : (k.setQty p q).WF where
  toLists := h.toLists.filter (keeps_requantifying _ _)
  table := by
    intro c o p' hp
    obtain ⟨e, he, hptr, hc, ho⟩ := h.table c o p' hp
    refine ⟨_, mem_setQty_entries.mpr ⟨e, he, rfl⟩, ?_⟩
    split <;> exact ⟨hptr, hc, ho⟩

/-! ## Adding an order -/

/-- The cells found free are not in use. -/
structure Fresh (k : Book) (cells : Cells) : Prop where
  order : cells.order ∉ k.entries.map Entry.ptr
  level : cells.level ∉ k.levels.map Level.ptr

theorem behind_iff_buy {p q : Price} : behind .buy p q = true ↔ p < q := by simp [behind]

theorem behind_iff_sell {p q : Price} : behind .sell p q = true ↔ q < p := by simp [behind]

theorem behind_trans {p q r : Price} (h₁ : behind s p q = true) (h₂ : behind s q r = true) :
    behind s p r = true := by
  simp only [behind, Bool.or_eq_true, Bool.and_eq_true, decide_eq_true_eq] at *
  grind

theorem behind_total (hs : s = .buy ∨ s = .sell) {p q : Price} (hpq : p ≠ q)
    (h : behind s p q = false) : behind s q p = true := by
  rcases hs with rfl | rfl <;> simp [behind] at * <;> grind

theorem behind_asymm {p q : Price} (h : behind s p q = true) : behind s q p = false := by
  simp only [behind, Bool.or_eq_true, Bool.and_eq_true, decide_eq_true_eq, Bool.or_eq_false_iff,
    Bool.and_eq_false_iff, decide_eq_false_iff_not] at *
  grind

theorem insertLevel_sorted {new : Level} {ls : List Level} (hs : s = .buy ∨ s = .sell)
    (hside : new.side = s) (hsorted : ls.Pairwise fun a b => behind s b.price a.price)
    (hne : ∀ l ∈ ls, l.price ≠ new.price) :
    (insertLevel new ls).Pairwise fun a b => behind s b.price a.price := by
  induction ls with
  | nil => simp [insertLevel]
  | cons x ls ih =>
    rw [insertLevel, hside]
    have hx := List.pairwise_cons.mp hsorted
    split
    · next hb =>
      refine List.pairwise_cons.mpr ⟨?_, ih hx.2 fun l hl => hne l (by simp [hl])⟩
      intro l hl
      rcases mem_insertLevel.mp hl with rfl | hl
      · exact hb
      · exact hx.1 l hl
    · next hb =>
      have hxn : behind s x.price new.price = true :=
        behind_total hs (fun h => hne x (by simp) h.symm) (by simpa using hb)
      refine List.pairwise_cons.mpr ⟨?_, hsorted⟩
      intro l hl
      rcases List.mem_cons.mp hl with rfl | hl
      · exact hxn
      · exact behind_trans (hx.1 l hl) hxn

theorem appendOrder_map {β : Type} (g : Level → β) (hg : ∀ l os, g { l with orders := os } = g l)
    (e : Entry) (ls : List Level) : (appendOrder e ls).map g = ls.map g := by
  rw [appendOrder, List.map_map]
  refine List.map_congr_left fun l _ => ?_
  show g (if l.slot = e.slot then _ else l) = g l
  split
  · exact hg l _
  · rfl

theorem mem_appendOrder {ls : List Level} :
    l ∈ appendOrder e ls ↔
      ∃ l₀ ∈ ls, l = if l₀.slot = e.slot then { l₀ with orders := l₀.orders ++ [e] } else l₀ := by
  simp only [appendOrder, List.mem_map]
  exact ⟨fun ⟨a, b, c⟩ => ⟨a, b, c.symm⟩, fun ⟨a, b, c⟩ => ⟨a, b, c.symm⟩⟩

theorem appendOrder_cons (e : Entry) (l : Level) (ls : List Level) :
    appendOrder e (l :: ls) =
      (if l.slot = e.slot then { l with orders := l.orders ++ [e] } else l) :: appendOrder e ls :=
  rfl

theorem appendOrder_append (e : Entry) (ls ls' : List Level) :
    appendOrder e (ls ++ ls') = appendOrder e ls ++ appendOrder e ls' := by
  simp [appendOrder]

theorem appendOrder_eq_self {ls : List Level} (h : e.slot ∉ ls.map Level.slot) :
    appendOrder e ls = ls := by
  rw [appendOrder, List.map_congr_left (g := id), List.map_id]
  intro l hl
  rw [if_neg]
  · rfl
  · intro heq
    exact h (List.mem_map.mpr ⟨l, hl, heq⟩)

/-- Appending to the one level in the slot adds the order and nothing else. -/
theorem levelOrders_appendOrder_perm {ls : List Level} (hnd : (ls.map Level.slot).Nodup)
    (hslot : e.slot ∈ ls.map Level.slot) :
    (levelOrders (appendOrder e ls)).Perm (e :: levelOrders ls) := by
  induction ls with
  | nil => simp at hslot
  | cons l ls ih =>
    rw [List.map_cons, List.nodup_cons] at hnd
    by_cases hl : l.slot = e.slot
    · have hrest : appendOrder e ls = ls := appendOrder_eq_self (hl ▸ hnd.1)
      have hcons : appendOrder e (l :: ls) = { l with orders := l.orders ++ [e] } :: ls := by
        rw [appendOrder_cons, hrest, if_pos hl]
      rw [hcons]
      simp only [levelOrders_cons, List.append_assoc, List.singleton_append]
      exact List.perm_middle
    · have hcons : appendOrder e (l :: ls) = l :: appendOrder e ls := by
        rw [appendOrder_cons, if_neg hl]
      have hmem : e.slot ∈ ls.map Level.slot := by
        rcases List.mem_cons.mp hslot with h | h
        · exact absurd h.symm hl
        · exact h
      rw [hcons]
      simp only [levelOrders_cons]
      exact ((ih hnd.2 hmem).append_left l.orders).trans List.perm_middle

theorem slotTaken_iff : k.slotTaken e = true ↔ e.slot ∈ k.levels.map Level.slot := by
  simp [slotTaken, List.any_eq_true, List.mem_map]

/-- The level a resting order makes when its slot is empty. -/
def newLevel (e : Entry) (lp : LevelPtr) : Level :=
  { ptr := lp, side := e.info.side, price := e.info.price, orders := [e] }

theorem rest_levels_of_taken (h : k.slotTaken e = true) (lp : LevelPtr) :
    (k.rest e lp).levels = appendOrder e k.levels := by
  unfold rest
  simp only [h, if_true, setCidOid_levels]
  exact (appendOrder_append e k.bids k.asks).symm

theorem rest_levels_perm (h : k.slotTaken e = false) (lp : LevelPtr) :
    (k.rest e lp).levels.Perm (newLevel e lp :: k.levels) := by
  unfold rest
  simp only [h, Bool.false_eq_true, if_false, setCidOid_levels]
  split
  · exact (insertLevel_perm (newLevel e lp) k.bids).append_right k.asks
  · exact ((insertLevel_perm (newLevel e lp) k.asks).append_left k.bids).trans List.perm_middle

theorem rest_entries_perm (h : k.Lists) (e : Entry) (lp : LevelPtr) :
    (k.rest e lp).entries.Perm (e :: k.entries) := by
  cases hst : k.slotTaken e with
  | true =>
    rw [entries, rest_levels_of_taken hst]
    exact levelOrders_appendOrder_perm h.slots (slotTaken_iff.mp hst)
  | false => exact (rest_levels_perm hst lp).flatMap_right Level.orders

theorem mem_rest_entries (h : k.Lists) {lp : LevelPtr} :
    e' ∈ (k.rest e lp).entries ↔ e' = e ∨ e' ∈ k.entries := by
  rw [(rest_entries_perm h e lp).mem_iff, List.mem_cons]

theorem rest_bids (e : Entry) (lp : LevelPtr) :
    (k.rest e lp).bids =
      if k.slotTaken e then appendOrder e k.bids
      else if e.info.side = .buy then insertLevel (newLevel e lp) k.bids else k.bids := by
  unfold rest newLevel
  split
  · rfl
  · split <;> rfl

theorem rest_asks (e : Entry) (lp : LevelPtr) :
    (k.rest e lp).asks =
      if k.slotTaken e then appendOrder e k.asks
      else if e.info.side = .buy then k.asks else insertLevel (newLevel e lp) k.asks := by
  unfold rest newLevel
  split
  · rfl
  · split <;> rfl

theorem appendOrder_pairwise {R : Level → Level → Prop}
    (hR : ∀ a b os os', R a b → R { a with orders := os } { b with orders := os' })
    (e : Entry) {ls : List Level} (h : ls.Pairwise R) : (appendOrder e ls).Pairwise R := by
  rw [appendOrder, List.pairwise_map]
  refine h.imp fun {a b} hab => ?_
  have ha : ∀ l : Level, (if l.slot = e.slot then { l with orders := l.orders ++ [e] } else l)
      = { l with orders := if l.slot = e.slot then l.orders ++ [e] else l.orders } := by
    intro l
    split <;> rfl
  rw [ha a, ha b]
  exact hR a b _ _ hab

/-- A level of another slot has another price. -/
theorem price_ne_of_free (hst : k.slotTaken e = false) (hl : l ∈ k.levels) :
    l.price ≠ e.info.price := by
  intro heq
  have : k.slotTaken e = true := slotTaken_iff.mpr (List.mem_map.mpr ⟨l, hl, by
    simp [Level.slot, Entry.slot, heq]⟩)
  rw [hst] at this
  cases this

theorem rest_lists (h : k.Lists) {lp : LevelPtr} (hside : e.info.side = .buy ∨ e.info.side = .sell)
    (hfresh : k.Fresh ⟨e.ptr, lp⟩) : (k.rest e lp).Lists := by
  have hperm := rest_entries_perm h e lp
  have horderPtrs : ((k.rest e lp).entries.map Entry.ptr).Nodup := by
    rw [(hperm.map Entry.ptr).nodup_iff, List.map_cons, List.nodup_cons]
    exact ⟨hfresh.order, h.orderPtrs⟩
  have hsides : ∀ e' ∈ (k.rest e lp).entries, e'.info.side = .buy ∨ e'.info.side = .sell := by
    intro e' he'
    rcases (mem_rest_entries h).mp he' with rfl | he'
    · exact hside
    · exact h.sides e' he'
  cases hst : k.slotTaken e with
  | true =>
    -- the order joins the level of its slot: prices, slots and cells of levels stay
    have hlevels := rest_levels_of_taken hst lp
    refine ⟨?_, ?_, ?_, ?_, ?_, ?_, horderPtrs, ?_, ?_, hsides⟩
    · intro l hl
      rw [rest_bids, hst, if_pos rfl] at hl
      obtain ⟨l₀, hl₀, rfl⟩ := mem_appendOrder.mp hl
      split <;> exact h.bids_side l₀ hl₀
    · intro l hl
      rw [rest_asks, hst, if_pos rfl] at hl
      obtain ⟨l₀, hl₀, rfl⟩ := mem_appendOrder.mp hl
      split <;> exact h.asks_side l₀ hl₀
    · rw [rest_bids, hst, if_pos rfl]
      exact appendOrder_pairwise (fun _ _ _ _ hab => hab) e h.bids_sorted
    · rw [rest_asks, hst, if_pos rfl]
      exact appendOrder_pairwise (fun _ _ _ _ hab => hab) e h.asks_sorted
    · rw [hlevels, appendOrder_map _ (fun _ _ => rfl)]
      exact h.slots
    · rw [hlevels, appendOrder_map _ (fun _ _ => rfl)]
      exact h.levelPtrs
    · intro l hl
      rw [hlevels] at hl
      obtain ⟨l₀, hl₀, rfl⟩ := mem_appendOrder.mp hl
      split
      · simp
      · exact h.nonempty l₀ hl₀
    · intro l hl e' he'
      rw [hlevels] at hl
      obtain ⟨l₀, hl₀, rfl⟩ := mem_appendOrder.mp hl
      split at he'
      · next hslot =>
        rw [if_pos hslot]
        rcases List.mem_append.mp he' with he' | he'
        · exact h.slot_eq l₀ hl₀ e' he'
        · rw [List.mem_singleton.mp he']
          exact hslot.symm
      · next hslot =>
        rw [if_neg hslot]
        exact h.slot_eq l₀ hl₀ e' he'
  | false =>
    -- the order makes a level of its own, in a slot no level had
    have hlevels := rest_levels_perm hst lp
    have hmem : ∀ l, l ∈ (k.rest e lp).levels ↔ l = newLevel e lp ∨ l ∈ k.levels := by
      intro l
      rw [hlevels.mem_iff, List.mem_cons]
    have hbids : ∀ l ∈ k.bids, l.price ≠ (newLevel e lp).price := fun l hl =>
      price_ne_of_free hst (by simp [levels, hl])
    have hasks : ∀ l ∈ k.asks, l.price ≠ (newLevel e lp).price := fun l hl =>
      price_ne_of_free hst (by simp [levels, hl])
    refine ⟨?_, ?_, ?_, ?_, ?_, ?_, horderPtrs, ?_, ?_, hsides⟩
    · intro l hl
      rw [rest_bids, hst, if_neg (by simp)] at hl
      split at hl
      · next hb =>
        rcases mem_insertLevel.mp hl with rfl | hl
        · exact hb
        · exact h.bids_side l hl
      · exact h.bids_side l hl
    · intro l hl
      rw [rest_asks, hst, if_neg (by simp)] at hl
      split at hl
      · exact h.asks_side l hl
      · next hb =>
        rcases mem_insertLevel.mp hl with rfl | hl
        · exact hside.resolve_left hb
        · exact h.asks_side l hl
    · rw [rest_bids, hst, if_neg (by simp)]
      split
      · next hb => exact insertLevel_sorted (Or.inl rfl) hb h.bids_sorted hbids
      · exact h.bids_sorted
    · rw [rest_asks, hst, if_neg (by simp)]
      split
      · exact h.asks_sorted
      · next hb =>
        exact insertLevel_sorted (Or.inr rfl) (hside.resolve_left hb) h.asks_sorted hasks
    · rw [(hlevels.map Level.slot).nodup_iff, List.map_cons, List.nodup_cons]
      refine ⟨fun hslot => ?_, h.slots⟩
      have := slotTaken_iff.mpr (show e.slot ∈ k.levels.map Level.slot from hslot)
      rw [hst] at this
      cases this
    · rw [(hlevels.map Level.ptr).nodup_iff, List.map_cons, List.nodup_cons]
      exact ⟨hfresh.level, h.levelPtrs⟩
    · intro l hl
      rcases (hmem l).mp hl with rfl | hl
      · simp [newLevel]
      · exact h.nonempty l hl
    · intro l hl e' he'
      rcases (hmem l).mp hl with rfl | hl
      · rw [List.mem_singleton.mp he']
        rfl
      · exact h.slot_eq l hl e' he'

@[simp] theorem rest_cidOidToOrder (e : Entry) (lp : LevelPtr) (c : ClientId) (o : OrderId) :
    (k.rest e lp).cidOidToOrder c o =
      if c = e.info.clientId ∧ o = e.info.clientOrderId then some e.ptr
      else k.cidOidToOrder c o := by
  unfold rest
  rw [setCidOid_cidOidToOrder]
  split
  · rfl
  · split
    · rfl
    · split <;> rfl

theorem rest_wf (h : k.WF) {lp : LevelPtr} (hside : e.info.side = .buy ∨ e.info.side = .sell)
    (hfresh : k.Fresh ⟨e.ptr, lp⟩) : (k.rest e lp).WF where
  toLists := rest_lists h.toLists hside hfresh
  table := by
    intro c o p hp
    rw [rest_cidOidToOrder] at hp
    split at hp
    · next hco =>
      refine ⟨e, (mem_rest_entries h.toLists).mpr (Or.inl rfl), Option.some.inj hp, ?_⟩
      exact ⟨hco.1.symm, hco.2.symm⟩
    · obtain ⟨e', he', hrest⟩ := h.table c o p hp
      exact ⟨e', (mem_rest_entries h.toLists).mpr (Or.inr he'), hrest⟩

/-! ## Events -/

end Book

/-- An event can happen in a book. -/
def Event.Ok (k : Book) : Event → Prop
  | .accepted _ => True
  | .fill _ f => f.passive ∈ k.entries ∧ 0 < f.exec ∧ f.exec ≤ f.passive.info.qty
  | .rest e lp _ =>
    (e.info.side = .buy ∨ e.info.side = .sell) ∧ k.Fresh ⟨e.ptr, lp⟩ ∧ 0 < e.info.qty
  | .cancelled e => e ∈ k.entries
  | .rejected _ _ => True

/-- The event puts no order into the book. -/
def Event.Settles : Event → Prop
  | .rest _ _ _ => False
  | _ => True

namespace Book

variable {k : Book} {s : Side} {e e' : Entry} {l : Level} {p : OrderPtr} {ev : Event}

/-- **Step lemma.** Every event that can happen keeps the invariant. -/
theorem apply_wf (h : k.WF) (hok : ev.Ok k) : (k.apply ev).WF := by
  cases ev with
  | accepted o =>
    exact ⟨⟨h.bids_side, h.asks_side, h.bids_sorted, h.asks_sorted, h.slots, h.levelPtrs,
      h.orderPtrs, h.nonempty, h.slot_eq, h.sides⟩, h.table⟩
  | fill a f =>
    apply fill_rule (P := Book.WF)
    · exact fun _ => remove_wf h hok.1
    · exact fun _ => setQty_wf h _ _
  | rest e lp q => exact rest_wf h hok.1 hok.2.1
  | cancelled e => exact remove_wf h hok
  | rejected c o => exact h

theorem apply_positive (h : k.WF) (hpos : k.Positive) (hok : ev.Ok k) :
    (k.apply ev).Positive := by
  cases ev with
  | accepted o => exact hpos
  | fill a f =>
    apply fill_rule (P := Book.Positive)
    · intro _ e he
      exact hpos e ((mem_remove_entries h.toLists hok.1).mp he).1
    · intro hne e he
      obtain ⟨e₀, he₀, rfl⟩ := mem_setQty_entries.mp he
      split
      · show 0 < f.passive.info.qty - f.exec
        grind
      · exact hpos e₀ he₀
  | rest e lp q =>
    intro e' he'
    rcases (mem_rest_entries h.toLists).mp he' with rfl | he'
    · exact hok.2.2
    · exact hpos e' he'
  | cancelled e =>
    intro e' he'
    exact hpos e' ((mem_remove_entries h.toLists hok).mp he').1
  | rejected c o => exact hpos

/-- `P` holds of every event, in the book it meets. -/
def Along (P : Book → Event → Prop) (k : Book) : List Event → Prop
  | [] => True
  | ev :: evs => P k ev ∧ (k.apply ev).Along P evs

theorem along_append {P : Book → Event → Prop} {evs evs' : List Event} :
    k.Along P (evs ++ evs') ↔ k.Along P evs ∧ (k.applyAll evs).Along P evs' := by
  induction evs generalizing k with
  | nil => simp [Along]
  | cons ev evs ih => simp [Along, ih, and_assoc]

theorem Along.and {P Q : Book → Event → Prop} {evs : List Event} (hP : k.Along P evs)
    (hQ : k.Along Q evs) : k.Along (fun k ev => P k ev ∧ Q k ev) evs := by
  induction evs generalizing k with
  | nil => trivial
  | cons ev evs ih => exact ⟨⟨hP.1, hQ.1⟩, ih hP.2 hQ.2⟩

theorem Along.of_forall {P : Book → Event → Prop} {evs : List Event}
    (h : ∀ ev ∈ evs, ∀ k, P k ev) : k.Along P evs := by
  induction evs generalizing k with
  | nil => trivial
  | cons ev evs ih =>
    exact ⟨h ev (by simp) k, ih fun ev' hev' => h ev' (List.mem_cons_of_mem _ hev')⟩

/-- **The induction rule for events**: a property of books that every event preserves which meets
`P` holds after any events that do. -/
theorem Along.induction {P : Book → Event → Prop} {I : Book → Prop} {evs : List Event}
    (step : ∀ k ev, I k → P k ev → I (k.apply ev)) (h : k.Along P evs) (hk : I k) :
    I (k.applyAll evs) := by
  induction evs generalizing k with
  | nil => exact hk
  | cons ev evs ih => exact ih h.2 (step k ev hk h.1)

/-- The events can happen one after the other. -/
abbrev OkAll (k : Book) (evs : List Event) : Prop := k.Along (fun k ev => ev.Ok k) evs

/-- **Run lemma**, over the events of a request. -/
theorem applyAll_wf {evs : List Event} (h : k.WF) (hok : k.OkAll evs) : (k.applyAll evs).WF :=
  hok.induction (fun _ _ h hok => apply_wf h hok) h

theorem applyAll_positive {evs : List Event} (h : k.WF) (hpos : k.Positive) (hok : k.OkAll evs) :
    (k.applyAll evs).Positive :=
  (hok.induction (I := fun k => k.WF ∧ k.Positive)
    (fun _ _ h hok => ⟨apply_wf h.1 hok, apply_positive h.1 h.2 hok⟩) ⟨h, hpos⟩).2

/-! ## The events of a request -/

/-- The cell of an order in a queue is met once. -/
theorem queue_ptrs_nodup (h : k.Lists) : ((k.queue s).map Entry.ptr).Nodup := by
  have hnd := h.orderPtrs
  simp only [entries, levels, levelOrders_append, List.map_append] at hnd
  have hparts := List.nodup_append.mp hnd
  cases s with
  | buy => exact hparts.2.1
  | sell => exact hparts.1
  | _ => exact List.nodup_nil

/-- Filling the first order of the queue up leaves the rest of the queue. -/
theorem fill_queue_of_full (h : k.Lists) {e : Entry} {es : List Entry} {f : Fill}
    (hq : k.queue s = e :: es) (hf : f.passive = e) (hfull : e.info.qty - f.exec = 0) :
    (k.fill f).queue s = es := by
  have hnd := queue_ptrs_nodup (s := s) h
  rw [hq, List.map_cons, List.nodup_cons] at hnd
  unfold fill
  rw [hf, if_pos hfull, remove, setCidOid_queue, filter_queue, hq]
  have hes : es.filterMap (dropping e.ptr) = es := by
    rw [List.filterMap_congr (g := some), List.filterMap_some]
    intro e' he'
    rw [dropping, if_neg]
    intro hp
    exact hnd.1 (hp ▸ List.mem_map.mpr ⟨e', he', rfl⟩)
  simp [dropping, hes]

/-- **The matches of an incoming order can happen one after the other.** Each is with the order
that then heads the queue. -/
theorem fills_ok (h : k.WF) (hpos : k.Positive) (price : Price) (a : OrderInfo) (left : Qty)
    (es : List Entry) (hq : k.queue s = es) :
    k.OkAll ((fills s price left es).map (.fill a)) := by
  induction es generalizing k left with
  | nil => trivial
  | cons e es ih =>
    have he : e ∈ k.entries := mem_entries_of_mem_queue (s := s) (by rw [hq]; simp)
    have hqty : 0 < e.info.qty := hpos e he
    rw [fills]
    split
    · trivial
    · next hgo =>
      have hleft : 0 < left := by
        simp only [Bool.or_eq_true, decide_eq_true_eq, not_or] at hgo
        grind
      simp only [List.map_cons]
      have hok : (Event.fill a ⟨e, if left < e.info.qty then left else e.info.qty,
          left - if left < e.info.qty then left else e.info.qty⟩).Ok k := by
        refine ⟨he, ?_, ?_⟩
        · show 0 < if left < e.info.qty then left else e.info.qty
          split <;> assumption
        · show (if left < e.info.qty then left else e.info.qty) ≤ e.info.qty
          split <;> grind
      refine ⟨hok, ?_⟩
      by_cases hlt : left < e.info.qty
      · -- the incoming order is used up: there is no further match
        have hzero : left - (if left < e.info.qty then left else e.info.qty) = 0 := by
          rw [if_pos hlt]
          grind
        rw [hzero]
        cases es with
        | nil => trivial
        | cons e' es => rw [fills]; simp [Along]
      · refine ih (apply_wf h hok) (apply_positive h hpos hok) _ ?_
        refine fill_queue_of_full h.toLists hq rfl ?_
        rw [if_neg hlt]
        grind

end Book

/-- A request the exchange accepts: a `NEW` of a proper side whose ids fit the id table, or any
`CANCEL`. -/
def MEClientRequest.Valid (r : MEClientRequest) : Prop :=
  (r.type = .new ∧ (r.side = .buy ∨ r.side = .sell) ∧ inTable r.clientId r.orderId = true) ∨
    r.type = .cancel

instance (r : MEClientRequest) : Decidable r.Valid := inferInstanceAs (Decidable (_ ∨ _))

/-- The `NEW` requests of a run. -/
def newRequests (rs : List MEClientRequest) : List MEClientRequest :=
  rs.filter fun r => r.type = .new

theorem newRequests_append (rs rs' : List MEClientRequest) :
    newRequests (rs ++ rs') = newRequests rs ++ newRequests rs' :=
  List.filter_append ..

namespace Book

variable {k : Book} {s : Side} {e e' : Entry} {l : Level} {p : OrderPtr} {ev : Event}

theorem matchEvents_ok (h : k.WF) (hpos : k.Positive) (r : MEClientRequest) :
    k.OkAll (k.matchEvents r) :=
  ⟨trivial, fills_ok (k := k.apply (.accepted (k.incoming r))) (apply_wf h trivial) hpos _ _ _ _ rfl⟩

/-! ## The events of a request -/

variable {cells : Cells} {r : MEClientRequest}

/-- What is left of a `NEW` rests with what is left of its quantity, under the next id and
priority. -/
theorem remainder_eq_some (h : k.remainder cells r = some e) :
    0 < leftOver r.qty (fills r.side r.price r.qty (k.queue r.side)) ∧ e.ptr = cells.order ∧
      e.info = { k.incoming r with
        qty := leftOver r.qty (fills r.side r.price r.qty (k.queue r.side))
        priority := (k.applyAll (k.matchEvents r)).priorityAt r.price } := by
  unfold remainder at h
  dsimp only at h
  split at h
  · next hleft =>
    obtain rfl := Option.some.inj h
    exact ⟨hleft, rfl, rfl⟩
  · cases h

theorem remainder_eq_none (h : k.remainder cells r = none) :
    leftOver r.qty (fills r.side r.price r.qty (k.queue r.side)) = 0 := by
  unfold remainder at h
  dsimp only at h
  split at h
  · cases h
  · next hzero => grind

theorem events_of_used_up (hnew : r.type = .new) (hrem : k.remainder cells r = none) :
    k.events cells r = k.matchEvents r := by
  unfold events
  simp only [hnew, hrem, List.append_nil]

theorem events_of_rest (hnew : r.type = .new) (hrem : k.remainder cells r = some e) :
    k.events cells r = k.matchEvents r ++ [.rest e cells.level r.qty] := by
  unfold events
  simp only [hnew, hrem]

theorem matchEvents_settle (k : Book) (r : MEClientRequest) : ∀ ev ∈ k.matchEvents r, ev.Settles := by
  intro ev hev
  rcases List.mem_cons.mp hev with rfl | hev
  · trivial
  · obtain ⟨f, -, rfl⟩ := List.mem_map.mp hev
    trivial

theorem events_settle (hnew : r.type ≠ .new) : ∀ ev ∈ k.events cells r, ev.Settles := by
  intro ev hev
  unfold events at hev
  split at hev
  · next h => exact absurd h hnew
  · dsimp only at hev
    split at hev <;>
    · obtain rfl := List.mem_singleton.mp hev
      trivial
  · cases hev

/-- **The rule for the events of a request.** What holds of every event that puts nothing into the book
holds of all events of a request, provided it holds of the one that puts in what is left of a `NEW`. -/
theorem events_along {P : Book → Event → Prop} (hsettle : ∀ k ev, ev.Settles → P k ev)
    (hrest : r.type = .new → ∀ e, k.remainder cells r = some e →
      P (k.applyAll (k.matchEvents r)) (.rest e cells.level r.qty)) :
    k.Along P (k.events cells r) := by
  have hmatch : k.Along P (k.matchEvents r) :=
    Along.of_forall fun ev hev k => hsettle k ev (matchEvents_settle _ r ev hev)
  by_cases hnew : r.type = .new
  · cases hrem : k.remainder cells r with
    | none =>
      rw [events_of_used_up hnew hrem]
      exact hmatch
    | some e =>
      rw [events_of_rest hnew hrem, along_append]
      exact ⟨hmatch, hrest hnew e hrem, trivial⟩
  · exact Along.of_forall fun ev hev k => hsettle k ev (events_settle hnew ev hev)

/-- **The events of a request can happen one after the other.** -/
theorem events_ok (h : k.WF) (hpos : k.Positive)
    (hfresh : r.type = .new → (k.applyAll (k.matchEvents r)).Fresh cells) (hr : r.Valid) :
    k.OkAll (k.events cells r) := by
  rcases hr with ⟨hnew, hside, -⟩ | hcancel
  · cases hrem : k.remainder cells r with
    | none =>
      rw [events_of_used_up hnew hrem]
      exact matchEvents_ok h hpos r
    | some e =>
      obtain ⟨hleft, hptr, hinfo⟩ := remainder_eq_some hrem
      rw [events_of_rest hnew hrem]
      refine along_append.mpr ⟨matchEvents_ok h hpos r, ⟨?_, ?_, ?_⟩, trivial⟩
      · rw [hinfo]
        exact hside
      · rw [hptr]
        exact hfresh hnew
      · rw [hinfo]
        exact hleft
  · simp only [events, hcancel]
    split
    · next e he => exact ⟨List.mem_of_find?_eq_some he, trivial⟩
    · exact ⟨trivial, trivial⟩

end Book

end TradingSystem
