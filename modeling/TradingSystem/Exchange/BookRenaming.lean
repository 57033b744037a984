import TradingSystem.Exchange.RepInsert
import TradingSystem.Exchange.RepMatch

/-!
# The cells a book lives in do not matter

`Book.rename` moves the orders and levels of a book to other cells. Resting, changing and removing an
order commutes with it, as long as the new cells are different ones, so two books that differ in their
cells alone go on to differ in their cells alone.
-/

namespace TradingSystem

open MEOrderBook (priceToIndex)
open Book (dropping requantifying)

/-- The order in another cell. -/
def Entry.rename (ρ : OrderPtr → OrderPtr) (e : Entry) : Entry := { e with ptr := ρ e.ptr }

/-- The level and its orders in other cells. -/
def Level.rename (ρ : OrderPtr → OrderPtr) (σ : LevelPtr → LevelPtr) (l : Level) : Level :=
  { l with ptr := σ l.ptr, orders := l.orders.map (Entry.rename ρ) }

variable {ρ ρ' : OrderPtr → OrderPtr} {σ σ' : LevelPtr → LevelPtr}

theorem levelOrders_rename (ls : List Level) :
    levelOrders (ls.map (Level.rename ρ σ)) = (levelOrders ls).map (Entry.rename ρ) := by
  induction ls with
  | nil => rfl
  | cons l ls ih =>
    rw [List.map_cons, levelOrders_cons, levelOrders_cons, List.map_append, ih]
    rfl

/-- Changing or dropping orders under their new cells. -/
theorem filterOrders_rename {f f' : Entry → Option Entry} (ls : List Level)
    (h : ∀ e ∈ levelOrders ls, f' (e.rename ρ) = (f e).map (Entry.rename ρ)) :
    filterOrders f' (ls.map (Level.rename ρ σ)) = (filterOrders f ls).map (Level.rename ρ σ) := by
  induction ls with
  | nil => rfl
  | cons l ls ih =>
    have hl : (l.orders.map (Entry.rename ρ)).filterMap f' =
        (l.orders.filterMap f).map (Entry.rename ρ) := by
      rw [List.filterMap_map, List.map_filterMap]
      apply List.filterMap_congr
      intro e he
      exact h e (by simp [he])
    have hls := ih fun e he => h e (by simp [he])
    rw [List.map_cons, filterOrders_cons, filterOrders_cons, hls]
    show (if (l.orders.map (Entry.rename ρ)).filterMap f' = [] then _ else _) = _
    rw [hl]
    by_cases hempty : l.orders.filterMap f = []
    · rw [hempty, if_pos rfl, List.map_nil, if_pos rfl]
    · rw [if_neg hempty, if_neg (by simpa using hempty), List.map_cons]
      congr 1
      unfold Level.rename
      exact congrArg (fun os => ({ l with ptr := σ l.ptr, orders := os } : Level)) hl

theorem insertLevel_rename (new : Level) (ls : List Level) :
    insertLevel (new.rename ρ σ) (ls.map (Level.rename ρ σ)) =
      (insertLevel new ls).map (Level.rename ρ σ) := by
  induction ls with
  | nil => rfl
  | cons l ls ih =>
    rw [List.map_cons, insertLevel, insertLevel, ih]
    show (if behind new.side new.price l.price = true then _ else _) = _
    split <;> rfl

theorem appendOrder_rename (e : Entry) (ls : List Level) :
    appendOrder (e.rename ρ) (ls.map (Level.rename ρ σ)) =
      (appendOrder e ls).map (Level.rename ρ σ) := by
  unfold appendOrder
  rw [List.map_map, List.map_map]
  apply List.map_congr_left
  intro l _
  simp only [Function.comp]
  show (if l.slot = e.slot then _ else _) = _
  by_cases hslot : l.slot = e.slot
  · rw [if_pos hslot, if_pos hslot]
    unfold Level.rename
    simp
  · rw [if_neg hslot, if_neg hslot]

namespace Book

variable {k : Book} {e : Entry} {p : OrderPtr}

/-- The book in other cells. -/
def rename (ρ : OrderPtr → OrderPtr) (σ : LevelPtr → LevelPtr) (k : Book) : Book :=
  { k with
    bids := k.bids.map (Level.rename ρ σ)
    asks := k.asks.map (Level.rename ρ σ)
    cidOidToOrder := fun c o => (k.cidOidToOrder c o).map ρ }

@[simp] theorem rename_levels : (k.rename ρ σ).levels = k.levels.map (Level.rename ρ σ) := by
  simp [levels, rename]

@[simp] theorem rename_entries : (k.rename ρ σ).entries = k.entries.map (Entry.rename ρ) := by
  rw [entries, rename_levels, levelOrders_rename]
  rfl

theorem rename_side (s : Side) : (k.rename ρ σ).side s = (k.side s).map (Level.rename ρ σ) := by
  unfold side rename
  split <;> rfl

theorem rename_slots : (k.rename ρ σ).levels.map Level.slot = k.levels.map Level.slot := by
  rw [rename_levels, List.map_map]
  rfl

/-- Only the cells in use matter. -/
theorem rename_congr (hk : k.WF) (hρ : ∀ p ∈ k.entries.map Entry.ptr, ρ' p = ρ p)
    (hσ : ∀ p ∈ k.levels.map Level.ptr, σ' p = σ p) : k.rename ρ' σ' = k.rename ρ σ := by
  have hlevel : ∀ l ∈ k.levels, l.rename ρ' σ' = l.rename ρ σ := by
    intro l hl
    unfold Level.rename
    rw [hσ _ (List.mem_map_of_mem hl)]
    congr 1
    apply List.map_congr_left
    intro e he
    unfold Entry.rename
    rw [hρ _ (List.mem_map_of_mem (mem_entries.mpr ⟨l, hl, he⟩))]
  have hbids : k.bids.map (Level.rename ρ' σ') = k.bids.map (Level.rename ρ σ) :=
    List.map_congr_left fun l hl => hlevel l (by simp [levels, hl])
  have hasks : k.asks.map (Level.rename ρ' σ') = k.asks.map (Level.rename ρ σ) :=
    List.map_congr_left fun l hl => hlevel l (by simp [levels, hl])
  have htable : (fun c o => (k.cidOidToOrder c o).map ρ') =
      fun c o => (k.cidOidToOrder c o).map ρ := by
    funext c o
    cases hp : k.cidOidToOrder c o with
    | none => rfl
    | some p =>
      obtain ⟨e, he, rfl, -⟩ := hk.table c o p hp
      rw [Option.map_some, Option.map_some, hρ _ (List.mem_map_of_mem he)]
  unfold rename
  rw [hbids, hasks, htable]

theorem rename_setCidOid (c : ClientId) (o : OrderId) (v : Option OrderPtr) :
    (k.setCidOid c o v).rename ρ σ = (k.rename ρ σ).setCidOid c o (v.map ρ) := by
  have htable : (fun c' o' => ((k.setCidOid c o v).cidOidToOrder c' o').map ρ) =
      ((k.rename ρ σ).setCidOid c o (v.map ρ)).cidOidToOrder := by
    funext c' o'
    rw [setCidOid_cidOidToOrder, setCidOid_cidOidToOrder]
    split <;> rfl
  exact congrArg (fun table => { k.rename ρ σ with cidOidToOrder := table }) htable

theorem rename_slotTaken : (k.rename ρ σ).slotTaken (e.rename ρ) = k.slotTaken e := by
  rw [Bool.eq_iff_iff, slotTaken_iff, slotTaken_iff, rename_slots]
  rfl

theorem rename_join (e : Entry) : (k.join e).rename ρ σ = (k.rename ρ σ).join (e.rename ρ) := by
  show _ = { k.rename ρ σ with
    bids := appendOrder (e.rename ρ) (k.bids.map (Level.rename ρ σ))
    asks := appendOrder (e.rename ρ) (k.asks.map (Level.rename ρ σ)) }
  rw [appendOrder_rename, appendOrder_rename]
  rfl

theorem rename_addLevel (new : Level) :
    (k.addLevel new).rename ρ σ = (k.rename ρ σ).addLevel (new.rename ρ σ) := by
  unfold addLevel
  rw [show (new.rename ρ σ).side = new.side from rfl]
  split
  · show _ = { k.rename ρ σ with
      bids := insertLevel (new.rename ρ σ) (k.bids.map (Level.rename ρ σ)) }
    rw [insertLevel_rename]
    rfl
  · show _ = { k.rename ρ σ with
      asks := insertLevel (new.rename ρ σ) (k.asks.map (Level.rename ρ σ)) }
    rw [insertLevel_rename]
    rfl

theorem rename_rest (e : Entry) (lp : LevelPtr) :
    (k.rest e lp).rename ρ σ = (k.rename ρ σ).rest (e.rename ρ) (σ lp) := by
  rw [rest_eq, rest_eq, rename_setCidOid, rename_slotTaken]
  split
  · rw [rename_join]
    rfl
  · rw [rename_addLevel]
    rfl

/-- Of the orders in the new cells, the one in a given cell is the one that was in the old cell. -/
theorem Lists.rename_ptr_iff (hk : (k.rename ρ σ).Lists) {e' : Entry} (he : e ∈ k.entries)
    (he' : e' ∈ k.entries) : ρ e'.ptr = ρ e.ptr ↔ e'.ptr = e.ptr := by
  constructor
  · intro hptr
    have hnd := hk.orderPtrs
    rw [rename_entries, List.map_map] at hnd
    rw [List.inj_on_of_nodup_map hnd he' he hptr]
  · intro hptr
    rw [hptr]

theorem rename_filter {f f' : Entry → Option Entry}
    (h : ∀ e ∈ k.entries, f' (e.rename ρ) = (f e).map (Entry.rename ρ)) :
    (k.filter f).rename ρ σ = (k.rename ρ σ).filter f' := by
  have hbids := filterOrders_rename (σ := σ) k.bids fun e he =>
    h e (by simp [entries, levels, he])
  have hasks := filterOrders_rename (σ := σ) k.asks fun e he =>
    h e (by simp [entries, levels, he])
  show _ = { k.rename ρ σ with
    bids := filterOrders f' (k.bids.map (Level.rename ρ σ))
    asks := filterOrders f' (k.asks.map (Level.rename ρ σ)) }
  rw [hbids, hasks]
  rfl

theorem rename_setQty (hk : (k.rename ρ σ).Lists) (he : e ∈ k.entries) (q : Qty) :
    (k.setQty e.ptr q).rename ρ σ = (k.rename ρ σ).setQty (ρ e.ptr) q := by
  apply rename_filter
  intro e' he'
  unfold requantifying
  show (if ρ e'.ptr = ρ e.ptr then _ else _) = _
  by_cases hptr : e'.ptr = e.ptr
  · rw [if_pos hptr, if_pos ((hk.rename_ptr_iff he he').mpr hptr)]
    rfl
  · rw [if_neg hptr, if_neg fun h => hptr ((hk.rename_ptr_iff he he').mp h)]
    rfl

theorem rename_remove (hk : (k.rename ρ σ).Lists) (he : e ∈ k.entries) :
    (k.remove e).rename ρ σ = (k.rename ρ σ).remove (e.rename ρ) := by
  unfold remove
  rw [rename_setCidOid]
  congr 1
  apply rename_filter
  intro e' he'
  unfold dropping
  show (if ρ e'.ptr = ρ e.ptr then _ else _) = _
  by_cases hptr : e'.ptr = e.ptr
  · rw [if_pos hptr, if_pos ((hk.rename_ptr_iff he he').mpr hptr)]
    rfl
  · rw [if_neg hptr, if_neg fun h => hptr ((hk.rename_ptr_iff he he').mp h)]
    rfl

/-- The two books differ in their cells alone. -/
def Twins (k k' : Book) : Prop := ∃ ρ σ, k' = k.rename ρ σ

namespace Twins

variable {k' : Book} {e' : Entry}

theorem refl (k : Book) : Twins k k := by
  refine ⟨id, id, ?_⟩
  have hlevel : Level.rename id id = id := by
    funext l
    unfold Level.rename
    rw [show Entry.rename id = id from rfl, List.map_id]
    rfl
  have htable : (fun c o => (k.cidOidToOrder c o).map id) = k.cidOidToOrder := by
    funext c o
    exact Option.map_id'
  unfold rename
  rw [hlevel, htable, List.map_id, List.map_id]

/-- The same order rests in both. -/
theorem rest (h : Twins k k') (hk : k.WF) (hinfo : e'.info = e.info) {lp lp' : LevelPtr}
    (hfresh : k.Fresh ⟨e.ptr, lp⟩) : Twins (k.rest e lp) (k'.rest e' lp') := by
  obtain ⟨ρ, σ, rfl⟩ := h
  -- the new cells stand for each other
  refine ⟨Function.update ρ e.ptr e'.ptr, Function.update σ lp lp', ?_⟩
  have hsame : k.rename (Function.update ρ e.ptr e'.ptr) (Function.update σ lp lp') =
      k.rename ρ σ := by
    apply rename_congr hk
    · intro p hp
      apply Function.update_of_ne
      rintro rfl
      exact hfresh.order hp
    · intro p hp
      apply Function.update_of_ne
      rintro rfl
      exact hfresh.level hp
  have hentry : e.rename (Function.update ρ e.ptr e'.ptr) = e' := by
    unfold Entry.rename
    rw [Function.update_self, ← hinfo]
  rw [rename_rest, hsame, hentry, Function.update_self]

/-- Both tables know the same ids. -/
theorem table_none_iff (h : Twins k k') (c : ClientId) (o : OrderId) :
    k'.cidOidToOrder c o = none ↔ k.cidOidToOrder c o = none := by
  obtain ⟨ρ, σ, rfl⟩ := h
  exact Option.map_eq_none_iff

/-- The order under an id is the same in both. -/
theorem find (h : Twins k k') (hk' : k'.Lists) {c : ClientId} {o : OrderId} (he : e ∈ k.entries)
    (hp : k.cidOidToOrder c o = some e.ptr) (he' : e' ∈ k'.entries)
    (hp' : k'.cidOidToOrder c o = some e'.ptr) :
    ∃ ρ σ, k' = k.rename ρ σ ∧ e' = e.rename ρ := by
  obtain ⟨ρ, σ, rfl⟩ := h
  refine ⟨ρ, σ, rfl, ?_⟩
  have hptr : e'.ptr = (e.rename ρ).ptr := by
    have hmap : (k.cidOidToOrder c o).map ρ = some e'.ptr := hp'
    rw [hp] at hmap
    exact (Option.some.inj hmap).symm
  have hmem : e.rename ρ ∈ (k.rename ρ σ).entries := by
    rw [rename_entries]
    exact List.mem_map_of_mem he
  exact hk'.eq_of_ptr he' hmem hptr

theorem setQty (h : Twins k k') (hk' : k'.Lists) {c : ClientId} {o : OrderId} (he : e ∈ k.entries)
    (hp : k.cidOidToOrder c o = some e.ptr) (he' : e' ∈ k'.entries)
    (hp' : k'.cidOidToOrder c o = some e'.ptr) (q : Qty) :
    Twins (k.setQty e.ptr q) (k'.setQty e'.ptr q) := by
  obtain ⟨ρ, σ, rfl, rfl⟩ := h.find hk' he hp he' hp'
  exact ⟨ρ, σ, (rename_setQty hk' he q).symm⟩

theorem remove (h : Twins k k') (hk' : k'.Lists) {c : ClientId} {o : OrderId} (he : e ∈ k.entries)
    (hp : k.cidOidToOrder c o = some e.ptr) (he' : e' ∈ k'.entries)
    (hp' : k'.cidOidToOrder c o = some e'.ptr) : Twins (k.remove e) (k'.remove e') := by
  obtain ⟨ρ, σ, rfl, rfl⟩ := h.find hk' he hp he' hp'
  exact ⟨ρ, σ, (rename_remove hk' he).symm⟩

end Twins

end Book

end TradingSystem
