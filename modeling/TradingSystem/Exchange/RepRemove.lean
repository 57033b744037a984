import TradingSystem.Exchange.BookRep

/-!
# Taking orders and levels out

`removeOrderAtPrice`, `removeOrder` and the writes of `match` and `cancel` to a resting order, each
against the lists: dropping an order drops its level exactly if it was the level's only order, and
changes nothing else.
-/

namespace TradingSystem

open MEOrderBook (priceToIndex)
open Book (dropping requantifying)

namespace MEOrderBook

variable {b : MEOrderBook} {k : Book} {os : List OrderPtr} {ls : List LevelPtr} {s : Side}
  {l : Level} {e : Entry}

/-! ## Taking a level out -/

/-- Unlinking a level moves its side's head on exactly if the level was the head. -/
theorem unlinkLevel_spec {pre post : List LevelPtr} {p : LevelPtr}
    (hring : b.ordersAtPricePool.Ring levelLinks (pre ++ p :: post))
    (hnd : (pre ++ p :: post).Nodup)
    (hhead : b.levelsHead (b.level p).side = (pre ++ p :: post).head?) :
    ∃ ls, b.unlinkLevel p = .ok ({ b with ordersAtPricePool := ls }.setLevelsHead (b.level p).side
        (pre ++ post).head?) ∧
      MemPool.Relinked levelLinks b.ordersAtPricePool ls (pre ++ p :: post) (pre ++ post) := by
  by_cases hne : pre ++ post = []
  · -- the only level of its side
    obtain ⟨rfl, rfl⟩ := List.append_eq_nil_iff.mp hne
    have hself : (b.level p).next = some p := (MemPool.ring_singleton_iff.mp hring).1
    refine ⟨b.ordersAtPricePool, ?_, MemPool.Relinked.refl Circular.nil _⟩
    unfold unlinkLevel
    rw [if_pos hself]
    rfl
  · obtain ⟨z, y, hz, hy, hzmem, hymem, hzp, hyp⟩ := hring.neighbours hnd hne
    have hz' : (b.level p).prev = some z := hz
    have hy' : (b.level p).next = some y := hy
    have hself : (b.level p).next ≠ some p := by
      rw [hy']
      simpa using hyp
    refine ⟨b.ordersAtPricePool.unlink levelLinks p z y, ?_,
      MemPool.unlink_relinked hring hnd hz hy hzmem hymem⟩
    have hheads : (if b.levelsHead (b.level p).side = some p then some y
        else b.levelsHead (b.level p).side) = (pre ++ post).head? := by
      rw [hhead]
      cases pre with
      | nil =>
        cases post with
        | nil => exact absurd rfl hne
        | cons c post =>
          have hc : some y = some c := by
            rw [← hy]
            exact Circular.next_head hring
          simpa using hc
      | cons c pre =>
        have hc : c ≠ p := by
          rintro rfl
          simp at hnd
        simp [hc]
    unfold unlinkLevel
    rw [if_neg hself]
    simp only [hz', hy', deref_some, bind, Except.bind, level_modifyLevel, hzp.symm, hyp.symm,
      if_false, levelsHead_modifyLevel, pure, Except.pure]
    rw [← hheads]
    split
    · rw [modifyLevel_setLevelsHead, modifyLevel_setLevelsHead]
      rfl
    · refine congrArg Except.ok (Eq.symm ?_)
      exact setLevelsHead_self
        (b := { b with ordersAtPricePool := b.ordersAtPricePool.unlink levelLinks p z y })

theorem removeOrderAtPrice_holds (h : Rep b k) (hk : k.Lists) (hl : l ∈ k.levels)
    (ho : l.orders = [e]) :
    ∃ b', b.removeOrderAtPrice l.ptr = .ok b' ∧
      Holds b' (k.filter (dropping e.ptr)) [e.ptr] [] ∧
      b'.ordersPool = b.ordersPool ∧ b'.logs = b.logs := by
  have hlrep := h.levelRep hl
  obtain ⟨pre, post, hside⟩ := List.append_of_mem (hk.mem_side hl)
  have hsrep := h.side l.side
  have hnd := hk.side_ptrs_nodup l.side
  rw [hside, List.map_append, List.map_cons] at hnd
  have hring := hsrep.ring
  rw [hside, List.map_append, List.map_cons] at hring
  have hhead := hsrep.head
  rw [hside, List.map_append, List.map_cons] at hhead
  have hlside : (b.level l.ptr).side = l.side := hlrep.side_eq
  obtain ⟨ls, hunlink, hrel⟩ := unlinkLevel_spec hring hnd (by rw [hlside]; exact hhead)
  rw [hlside, setLevelsHead_eq] at hunlink
  have hlive : ls.Live l.ptr :=
    (hrel.live _).mpr ((h.levelLive _).mpr (Or.inl (List.mem_map_of_mem hl)))
  obtain ⟨ls', hdealloc, hfreed⟩ := MemPool.deallocate_spec (hrel.ready h.levelReady) hlive
  have hdata : ∀ q, levelLinks.data (ls'.get q) = levelLinks.data (b.ordersAtPricePool.get q) := by
    intro q
    rw [hfreed.get_eq]
    exact hrel.data q
  have hprice : (ls.get l.ptr).price = l.price := by
    have := congrArg (fun d => d.2.1) ((hrel.data l.ptr).trans hlrep.data)
    exact this
  let nh := (pre.map Level.ptr ++ post.map Level.ptr).head?
  let b' : MEOrderBook := { b with
    ordersAtPricePool := ls'
    priceToOrdersAtPrice := Function.update b.priceToOrdersAtPrice l.slot none
    bidsByPrice := if l.side = .buy then nh else b.bidsByPrice
    asksByPrice := if l.side = .buy then b.asksByPrice else nh }
  have hheads : ∀ t, b'.levelsHead t = if (t = .buy ↔ l.side = .buy) then nh else b.levelsHead t := by
    intro t
    have := levelsHead_setLevelsHead (b := b) (s := l.side) t nh
    rw [setLevelsHead_eq] at this
    exact this
  refine ⟨b', ?_, ?_, rfl, rfl⟩
  · unfold removeOrderAtPrice
    rw [hunlink]
    simp only [bind, Except.bind, level, hprice, hdealloc, pure, Except.pure]
    rfl
  · have hmem : ∀ l', l' ∈ (k.filter (dropping e.ptr)).levels ↔ l' ∈ k.levels ∧ l' ≠ l :=
      fun _ => hk.mem_levels_alone hl ho
    refine ⟨h.ticker, h.nextOrderId, h.cid, ?_, ?_, hfreed.ready,
      (hfreed.numCells.trans hrel.numCells).trans h.levelCells, ?_, h.orderReady, h.orderCells, ?_⟩
    · -- the side of the level has lost it, the other is as it was
      intro t
      rw [hheads]
      split
      · next ht =>
        have hkt := hk.filter_side_alone hl ho ((Book.side_congr ht).trans hside)
        rw [hkt]
        refine ⟨by rw [List.map_append], ?_, ?_⟩
        · rw [List.map_append]
          exact Circular.congr hrel.ring (fun q _ => by rw [hfreed.get_eq])
            (fun q _ => by rw [hfreed.get_eq])
        · intro l' hl'
          rw [← hkt] at hl'
          have hl'k := ((hmem l').mp (Book.mem_levels_of_mem_side hl')).1
          exact (h.levelRep hl'k).congr (hdata _) (fun _ _ => rfl)
      · next ht =>
        have hkt := hk.filter_side_other hl (by simp [ho] : e ∈ l.orders) (hk.not_mem_side hl ht)
        rw [hkt]
        have hframe : ∀ l' ∈ k.side t, ls'.get l'.ptr = b.ordersAtPricePool.get l'.ptr := by
          intro l' hl'
          rw [hfreed.get_eq]
          refine hrel.frame _ fun hmem' => ?_
          have hl's : l'.ptr ∈ (k.side l.side).map Level.ptr := by
            rw [hside, List.map_append, List.map_cons]
            exact hmem'
          exact hk.side_ptr_disjoint ht hl's (List.mem_map_of_mem hl')
        exact (h.side t).congr hframe (fun _ _ _ _ => rfl)
    · intro i p
      show Function.update b.priceToOrdersAtPrice l.slot none i = some p ↔ _
      by_cases hi : i = l.slot
      · subst hi
        simp only [Function.update_self, reduceCtorEq, false_iff, not_exists, not_and]
        intro l' hl' hslot
        have := (hmem l').mp hl'
        exact absurd (hk.level_eq_of_slot this.1 hl hslot) this.2
      · rw [Function.update_of_ne hi, h.table]
        constructor
        · rintro ⟨l', hl', rfl, rfl⟩
          refine ⟨l', (hmem l').mpr ⟨hl', ?_⟩, rfl, rfl⟩
          rintro rfl
          exact hi rfl
        · rintro ⟨l', hl', rfl, rfl⟩
          exact ⟨l', ((hmem l').mp hl').1, rfl, rfl⟩
    · intro p
      rw [hfreed.live_iff, hrel.live, h.levelLive]
      simp only [List.mem_map, List.not_mem_nil, or_false, hmem]
      constructor
      · rintro ⟨⟨l', hl', rfl⟩, hne⟩
        refine ⟨l', ⟨hl', ?_⟩, rfl⟩
        rintro rfl
        exact hne rfl
      · rintro ⟨l', ⟨hl', hne⟩, rfl⟩
        exact ⟨⟨l', hl', rfl⟩, fun hptr => hne (hk.level_eq_of_ptr hl' hl hptr)⟩
    · intro p
      rw [h.orderLive, Book.mem_entries_ptr_dropping]
      have hep : e.ptr ∈ k.entries.map Entry.ptr :=
        List.mem_map_of_mem (Book.mem_entries.mpr ⟨l, hl, by simp [ho]⟩)
      simp only [List.not_mem_nil, or_false, List.mem_singleton]
      grind

/-! ## Taking an order out -/

/-- Unlinking an order that shares its level moves the level's head on exactly if the order was the
head. -/
theorem unlinkOrder_spec {pre post : List Entry} (h : Rep b k) (hk : k.Lists) (hl : l ∈ k.levels)
    (ho : l.orders = pre ++ e :: post) (hne : pre ++ post ≠ []) :
    ∃ os ls, b.unlinkOrder e.ptr = .ok { b with ordersPool := os, ordersAtPricePool := ls } ∧
      MemPool.Relinked orderLinks b.ordersPool os (l.orders.map Entry.ptr)
        ((pre ++ post).map Entry.ptr) ∧
      (∀ q, q ≠ l.ptr → ls.get q = b.ordersAtPricePool.get q) ∧
      (∃ hd, ls.get l.ptr = { b.ordersAtPricePool.get l.ptr with ordersHead := hd } ∧
        hd = ((pre ++ post).map Entry.ptr).head?) ∧
      ls.Ready ∧ ls.numCells = b.ordersAtPricePool.numCells ∧
      ∀ q, ls.Live q ↔ b.ordersAtPricePool.Live q := by
  have hlrep := h.levelRep hl
  have hel : e ∈ l.orders := by simp [ho]
  have hring := hlrep.ring
  have hnd := hk.ptrs_nodup hl
  have hheadl := hlrep.head_eq
  have hprice : (b.order e.ptr).price = e.info.price :=
    congrArg OrderInfo.price (h.order_eq (Book.mem_entries.mpr ⟨l, hl, hel⟩))
  have hlevel : b.getOrderAtPrice (b.order e.ptr).price = some l.ptr := by
    rw [hprice]
    exact h.getOrderAtPrice_eq hl (hk.slot_eq l hl e hel)
  rw [ho, List.map_append, List.map_cons] at hring hnd hheadl
  have hne' : pre.map Entry.ptr ++ post.map Entry.ptr ≠ [] := by
    rw [← List.map_append]
    simpa only [ne_eq, List.map_eq_nil_iff] using hne
  obtain ⟨z, y, hz, hy, hzmem, hymem, hzp, hyp⟩ := hring.neighbours hnd hne'
  have hrel := MemPool.unlink_relinked hring hnd hz hy hzmem hymem
  have hz' : (b.order e.ptr).prevOrder = some z := hz
  have hy' : (b.order e.ptr).nextOrder = some y := hy
  have hself : ¬ ((b.order e.ptr).nextOrder = some e.ptr ∧
      (b.order e.ptr).prevOrder = some e.ptr) := by
    rw [hy']
    rintro ⟨hcontra, -⟩
    exact hyp (Option.some.inj hcontra)
  refine ⟨b.ordersPool.unlink orderLinks e.ptr z y,
    if some e.ptr = (b.level l.ptr).ordersHead then
      b.ordersAtPricePool.modify l.ptr fun l => { l with ordersHead := some y }
    else b.ordersAtPricePool, ?_, ?_, ?_, ?_, ?_, ?_, ?_⟩
  · unfold unlinkOrder
    rw [if_neg hself]
    simp only [hlevel, hz', hy', deref_some, bind, Except.bind, order_modifyOrder,
      level_modifyOrder, hzp.symm, hyp.symm, if_false, pure, Except.pure]
    refine congrArg Except.ok ?_
    split
    · show ({ b with ordersPool := _, ordersAtPricePool := _ } : MEOrderBook) = _
      congr 1
      exact MemPool.modify_comm (f := orderLinks.setPrev none) (g := orderLinks.setNext none) _
        (Or.inr fun _ => rfl)
    · show ({ b with ordersPool := _ } : MEOrderBook) = _
      congr 1
      exact MemPool.modify_comm (f := orderLinks.setPrev none) (g := orderLinks.setNext none) _
        (Or.inr fun _ => rfl)
  · rw [ho, List.map_append, List.map_append, List.map_cons]
    exact hrel
  · intro q hq
    split
    · exact MemPool.get_modify_of_ne _ _ hq
    · rfl
  · rw [List.map_append]
    split
    · next hhd =>
      refine ⟨some y, MemPool.get_modify_self _ _ _, ?_⟩
      -- the order was the head: its successor is the new one
      cases pre with
      | nil =>
        cases post with
        | nil => exact absurd rfl hne
        | cons c post =>
          rw [← hy]
          exact Circular.next_head hring
      | cons c pre =>
        have hce : c.ptr = e.ptr := by
          have := hhd.trans hheadl
          simpa using this.symm
        simp [hce] at hnd
    · next hhd =>
      refine ⟨_, rfl, ?_⟩
      cases pre with
      | nil => exact absurd hheadl.symm hhd
      | cons c pre => exact hheadl
  · split
    · exact h.levelReady.modify _ _
    · exact h.levelReady
  · split <;> rfl
  · intro q
    split
    · exact MemPool.live_modify _ _ _ _
    · rfl

theorem unlinkOrder_holds (h : Rep b k) (hk : k.Lists) (he : e ∈ k.entries) :
    ∃ b', b.unlinkOrder e.ptr = .ok b' ∧ Holds b' (k.filter (dropping e.ptr)) [e.ptr] [] ∧
      (b'.order e.ptr).toOrderInfo = e.info ∧ b'.logs = b.logs := by
  obtain ⟨l, hl, hel⟩ := Book.mem_entries.mp he
  obtain ⟨pre, post, ho⟩ := List.append_of_mem hel
  by_cases hne : pre ++ post = []
  · -- the order is alone: its level goes with it
    obtain ⟨rfl, rfl⟩ := List.append_eq_nil_iff.mp hne
    have hring := (h.levelRep hl).ring
    rw [ho, List.nil_append, List.map_singleton, MemPool.ring_singleton_iff] at hring
    have hself : (b.order e.ptr).nextOrder = some e.ptr ∧
        (b.order e.ptr).prevOrder = some e.ptr := hring
    obtain ⟨b', hremove, hholds, hpool, hlogs⟩ := removeOrderAtPrice_holds h hk hl ho
    have hprice : (b.order e.ptr).price = e.info.price := congrArg OrderInfo.price (h.order_eq he)
    refine ⟨b', ?_, hholds, ?_, hlogs⟩
    · unfold unlinkOrder
      rw [if_pos hself, hprice, h.getOrderAtPrice_eq hl (hk.slot_eq l hl e hel)]
      exact hremove
    · rw [order, hpool]
      exact h.order_eq he
  · obtain ⟨os, ls, hunlink, hrel, hframe, ⟨hd, hcell, hhd⟩, hready, hcells, hlive⟩ :=
      unlinkOrder_spec h hk hl ho hne
    have hdrop : l.orders.filterMap (dropping e.ptr) = pre ++ post := by
      have hnd := hk.ptrs_nodup hl
      rw [ho, List.map_append, List.map_cons, List.nodup_middle, List.nodup_cons,
        List.mem_append, not_or] at hnd
      rw [ho, List.filterMap_append, List.filterMap_cons, Book.filterMap_dropping_self hnd.1.1,
        Book.filterMap_dropping_self hnd.1.2]
      simp [dropping]
    have hmore : l.orders.filterMap (dropping e.ptr) ≠ [] := by rwa [hdrop]
    have hlinks : ∀ l' ∈ k.levels, (ls.get l'.ptr).next = (b.ordersAtPricePool.get l'.ptr).next ∧
        (ls.get l'.ptr).prev = (b.ordersAtPricePool.get l'.ptr).prev := by
      intro l' hl'
      by_cases hptr : l'.ptr = l.ptr
      · rw [hptr, hcell]
        exact ⟨rfl, rfl⟩
      · rw [hframe _ hptr]
        exact ⟨rfl, rfl⟩
    refine ⟨_, hunlink, ?_, ?_, rfl⟩
    · refine ⟨h.ticker, h.nextOrderId, h.cid, ?_, ?_, hready, hcells.trans h.levelCells, ?_,
        hrel.ready h.orderReady, hrel.numCells.trans h.orderCells, ?_⟩
      · intro t
        rw [hk.filter_side_more hl hmore hel]
        refine (h.side t).map _ (fun _ => rfl)
          (fun l' hl' => (hlinks l' (Book.mem_levels_of_mem_side hl')).1)
          (fun l' hl' => (hlinks l' (Book.mem_levels_of_mem_side hl')).2) ?_
        intro l' hl' hrep
        have hl'k := Book.mem_levels_of_mem_side hl'
        by_cases hll : l' = l
        · -- the order's own level
          subst hll
          refine ⟨?_, ?_, ?_⟩
          · show levelLinks.data (ls.get l'.ptr) = _
            rw [hcell, hhd, hdrop]
            exact Prod.ext hrep.side_eq (Prod.ext hrep.price_eq rfl)
          · show os.Ring orderLinks ((l'.orders.filterMap (dropping e.ptr)).map Entry.ptr)
            rw [hdrop]
            exact hrel.ring
          · intro e' he'
            obtain ⟨e₀, he₀, hd₀⟩ := List.mem_filterMap.mp he'
            have hsame : e₀ = e' := by
              unfold Book.dropping at hd₀
              split at hd₀
              · cases hd₀
              · exact Option.some.inj hd₀
            subst hsame
            exact (hrel.data _).trans (hrep.info e₀ he₀)
        · -- another level: none of its cells was written
          have hptr : l'.ptr ≠ l.ptr := fun heq => hll (hk.level_eq_of_ptr hl'k hl heq)
          rw [Book.filterMap_dropping_self (hk.not_mem_of_ne hl hel hl'k hll)]
          refine hrep.congr (by rw [hframe _ hptr]) ?_
          intro p hp
          exact hrel.frame p (hk.ptr_disjoint hl'k hl hll hp)
      · intro i p
        rw [show ({ b with ordersPool := os, ordersAtPricePool := ls } :
          MEOrderBook).priceToOrdersAtPrice = b.priceToOrdersAtPrice from rfl, h.table]
        simp only [hk.mem_levels_more hl hmore hel]
        constructor
        · rintro ⟨l', hl', rfl, rfl⟩
          exact ⟨_, ⟨l', hl', rfl⟩, rfl, rfl⟩
        · rintro ⟨_, ⟨l', hl', rfl⟩, rfl, rfl⟩
          exact ⟨l', hl', rfl, rfl⟩
      · intro p
        rw [hlive, h.levelLive]
        simp only [List.mem_map, hk.mem_levels_more hl hmore hel]
        grind
      · intro p
        rw [hrel.live, h.orderLive, Book.mem_entries_ptr_dropping]
        have hep : e.ptr ∈ k.entries.map Entry.ptr := List.mem_map_of_mem he
        simp only [List.not_mem_nil, or_false, List.mem_singleton]
        grind
    · exact (hrel.data _).trans (h.order_eq he)

/-- **`removeOrder` takes the order out of the book** and does nothing else. -/
theorem removeOrder_refines (h : Rep b k) (hk : k.Lists) (he : e ∈ k.entries) :
    ∃ b', b.removeOrder e.ptr = .ok b' ∧ Rep b' (k.remove e) ∧ b'.logs = b.logs := by
  obtain ⟨b₁, hunlink, hholds, hinfo, hlogs⟩ := unlinkOrder_holds h hk he
  have hlive : b₁.ordersPool.Live e.ptr := (hholds.orderLive _).mpr (Or.inr (by simp))
  obtain ⟨os, hdealloc, hfreed⟩ := MemPool.deallocate_spec hholds.orderReady hlive
  have hget : ∀ p, os.get p = b₁.ordersPool.get p := hfreed.get_eq
  refine ⟨{ b₁.setCidOid e.info.clientId e.info.clientOrderId none with ordersPool := os },
    ?_, ?_, hlogs⟩
  · unfold removeOrder
    rw [hunlink]
    have hc : (b₁.order e.ptr).clientId = e.info.clientId := congrArg OrderInfo.clientId hinfo
    have ho : (b₁.order e.ptr).clientOrderId = e.info.clientOrderId :=
      congrArg OrderInfo.clientOrderId hinfo
    simp only [bind, Except.bind, hc, ho]
    rw [show (b₁.setCidOid e.info.clientId e.info.clientOrderId none).ordersPool = b₁.ordersPool
      from rfl, hdealloc]
    rfl
  · refine ⟨hholds.ticker, hholds.nextOrderId, ?_, ?_, hholds.table, hholds.levelReady,
      hholds.levelCells, hholds.levelLive, hfreed.ready, hfreed.numCells.trans hholds.orderCells, ?_⟩
    · show (b₁.setCidOid _ _ _).cidOidToOrder = (Book.setCidOid _ _ _ _).cidOidToOrder
      unfold setCidOid Book.setCidOid
      rw [hholds.cid]
    · intro t
      exact (hholds.side t).congr (fun _ _ => rfl) (fun _ _ p _ => hget p)
    · intro p
      have hlivep := hholds.orderLive p
      rw [Book.mem_entries_ptr_dropping] at hlivep
      show os.Live p ↔ p ∈ (k.filter (dropping e.ptr)).entries.map Entry.ptr ∨ p ∈ []
      rw [hfreed.live_iff, hlivep, Book.mem_entries_ptr_dropping]
      simp only [List.mem_singleton, List.not_mem_nil]
      tauto

end MEOrderBook

end TradingSystem
