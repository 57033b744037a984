import TradingSystem.Exchange.RepRemove

/-!
# Putting orders and levels in

`AddOrderAtPrice` walks the list of levels to the first one the new level does not belong behind and
links the new level in front of it; where there is none the walk ends at the head again, and in
front of the head of a circle is behind its tail. So the new list is `insertLevel` of the old one in
every case (`addOrderAtPrice_holds`). `AddOrderToPriceLevel` is `Book.rest`
(`addOrderToPriceLevel_refines`).
-/

namespace TradingSystem

open MEOrderBook (priceToIndex inTable)

/-! ## Resting, on the lists -/

namespace Book

variable {k : Book} {s t : Side} {e : Entry} {l new : Level}

/-- Put a new level into the list of its side. -/
def addLevel (k : Book) (new : Level) : Book :=
  if new.side = .buy then { k with bids := insertLevel new k.bids }
  else { k with asks := insertLevel new k.asks }

/-- Put an order at the tail of the level in its slot. -/
def join (k : Book) (e : Entry) : Book :=
  { k with bids := appendOrder e k.bids, asks := appendOrder e k.asks }

theorem rest_eq (k : Book) (e : Entry) (lp : LevelPtr) :
    k.rest e lp = (if k.slotTaken e then k.join e else k.addLevel (newLevel e lp)).setCidOid
      e.info.clientId e.info.clientOrderId (some e.ptr) := rfl

theorem addLevel_side (k : Book) (new : Level) (t : Side) :
    (k.addLevel new).side t =
      if (t = .buy ↔ new.side = .buy) then insertLevel new (k.side t) else k.side t := by
  unfold addLevel side
  by_cases hn : new.side = .buy <;> by_cases ht : t = .buy <;> simp [hn, ht]

theorem addLevel_eq (k : Book) (new : Level) :
    k.addLevel new = { k with
      bids := if new.side = .buy then insertLevel new k.bids else k.bids
      asks := if new.side = .buy then k.asks else insertLevel new k.asks } := by
  unfold addLevel
  split <;> rfl

theorem mem_addLevel : l ∈ (k.addLevel new).levels ↔ l = new ∨ l ∈ k.levels := by
  rw [mem_levels, mem_levels, addLevel_side, addLevel_side]
  by_cases hn : new.side = .buy <;> simp [hn, mem_insertLevel] <;> tauto

theorem addLevel_entries_perm (k : Book) (new : Level) :
    (k.addLevel new).entries.Perm (new.orders ++ k.entries) := by
  have hperm : (k.addLevel new).levels.Perm (new :: k.levels) := by
    unfold addLevel
    split
    · exact (insertLevel_perm new k.bids).append_right k.asks
    · exact ((insertLevel_perm new k.asks).append_left k.bids).trans List.perm_middle
  exact hperm.flatMap_right Level.orders

theorem join_side (k : Book) (e : Entry) (t : Side) :
    (k.join e).side t = appendOrder e (k.side t) := by
  unfold join side
  split <;> rfl

theorem join_levels (k : Book) (e : Entry) : (k.join e).levels = appendOrder e k.levels :=
  (appendOrder_append e k.bids k.asks).symm

end Book

namespace MEOrderBook

variable {b : MEOrderBook} {k : Book} {os : List OrderPtr} {ls : List LevelPtr} {s : Side}
  {l new : Level} {e : Entry}

/-! ## Finding the spot -/

/-- **The walk stops at the first level the new one does not belong behind**, or back at the head
`c`. By induction on the levels still ahead. -/
theorem walk_spec (nw : MEOrdersAtPrice) (c : LevelPtr) (rest : List Level) (fuel : Nat)
    (hchain : (rest.map Level.ptr ++ [c]).IsChain
      (Link (fun q => (b.level q).next) fun q => (b.level q).prev))
    (hc : c ∉ rest.map Level.ptr)
    (hprice : ∀ l ∈ rest, (b.level l.ptr).price = l.price) (hfuel : rest.length + 1 < fuel) :
    b.walk nw c fuel ((rest.map Level.ptr).headD c) true =
      .ok (((rest.dropWhile fun l => behind nw.side nw.price l.price).map Level.ptr).headD c) := by
  induction rest generalizing fuel with
  | nil =>
    obtain ⟨fuel, rfl⟩ := Nat.exists_eq_succ_of_ne_zero (by omega : fuel ≠ 0)
    simp [walk]
  | cons l rest ih =>
    obtain ⟨fuel, rfl⟩ := Nat.exists_eq_succ_of_ne_zero (by omega : fuel ≠ 0)
    have hlc : l.ptr ≠ c := fun heq => hc (by simp [heq])
    have hmove : moveCond nw (b.level l.ptr) = behind nw.side nw.price l.price := by
      rw [← hprice l (by simp)]
      rfl
    rw [List.map_cons, List.headD_cons, walk, if_pos (by simp [hlc]), hmove]
    by_cases hb : behind nw.side nw.price l.price = true
    · -- go on to the next level
      rw [if_pos hb, List.dropWhile_cons, if_pos hb]
      have hnext : (b.level l.ptr).next = some ((rest.map Level.ptr).headD c) := by
        cases rest with
        | nil => exact hchain.rel.1
        | cons l' rest => exact hchain.rel.1
      rw [hnext]
      exact ih fuel (List.isChain_cons.mp hchain).2 (fun hmem => hc (List.mem_cons_of_mem _ hmem))
        (fun l' hl' => hprice l' (List.mem_cons_of_mem _ hl')) (by simpa using hfuel)
    · -- the spot is found
      rw [if_neg hb, List.dropWhile_cons, if_neg hb]
      obtain ⟨fuel, rfl⟩ := Nat.exists_eq_succ_of_ne_zero (by
        simp only [List.length_cons] at hfuel
        omega : fuel ≠ 0)
      simp [walk]

/-- The spot in a list of levels is the first one the new level does not belong behind, or the
head. -/
theorem findSpot_spec (nw : MEOrdersAtPrice) {rest : List Level}
    (hring : b.ordersAtPricePool.Ring levelLinks ((l :: rest).map Level.ptr))
    (hnd : ((l :: rest).map Level.ptr).Nodup)
    (hprice : ∀ l' ∈ l :: rest, (b.level l'.ptr).price = l'.price)
    (hfuel : rest.length < b.ordersAtPricePool.numCells) :
    b.findSpot nw l.ptr =
      .ok ((((l :: rest).dropWhile fun l => behind nw.side nw.price l.price).map
        Level.ptr).headD l.ptr) := by
  have hmove : ∀ l' ∈ l :: rest,
      moveCond nw (b.level l'.ptr) = behind nw.side nw.price l'.price := by
    intro l' hl'
    rw [← hprice l' hl']
    rfl
  rw [List.map_cons, List.nodup_cons] at hnd
  unfold findSpot
  rw [hmove l (by simp), List.dropWhile_cons]
  by_cases hb : behind nw.side nw.price l.price = true
  · rw [if_pos hb, if_pos hb]
    have hchain := Circular.cons_iff.mp hring
    have hnext : (b.level l.ptr).next = some ((rest.map Level.ptr).headD l.ptr) := by
      cases rest with
      | nil => exact hchain.rel.1
      | cons l' rest => exact hchain.rel.1
    simp only [hnext, deref_some, bind, Except.bind]
    have hwalk := walk_spec (b := b) nw l.ptr rest (b.ordersAtPricePool.numCells + 2)
      (List.isChain_cons.mp hchain).2 hnd.1
      (fun l' hl' => hprice l' (List.mem_cons_of_mem _ hl')) (by omega)
    cases rest with
    | nil =>
      -- the head is the only level: one step leads back to it
      rw [List.map_nil, List.headD_nil, hmove l (by simp), hb]
      exact hwalk
    | cons l' rest =>
      rw [List.map_cons, List.headD_cons] at hwalk ⊢
      rw [hmove l' (by simp)]
      by_cases hb' : behind nw.side nw.price l'.price = true
      · rw [hb']
        exact hwalk
      · -- the second level is the spot: the loop is not entered
        rw [List.dropWhile_cons, if_neg hb', Bool.eq_false_iff.mpr hb']
        simp [walk]
  · rw [if_neg hb, if_neg hb]
    rfl

/-! ## Linking a level in -/

/-- `linkBefore` is the edit `linkIn`, with its writes in another order. -/
theorem linkBefore_eq {n c z : LevelPtr} (hz : (b.level c).prev = some z)
    (hc : (b.level z).next = some c) (hnz : n ≠ z) :
    b.linkBefore n c =
      .ok { b with ordersAtPricePool := b.ordersAtPricePool.linkIn levelLinks n z c } := by
  unfold linkBefore
  simp only [hz, hc, deref_some, bind, Except.bind, level_modifyLevel, hnz.symm, if_false, pure,
    Except.pure]
  refine congrArg Except.ok ?_
  show ({ b with ordersAtPricePool := _ } : MEOrderBook) = _
  congr 1
  -- the last write, to `z`, comes first in `linkIn`
  have hcomm := fun p : MemPool MEOrdersAtPrice => MemPool.modify_comm (i := z) (j := n)
    (f := levelLinks.setNext (some n)) (g := levelLinks.setNext (some c)) p (Or.inl hnz.symm)
  have hcomm' := fun p : MemPool MEOrdersAtPrice => MemPool.modify_comm (i := z) (j := n)
    (f := levelLinks.setNext (some n)) (g := levelLinks.setPrev (some z)) p (Or.inl hnz.symm)
  have hcomm'' := fun p : MemPool MEOrdersAtPrice => MemPool.modify_comm (i := z) (j := c)
    (f := levelLinks.setNext (some n)) (g := levelLinks.setPrev (some n)) p (Or.inr fun _ => rfl)
  unfold MemPool.linkIn
  rw [hcomm, hcomm', hcomm'']
  rfl

/-- Linking a new level in at its spot gives the circle of `insertLevel`. -/
theorem linkBefore_spec {rest : List Level} {A B : List Level} {spot : LevelPtr}
    (hsplit : l :: rest = A ++ B) (hspot : (B.map Level.ptr).headD l.ptr = spot)
    (hring : b.ordersAtPricePool.Ring levelLinks ((l :: rest).map Level.ptr))
    (hnd : ((l :: rest).map Level.ptr).Nodup) (hnew : new.ptr ∉ (l :: rest).map Level.ptr) :
    ∃ ls, b.linkBefore new.ptr spot = .ok { b with ordersAtPricePool := ls } ∧
      MemPool.Relinked levelLinks b.ordersAtPricePool ls ((A ++ new :: B).map Level.ptr)
        ((A ++ new :: B).map Level.ptr) := by
  have hmem : spot ∈ (l :: rest).map Level.ptr := by
    subst hspot
    cases B with
    | nil => simp
    | cons y B => rw [hsplit]; simp
  obtain ⟨z, hzm, hz, hzs⟩ := Circular.exists_prev hring hmem
  have hnz : new.ptr ≠ z := by
    rintro rfl
    exact hnew hzm
  refine ⟨_, linkBefore_eq hz hzs hnz, ?_⟩
  cases B with
  | nil =>
    -- worse than all: in front of the head of the circle, at its end
    rw [List.append_nil] at hsplit
    subst hsplit hspot
    have htail := MemPool.linkIn_relinked_tail hring hnd hnew hz
    rwa [List.map_append]
  | cons y B =>
    rw [hsplit] at hring hnd hnew
    subst hspot
    rw [List.map_append, List.map_cons] at hring hnd hnew
    have hmid := MemPool.linkIn_relinked hring hnd hnew hz
    rwa [List.map_append]

/-- **A new level goes to its place in the list of its side**, and to the head if it is the best. -/
theorem addOrderAtPrice_spec (h : Holds b k os [new.ptr]) (hk : k.Lists)
    (hs : new.side = .buy ∨ new.side = .sell) (hnew : new.ptr ∉ k.levels.map Level.ptr)
    (hfree : new.slot ∉ k.levels.map Level.slot)
    (hrep : LevelRep b.ordersPool b.ordersAtPricePool new) :
    ∃ ls, b.addOrderAtPrice new.ptr = .ok ({ b with
          priceToOrdersAtPrice := Function.update b.priceToOrdersAtPrice new.slot (some new.ptr)
          ordersAtPricePool := ls }.setLevelsHead new.side
            ((insertLevel new (k.side new.side)).map Level.ptr).head?) ∧
      MemPool.Relinked levelLinks b.ordersAtPricePool ls
        ((insertLevel new (k.side new.side)).map Level.ptr)
        ((insertLevel new (k.side new.side)).map Level.ptr) := by
  have hside := h.side new.side
  have hnws : (b.level new.ptr).side = new.side := hrep.side_eq
  have hnwp : (b.level new.ptr).price = new.price := hrep.price_eq
  have hslot : priceToIndex (b.level new.ptr).price = new.slot := by
    rw [hnwp]
    rfl
  unfold addOrderAtPrice
  simp only [hnws, hslot]
  obtain ⟨b₁, hb₁⟩ : ∃ b₁ : MEOrderBook, b₁ = { b with
    priceToOrdersAtPrice := Function.update b.priceToOrdersAtPrice new.slot (some new.ptr) } :=
    ⟨_, rfl⟩
  have hwrite : ∀ ls, ({ b with
      priceToOrdersAtPrice := Function.update b.priceToOrdersAtPrice new.slot (some new.ptr)
      ordersAtPricePool := ls } : MEOrderBook) = { b₁ with ordersAtPricePool := ls } := by
    intro ls
    rw [hb₁]
  have hpool : b₁.ordersAtPricePool = b.ordersAtPricePool := by rw [hb₁]
  have hheads : b₁.levelsHead new.side = b.levelsHead new.side := by
    rw [hb₁]
    rfl
  have hsame : ({ b₁ with ordersAtPricePool := b.ordersAtPricePool } : MEOrderBook) = b₁ := by
    rw [hb₁]
  simp only [hwrite, hsame]
  rw [← hpool]
  rw [← hheads, ← hpool] at hside
  cases hlevels : k.side new.side with
  | nil =>
    -- the first level of its side
    have hnone : b₁.levelsHead new.side = none := by
      rw [hside.head, hlevels]
      rfl
    rw [hnone]
    refine ⟨(b₁.ordersAtPricePool.modify new.ptr (levelLinks.setPrev (some new.ptr))).modify new.ptr
      (levelLinks.setNext (some new.ptr)), ?_, ?_⟩
    · dsimp only
      rw [modifyLevel_setLevelsHead, modifyLevel_setLevelsHead]
      rfl
    · refine ⟨?_, ?_, ?_, fun hr => (hr.modify _ _).modify _ _, rfl, ?_⟩
      · exact MemPool.ring_singleton_iff.mpr (by simp)
      · intro q hq
        have hqn : q ≠ new.ptr := by
          rintro rfl
          exact hq (by simp [insertLevel])
        simp [hqn]
      · intro q
        simp only [MemPool.get_modify]
        split <;> rfl
      · intro q
        simp only [MemPool.live_modify]
  | cons l rest =>
    have hmemk : ∀ l' ∈ l :: rest, l' ∈ k.levels := fun l' hl' =>
      Book.mem_levels_of_mem_side (by rw [hlevels]; exact hl')
    have hhead : b₁.levelsHead new.side = some l.ptr := by
      rw [hside.head, hlevels]
      rfl
    have hring := hside.ring
    have hnd := hk.side_ptrs_nodup new.side
    rw [hlevels] at hring hnd
    have hprice : ∀ l' ∈ l :: rest, (b₁.level l'.ptr).price = l'.price := by
      intro l' hl'
      rw [level, hpool]
      exact (h.levelRep (hmemk l' hl')).price_eq
    have hlen : rest.length < b₁.ordersAtPricePool.numCells := by
      have hle := h.levels_length_le hk
      have hsub : (l :: rest).length ≤ k.levels.length := by
        rw [← hlevels]
        unfold Book.side Book.levels
        split <;> simp
      simp only [List.length_cons] at hsub
      rw [hpool]
      omega
    have hfind := findSpot_spec (b := b₁) (b.level new.ptr) hring hnd hprice hlen
    rw [hnws, hnwp] at hfind
    obtain ⟨ls, hlink, hrel⟩ := @linkBefore_spec b₁ l new rest _ _ _
      (List.takeWhile_append_dropWhile (p := fun l => behind new.side new.price l.price)).symm rfl
      hring hnd (fun hmem => hnew (by
        obtain ⟨l', hl', hptr⟩ := List.mem_map.mp hmem
        exact List.mem_map.mpr ⟨l', hmemk l' hl', hptr⟩))
    refine ⟨ls, ?_, by rw [insertLevel_eq]; exact hrel⟩
    rw [hhead]
    dsimp only
    rw [hfind]
    simp only [bind, Except.bind]
    rw [hlink]
    dsimp only
    have hlp : (({ b₁ with ordersAtPricePool := ls } : MEOrderBook).level l.ptr).price = l.price :=
      (congrArg (fun d => d.2.1) (hrel.data l.ptr)).trans (hprice l (by simp))
    have hne : new.price ≠ l.price := by
      intro heq
      refine hfree (List.mem_map.mpr ⟨l, hmemk l (by simp), ?_⟩)
      simp [Level.slot, heq]
    -- the new level is better than the head exactly if it was linked in front of all
    rw [hlp, hnwp]
    change (if behind new.side l.price new.price = true then _ else _) = _
    rw [insertLevel]
    by_cases hb : behind new.side new.price l.price = true
    · rw [if_pos hb, Book.behind_asymm hb, if_neg (by simp)]
      refine congrArg Except.ok ?_
      have hself := setLevelsHead_self (b := { b₁ with ordersAtPricePool := ls }) (s := new.side)
      rw [show ({ b₁ with ordersAtPricePool := ls } : MEOrderBook).levelsHead new.side = some l.ptr
        from hhead] at hself
      exact hself.symm
    · have hbl : behind new.side l.price new.price = true :=
        Book.behind_total hs hne (by simpa using hb)
      rw [if_neg hb, if_pos hbl]
      rfl

theorem addOrderAtPrice_holds (new : Level) (h : Holds b k [e.ptr] [new.ptr]) (hk : k.Lists)
    (hs : new.side = .buy ∨ new.side = .sell) (hnew : new.ptr ∉ k.levels.map Level.ptr)
    (hfree : new.slot ∉ k.levels.map Level.slot) (ho : new.orders = [e])
    (hrep : LevelRep b.ordersPool b.ordersAtPricePool new) :
    ∃ b', b.addOrderAtPrice new.ptr = .ok b' ∧ Rep b' (k.addLevel new) ∧
      b'.ordersPool = b.ordersPool ∧ b'.logs = b.logs := by
  obtain ⟨ls, hadd, hrel⟩ := addOrderAtPrice_spec h hk hs hnew hfree hrep
  have hheads := fun t => levelsHead_setLevelsHead (b := { b with
    priceToOrdersAtPrice := Function.update b.priceToOrdersAtPrice new.slot (some new.ptr)
    ordersAtPricePool := ls }) (s := new.side) t
      ((insertLevel new (k.side new.side)).map Level.ptr).head?
  simp only [setLevelsHead_eq] at hadd hheads
  have hlayout : ∀ l' ∈ (k.addLevel new).levels, LevelRep b.ordersPool ls l' := by
    intro l' hl'
    rcases Book.mem_addLevel.mp hl' with rfl | hl'
    · exact hrep.congr (hrel.data _) (fun _ _ => rfl)
    · exact (h.levelRep hl').congr (hrel.data _) (fun _ _ => rfl)
  refine ⟨_, hadd, ⟨?_, ?_, ?_, ?_, ?_, hrel.ready h.levelReady, hrel.numCells.trans h.levelCells,
    ?_, h.orderReady, h.orderCells, ?_⟩, rfl, rfl⟩
  · rw [Book.addLevel_eq]
    exact h.ticker
  · rw [Book.addLevel_eq]
    exact h.nextOrderId
  · rw [Book.addLevel_eq]
    exact h.cid
  · intro t
    rw [hheads t, Book.addLevel_side]
    by_cases ht : t = .buy ↔ new.side = .buy
    · -- the side of the new level
      rw [if_pos ht, if_pos ht, Book.side_congr ht]
      refine ⟨rfl, hrel.ring, ?_⟩
      intro l' hl'
      refine hlayout l' ?_
      rcases mem_insertLevel.mp hl' with rfl | hl'
      · exact Book.mem_addLevel.mpr (Or.inl rfl)
      · exact Book.mem_addLevel.mpr (Or.inr (Book.mem_levels_of_mem_side hl'))
    · -- the other side: no cell of it was written
      rw [if_neg ht, if_neg ht]
      have hframe : ∀ l' ∈ k.side t, ls.get l'.ptr = b.ordersAtPricePool.get l'.ptr := by
        intro l' hl'
        refine hrel.frame _ fun hmem => ?_
        obtain ⟨l'', hl'', hptr⟩ := List.mem_map.mp hmem
        have hmem' : l'.ptr ∈ (k.side t).map Level.ptr := List.mem_map_of_mem hl'
        rcases mem_insertLevel.mp hl'' with rfl | hl''
        · rw [hptr] at hnew
          exact hnew (List.mem_map_of_mem (Book.mem_levels_of_mem_side hl'))
        · exact hk.side_ptr_disjoint ht (List.mem_map_of_mem hl'') (hptr ▸ hmem')
      exact (h.side t).congr hframe (fun _ _ _ _ => rfl)
  · intro i p
    show Function.update b.priceToOrdersAtPrice new.slot (some new.ptr) i = some p ↔ _
    simp only [Book.mem_addLevel]
    by_cases hi : i = new.slot
    · subst hi
      simp only [Function.update_self, Option.some.injEq]
      constructor
      · rintro rfl
        exact ⟨new, Or.inl rfl, rfl, rfl⟩
      · rintro ⟨l', rfl | hl', hslot, rfl⟩
        · rfl
        · exact absurd (List.mem_map.mpr ⟨l', hl', hslot⟩) hfree
    · rw [Function.update_of_ne hi, h.table]
      constructor
      · rintro ⟨l', hl', rfl, rfl⟩
        exact ⟨l', Or.inr hl', rfl, rfl⟩
      · rintro ⟨l', rfl | hl', rfl, rfl⟩
        · exact absurd rfl hi
        · exact ⟨l', hl', rfl, rfl⟩
  · intro p
    rw [hrel.live, h.levelLive]
    simp only [List.mem_map, Book.mem_addLevel, List.mem_singleton, List.not_mem_nil, or_false]
    grind
  · intro p
    rw [h.orderLive, ((Book.addLevel_entries_perm k new).map Entry.ptr).mem_iff, ho]
    simp only [List.cons_append, List.nil_append, List.map_cons, List.mem_cons, List.not_mem_nil,
      or_false]
    tauto

/-! ## Linking an order in -/

/-- A write to an order's cell that the book does not own. -/
theorem modifyOrder_holds (h : Holds b k os ls) {p : OrderPtr}
    (hp : p ∉ k.entries.map Entry.ptr) (f : MEOrder → MEOrder) :
    Holds (b.modifyOrder p f) k os ls := by
  refine ⟨h.ticker, h.nextOrderId, h.cid, ?_, h.table, h.levelReady, h.levelCells, h.levelLive,
    h.orderReady.modify _ _, h.orderCells, ?_⟩
  · intro t
    refine (h.side t).congr (fun _ _ => rfl) ?_
    intro l hl q hq
    refine MemPool.get_modify_of_ne _ _ ?_
    rintro rfl
    obtain ⟨e, he, rfl⟩ := List.mem_map.mp hq
    exact hp (List.mem_map_of_mem
      (Book.mem_entries.mpr ⟨l, Book.mem_levels_of_mem_side hl, he⟩))
  · intro q
    rw [show (b.modifyOrder p f).ordersPool = b.ordersPool.modify p f from rfl,
      MemPool.live_modify]
    exact h.orderLive q

/-- The order goes to the tail of the level of its slot. -/
theorem joinLevel_holds (h : Holds b k [e.ptr] []) (hk : k.Lists)
    (hfresh : e.ptr ∉ k.entries.map Entry.ptr) (hinfo : (b.order e.ptr).toOrderInfo = e.info)
    (hl : l ∈ k.levels) (hslot : l.slot = e.slot) :
    ∃ b', b.joinLevel e.ptr l.ptr = .ok b' ∧ Rep b' (k.join e) ∧
      (b'.order e.ptr).toOrderInfo = e.info ∧ b'.logs = b.logs := by
  have hlrep := h.levelRep hl
  have hnd := hk.ptrs_nodup hl
  obtain ⟨c, rest, hc⟩ := List.exists_cons_of_ne_nil (hk.nonempty l hl)
  have hring := hlrep.ring
  have hhead : (b.level l.ptr).ordersHead = some c.ptr := by
    rw [show (b.level l.ptr).ordersHead = _ from hlrep.head_eq, hc]
    rfl
  have hmem : ∀ p ∈ l.orders.map Entry.ptr, p ≠ e.ptr := by
    rintro p hp rfl
    obtain ⟨e', he', hptr⟩ := List.mem_map.mp hp
    exact hfresh (List.mem_map.mpr ⟨e', Book.mem_entries.mpr ⟨l, hl, he'⟩, hptr⟩)
  rw [hc, List.map_cons] at hring hnd hmem
  obtain ⟨z, hzm, hz, -⟩ := Circular.exists_prev hring (by simp : c.ptr ∈ _)
  have hce : c.ptr ≠ e.ptr := hmem c.ptr (by simp)
  have hze : z ≠ e.ptr := hmem z hzm
  have hz' : (b.order c.ptr).prevOrder = some z := hz
  have hrel := MemPool.linkIn_relinked_tail hring hnd
    (fun hin => hmem e.ptr hin rfl) hz
  have hjoin : b.joinLevel e.ptr l.ptr =
      .ok { b with ordersPool := b.ordersPool.linkIn orderLinks e.ptr z c.ptr } := by
    -- the head's back link is read again after the first write, which leaves it
    have hkeep : (if c.ptr = z then (⟨(b.order c.ptr).toOrderInfo, some e.ptr, some z⟩ : MEOrder)
        else b.order c.ptr).prevOrder = some z := by
      split
      · rfl
      · exact hz'
    unfold joinLevel
    simp only [hhead, hz', deref_some, bind, Except.bind, order_modifyOrder, hce, if_false, pure,
      Except.pure]
    rw [hkeep]
    rfl
  refine ⟨_, hjoin, ⟨h.ticker, h.nextOrderId, h.cid, ?_, ?_, h.levelReady, h.levelCells, ?_,
    hrel.ready h.orderReady, hrel.numCells.trans h.orderCells, ?_⟩,
    (hrel.data _).trans hinfo, rfl⟩
  · intro t
    rw [Book.join_side, appendOrder]
    refine (h.side t).map _ (fun l' => by split <;> rfl) (fun _ _ => rfl)
      (fun _ _ => rfl) ?_
    intro l' hl' hrep
    have hl'k := Book.mem_levels_of_mem_side hl'
    by_cases hll : l' = l
    · -- the level that takes the order
      subst hll
      rw [if_pos hslot]
      refine ⟨?_, ?_, ?_⟩
      · show levelLinks.data (b.ordersAtPricePool.get l'.ptr) = _
        rw [hrep.data, hc]
        rfl
      · show MemPool.Ring orderLinks _ ((l'.orders ++ [e]).map Entry.ptr)
        rw [List.map_append, hc]
        exact hrel.ring
      · intro e' he'
        refine (hrel.data _).trans ?_
        rcases List.mem_append.mp he' with he' | he'
        · exact hrep.info e' he'
        · rw [List.mem_singleton.mp he']
          exact hinfo
    · -- another level: its slot is another one and none of its cells was written
      rw [if_neg fun hs => hll (hk.level_eq_of_slot hl'k hl (hs.trans hslot.symm))]
      refine hrep.congr rfl ?_
      intro p hp
      refine hrel.frame p fun hmem' => ?_
      rcases List.mem_append.mp hmem' with hmem' | hmem'
      · refine hk.ptr_disjoint hl'k hl hll hp ?_
        rw [hc]
        exact hmem'
      · rw [List.mem_singleton.mp hmem'] at hp
        obtain ⟨e', he', hptr⟩ := List.mem_map.mp hp
        exact hfresh (List.mem_map.mpr ⟨e', Book.mem_entries.mpr ⟨l', hl'k, he'⟩, hptr⟩)
  · intro i p
    refine (h.table i p).trans ?_
    rw [Book.join_levels]
    simp only [Book.mem_appendOrder]
    constructor
    · rintro ⟨l', hl', rfl, rfl⟩
      exact ⟨_, ⟨l', hl', rfl⟩, by split <;> rfl, by split <;> rfl⟩
    · rintro ⟨_, ⟨l', hl', rfl⟩, rfl, rfl⟩
      exact ⟨l', hl', by split <;> rfl, by split <;> rfl⟩
  · intro p
    refine (h.levelLive p).trans ?_
    rw [Book.join_levels, Book.appendOrder_map Level.ptr (fun _ _ => rfl)]
  · intro p
    have hperm : (k.join e).entries.Perm (e :: k.entries) := by
      rw [Book.entries, Book.join_levels]
      exact Book.levelOrders_appendOrder_perm hk.slots (List.mem_map.mpr ⟨l, hl, hslot⟩)
    rw [hrel.live, h.orderLive, (hperm.map Entry.ptr).mem_iff]
    simp only [List.map_cons, List.mem_cons, List.not_mem_nil, or_false]
    tauto

/-- An order's circle before any other order is in it: the order links to itself both ways. -/
def aloneInCircle (b : MEOrderBook) (p : OrderPtr) : MEOrderBook :=
  (b.modifyOrder p (orderLinks.setNext (some p))).modifyOrder p (orderLinks.setPrev (some p))

theorem aloneInCircle_holds (h : Holds b k [e.ptr] []) (hfresh : e.ptr ∉ k.entries.map Entry.ptr) :
    Holds (b.aloneInCircle e.ptr) k [e.ptr] [] :=
  modifyOrder_holds (modifyOrder_holds h hfresh _) hfresh _

theorem order_aloneInCircle (hinfo : (b.order e.ptr).toOrderInfo = e.info) :
    (b.aloneInCircle e.ptr).order e.ptr = ⟨e.info, some e.ptr, some e.ptr⟩ := by
  simp only [aloneInCircle, order_modifyOrder, if_true, hinfo]

/-- A level of its own starts with the order alone in its circle. -/
theorem startLevel_eq (hinfo : (b.order e.ptr).toOrderInfo = e.info) :
    b.startLevel e.ptr = (do
      let (orderAtPrice, pool) ← b.ordersAtPricePool.allocate
        { side := e.info.side, price := e.info.price, ordersHead := some e.ptr }
      { b.aloneInCircle e.ptr with ordersAtPricePool := pool }.addOrderAtPrice orderAtPrice) := by
  change (do
    let (orderAtPrice, pool) ← b.ordersAtPricePool.allocate
      { side := ((b.aloneInCircle e.ptr).order e.ptr).side,
        price := ((b.aloneInCircle e.ptr).order e.ptr).price, ordersHead := some e.ptr }
    { b.aloneInCircle e.ptr with ordersAtPricePool := pool }.addOrderAtPrice orderAtPrice) = _
  rw [order_aloneInCircle hinfo]

/-- The order makes a level of its own, or there was one cell left for it and the pool gives up. -/
theorem startLevel_holds (h : Holds b k [e.ptr] []) (hk : k.Lists)
    (hfresh : e.ptr ∉ k.entries.map Entry.ptr) (hinfo : (b.order e.ptr).toOrderInfo = e.info)
    (hs : e.info.side = .buy ∨ e.info.side = .sell) (hfree : k.slotTaken e = false) :
    (b.startLevel e.ptr = .error .poolExhausted ∧ meMaxPriceLevels ≤ k.levels.length + 1) ∨
    ∃ b', b.startLevel e.ptr = .ok b' ∧
      Rep b' (k.addLevel (Book.newLevel e b.ordersAtPricePool.nextFreeIndex)) ∧
      (b'.order e.ptr).toOrderInfo = e.info ∧ b'.logs = b.logs := by
  let b₁ := b.aloneInCircle e.ptr
  have h₁ : Holds b₁ k [e.ptr] [] := aloneInCircle_holds h hfresh
  have horder : b₁.order e.ptr = ⟨e.info, some e.ptr, some e.ptr⟩ := order_aloneInCircle hinfo
  rw [startLevel_eq hinfo]
  rcases MemPool.allocate_cases h.levelReady
    { side := e.info.side, price := e.info.price, ordersHead := some e.ptr } with
    ⟨herr, hfull⟩ | ⟨pool, hok, halloc⟩
  · refine Or.inl ⟨by rw [herr]; rfl, ?_⟩
    have hle := MemPool.numCells_le_of_full (p := b.ordersAtPricePool) hfull
      fun j hj => ((h.levelLive j).mp hj).resolve_right (by simp)
    rw [h.levelCells, List.length_map] at hle
    exact hle
  · refine Or.inr ?_
    rw [hok]
    obtain ⟨lp, hlp⟩ : ∃ lp, lp = b.ordersAtPricePool.nextFreeIndex := ⟨_, rfl⟩
    have hnew : lp ∉ k.levels.map Level.ptr := fun hmem =>
      h.levelReady.not_live (hlp ▸ (h.levelLive _).mpr (Or.inl hmem))
    -- the pool with the new level's cell, for the levels already there and for the new one
    have h₂ : Holds { b₁ with ordersAtPricePool := pool } k [e.ptr] [lp] := by
      have hget : ∀ l ∈ k.levels, pool.get l.ptr = b.ordersAtPricePool.get l.ptr := by
        intro l hl
        refine halloc.get_of_ne _ fun heq => hnew ?_
        rw [hlp, ← heq]
        exact List.mem_map_of_mem hl
      refine ⟨h₁.ticker, h₁.nextOrderId, h₁.cid, ?_, h₁.table, halloc.ready,
        halloc.numCells.trans h.levelCells, ?_, h₁.orderReady, h₁.orderCells, h₁.orderLive⟩
      · intro t
        exact (h₁.side t).congr (fun l hl => hget l (Book.mem_levels_of_mem_side hl))
          (fun _ _ _ _ => rfl)
      · intro p
        rw [halloc.live_iff, h.levelLive, ← hlp]
        simp only [List.mem_singleton, List.not_mem_nil, or_false]
        tauto
    have hcell : pool.get lp = ⟨e.info.side, e.info.price, some e.ptr, none, none⟩ := by
      rw [hlp]
      exact halloc.get_self
    have hrep : LevelRep b₁.ordersPool pool (Book.newLevel e lp) := by
      refine ⟨?_, ?_, ?_⟩
      · show levelLinks.data (pool.get lp) = _
        rw [hcell]
        rfl
      · refine MemPool.ring_singleton_iff.mpr ⟨?_, ?_⟩
        · show (b₁.order e.ptr).nextOrder = _
          rw [horder]
        · show (b₁.order e.ptr).prevOrder = _
          rw [horder]
      · intro e' he'
        rw [List.mem_singleton.mp he']
        show (b₁.order e.ptr).toOrderInfo = _
        rw [horder]
    have hslot : (Book.newLevel e lp).slot ∉ k.levels.map Level.slot := by
      intro hmem
      have htaken : k.slotTaken e = true := Book.slotTaken_iff.mpr hmem
      rw [hfree] at htaken
      cases htaken
    obtain ⟨b', hadd, hrep', hpool, hlogs⟩ :=
      addOrderAtPrice_holds (Book.newLevel e lp) h₂ hk hs hnew hslot rfl hrep
    refine ⟨b', ?_, hlp ▸ hrep', ?_, hlogs⟩
    · rw [← hlp]
      exact hadd
    · rw [order, hpool]
      show (b₁.order e.ptr).toOrderInfo = _
      rw [horder]

/-- `AddOrderToPriceLevel` links the order in, or fails since the order needs a new level and leaves no
cell free for a further one. Only then are the ids of the order checked. -/
theorem addOrderToPriceLevel_cases (h : Holds b k [e.ptr] []) (hk : k.Lists)
    (hfresh : e.ptr ∉ k.entries.map Entry.ptr) (hinfo : (b.order e.ptr).toOrderInfo = e.info)
    (hs : e.info.side = .buy ∨ e.info.side = .sell) :
    (b.addOrderToPriceLevel e.ptr = .error .poolExhausted ∧ k.slotTaken e = false ∧
      meMaxPriceLevels ≤ k.levels.length + 1) ∨
    ∃ b₁, b.addOrderToPriceLevel e.ptr =
        (if inTable e.info.clientId e.info.clientOrderId then
          .ok (b₁.setCidOid e.info.clientId e.info.clientOrderId (some e.ptr))
        else .error .outOfRange) ∧
      Rep b₁ (if k.slotTaken e then k.join e
        else k.addLevel (Book.newLevel e b.ordersAtPricePool.nextFreeIndex)) ∧ b₁.logs = b.logs := by
  have hprice : (b.order e.ptr).price = e.info.price := congrArg OrderInfo.price hinfo
  -- linking does not change what the order says of itself
  have hids : ∀ {b₁ : MEOrderBook}, (b₁.order e.ptr).toOrderInfo = e.info →
      (if inTable (b₁.order e.ptr).clientId (b₁.order e.ptr).clientOrderId then
        (.ok (b₁.setCidOid (b₁.order e.ptr).clientId (b₁.order e.ptr).clientOrderId
          (some e.ptr)) : Except Fault MEOrderBook)
      else .error .outOfRange) =
        if inTable e.info.clientId e.info.clientOrderId then
          .ok (b₁.setCidOid e.info.clientId e.info.clientOrderId (some e.ptr))
        else .error .outOfRange := by
    intro b₁ hinfo₁
    have hc : (b₁.order e.ptr).clientId = e.info.clientId := congrArg OrderInfo.clientId hinfo₁
    have ho : (b₁.order e.ptr).clientOrderId = e.info.clientOrderId :=
      congrArg OrderInfo.clientOrderId hinfo₁
    rw [hc, ho]
  cases htaken : k.slotTaken e with
  | true =>
    obtain ⟨l, hl, hslot⟩ := List.mem_map.mp (Book.slotTaken_iff.mp htaken)
    have hlevel : b.getOrderAtPrice (b.order e.ptr).price = some l.ptr := by
      rw [hprice]
      exact h.getOrderAtPrice_eq hl hslot.symm
    obtain ⟨b₁, hjoin, hrep, hinfo₁, hlogs⟩ := joinLevel_holds h hk hfresh hinfo hl hslot
    refine Or.inr ⟨b₁, ?_, hrep, hlogs⟩
    unfold addOrderToPriceLevel
    rw [hlevel]
    simp only [hjoin, bind, Except.bind]
    exact hids hinfo₁
  | false =>
    have hlevel : b.getOrderAtPrice (b.order e.ptr).price = none := by
      rw [hprice]
      cases hp : b.getOrderAtPrice e.info.price with
      | none => rfl
      | some p =>
        obtain ⟨l, hl, hslot, -⟩ := (h.table _ _).mp hp
        have : k.slotTaken e = true :=
          Book.slotTaken_iff.mpr (List.mem_map.mpr ⟨l, hl, hslot⟩)
        rw [htaken] at this
        cases this
    rcases startLevel_holds h hk hfresh hinfo hs htaken with
      ⟨herr, hfull⟩ | ⟨b₁, hstart, hrep, hinfo₁, hlogs⟩
    · refine Or.inl ⟨?_, rfl, hfull⟩
      unfold addOrderToPriceLevel
      rw [hlevel]
      simp only [herr, bind, Except.bind]
    · refine Or.inr ⟨b₁, ?_, hrep, hlogs⟩
      unfold addOrderToPriceLevel
      rw [hlevel]
      simp only [hstart, bind, Except.bind]
      exact hids hinfo₁

/-- A write to the id table. -/
theorem setCidOid_holds (h : Holds b k os ls) (c : ClientId) (o : OrderId) (p : Option OrderPtr) :
    Holds (b.setCidOid c o p) (k.setCidOid c o p) os ls := by
  refine ⟨h.ticker, h.nextOrderId, ?_, h.side, h.table, h.levelReady, h.levelCells, h.levelLive,
    h.orderReady, h.orderCells, h.orderLive⟩
  unfold setCidOid Book.setCidOid
  rw [h.cid]

/-- **`AddOrderToPriceLevel` rests the order.** It fails only if the order needs a new level and
leaves no cell free for a further one. -/
theorem addOrderToPriceLevel_refines (h : Holds b k [e.ptr] []) (hk : k.Lists)
    (hfresh : e.ptr ∉ k.entries.map Entry.ptr) (hinfo : (b.order e.ptr).toOrderInfo = e.info)
    (hs : e.info.side = .buy ∨ e.info.side = .sell)
    (hin : inTable e.info.clientId e.info.clientOrderId = true) :
    (b.addOrderToPriceLevel e.ptr = .error .poolExhausted ∧ k.slotTaken e = false ∧
      meMaxPriceLevels ≤ k.levels.length + 1) ∨
    ∃ b', b.addOrderToPriceLevel e.ptr = .ok b' ∧
      Rep b' (k.rest e b.ordersAtPricePool.nextFreeIndex) ∧ b'.logs = b.logs := by
  rcases addOrderToPriceLevel_cases h hk hfresh hinfo hs with herr | ⟨b₁, hok, h₁, hlogs⟩
  · exact Or.inl herr
  · rw [if_pos hin] at hok
    refine Or.inr ⟨_, hok, ?_, hlogs⟩
    rw [Book.rest_eq]
    exact setCidOid_holds h₁ _ _ _

end MEOrderBook

end TradingSystem
