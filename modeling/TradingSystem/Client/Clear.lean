import TradingSystem.Client.Replay

/-!
# `CLEAR`

`CLEAR` gives the cells of a book back and drops the table of ids, but it leaves the heads of the two
sides and the table of levels as they were (`onMarketUpdate_clear_heads`). So it empties a book if, and
only if, nothing was in it (`clear_empties_iff`). A side of two levels or more stops it: the loop over the
levels takes the one behind the head every time, and the pool asserts that the cell given back a second
time is in use (`clear_of_two_levels`).
-/

namespace TradingSystem.Client

open MarketOrderBook

namespace MarketOrderBook

variable {b b' : MarketOrderBook} {k : Book} {s : Side} {u : MEMarketUpdate}

/-! ## The heads stay -/

/-- The body of the loop over the table. -/
def deallocateOrder (b : MarketOrderBook) (i : Nat) : Except Fault MarketOrderBook :=
  match b.oidToOrder (UInt64.ofNat i) with
  | none => .ok b
  | some order => do
    let pool ← b.orderPool.deallocate order
    return { b with orderPool := pool }

/-- The loop gives every cell back once, where every id leads to an order of its own. By induction on the
ids still ahead, whose orders are still in use. -/
theorem foldlM_deallocateOrder {ids : List Nat} (hnd : ids.Nodup)
    (hinj : ∀ i ∈ ids, ∀ j ∈ ids, ∀ p, b.oidToOrder (UInt64.ofNat i) = some p →
      b.oidToOrder (UInt64.ofNat j) = some p → i = j)
    (hlive : ∀ i ∈ ids, ∀ p, b.oidToOrder (UInt64.ofNat i) = some p → b.orderPool.Live p)
    (hready : b.orderPool.Ready) :
    ∃ pool, ids.foldlM deallocateOrder b = .ok { b with orderPool := pool } := by
  induction ids generalizing b with
  | nil => exact ⟨b.orderPool, rfl⟩
  | cons i ids ih =>
    obtain ⟨hi, hids⟩ := List.nodup_cons.mp hnd
    have hinj' : ∀ j ∈ ids, ∀ j' ∈ ids, ∀ p, b.oidToOrder (UInt64.ofNat j) = some p →
        b.oidToOrder (UInt64.ofNat j') = some p → j = j' := fun j hj j' hj' =>
      hinj j (List.mem_cons_of_mem i hj) j' (List.mem_cons_of_mem i hj')
    rw [List.foldlM_cons]
    cases hp : b.oidToOrder (UInt64.ofNat i) with
    | none =>
      have hstep : b.deallocateOrder i = .ok b := by
        unfold deallocateOrder
        rw [hp]
      rw [hstep]
      exact ih hids hinj' (fun j hj => hlive j (List.mem_cons_of_mem i hj)) hready
    | some p =>
      obtain ⟨pool, hok, hde⟩ := MemPool.deallocate_spec hready (hlive i List.mem_cons_self p hp)
      have hstep : b.deallocateOrder i = .ok { b with orderPool := pool } := by
        unfold deallocateOrder
        rw [hp]
        simp only [hok, bind, Except.bind, pure, Except.pure]
      have hlive' : ∀ j ∈ ids, ∀ q, b.oidToOrder (UInt64.ofNat j) = some q → pool.Live q := by
        intro j hj q hq
        refine (hde.live_iff q).mpr ⟨hlive j (List.mem_cons_of_mem i hj) q hq, ?_⟩
        rintro rfl
        have hij := hinj i List.mem_cons_self j (List.mem_cons_of_mem i hj) q hp hq
        exact hi (hij ▸ hj)
      obtain ⟨pool', hok'⟩ := @ih { b with orderPool := pool } hids hinj' hlive' hde.ready
      rw [hstep]
      exact ⟨pool', hok'⟩

theorem deallocateOrders_ok (h : Shows b k) (hk : k.WF) :
    ∃ pool, b.deallocateOrders = .ok { b with orderPool := pool } := by
  show ∃ pool, (List.range meMaxOrderIds).foldlM deallocateOrder b = _
  apply foldlM_deallocateOrder List.nodup_range
  · intro i hi j hj p hpi hpj
    rw [oidToOrder_eq h] at hpi hpj
    obtain ⟨e, he, rfl, -, hid⟩ := hk.table _ _ _ hpi
    obtain ⟨e', he', hptr, -, hid'⟩ := hk.table _ _ _ hpj
    rw [hk.eq_of_ptr he' he hptr, hid] at hid'
    have hnat := congrArg UInt64.toNat hid'
    have hbound : ∀ n ∈ List.range meMaxOrderIds, n < UInt64.size := by
      intro n hn
      exact Nat.lt_trans (List.mem_range.mp hn) (by decide)
    rwa [UInt64.toNat_ofNat_of_lt' (hbound i hi), UInt64.toNat_ofNat_of_lt' (hbound j hj)] at hnat
  · intro i _ p hp
    rw [oidToOrder_eq h] at hp
    obtain ⟨e, he, rfl, -⟩ := hk.table _ _ _ hp
    exact (h.orderLive _).mpr (Or.inl (List.mem_map_of_mem he))
  · exact h.orderReady

/-- A list of one level at most is given back. With two, the second one is given back twice. -/
theorem deallocateLevels_cases (ls : List Level)
    (hring : Circular (fun p => (b.level p).next) (fun p => (b.level p).prev) (ls.map Level.ptr))
    (hnd : (ls.map Level.ptr).Nodup) (hready : b.ordersAtPricePool.Ready)
    (hlive : ∀ p ∈ ls.map Level.ptr, b.ordersAtPricePool.Live p) :
    (2 ≤ ls.length ∧ b.deallocateLevels (ls.map Level.ptr).head? = .error .assertion) ∨
    (ls.length < 2 ∧ ∃ pool,
      b.deallocateLevels (ls.map Level.ptr).head? = .ok { b with ordersAtPricePool := pool } ∧
      pool.Ready ∧ (∀ p, pool.get p = b.ordersAtPricePool.get p) ∧
      ∀ p, p ∉ ls.map Level.ptr → b.ordersAtPricePool.Live p → pool.Live p) := by
  match ls with
  | [] => exact Or.inr ⟨by simp, b.ordersAtPricePool, rfl, hready, fun _ => rfl, fun _ _ hp => hp⟩
  | [l] =>
    have hself : (b.level l.ptr).next = some l.ptr := (Circular.singleton_iff.mp hring).1
    obtain ⟨pool, hok, hde⟩ := MemPool.deallocate_spec hready (hlive l.ptr (by simp))
    refine Or.inr ⟨by simp, pool, ?_, hde.ready, hde.get_eq, ?_⟩
    · show b.deallocateLevels (some l.ptr) = _
      unfold deallocateLevels deallocateBehind
      simp only [hself, deref_some, bind, Except.bind, if_pos, pure, Except.pure, hok]
    · intro p hp hlive
      exact (hde.live_iff p).mpr ⟨hlive, fun heq => hp (by simp [heq])⟩
  | l :: l' :: ls =>
    have hnext : (b.level l.ptr).next = some l'.ptr := Circular.next_head hring
    have hne : l'.ptr ≠ l.ptr := by
      have hout := (List.nodup_cons.mp hnd).1
      rintro heq
      exact hout (by simp [heq])
    obtain ⟨pool, hok, hde⟩ := MemPool.deallocate_spec hready (hlive l'.ptr (by simp))
    -- the head still links to the cell that was given back
    have hnext' : (({ b with ordersAtPricePool := pool } : MarketOrderBook).level l.ptr).next =
        some l'.ptr := (congrArg MarketOrdersAtPrice.next (hde.get_eq l.ptr)).trans hnext
    have hagain : pool.deallocate l'.ptr = .error .assertion :=
      MemPool.deallocate_of_not_live fun hagain => ((hde.live_iff l'.ptr).mp hagain).2 rfl
    obtain ⟨n, hn⟩ : ∃ n, b.ordersAtPricePool.numCells = n + 1 :=
      Nat.exists_eq_succ_of_ne_zero (Nat.ne_zero_of_lt (hlive l.ptr (by simp)).1)
    refine Or.inl ⟨by simp, ?_⟩
    show b.deallocateLevels (some l.ptr) = _
    unfold deallocateLevels
    rw [hn]
    simp only [deallocateBehind, hnext, deref_some, bind, Except.bind, if_neg hne, hok, hnext', hagain]

/-- **A side of two levels stops `CLEAR`**, and nothing else does. -/
theorem clear_fails_iff (h : Shows b k) (hk : k.WF) :
    b.clear = .error .assertion ↔ 2 ≤ k.bids.length ∨ 2 ≤ k.asks.length := by
  obtain ⟨orderPool, horders⟩ := deallocateOrders_ok h hk
  obtain ⟨b₁, hb₁⟩ : ∃ b₁ : MarketOrderBook,
      b₁ = { b with orderPool := orderPool, oidToOrder := fun _ => none } := ⟨_, rfl⟩
  have hclear : b.clear = (do
      let b ← b₁.deallocateLevels b₁.bidsByPrice
      b.deallocateLevels b.asksByPrice) := by
    unfold clear
    rw [horders, hb₁]
    rfl
  have hbidsHead : b₁.bidsByPrice = (k.bids.map Level.ptr).head? := by
    rw [hb₁]
    exact (h.side .buy).head
  have hasksHead : b₁.asksByPrice = (k.asks.map Level.ptr).head? := by
    rw [hb₁]
    exact (h.side .sell).head
  have hpool : b₁.ordersAtPricePool = b.ordersAtPricePool := by rw [hb₁]
  have hlevel : b₁.level = b.level := by
    unfold level
    rw [hpool]
  have hnd : (k.bids.map Level.ptr ++ k.asks.map Level.ptr).Nodup := by
    rw [← List.map_append]
    exact hk.levelPtrs
  have hlive : ∀ p ∈ k.levels.map Level.ptr, b.ordersAtPricePool.Live p := fun p hp =>
    (h.levelLive p).mpr (Or.inl hp)
  -- the table gives back orders only, so that both lists of levels are still there
  rw [hclear, hbidsHead]
  rcases deallocateLevels_cases (b := b₁) k.bids (by rw [hlevel]; exact (h.side .buy).ring)
      (List.nodup_append.mp hnd).1 (by rw [hpool]; exact h.levelReady)
      (fun p hp => by rw [hpool]; exact hlive p (by simp [Book.levels, hp])) with
    ⟨htwo, herr⟩ | ⟨hone, pool, hok, hready, hget, hstill⟩
  · rw [herr]
    exact ⟨fun _ => Or.inl htwo, fun _ => rfl⟩
  · -- the cells of the other side are as they were
    obtain ⟨b₂, hb₂⟩ : ∃ b₂ : MarketOrderBook, b₂ = { b₁ with ordersAtPricePool := pool } := ⟨_, rfl⟩
    have hasksHead₂ : b₂.asksByPrice = (k.asks.map Level.ptr).head? := by rw [hb₂, ← hasksHead]
    have hpool₂ : b₂.ordersAtPricePool = pool := by rw [hb₂]
    have hlevel₂ : b₂.level = b.level := by
      funext p
      unfold level
      rw [hpool₂, hget, hpool]
    have hrest : ∀ p ∈ k.asks.map Level.ptr, pool.Live p := by
      intro p hp
      apply hstill p
      · intro hp'
        exact (List.nodup_append.mp hnd).2.2 p hp' p hp rfl
      · rw [hpool]
        exact hlive p (by simp [Book.levels, hp])
    rw [hok, ← hb₂]
    show b₂.deallocateLevels b₂.asksByPrice = _ ↔ _
    rw [hasksHead₂]
    rcases deallocateLevels_cases (b := b₂) k.asks (by rw [hlevel₂]; exact (h.side .sell).ring)
        (List.nodup_append.mp hnd).2.1 (by rw [hpool₂]; exact hready)
        (by rw [hpool₂]; exact hrest) with ⟨htwo, herr⟩ | ⟨hone', pool', hok', -⟩
    · rw [herr]
      exact ⟨fun _ => Or.inr htwo, fun _ => rfl⟩
    · rw [hok']
      constructor
      · intro h
        cases h
      · intro h
        omega

/-- Reading the books after the same updates to a new book and to one like it. -/
theorem Alike.replay {α : Type} {read : MarketOrderBook → α} {us : List MEMarketUpdate}
    (h : Alike b b') (hus : AllSteps onMarketUpdate b (fun _ => Clean) us)
    (hread : ∀ c c', Alike c c' → (b'.bbo = b.bbo → c'.bbo = c.bbo) → read c' = read c) :
    (b'.onMarketUpdates us).map read = (b.onMarketUpdates us).map read := by
  rcases h.run hus with ⟨err, herr, herr'⟩ | ⟨c, c', hc, hc', halike, -, hbbo⟩
  · rw [herr, herr']
  · rw [hc, hc']
    exact congrArg Except.ok (hread c c' halike hbbo)

end MarketOrderBook

end TradingSystem.Client
