import TradingSystem.Exchange.Messages

/-!
# Streams of market updates and the books they build

`MarketBook` is what a reader of market updates is after: for every ticker, side and price the
orders of that price level, oldest first. `MarketBook.apply` is the meaning of an update.

A stream is well formed (`WellFormed`) if it keeps the discipline of the exchange: a ticker's orders
are added under ascending ids, and what is modified or cancelled has been added and is still there.
What such a stream has built is its `Feed`, the `ADD` of every order still alive with the quantity it
has now; because the ids ascend, the order of the ids is the order of arrival, and one list for each
ticker says everything about its levels (`WellFormed.replay`).
-/

namespace TradingSystem

/-- An order as the market sees it, in the level of its side and price. -/
structure MarketOrder where
  orderId : OrderId
  qty : Qty
  priority : Priority
  deriving DecidableEq

def MEMarketUpdate.order (u : MEMarketUpdate) : MarketOrder := ⟨u.orderId, u.qty, u.priority⟩

/-- The levels of every ticker, the orders of a level oldest first. -/
abbrev MarketBook := TickerId → Side → Price → List MarketOrder

namespace MarketBook

def empty : MarketBook := fun _ _ _ => []

/-- What an update does to the levels of its ticker. -/
def applyTo (levels : Side → Price → List MarketOrder) (u : MEMarketUpdate) :
    Side → Price → List MarketOrder :=
  fun s p =>
    match u.type with
    | .add => if s = u.side ∧ p = u.price then levels s p ++ [u.order] else levels s p
    | .modify => (levels s p).map fun o => if o.orderId = u.orderId then { o with qty := u.qty } else o
    | .cancel => (levels s p).filter fun o => o.orderId ≠ u.orderId
    | .clear => []
    | _ => levels s p

def apply (b : MarketBook) (u : MEMarketUpdate) : MarketBook :=
  fun t => if t = u.tickerId then applyTo (b t) u else b t

def applyAll (b : MarketBook) (us : List MEMarketUpdate) : MarketBook := us.foldl apply b

variable {b b' : MarketBook} {t : TickerId} {us us' : List MEMarketUpdate}

theorem applyAll_append : b.applyAll (us ++ us') = (b.applyAll us).applyAll us' := by
  simp [applyAll, List.foldl_append]

theorem applyAll_cons (u : MEMarketUpdate) : b.applyAll (u :: us) = (b.apply u).applyAll us := rfl

/-- The books of different tickers do not mix. -/
theorem applyAll_at :
    (b.applyAll us) t = (us.filter fun u => u.tickerId = t).foldl applyTo (b t) := by
  induction us generalizing b with
  | nil => rfl
  | cons u us ih =>
    rw [applyAll_cons, ih]
    unfold apply
    by_cases ht : u.tickerId = t
    · rw [List.filter_cons_of_pos (by simpa using ht), if_pos ht.symm]
      rfl
    · rw [List.filter_cons_of_neg (by simpa using ht), if_neg (Ne.symm ht)]

theorem applyAll_congr (h : b t = b' t) : (b.applyAll us) t = (b'.applyAll us) t := by
  rw [applyAll_at, applyAll_at, h]

/-- Adding orders appends them to their levels. -/
theorem foldl_applyTo_adds {levels : Side → Price → List MarketOrder}
    (h : ∀ u ∈ us, u.type = .add) (s : Side) (p : Price) :
    us.foldl applyTo levels s p =
      levels s p ++ (us.filter fun u => u.side = s ∧ u.price = p).map MEMarketUpdate.order := by
  induction us generalizing levels with
  | nil => simp
  | cons u us ih =>
    rw [List.foldl_cons, ih fun u' hu' => h u' (List.mem_cons_of_mem _ hu')]
    unfold applyTo
    rw [h u List.mem_cons_self]
    dsimp only
    by_cases hsp : s = u.side ∧ p = u.price
    · obtain ⟨rfl, rfl⟩ := hsp
      simp
    · have hsp' : ¬ (u.side = s ∧ u.price = p) := fun h => hsp ⟨h.1.symm, h.2.symm⟩
      rw [if_neg hsp, List.filter_cons_of_neg (by simpa using hsp')]

/-- A message that concerns no book is one of the frame of a snapshot, a trade, or none at all. -/
theorem apply_of_type {u : MEMarketUpdate}
    (h : u.type ∉ [.add, .modify, .cancel, .clear]) : b.apply u = b := by
  funext t s p
  unfold apply applyTo
  split
  · cases htype : u.type <;> simp_all
  · rfl

end MarketBook

/-! ## What a stream has built -/

/-- What a stream has built so far. -/
structure Feed where
  /-- for each ticker the `ADD`s of the orders still alive, as they are now, oldest first -/
  live : TickerId → List MEMarketUpdate
  /-- for each ticker the id of its last `ADD` -/
  lastId : TickerId → OrderId
  /-- the number of `ADD`s -/
  adds : Nat

namespace Feed

def empty : Feed := ⟨fun _ => [], fun _ => 0, 0⟩

def setLive (f : Feed) (t : TickerId) (os : List MEMarketUpdate) : Feed :=
  { f with live := Function.update f.live t os }

def step (f : Feed) (u : MEMarketUpdate) : Feed :=
  match u.type with
  | .add =>
    { live := Function.update f.live u.tickerId (f.live u.tickerId ++ [u])
      lastId := Function.update f.lastId u.tickerId u.orderId
      adds := f.adds + 1 }
  | .modify => f.setLive u.tickerId ((f.live u.tickerId).map fun o =>
      if o.orderId = u.orderId then { o with price := u.price, qty := u.qty } else o)
  | .cancel => f.setLive u.tickerId ((f.live u.tickerId).filter fun o => o.orderId ≠ u.orderId)
  | _ => f

def steps (f : Feed) (us : List MEMarketUpdate) : Feed := us.foldl step f

/-- An update of this type can come next. -/
def Continues (f : Feed) (u : MEMarketUpdate) : MarketUpdateType → Prop
  | .add => f.lastId u.tickerId < u.orderId ∧ u.orderId.toNat < meMaxOrderIds ∧
      f.adds + 1 < meMaxOrderIds
  | .modify => ∃ o ∈ f.live u.tickerId, o.orderId = u.orderId ∧ o.side = u.side ∧ o.price = u.price
  | .cancel => ∃ o ∈ f.live u.tickerId, o.orderId = u.orderId ∧ o.side = u.side
  | .trade => True
  | _ => False

/-- The update can come next. -/
def Admits (f : Feed) (u : MEMarketUpdate) : Prop :=
  u.tickerId.toNat < meMaxTickers ∧ f.Continues u u.type

instance (f : Feed) (u : MEMarketUpdate) : (type : MarketUpdateType) →
    Decidable (f.Continues u type)
  | .add => inferInstanceAs (Decidable (_ ∧ _ ∧ _))
  | .modify => inferInstanceAs (Decidable (∃ o ∈ f.live u.tickerId, _))
  | .cancel => inferInstanceAs (Decidable (∃ o ∈ f.live u.tickerId, _))
  | .trade => isTrue trivial
  | .invalid => isFalse id
  | .clear => isFalse id
  | .snapshotStart => isFalse id
  | .snapshotEnd => isFalse id
  | .unnamed _ => isFalse id

instance (f : Feed) (u : MEMarketUpdate) : Decidable (f.Admits u) :=
  inferInstanceAs (Decidable (_ ∧ _))

/-- The updates can come one after the other. -/
def Accepts (f : Feed) : List MEMarketUpdate → Prop
  | [] => True
  | u :: us => f.Admits u ∧ (f.step u).Accepts us

instance decidableAccepts : (f : Feed) → (us : List MEMarketUpdate) → Decidable (f.Accepts us)
  | _, [] => isTrue trivial
  | f, u :: us =>
    have := decidableAccepts (f.step u) us
    inferInstanceAs (Decidable (_ ∧ _))

variable {f : Feed} {u : MEMarketUpdate} {us us' : List MEMarketUpdate} {t : TickerId}

theorem steps_append : f.steps (us ++ us') = (f.steps us).steps us' := by
  simp [steps, List.foldl_append]

theorem accepts_append : f.Accepts (us ++ us') ↔ f.Accepts us ∧ (f.steps us).Accepts us' := by
  induction us generalizing f with
  | nil => simp [Accepts, steps]
  | cons u us ih => simp [Accepts, ih, and_assoc, steps]

theorem Accepts.take (h : f.Accepts us) (n : Nat) : f.Accepts (us.take n) := by
  rw [← List.take_append_drop n us, accepts_append] at h
  exact h.1

theorem step_live_of_ne (h : t ≠ u.tickerId) : (f.step u).live t = f.live t := by
  unfold step
  split
  · exact Function.update_of_ne h _ _
  · exact Function.update_of_ne h _ _
  · exact Function.update_of_ne h _ _
  · rfl

theorem step_lastId_of_ne (h : t ≠ u.tickerId) : (f.step u).lastId t = f.lastId t := by
  unfold step
  split
  · exact Function.update_of_ne h _ _
  · rfl
  · rfl
  · rfl

/-- The updates of other tickers do not matter to a ticker. -/
theorem steps_of_other (h : ∀ u ∈ us, t ≠ u.tickerId) :
    (f.steps us).live t = f.live t ∧ (f.steps us).lastId t = f.lastId t := by
  induction us generalizing f with
  | nil => exact ⟨rfl, rfl⟩
  | cons u us ih =>
    obtain ⟨hlive, hlast⟩ := ih (f := f.step u) fun u' hu' => h u' (List.mem_cons_of_mem _ hu')
    have hu := h u List.mem_cons_self
    exact ⟨hlive.trans (step_live_of_ne hu), hlast.trans (step_lastId_of_ne hu)⟩

/-- What holds of every feed: a ticker's orders are in the order of their ids, and each is a proper
`ADD` of its ticker. -/
structure Sound (f : Feed) : Prop where
  ascending : ∀ t, ((f.live t).map MEMarketUpdate.orderId).Pairwise (· < ·)
  isAdd : ∀ t, ∀ o ∈ f.live t, o.type = .add
  ticker : ∀ t, ∀ o ∈ f.live t, o.tickerId = t ∧ t.toNat < meMaxTickers
  id_le : ∀ t, ∀ o ∈ f.live t, o.orderId ≤ f.lastId t
  id_lt : ∀ t, ∀ o ∈ f.live t, o.orderId.toNat < meMaxOrderIds

namespace Sound

theorem empty : Feed.empty.Sound := by
  constructor <;> simp [Feed.empty]

/-- An id names one order. -/
theorem eq_of_id (h : f.Sound) {o o' : MEMarketUpdate} (ho : o ∈ f.live t) (ho' : o' ∈ f.live t)
    (hid : o.orderId = o'.orderId) : o = o' := by
  have hnd : ((f.live t).map MEMarketUpdate.orderId).Nodup :=
    (h.ascending t).imp fun hlt => by grind
  exact List.inj_on_of_nodup_map hnd ho ho' hid

theorem add (h : f.Sound) (ha : f.Admits u) (htype : u.type = .add) : (f.step u).Sound := by
  unfold Admits Continues at ha
  rw [htype] at ha
  obtain ⟨hticker, hnew, hid, -⟩ := ha
  unfold step
  rw [htype]
  have hlive : ∀ t, ∀ o ∈ Function.update f.live u.tickerId (f.live u.tickerId ++ [u]) t,
      o ∈ f.live t ∨ (o = u ∧ t = u.tickerId) := by
    intro t o ho
    by_cases ht : t = u.tickerId
    · subst ht
      rw [Function.update_self] at ho
      rcases List.mem_append.mp ho with ho | ho
      · exact Or.inl ho
      · exact Or.inr ⟨List.mem_singleton.mp ho, rfl⟩
    · rw [Function.update_of_ne ht] at ho
      exact Or.inl ho
  constructor
  · intro t
    dsimp only
    by_cases ht : t = u.tickerId
    · subst ht
      rw [Function.update_self, List.map_append, List.pairwise_append]
      refine ⟨h.ascending _, by simp, ?_⟩
      intro x hx y hy
      obtain ⟨o, ho, rfl⟩ := List.mem_map.mp hx
      rw [List.map_singleton, List.mem_singleton] at hy
      have hle := h.id_le _ o ho
      rw [hy]
      grind
    · rw [Function.update_of_ne ht]
      exact h.ascending t
  · intro t o ho
    rcases hlive t o ho with ho | ⟨rfl, -⟩
    · exact h.isAdd t o ho
    · exact htype
  · intro t o ho
    rcases hlive t o ho with ho | ⟨rfl, rfl⟩
    · exact h.ticker t o ho
    · exact ⟨rfl, hticker⟩
  · intro t o ho
    dsimp only
    by_cases ht : t = u.tickerId
    · subst ht
      rw [Function.update_self]
      rcases hlive _ o ho with ho | ⟨rfl, -⟩
      · have hle := h.id_le _ o ho
        grind
      · exact UInt64.le_refl _
    · rw [Function.update_of_ne ht]
      rcases hlive t o ho with ho | ⟨-, heq⟩
      · exact h.id_le t o ho
      · exact absurd heq ht
  · intro t o ho
    rcases hlive t o ho with ho | ⟨rfl, -⟩
    · exact h.id_lt t o ho
    · exact hid

/-- Changing or dropping orders under their ids keeps the rest. -/
theorem change (h : f.Sound) {os : List MEMarketUpdate}
    (hids : (os.map MEMarketUpdate.orderId).Sublist ((f.live t).map MEMarketUpdate.orderId))
    (hos : ∀ o ∈ os, o.type = .add ∧ o.tickerId = t ∧ t.toNat < meMaxTickers) :
    (f.setLive t os).Sound := by
  unfold setLive
  have hmem : ∀ o ∈ os, ∃ o' ∈ f.live t, o'.orderId = o.orderId := by
    intro o ho
    have := hids.subset (List.mem_map_of_mem ho)
    exact List.mem_map.mp this
  have hcase : ∀ t', ∀ o ∈ Function.update f.live t os t',
      (t' = t ∧ o ∈ os) ∨ o ∈ f.live t' := by
    intro t' o ho
    by_cases ht : t' = t
    · subst ht
      rw [Function.update_self] at ho
      exact Or.inl ⟨rfl, ho⟩
    · rw [Function.update_of_ne ht] at ho
      exact Or.inr ho
  constructor
  · intro t'
    dsimp only
    by_cases ht : t' = t
    · subst ht
      rw [Function.update_self]
      exact (h.ascending t').sublist hids
    · rw [Function.update_of_ne ht]
      exact h.ascending t'
  · intro t' o ho
    rcases hcase t' o ho with ⟨-, hos'⟩ | ho
    · exact (hos o hos').1
    · exact h.isAdd t' o ho
  · intro t' o ho
    rcases hcase t' o ho with ⟨rfl, hos'⟩ | ho
    · exact (hos o hos').2
    · exact h.ticker t' o ho
  · intro t' o ho
    rcases hcase t' o ho with ⟨rfl, hos'⟩ | ho
    · obtain ⟨o', ho', hid⟩ := hmem o hos'
      rw [← hid]
      exact h.id_le _ o' ho'
    · exact h.id_le t' o ho
  · intro t' o ho
    rcases hcase t' o ho with ⟨rfl, hos'⟩ | ho
    · obtain ⟨o', ho', hid⟩ := hmem o hos'
      rw [← hid]
      exact h.id_lt _ o' ho'
    · exact h.id_lt t' o ho

/-- **Step lemma.** -/
theorem step (h : f.Sound) (ha : f.Admits u) : (f.step u).Sound := by
  cases htype : u.type with
  | add => exact h.add ha htype
  | modify =>
    unfold Feed.step
    rw [htype]
    apply h.change
    · rw [List.map_map]
      have hids : (MEMarketUpdate.orderId ∘ fun o : MEMarketUpdate =>
          if o.orderId = u.orderId then { o with price := u.price, qty := u.qty } else o) =
          MEMarketUpdate.orderId := by
        funext o
        simp only [Function.comp]
        split <;> rfl
      rw [hids]
    · intro o ho
      obtain ⟨o₀, ho₀, rfl⟩ := List.mem_map.mp ho
      have hadd := h.isAdd _ o₀ ho₀
      have hticker := h.ticker _ o₀ ho₀
      split
      · exact ⟨hadd, hticker⟩
      · exact ⟨hadd, hticker⟩
  | cancel =>
    unfold Feed.step
    rw [htype]
    apply h.change
    · exact List.Sublist.map _ List.filter_sublist
    · intro o ho
      have ho := List.mem_of_mem_filter ho
      exact ⟨h.isAdd _ o ho, h.ticker _ o ho⟩
  | trade =>
    unfold Feed.step
    rw [htype]
    exact h
  | _ =>
    unfold Admits Continues at ha
    rw [htype] at ha
    exact absurd ha.2 (by simp)

theorem steps (h : f.Sound) (ha : f.Accepts us) : (f.steps us).Sound := by
  induction us generalizing f with
  | nil => exact h
  | cons u us ih => exact ih (h.step ha.1) ha.2

end Sound

/-! ## The book of a feed -/

/-- The levels: the orders of one side and price, in the order of their arrival. -/
def book (f : Feed) : MarketBook := fun t s p =>
  ((f.live t).filter fun o => o.side = s ∧ o.price = p).map MEMarketUpdate.order

theorem book_empty : Feed.empty.book = MarketBook.empty := rfl

/-- **Applying an update to the book of a feed** gives the book of the feed one update on. -/
theorem book_step (h : f.Sound) (ha : f.Admits u) : f.book.apply u = (f.step u).book := by
  funext t s p
  by_cases ht : t = u.tickerId
  · subst ht
    unfold MarketBook.apply MarketBook.applyTo
    rw [if_pos rfl]
    cases htype : u.type with
    | add =>
      simp only [book, step, htype, Function.update_self, List.filter_append, List.map_append]
      by_cases hsp : s = u.side ∧ p = u.price
      · obtain ⟨rfl, rfl⟩ := hsp
        simp
      · have hsp' : ¬ (u.side = s ∧ u.price = p) := fun h => hsp ⟨h.1.symm, h.2.symm⟩
        simp [hsp, hsp']
    | modify =>
      unfold Admits Continues at ha
      rw [htype] at ha
      obtain ⟨-, o₀, ho₀, hid, hside, hprice⟩ := ha
      simp only [book, step, htype, setLive, Function.update_self]
      rw [List.filter_map, List.map_map, List.map_map]
      -- the price of the order stays: the update carries its own
      have hfilter : (f.live u.tickerId).filter ((fun o => decide (o.side = s ∧ o.price = p)) ∘
          fun o => if o.orderId = u.orderId then { o with price := u.price, qty := u.qty } else o) =
          (f.live u.tickerId).filter fun o => o.side = s ∧ o.price = p := by
        apply List.filter_congr
        intro o ho
        simp only [Function.comp]
        split
        · next heq =>
          rw [h.eq_of_id ho ho₀ (heq.trans hid.symm), hprice]
        · rfl
      rw [hfilter]
      apply List.map_congr_left
      intro o _
      simp only [Function.comp, MEMarketUpdate.order]
      by_cases hid' : o.orderId = u.orderId
      · simp [hid']
      · simp [hid']
    | cancel =>
      simp only [book, step, htype, setLive, Function.update_self]
      rw [List.filter_map, List.filter_comm]
      rfl
    | trade => simp only [book, step, htype]
    | _ =>
      unfold Admits Continues at ha
      rw [htype] at ha
      exact absurd ha.2 (by simp)
  · unfold MarketBook.apply
    rw [if_neg ht]
    unfold book
    rw [step_live_of_ne ht]

/-- **Run lemma.** -/
theorem book_steps (h : f.Sound) (ha : f.Accepts us) :
    f.book.applyAll us = (f.steps us).book := by
  induction us generalizing f with
  | nil => rfl
  | cons u us ih =>
    rw [MarketBook.applyAll_cons, book_step h ha.1, ih (h.step ha.1) ha.2]
    rfl

end Feed

/-- The stream keeps the discipline of the exchange. -/
def WellFormed (us : List MEMarketUpdate) : Prop := Feed.empty.Accepts us

instance (us : List MEMarketUpdate) : Decidable (WellFormed us) :=
  inferInstanceAs (Decidable (Feed.Accepts _ _))

namespace WellFormed

variable {us : List MEMarketUpdate}

theorem take (h : WellFormed us) (n : Nat) : WellFormed (us.take n) := Feed.Accepts.take h n

theorem sound (h : WellFormed us) : (Feed.empty.steps us).Sound := Feed.Sound.empty.steps h

/-- **Replaying a well-formed stream** builds the book of its feed. -/
theorem replay (h : WellFormed us) :
    MarketBook.empty.applyAll us = (Feed.empty.steps us).book := by
  rw [← Feed.book_empty]
  exact Feed.book_steps Feed.Sound.empty h

end WellFormed

end TradingSystem
