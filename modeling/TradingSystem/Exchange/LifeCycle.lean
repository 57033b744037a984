import TradingSystem.Exchange.Trades

/-!
# The life of an order

`History` is what the responses that carry one market order id may look like: an `ACCEPTED`, then
fills, each of a positive part of what is outstanding and at a price no worse than the limit, then
possibly a `CANCELLED` of what is outstanding. `Ledger` ties the responses so far to the book: every
order accepted so far has a history, and rests exactly while something of it is outstanding, with
that quantity. While a request is being matched its own order is not in the book yet; it is the
ledger's `pending` order.

Ids come from a 64-bit counter, and the last id is the one a rejected cancel carries, so all this
holds as long as fewer than `2 ^ 64 - 1` orders were accepted.
-/

namespace TradingSystem

open MEOrderBook (stops)

/-- The id of the `i`-th `NEW` request of a run. -/
def idOf (i : Nat) : OrderId := UInt64.ofNat (i + 1)

/-- The responses that carry an id. -/
def carrying (id : OrderId) (xs : List MEClientResponse) : List MEClientResponse :=
  xs.filter fun x => x.marketOrderId = id

/-- The response is about the order of the request `r`. -/
structure Names (ticker : TickerId) (id : OrderId) (r : MEClientRequest) (x : MEClientResponse) :
    Prop where
  marketOrderId : x.marketOrderId = id
  clientId : x.clientId = r.clientId
  clientOrderId : x.clientOrderId = r.orderId
  tickerId : x.tickerId = ticker
  side : x.side = r.side

/-- The price satisfies the limit of the request. -/
def NoWorse (r : MEClientRequest) (price : Price) : Prop :=
  (r.side = .buy → price ≤ r.price) ∧ (r.side = .sell → r.price ≤ price)

/-- The responses about the order of the request `r`, and what is outstanding of it after them.
Nothing can follow once nothing is outstanding. -/
inductive History (ticker : TickerId) (id : OrderId) (r : MEClientRequest) :
    List MEClientResponse → Qty → Prop
  | accepted {x : MEClientResponse} (names : Names ticker id r x) (type : x.type = .accepted)
      (left : x.leftQty = r.qty) : History ticker id r [x] r.qty
  | filled {xs : List MEClientResponse} {x : MEClientResponse} {outstanding : Qty}
      (before : History ticker id r xs outstanding) (names : Names ticker id r x)
      (type : x.type = .filled) (pos : 0 < x.execQty) (le : x.execQty ≤ outstanding)
      (left : x.leftQty = outstanding - x.execQty) (price : NoWorse r x.price) :
      History ticker id r (xs ++ [x]) x.leftQty
  | cancelled {xs : List MEClientResponse} {x : MEClientResponse} {outstanding : Qty}
      (before : History ticker id r xs outstanding) (pos : 0 < outstanding)
      (names : Names ticker id r x) (type : x.type = .cancelled) (left : x.leftQty = outstanding) :
      History ticker id r (xs ++ [x]) 0

/-- The order of the request `r`, under its id. -/
structure OrderInfo.IsOf (o : OrderInfo) (ticker : TickerId) (id : OrderId) (r : MEClientRequest) :
    Prop where
  marketOrderId : o.marketOrderId = id
  clientId : o.clientId = r.clientId
  clientOrderId : o.clientOrderId = r.orderId
  tickerId : o.tickerId = ticker
  side : o.side = r.side
  price : o.price = r.price

/-! ## Ids -/

theorem idOf_inj {i j : Nat} (hi : i < 2 ^ 64 - 1) (hj : j < 2 ^ 64 - 1) (h : idOf i = idOf j) :
    i = j := by
  have := congrArg UInt64.toNat h
  simp only [idOf, UInt64.toNat_ofNat'] at this
  omega

theorem idOf_lt {i j : Nat} (hij : i < j) (hj : j < 2 ^ 64 - 1) : idOf i < idOf j := by
  rw [UInt64.lt_iff_toNat_lt]
  simp only [idOf, UInt64.toNat_ofNat']
  omega

theorem idOf_succ (i : Nat) : idOf i + 1 = idOf (i + 1) := by
  unfold idOf
  rw [UInt64.ofNat_add (i + 1) 1]
  rfl

theorem idOf_ne_invalid {i : Nat} (hi : i < 2 ^ 64 - 2) : idOf i ≠ orderIdInvalid := by
  intro h
  have := congrArg UInt64.toNat h
  simp only [idOf, UInt64.toNat_ofNat'] at this
  change (i + 1) % 2 ^ 64 = 18446744073709551615 at this
  omega

@[simp] theorem carrying_append (id : OrderId) (xs ys : List MEClientResponse) :
    carrying id (xs ++ ys) = carrying id xs ++ carrying id ys :=
  List.filter_append xs ys

theorem carrying_self {id : OrderId} {x : MEClientResponse} (h : x.marketOrderId = id) :
    carrying id [x] = [x] := by
  simp [carrying, h]

theorem carrying_of_ne {id : OrderId} {x : MEClientResponse} (h : x.marketOrderId ≠ id) :
    carrying id [x] = [] := by
  simp [carrying, h]

/-! ## The ledger -/

/-- The order `o` is that of the `i`-th request, and its history leaves its quantity outstanding. -/
structure Account (ticker : TickerId) (reqs : List MEClientRequest) (xs : List MEClientResponse)
    (o : OrderInfo) (i : Nat) : Prop where
  isOf : ∃ r, reqs[i]? = some r ∧ o.IsOf ticker (idOf i) r ∧
    History ticker (idOf i) r (carrying (idOf i) xs) o.qty

/-- The responses `xs` to the `NEW` requests `reqs` and to cancels agree with the book `k` and with
the order `aggr` that is being matched. -/
structure Ledger (ticker : TickerId) (reqs : List MEClientRequest) (xs : List MEClientResponse)
    (k : Book) (aggr : Option OrderInfo) : Prop where
  nodup : (k.entries.map fun e => e.info.marketOrderId).Nodup
  apart : ∀ o ∈ aggr, ∀ e ∈ k.entries, e.info.marketOrderId ≠ o.marketOrderId
  entry : ∀ e ∈ k.entries, ∃ i, Account ticker reqs xs e.info i
  aggressor : ∀ o ∈ aggr, ∃ i, Account ticker reqs xs o i
  closed : ∀ i r, reqs[i]? = some r → (∀ e ∈ k.entries, e.info.marketOrderId ≠ idOf i) →
    (∀ o ∈ aggr, o.marketOrderId ≠ idOf i) →
    History ticker (idOf i) r (carrying (idOf i) xs) 0
  others : ∀ x ∈ xs, (x.type = .cancelRejected ∧ x.marketOrderId = orderIdInvalid) ∨
    ∃ i < reqs.length, x.marketOrderId = idOf i
  bound : reqs.length < 2 ^ 64 - 1

variable {ticker : TickerId} {reqs : List MEClientRequest} {xs : List MEClientResponse} {k k' : Book}
  {aggr : Option OrderInfo} {o : OrderInfo} {x : MEClientResponse} {r : MEClientRequest}
  {e e' : Entry} {i : Nat}

namespace Account

theorem id_eq (h : Account ticker reqs xs o i) : o.marketOrderId = idOf i := by
  obtain ⟨r, -, hof, -⟩ := h.isOf
  exact hof.marketOrderId

theorem lt (h : Account ticker reqs xs o i) : i < reqs.length := by
  obtain ⟨r, hr, -⟩ := h.isOf
  exact (List.getElem?_eq_some_iff.mp hr).1

/-- A response about another order does not concern the account. -/
theorem other (h : Account ticker reqs xs o i) (hx : x.marketOrderId ≠ o.marketOrderId) :
    Account ticker reqs (xs ++ [x]) o i := by
  obtain ⟨r, hr, hof, hhist⟩ := h.isOf
  rw [h.id_eq] at hx
  refine ⟨r, hr, hof, ?_⟩
  rwa [carrying_append, carrying_of_ne hx, List.append_nil]

/-- A fill of the order. -/
theorem filled (h : Account ticker reqs xs o i) (hid : x.marketOrderId = o.marketOrderId)
    (hc : x.clientId = o.clientId) (ho : x.clientOrderId = o.clientOrderId)
    (ht : x.tickerId = ticker) (hs : x.side = o.side) (htype : x.type = .filled)
    (hpos : 0 < x.execQty) (hle : x.execQty ≤ o.qty) (hleft : x.leftQty = o.qty - x.execQty)
    (hprice : (o.side = .buy → x.price ≤ o.price) ∧ (o.side = .sell → o.price ≤ x.price)) :
    Account ticker reqs (xs ++ [x]) { o with qty := x.leftQty } i ∧
      ∃ r, reqs[i]? = some r ∧ History ticker (idOf i) r (carrying (idOf i) (xs ++ [x])) x.leftQty := by
  obtain ⟨r, hr, hof, hhist⟩ := h.isOf
  have hnew : History ticker (idOf i) r (carrying (idOf i) (xs ++ [x])) x.leftQty := by
    rw [carrying_append, carrying_self (hid.trans h.id_eq)]
    refine History.filled hhist ⟨hid.trans h.id_eq, hc.trans hof.clientId, ho.trans hof.clientOrderId,
      ht, hs.trans hof.side⟩ htype hpos hle hleft ?_
    rw [hof.side, hof.price] at hprice
    exact hprice
  exact ⟨⟨r, hr, ⟨hof.marketOrderId, hof.clientId, hof.clientOrderId, hof.tickerId, hof.side,
    hof.price⟩, hnew⟩, r, hr, hnew⟩

end Account

namespace Ledger

theorem eq_of_id (h : Ledger ticker reqs xs k aggr) (he : e ∈ k.entries) (he' : e' ∈ k.entries)
    (hid : e.info.marketOrderId = e'.info.marketOrderId) : e = e' :=
  List.inj_on_of_nodup_map h.nodup he he' hid

/-- A history a response does not belong to. -/
theorem closed_other (h : Ledger ticker reqs xs k aggr) (hr : reqs[i]? = some r)
    (hx : x.marketOrderId ≠ idOf i) (hk : ∀ e ∈ k.entries, e.info.marketOrderId ≠ idOf i)
    (ha : ∀ o ∈ aggr, o.marketOrderId ≠ idOf i) :
    History ticker (idOf i) r (carrying (idOf i) (xs ++ [x])) 0 := by
  rw [carrying_append, carrying_of_ne hx, List.append_nil]
  exact h.closed i r hr hk ha

/-- A new order is accepted and will be matched. -/
theorem accept (h : Ledger ticker reqs xs k none) (hbound : reqs.length < 2 ^ 64 - 2)
    (hof : o.IsOf ticker (idOf reqs.length) r) (hqty : o.qty = r.qty)
    (hnames : Names ticker (idOf reqs.length) r x) (htype : x.type = .accepted)
    (hleft : x.leftQty = r.qty) (hk : k'.entries = k.entries) :
    Ledger ticker (reqs ++ [r]) (xs ++ [x]) k' (some o) := by
  have hfresh : ∀ {i}, i < reqs.length → idOf i ≠ idOf reqs.length := by
    intro i hi heq
    have := idOf_inj (by omega) (by omega) heq
    omega
  -- no response so far carries the new id
  have hnone : carrying (idOf reqs.length) xs = [] := by
    rw [carrying, List.filter_eq_nil_iff]
    intro y hy hid
    rcases h.others y hy with ⟨-, hinv⟩ | ⟨i, hi, hyi⟩
    · exact idOf_ne_invalid hbound ((of_decide_eq_true hid).symm.trans hinv)
    · exact hfresh hi (hyi.symm.trans (of_decide_eq_true hid))
  have hhist : History ticker (idOf reqs.length) r (carrying (idOf reqs.length) (xs ++ [x])) r.qty := by
    rw [carrying_append, hnone, carrying_self hnames.marketOrderId]
    exact History.accepted hnames htype hleft
  have hold : ∀ {o i}, Account ticker reqs xs o i → Account ticker (reqs ++ [r]) (xs ++ [x]) o i := by
    intro o i hacc
    have hne : x.marketOrderId ≠ o.marketOrderId := by
      rw [hnames.marketOrderId, hacc.id_eq]
      exact (hfresh hacc.lt).symm
    obtain ⟨r', hr', hrest⟩ := (hacc.other hne).isOf
    exact ⟨r', by rw [List.getElem?_append_left hacc.lt, hr'], hrest⟩
  refine ⟨hk ▸ h.nodup, ?_, ?_, ?_, ?_, ?_, by rw [List.length_append, List.length_singleton]; omega⟩
  · intro o' ho' e he
    obtain rfl := Option.some.inj ho'
    obtain ⟨i, hacc⟩ := h.entry e (hk ▸ he)
    rw [hacc.id_eq, hof.marketOrderId]
    exact hfresh hacc.lt
  · intro e he
    obtain ⟨i, hacc⟩ := h.entry e (hk ▸ he)
    exact ⟨i, hold hacc⟩
  · intro o' ho'
    obtain rfl := Option.some.inj ho'
    refine ⟨reqs.length, r, by simp, hof, ?_⟩
    rw [hqty]
    exact hhist
  · intro i r' hr' hke ha
    rcases Nat.lt_or_ge i reqs.length with hi | hi
    · rw [List.getElem?_append_left hi] at hr'
      refine h.closed_other hr' ?_ (fun e he => hke e (hk ▸ he)) (by simp)
      rw [hnames.marketOrderId]
      exact (hfresh hi).symm
    · have hilt := (List.getElem?_eq_some_iff.mp hr').1
      rw [List.length_append, List.length_singleton] at hilt
      obtain rfl : i = reqs.length := by omega
      exact absurd hof.marketOrderId (ha o rfl)
  · intro y hy
    rw [List.length_append, List.length_singleton]
    rcases List.mem_append.mp hy with hy | hy
    · rcases h.others y hy with hrej | ⟨i, hi, hyi⟩
      · exact Or.inl hrej
      · exact Or.inr ⟨i, by omega, hyi⟩
    · rw [List.mem_singleton.mp hy]
      exact Or.inr ⟨reqs.length, by omega, hnames.marketOrderId⟩

theorem others_append (h : Ledger ticker reqs xs k aggr) (hi : i < reqs.length)
    (hx : x.marketOrderId = idOf i) :
    ∀ y ∈ xs ++ [x], (y.type = .cancelRejected ∧ y.marketOrderId = orderIdInvalid) ∨
      ∃ i < reqs.length, y.marketOrderId = idOf i := by
  intro y hy
  rcases List.mem_append.mp hy with hy | hy
  · exact h.others y hy
  · rw [List.mem_singleton.mp hy]
    exact Or.inr ⟨i, hi, hx⟩

/-- The aggressor's side of a match. -/
theorem fillAggressor (h : Ledger ticker reqs xs k (some o))
    (hfill : ∀ i, Account ticker reqs xs o i →
      Account ticker reqs (xs ++ [x]) { o with qty := x.leftQty } i)
    (hid : x.marketOrderId = o.marketOrderId) :
    Ledger ticker reqs (xs ++ [x]) k (some { o with qty := x.leftQty }) := by
  obtain ⟨i, hacc⟩ := h.aggressor o rfl
  refine ⟨h.nodup, ?_, ?_, ?_, ?_, h.others_append hacc.lt (hid.trans hacc.id_eq), h.bound⟩
  · intro o' ho'
    obtain rfl := Option.some.inj ho'
    exact h.apart o rfl
  · intro e he
    obtain ⟨j, hacc'⟩ := h.entry e he
    refine ⟨j, hacc'.other ?_⟩
    rw [hid]
    exact (h.apart o rfl e he).symm
  · intro o' ho'
    obtain rfl := Option.some.inj ho'
    exact ⟨i, hfill i hacc⟩
  · intro j r hr hke ha
    have hne := ha _ rfl
    refine h.closed_other hr (by rw [hid]; exact hne) hke ?_
    intro o' ho'
    obtain rfl := Option.some.inj ho'
    exact hne

/-- The passive order's side of a match. -/
theorem fillPassive (h : Ledger ticker reqs xs k aggr) (hk : k.Lists) {f : Fill}
    (hp : f.passive ∈ k.entries) (hleft : x.leftQty = f.passive.info.qty - f.exec)
    (hfill : ∀ i, Account ticker reqs xs f.passive.info i →
      Account ticker reqs (xs ++ [x]) { f.passive.info with qty := x.leftQty } i ∧
        ∃ r, reqs[i]? = some r ∧
          History ticker (idOf i) r (carrying (idOf i) (xs ++ [x])) x.leftQty)
    (hid : x.marketOrderId = f.passive.info.marketOrderId) :
    Ledger ticker reqs (xs ++ [x]) (k.fill f) aggr := by
  obtain ⟨i, hacc⟩ := h.entry f.passive hp
  obtain ⟨hacc', r₀, hr₀, hhist⟩ := hfill i hacc
  refine ⟨h.nodup.sublist (Book.fill_map_sublist (fun _ _ => rfl) f), ?_, ?_, ?_, ?_,
    h.others_append hacc.lt (hid.trans hacc.id_eq), h.bound⟩
  · intro o ho e he
    rcases (Book.mem_fill_iff hk hp).mp he with ⟨he, -⟩ | ⟨-, rfl⟩
    · exact h.apart o ho e he
    · exact h.apart o ho f.passive hp
  · intro e he
    rcases (Book.mem_fill_iff hk hp).mp he with ⟨he, hne⟩ | ⟨-, rfl⟩
    · obtain ⟨j, haccj⟩ := h.entry e he
      refine ⟨j, haccj.other ?_⟩
      rw [hid]
      exact fun heq => hne (h.eq_of_id he hp heq.symm)
    · exact ⟨i, hleft ▸ hacc'⟩
  · intro o ho
    obtain ⟨j, haccj⟩ := h.aggressor o ho
    refine ⟨j, haccj.other ?_⟩
    rw [hid]
    exact h.apart o ho f.passive hp
  · intro j r hr hke ha
    by_cases hji : j = i
    · -- the passive order itself: it has left the book, so nothing is left of it
      subst hji
      obtain rfl := Option.some.inj (hr₀.symm.trans hr)
      have hzero : f.passive.info.qty - f.exec = 0 := by
        by_contra hne
        exact hke _ ((Book.mem_fill_iff hk hp).mpr (Or.inr ⟨hne, rfl⟩)) hacc.id_eq
      rw [hleft, hzero] at hhist
      exact hhist
    · have hne : x.marketOrderId ≠ idOf j := by
        intro heq
        have hjlt := (List.getElem?_eq_some_iff.mp hr).1
        have hbound := h.bound
        have hilt := hacc.lt
        exact hji (idOf_inj (by omega) (by omega)
          (heq.symm.trans (hid.trans hacc.id_eq)))
      refine h.closed_other hr hne ?_ ha
      intro e he heq
      by_cases hep : e = f.passive
      · subst hep
        exact hne (hid.trans heq)
      · exact hke e ((Book.mem_fill_iff hk hp).mpr (Or.inl ⟨he, hep⟩)) heq

/-- What is left of the order that was matched rests. -/
theorem rest (h : Ledger ticker reqs xs k (some o)) (hk : k.Lists) {p : Priority}
    (he : e.info = { o with priority := p }) (lp : LevelPtr) :
    Ledger ticker reqs xs (k.rest e lp) none := by
  have hid : e.info.marketOrderId = o.marketOrderId := by rw [he]
  refine ⟨?_, by simp, ?_, by simp, ?_, h.others, h.bound⟩
  · rw [((Book.rest_entries_perm hk e lp).map _).nodup_iff, List.map_cons, List.nodup_cons]
    refine ⟨fun hmem => ?_, h.nodup⟩
    obtain ⟨e', he', hid'⟩ := List.mem_map.mp hmem
    exact h.apart o rfl e' he' (hid'.trans hid)
  · intro e' he'
    rcases (Book.mem_rest_entries hk).mp he' with rfl | he'
    · obtain ⟨i, r, hr, hof, hhist⟩ := h.aggressor o rfl
      rw [he]
      exact ⟨i, r, hr, ⟨hof.marketOrderId, hof.clientId, hof.clientOrderId, hof.tickerId, hof.side,
        hof.price⟩, hhist⟩
    · exact h.entry e' he'
  · intro i r hr hke _
    refine h.closed i r hr (fun e' he' => hke e' ((Book.mem_rest_entries hk).mpr (Or.inr he'))) ?_
    intro o' ho'
    obtain rfl := Option.some.inj ho'
    rw [← hid]
    exact hke e ((Book.mem_rest_entries hk).mpr (Or.inl rfl))

/-- Nothing is left of the order that was matched. -/
theorem drop (h : Ledger ticker reqs xs k (some o)) (hzero : o.qty = 0) :
    Ledger ticker reqs xs k none := by
  refine ⟨h.nodup, by simp, h.entry, by simp, ?_, h.others, h.bound⟩
  intro i r hr hke _
  obtain ⟨j, r', hr', hof, hhist⟩ := h.aggressor o rfl
  by_cases hid : idOf j = idOf i
  · have hjlt := (List.getElem?_eq_some_iff.mp hr').1
    have hilt := (List.getElem?_eq_some_iff.mp hr).1
    have hbound := h.bound
    obtain rfl := idOf_inj (by omega) (by omega) hid
    obtain rfl := Option.some.inj (hr'.symm.trans hr)
    rwa [hzero] at hhist
  · refine h.closed i r hr hke ?_
    intro o' ho'
    obtain rfl := Option.some.inj ho'
    rw [hof.marketOrderId]
    exact hid

/-- A resting order is cancelled. -/
theorem cancel (h : Ledger ticker reqs xs k none) (hk : k.Lists) (he : e ∈ k.entries)
    (hpos : 0 < e.info.qty) (hid : x.marketOrderId = e.info.marketOrderId)
    (hc : x.clientId = e.info.clientId) (ho : x.clientOrderId = e.info.clientOrderId)
    (ht : x.tickerId = ticker) (hs : x.side = e.info.side) (htype : x.type = .cancelled)
    (hleft : x.leftQty = e.info.qty) : Ledger ticker reqs (xs ++ [x]) (k.remove e) none := by
  obtain ⟨i, hacc⟩ := h.entry e he
  have hsub : ((k.remove e).entries.map fun e => e.info.marketOrderId).Sublist
      (k.entries.map fun e => e.info.marketOrderId) := by
    rw [Book.remove, Book.setCidOid_entries, Book.filter_entries]
    exact (Book.keeps_dropping _).map_sublist (fun _ _ => rfl) _
  refine ⟨h.nodup.sublist hsub, by simp, ?_, by simp, ?_,
    h.others_append hacc.lt (hid.trans hacc.id_eq), h.bound⟩
  · intro e' he'
    obtain ⟨he', hne⟩ := (Book.mem_remove_entries hk he).mp he'
    obtain ⟨j, haccj⟩ := h.entry e' he'
    refine ⟨j, haccj.other ?_⟩
    rw [hid]
    exact fun heq => hne (h.eq_of_id he' he heq.symm)
  · intro j r hr hke _
    by_cases hxj : x.marketOrderId = idOf j
    · obtain ⟨r', hr', hof, hhist⟩ := hacc.isOf
      have hilt := hacc.lt
      have hjlt := (List.getElem?_eq_some_iff.mp hr).1
      have hbound := h.bound
      obtain rfl : i = j := idOf_inj (by omega) (by omega)
        (hacc.id_eq.symm.trans (hid.symm.trans hxj))
      obtain rfl := Option.some.inj (hr'.symm.trans hr)
      rw [carrying_append, carrying_self hxj]
      exact History.cancelled hhist hpos ⟨hxj, hc.trans hof.clientId, ho.trans hof.clientOrderId,
        ht, hs.trans hof.side⟩ htype hleft
    · refine h.closed_other hr hxj ?_ (by simp)
      intro e' he' heq
      by_cases hee : e' = e
      · subst hee
        exact hxj (hid.trans heq)
      · exact hke e' ((Book.mem_remove_entries hk he).mpr ⟨he', hee⟩) heq

/-- A cancel is rejected: its response carries no order's id. -/
theorem reject (h : Ledger ticker reqs xs k none) (htype : x.type = .cancelRejected)
    (hid : x.marketOrderId = orderIdInvalid) : Ledger ticker reqs (xs ++ [x]) k none := by
  have hne : ∀ {i}, i < reqs.length → x.marketOrderId ≠ idOf i := by
    intro i hi heq
    have hbound := h.bound
    exact idOf_ne_invalid (by omega) (heq.symm.trans hid)
  refine ⟨h.nodup, by simp, ?_, by simp, ?_, ?_, h.bound⟩
  · intro e he
    obtain ⟨i, hacc⟩ := h.entry e he
    refine ⟨i, hacc.other ?_⟩
    rw [hacc.id_eq]
    exact hne hacc.lt
  · intro i r hr hke ha
    exact h.closed_other hr (hne (List.getElem?_eq_some_iff.mp hr).1) hke ha
  · intro y hy
    rcases List.mem_append.mp hy with hy | hy
    · exact h.others y hy
    · rw [List.mem_singleton.mp hy]
      exact Or.inl ⟨htype, hid⟩

end Ledger

/-! ## Requests -/

/-- Successive fills of one incoming order, each at a price that does not stop it. -/
def FillChain (s : Side) (price : Price) : Qty → List Fill → Prop
  | _, [] => True
  | left, f :: fs =>
    (f.exec ≤ left ∧ f.left = left - f.exec ∧ stops s price f.passive.info.price = false) ∧
      FillChain s price f.left fs

theorem fills_chain (s : Side) (price : Price) (left : Qty) (es : List Entry) :
    FillChain s price left (fills s price left es) := by
  induction es generalizing left with
  | nil => trivial
  | cons e es ih =>
    cases hstop : stops s price e.info.price with
    | true =>
      rw [fills_stop hstop]
      trivial
    | false =>
      by_cases hzero : left = 0
      · subst hzero
        rw [fills_zero]
        trivial
      · rw [fills_cons hzero hstop]
        refine ⟨⟨?_, rfl, hstop⟩, ih _⟩
        show (if left < e.info.qty then left else e.info.qty) ≤ left
        split <;> grind

namespace Ledger

/-- The matches of the order `a`, of which `left` is outstanding before them. -/
theorem applyFills {a : OrderInfo} {left : Qty} {fs : List Fill}
    (h : Ledger ticker reqs xs k (some { a with qty := left })) (hk : k.WF)
    (hok : k.OkAll (fs.map (.fill a))) (hchain : FillChain a.side a.price left fs) :
    Ledger ticker reqs (xs ++ (fs.map (.fill a)).flatMap (Event.responses ticker))
      (k.applyAll (fs.map (.fill a))) (some { a with qty := leftOver left fs }) := by
  induction fs generalizing k xs left with
  | nil =>
    rw [List.map_nil, List.flatMap_nil, List.append_nil]
    exact h
  | cons f fs ih =>
    obtain ⟨⟨hle, hleft, hstop⟩, hchain⟩ := hchain
    have hokf : f.passive ∈ k.entries ∧ 0 < f.exec ∧ f.exec ≤ f.passive.info.qty := hok.1
    -- first the aggressor's response, then the passive order's
    have hprice : (a.side = .buy → f.passive.info.price ≤ a.price) ∧
        (a.side = .sell → a.price ≤ f.passive.info.price) := by
      refine ⟨fun hs => ?_, fun hs => ?_⟩ <;> rw [hs] at hstop <;>
        simp only [stops, decide_eq_false_iff_not] at hstop <;> grind
    have h₁ := h.fillAggressor (x := aggressorFilled ticker (a, f)) (fun i hacc =>
      (hacc.filled rfl rfl rfl rfl rfl rfl hokf.2.1 hle hleft hprice).1) rfl
    have h₂ := h₁.fillPassive (x := passiveFilled ticker (a, f)) hk.toLists hokf.1 rfl
      (fun i hacc => hacc.filled rfl rfl rfl rfl rfl rfl hokf.2.1 hokf.2.2 rfl
        ⟨fun _ => UInt64.le_refl _, fun _ => UInt64.le_refl _⟩) rfl
    have h₃ := ih h₂ (Book.apply_wf hk hok.1) hok.2 hchain
    rw [List.append_assoc, List.append_assoc] at h₃
    exact h₃

end Ledger

/-- The ledger goes on over the events of a request. -/
theorem Ledger.request {cells : Book.Cells} (h : Ledger ticker reqs xs k none) (hk : k.WF)
    (hpos : k.Positive) (hticker : k.ticker = ticker) (hid : k.nextOrderId = idOf reqs.length)
    (hr : r.Valid) (hok : k.OkAll (k.events cells r))
    (hbound : (reqs ++ newRequests [r]).length < 2 ^ 64 - 1) :
    Ledger ticker (reqs ++ newRequests [r])
        (xs ++ (k.events cells r).flatMap (Event.responses ticker))
        (k.applyAll (k.events cells r)) none ∧
      (k.applyAll (k.events cells r)).nextOrderId = idOf (reqs ++ newRequests [r]).length := by
  rcases hr with ⟨hnew, hs, -⟩ | hcancel
  · have hreqs : newRequests [r] = [r] := by simp [newRequests, hnew]
    rw [hreqs] at hbound ⊢
    rw [List.length_append, List.length_singleton] at hbound
    have hok' := hok
    simp only [Book.events, hnew, Book.along_append] at hok' ⊢
    obtain ⟨hokm, hokr⟩ := hok'
    -- the new order is accepted and matched
    have hacc : Ledger ticker (reqs ++ [r])
        (xs ++ [.accepted (k.incoming r)].flatMap (Event.responses ticker))
        (k.apply (.accepted (k.incoming r))) (some { k.incoming r with qty := r.qty }) := by
      refine h.accept (r := r) (by omega) ⟨hid, rfl, rfl, hticker, rfl, rfl⟩ rfl
        ⟨hid, rfl, rfl, rfl, rfl⟩ rfl rfl rfl
    have hmatch := hacc.applyFills (a := k.incoming r)
      (@Book.apply_wf k (.accepted (k.incoming r)) hk trivial) hokm.2 (fills_chain _ _ _ _)
    rw [List.append_assoc, ← List.flatMap_append] at hmatch
    change Ledger ticker (reqs ++ [r])
      (xs ++ (k.matchEvents r).flatMap (Event.responses ticker)) (k.applyAll (k.matchEvents r)) _
      at hmatch
    have hnext : (k.applyAll (k.matchEvents r)).nextOrderId = idOf (reqs ++ [r]).length := by
      rw [List.length_append, List.length_singleton, ← idOf_succ, ← hid]
      exact Book.applyAll_fills_nextOrderId
        (k := k.apply (.accepted (k.incoming r))) (k.incoming r) _
    cases hrem : k.remainder cells r with
    | none =>
      -- nothing is left of it
      rw [List.append_nil]
      exact ⟨hmatch.drop (Book.remainder_eq_none hrem), hnext⟩
    | some e =>
      -- what is left of it rests
      rw [List.flatMap_append, Book.applyAll_append]
      obtain ⟨-, -, he⟩ := Book.remainder_eq_some hrem
      have hrest := hmatch.rest (Book.applyAll_wf hk hokm).toLists he cells.level
      refine ⟨?_, ?_⟩
      · show Ledger ticker (reqs ++ [r]) (xs ++ (_ ++ [])) _ none
        rw [List.append_nil]
        exact hrest
      · exact (Book.rest_nextOrderId e cells.level).trans hnext
  · have hreqs : newRequests [r] = [] := by simp [newRequests, hcancel]
    rw [hreqs, List.append_nil]
    have hok' := hok
    simp only [Book.events, hcancel] at hok' ⊢
    split
    · next e he =>
      have hmem := List.mem_of_find?_eq_some he
      exact ⟨h.cancel hk.toLists hmem (hpos e hmem) rfl rfl rfl rfl rfl rfl rfl, hid⟩
    · exact ⟨h.reject rfl rfl, hid⟩

/-! ## Runs -/

/-- The `FILLED` responses two by two, provided each stands next to its partner. -/
def filledPairs : List MEClientResponse → Option (List (MEClientResponse × MEClientResponse))
  | [] => some []
  | x :: xs =>
    if x.type = .filled then
      match xs with
      | [] => none
      | y :: ys => if y.type = .filled then (filledPairs ys).map ((x, y) :: ·) else none
    else filledPairs xs

theorem filledPairs_other {x : MEClientResponse} (hx : x.type ≠ .filled)
    (xs : List MEClientResponse) : filledPairs (x :: xs) = filledPairs xs := by
  cases xs <;> simp [filledPairs, hx]

theorem filledPairs_pair {x y : MEClientResponse} (hx : x.type = .filled) (hy : y.type = .filled)
    (xs : List MEClientResponse) :
    filledPairs (x :: y :: xs) = (filledPairs xs).map ((x, y) :: ·) := by
  simp [filledPairs, hx, hy]

theorem filledPairs_eq (ticker : TickerId) (evs : List Event) :
    filledPairs (evs.flatMap (Event.responses ticker)) =
      some ((tradesOf evs).map fun t => (aggressorFilled ticker t, passiveFilled ticker t)) := by
  induction evs with
  | nil => rfl
  | cons ev evs ih =>
    rw [List.flatMap_cons]
    cases ev with
    | fill a f =>
      show filledPairs (aggressorFilled ticker (a, f) :: passiveFilled ticker (a, f) ::
        evs.flatMap (Event.responses ticker)) = _
      rw [filledPairs_pair rfl rfl, ih]
      rfl
    | rest e lp q => exact ih
    | accepted o => exact (filledPairs_other (by simp) _).trans ih
    | cancelled e => exact (filledPairs_other (by simp) _).trans ih
    | rejected c o => exact (filledPairs_other (by simp) _).trans ih

/-- What has been sent and what rests after the requests `rs`. -/
structure LifeCycles (ticker : TickerId) (rs : List MEClientRequest) (b : MEOrderBook) : Prop where
  /-- each order has a history, and rests exactly while something of it is outstanding -/
  order : ∀ i r, (newRequests rs)[i]? = some r → ∃ outstanding,
    History ticker (idOf i) r (carrying (idOf i) b.responses) outstanding ∧
      (∀ o ∈ b.resting, o.marketOrderId = idOf i →
        o.IsOf ticker (idOf i) r ∧ o.qty = outstanding ∧ 0 < outstanding) ∧
      (0 < outstanding → ∃ o ∈ b.resting, o.marketOrderId = idOf i)
  /-- no order rests twice -/
  once : (b.resting.map OrderInfo.marketOrderId).Nodup
  /-- all other responses reject a cancel -/
  others : ∀ x ∈ b.responses,
    x.type = .cancelRejected ∨ ∃ i < (newRequests rs).length, x.marketOrderId = idOf i
  /-- fills come in pairs of the newer order and an older one, one pair for each trade -/
  fills : ∃ ps, filledPairs b.responses = some ps ∧
    (∀ p ∈ ps, p.1.execQty = p.2.execQty ∧ p.1.price = p.2.price ∧
      p.2.marketOrderId < p.1.marketOrderId) ∧
    ps.map (fun p => (p.1.side, p.1.price, p.1.execQty)) =
      (b.updates.filter fun u => u.type = .trade).map fun u => (u.side, u.price, u.qty)

theorem lifeCycles_of_ledger {b : MEOrderBook} {evs : List Event} {rs : List MEClientRequest}
    (h : MEOrderBook.Reached ticker b k evs)
    (hl : Ledger ticker (newRequests rs) (evs.flatMap (Event.responses ticker)) k none)
    (htrades : ∀ t ∈ tradesOf evs, t.2.passive.info.marketOrderId < t.1.marketOrderId) :
    LifeCycles ticker rs b := by
  have hresponses : b.responses = evs.flatMap (Event.responses ticker) := h.sent.responses
  have hupdates : b.updates = evs.flatMap (Event.updates ticker) := h.sent.updates
  have hresting := h.rep.resting_eq h.wf.toLists
  refine ⟨?_, ?_, ?_, ?_⟩
  · intro i r hr
    rw [hresponses, hresting]
    have hilt := (List.getElem?_eq_some_iff.mp hr).1
    have hbound := hl.bound
    by_cases hin : ∃ e ∈ k.entries, e.info.marketOrderId = idOf i
    · obtain ⟨e, he, hid⟩ := hin
      obtain ⟨j, hacc⟩ := hl.entry e he
      have hjlt := hacc.lt
      obtain rfl := idOf_inj (by omega) (by omega) (hacc.id_eq.symm.trans hid)
      obtain ⟨r', hr', hof, hhist⟩ := hacc.isOf
      obtain rfl := Option.some.inj (hr'.symm.trans hr)
      refine ⟨e.info.qty, hhist, ?_, fun _ => ⟨e.info, List.mem_map_of_mem he, hid⟩⟩
      intro o ho hoid
      obtain ⟨e', he', rfl⟩ := List.mem_map.mp ho
      obtain rfl := hl.eq_of_id he he' (hid.trans hoid.symm)
      exact ⟨hof, rfl, h.positive e he⟩
    · have hnone : ∀ e ∈ k.entries, e.info.marketOrderId ≠ idOf i := fun e he hid =>
        hin ⟨e, he, hid⟩
      refine ⟨0, hl.closed i r hr hnone (by simp), ?_, fun hpos => absurd hpos (by decide)⟩
      intro o ho hoid
      obtain ⟨e', he', rfl⟩ := List.mem_map.mp ho
      exact absurd hoid (hnone e' he')
  · rw [hresting, List.map_map]
    exact hl.nodup
  · intro x hx
    rw [hresponses] at hx
    rcases hl.others x hx with ⟨htype, -⟩ | hid
    · exact Or.inl htype
    · exact Or.inr hid
  · refine ⟨_, by rw [hresponses]; exact filledPairs_eq ticker evs, ?_, ?_⟩
    · intro p hp
      obtain ⟨t, ht, rfl⟩ := List.mem_map.mp hp
      exact ⟨rfl, rfl, htrades t ht⟩
    · rw [hupdates, trade_updates, List.map_map, List.map_map]
      rfl

/-- **Every order has its life cycle**, in every run of fewer than `2 ^ 64 - 1` `NEW` requests. -/
theorem processAll_lifeCycles {rs : List MEClientRequest} {b : MEOrderBook}
    (hvalid : ∀ r ∈ rs, r.Valid) (hcount : (newRequests rs).length < 2 ^ 64 - 1)
    (hrun : (MEOrderBook.init ticker).processAll rs = .ok b) : LifeCycles ticker rs b := by
  have hinit : Ledger ticker [] [] (Book.init ticker) none :=
    ⟨List.nodup_nil, by simp, by simp [Book.init, Book.entries, Book.levels], by simp, by simp,
      by simp, by simp⟩
  obtain ⟨k, evs, hreached, hI⟩ := MEOrderBook.run_rule
    (fun rs k evs => (newRequests rs).length < 2 ^ 64 - 1 →
      Ledger ticker (newRequests rs) (evs.flatMap (Event.responses ticker)) k none ∧
        k.nextOrderId = idOf (newRequests rs).length ∧
        ∀ t ∈ tradesOf evs, t.2.passive.info.marketOrderId < t.1.marketOrderId)
    (fun _ _ _ => True) (fun _ => ⟨hinit, rfl, by simp [tradesOf]⟩)
    (fun rs b k evs cells r hreached hI hr _ hok hcount => by
      rw [newRequests_append] at hcount ⊢
      have hcount' : (newRequests rs).length < 2 ^ 64 - 1 := by
        rw [List.length_append] at hcount
        omega
      obtain ⟨hl, hid, htrades⟩ := hI hcount'
      have hreq := hl.request hreached.wf hreached.positive hreached.ticker_eq hid hr hok hcount
      rw [List.flatMap_append]
      refine ⟨hreq.1, hreq.2, ?_⟩
      intro t ht
      rw [tradesOf_append] at ht
      rcases List.mem_append.mp ht with ht | ht
      · exact htrades t ht
      · -- an incoming order only meets orders that were there before it
        obtain ⟨hnew, ha, hf⟩ := mem_tradesOf_events ht
        obtain ⟨i, hacc⟩ := hl.entry t.2.passive
          (Book.mem_entries_of_mem_queue (passive_mem_of_mem_fills hf).1)
        rw [ha, hacc.id_eq]
        show idOf i < k.nextOrderId
        rw [hid]
        exact idOf_lt hacc.lt hcount')
    hvalid (fun _ _ _ _ _ _ => trivial) hrun
  obtain ⟨hl, -, htrades⟩ := hI hcount
  exact lifeCycles_of_ledger hreached hl htrades

/-- A sell order for 5, a buy order for 4 and a cancel of what is left of the sell order. -/
theorem processAll_lifeCycles_cancelled :
    ∃ b, (MEOrderBook.init 0).processAll [
        { type := .new, clientId := 1, tickerId := 0, orderId := 1, side := .sell, price := 100,
          qty := 5 },
        { type := .new, clientId := 2, tickerId := 0, orderId := 1, side := .buy, price := 100,
          qty := 4 },
        { type := .cancel, clientId := 1, tickerId := 0, orderId := 1 }] = .ok b ∧
      LifeCycles 0 [
        { type := .new, clientId := 1, tickerId := 0, orderId := 1, side := .sell, price := 100,
          qty := 5 },
        { type := .new, clientId := 2, tickerId := 0, orderId := 1, side := .buy, price := 100,
          qty := 4 },
        { type := .cancel, clientId := 1, tickerId := 0, orderId := 1 }] b := by
  obtain ⟨b, hb⟩ := exists_ok (x := (MEOrderBook.init 0).processAll [
        { type := .new, clientId := 1, tickerId := 0, orderId := 1, side := .sell, price := 100,
          qty := 5 },
        { type := .new, clientId := 2, tickerId := 0, orderId := 1, side := .buy, price := 100,
          qty := 4 },
        { type := .cancel, clientId := 1, tickerId := 0, orderId := 1 }]) (by decide +kernel)
  exact ⟨b, hb, processAll_lifeCycles (by decide) (by decide) hb⟩

/-! ## The end of the counter

An order for nothing is accepted and never rests, so any number of them goes through. After
`2 ^ 64 - 1` of them the last id is the one that the responses to rejected cancels carry. -/

def emptyOrder : MEClientRequest :=
  { type := .new, clientId := 0, tickerId := 0, orderId := 0, side := .buy, price := 0, qty := 0 }

def emptyAccepted (i : Nat) : MEClientResponse :=
  { type := .accepted, clientId := 0, tickerId := 0, clientOrderId := 0, marketOrderId := idOf i,
    side := .buy, price := 0, execQty := 0, leftQty := 0 }

/-- The book after `n` orders for nothing. -/
def afterEmpty (n : Nat) : MEOrderBook :=
  { MEOrderBook.init 0 with
    nextOrderId := idOf n
    responses := (List.range n).map emptyAccepted }

theorem processClientRequest_empty (n : Nat) :
    (afterEmpty n).processClientRequest emptyOrder = .ok (afterEmpty (n + 1)) := by
  have hb : (afterEmpty n).processClientRequest emptyOrder = .ok { afterEmpty n with
      nextOrderId := idOf n + 1
      responses := (afterEmpty n).responses ++ [emptyAccepted n] } := rfl
  rw [hb, idOf_succ]
  unfold afterEmpty
  rw [List.range_succ, List.map_append]
  rfl

theorem processAll_empty (n : Nat) :
    (MEOrderBook.init 0).processAll (List.replicate n emptyOrder) = .ok (afterEmpty n) := by
  induction n with
  | zero => rfl
  | succ n ih =>
    rw [List.replicate_succ']
    exact foldlM_concat_eq_ok.mpr ⟨afterEmpty n, ih, processClientRequest_empty n⟩

/-- No response of a history rejects a cancel. -/
theorem History.type_ne {id : OrderId} {outstanding : Qty}
    (h : History ticker id r xs outstanding) (hx : x ∈ xs) : x.type ≠ .cancelRejected := by
  induction h with
  | accepted _ htype _ =>
    rw [List.mem_singleton.mp hx, htype]
    decide
  | filled _ _ htype _ _ _ _ ih =>
    rcases List.mem_append.mp hx with hx | hx
    · exact ih hx
    · rw [List.mem_singleton.mp hx, htype]
      decide
  | cancelled _ _ _ htype _ ih =>
    rcases List.mem_append.mp hx with hx | hx
    · exact ih hx
    · rw [List.mem_singleton.mp hx, htype]
      decide

/-- `2 ^ 64 - 1` orders for nothing and a cancel that is rejected: the response to the cancel
carries the id of the last order. -/
theorem not_lifeCycles_of_counter_end :
    ¬ ∀ (ticker : TickerId) (rs : List MEClientRequest) (b : MEOrderBook), (∀ r ∈ rs, r.Valid) →
      (MEOrderBook.init ticker).processAll rs = .ok b → LifeCycles ticker rs b := by
  intro hall
  obtain ⟨n, hn⟩ : ∃ n : Nat, n = 2 ^ 64 - 2 := ⟨_, rfl⟩
  have hid : idOf n = orderIdInvalid := by
    rw [hn]
    rfl
  let cancel : MEClientRequest := { type := .cancel, clientId := 0, tickerId := 0, orderId := 0 }
  let rejected : MEClientResponse :=
    { type := .cancelRejected, clientId := 0, tickerId := 0, clientOrderId := 0 }
  have hrun : (MEOrderBook.init 0).processAll (List.replicate (n + 1) emptyOrder ++ [cancel]) =
      .ok ((afterEmpty (n + 1)).sendClientResponse rejected) :=
    foldlM_concat_eq_ok.mpr ⟨_, processAll_empty (n + 1), rfl⟩
  have hvalid : ∀ r ∈ List.replicate (n + 1) emptyOrder ++ [cancel], r.Valid := by
    intro r hr
    rcases List.mem_append.mp hr with hr | hr
    · rw [List.eq_of_mem_replicate hr]
      decide
    · rw [List.mem_singleton.mp hr]
      decide
  have hnth : (newRequests (List.replicate (n + 1) emptyOrder ++ [cancel]))[n]? =
      some emptyOrder := by
    have hnew : newRequests (List.replicate (n + 1) emptyOrder ++ [cancel]) =
        List.replicate (n + 1) emptyOrder := by
      simp [newRequests, cancel, emptyOrder]
    rw [hnew]
    simp
  obtain ⟨_, hhist, -⟩ := (hall 0 _ _ hvalid hrun).order n emptyOrder hnth
  refine hhist.type_ne (x := rejected) (List.mem_filter.mpr ⟨?_, ?_⟩) rfl
  · exact List.mem_append_right _ (List.mem_singleton_self _)
  · rw [hid]
    rfl

end TradingSystem
