import TradingSystem.Exchange.MatchingEngine
import TradingSystem.Exchange.Cancellable

/-!
# The order of a client on a side, and what the client is told of it

A client that keeps one order on each side of a book has either none there (`Book.Gone`) or one
(`Book.Rests`). The messages it is sent about a side, read one after the other, end at what is there
(`Leads`): each `FILLED` with something left says what is left, and after a `FILLED` with nothing left
or a `CANCELLED` nothing is there and nothing follows.

Whatever happens in the book, other than a new order of this client on this side, adds to these
messages what they need to end at what is there then (`applyAll_follows`). A new order starts them anew
(`new_leads`).
-/

namespace TradingSystem

open MEOrderBook (inTable)

/-- An order of client `c` on side `s`. -/
def Entry.Own (c : ClientId) (s : Side) (e : Entry) : Prop :=
  e.info.clientId = c ∧ e.info.side = s

instance (c : ClientId) (s : Side) (e : Entry) : Decidable (e.Own c s) :=
  inferInstanceAs (Decidable (_ ∧ _))

/-- What client `c` is told of its order on side `s`. -/
def ownResponses (c : ClientId) (s : Side) (xs : List MEClientResponse) : List MEClientResponse :=
  xs.filter fun x => x.clientId = c ∧ x.side = s

/-- Read from a quantity of `qty` on, the messages end at what is there: an order with the quantity
they leave, or none. -/
inductive Leads (rests : Qty → Prop) (gone : Prop) : Qty → List MEClientResponse → Prop
  | nil {qty : Qty} (h : rests qty) : Leads rests gone qty []
  | part {qty : Qty} {x : MEClientResponse} {xs : List MEClientResponse} (htype : x.type = .filled)
      (hleft : x.leftQty ≠ 0) (h : Leads rests gone x.leftQty xs) : Leads rests gone qty (x :: xs)
  | filled {qty : Qty} {x : MEClientResponse} (htype : x.type = .filled) (hleft : x.leftQty = 0)
      (h : gone) : Leads rests gone qty [x]
  | cancelled {qty : Qty} {x : MEClientResponse} (htype : x.type = .cancelled) (h : gone) :
      Leads rests gone qty [x]

/-- What is there has changed, and messages have been added. -/
theorem Leads.append {rests rests' : Qty → Prop} {gone gone' : Prop} {qty : Qty}
    {xs ys : List MEClientResponse} (h : Leads rests gone qty xs)
    (hrests : ∀ q, rests q → Leads rests' gone' q ys) (hgone : gone → ys = [] ∧ gone') :
    Leads rests' gone' qty (xs ++ ys) := by
  induction h with
  | nil h => exact hrests _ h
  | part htype hleft _ ih => exact .part htype hleft ih
  | filled htype hleft h =>
    obtain ⟨rfl, h'⟩ := hgone h
    exact .filled htype hleft h'
  | cancelled htype h =>
    obtain ⟨rfl, h'⟩ := hgone h
    exact .cancelled htype h'

/-- An order is there, or none. -/
theorem Leads.rests_or_gone {rests : Qty → Prop} {gone : Prop} {qty : Qty}
    {xs : List MEClientResponse} (h : Leads rests gone qty xs) : (∃ q, rests q) ∨ gone := by
  induction h with
  | nil h => exact Or.inl ⟨_, h⟩
  | part _ _ _ ih => exact ih
  | filled _ _ h => exact Or.inr h
  | cancelled _ h => exact Or.inr h

namespace Book

variable {k k' k'' : Book} {c : ClientId} {s : Side} {e e' : Entry} {ev : Event} {evs : List Event}
  {id : OrderId} {price : Price} {qty : Qty} {xs ys : List MEClientResponse} {ticker : TickerId}
  {r : MEClientRequest} {cells : Cells}

/-- Client `c` has no order on side `s`. -/
def Gone (k : Book) (c : ClientId) (s : Side) : Prop := ∀ e ∈ k.entries, ¬ e.Own c s

/-- Client `c` has one order on side `s`, this one. -/
def Rests (k : Book) (c : ClientId) (s : Side) (id : OrderId) (price : Price) (qty : Qty) : Prop :=
  ∃ e ∈ k.entries, e.Own c s ∧ e.info.clientOrderId = id ∧ e.info.price = price ∧ e.info.qty = qty ∧
    ∀ e' ∈ k.entries, e'.Own c s → e' = e

/-- The messages `xs` follow what has happened to the order of client `c` on side `s`. -/
structure Follows (k : Book) (c : ClientId) (s : Side) (xs : List MEClientResponse) (k' : Book) :
    Prop where
  gone : k.Gone c s → xs = [] ∧ k'.Gone c s
  rests : ∀ {id price qty}, k.Rests c s id price qty →
    Leads (k'.Rests c s id price) (k'.Gone c s) qty xs

theorem Follows.trans (h : Follows k c s xs k') (h' : Follows k' c s ys k'') :
    Follows k c s (xs ++ ys) k'' := by
  constructor
  · intro hgone
    obtain ⟨rfl, hgone'⟩ := h.gone hgone
    exact h'.gone hgone'
  · intro id price qty hrests
    exact (h.rests hrests).append (fun _ hq => h'.rests hq) h'.gone

/-- Nothing is said if the orders of the client on the side are the same. -/
theorem Follows.of_same (h : ∀ e, e.Own c s → (e ∈ k'.entries ↔ e ∈ k.entries)) :
    Follows k c s [] k' := by
  constructor
  · intro hgone
    exact ⟨rfl, fun e he hown => hgone e ((h e hown).mp he) hown⟩
  · rintro id price qty ⟨e, he, hown, hid, hprice, hqty, huniq⟩
    exact .nil ⟨e, (h e hown).mpr he, hown, hid, hprice, hqty, fun e' he' hown' =>
      huniq e' ((h e' hown').mp he') hown'⟩

theorem Rests.eq (h : k.Rests c s id price qty) (he : e ∈ k.entries) (hown : e.Own c s) :
    e.info.clientOrderId = id ∧ e.info.price = price ∧ e.info.qty = qty ∧
      ∀ e' ∈ k.entries, e'.Own c s → e' = e := by
  obtain ⟨e₀, he₀, hown₀, hid, hprice, hqty, huniq⟩ := h
  obtain rfl := huniq e he hown
  exact ⟨hid, hprice, hqty, huniq⟩

/-- An order that leaves the book with a last message. -/
theorem Follows.remove (hk : k.Lists) (he : e ∈ k.entries) {x : MEClientResponse}
    (hx : x.type = .cancelled ∨ x.type = .filled ∧ x.leftQty = 0) :
    Follows k c s (if e.info.clientId = c ∧ e.info.side = s then [x] else []) (k.remove e) := by
  by_cases hown : e.info.clientId = c ∧ e.info.side = s
  · rw [if_pos hown]
    constructor
    · intro hgone
      exact absurd hown (hgone e he)
    · intro id price qty hrests
      obtain ⟨-, -, -, huniq⟩ := hrests.eq he hown
      have hgone : (k.remove e).Gone c s := by
        intro e' he' hown'
        obtain ⟨hmem, hne⟩ := (mem_remove_entries hk he).mp he'
        exact hne (huniq e' hmem hown')
      rcases hx with hx | ⟨hx, hleft⟩
      · exact .cancelled hx hgone
      · exact .filled hx hleft hgone
  · rw [if_neg hown]
    apply Follows.of_same
    intro e' hown'
    rw [mem_remove_entries hk he]
    constructor
    · exact fun h => h.1
    · intro h
      refine ⟨h, ?_⟩
      rintro rfl
      exact hown hown'

/-- An order of which a part is traded. -/
theorem Follows.setQty (hk : k.Lists) (he : e ∈ k.entries) {x : MEClientResponse}
    (htype : x.type = .filled) (hleft : x.leftQty ≠ 0) :
    Follows k c s (if e.info.clientId = c ∧ e.info.side = s then [x] else [])
      (k.setQty e.ptr x.leftQty) := by
  have hchanged : { e with info := { e.info with qty := x.leftQty } } ∈
      (k.setQty e.ptr x.leftQty).entries :=
    mem_setQty_entries.mpr ⟨e, he, by rw [if_pos rfl]⟩
  by_cases hown : e.info.clientId = c ∧ e.info.side = s
  · rw [if_pos hown]
    constructor
    · intro hgone
      exact absurd hown (hgone e he)
    · intro id price qty hrests
      obtain ⟨hid, hprice, -, huniq⟩ := hrests.eq he hown
      refine .part htype hleft (.nil ⟨_, hchanged, hown, hid, hprice, rfl, ?_⟩)
      intro e' he' hown'
      obtain ⟨e₀, he₀, rfl⟩ := mem_setQty_entries.mp he'
      split at hown'
      · next hp =>
        rw [if_pos hp, hk.eq_of_ptr he₀ he hp]
      · next hp =>
        obtain rfl := huniq e₀ he₀ hown'
        exact absurd rfl hp
  · rw [if_neg hown]
    apply Follows.of_same
    intro e' hown'
    rw [mem_setQty_entries]
    constructor
    · rintro ⟨e₀, he₀, rfl⟩
      split at hown'
      · next hp =>
        obtain rfl := hk.eq_of_ptr he₀ he hp
        exact absurd hown' hown
      · next hp =>
        rw [if_neg hp]
        exact he₀
    · intro he'
      refine ⟨e', he', ?_⟩
      rw [if_neg]
      intro hp
      obtain rfl := hk.eq_of_ptr he' he hp
      exact hown hown'

end Book

/-! ## Events -/

/-- The event is not about a new order of client `c` on side `s`. -/
def Event.Foreign (c : ClientId) (s : Side) : Event → Prop
  | .accepted o => ¬ (o.clientId = c ∧ o.side = s)
  | .fill a _ => ¬ (a.clientId = c ∧ a.side = s)
  | .rest e _ _ => ¬ e.Own c s
  | _ => True

theorem ownResponses_append (c : ClientId) (s : Side) (xs ys : List MEClientResponse) :
    ownResponses c s (xs ++ ys) = ownResponses c s xs ++ ownResponses c s ys :=
  List.filter_append ..

namespace Book

variable {k k' : Book} {c : ClientId} {s : Side} {e e' : Entry} {ev : Event} {evs : List Event}
  {id : OrderId} {price : Price} {qty : Qty} {ticker : TickerId} {r : MEClientRequest}
  {cells : Cells}

/-- Of a trade with somebody else's new order the client is told what is left of its own. -/
theorem ownResponses_fill {a : OrderInfo} {f : Fill} (ha : ¬ (a.clientId = c ∧ a.side = s)) :
    ∃ x : MEClientResponse, x.type = .filled ∧ x.leftQty = f.passive.info.qty - f.exec ∧
      ownResponses c s (Event.responses ticker (.fill a f)) =
        if f.passive.info.clientId = c ∧ f.passive.info.side = s then [x] else [] := by
  refine ⟨{
    type := .filled, clientId := f.passive.info.clientId, tickerId := ticker,
    clientOrderId := f.passive.info.clientOrderId, marketOrderId := f.passive.info.marketOrderId,
    side := f.passive.info.side, price := f.passive.info.price, execQty := f.exec,
    leftQty := f.passive.info.qty - f.exec }, rfl, rfl, ?_⟩
  unfold ownResponses Event.responses
  rw [List.filter_cons_of_neg (by simpa using ha), List.filter_cons, List.filter_nil]
  simp only [decide_eq_true_eq]

/-- **Step lemma.** The messages of an event follow what it does to the order of a client. -/
theorem apply_follows (hk : k.Lists) (hok : ev.Ok k) (hs : s = .buy ∨ s = .sell)
    (hforeign : ev.Foreign c s) :
    Follows k c s (ownResponses c s (ev.responses ticker)) (k.apply ev) := by
  cases ev with
  | accepted o =>
    have ho : ¬ (o.clientId = c ∧ o.side = s) := hforeign
    have hnone : ownResponses c s (Event.responses ticker (.accepted o)) = [] :=
      List.filter_cons_of_neg (by simpa using ho)
    rw [hnone]
    exact .of_same fun e _ => Iff.rfl
  | fill a f =>
    obtain ⟨x, htype, hleft, hx⟩ := ownResponses_fill hforeign
    rw [hx]
    show Follows k c s _ (k.fill f)
    unfold fill
    by_cases hzero : f.passive.info.qty - f.exec = 0
    · rw [if_pos hzero]
      exact .remove hk hok.1 (Or.inr ⟨htype, hleft.trans hzero⟩)
    · rw [if_neg hzero, ← hleft]
      exact .setQty hk hok.1 htype fun h => hzero (hleft.symm.trans h)
  | rest e lp q =>
    apply Follows.of_same
    intro e' hown
    show e' ∈ (k.rest e lp).entries ↔ _
    rw [mem_rest_entries hk, or_iff_right]
    rintro rfl
    exact hforeign hown
  | cancelled e =>
    have hx : ownResponses c s (Event.responses ticker (.cancelled e)) =
        if e.info.clientId = c ∧ e.info.side = s then Event.responses ticker (.cancelled e)
        else [] := by
      unfold ownResponses Event.responses
      rw [List.filter_cons, List.filter_nil]
      simp only [decide_eq_true_eq]
    rw [hx]
    exact .remove hk hok (Or.inl rfl)
  | rejected c' o =>
    have hnone : ownResponses c s (Event.responses ticker (.rejected c' o)) = [] := by
      apply List.filter_cons_of_neg
      rcases hs with rfl | rfl <;> simp
    rw [hnone]
    exact .of_same fun e _ => Iff.rfl

/-- **Run lemma**, over events. -/
theorem applyAll_follows (hk : k.WF) (hok : k.OkAll evs) (hs : s = .buy ∨ s = .sell)
    (hforeign : ∀ ev ∈ evs, ev.Foreign c s) :
    Follows k c s (ownResponses c s (evs.flatMap (Event.responses ticker))) (k.applyAll evs) := by
  induction evs generalizing k with
  | nil => exact .of_same fun e _ => Iff.rfl
  | cons ev evs ih =>
    rw [List.flatMap_cons, ownResponses_append]
    exact (apply_follows hk.toLists hok.1 hs (hforeign ev (by simp))).trans
      (ih (apply_wf hk hok.1) hok.2 fun ev' hev' => hforeign ev' (List.mem_cons_of_mem _ hev'))

/-! ## Requests -/

/-- What is left of a `NEW` is the client's and the side's of the `NEW`. -/
theorem remainder_own (h : k.remainder cells r = some e) :
    e.info.clientId = r.clientId ∧ e.info.side = r.side ∧ e.info.clientOrderId = r.orderId ∧
      e.info.price = r.price ∧
      e.info.qty = leftOver r.qty (fills r.side r.price r.qty (k.queue r.side)) := by
  obtain ⟨-, -, hinfo⟩ := remainder_eq_some h
  rw [hinfo]
  exact ⟨rfl, rfl, rfl, rfl, rfl⟩

theorem events_foreign (h : r.type = .new → ¬ (r.clientId = c ∧ r.side = s)) :
    ∀ ev ∈ k.events cells r, ev.Foreign c s := by
  intro ev hev
  unfold events at hev
  split at hev
  · next hnew =>
    rcases List.mem_append.mp hev with hev | hev
    · rcases List.mem_cons.mp hev with rfl | hev
      · exact h hnew
      · obtain ⟨f, -, rfl⟩ := List.mem_map.mp hev
        exact h hnew
    · split at hev
      · next e he =>
        obtain rfl := List.mem_singleton.mp hev
        obtain ⟨hc, hs, -⟩ := remainder_own he
        intro ⟨hc', hs'⟩
        exact h hnew ⟨hc.symm.trans hc', hs.symm.trans hs'⟩
      · cases hev
  · dsimp only at hev
    split at hev <;>
    · obtain rfl := List.mem_singleton.mp hev
      trivial
  · cases hev

/-- **The messages of a request follow what it does** to the order of a client on a side for which it
brings no new one. -/
theorem events_follows (hk : k.WF) (hok : k.OkAll (k.events cells r)) (hs : s = .buy ∨ s = .sell)
    (h : r.type = .new → ¬ (r.clientId = c ∧ r.side = s)) :
    Follows k c s (ownResponses c s ((k.events cells r).flatMap (Event.responses ticker)))
      (k.applyAll (k.events cells r)) :=
  applyAll_follows hk hok hs (events_foreign h)

/-- The messages about the trades of a new order end at what is left of it. By induction on the orders
it meets. -/
theorem fills_leads {rests : Qty → Prop} {gone : Prop} {a : OrderInfo} {es : List Entry}
    (hqty : qty ≠ 0) (hes : ∀ e ∈ es, ¬ e.Own a.clientId a.side)
    (hrests : leftOver qty (fills s price qty es) ≠ 0 → rests (leftOver qty (fills s price qty es)))
    (hgone : leftOver qty (fills s price qty es) = 0 → gone) :
    Leads rests gone qty (ownResponses a.clientId a.side
      (((fills s price qty es).map (Event.fill a)).flatMap (Event.responses ticker))) := by
  induction es generalizing qty with
  | nil => exact .nil (hrests hqty)
  | cons e es ih =>
    rw [fills] at hrests hgone ⊢
    split at hrests
    · next hstop =>
      rw [if_pos hstop]
      exact .nil (hrests hqty)
    · next hgo =>
      rw [if_neg hgo] at hgone ⊢
      obtain ⟨left, hleft⟩ : ∃ left, left = qty - if qty < e.info.qty then qty else e.info.qty :=
        ⟨_, rfl⟩
      dsimp only at hrests hgone ⊢
      rw [← hleft] at hrests hgone ⊢
      have hown : ¬ (e.info.clientId = a.clientId ∧ e.info.side = a.side) := hes e (by simp)
      rw [List.map_cons, List.flatMap_cons, ownResponses_append]
      have hone : ∃ x : MEClientResponse, x.type = .filled ∧ x.leftQty = left ∧
          ownResponses a.clientId a.side (Event.responses ticker (.fill a {
            passive := e, exec := if qty < e.info.qty then qty else e.info.qty, left := left })) =
            [x] := by
        refine ⟨{
          type := .filled, clientId := a.clientId, tickerId := ticker,
          clientOrderId := a.clientOrderId, marketOrderId := a.marketOrderId, side := a.side,
          price := e.info.price, execQty := if qty < e.info.qty then qty else e.info.qty,
          leftQty := left }, rfl, rfl, ?_⟩
        unfold ownResponses Event.responses
        rw [List.filter_cons_of_pos (by simp), List.filter_cons_of_neg (by simpa using hown)]
        rfl
      obtain ⟨x, htype, hxleft, hx⟩ := hone
      rw [hx]
      rw [leftOver] at hrests hgone
      by_cases hzero : left = 0
      · -- the order is used up
        subst hzero
        rw [fills_zero] at hrests hgone ⊢
        exact .filled htype hxleft (hgone rfl)
      · refine .part htype (hxleft ▸ hzero) ?_
        rw [hxleft]
        exact ih hzero (fun e' he' => hes e' (List.mem_cons_of_mem _ he')) hrests hgone

/-- **A new order of a client that has none on its side** is accepted, and the messages after this end
at what is left of it. -/
theorem new_leads (hk : k.WF) (hpos : k.Positive)
    (hnew : r.type = .new) (hqty : r.qty ≠ 0) (hgone : k.Gone r.clientId r.side) :
    ∃ x xs, ownResponses r.clientId r.side ((k.events cells r).flatMap (Event.responses ticker)) =
        x :: xs ∧ x.type = .accepted ∧
      Leads ((k.applyAll (k.events cells r)).Rests r.clientId r.side r.orderId r.price)
        ((k.applyAll (k.events cells r)).Gone r.clientId r.side) r.qty xs := by
  have hk₁ : (k.applyAll (k.matchEvents r)).WF := applyAll_wf hk (matchEvents_ok hk hpos r)
  have hgone₁ : (k.applyAll (k.matchEvents r)).Gone r.clientId r.side := by
    intro e he
    obtain ⟨e₀, he₀, q, rfl⟩ := mem_matchEvents_entries he
    exact hgone e₀ he₀
  have hqueue : ∀ e ∈ k.queue r.side, ¬ e.Own r.clientId r.side :=
    fun e he => hgone e (mem_entries_of_mem_queue he)
  have hsplit : ∃ x : MEClientResponse, x.type = .accepted ∧
      ownResponses r.clientId r.side ((k.matchEvents r).flatMap (Event.responses ticker)) =
        x :: ownResponses r.clientId r.side (((fills r.side r.price r.qty (k.queue r.side)).map
          (Event.fill (k.incoming r))).flatMap (Event.responses ticker)) := by
    refine ⟨{
      type := .accepted, clientId := r.clientId, tickerId := ticker, clientOrderId := r.orderId,
      marketOrderId := k.nextOrderId, side := r.side, price := r.price, execQty := 0,
      leftQty := r.qty }, rfl, ?_⟩
    unfold matchEvents
    rw [List.flatMap_cons, ownResponses_append]
    unfold ownResponses Event.responses
    rw [List.filter_cons_of_pos (by simp [incoming])]
    rfl
  obtain ⟨x, htype, hx⟩ := hsplit
  cases hrem : k.remainder cells r with
  | none =>
    have hzero := remainder_eq_none hrem
    rw [events_of_used_up hnew hrem, hx]
    exact ⟨x, _, rfl, htype, fills_leads (a := k.incoming r) hqty hqueue (fun h => absurd hzero h)
      fun _ => hgone₁⟩
  | some e =>
    obtain ⟨hc, hs, hid, hprice, hleft⟩ := remainder_own hrem
    have hrests : ((k.applyAll (k.matchEvents r)).rest e cells.level).Rests r.clientId r.side r.orderId
        r.price (leftOver r.qty (fills r.side r.price r.qty (k.queue r.side))) := by
      refine ⟨e, (mem_rest_entries hk₁.toLists).mpr (Or.inl rfl), ⟨hc, hs⟩, hid, hprice, hleft, ?_⟩
      intro e' he' hown
      exact ((mem_rest_entries hk₁.toLists).mp he').resolve_right fun h => hgone₁ e' h hown
    have hne := UInt32.pos_iff_ne_zero.mp (remainder_eq_some hrem).1
    have hsilent : ownResponses r.clientId r.side
        ([Event.rest e cells.level r.qty].flatMap (Event.responses ticker)) = [] := rfl
    rw [events_of_rest hnew hrem, List.flatMap_append, ownResponses_append, hx, hsilent,
      List.append_nil, applyAll_append]
    exact ⟨x, _, rfl, htype, fills_leads (a := k.incoming r) hqty hqueue (fun _ => hrests)
      fun h => absurd h hne⟩

/-- A `CANCEL` of an order by its client takes it out of the book. -/
theorem cancel_gone (hk : k.WF) (hnames : k.Names c) (hcancel : r.type = .cancel)
    (hc : r.clientId = c) (hin : inTable c r.orderId = true) (h : k.Rests c s r.orderId price qty) :
    (k.applyAll (k.events cells r)).Gone c s := by
  obtain ⟨e, he, hown, hid, -, -, huniq⟩ := h
  have hfind : (k.entries.find? fun e' => some e'.ptr =
      if inTable r.clientId r.orderId then k.cidOidToOrder r.clientId r.orderId else none) =
      some e := by
    rw [hc, if_pos hin, ← hid, hnames e he hown.1]
    exact hk.find_ptr he
  have hevents : k.events cells r = [.cancelled e] := by
    unfold events
    rw [hcancel]
    dsimp only
    rw [hfind]
  rw [hevents]
  intro e' he' hown'
  obtain ⟨hmem, hne⟩ := (mem_remove_entries hk.toLists he).mp he'
  exact hne (huniq e' hmem hown')

/-- The table keeps the names of a client, if its new orders have new ids. -/
theorem events_names (hk : k.WF) (hr : r.Valid) (hok : k.OkAll (k.events cells r)) (h : k.Names c)
    (hfresh : r.type = .new → r.clientId = c → ∀ e ∈ k.entries, e.info.clientId = c →
      e.info.clientOrderId ≠ r.orderId) : (k.applyAll (k.events cells r)).Names c := by
  -- an event that puts nothing to rest, and the one that may
  have hsettled : ∀ evs, k.OkAll evs → (∀ ev ∈ evs, ev.Settles) → (k.applyAll evs).Names c := by
    intro evs hok hevs
    have hall : k.Along (fun _ ev => ev.Settles) evs := Along.of_forall fun ev hev _ => hevs ev hev
    refine ((hok.and hall).induction (I := fun k => k.WF ∧ k.Names c) ?_ ⟨hk, h⟩).2
    intro k ev h hev
    refine ⟨apply_wf h.1 hev.1, h.2.apply h.1.toLists hev.1 ?_⟩
    rintro e lp q rfl
    cases hev.2
  rcases hr with ⟨hnew, -⟩ | hcancel
  · cases hrem : k.remainder cells r with
    | none =>
      rw [events_of_used_up hnew hrem] at hok ⊢
      exact hsettled _ hok (matchEvents_settle k r)
    | some e =>
      rw [events_of_rest hnew hrem] at hok ⊢
      obtain ⟨hok, -⟩ := along_append.mp hok
      rw [applyAll_append]
      apply (hsettled _ hok (matchEvents_settle k r)).rest (applyAll_wf hk hok).toLists
      obtain ⟨hc, -, hid, -⟩ := remainder_own hrem
      intro hec e' he' hec'
      obtain ⟨e₀, he₀, q, rfl⟩ := mem_matchEvents_entries he'
      rw [hid]
      exact hfresh hnew (hc.symm.trans hec) e₀ he₀ hec'
  · apply hsettled _ hok
    apply events_settle
    rw [hcancel]
    decide

/-! ## Tickers and sides of responses -/

/-- An event answers for its ticker. -/
theorem responses_ticker {x : MEClientResponse} (hx : x ∈ ev.responses ticker) :
    x.tickerId = ticker := by
  cases ev with
  | fill a f =>
    rcases List.mem_cons.mp hx with rfl | hx
    · rfl
    · rw [List.mem_singleton.mp hx]
  | rest e lp q => cases hx
  | _ => rw [List.mem_singleton.mp hx]

/-- A response has the side of an order, or rejects a cancel. -/
theorem responses_side (hk : k.Lists) (hok : ev.Ok k)
    (hforeign : ∀ s, ¬ (s = .buy ∨ s = .sell) → ev.Foreign c s) {x : MEClientResponse}
    (hx : x ∈ ev.responses ticker) (hc : x.clientId = c) :
    (x.side = .buy ∨ x.side = .sell) ∨ x.type = .cancelRejected := by
  by_contra hnone
  obtain ⟨hside, htype⟩ := not_or.mp hnone
  have hev := hforeign x.side hside
  cases ev with
  | accepted o =>
    obtain rfl := List.mem_singleton.mp hx
    exact hev ⟨hc, rfl⟩
  | fill a f =>
    rcases List.mem_cons.mp hx with rfl | hx
    · exact hev ⟨hc, rfl⟩
    · obtain rfl := List.mem_singleton.mp hx
      exact hside (hk.sides _ hok.1)
  | rest e lp q => cases hx
  | cancelled e =>
    obtain rfl := List.mem_singleton.mp hx
    exact hside (hk.sides _ hok)
  | rejected c' o =>
    obtain rfl := List.mem_singleton.mp hx
    exact htype rfl

theorem events_responses (hk : k.WF) (hr : r.Valid) (hok : k.OkAll (k.events cells r))
    {x : MEClientResponse} (hx : x ∈ (k.events cells r).flatMap (Event.responses ticker)) :
    x.tickerId = ticker ∧ ((x.side = .buy ∨ x.side = .sell) ∨ x.type = .cancelRejected) := by
  have hforeign : ∀ ev ∈ k.events cells r, ∀ s, ¬ (s = .buy ∨ s = .sell) →
      ev.Foreign x.clientId s := by
    intro ev hev s hs
    refine events_foreign ?_ ev hev
    intro hnew hown
    rcases hr with ⟨-, hside, -⟩ | hcancel
    · exact hs (hown.2 ▸ hside)
    · rw [hnew] at hcancel
      cases hcancel
  generalize k.events cells r = evs at hok hx hforeign
  induction evs generalizing k with
  | nil => cases hx
  | cons ev evs ih =>
    rw [List.flatMap_cons] at hx
    rcases List.mem_append.mp hx with hx | hx
    · exact ⟨responses_ticker hx,
        responses_side hk.toLists hok.1 (hforeign ev List.mem_cons_self) hx rfl⟩
    · exact ih (apply_wf hk hok.1) hok.2 hx fun ev' hev' => hforeign ev' (List.mem_cons_of_mem _ hev')

end Book

end TradingSystem
