import Mathlib

/-!
# Circular doubly linked lists

A heap of nodes is seen through two partial maps `next prev : α → Option α`. `Circular next prev l`
says that the nodes of `l`, in this order, form one circular doubly linked list: each node points
forward to its successor and back to its predecessor, and the last node and the first one close
the circle.

Stores are edited in place, so the two edits (`Circular.insert`, `Circular.remove`) speak about
the maps *after* the edit pointwise: which links were written, and that every other link is the
old one. The order in which the links were written does not matter. Both are proved at the tail
and at the head respectively and carried to any position by `Circular.rotate`.

`readFrom` reads a circle back by following `next` until it meets its starting node.
-/

variable {α : Type*}

/-- `x` and `y` are linked both ways. -/
def Link (next prev : α → Option α) (x y : α) : Prop :=
  next x = some y ∧ prev y = some x

/-- The nodes of `l`, in order, form a circular doubly linked list. -/
def Circular (next prev : α → Option α) (l : List α) : Prop :=
  l.IsChain (Link next prev) ∧ ∀ x ∈ l.getLast?, ∀ y ∈ l.head?, Link next prev x y

namespace Circular

variable {next prev next' prev' : α → Option α} {l pre post : List α} {a b c n x y z : α}

/-- A chain survives an edit that keeps the forward links of all its nodes but the last and the
back links of all but the first. -/
theorem isChain_link_of_agree (hchain : l.IsChain (Link next prev))
    (hnext : ∀ x ∈ l.dropLast, next' x = next x) (hprev : ∀ x ∈ l.tail, prev' x = prev x) :
    l.IsChain (Link next' prev') := by
  induction l with
  | nil => simp
  | cons a l ih =>
    cases l with
    | nil => simp
    | cons b l =>
      rw [List.isChain_cons_cons] at hchain ⊢
      refine ⟨⟨?_, ?_⟩, ih hchain.2 ?_ ?_⟩
      · exact (hnext a (by simp)).trans hchain.1.1
      · exact (hprev b (by simp)).trans hchain.1.2
      · intro x hx
        exact hnext x (by simp [hx])
      · intro x hx
        exact hprev x (List.mem_cons_of_mem _ hx)

theorem ne_getLast_of_mem_dropLast (hnd : l.Nodup) (hx : x ∈ l.dropLast)
    (hz : l.getLast? = some z) : x ≠ z := by
  have hsplit : l.dropLast ++ [z] = l := List.dropLast_append_getLast? z hz
  rw [← hsplit, List.nodup_append] at hnd
  exact hnd.2.2 x hx z (by simp)

@[simp] theorem nil : Circular next prev ([] : List α) := by
  simp [Circular]

@[simp] theorem singleton_iff :
    Circular next prev [x] ↔ next x = some x ∧ prev x = some x := by
  simp [Circular, Link]

/-- A circle has no distinguished first node. -/
theorem rotate (h : Circular next prev (pre ++ post)) : Circular next prev (post ++ pre) := by
  obtain ⟨hchain, hclose⟩ := h
  rw [List.isChain_append] at hchain
  obtain ⟨hpre, hpost, hseam⟩ := hchain
  cases pre with
  | nil => simpa [Circular] using ⟨hpost, by simpa using hclose⟩
  | cons p ps =>
    cases post with
    | nil => simpa [Circular] using ⟨hpre, by simpa using hclose⟩
    | cons q qs =>
      refine ⟨List.isChain_append.mpr ⟨hpost, hpre, ?_⟩, ?_⟩
      · intro x hx y hy
        exact hclose x (by rw [List.getLast?_append_cons]; exact hx) y (by simpa using hy)
      · intro x hx y hy
        exact hseam x (by rw [List.getLast?_append_cons] at hx; exact hx) y (by simpa using hy)

/-- Being a circle only depends on the links of its own nodes. -/
theorem congr (h : Circular next prev l) (hn : ∀ x ∈ l, next' x = next x)
    (hp : ∀ x ∈ l, prev' x = prev x) : Circular next' prev' l := by
  obtain ⟨hchain, hclose⟩ := h
  refine ⟨hchain.imp_of_mem_imp ?_, ?_⟩
  · intro x y hx hy hxy
    exact ⟨(hn x hx).trans hxy.1, (hp y hy).trans hxy.2⟩
  · intro x hx y hy
    have hxy := hclose x hx y hy
    exact ⟨(hn x (List.mem_of_getLast? hx)).trans hxy.1,
      (hp y (List.mem_of_head? hy)).trans hxy.2⟩

/-- A circle is a head followed by a chain that comes back to the head. -/
theorem cons_iff :
    Circular next prev (c :: l) ↔ (c :: l ++ [c]).IsChain (Link next prev) := by
  rw [List.isChain_append]
  simp [Circular]

/-- The head's predecessor is the last node. -/
theorem prev_head (h : Circular next prev (c :: l)) :
    prev c = some ((c :: l).getLast (by simp)) :=
  (h.2 _ (List.getLast?_eq_getLast_of_ne_nil (by simp)) c (by simp)).2

theorem next_getLast (h : Circular next prev (c :: l)) :
    next ((c :: l).getLast (by simp)) = some c :=
  (h.2 _ (List.getLast?_eq_getLast_of_ne_nil (by simp)) c (by simp)).1

theorem next_head (h : Circular next prev (a :: b :: l)) : next a = some b :=
  h.1.rel.1

theorem prev_second (h : Circular next prev (a :: b :: l)) : prev b = some a :=
  h.1.rel.2

/-- Every node of a circle has a predecessor in the circle, linked both ways. -/
theorem exists_prev (h : Circular next prev l) (hc : c ∈ l) :
    ∃ z ∈ l, prev c = some z ∧ next z = some c := by
  obtain ⟨pre, post, rfl⟩ := List.append_of_mem hc
  have hr := h.rotate
  rw [List.cons_append] at hr
  refine ⟨_, ?_, hr.prev_head, hr.next_getLast⟩
  have := List.getLast_mem (l := c :: (post ++ pre)) (by simp)
  simp only [List.mem_cons, List.mem_append] at this ⊢
  tauto

/-- Every node of a circle has a successor in the circle, linked both ways. -/
theorem exists_next (h : Circular next prev l) (hc : c ∈ l) :
    ∃ y ∈ l, next c = some y ∧ prev y = some c := by
  obtain ⟨pre, post, rfl⟩ := List.append_of_mem hc
  have hr := h.rotate
  rw [List.cons_append] at hr
  rcases hpp : post ++ pre with _ | ⟨d, ds⟩
  · rw [hpp, singleton_iff] at hr
    exact ⟨c, hc, hr⟩
  · rw [hpp] at hr
    refine ⟨d, ?_, hr.next_head, hr.prev_second⟩
    have hd : d ∈ post ++ pre := by rw [hpp]; simp
    simp only [List.mem_append, List.mem_cons] at hd ⊢
    tauto

/-- A node that is its own successor is alone in its circle. -/
theorem eq_singleton (h : Circular next prev l) (hnd : l.Nodup) (hc : c ∈ l)
    (hself : next c = some c) : l = [c] := by
  obtain ⟨pre, post, rfl⟩ := List.append_of_mem hc
  have hr := h.rotate
  rw [List.cons_append] at hr
  rcases hpp : post ++ pre with _ | ⟨d, ds⟩
  · obtain ⟨rfl, rfl⟩ := List.append_eq_nil_iff.mp hpp
    rfl
  · rw [hpp] at hr
    have hdc : d = c := by simpa [hr.next_head] using hself
    have hd : d ∈ post ++ pre := by rw [hpp]; simp
    subst hdc
    simp only [List.mem_append] at hd
    simp [List.nodup_append] at hnd
    rcases hd with hd | hd
    · exact absurd hd hnd.2.1.1
    · exact absurd rfl (hnd.2.2 d hd).1

/-! ## Linking a node in -/

/-- Link `n` in between the last node and the head. -/
private theorem insert_tail (h : Circular next prev (c :: l)) (hnd : (c :: l).Nodup)
    (hn : n ∉ c :: l) (hz : prev c = some z)
    (hzn : next' z = some n) (hnc : next' n = some c)
    (hnz : prev' n = some z) (hcn : prev' c = some n)
    (hnext : ∀ x ∈ c :: l, x ≠ z → next' x = next x)
    (hprev : ∀ x ∈ c :: l, x ≠ c → prev' x = prev x) :
    Circular next' prev' (c :: l ++ [n]) := by
  have hlast : (c :: l).getLast? = some z := by
    rw [← hz, h.prev_head, List.getLast?_eq_getLast_of_ne_nil]
  -- only the last node's forward link and the head's back link have changed
  have hchain : (c :: l).IsChain (Link next' prev') := by
    refine isChain_link_of_agree h.1 ?_ ?_
    · intro x hx
      exact hnext x (List.mem_of_mem_dropLast hx) (ne_getLast_of_mem_dropLast hnd hx hlast)
    · intro x hx
      refine hprev x (List.mem_cons_of_mem _ hx) ?_
      rintro rfl
      exact (List.nodup_cons.mp hnd).1 hx
  refine ⟨List.isChain_append.mpr ⟨hchain, by simp, ?_⟩, ?_⟩
  · intro x hx y hy
    rw [hlast] at hx
    obtain rfl : z = x := Option.some.inj hx
    obtain rfl : n = y := by simpa using hy
    exact ⟨hzn, hnz⟩
  · intro x hx y hy
    rw [List.getLast?_concat] at hx
    obtain rfl : n = x := Option.some.inj hx
    obtain rfl : c = y := by simpa using hy
    exact ⟨hnc, hcn⟩

/-- **Link a node in.** Putting `n` before `c` writes the forward links of `c`'s old predecessor
`z` and of `n`, and the back links of `n` and of `c`. -/
theorem insert (h : Circular next prev (pre ++ c :: post)) (hnd : (pre ++ c :: post).Nodup)
    (hn : n ∉ pre ++ c :: post) (hz : prev c = some z)
    (hzn : next' z = some n) (hnc : next' n = some c)
    (hnz : prev' n = some z) (hcn : prev' c = some n)
    (hnext : ∀ x ∈ pre ++ c :: post, x ≠ z → next' x = next x)
    (hprev : ∀ x ∈ pre ++ c :: post, x ≠ c → prev' x = prev x) :
    Circular next' prev' (pre ++ n :: c :: post) := by
  have hr := h.rotate
  have hmem : ∀ x, x ∈ c :: (post ++ pre) → x ∈ pre ++ c :: post := by
    intro x hx
    simp only [List.mem_cons, List.mem_append] at hx ⊢
    tauto
  have hins := insert_tail hr
    (List.nodup_append_comm.mp hnd) (fun hx => hn (hmem n hx)) hz hzn hnc hnz hcn
    (fun x hx => hnext x (hmem x hx)) (fun x hx => hprev x (hmem x hx))
  have hrot : Circular next' prev' ((c :: post) ++ (pre ++ [n])) := by simpa using hins
  simpa using hrot.rotate

/-! ## Unlinking a node -/

/-- **Unlink a node.** Taking `x` out writes the forward link of its predecessor `z` and the back
link of its successor `y`. -/
theorem remove (h : Circular next prev (pre ++ x :: post))
    (hnd : (pre ++ x :: post).Nodup)
    (hz : prev x = some z) (hy : next x = some y)
    (hzy : next' z = some y) (hyz : prev' y = some z)
    (hnext : ∀ w ∈ pre ++ post, w ≠ z → next' w = next w)
    (hprev : ∀ w ∈ pre ++ post, w ≠ y → prev' w = prev w) :
    Circular next' prev' (pre ++ post) := by
  have hr : Circular next prev (x :: (post ++ pre)) := by simpa using h.rotate
  have hndr : (x :: (post ++ pre)).Nodup := by simpa using List.nodup_append_comm.mp hnd
  suffices hs : Circular next' prev' (post ++ pre) from hs.rotate
  have hnext' : ∀ w ∈ post ++ pre, w ≠ z → next' w = next w := by
    intro w hw
    exact hnext w (by simp only [List.mem_append] at hw ⊢; tauto)
  have hprev' : ∀ w ∈ post ++ pre, w ≠ y → prev' w = prev w := by
    intro w hw
    exact hprev w (by simp only [List.mem_append] at hw ⊢; tauto)
  generalize hl : post ++ pre = l at hr hndr hnext' hprev' ⊢
  cases l with
  | nil => exact nil
  | cons d ds =>
    obtain rfl : d = y := by simpa [hr.next_head] using hy
    have hlast : (d :: ds).getLast? = some z := by
      rw [← hz, hr.prev_head, List.getLast_cons (by simp), List.getLast?_eq_getLast_of_ne_nil]
    have hnd' : (d :: ds).Nodup := hndr.of_cons
    refine ⟨isChain_link_of_agree (List.isChain_cons.mp hr.1).2 ?_ ?_, ?_⟩
    · intro w hw
      exact hnext' w (List.mem_of_mem_dropLast hw) (ne_getLast_of_mem_dropLast hnd' hw hlast)
    · intro w hw
      refine hprev' w (List.mem_cons_of_mem _ hw) ?_
      rintro rfl
      exact (List.nodup_cons.mp hnd').1 hw
    · intro v hv w hw
      rw [hlast] at hv
      obtain rfl : z = v := Option.some.inj hv
      obtain rfl : d = w := by simpa using hw
      exact ⟨hzy, hyz⟩

/-- A circle leaves no choice for the links of its nodes. -/
theorem links_eq (h : Circular next prev l) (h' : Circular next' prev' l) (hx : x ∈ l) :
    next x = next' x ∧ prev x = prev' x := by
  obtain ⟨pre, post, rfl⟩ := List.append_of_mem hx
  have hr := h.rotate
  have hr' := h'.rotate
  rw [List.cons_append] at hr hr'
  refine ⟨?_, hr.prev_head.trans hr'.prev_head.symm⟩
  rcases hpp : post ++ pre with _ | ⟨d, ds⟩ <;> rw [hpp] at hr hr'
  · exact (singleton_iff.mp hr).1.trans (singleton_iff.mp hr').1.symm
  · exact hr.next_head.trans hr'.next_head.symm

end Circular

/-! ## Reading a circle back -/

/-- The nodes met from `x` on, following `next` until `head` comes round again. -/
def readFrom [DecidableEq α] (next : α → Option α) (head : α) : Nat → α → List α
  | 0, _ => []
  | fuel + 1, x =>
    x :: match next x with
      | some y => if y = head then [] else readFrom next head fuel y
      | none => []

/-- The nodes of the circle whose head is `head`, in order; `fuel` bounds their number. -/
def readCircle [DecidableEq α] (next : α → Option α) (fuel : Nat) (head : Option α) : List α :=
  match head with
  | some h => readFrom next h fuel h
  | none => []

@[simp] theorem readCircle_none [DecidableEq α] (next : α → Option α) (fuel : Nat) :
    readCircle next fuel none = [] := rfl

theorem readFrom_chain [DecidableEq α] {next prev : α → Option α} {head x : α} {l : List α}
    {fuel : Nat} (hchain : (x :: l ++ [head]).IsChain (Link next prev)) (hhead : head ∉ l)
    (hfuel : l.length < fuel) : readFrom next head fuel x = x :: l := by
  induction l generalizing x fuel with
  | nil =>
    obtain ⟨fuel, rfl⟩ := Nat.exists_eq_succ_of_ne_zero (Nat.ne_of_gt hfuel)
    have hx : next x = some head := hchain.rel.1
    simp [readFrom, hx]
  | cons y l ih =>
    obtain ⟨fuel, rfl⟩ := Nat.exists_eq_succ_of_ne_zero (by omega : fuel ≠ 0)
    simp only [List.cons_append, List.isChain_cons_cons] at hchain
    have hy : y ≠ head := fun h => hhead (by simp [h])
    have hrec := @ih y fuel (by simpa using hchain.2)
      (fun h => hhead (List.mem_cons_of_mem _ h)) (by simpa using hfuel)
    simp [readFrom, hchain.1.1, hy, hrec]

/-- Reading a circle from its head gives exactly its nodes. -/
theorem Circular.readCircle_eq [DecidableEq α] {next prev : α → Option α} {l : List α}
    {fuel : Nat} (h : Circular next prev l) (hnd : l.Nodup) (hfuel : l.length ≤ fuel) :
    readCircle next fuel l.head? = l := by
  cases l with
  | nil => rfl
  | cons c l =>
    exact readFrom_chain (Circular.cons_iff.mp h) (List.nodup_cons.mp hnd).1 (by simpa using hfuel)
