import Mathlib

/-!
# Maps kept in the order of their keys

A finite map as the list of its entries, keys ascending: what iterating over an ordered map visits,
in the order it visits them. `insert` overwrites. A map whose keys are `0, 1, 2, …` is `numberFrom`
of its values; in such a map a key that is not there is past the end (`length_le_of_not_mem`), and
inserting past the end appends (`insert_entries_of_lt`).
-/

/-- A map as its entries, in the order of their keys. -/
structure SortedMap (κ ν : Type*) [LT κ] where
  entries : List (κ × ν)
  sorted : (entries.map Prod.fst).Pairwise (· < ·)

namespace SortedMap

variable {κ ν : Type*} [LinearOrder κ]

/-- Put the entry in its place, over the one of the same key if there is one. -/
def insertEntry (k : κ) (v : ν) : List (κ × ν) → List (κ × ν)
  | [] => [(k, v)]
  | e :: es =>
    if k < e.1 then (k, v) :: e :: es
    else if k = e.1 then (k, v) :: es
    else e :: insertEntry k v es

theorem mem_keys_insertEntry {k x : κ} {v : ν} {es : List (κ × ν)} :
    x ∈ (insertEntry k v es).map Prod.fst ↔ x = k ∨ x ∈ es.map Prod.fst := by
  induction es with
  | nil => simp [insertEntry]
  | cons e es ih =>
    rw [insertEntry]
    split
    · simp
    · split
      · next heq => simp [heq]
      · simp only [List.map_cons, List.mem_cons, ih]
        tauto

theorem insertEntry_sorted {k : κ} {v : ν} {es : List (κ × ν)}
    (h : (es.map Prod.fst).Pairwise (· < ·)) :
    ((insertEntry k v es).map Prod.fst).Pairwise (· < ·) := by
  induction es with
  | nil => simp [insertEntry]
  | cons e es ih =>
    rw [List.map_cons, List.pairwise_cons] at h
    rw [insertEntry]
    split
    · next hlt =>
      rw [List.map_cons, List.map_cons, List.pairwise_cons, List.pairwise_cons]
      refine ⟨?_, h⟩
      intro x hx
      rcases List.mem_cons.mp hx with rfl | hx
      · exact hlt
      · exact lt_trans hlt (h.1 x hx)
    · next hlt =>
      split
      · next heq =>
        rw [List.map_cons, List.pairwise_cons]
        exact ⟨heq ▸ h.1, h.2⟩
      · next hne =>
        rw [List.map_cons, List.pairwise_cons]
        refine ⟨?_, ih h.2⟩
        intro x hx
        rcases mem_keys_insertEntry.mp hx with rfl | hx
        · exact lt_of_le_of_ne (not_lt.mp hlt) (Ne.symm hne)
        · exact h.1 x hx

def empty : SortedMap κ ν := ⟨[], List.Pairwise.nil⟩

def insert (m : SortedMap κ ν) (k : κ) (v : ν) : SortedMap κ ν :=
  ⟨insertEntry k v m.entries, insertEntry_sorted m.sorted⟩

/-- The keys of a map. -/
def keys (m : SortedMap κ ν) : List κ := m.entries.map Prod.fst

variable {m m' : SortedMap κ ν} {k : κ} {v : ν}

theorem ext_entries (h : m.entries = m'.entries) : m = m' := by
  cases m
  cases m'
  simp_all

@[simp] theorem empty_entries : (empty : SortedMap κ ν).entries = [] := rfl

@[simp] theorem keys_empty : (empty : SortedMap κ ν).keys = [] := rfl

theorem eq_empty_iff : m = empty ↔ m.entries = [] :=
  ⟨fun h => h ▸ rfl, fun h => ext_entries h⟩

theorem mem_insertEntry {es : List (κ × ν)} (h : (es.map Prod.fst).Pairwise (· < ·)) {e : κ × ν} :
    e ∈ insertEntry k v es ↔ e = (k, v) ∨ (e ∈ es ∧ e.1 ≠ k) := by
  induction es with
  | nil => simp [insertEntry]
  | cons x es ih =>
    rw [List.map_cons, List.pairwise_cons] at h
    rw [insertEntry]
    have hes : ∀ e ∈ es, x.1 < e.1 := fun e he => h.1 e.1 (List.mem_map_of_mem he)
    split
    · next hlt =>
      have hne : ∀ e ∈ x :: es, e.1 ≠ k := by
        intro e he
        rcases List.mem_cons.mp he with rfl | he
        · exact ne_of_gt hlt
        · exact ne_of_gt (lt_trans hlt (hes e he))
      rw [List.mem_cons]
      constructor
      · intro h
        rcases h with h | h
        · exact Or.inl h
        · exact Or.inr ⟨h, hne e h⟩
      · intro h
        rcases h with h | h
        · exact Or.inl h
        · exact Or.inr h.1
    · split
      · next heq =>
        have hne : ∀ e ∈ es, e.1 ≠ k := fun e he => ne_of_gt (heq ▸ hes e he)
        rw [List.mem_cons, List.mem_cons]
        constructor
        · intro h
          rcases h with h | h
          · exact Or.inl h
          · exact Or.inr ⟨Or.inr h, hne e h⟩
        · rintro (h | ⟨rfl | h, hk⟩)
          · exact Or.inl h
          · exact absurd heq.symm hk
          · exact Or.inr h
      · next hne =>
        rw [List.mem_cons, List.mem_cons, ih h.2]
        constructor
        · rintro (rfl | rfl | h)
          · exact Or.inr ⟨Or.inl rfl, Ne.symm hne⟩
          · exact Or.inl rfl
          · exact Or.inr ⟨Or.inr h.1, h.2⟩
        · rintro (rfl | ⟨rfl | h, hk⟩)
          · exact Or.inr (Or.inl rfl)
          · exact Or.inl rfl
          · exact Or.inr (Or.inr ⟨h, hk⟩)

/-- After an insertion the map holds the new entry and those of other keys. -/
theorem mem_insert {e : κ × ν} :
    e ∈ (m.insert k v).entries ↔ e = (k, v) ∨ (e ∈ m.entries ∧ e.1 ≠ k) :=
  mem_insertEntry m.sorted

theorem insertEntry_of_lt {es : List (κ × ν)} (h : ∀ x ∈ es.map Prod.fst, x < k) :
    insertEntry k v es = es ++ [(k, v)] := by
  induction es with
  | nil => rfl
  | cons e es ih =>
    have hlt : e.1 < k := h e.1 (by simp)
    rw [insertEntry, if_neg (not_lt_of_gt hlt), if_neg (ne_of_gt hlt), List.cons_append, ih]
    intro x hx
    exact h x (by simp only [List.map_cons, List.mem_cons]; exact Or.inr hx)

/-- An insertion past the last key appends. -/
theorem insert_entries_of_lt (h : ∀ x ∈ m.keys, x < k) :
    (m.insert k v).entries = m.entries ++ [(k, v)] :=
  insertEntry_of_lt h

theorem insertEntry_of_mem {es : List (κ × ν)} (hsorted : (es.map Prod.fst).Pairwise (· < ·))
    (h : (k, v) ∈ es) : insertEntry k v es = es := by
  induction es with
  | nil => cases h
  | cons e es ih =>
    rw [List.map_cons, List.pairwise_cons] at hsorted
    rw [insertEntry]
    rcases List.mem_cons.mp h with rfl | h
    · simp
    · have hlt : e.1 < k := hsorted.1 k (List.mem_map.mpr ⟨_, h, rfl⟩)
      rw [if_neg (not_lt_of_gt hlt), if_neg (ne_of_gt hlt), ih hsorted.2 h]

/-- Inserting what is there changes nothing. -/
theorem insert_of_mem (h : (k, v) ∈ m.entries) : m.insert k v = m :=
  ext_entries (insertEntry_of_mem m.sorted h)

theorem filter_insertEntry_of_not {p : κ → Bool} (hk : p k = false) (es : List (κ × ν)) :
    ((insertEntry k v es).filter fun e => p e.1) =
      es.filter fun e => p e.1 := by
  induction es with
  | nil => simp [insertEntry, hk]
  | cons e es ih =>
    rw [insertEntry]
    split
    · rw [List.filter_cons_of_neg (by simp [hk])]
    · split
      · next heq =>
        subst heq
        rw [List.filter_cons_of_neg (by simp [hk]), List.filter_cons_of_neg (by simp [hk])]
      · rw [List.filter_cons, List.filter_cons, ih]

/-- An insertion does not show among the keys it does not concern. -/
theorem filter_insert_of_not {p : κ → Bool} (hk : p k = false) :
    ((m.insert k v).entries.filter fun e => p e.1) = m.entries.filter fun e => p e.1 :=
  filter_insertEntry_of_not hk m.entries

end SortedMap

/-! ## Maps numbered from zero -/

instance UInt64.instLinearOrder : LinearOrder UInt64 where
  le_refl := UInt64.le_refl
  le_trans _ _ _ := UInt64.le_trans
  lt_iff_le_not_ge a b := by rw [UInt64.not_le, UInt64.lt_iff_le_and_ne]; grind
  le_antisymm _ _ := UInt64.le_antisymm
  le_total := UInt64.le_total
  toDecidableLE := inferInstance

/-- The values with the numbers from `n` on as their keys. -/
def numberFrom {ν : Type*} (n : UInt64) : List ν → List (UInt64 × ν)
  | [] => []
  | v :: vs => (n, v) :: numberFrom (n + 1) vs

section

variable {ν : Type*} {n k : UInt64} {v : ν} {vs vs' : List ν}

@[simp] theorem numberFrom_nil : numberFrom n ([] : List ν) = [] := rfl

@[simp] theorem numberFrom_cons :
    numberFrom n (v :: vs) = (n, v) :: numberFrom (n + 1) vs := rfl

@[simp] theorem length_numberFrom : (numberFrom n vs).length = vs.length := by
  induction vs generalizing n with
  | nil => rfl
  | cons v vs ih => simp [ih]

@[simp] theorem numberFrom_values : (numberFrom n vs).map Prod.snd = vs := by
  induction vs generalizing n with
  | nil => rfl
  | cons v vs ih => simp [ih]

theorem numberFrom_append :
    numberFrom n (vs ++ vs') = numberFrom n vs ++ numberFrom (n + UInt64.ofNat vs.length) vs' := by
  induction vs generalizing n with
  | nil => simp
  | cons v vs ih =>
    have hn : n + 1 + UInt64.ofNat vs.length = n + UInt64.ofNat (vs.length + 1) := by
      rw [UInt64.ofNat_add, add_assoc, add_comm (1 : UInt64)]
      rfl
    simp [ih, hn]

theorem mem_numberFrom {e : UInt64 × ν} :
    e ∈ numberFrom n vs ↔ ∃ i, vs[i]? = some e.2 ∧ e.1 = n + UInt64.ofNat i := by
  induction vs generalizing n with
  | nil => simp
  | cons v vs ih =>
    have hn : ∀ i : Nat, n + 1 + UInt64.ofNat i = n + UInt64.ofNat (i + 1) := by
      intro i
      rw [UInt64.ofNat_add, add_assoc, add_comm (1 : UInt64)]
      rfl
    rw [numberFrom_cons, List.mem_cons, ih]
    constructor
    · rintro (rfl | ⟨i, hv, hk⟩)
      · exact ⟨0, by simp, by simp⟩
      · exact ⟨i + 1, by simpa using hv, by rw [hk, hn]⟩
    · rintro ⟨i, hv, hk⟩
      cases i with
      | zero =>
        left
        simp only [List.getElem?_cons_zero, Option.some.injEq] at hv
        exact Prod.ext (hk.trans (add_zero n)) hv.symm
      | succ i => exact Or.inr ⟨i, by simpa using hv, by rw [hk, hn]⟩

theorem getElem?_numberFrom (i : Nat) :
    (numberFrom n vs)[i]? = vs[i]?.map fun v => (n + UInt64.ofNat i, v) := by
  induction vs generalizing n i with
  | nil => rfl
  | cons v vs ih =>
    cases i with
    | zero =>
      show some (n, v) = some (n + 0, v)
      rw [add_zero]
    | succ i =>
      rw [numberFrom_cons, List.getElem?_cons_succ, List.getElem?_cons_succ, ih, UInt64.ofNat_add,
        add_assoc, add_comm (1 : UInt64)]
      rfl

/-- Numbers that ascend do not wrap round. -/
theorem length_le_of_sorted (h : ((numberFrom 0 vs).map Prod.fst).Pairwise (· < ·)) :
    vs.length ≤ 2 ^ 64 := by
  have hnd : ((numberFrom 0 vs).map Prod.fst).Nodup := h.imp fun hlt => ne_of_lt hlt
  have hinj : (((numberFrom 0 vs).map Prod.fst).map UInt64.toNat).Nodup :=
    hnd.map fun _ _ heq => UInt64.toNat_inj.mp heq
  have hsub : (((numberFrom 0 vs).map Prod.fst).map UInt64.toNat) ⊆ List.range (2 ^ 64) := by
    intro x hx
    obtain ⟨y, -, rfl⟩ := List.mem_map.mp hx
    exact List.mem_range.mpr y.toNat_lt
  simpa using hinj.length_le_of_subset hsub

/-- Numbers that ascend are the natural numbers from the first one on. -/
theorem numberFrom_toNat (h : ((numberFrom n vs).map Prod.fst).Pairwise (· < ·)) :
    ((numberFrom n vs).map fun e => e.1.toNat) = List.range' n.toNat vs.length := by
  induction vs generalizing n with
  | nil => rfl
  | cons v vs ih =>
    rw [numberFrom_cons, List.map_cons, List.pairwise_cons] at h
    rw [numberFrom_cons, List.map_cons, ih h.2, List.length_cons, List.range'_succ]
    congr 1
    cases vs with
    | nil => rfl
    | cons w vs =>
      have hlt : n < n + 1 := h.1 (n + 1) (by simp)
      have hsucc : (n + 1).toNat = n.toNat + 1 := by
        rw [UInt64.lt_iff_toNat_lt, UInt64.toNat_add] at hlt
        rw [UInt64.toNat_add]
        change n.toNat < (n.toNat + 1) % 2 ^ 64 at hlt
        show (n.toNat + 1) % 2 ^ 64 = _
        omega
      rw [hsucc]

/-- In a map numbered from zero, a key that is not there is past the end. -/
theorem length_le_of_not_mem (hk : k ∉ (numberFrom 0 vs).map Prod.fst) : vs.length ≤ k.toNat := by
  by_contra hlt
  have hlt : k.toNat < vs.length := by omega
  refine hk (List.mem_map.mpr ⟨(k, vs[k.toNat]), mem_numberFrom.mpr ⟨k.toNat, ?_, ?_⟩, rfl⟩)
  · exact List.getElem?_eq_getElem hlt
  · simp

theorem mem_keys_numbered_lt (hlen : vs.length ≤ 2 ^ 64)
    (hk : k ∈ (numberFrom 0 vs).map Prod.fst) : k.toNat < vs.length := by
  obtain ⟨e, he, rfl⟩ := List.mem_map.mp hk
  obtain ⟨i, hv, hi⟩ := mem_numberFrom.mp he
  obtain ⟨hlt, -⟩ := List.getElem?_eq_some_iff.mp hv
  rw [hi, zero_add, UInt64.toNat_ofNat', Nat.mod_eq_of_lt (by omega)]
  exact hlt

end
