import Mathlib

/-!
# Lists in stable order

A list is sorted stably by a key when its keys ascend and elements of equal keys keep the order they
came in. There is one such list: a sorted list is determined by its elements of each single key, in
order (`eq_of_sorted_of_filter_eq`), and `mergeSort` keeps these (`filter_mergeSort`). A sort that is
not stable does as well as a stable one only where ties cannot be told apart
(`forall_sorted_stable_iff`).
-/

variable {α β : Type*} [DecidableEq β]

/-- A sorted list is determined by its elements of each key. -/
theorem eq_of_sorted_of_filter_eq {le : β → β → Prop} (hanti : ∀ x y, le x y → le y x → x = y)
    {key : α → β} {l l' : List α} (hl : l.Pairwise fun a b => le (key a) (key b))
    (hl' : l'.Pairwise fun a b => le (key a) (key b))
    (h : ∀ x, l.filter (fun a => key a = x) = l'.filter fun a => key a = x) : l = l' := by
  induction l generalizing l' with
  | nil =>
    cases l' with
    | nil => rfl
    | cons b l' =>
      have := h (key b)
      simp at this
  | cons a l ih =>
    cases l' with
    | nil =>
      have := h (key a)
      simp at this
    | cons b l' =>
      rw [List.pairwise_cons] at hl hl'
      -- the heads have the same key: each key occurs in both lists
      have hmem : ∀ {c : α} {m m' : List α}, (m.filter fun x => key x = key c) =
          (m'.filter fun x => key x = key c) → c ∈ m → ∃ d ∈ m', key d = key c := by
        intro c m m' heq hc
        have : c ∈ m.filter fun x => key x = key c := List.mem_filter.mpr ⟨hc, by simp⟩
        rw [heq] at this
        exact ⟨c, (List.mem_filter.mp this).1, rfl⟩
      have hkey : key a = key b := by
        obtain ⟨d, hd, hda⟩ := hmem (h (key a)) (List.mem_cons_self (a := a) (l := l))
        obtain ⟨c, hc, hcb⟩ := hmem (h (key b)).symm (List.mem_cons_self (a := b) (l := l'))
        rcases List.mem_cons.mp hd with rfl | hd
        · exact hda.symm
        · rcases List.mem_cons.mp hc with rfl | hc
          · exact hcb
          · refine hanti _ _ ?_ ?_
            · rw [← hcb]
              exact hl.1 c hc
            · rw [← hda]
              exact hl'.1 d hd
      have hhead := h (key a)
      rw [List.filter_cons_of_pos (by simp), List.filter_cons_of_pos (by simp [hkey])] at hhead
      obtain ⟨rfl, -⟩ := List.cons.inj hhead
      rw [ih hl.2 hl'.2]
      intro x
      have hx := h x
      by_cases hax : key a = x
      · rw [List.filter_cons_of_pos (by simp [hax]), List.filter_cons_of_pos (by simp [hax])] at hx
        exact (List.cons.inj hx).2
      · rwa [List.filter_cons_of_neg (by simp [hax]), List.filter_cons_of_neg (by simp [hax])] at hx

/-- Sorting keeps the elements of each key in order. -/
theorem filter_mergeSort {le : β → β → Bool} {key : α → β}
    (htrans : ∀ x y z, le x y → le y z → le x z) (htotal : ∀ x y, le x y || le y x) (l : List α)
    (x : β) :
    (l.mergeSort fun a b => le (key a) (key b)).filter (fun a => key a = x) =
      l.filter fun a => key a = x := by
  have hrefl : le x x = true := by simpa using htotal x x
  have hsub : (l.filter fun a => key a = x).Sublist
      (l.mergeSort fun a b => le (key a) (key b)) := by
    refine List.sublist_mergeSort (fun a b c => htrans (key a) (key b) (key c))
      (fun a b => htotal (key a) (key b)) ?_ List.filter_sublist
    refine List.pairwise_of_forall_mem_list ?_
    intro a ha b hb
    have ha' := of_decide_eq_true (List.mem_filter.mp ha).2
    have hb' := of_decide_eq_true (List.mem_filter.mp hb).2
    rw [ha', hb']
    exact hrefl
  have hfilter := hsub.filter fun a => key a = x
  rw [List.filter_filter] at hfilter
  simp only [Bool.and_self] at hfilter
  refine (hfilter.eq_of_length ?_).symm
  exact ((List.mergeSort_perm l _).filter _).length_eq.symm

/-- The second list is the first, stably sorted. -/
structure StablySorted (le : β → β → Prop) (key : α → β) (l sorted : List α) : Prop where
  perm : sorted.Perm l
  ascending : sorted.Pairwise fun a b => le (key a) (key b)
  ties : ∀ x, sorted.filter (fun a => key a = x) = l.filter fun a => key a = x

/-! ## Sorts that need not be stable

A sort that is only known to return some sorted permutation returns the stable one, as far as `f` can
tell, if and only if `f` cannot tell elements of equal keys apart. -/

section

variable {γ : Type*} {le : β → β → Prop} {key : α → β} {f : α → γ}
  {l out out' : List α}

theorem exists_stablySorted (le : β → β → Prop) [DecidableRel le]
    (htrans : ∀ x y z, le x y → le y z → le x z)
    (htotal : ∀ x y, le x y ∨ le y x) (key : α → β) (l : List α) :
    ∃ sorted, StablySorted le key l sorted := by
  have htrans' : ∀ x y z, decide (le x y) → decide (le y z) → decide (le x z) := by
    simpa using htrans
  have htotal' : ∀ x y, (decide (le x y) || decide (le y x)) = true := by
    simpa using htotal
  refine ⟨l.mergeSort fun a b => decide (le (key a) (key b)), List.mergeSort_perm l _, ?_, ?_⟩
  · apply List.Pairwise.imp (fun {_ _} h => of_decide_eq_true h)
    exact List.pairwise_mergeSort (fun a b c => htrans' (key a) (key b) (key c))
      (fun a b => htotal' (key a) (key b)) l
  · exact filter_mergeSort htrans' htotal' l

omit [DecidableEq β] in
/-- All sortings of a list have the same keys in the same order. -/
theorem map_key_eq (hanti : ∀ x y, le x y → le y x → x = y) (hperm : out.Perm out')
    (hout : out.Pairwise fun a b => le (key a) (key b))
    (hout' : out'.Pairwise fun a b => le (key a) (key b)) : out.map key = out'.map key :=
  (hperm.map key).eq_of_pairwise (fun x y _ _ => hanti x y) (List.pairwise_map.mpr hout)
    (List.pairwise_map.mpr hout')

omit [DecidableEq β] in
/-- A list is determined by the keys of its elements and what `f` tells of them. -/
theorem eq_of_map_eq (hinj : ∀ a b, key a = key b → f a = f b → a = b)
    (hkey : out.map key = out'.map key) (hf : out.map f = out'.map f) : out = out' := by
  have hboth : out.map (fun a => (key a, f a)) = out'.map fun a => (key a, f a) := by
    rw [← List.zip_map', ← List.zip_map', hkey, hf]
  refine List.map_injective_iff.mpr ?_ hboth
  intro a b hab
  exact hinj a b (Prod.mk.inj hab).1 (Prod.mk.inj hab).2

/-- **When every sort is as good as a stable one.** -/
theorem forall_sorted_stable_iff [DecidableEq α] (le : β → β → Prop) [DecidableRel le] (key : α → β)
    (f : α → γ) (l : List α) (htrans : ∀ x y z, le x y → le y z → le x z)
    (htotal : ∀ x y, le x y ∨ le y x) (hanti : ∀ x y, le x y → le y x → x = y)
    (hinj : ∀ a b, key a = key b → f a = f b → a = b) :
    (∀ out : List α, out.Perm l → (out.Pairwise fun a b => le (key a) (key b)) →
      ∃ sorted, StablySorted le key l sorted ∧ out.map f = sorted.map f) ↔
      ∀ a ∈ l, ∀ b ∈ l, key a = key b → f a = f b := by
  constructor
  · intro h a ha b hb hab
    -- whatever ties with `a` can come first among those that do, so it is the one that does
    obtain ⟨first, rest, hfirst⟩ : ∃ first rest, l.filter (fun c => key c = key a) = first :: rest :=
      List.exists_cons_of_ne_nil (List.ne_nil_of_mem (List.mem_filter.mpr ⟨ha, by simp⟩))
    have hall : ∀ c ∈ l, key c = key a → c = first := by
      intro c hc hca
      obtain ⟨out, hout⟩ := exists_stablySorted le htrans htotal key (c :: l.erase c)
      have hperm : (c :: l.erase c).Perm l := (List.perm_cons_erase hc).symm
      obtain ⟨sorted, hsorted, hmap⟩ := h out (hout.perm.trans hperm) hout.ascending
      have heq : out = sorted := by
        apply eq_of_map_eq hinj _ hmap
        exact map_key_eq hanti (hout.perm.trans (hperm.trans hsorted.perm.symm)) hout.ascending
          hsorted.ascending
      have hties := hout.ties (key a)
      rw [heq, hsorted.ties, hfirst, List.filter_cons_of_pos (by simpa using hca)] at hties
      exact (List.cons.inj hties).1.symm
    rw [hall a ha rfl, hall b hb hab.symm]
  · intro h out hperm hsorted
    obtain ⟨sorted, hstable⟩ := exists_stablySorted le htrans htotal key l
    refine ⟨sorted, hstable, ?_⟩
    rw [(hperm.trans hstable.perm.symm).eq_of_pairwise _ hsorted hstable.ascending]
    intro a b ha hb hab hba
    have hkey := hanti _ _ hab hba
    exact hinj a b hkey (h a (hperm.mem_iff.mp ha) b (hstable.perm.mem_iff.mp hb) hkey)

end
