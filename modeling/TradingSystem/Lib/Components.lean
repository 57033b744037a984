import TradingSystem.Lib.Run

/-!
# Machines side by side

A family of machines, one for each key, of which an input goes to the one of its key (`stepAt`). A run of
the family is, for every key, a run of its machine over the inputs with the key, and nothing more
(`foldlM_stepAt_iff`): how the inputs of different machines interleave does not matter.
-/

variable {ι σ α ε : Type} [DecidableEq ι] {step : σ → α → Except ε σ} {key : α → ι} {s s' : ι → σ}
  {as : List α} {a : α}

/-- The machine of the input's key takes it. -/
def stepAt (step : σ → α → Except ε σ) (key : α → ι) (s : ι → σ) (a : α) : Except ε (ι → σ) := do
  let t ← step (s (key a)) a
  return Function.update s (key a) t

theorem stepAt_eq_ok :
    stepAt step key s a = .ok s' ↔
      ∃ t, step (s (key a)) a = .ok t ∧ s' = Function.update s (key a) t := by
  unfold stepAt
  rw [bind_eq_ok]
  constructor
  · intro ⟨t, ht, hs'⟩
    exact ⟨t, ht, (Except.ok.inj hs').symm⟩
  · intro ⟨t, ht, hs'⟩
    exact ⟨t, ht, congrArg Except.ok hs'.symm⟩

/-- The inputs of a machine, one longer at the front. -/
theorem filter_key_cons (i : ι) :
    (a :: as).filter (fun a => key a = i) =
      if key a = i then a :: as.filter (fun a => key a = i) else as.filter fun a => key a = i := by
  rw [List.filter_cons]
  simp only [decide_eq_true_eq]

/-- **A run of the family is a run of each of its machines.** -/
theorem foldlM_stepAt_iff (key : α → ι) :
    as.foldlM (stepAt step key) s = .ok s' ↔
      ∀ i, (as.filter fun a => key a = i).foldlM step (s i) = .ok (s' i) := by
  induction as generalizing s with
  | nil =>
    constructor
    · intro h i
      obtain rfl := Except.ok.inj h
      rfl
    · intro h
      exact congrArg Except.ok (funext fun i => Except.ok.inj (h i))
  | cons a as ih =>
    rw [List.foldlM_cons, bind_eq_ok]
    constructor
    · rintro ⟨s₁, hstep, hrest⟩ i
      obtain ⟨t, ht, rfl⟩ := stepAt_eq_ok.mp hstep
      have hi := ih.mp hrest i
      rw [filter_key_cons]
      split
      · next hkey =>
        subst hkey
        rw [Function.update_self] at hi
        rw [List.foldlM_cons]
        exact bind_eq_ok.mpr ⟨t, ht, hi⟩
      · next hkey =>
        rwa [Function.update_of_ne fun heq => hkey heq.symm] at hi
    · intro h
      have hfirst := h (key a)
      rw [filter_key_cons, if_pos rfl, List.foldlM_cons] at hfirst
      obtain ⟨t, ht, hrest⟩ := bind_eq_ok.mp hfirst
      refine ⟨_, stepAt_eq_ok.mpr ⟨t, ht, rfl⟩, ih.mpr fun i => ?_⟩
      by_cases hkey : i = key a
      · subst hkey
        rw [Function.update_self]
        exact hrest
      · have hi := h i
        rw [filter_key_cons, if_neg fun heq => hkey heq.symm] at hi
        rwa [Function.update_of_ne hkey]
