import Mathlib

/-!
# Runs of a fallible step function

A machine that processes inputs one after the other and may stop with an error is a step function
`step : σ → α → Except ε σ`; a run over a list of inputs is `List.foldlM step`. A run that goes
through goes through at every prefix, so what holds "in every state reached" is what holds at the
end of every run, and is proved by induction at the end of the list (`run_induction`). A condition
that every step of a run has to meet is `AllSteps`. A run of one machine is matched by a run of another if
each of its steps is (`run_simulation`).
-/

variable {σ α ε : Type*} {step : σ → α → Except ε σ} {s₀ s s' : σ} {as : List α} {a : α}

/-- A computation goes through if and only if both of its parts do. -/
theorem bind_eq_ok {β γ : Type} {x : Except ε β} {f : β → Except ε γ} {c : γ} :
    (x >>= f) = .ok c ↔ ∃ b, x = .ok b ∧ f b = .ok c := by
  cases x with
  | error e =>
    constructor
    · intro h
      cases h
    · intro ⟨_, h, _⟩
      cases h
  | ok b =>
    constructor
    · intro h
      exact ⟨b, rfl, h⟩
    · intro ⟨_, hb, h⟩
      obtain rfl := Except.ok.inj hb
      exact h

theorem foldlM_concat_eq_ok :
    (as ++ [a]).foldlM step s₀ = .ok s' ↔ ∃ s, as.foldlM step s₀ = .ok s ∧ step s a = .ok s' := by
  rw [List.foldlM_append]
  cases h : as.foldlM step s₀ with
  | error e => simp [bind, Except.bind]
  | ok s =>
    simp only [bind, Except.bind, List.foldlM_cons, List.foldlM_nil, pure, Except.pure]
    constructor
    · intro hstep
      refine ⟨s, rfl, ?_⟩
      cases hs : step s a with
      | error e => simp [hs] at hstep
      | ok t => simpa [hs] using hstep
    · rintro ⟨t, ht, hstep⟩
      obtain rfl := Except.ok.inj ht
      simp [hstep]

/-- Every step of the run over `as` meets `P`, which may depend on the inputs before it, on the
state it starts in and on its input. -/
def AllSteps (step : σ → α → Except ε σ) (s₀ : σ) (P : List α → σ → α → Prop) (as : List α) : Prop :=
  ∀ pre a post s, as = pre ++ a :: post → pre.foldlM step s₀ = .ok s → P pre s a

theorem AllSteps.of_concat {P : List α → σ → α → Prop} (h : AllSteps step s₀ P (as ++ [a])) :
    AllSteps step s₀ P as := by
  intro pre c post s has
  refine h pre c (post ++ [a]) s ?_
  rw [has]
  simp

theorem AllSteps.and {P Q : List α → σ → α → Prop} (hP : AllSteps step s₀ P as)
    (hQ : AllSteps step s₀ Q as) : AllSteps step s₀ (fun pre s a => P pre s a ∧ Q pre s a) as :=
  fun pre a post s has hrun => ⟨hP pre a post s has hrun, hQ pre a post s has hrun⟩

theorem AllSteps.last {P : List α → σ → α → Prop} (h : AllSteps step s₀ P (as ++ [a]))
    (hrun : as.foldlM step s₀ = .ok s) : P as s a :=
  h as a [] s rfl hrun

/-- The condition on the steps of a run, by its first step. -/
theorem AllSteps.cons {P : List α → σ → α → Prop} (hhead : P [] s₀ a)
    (htail : ∀ s, step s₀ a = .ok s → AllSteps step s (fun pre => P (a :: pre)) as) :
    AllSteps step s₀ P (a :: as) := by
  intro pre c post s has hrun
  cases pre with
  | nil =>
    obtain ⟨rfl, -⟩ := List.cons.inj has
    obtain rfl := Except.ok.inj hrun
    exact hhead
  | cons d pre =>
    obtain ⟨rfl, has'⟩ := List.cons.inj has
    rw [List.foldlM_cons] at hrun
    cases hstep : step s₀ a with
    | error e =>
      rw [hstep] at hrun
      cases hrun
    | ok t =>
      rw [hstep] at hrun
      exact htail t hstep pre c post s has' hrun

theorem allSteps_cons_iff {P : List α → σ → α → Prop} :
    AllSteps step s₀ P (a :: as) ↔
      P [] s₀ a ∧ ∀ s, step s₀ a = .ok s → AllSteps step s (fun pre => P (a :: pre)) as := by
  constructor
  · intro h
    refine ⟨h [] a as s₀ rfl rfl, ?_⟩
    intro s hstep pre c post t has hrun
    refine h (a :: pre) c post t (by rw [has]; rfl) ?_
    rw [List.foldlM_cons, hstep]
    exact hrun
  · intro ⟨hhead, htail⟩
    exact AllSteps.cons hhead htail

theorem AllSteps.of_forall {P : σ → α → Prop} (h : ∀ a ∈ as, ∀ s, P s a) :
    AllSteps step s₀ (fun _ => P) as := by
  intro pre a post s has _
  exact h a (by rw [has]; simp) s

theorem AllSteps.mono {P Q : List α → σ → α → Prop} (h : AllSteps step s₀ P as)
    (himp : ∀ pre s a, P pre s a → Q pre s a) : AllSteps step s₀ Q as :=
  fun pre a post s has hrun => himp pre s a (h pre a post s has hrun)

/-- Two conditions on steps that agree as long as an invariant holds, which a step that meets them
keeps, are the same condition on runs. -/
theorem allSteps_congr {I : σ → Prop} {C P Q : σ → α → Prop}
    (hiff : ∀ s a, I s → C s a → (P s a ↔ Q s a))
    (hstep : ∀ s a s', I s → C s a → Q s a → step s a = .ok s' → I s')
    (hC : AllSteps step s₀ (fun _ => C) as) (hinit : I s₀) :
    AllSteps step s₀ (fun _ => P) as ↔ AllSteps step s₀ (fun _ => Q) as := by
  induction as generalizing s₀ with
  | nil =>
    constructor <;>
    · intro _ pre a post s has
      simp at has
  | cons a as ih =>
    obtain ⟨ha, hrest⟩ := allSteps_cons_iff.mp hC
    rw [allSteps_cons_iff, allSteps_cons_iff, hiff s₀ a hinit ha]
    apply and_congr_right
    intro hQ
    apply forall₂_congr
    intro s hs
    exact ih (hrest s hs) (hstep s₀ a s hinit ha hQ hs)

/-- The condition on the steps of a run, one step longer. -/
theorem allSteps_concat_iff {P : List α → σ → α → Prop} (hrun : as.foldlM step s₀ = .ok s) :
    AllSteps step s₀ P (as ++ [a]) ↔ AllSteps step s₀ P as ∧ P as s a := by
  constructor
  · intro h
    exact ⟨h.of_concat, h.last hrun⟩
  · intro ⟨h, hlast⟩ pre c post t has hpre
    rcases List.eq_nil_or_concat post with rfl | ⟨post, d, rfl⟩
    · obtain ⟨rfl, hac⟩ := List.append_inj' has rfl
      obtain rfl := (List.cons.inj hac).1
      obtain rfl := Except.ok.inj (hrun.symm.trans hpre)
      exact hlast
    · rw [List.concat_eq_append, ← List.cons_append, ← List.append_assoc] at has
      exact h pre c post t (List.append_inj' has rfl).1 hpre

/-- **The induction rule for runs**: what holds at the start and is preserved by every step that
meets the condition holds wherever a run leads. -/
theorem run_induction {P : List α → σ → α → Prop} {motive : List α → σ → Prop}
    (nil : motive [] s₀)
    (snoc : ∀ as a s s', as.foldlM step s₀ = .ok s → P as s a → motive as s →
      step s a = .ok s' → motive (as ++ [a]) s')
    (hP : AllSteps step s₀ P as) (h : as.foldlM step s₀ = .ok s) : motive as s := by
  induction as using List.reverseRecOn generalizing s with
  | nil =>
    obtain rfl : s₀ = s := Except.ok.inj h
    exact nil
  | append_singleton as a ih =>
    obtain ⟨t, hrun, hstep⟩ := foldlM_concat_eq_ok.mp h
    exact snoc as a t s hrun (hP.last hrun) (ih hP.of_concat hrun) hstep

theorem foldlM_append_eq_ok {bs : List α} (h : as.foldlM step s₀ = .ok s) :
    (as ++ bs).foldlM step s₀ = bs.foldlM step s := by
  rw [List.foldlM_append, h]
  rfl

theorem AllSteps.append {P : σ → α → Prop} {bs : List α} (h : AllSteps step s₀ (fun _ => P) as)
    (hrun : as.foldlM step s₀ = .ok s) (hbs : AllSteps step s (fun _ => P) bs) :
    AllSteps step s₀ (fun _ => P) (as ++ bs) := by
  induction bs using List.reverseRecOn with
  | nil => rwa [List.append_nil]
  | append_singleton bs b ih =>
    rw [← List.append_assoc]
    intro pre a post t hpre hrun'
    rcases List.eq_nil_or_concat post with rfl | ⟨post, d, rfl⟩
    · obtain ⟨rfl, hab⟩ := List.append_inj' hpre rfl
      obtain rfl := (List.cons.inj hab).1
      rw [foldlM_append_eq_ok hrun] at hrun'
      exact hbs.last hrun'
    · rw [List.concat_eq_append, ← List.cons_append, ← List.append_assoc] at hpre
      exact ih hbs.of_concat pre a post t (List.append_inj' hpre rfl).1 hrun'

/-! ## Simulation -/

/-- **The induction rule for simulations.** Where every step that meets the condition goes through, and some
steps of another machine keep up with it, a run goes through and a run of the other machine keeps up. -/
theorem run_simulation {τ β ε' : Type*} {step' : τ → β → Except ε' τ} {t₀ : τ} {R : σ → τ → Prop}
    {P : List α → σ → α → Prop} (hinit : R s₀ t₀)
    (hstep : ∀ as a s t, R s t → P as s a →
      ∃ s', step s a = .ok s' ∧ ∃ (bs : List β) (t' : τ), bs.foldlM step' t = .ok t' ∧ R s' t')
    (hP : AllSteps step s₀ P as) :
    ∃ s, as.foldlM step s₀ = .ok s ∧ ∃ (bs : List β) (t : τ), bs.foldlM step' t₀ = .ok t ∧ R s t := by
  induction as using List.reverseRecOn with
  | nil => exact ⟨s₀, rfl, [], t₀, rfl, hinit⟩
  | append_singleton as a ih =>
    obtain ⟨s, hrun, bs, t, hrun', hrel⟩ := ih hP.of_concat
    obtain ⟨s', hok, more, t', hmore, hrel'⟩ := hstep as a s t hrel (hP.last hrun)
    refine ⟨s', foldlM_concat_eq_ok.mpr ⟨s, hrun, hok⟩, bs ++ more, t', ?_, hrel'⟩
    rw [foldlM_append_eq_ok hrun']
    exact hmore

/-! ## The same computation on another state

Where one piece of code stands twice, on a state and on what a view shows of it, the two computations
go hand in hand. `frame` is what of the state the view does not show and the code does not touch. -/

/-- The computation `x`, which starts in `s`, is `y` through the view, and leaves the frame alone. -/
structure Mimics {τ φ : Type*} (view : σ → τ) (frame : σ → φ) (s : σ) (x : Except ε σ)
    (y : Except ε τ) : Prop where
  view_eq : x.map view = y
  frame_eq : ∀ s', x = .ok s' → frame s' = frame s

theorem eq_error_of_map {τ : Type*} {x : Except ε σ} {f : σ → τ} {e : ε}
    (h : x.map f = .error e) : x = .error e := by
  cases x with
  | error e' => exact congrArg Except.error (Except.error.inj h)
  | ok s => cases h

theorem exists_of_map_eq_ok {τ : Type*} {x : Except ε σ} {f : σ → τ} {t : τ} (h : x.map f = .ok t) :
    ∃ s, x = .ok s ∧ f s = t := by
  cases x with
  | error e => cases h
  | ok s => exact ⟨s, rfl, Except.ok.inj h⟩

namespace Mimics

variable {σ τ φ ε α : Type} {view : σ → τ} {frame : σ → φ} {s s' : σ} {x : Except ε σ}
  {y : Except ε τ}

theorem ok (hframe : frame s' = frame s) : Mimics view frame s (.ok s' : Except ε σ) (.ok (view s')) := by
  constructor
  · rfl
  · intro t ht
    obtain rfl := Except.ok.inj ht
    exact hframe

theorem error (e : ε) : Mimics view frame s (.error e : Except ε σ) (.error e) := by
  constructor
  · rfl
  · intro t ht
    cases ht

/-- Only the frame of the start matters. -/
theorem of_frame (h : Mimics view frame s' x y) (hframe : frame s' = frame s) :
    Mimics view frame s x y :=
  ⟨h.view_eq, fun t ht => (h.frame_eq t ht).trans hframe⟩

/-- Two computations in a row. -/
theorem bind (h : Mimics view frame s x y) {f : σ → Except ε σ} {g : τ → Except ε τ}
    (hf : ∀ t, Mimics view frame t (f t) (g (view t))) :
    Mimics view frame s (x >>= f) (y >>= g) := by
  obtain ⟨hview, hframe⟩ := h
  cases x with
  | error e =>
    obtain rfl := hview
    exact error e
  | ok t =>
    obtain rfl := hview
    exact (hf t).of_frame (hframe t rfl)

/-- A value that both sides compute alike. -/
theorem bind_same (a : Except ε α) {f : α → Except ε σ} {g : α → Except ε τ}
    (hf : ∀ v, Mimics view frame s (f v) (g v)) : Mimics view frame s (a >>= f) (a >>= g) := by
  cases a with
  | error e => exact error e
  | ok v => exact hf v

theorem ite {c : Prop} [Decidable c] {x' : Except ε σ} {y' : Except ε τ}
    (h : c → Mimics view frame s x y) (h' : ¬ c → Mimics view frame s x' y') :
    Mimics view frame s (if c then x else x') (if c then y else y') := by
  split
  · next hc => exact h hc
  · next hc => exact h' hc

/-- What is known of the view's side holds of the state it shows. -/
theorem eq_ok {t : τ} (h : Mimics view frame s x y) (hy : y = .ok t) :
    ∃ s', x = .ok s' ∧ view s' = t ∧ frame s' = frame s := by
  obtain ⟨s', hok, hview⟩ := exists_of_map_eq_ok (h.view_eq.trans hy)
  exact ⟨s', hok, hview, h.frame_eq s' hok⟩

theorem eq_error {e : ε} (h : Mimics view frame s x y) (hy : y = .error e) : x = .error e := by
  apply eq_error_of_map
  rw [h.view_eq, hy]

end Mimics

/-! ## Checking a run

On concrete inputs a run and the condition on its steps can be evaluated. -/

theorem exists_ok {x : Except ε σ} (h : x.toBool = true) : ∃ s, x = .ok s := by
  cases x with
  | error e => cases h
  | ok s => exact ⟨s, rfl⟩

/-- Evaluate the run and the condition at each of its steps. -/
def checkSteps (step : σ → α → Except ε σ) (P : σ → α → Prop) [∀ s a, Decidable (P s a)] :
    σ → List α → Bool
  | _, [] => true
  | s, a :: as =>
    decide (P s a) && match step s a with
      | .ok s' => checkSteps step P s' as
      | .error _ => true

theorem AllSteps.of_check {P : σ → α → Prop} [∀ s a, Decidable (P s a)]
    (h : checkSteps step P s₀ as = true) : AllSteps step s₀ (fun _ => P) as := by
  induction as generalizing s₀ with
  | nil =>
    intro pre a post s has
    simp at has
  | cons c as ih =>
    rw [checkSteps, Bool.and_eq_true, decide_eq_true_eq] at h
    refine AllSteps.cons (P := fun _ => P) h.1 ?_
    intro t hstep
    apply ih
    have hrest := h.2
    rw [hstep] at hrest
    exact hrest
