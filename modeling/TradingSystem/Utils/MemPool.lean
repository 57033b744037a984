import TradingSystem.Utils.Types

/-!
# `MemPool`: a fixed number of cells handed out one by one

`utils/mem_pool.hpp`. A pool is a vector of cells, each with an object and a free mark, and the
cached index of the cell the next `allocate` will use. A pointer to an object is its cell's index.
`deallocate` clears the mark and keeps the object's bytes; it does not touch the cached index.

The pool looks for the next free cell right after it handed one out, and fails when there is none:
it fails on the allocation that fills it, not on the first one past it. `MemPool.Ready` is what
holds between calls, and `allocate_cases` is everything an allocation can do.
-/

namespace TradingSystem

structure ObjectBlock (T : Type) where
  object : T
  isFree : Bool := true

structure MemPool (T : Type) where
  /-- `cells[i]`, for `i` below `numCells` -/
  cells : Nat → ObjectBlock T
  /-- `cells.size()` -/
  numCells : Nat
  nextFreeIndex : Nat

namespace MemPool

variable {T : Type}

/-- The constructor: every cell holds a default object and is free. -/
def init (numCells : Nat) (default : T) : MemPool T :=
  { cells := fun _ => { object := default }, numCells := numCells, nextFreeIndex := 0 }

/-- The scan of `updateNextFree`: the first free cell among the `fuel` cells from `i` on. -/
def firstFree (cells : Nat → ObjectBlock T) : Nat → Nat → Option Nat
  | _, 0 => none
  | i, fuel + 1 => if (cells i).isFree then some i else firstFree cells (i + 1) fuel

def updateNextFree (p : MemPool T) : Except Fault (MemPool T) :=
  match firstFree p.cells 0 p.numCells with
  | some i => .ok { p with nextFreeIndex := i }
  | none => .error .poolExhausted

/-- Construct `object` in the next free cell and return the cell's index. -/
def allocate (p : MemPool T) (object : T) : Except Fault (Nat × MemPool T) := do
  let ret := p.nextFreeIndex
  let p := { p with cells := Function.update p.cells ret { object := object, isFree := false } }
  let p ← p.updateNextFree
  return (ret, p)

def deallocate (p : MemPool T) (index : Nat) : Except Fault (MemPool T) :=
  if ¬ index < p.numCells then .error .assertion
  else if (p.cells index).isFree then .error .assertion
  else
    .ok { p with cells := Function.update p.cells index { p.cells index with isFree := true } }

/-- Write through a pointer: the object of cell `i` becomes `f` of itself. -/
def modify (p : MemPool T) (i : Nat) (f : T → T) : MemPool T :=
  { p with cells := Function.update p.cells i { p.cells i with object := f (p.cells i).object } }

/-- The object a pointer points to. -/
def get (p : MemPool T) (i : Nat) : T := (p.cells i).object

/-- Cell `i` is handed out. -/
def Live (p : MemPool T) (i : Nat) : Prop := i < p.numCells ∧ (p.cells i).isFree = false

/-- Between calls the cached index is that of a free cell. -/
def Ready (p : MemPool T) : Prop :=
  p.nextFreeIndex < p.numCells ∧ (p.cells p.nextFreeIndex).isFree = true

/-! ## Reading after writing -/

@[simp] theorem get_modify_self (p : MemPool T) (i : Nat) (f : T → T) :
    (p.modify i f).get i = f (p.get i) := by
  simp [get, modify]

@[simp] theorem get_modify_of_ne (p : MemPool T) {i j : Nat} (f : T → T) (h : j ≠ i) :
    (p.modify i f).get j = p.get j := by
  simp [get, modify, h]

theorem get_modify (p : MemPool T) (i j : Nat) (f : T → T) :
    (p.modify i f).get j = if j = i then f (p.get j) else p.get j := by
  by_cases h : j = i
  · subst h; simp
  · simp [h]

/-- A write only depends on what it does to the object it finds. -/
theorem modify_congr (p : MemPool T) {i : Nat} {f g : T → T} (h : f (p.get i) = g (p.get i)) :
    p.modify i f = p.modify i g := by
  unfold modify
  rw [show f (p.cells i).object = g (p.cells i).object from h]

@[simp] theorem live_modify (p : MemPool T) (i j : Nat) (f : T → T) :
    (p.modify i f).Live j ↔ p.Live j := by
  by_cases h : j = i
  · subst h; simp [Live, modify]
  · simp [Live, modify, h]

@[simp] theorem numCells_modify (p : MemPool T) (i : Nat) (f : T → T) :
    (p.modify i f).numCells = p.numCells := rfl

@[simp] theorem nextFreeIndex_modify (p : MemPool T) (i : Nat) (f : T → T) :
    (p.modify i f).nextFreeIndex = p.nextFreeIndex := rfl

theorem Ready.modify {p : MemPool T} (h : p.Ready) (i : Nat) (f : T → T) :
    (p.modify i f).Ready := by
  refine ⟨h.1, ?_⟩
  by_cases hi : p.nextFreeIndex = i
  · subst hi; simpa [MemPool.modify] using h.2
  · simpa [MemPool.modify, hi] using h.2

theorem Ready.not_live {p : MemPool T} (h : p.Ready) : ¬ p.Live p.nextFreeIndex := by
  intro hl
  exact absurd h.2 (by simp [hl.2])

theorem ready_init {n : Nat} (hn : 0 < n) (default : T) : (init n default).Ready :=
  ⟨hn, rfl⟩

@[simp] theorem not_live_init (n i : Nat) (default : T) : ¬ (init n default).Live i := by
  simp [Live, init]

/-! ## Allocation -/

theorem firstFree_eq_some {cells : Nat → ObjectBlock T} {i fuel j : Nat}
    (h : firstFree cells i fuel = some j) : j < i + fuel ∧ (cells j).isFree = true := by
  induction fuel generalizing i with
  | zero => simp [firstFree] at h
  | succ fuel ih =>
    rw [firstFree] at h
    split at h
    · next hfree =>
      obtain rfl : i = j := Option.some.inj h
      exact ⟨by omega, hfree⟩
    · have := ih h
      exact ⟨by omega, this.2⟩

theorem firstFree_eq_none {cells : Nat → ObjectBlock T} {i fuel : Nat}
    (h : firstFree cells i fuel = none) :
    ∀ j, i ≤ j → j < i + fuel → (cells j).isFree = false := by
  induction fuel generalizing i with
  | zero => intro j h1 h2; omega
  | succ fuel ih =>
    rw [firstFree] at h
    split at h
    · cases h
    · next hfree =>
      intro j h1 h2
      rcases Nat.eq_or_lt_of_le h1 with rfl | hlt
      · simpa using hfree
      · exact ih h j hlt (by omega)

/-- What an allocation that went through has done: the cell of the cached index is live and holds
the new object, and every other cell is as it was. -/
structure Allocated (p : MemPool T) (object : T) (p' : MemPool T) : Prop where
  ready : p'.Ready
  numCells : p'.numCells = p.numCells
  get_self : p'.get p.nextFreeIndex = object
  get_of_ne : ∀ j, j ≠ p.nextFreeIndex → p'.get j = p.get j
  live_iff : ∀ j, p'.Live j ↔ j = p.nextFreeIndex ∨ p.Live j

/-- **Everything an allocation can do.** It fails exactly when the cell it hands out was the last
free one. -/
theorem allocate_cases {p : MemPool T} (hp : p.Ready) (object : T) :
    (p.allocate object = .error .poolExhausted ∧
      ∀ j < p.numCells, j = p.nextFreeIndex ∨ p.Live j) ∨
    ∃ p', p.allocate object = .ok (p.nextFreeIndex, p') ∧ p.Allocated object p' := by
  let cells := Function.update p.cells p.nextFreeIndex { object := object, isFree := false }
  have hother : ∀ j, j ≠ p.nextFreeIndex → cells j = p.cells j := by
    intro j hj
    simp [cells, hj]
  have hself : cells p.nextFreeIndex = { object := object, isFree := false } := by
    simp [cells]
  cases hff : firstFree cells 0 p.numCells with
  | none =>
    refine Or.inl ⟨?_, ?_⟩
    · simp only [allocate, updateNextFree]
      rw [show firstFree (Function.update p.cells p.nextFreeIndex _) 0 p.numCells = none from hff]
      rfl
    · intro j hj
      by_cases hjn : j = p.nextFreeIndex
      · exact Or.inl hjn
      · have := firstFree_eq_none hff j (Nat.zero_le j) (by omega)
        rw [hother j hjn] at this
        exact Or.inr ⟨hj, this⟩
  | some i =>
    have hi := firstFree_eq_some hff
    refine Or.inr ⟨{ p with cells := cells, nextFreeIndex := i }, ?_, ?_⟩
    · simp only [allocate, updateNextFree]
      rw [show firstFree (Function.update p.cells p.nextFreeIndex _) 0 p.numCells = some i from hff]
      rfl
    · refine ⟨⟨by simpa using hi.1, hi.2⟩, rfl, ?_, ?_, ?_⟩
      · simp [get, hself]
      · intro j hj
        simp [get, hother j hj]
      · intro j
        by_cases hj : j = p.nextFreeIndex
        · subst hj
          simpa [Live, hself] using hp.1
        · simp [Live, hother j hj, hj]

/-- An allocation only fails once all cells but one are in use. -/
theorem numCells_le_of_full {p : MemPool T} {used : List Nat}
    (hfull : ∀ j < p.numCells, j = p.nextFreeIndex ∨ p.Live j) (hused : ∀ j, p.Live j → j ∈ used) :
    p.numCells ≤ used.length + 1 := by
  have hsub : List.range p.numCells ⊆ p.nextFreeIndex :: used := by
    intro j hj
    rcases hfull j (List.mem_range.mp hj) with rfl | hlive
    · simp
    · exact List.mem_cons_of_mem _ (hused j hlive)
  have := List.nodup_range.length_le_of_subset hsub
  simpa using this

/-- A pool that is ready has a cell that is not in use. -/
theorem Ready.length_lt {p : MemPool T} (hp : p.Ready) {used : List Nat} (hnd : used.Nodup)
    (hused : ∀ i ∈ used, p.Live i) : used.length < p.numCells := by
  have hnd' : (p.nextFreeIndex :: used).Nodup :=
    List.nodup_cons.mpr ⟨fun hmem => hp.not_live (hused _ hmem), hnd⟩
  have hsub : p.nextFreeIndex :: used ⊆ List.range p.numCells := by
    intro i hi
    rcases List.mem_cons.mp hi with rfl | hi
    · exact List.mem_range.mpr hp.1
    · exact List.mem_range.mpr (hused i hi).1
  have hle := hnd'.length_le_of_subset hsub
  rwa [List.length_cons, List.length_range] at hle

/-! ## Deallocation -/

/-- What a deallocation that went through has done. -/
structure Deallocated (p : MemPool T) (i : Nat) (p' : MemPool T) : Prop where
  ready : p'.Ready
  numCells : p'.numCells = p.numCells
  get_eq : ∀ j, p'.get j = p.get j
  live_iff : ∀ j, p'.Live j ↔ p.Live j ∧ j ≠ i

/-- A live cell can be given back. -/
theorem deallocate_spec {p : MemPool T} (hp : p.Ready) {i : Nat} (hi : p.Live i) :
    ∃ p', p.deallocate i = .ok p' ∧ p.Deallocated i p' := by
  refine ⟨{ p with cells := Function.update p.cells i { p.cells i with isFree := true } },
    ?_, ⟨⟨hp.1, ?_⟩, rfl, ?_, ?_⟩⟩
  · simp [deallocate, hi.1, hi.2]
  · by_cases hn : p.nextFreeIndex = i
    · simp [hn]
    · simpa [hn] using hp.2
  · intro j
    by_cases hj : j = i
    · subst hj; simp [get]
    · simp [get, hj]
  · intro j
    by_cases hj : j = i
    · subst hj; simp [Live]
    · simp [Live, hj]

/-- The cached index stays as it is. -/
theorem nextFreeIndex_of_deallocate {p p' : MemPool T} {i : Nat} (h : p.deallocate i = .ok p') :
    p'.nextFreeIndex = p.nextFreeIndex := by
  unfold deallocate at h
  split at h
  · cases h
  · split at h
    · cases h
    · obtain rfl := Except.ok.inj h
      rfl

/-- A cell that is not in use cannot. -/
theorem deallocate_of_not_live {p : MemPool T} {i : Nat} (h : ¬ p.Live i) :
    p.deallocate i = .error .assertion := by
  unfold deallocate
  by_cases hi : i < p.numCells
  · rw [if_neg (not_not.mpr hi), if_pos]
    by_contra hfree
    exact h ⟨hi, by simpa using hfree⟩
  · rw [if_pos hi]

/-! ## The objects, whatever is free -/

/-- An allocation writes one object. -/
theorem get_of_allocate {p p' : MemPool T} {object : T} {i : Nat}
    (h : p.allocate object = .ok (i, p')) (j : Nat) :
    p'.get j = if j = i then object else p.get j := by
  unfold allocate updateNextFree at h
  dsimp only at h
  cases hfree : firstFree (Function.update p.cells p.nextFreeIndex
      { object := object, isFree := false }) 0 p.numCells with
  | none =>
    rw [hfree] at h
    cases h
  | some k =>
    rw [hfree] at h
    obtain ⟨rfl, rfl⟩ := Prod.mk.inj (Except.ok.inj h)
    by_cases hj : j = p.nextFreeIndex <;> simp [get, hj]

/-- A deallocation writes none. -/
theorem get_of_deallocate {p p' : MemPool T} {i : Nat} (h : p.deallocate i = .ok p') (j : Nat) :
    p'.get j = p.get j := by
  unfold deallocate at h
  split at h
  · cases h
  · split at h
    · cases h
    · obtain rfl := Except.ok.inj h
      by_cases hj : j = i
      · subst hj
        simp [get]
      · simp [get, hj]

/-! ## The same pool with other objects -/

/-- The pool in which every object is seen through `f`. -/
def map {U : Type} (f : T → U) (p : MemPool T) : MemPool U :=
  { cells := fun i => { object := f (p.cells i).object, isFree := (p.cells i).isFree }
    numCells := p.numCells
    nextFreeIndex := p.nextFreeIndex }

variable {U : Type} (f : T → U)

@[simp] theorem get_map (p : MemPool T) (i : Nat) : (p.map f).get i = f (p.get i) := rfl

@[simp] theorem live_map (p : MemPool T) (i : Nat) : (p.map f).Live i ↔ p.Live i := Iff.rfl

/-- Writing an object and seeing it through `f`, in either order. -/
theorem map_modify (p : MemPool T) (i : Nat) {g : T → T} {g' : U → U} (h : ∀ t, f (g t) = g' (f t)) :
    (p.modify i g).map f = (p.map f).modify i g' := by
  unfold map modify
  congr 1
  funext j
  by_cases hj : j = i
  · subst hj
    simp [h]
  · simp [hj]

/-- What is free does not depend on the objects. -/
theorem firstFree_congr (cells : Nat → ObjectBlock T) {cells' : Nat → ObjectBlock U}
    (h : ∀ i, (cells' i).isFree = (cells i).isFree) (i fuel : Nat) :
    firstFree cells' i fuel = firstFree cells i fuel := by
  induction fuel generalizing i with
  | zero => rfl
  | succ fuel ih => rw [firstFree, firstFree, h, ih]

theorem allocate_map (p : MemPool T) (object : T) :
    (p.map f).allocate (f object) = (p.allocate object).map fun r => (r.1, r.2.map f) := by
  unfold allocate updateNextFree
  dsimp only
  rw [firstFree_congr (Function.update p.cells p.nextFreeIndex
    { object := object, isFree := false })]
  · rw [show (p.map f).numCells = p.numCells from rfl]
    cases firstFree (Function.update p.cells p.nextFreeIndex
        { object := object, isFree := false }) 0 p.numCells with
    | none => rfl
    | some i =>
      refine congrArg Except.ok (congrArg (Prod.mk p.nextFreeIndex) ?_)
      unfold map
      congr 1
      funext j
      by_cases hj : j = p.nextFreeIndex
      · subst hj
        simp
      · simp [hj]
  · intro j
    by_cases hj : j = p.nextFreeIndex
    · subst hj
      simp [map]
    · simp [map, hj]

theorem Allocated.map {p p' : MemPool T} {object : T} (h : p.Allocated object p') :
    (p.map f).Allocated (f object) (p'.map f) :=
  ⟨h.ready, h.numCells, congrArg f h.get_self, fun j hj => congrArg f (h.get_of_ne j hj), h.live_iff⟩

theorem deallocate_map (p : MemPool T) (i : Nat) :
    (p.map f).deallocate i = (p.deallocate i).map (MemPool.map f) := by
  unfold deallocate
  rw [show (p.map f).numCells = p.numCells from rfl,
    show ((p.map f).cells i).isFree = (p.cells i).isFree from rfl]
  split
  · rfl
  · split
    · rfl
    · refine congrArg Except.ok ?_
      unfold map
      congr 1
      funext j
      by_cases hj : j = i
      · subst hj
        simp
      · simp [hj]

end MemPool

end TradingSystem
