import TradingSystem.Lib.Run
import TradingSystem.Utils.MemPool

/-!
# What a pool serves

The calls on a pool in the order they are made, with the pointers that are in use. Between calls the cached
index is that of a free cell, so that an allocation has a cell to return. But then the pool looks for the
next one, and fails if there is none: of `n` cells it serves `n - 1` at a time, and stops on the allocation
that fills it (`run_serves_iff`). A cell that was given back comes round again (`Inv.reusable`).
-/

namespace TradingSystem

/-- A pool and the pointers in use, the latest first. -/
structure PoolUse (T : Type) where
  pool : MemPool T
  live : List Nat

namespace PoolUse

inductive Call (T : Type) where
  | allocate (object : T)
  | deallocate (index : Nat)

variable {T : Type}

/-- The constructor. -/
def init (numCells : Nat) (default : T) : PoolUse T := ⟨.init numCells default, []⟩

def step (u : PoolUse T) : Call T → Except Fault (PoolUse T)
  | .allocate object => do
    let (ret, pool) ← u.pool.allocate object
    return ⟨pool, ret :: u.live⟩
  | .deallocate index => do
    let pool ← u.pool.deallocate index
    return ⟨pool, u.live.erase index⟩

/-- No more objects are in use than there are cells, and what is given back is in use. -/
def Proper (u : PoolUse T) : Call T → Prop
  | .allocate _ => u.live.length < u.pool.numCells
  | .deallocate index => index ∈ u.live

/-- After some calls more, an allocation returns the cell. -/
def Reusable (u : PoolUse T) (index : Nat) : Prop :=
  ∃ calls object u', AllSteps step u (fun _ => Proper) (calls ++ [.allocate object]) ∧
    calls.foldlM step u = .ok u' ∧ ∃ pool, u'.pool.allocate object = .ok (index, pool)

/-- The call goes through. An allocation returns a cell of the pool that is not in use, and a cell that is
given back can be handed out again. -/
def Serves (u : PoolUse T) : Call T → Prop
  | .allocate object =>
    ∃ index pool, u.pool.allocate object = .ok (index, pool) ∧
      index < u.pool.numCells ∧ index ∉ u.live
  | .deallocate index =>
    ∃ pool, u.pool.deallocate index = .ok pool ∧ Reusable ⟨pool, u.live.erase index⟩ index

/-- **The condition**: an allocation does not fill the pool. -/
def LeavesRoom (u : PoolUse T) : Call T → Prop
  | .allocate _ => u.live.length + 1 < u.pool.numCells
  | .deallocate _ => True

/-- The cells that are not free are the pointers in use. -/
structure Inv (u : PoolUse T) : Prop where
  ready : u.pool.Ready
  nodup : u.live.Nodup
  live_iff : ∀ i, u.pool.Live i ↔ i ∈ u.live

variable {u u' : PoolUse T} {call : Call T} {object : T} {i : Nat}

theorem inv_init {numCells : Nat} (hnumCells : 1 ≤ numCells) (default : T) :
    (init numCells default).Inv where
  ready := MemPool.ready_init hnumCells default
  nodup := List.nodup_nil
  live_iff := by
    intro i
    exact iff_of_false (MemPool.not_live_init numCells i default) List.not_mem_nil

theorem step_allocate :
    u.step (.allocate object) =
      u.pool.allocate object >>= fun r => .ok ⟨r.2, r.1 :: u.live⟩ := rfl

theorem step_deallocate :
    u.step (.deallocate i) = u.pool.deallocate i >>= fun pool => .ok ⟨pool, u.live.erase i⟩ := rfl

namespace Inv

theorem length_lt (h : u.Inv) : u.live.length < u.pool.numCells :=
  h.ready.length_lt h.nodup fun i hi => (h.live_iff i).mpr hi

theorem next_not_mem (h : u.Inv) : u.pool.nextFreeIndex ∉ u.live := by
  intro hmem
  exact h.ready.not_live ((h.live_iff _).mpr hmem)

theorem of_allocated (h : u.Inv) {pool : MemPool T} (halloc : u.pool.Allocated object pool) :
    Inv ⟨pool, u.pool.nextFreeIndex :: u.live⟩ where
  ready := halloc.ready
  nodup := List.nodup_cons.mpr ⟨h.next_not_mem, h.nodup⟩
  live_iff := by
    intro i
    rw [halloc.live_iff, h.live_iff, List.mem_cons]

/-- **An allocation** that leaves a cell free returns the cell of the cached index. -/
theorem allocate (h : u.Inv) (hroom : u.live.length + 1 < u.pool.numCells) (object : T) :
    ∃ pool, u.pool.allocate object = .ok (u.pool.nextFreeIndex, pool) ∧
      u.pool.Allocated object pool := by
  rcases MemPool.allocate_cases h.ready object with ⟨-, hfull⟩ | ⟨pool, hok, halloc⟩
  · have hle := MemPool.numCells_le_of_full hfull fun j hj => (h.live_iff j).mp hj
    omega
  · exact ⟨pool, hok, halloc⟩

/-- One that goes through leaves a cell free. -/
theorem room_of_allocated (h : u.Inv) {pool : MemPool T} (halloc : u.pool.Allocated object pool) :
    u.live.length + 1 < u.pool.numCells := by
  have hlt := (h.of_allocated halloc).length_lt
  rwa [List.length_cons, halloc.numCells] at hlt

theorem of_deallocated (h : u.Inv) {pool : MemPool T} (hde : u.pool.Deallocated i pool) :
    Inv ⟨pool, u.live.erase i⟩ where
  ready := hde.ready
  nodup := h.nodup.erase i
  live_iff := by
    intro j
    rw [hde.live_iff, h.live_iff, h.nodup.mem_erase_iff]
    exact and_comm

theorem deallocate (h : u.Inv) (hi : i ∈ u.live) :
    ∃ pool, u.pool.deallocate i = .ok pool ∧ u.pool.Deallocated i pool :=
  MemPool.deallocate_spec h.ready ((h.live_iff i).mpr hi)

/-- **Step lemma.** -/
theorem step (h : u.Inv) (hproper : u.Proper call) (hok : u.step call = .ok u') : u'.Inv := by
  cases call with
  | allocate object =>
    rcases MemPool.allocate_cases h.ready object with ⟨herr, -⟩ | ⟨pool, hpool, halloc⟩
    · rw [step_allocate, herr] at hok
      cases hok
    · rw [step_allocate, hpool] at hok
      obtain rfl := Except.ok.inj hok
      exact h.of_allocated halloc
  | deallocate i =>
    obtain ⟨pool, hpool, hde⟩ := h.deallocate hproper
    rw [step_deallocate, hpool] at hok
    obtain rfl := Except.ok.inj hok
    exact h.of_deallocated hde

end Inv

/-! ## Handing a cell out again -/

/-- One call before. -/
theorem Reusable.cons (h : u'.Reusable i) (hproper : u.Proper call) (hok : u.step call = .ok u') :
    u.Reusable i := by
  obtain ⟨calls, object, w, hcalls, hrun, hlast⟩ := h
  refine ⟨call :: calls, object, w, ?_, ?_, hlast⟩
  · apply AllSteps.cons (P := fun _ => Proper) hproper
    intro v hv
    obtain rfl := Except.ok.inj (hok.symm.trans hv)
    exact hcalls
  · rw [List.foldlM_cons, hok]
    exact hrun

/-- The cell of the cached index is the next one, as long as another cell is free. -/
theorem Inv.reusable_next (h : u.Inv) (hroom : u.live.length + 1 < u.pool.numCells) (object : T) :
    u.Reusable u.pool.nextFreeIndex := by
  obtain ⟨pool, hok, -⟩ := h.allocate hroom object
  refine ⟨[], object, u, ?_, rfl, pool, hok⟩
  apply AllSteps.cons (P := fun _ => Proper)
  · exact h.length_lt
  · intro v _
    exact AllSteps.of_forall fun _ hmem => by cases hmem

/-- Beside the cell of the cached index there is a free one. -/
theorem Inv.room_of_free (h : u.Inv) (hi : i < u.pool.numCells) (hfree : i ∉ u.live)
    (hne : i ≠ u.pool.nextFreeIndex) : u.live.length + 1 < u.pool.numCells := by
  have hnd : (i :: u.pool.nextFreeIndex :: u.live).Nodup := by
    refine List.nodup_cons.mpr ⟨?_, List.nodup_cons.mpr ⟨h.next_not_mem, h.nodup⟩⟩
    rw [List.mem_cons, not_or]
    exact ⟨hne, hfree⟩
  have hsub : i :: u.pool.nextFreeIndex :: u.live ⊆ List.range u.pool.numCells := by
    intro j hj
    rw [List.mem_range]
    rcases List.mem_cons.mp hj with rfl | hj
    · exact hi
    · rcases List.mem_cons.mp hj with rfl | hj
      · exact h.ready.1
      · exact ((h.live_iff j).mpr hj).1
  have hle := hnd.length_le_of_subset hsub
  rwa [List.length_cons, List.length_cons, List.length_range] at hle

/-- **Every free cell comes round again** in a pool of two cells or more. By induction on the number of
free cells: others are handed out until the cached index is that of the cell. -/
theorem Inv.reusable (h : u.Inv) (hcells : 2 ≤ u.pool.numCells) (object : T)
    (hi : i < u.pool.numCells) (hfree : i ∉ u.live) : u.Reusable i := by
  induction hn : u.pool.numCells - u.live.length using Nat.strong_induction_on generalizing u with
  | _ n ih =>
    by_cases hnext : i = u.pool.nextFreeIndex
    · subst hnext
      by_cases hroom : u.live.length + 1 < u.pool.numCells
      · exact h.reusable_next hroom object
      · -- it is the last free cell: another one is given back first
        obtain ⟨j, hj⟩ := List.exists_mem_of_length_pos (by omega : 0 < u.live.length)
        obtain ⟨pool, hpool, hde⟩ := h.deallocate hj
        have hstep : u.step (.deallocate j) = .ok ⟨pool, u.live.erase j⟩ := by
          rw [step_deallocate, hpool]
          rfl
        have hinv := h.of_deallocated hde
        have hlength : (u.live.erase j).length + 1 < pool.numCells := by
          have hlt := h.length_lt
          rw [List.length_erase_of_mem hj, hde.numCells]
          omega
        have hproper : u.Proper (.deallocate j) := hj
        rw [← MemPool.nextFreeIndex_of_deallocate hpool]
        exact (hinv.reusable_next hlength object).cons hproper hstep
    · have hroom := h.room_of_free hi hfree hnext
      obtain ⟨pool, hpool, halloc⟩ := h.allocate hroom object
      have hstep : u.step (.allocate object) = .ok ⟨pool, u.pool.nextFreeIndex :: u.live⟩ := by
        rw [step_allocate, hpool]
        rfl
      have hfree' : i ∉ u.pool.nextFreeIndex :: u.live := by
        rw [List.mem_cons, not_or]
        exact ⟨hnext, hfree⟩
      have hreusable : Reusable (⟨pool, u.pool.nextFreeIndex :: u.live⟩ : PoolUse T) i := by
        apply ih _ _ (h.of_allocated halloc) _ _ hfree' rfl
        · show pool.numCells - (u.pool.nextFreeIndex :: u.live).length < n
          rw [halloc.numCells, List.length_cons]
          omega
        · show 2 ≤ pool.numCells
          rwa [halloc.numCells]
        · show i < pool.numCells
          rwa [halloc.numCells]
      have hproper : u.Proper (.allocate object) := h.length_lt
      exact hreusable.cons hproper hstep

/-! ## Runs -/

/-- **What a call is served.** -/
theorem Inv.serves_iff (h : u.Inv) (hproper : u.Proper call) (object : T) :
    u.Serves call ↔ u.LeavesRoom call := by
  cases call with
  | allocate object =>
    constructor
    · rintro ⟨index, pool, hok, -, -⟩
      rcases MemPool.allocate_cases h.ready object with ⟨herr, -⟩ | ⟨pool', -, halloc⟩
      · rw [hok] at herr
        cases herr
      · exact h.room_of_allocated halloc
    · intro hroom
      obtain ⟨pool, hok, -⟩ := h.allocate hroom object
      exact ⟨_, pool, hok, h.ready.1, h.next_not_mem⟩
  | deallocate i =>
    refine iff_of_true ?_ trivial
    obtain ⟨pool, hok, hde⟩ := h.deallocate hproper
    have hi := ((h.live_iff i).mpr hproper).1
    have hinv := h.of_deallocated hde
    refine ⟨pool, hok, hinv.reusable ?_ object ?_ ?_⟩
    · -- the cell and that of the cached index are two
      show 2 ≤ pool.numCells
      have hpos := List.length_pos_of_mem hproper
      have hlt := h.length_lt
      rw [hde.numCells]
      omega
    · show i < pool.numCells
      rwa [hde.numCells]
    · exact h.nodup.not_mem_erase

/-- **When a pool serves its calls**: whatever is allocated and given back, every allocation returns a cell
that is not in use and every cell given back can be handed out again, exactly if no allocation fills the
pool. -/
theorem run_serves_iff {numCells : Nat} (hnumCells : 1 ≤ numCells) (default : T)
    {calls : List (Call T)} (hproper : AllSteps step (init numCells default) (fun _ => Proper) calls) :
    AllSteps step (init numCells default) (fun _ => Serves) calls ↔
      AllSteps step (init numCells default) (fun _ => LeavesRoom) calls :=
  allSteps_congr (I := Inv) (fun _ _ h hcall => h.serves_iff hcall default)
    (fun _ _ _ h hcall _ hok => h.step hcall hok) hproper (inv_init hnumCells default)

instance decidableProper (u : PoolUse T) (call : Call T) : Decidable (u.Proper call) :=
  match call with
  | .allocate _ => inferInstanceAs (Decidable (_ < _))
  | .deallocate _ => inferInstanceAs (Decidable (_ ∈ _))

instance decidableLeavesRoom (u : PoolUse T) (call : Call T) : Decidable (u.LeavesRoom call) :=
  match call with
  | .allocate _ => inferInstanceAs (Decidable (_ < _))
  | .deallocate _ => isTrue trivial

/-- Two of three cells in use, one given back and handed out again. -/
def twoOfThree : List (Call Nat) := [.allocate 10, .allocate 7, .deallocate 0, .allocate 5]

theorem run_serves_two_of_three : AllSteps step (init 3 0) (fun _ => Serves) twoOfThree :=
  (run_serves_iff (by decide) 0 (AllSteps.of_check (by decide))).mpr (AllSteps.of_check (by decide))

/-- Two objects do not fit a pool of two cells. -/
theorem not_serves_two_of_two :
    ¬ ∀ (numCells : Nat) (default : Nat) (calls : List (Call Nat)), 1 ≤ numCells →
      AllSteps step (init numCells default) (fun _ => Proper) calls →
      AllSteps step (init numCells default) (fun _ => Serves) calls := by
  intro hall
  have hproper : AllSteps step (init 2 0) (fun _ => Proper) [Call.allocate 10, .allocate 7] :=
    AllSteps.of_check (by decide)
  have hserves := hall 2 0 _ (by decide) hproper
  obtain ⟨index, pool, hok, -⟩ := hserves [.allocate 10] (.allocate 7) [] _ rfl rfl
  cases hok

end PoolUse

end TradingSystem
