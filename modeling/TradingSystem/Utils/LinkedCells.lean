import TradingSystem.Lib.Circular
import TradingSystem.Utils.MemPool

/-!
# Cells of a pool linked into circles

Orders and levels are linked in the same way: two nullable fields of a cell point at other cells of
the same pool. `LinkFields` says which two fields of a cell are its links and what the rest of it
is. The two edits the book makes are `MemPool.linkIn` and `MemPool.unlink`, each four writes, and
`Relinked` is what such an edit does: it makes a circle of the nodes it is about and changes nothing
but links.
-/

namespace TradingSystem

/-- The two link fields of a cell; `data` is everything else of it. -/
structure LinkFields (T D : Type) where
  next : T → Option Nat
  prev : T → Option Nat
  setNext : Option Nat → T → T
  setPrev : Option Nat → T → T
  data : T → D
  next_setNext : ∀ v t, next (setNext v t) = v
  prev_setPrev : ∀ v t, prev (setPrev v t) = v
  next_setPrev : ∀ v t, next (setPrev v t) = next t
  prev_setNext : ∀ v t, prev (setNext v t) = prev t
  data_setNext : ∀ v t, data (setNext v t) = data t
  data_setPrev : ∀ v t, data (setPrev v t) = data t
  comm : ∀ v w t, setNext v (setPrev w t) = setPrev w (setNext v t)

attribute [simp] LinkFields.next_setNext LinkFields.prev_setPrev LinkFields.next_setPrev
  LinkFields.prev_setNext LinkFields.data_setNext LinkFields.data_setPrev

namespace MemPool

variable {T D : Type}

/-- Two writes to different cells, or to fields that do not meet, may change places. -/
theorem modify_comm (p : MemPool T) {i j : Nat} {f g : T → T}
    (h : i ≠ j ∨ ∀ t, f (g t) = g (f t)) :
    (p.modify i f).modify j g = (p.modify j g).modify i f := by
  unfold modify
  congr 1
  funext q
  by_cases hi : q = i <;> by_cases hj : q = j
  · subst hi
    subst hj
    have hfg := h.resolve_left fun hne => hne rfl
    simp [hfg]
  · subst hi
    simp [hj]
  · subst hj
    simp [hi]
  · simp [hi, hj]

/-- The cells of `nodes`, in this order, form a circle. -/
def Ring (L : LinkFields T D) (p : MemPool T) (nodes : List Nat) : Prop :=
  Circular (fun q => L.next (p.get q)) (fun q => L.prev (p.get q)) nodes

/-- Link cell `n` in between `z` and `c`. -/
def linkIn (L : LinkFields T D) (p : MemPool T) (n z c : Nat) : MemPool T :=
  (((p.modify z (L.setNext (some n))).modify n (L.setNext (some c))).modify n
    (L.setPrev (some z))).modify c (L.setPrev (some n))

/-- Take cell `x` out from between `z` and `y`. -/
def unlink (L : LinkFields T D) (p : MemPool T) (x z y : Nat) : MemPool T :=
  (((p.modify z (L.setNext (some y))).modify y (L.setPrev (some z))).modify x
    (L.setNext none)).modify x (L.setPrev none)

/-- The pool `p'` is `p` with links of some of the cells `touched` rewritten, after which `nodes` is
a circle. -/
structure Relinked (L : LinkFields T D) (p p' : MemPool T) (touched nodes : List Nat) : Prop where
  ring : p'.Ring L nodes
  frame : ∀ q, q ∉ touched → p'.get q = p.get q
  data : ∀ q, L.data (p'.get q) = L.data (p.get q)
  ready : p.Ready → p'.Ready
  numCells : p'.numCells = p.numCells
  live : ∀ q, p'.Live q ↔ p.Live q

variable {L : LinkFields T D} {p : MemPool T} {pre post nodes : List Nat} {x n c z y : Nat}

theorem Relinked.refl (h : p.Ring L nodes) (touched : List Nat) : Relinked L p p touched nodes :=
  ⟨h, fun _ _ => rfl, fun _ => rfl, id, rfl, fun _ => Iff.rfl⟩

/-! ## Taking a cell out -/

/-- A node of a circle of at least two has two neighbours, which are other nodes. -/
theorem Ring.neighbours (hring : p.Ring L (pre ++ x :: post)) (hnd : (pre ++ x :: post).Nodup)
    (hne : pre ++ post ≠ []) :
    ∃ z y, L.prev (p.get x) = some z ∧ L.next (p.get x) = some y ∧
      z ∈ pre ++ post ∧ y ∈ pre ++ post ∧ z ≠ x ∧ y ≠ x := by
  have hx : x ∈ pre ++ x :: post := by simp
  obtain ⟨z, hz, hxz, hzx⟩ := Circular.exists_prev hring hx
  obtain ⟨y, hy, hxy, -⟩ := Circular.exists_next hring hx
  have hnext : L.next (p.get x) ≠ some x := by
    intro hself
    have hl := congrArg List.length (Circular.eq_singleton hring hnd hx hself)
    apply hne
    rw [← List.length_eq_zero_iff]
    simp only [List.length_append, List.length_cons, List.length_nil] at hl ⊢
    omega
  have hyne : y ≠ x := by
    rintro rfl
    exact hnext hxy
  have hzne : z ≠ x := by
    rintro rfl
    exact hnext hzx
  refine ⟨z, y, hxz, hxy, ?_, ?_, hzne, hyne⟩
  · simp only [List.mem_append, List.mem_cons] at hz ⊢
    tauto
  · simp only [List.mem_append, List.mem_cons] at hy ⊢
    tauto

theorem ne_of_mem_removed (hnd : (pre ++ x :: post).Nodup) (hc : c ∈ pre ++ post) : c ≠ x := by
  rintro rfl
  exact (List.nodup_cons.mp (List.nodup_middle.mp hnd)).1 hc

theorem mem_of_mem_removed (hc : c ∈ pre ++ post) : c ∈ pre ++ x :: post := by
  simp only [List.mem_append, List.mem_cons] at hc ⊢
  tauto

theorem get_unlink (hzx : z ≠ x) (hyx : y ≠ x) (q : Nat) :
    (p.unlink L x z y).get q =
      if q = x then L.setPrev none (L.setNext none (p.get q))
      else (if q = y then L.setPrev (some z) else id)
        ((if q = z then L.setNext (some y) else id) (p.get q)) := by
  unfold unlink
  simp only [get_modify]
  split
  · next hq =>
    subst hq
    simp [hzx.symm, hyx.symm]
  · split <;> split <;> rfl

theorem unlink_relinked (hring : p.Ring L (pre ++ x :: post)) (hnd : (pre ++ x :: post).Nodup)
    (hz : L.prev (p.get x) = some z) (hy : L.next (p.get x) = some y)
    (hzm : z ∈ pre ++ post) (hym : y ∈ pre ++ post) :
    Relinked L p (p.unlink L x z y) (pre ++ x :: post) (pre ++ post) := by
  have hzx : z ≠ x := ne_of_mem_removed hnd hzm
  have hyx : y ≠ x := ne_of_mem_removed hnd hym
  have hget := get_unlink (L := L) (p := p) hzx hyx
  refine ⟨Circular.remove hring hnd hz hy ?_ ?_ ?_ ?_, ?_, ?_, ?_, rfl, ?_⟩
  · simp only [hget, if_neg hzx, if_true]
    split <;> simp
  · simp only [hget, if_neg hyx, if_true]
    simp
  · intro w hw hwz
    simp only [hget, if_neg (ne_of_mem_removed hnd hw), if_neg hwz]
    split <;> simp
  · intro w hw hwy
    simp only [hget, if_neg (ne_of_mem_removed hnd hw), if_neg hwy]
    split <;> simp
  · intro q hq
    have hqx : q ≠ x := by
      rintro rfl
      exact hq (by simp)
    have hqz : q ≠ z := by
      rintro rfl
      exact hq (mem_of_mem_removed hzm)
    have hqy : q ≠ y := by
      rintro rfl
      exact hq (mem_of_mem_removed hym)
    simp [hget, hqx, hqz, hqy]
  · intro q
    rw [hget]
    split
    · simp
    · split <;> split <;> simp
  · intro hready
    exact (((hready.modify _ _).modify _ _).modify _ _).modify _ _
  · intro q
    simp only [unlink, live_modify]

/-! ## Putting a cell in -/

theorem get_linkIn (hnz : z ≠ n) (hnc : c ≠ n) (q : Nat) :
    (p.linkIn L n z c).get q =
      if q = n then L.setPrev (some z) (L.setNext (some c) (p.get q))
      else (if q = c then L.setPrev (some n) else id)
        ((if q = z then L.setNext (some n) else id) (p.get q)) := by
  unfold linkIn
  simp only [get_modify]
  by_cases hq : q = n
  · subst hq
    simp [hnc.symm, hnz.symm]
  · simp only [if_neg hq]
    split <;> split <;> rfl

theorem linkIn_relinked (hring : p.Ring L (pre ++ c :: post)) (hnd : (pre ++ c :: post).Nodup)
    (hn : n ∉ pre ++ c :: post) (hz : L.prev (p.get c) = some z) :
    Relinked L p (p.linkIn L n z c) (pre ++ n :: c :: post) (pre ++ n :: c :: post) := by
  have hc : c ∈ pre ++ c :: post := by simp
  obtain ⟨z', hzm, hz', -⟩ := Circular.exists_prev hring hc
  obtain rfl : z' = z := Option.some.inj (hz'.symm.trans hz)
  have hzn : z' ≠ n := by
    rintro rfl
    exact hn hzm
  have hcn : c ≠ n := by
    rintro rfl
    exact hn hc
  have hget := get_linkIn (L := L) (p := p) hzn hcn
  refine ⟨Circular.insert hring hnd hn hz ?_ ?_ ?_ ?_ ?_ ?_, ?_, ?_, ?_, rfl, ?_⟩
  · simp only [hget, if_neg hzn, if_true]
    split <;> simp
  · simp [hget]
  · simp [hget]
  · simp only [hget, if_neg hcn, if_true]
    simp
  · intro w hw hwz
    have hwn : w ≠ n := by
      rintro rfl
      exact hn hw
    simp only [hget, if_neg hwn, if_neg hwz]
    split <;> simp
  · intro w hw hwc
    have hwn : w ≠ n := by
      rintro rfl
      exact hn hw
    simp only [hget, if_neg hwn, if_neg hwc]
    split <;> simp
  · intro q hq
    have hmem : ∀ w, w ∈ pre ++ c :: post → q ≠ w := by
      rintro w hw rfl
      apply hq
      simp only [List.mem_append, List.mem_cons] at hw ⊢
      tauto
    have hqn : q ≠ n := by
      rintro rfl
      exact hq (by simp)
    simp [hget, hqn, hmem _ hzm, hmem c hc]
  · intro q
    rw [hget]
    split
    · simp
    · split <;> split <;> simp
  · intro hready
    exact (((hready.modify _ _).modify _ _).modify _ _).modify _ _
  · intro q
    simp only [linkIn, live_modify]

/-- Linking in before the head is linking in at the tail. -/
theorem linkIn_relinked_tail (hring : p.Ring L (c :: post)) (hnd : (c :: post).Nodup)
    (hn : n ∉ c :: post) (hz : L.prev (p.get c) = some z) :
    Relinked L p (p.linkIn L n z c) (c :: post ++ [n]) (c :: post ++ [n]) := by
  have h := @linkIn_relinked _ _ L p [] post n c z hring hnd hn hz
  refine ⟨?_, ?_, h.data, h.ready, h.numCells, h.live⟩
  · exact @Circular.rotate _ _ _ [n] (c :: post) h.ring
  · intro q hq
    refine h.frame q fun hmem => hq ?_
    simp only [List.nil_append, List.mem_cons, List.mem_append, List.not_mem_nil] at hmem ⊢
    tauto

/-- A cell whose links point at itself. -/
theorem ring_singleton_iff :
    p.Ring L [x] ↔ L.next (p.get x) = some x ∧ L.prev (p.get x) = some x :=
  Circular.singleton_iff

end MemPool

end TradingSystem
