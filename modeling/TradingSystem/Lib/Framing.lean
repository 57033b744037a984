import Mathlib

/-!
# Frames of fixed size

A stream of elements is a sequence of frames of `n` elements each, the last of which may be incomplete.
`frames n l` are the complete ones and `rest n l` is the beginning of the next. However a stream is cut
into pieces, a reader that keeps the rest of what it has and puts the next piece behind it sees the
same frames (`frames_append`, `rest_append`).
-/

variable {α : Type*} {n : Nat} {l l' : List α} {fs : List (List α)}

/-- The complete frames, in order. -/
def frames (n : Nat) (l : List α) : List (List α) :=
  (List.range (l.length / n)).map fun i => (l.drop (i * n)).take n

/-- What comes after the last complete frame. -/
def rest (n : Nat) (l : List α) : List α := l.drop (l.length / n * n)

theorem length_frames (n : Nat) (l : List α) : (frames n l).length = l.length / n := by
  rw [frames, List.length_map, List.length_range]

theorem frames_of_lt (h : l.length < n) : frames n l = [] := by
  rw [frames, Nat.div_eq_of_lt h]
  rfl

theorem rest_of_lt (h : l.length < n) : rest n l = l := by
  rw [rest, Nat.div_eq_of_lt h, Nat.zero_mul, List.drop_zero]

theorem frames_of_le (hn : 0 < n) (h : n ≤ l.length) :
    frames n l = l.take n :: frames n (l.drop n) := by
  have hdiv : l.length / n = (l.length - n) / n + 1 := Nat.div_eq_sub_div hn h
  rw [frames, frames, hdiv, List.range_succ_eq_map, List.map_cons, List.map_map, List.length_drop,
    Nat.zero_mul, List.drop_zero]
  congr 1
  apply List.map_congr_left
  intro i _
  rw [List.drop_drop, Function.comp_apply, Nat.succ_mul, Nat.add_comm]

theorem rest_of_le (hn : 0 < n) (h : n ≤ l.length) : rest n l = rest n (l.drop n) := by
  have hdiv : l.length / n = (l.length - n) / n + 1 := Nat.div_eq_sub_div hn h
  rw [rest, rest, List.length_drop, List.drop_drop, hdiv, Nat.succ_mul, Nat.add_comm n]

theorem length_rest_lt (hn : 0 < n) (l : List α) : (rest n l).length < n := by
  rw [rest, List.length_drop, Nat.mul_comm, ← Nat.mod_eq_sub_mul_div]
  exact Nat.mod_lt _ hn

/-- **The frames of a stream that goes on** are those before, and those of what was left with what
came. -/
theorem frames_append (hn : 0 < n) (l l' : List α) :
    frames n (l ++ l') = frames n l ++ frames n (rest n l ++ l') := by
  induction hk : l.length using Nat.strong_induction_on generalizing l with
  | _ k ih =>
    by_cases hlt : l.length < n
    · rw [frames_of_lt hlt, rest_of_lt hlt, List.nil_append]
    · have hle : n ≤ l.length := Nat.le_of_not_lt hlt
      have hlen : (l.drop n).length < k := by
        rw [List.length_drop]
        omega
      rw [frames_of_le hn hle, rest_of_le hn hle, List.cons_append, ← ih _ hlen _ rfl,
        frames_of_le hn (by rw [List.length_append]; omega), List.take_append_of_le_length hle,
        List.drop_append_of_le_length hle]

theorem rest_append (hn : 0 < n) (l l' : List α) : rest n (l ++ l') = rest n (rest n l ++ l') := by
  induction hk : l.length using Nat.strong_induction_on generalizing l with
  | _ k ih =>
    by_cases hlt : l.length < n
    · rw [rest_of_lt hlt]
    · have hle : n ≤ l.length := Nat.le_of_not_lt hlt
      have hlen : (l.drop n).length < k := by
        rw [List.length_drop]
        omega
      rw [rest_of_le hn hle, ← ih _ hlen _ rfl, rest_of_le hn (by rw [List.length_append]; omega),
        List.drop_append_of_le_length hle]

/-- The frames that a stream was put together from. -/
theorem frames_flatten (hn : 0 < n) (hfs : ∀ f ∈ fs, f.length = n) : frames n fs.flatten = fs := by
  induction fs with
  | nil => exact frames_of_lt hn
  | cons f fs ih =>
    have hf := hfs f List.mem_cons_self
    rw [List.flatten_cons, frames_of_le hn (by rw [List.length_append]; omega),
      List.take_left' hf, List.drop_left' hf, ih fun f' hf' => hfs f' (List.mem_cons_of_mem _ hf')]

/-- The beginning of a stream has the first frames. -/
theorem frames_initial (hn : 0 < n) (hfs : ∀ f ∈ fs, f.length = n) (h : l <+: fs.flatten) :
    frames n l = fs.take (l.length / n) := by
  obtain ⟨l', hl'⟩ := h
  have hall := frames_append hn l l'
  rw [hl', frames_flatten hn hfs] at hall
  rw [hall, List.take_left' (length_frames n l)]
