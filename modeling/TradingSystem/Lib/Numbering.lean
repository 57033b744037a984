import TradingSystem.Lib.SortedMap

/-!
# Taking numbered items in sequence

A receiver that expects sequence numbers one after the other takes an item that has the number it
expects next, and skips any other. What it takes is the greedy subsequence of the items numbered
`n`, `n + 1`, …; of a stream that is numbered that way it takes everything (`taken_numberFrom`).
-/

variable {α β : Type*} (seqNum : α → UInt64)

/-- The items that are taken when `next` is expected first. -/
def taken : UInt64 → List α → List α
  | _, [] => []
  | next, a :: as =>
    if seqNum a = next then a :: taken (next + 1) as
    else taken next as

/-- The number that is expected after the items. -/
def expectedAfter (next : UInt64) (as : List α) : UInt64 :=
  as.foldl (fun next a => if seqNum a = next then next + 1 else next) next

variable {seqNum} {next : UInt64} {a : α} {as bs : List α}

theorem taken_append :
    taken seqNum next (as ++ bs) =
      taken seqNum next as ++ taken seqNum (expectedAfter seqNum next as) bs := by
  induction as generalizing next with
  | nil => rfl
  | cons b as ih =>
    unfold expectedAfter
    rw [List.cons_append, taken, taken, List.foldl_cons]
    split
    · rw [ih, List.cons_append]
      rfl
    · rw [ih]
      rfl

theorem taken_concat :
    taken seqNum next (as ++ [a]) =
      if seqNum a = expectedAfter seqNum next as then taken seqNum next as ++ [a]
      else taken seqNum next as := by
  rw [taken_append, taken, taken, taken]
  split
  · rfl
  · rw [List.append_nil]

theorem expectedAfter_concat :
    expectedAfter seqNum next (as ++ [a]) =
      if seqNum a = expectedAfter seqNum next as then expectedAfter seqNum next as + 1
      else expectedAfter seqNum next as := by
  unfold expectedAfter
  rw [List.foldl_append]
  rfl

/-- What is at the beginning of a list stays where it is. -/
theorem getElem?_of_prefix (h : as <+: bs) {k : Nat} (ha : as[k]? = some a) : bs[k]? = some a := by
  obtain ⟨rest, rfl⟩ := h
  rw [List.getElem?_append_left (List.getElem?_eq_some_iff.mp ha).1, ha]

theorem numberFrom_take (n : UInt64) (vs : List β) (k : Nat) :
    (numberFrom n vs).take k = numberFrom n (vs.take k) := by
  induction vs generalizing n k with
  | nil => simp
  | cons v vs ih =>
    cases k with
    | zero => rfl
    | succ k => rw [numberFrom_cons, List.take_succ_cons, List.take_succ_cons, numberFrom_cons, ih]

/-- **Nothing is skipped** of items that are numbered one after the other. -/
theorem taken_numberFrom {f : UInt64 × β → α} (hf : ∀ e, seqNum (f e) = e.1) (n : UInt64)
    (vs : List β) : taken seqNum n ((numberFrom n vs).map f) = (numberFrom n vs).map f := by
  induction vs generalizing n with
  | nil => rfl
  | cons v vs ih =>
    rw [numberFrom_cons, List.map_cons, taken, if_pos (hf _), ih]
