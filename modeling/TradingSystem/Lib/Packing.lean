import TradingSystem.Lib.Codec
import TradingSystem.Lib.Framing

/-!
# Values packed one after the other

The bytes of several values of one codec, without anything between them, and the values that are read
back from such bytes. Packing then reading gives the values back and leaves nothing over
(`unpack_pack`, `rest_pack`), and so does reading several packages one after the other (`unpack_append`).
-/

namespace Codec

variable {α : Type} (c : Codec α)

/-- The bytes of the values, one value after the other. -/
def pack (as : List α) : List UInt8 := as.flatMap c.encode

/-- The values that are complete in the bytes. -/
def unpack (bytes : List UInt8) : List α := (frames c.size bytes).map c.decode

variable {c} {as as' : List α} {a : α} {bytes : List UInt8}

@[simp] theorem pack_nil : c.pack [] = [] := rfl

theorem pack_append : c.pack (as ++ as') = c.pack as ++ c.pack as' := List.flatMap_append

theorem pack_singleton : c.pack [a] = c.encode a := List.flatMap_singleton _ _

@[simp] theorem length_pack : (c.pack as).length = as.length * c.size := by
  induction as with
  | nil => rw [pack_nil, List.length_nil, List.length_nil, Nat.zero_mul]
  | cons a as ih =>
    show (c.encode a ++ c.pack as).length = _
    rw [List.length_append, c.length_encode, ih, List.length_cons, Nat.succ_mul, Nat.add_comm]

theorem drop_pack (as : List α) (k : Nat) : (c.pack as).drop (k * c.size) = c.pack (as.drop k) := by
  induction as generalizing k with
  | nil => rw [List.drop_nil, pack_nil, List.drop_nil]
  | cons a as ih =>
    cases k with
    | zero => rw [Nat.zero_mul, List.drop_zero, List.drop_zero]
    | succ k =>
      rw [List.drop_succ_cons, ← ih, Nat.succ_mul, Nat.add_comm, ← List.drop_drop]
      congr 1
      exact List.drop_left' (c.length_encode a)

theorem pack_eq_nil (hpos : 0 < c.size) : c.pack as = [] ↔ as = [] := by
  constructor
  · intro h
    have hlen : (c.pack as).length = 0 := by rw [h, List.length_nil]
    rw [length_pack, Nat.mul_eq_zero] at hlen
    rcases hlen with hlen | hlen
    · exact List.length_eq_zero_iff.mp hlen
    · omega
  · rintro rfl
    exact pack_nil

theorem rest_pack (hpos : 0 < c.size) : rest c.size (c.pack as) = [] := by
  rw [rest, length_pack, Nat.mul_div_cancel _ hpos, ← length_pack, List.drop_length]

/-- **What is packed is read back.** -/
theorem unpack_pack (hpos : 0 < c.size) : c.unpack (c.pack as) = as := by
  have hfs : ∀ f ∈ as.map c.encode, f.length = c.size := by
    intro f hf
    obtain ⟨a, -, rfl⟩ := List.mem_map.mp hf
    exact c.length_encode a
  unfold unpack pack
  rw [List.flatMap_def, frames_flatten hpos hfs, List.map_map]
  conv_rhs => rw [← List.map_id as]
  apply List.map_congr_left
  intro a _
  show c.decode (c.encode a) = a
  have hdecode := c.decode_encode a []
  rwa [List.append_nil] at hdecode

/-- Reading goes on with what a package left over. -/
theorem unpack_append (hpos : 0 < c.size) (bytes' : List UInt8) :
    c.unpack (bytes ++ bytes') = c.unpack bytes ++ c.unpack (rest c.size bytes ++ bytes') := by
  unfold unpack
  rw [frames_append hpos, List.map_append]

theorem unpack_of_lt (h : bytes.length < c.size) : c.unpack bytes = [] := by
  unfold unpack
  rw [frames_of_lt h]
  rfl

/-- The first value, and those in what comes after it. -/
theorem unpack_of_le (hpos : 0 < c.size) (h : c.size ≤ bytes.length) :
    c.unpack bytes = c.decode (bytes.take c.size) :: c.unpack (bytes.drop c.size) := by
  unfold unpack
  rw [frames_of_le hpos h]
  rfl

end Codec
