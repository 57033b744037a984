import Mathlib

/-!
# Codecs of fixed size

A `Codec` writes each value of a type with the same number of bytes, and reads it back from the front
of any bytes that begin with them. Little-endian integers are codecs, and codecs compose: one value
after the other (`Codec.pair`), and through a pair of functions (`Codec.map`), which is how the layout
of a packed structure is given.

Reading is total: bytes that are missing are read as zero.
-/

/-- A way to write the values of a type with `size` bytes each. -/
structure Codec (α : Type) where
  size : Nat
  encode : α → List UInt8
  decode : List UInt8 → α
  length_encode : ∀ a, (encode a).length = size
  decode_encode : ∀ a rest, decode (encode a ++ rest) = a

namespace Codec

variable {α β : Type}

/-! ## Little-endian integers -/

/-- The `n` low bytes of a number, the lowest first. -/
def toBytes : Nat → Nat → List UInt8
  | 0, _ => []
  | n + 1, v => UInt8.ofNat (v % 256) :: toBytes n (v / 256)

/-- The number whose low bytes the first `n` bytes are. -/
def ofBytes : Nat → List UInt8 → Nat
  | 0, _ => 0
  | n + 1, bytes => (bytes.headD 0).toNat + 256 * ofBytes n bytes.tail

theorem length_toBytes (n v : Nat) : (toBytes n v).length = n := by
  induction n generalizing v with
  | zero => rfl
  | succ n ih => rw [toBytes, List.length_cons, ih]

theorem ofBytes_toBytes (n v : Nat) (rest : List UInt8) :
    ofBytes n (toBytes n v ++ rest) = v % 256 ^ n := by
  induction n generalizing v with
  | zero => rw [pow_zero, Nat.mod_one]; rfl
  | succ n ih =>
    have hlow : (UInt8.ofNat (v % 256)).toNat = v % 256 := by
      rw [UInt8.toNat_ofNat']
      exact Nat.mod_mod _ _
    show (UInt8.ofNat (v % 256)).toNat + 256 * ofBytes n (toBytes n (v / 256) ++ rest) = _
    rw [hlow, ih, pow_succ, Nat.mul_comm (256 ^ n) 256, Nat.mod_mul]

/-- A type whose values are numbers of `n` bytes. -/
def unsigned (n : Nat) (toNat : α → Nat) (ofNat : Nat → α) (hlt : ∀ a, toNat a < 256 ^ n)
    (hinv : ∀ a, ofNat (toNat a) = a) : Codec α where
  size := n
  encode a := toBytes n (toNat a)
  decode bytes := ofNat (ofBytes n bytes)
  length_encode a := length_toBytes n (toNat a)
  decode_encode := by
    intro a rest
    rw [ofBytes_toBytes, Nat.mod_eq_of_lt (hlt a), hinv]

def uint8 : Codec UInt8 :=
  unsigned 1 UInt8.toNat UInt8.ofNat UInt8.toNat_lt fun _ => UInt8.ofNat_toNat

def uint32 : Codec UInt32 :=
  unsigned 4 UInt32.toNat UInt32.ofNat UInt32.toNat_lt fun _ => UInt32.ofNat_toNat

def uint64 : Codec UInt64 :=
  unsigned 8 UInt64.toNat UInt64.ofNat UInt64.toNat_lt fun _ => UInt64.ofNat_toNat

/-! ## Structures -/

/-- One value after the other. -/
def pair (c : Codec α) (d : Codec β) : Codec (α × β) where
  size := c.size + d.size
  encode p := c.encode p.1 ++ d.encode p.2
  decode bytes := (c.decode bytes, d.decode (bytes.drop c.size))
  length_encode p := by rw [List.length_append, c.length_encode, d.length_encode]
  decode_encode := by
    intro p rest
    rw [List.append_assoc, c.decode_encode, List.drop_left' (c.length_encode p.1), d.decode_encode]

/-- The values of another type in place of those of `α`. -/
def map (c : Codec α) (f : α → β) (g : β → α) (hinv : ∀ b, f (g b) = b) : Codec β where
  size := c.size
  encode b := c.encode (g b)
  decode bytes := f (c.decode bytes)
  length_encode b := c.length_encode (g b)
  decode_encode := by
    intro b rest
    rw [c.decode_encode, hinv]

end Codec
