import Mathlib

/-!
# The scalar types, limits and failure modes shared by exchange and clients

`utils/types.hpp` and `utils/macros.hpp`. The code's scalars are fixed-width unsigned integers and
stay so here: `OrderId`, `Price` and `Priority` are 64 bits wide, `Qty`, `ClientId` and `TickerId`
32, and arithmetic on them wraps as it does in the source.

An enumeration with a fixed underlying type can hold every value of that type, also one that has no
enumerator (a message is `reinterpret_cast` from the wire without a check). Such a value is the
constructor `unnamed`, whose field excludes the enumerators, so that each byte has one reading.

Code that cannot go on ends the process: `ASSERT` and `assert` do, `.at()` throws out of a
`noexcept` function, and a null pointer must not be followed. Fallible code returns
`Except Fault`, and `Fault` says which of these happened. An access past the end of an array that
does not check its index is undefined behaviour; it counts as one of them.
-/

namespace TradingSystem

abbrev OrderId := UInt64
abbrev TickerId := UInt32
abbrev ClientId := UInt32
abbrev Price := UInt64
abbrev Qty := UInt32
abbrev Priority := UInt64
abbrev Nanos := Int64

def orderIdInvalid : OrderId := 0xFFFFFFFFFFFFFFFF
def tickerIdInvalid : TickerId := 0xFFFFFFFF
def clientIdInvalid : ClientId := 0xFFFFFFFF
def priceInvalid : Price := 0xFFFFFFFFFFFFFFFF
def qtyInvalid : Qty := 0xFFFFFFFF
def priorityInvalid : Priority := 0xFFFFFFFFFFFFFFFF

def nanosToSecs : Nanos := 1000000000

def meMaxTickers : Nat := 8
def meMaxClientsUpdates : Nat := 256 * 1024
def meMaxMarketUpdates : Nat := 256 * 1024
def meMaxNumClients : Nat := 256
def meMaxOrderIds : Nat := 1024 * 1024
def meMaxPriceLevels : Nat := 256

/-- `enum class Side : int8_t`. -/
inductive Side where
  | invalid
  | buy
  | sell
  | max
  | unnamed (v : { v : UInt8 // v ∉ [0, 1, 0xFF, 2] })
  deriving DecidableEq

namespace Side

/-- The value's two's-complement byte. -/
def toByte : Side → UInt8
  | .invalid => 0
  | .buy => 1
  | .sell => 0xFF
  | .max => 2
  | .unnamed v => v.val

def ofByte (v : UInt8) : Side :=
  if h : v ∈ [0, 1, 0xFF, 2] then
    if v = 0 then .invalid else if v = 1 then .buy else if v = 0xFF then .sell else .max
  else .unnamed ⟨v, h⟩

@[simp] theorem ofByte_toByte (s : Side) : ofByte s.toByte = s := by
  cases s with
  | unnamed v =>
    unfold toByte ofByte
    rw [dif_neg v.property]
  | _ => rfl

/-- The side an order of side `s` trades against; only `buy` and `sell` have one. -/
def opposite : Side → Side
  | .buy => .sell
  | .sell => .buy
  | s => s

end Side

/-- Why the process ended. -/
inductive Fault where
  /-- an `ASSERT` or `assert` other than the pool's -/
  | assertion
  /-- `MemPool::updateNextFree` found no free cell -/
  | poolExhausted
  /-- `.at()` threw out of a `noexcept` function -/
  | outOfRange
  /-- a null pointer was followed -/
  | nullPointer
  /-- an array without a check was accessed past its end -/
  | outOfBounds
  /-- the bound this model puts on a loop was too small; never reached -/
  | diverges
  deriving DecidableEq, Repr

/-- Follow a nullable pointer. -/
def deref {α : Type} : Option α → Except Fault α
  | some p => .ok p
  | none => .error .nullPointer

@[simp] theorem deref_some {α : Type} (p : α) : deref (some p) = .ok p := rfl

end TradingSystem
