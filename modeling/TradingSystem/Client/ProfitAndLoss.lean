import TradingSystem.Client.Positions

/-!
# Profit and loss over a run of fills

`PositionInfo::addFill` over all fills of a ticker, with its doubles read as rationals and no integer
overflow.

Total profit and loss should be what the fills have received, less what they have paid, with the net
position at the price of the last fill. In the code a fill replaces the position, while the cost of
the fills before it stays in `open_vwap_`. So fills of one side weigh their whole cost against the
shares of the last of them, and a fill of the other side closes no more than the last fill. What comes
out over a history of fills is in `Booked`, and where this agrees with the identity in
`foldl_pnlIdentity_iff`.
-/

namespace TradingSystem

/-! ## Signed 32-bit integers as integers -/

theorem toInt_abs_of_lt {x : Int32} (h : -2 ^ 31 < x.toInt) : x.abs.toInt = |x.toInt| := by
  have hmin : x.toBitVec ≠ BitVec.intMin 32 := by
    rintro heq
    have htoInt : x.toInt = (BitVec.intMin 32).toInt := congrArg BitVec.toInt heq
    rw [htoInt] at h
    exact absurd h (by decide)
  have hcore : x.abs.toInt = (x.toBitVec.toInt.natAbs : ℤ) :=
    BitVec.toInt_abs_eq_natAbs_of_ne_intMin hmin
  rw [hcore, Int.natCast_natAbs]
  rfl

theorem toInt_min (x y : Int32) : (min x y).toInt = min x.toInt y.toInt := by
  show (if x ≤ y then x else y).toInt = _
  split
  · next hle => exact (min_eq_left (Int32.le_iff_toInt_le.mp hle)).symm
  · next hle =>
    rw [Int32.le_iff_toInt_le, Int.not_le] at hle
    exact (min_eq_right hle.le).symm

theorem toNat_toUInt64_of_nonneg {x : Int32} (h : 0 ≤ x.toInt) :
    x.toInt64.toUInt64.toNat = x.toInt.toNat := by
  have hle : 0 ≤ x.toInt64 := by
    rw [Int64.le_iff_toInt_le, Int32.toInt_toInt64]
    exact h
  rw [Int64.toNat_toUInt64_of_le hle, ← Int32.toInt_toInt64 x]
  rfl

theorem toInt_mul_of_inInt32 {x y : Int32} (h : InInt32 (x.toInt * y.toInt)) :
    (x * y).toInt = x.toInt * y.toInt := by
  obtain ⟨hlow, hhigh⟩ := h
  rw [Int32.toInt_mul]
  exact Int.bmod_eq_of_le (by omega) (by omega)

namespace MEClientResponse

variable {r r' : MEClientResponse}

/-- A fill on which no integer operation overflows. -/
structure Small (r : MEClientResponse) : Prop where
  side : r.side = .buy ∨ r.side = .sell
  execQty_pos : 0 < r.execQty.toNat
  execQty_lt : r.execQty.toNat < 2 ^ 31
  cost_lt : r.price.toNat * r.execQty.toNat < 2 ^ 64

/-- What is paid for a fill. -/
def cost (r : MEClientResponse) : ℚ := r.price.toNat * r.execQty.toNat

theorem cost_nonneg (r : MEClientResponse) : 0 ≤ r.cost := by
  unfold cost
  positivity

theorem Small.toInt_toValue (h : r.Small) : r.side.toValue.toInt = r.side.sign := by
  rcases h.side with hside | hside <;> rw [hside] <;> decide

theorem Small.opposite_ne (h : r.Small) : r.side.opposite ≠ r.side := by
  rcases h.side with hside | hside <;> rw [hside] <;> decide

theorem Small.opposite_eq (h : r.Small) (h' : r'.Small) (hne : r.side ≠ r'.side) :
    r.side.opposite = r'.side := by
  rcases h.side with hside | hside <;> rcases h'.side with hside' | hside' <;>
    rw [hside, hside'] at hne <;> rw [hside, hside'] <;> first | rfl | exact absurd rfl hne

theorem Small.sign_eq_neg (h : r.Small) (h' : r'.Small) (hne : r.side ≠ r'.side) :
    r.side.sign = -r'.side.sign := by
  rw [← h.opposite_eq h' hne]
  rcases h.side with hside | hside <;> rw [hside] <;> rfl

theorem Small.signedQty_mul_sign (h : r.Small) : r.signedQty * r.side.sign = r.execQty.toNat := by
  unfold signedQty
  rcases h.side with hside | hside <;> rw [hside] <;> simp [Side.sign]

theorem Small.toInt_execQty (h : r.Small) : r.execQty.toInt32.toInt = r.execQty.toNat := by
  have hlt := h.execQty_lt
  have hmod : r.execQty.toInt32.toInt = (r.execQty.toNat : ℤ).bmod (2 ^ 32) :=
    BitVec.toInt_eq_toNat_bmod _
  rw [hmod]
  exact Int.bmod_eq_of_le (by omega) (by omega)

theorem Small.abs_signedQty (h : r.Small) : |r.signedQty| = r.execQty.toNat := by
  unfold signedQty
  rcases h.side with hside | hside <;> rw [hside] <;> simp [Side.sign]

theorem Small.lt_signedQty (h : r.Small) : -2 ^ 31 < r.signedQty := by
  have hlt := h.execQty_lt
  have habs := h.abs_signedQty
  rw [abs_eq (Int.natCast_nonneg _)] at habs
  omega

theorem Small.inInt32 (h : r.Small) : InInt32 r.signedQty := by
  have hlt := h.execQty_lt
  have habs := h.abs_signedQty
  rw [abs_eq (Int.natCast_nonneg _)] at habs
  constructor <;> omega

/-- The quantity of a fill as the code multiplies it out. -/
theorem Small.ofUInt64_cost (h : r.Small) :
    ofUInt64 (r.price * r.execQty.toUInt64) = r.cost := by
  unfold ofUInt64 cost
  rw [UInt64.toNat_mul, UInt32.toNat_toUInt64, Nat.mod_eq_of_lt h.cost_lt]
  push_cast
  rfl

end MEClientResponse

open MEClientResponse

namespace PositionInfo

variable {p : PositionInfo ℚ} {r : MEClientResponse}

theorem toInt_addFill_position_small (hr : r.Small) :
    (p.addFill r).position.toInt = r.signedQty := by
  obtain ⟨hlow, hhigh⟩ := hr.inInt32
  rw [toInt_addFill_position p hr.side]
  exact Int.bmod_eq_of_le (by omega) (by omega)

theorem addFill_position_ne (hr : r.Small) : (p.addFill r).position ≠ 0 := by
  intro hzero
  have hpos := hr.execQty_pos
  have habs := hr.abs_signedQty
  rw [← toInt_addFill_position_small (p := p) hr, hzero] at habs
  simp at habs
  omega

/-- The open position of a fill, marked at the price of the fill. -/
theorem unrealAt_eq (hr : r.Small) (hposition : p.position.toInt = r.signedQty) :
    p.unrealAt r.price = r.side.sign * (r.cost - p.openVwap r.side) := by
  have hpos := hr.execQty_pos
  have hlt := hr.execQty_lt
  have hne : (r.execQty.toNat : ℚ) ≠ 0 := by exact_mod_cast hpos.ne'
  have habs : (ofInt32 p.position.abs : ℚ) = r.execQty.toNat := by
    unfold ofInt32
    rw [toInt_abs_of_lt (hposition ▸ hr.lt_signedQty), hposition, hr.abs_signedQty]
    rfl
  unfold unrealAt
  rw [habs]
  unfold MEClientResponse.cost ofUInt64
  rcases hr.side with hside | hside
  · rw [if_pos, hside]
    · simp only [Side.sign]
      push_cast
      field_simp
    · rw [gt_iff_lt, Int32.lt_iff_toInt_lt, hposition, signedQty, hside]
      show (0 : ℤ) < 1 * _
      omega
  · rw [if_neg, hside]
    · simp only [Side.sign]
      push_cast
      field_simp
      ring
    · rw [gt_iff_lt, Int32.lt_iff_toInt_lt, hposition, signedQty, hside]
      show ¬ (0 : ℤ) < -1 * _
      omega

/-- Unless the position is closed, it is marked at the price of the fill. -/
theorem addFill_unrealPnl (hne : (p.addFill r).position ≠ 0) :
    (p.addFill r).unrealPnl = (p.addFill r).unrealAt r.price := by
  rw [addFill_position] at hne
  unfold addFill
  dsimp only
  split_ifs <;> rfl

theorem addFill_totalPnl :
    (p.addFill r).totalPnl = (p.addFill r).unrealPnl + (p.addFill r).realPnl := by
  unfold addFill
  rfl

/-- A fill that opens a position, or adds to one on its side. -/
theorem addFill_extend (hr : r.Small) (hrange : InInt32 (p.position.toInt * r.side.sign))
    (hsame : 0 ≤ p.position.toInt * r.side.sign) :
    (p.addFill r).realPnl = p.realPnl ∧
      (p.addFill r).openVwap =
        Function.update p.openVwap r.side (p.openVwap r.side + r.cost) := by
  have hcond : p.position * r.side.toValue ≥ 0 := by
    rw [ge_iff_le, Int32.le_iff_toInt_le, toInt_mul_of_inInt32] <;> rwa [hr.toInt_toValue]
  have hposition := addFill_position_ne hr (p := p)
  rw [addFill_position] at hposition
  unfold addFill
  dsimp only
  rw [if_pos hcond, if_neg hposition]
  exact ⟨rfl, by rw [hr.ofUInt64_cost]⟩

/-- A fill against a position. -/
theorem addFill_turn {n : Nat} (hr : r.Small) (hlow : -2 ^ 31 < p.position.toInt)
    (hn : |p.position.toInt| = n) (hrange : InInt32 (p.position.toInt * r.side.sign))
    (hopp : p.position.toInt * r.side.sign < 0) (hproduct : InInt32 (r.signedQty * p.position.toInt)) :
    (p.addFill r).realPnl = p.realPnl + min (r.execQty.toNat : ℚ) n *
        (p.openVwap r.side.opposite / n - r.price.toNat) * r.side.sign ∧
      (p.addFill r).openVwap r.side = r.cost ∧ (p.addFill r).openVwap r.side.opposite = 0 := by
  have hcond : ¬ p.position * r.side.toValue ≥ 0 := by
    rw [ge_iff_le, Int32.le_iff_toInt_le, toInt_mul_of_inInt32] <;> rw [hr.toInt_toValue]
    · exact Int.not_le.mpr hopp
    · exact hrange
  have hposition := addFill_position_ne hr (p := p)
  have htoInt := toInt_addFill_position_small (p := p) hr
  rw [addFill_position] at hposition htoInt
  have hflip : (r.execQty * r.side.toValue.toUInt32).toInt32 * p.position < 0 := by
    rw [Int32.lt_iff_toInt_lt, toInt_mul_of_inInt32 (htoInt ▸ hproduct), htoInt, signedQty,
      Int.mul_assoc, Int.mul_left_comm, Int.mul_comm r.side.sign]
    exact Int.mul_neg_of_pos_of_neg (Int.natCast_pos.mpr hr.execQty_pos) hopp
  have hoppSide : (if r.side = .buy then Side.sell else .buy) = r.side.opposite := by
    rcases hr.side with hside | hside <;> rw [hside] <;> rfl
  have hne : r.side ≠ r.side.opposite := by
    rcases hr.side with hside | hside <;> rw [hside] <;> decide
  have hshare : (ofInt32 (min r.execQty.toInt32 p.position.abs) : ℚ) =
      min (r.execQty.toNat : ℚ) n := by
    unfold ofInt32
    rw [toInt_min, toInt_abs_of_lt hlow, hr.toInt_execQty, hn]
    push_cast
    rfl
  have habs : (ofInt32 p.position.abs : ℚ) = n := by
    unfold ofInt32
    rw [toInt_abs_of_lt hlow, hn]
    rfl
  have hcost : (ofUInt64 (r.price *
      (r.execQty * r.side.toValue.toUInt32).toInt32.abs.toInt64.toUInt64) : ℚ) = r.cost := by
    have hqty : (r.execQty * r.side.toValue.toUInt32).toInt32.abs.toInt = r.execQty.toNat := by
      rw [toInt_abs_of_lt (htoInt ▸ hr.lt_signedQty), htoInt, hr.abs_signedQty]
    have htoNat := toNat_toUInt64_of_nonneg (hqty ▸ Int.natCast_nonneg _)
    rw [hqty, Int.toNat_natCast] at htoNat
    unfold ofUInt64 cost
    rw [UInt64.toNat_mul, htoNat, Nat.mod_eq_of_lt hr.cost_lt]
    push_cast
    rfl
  have hvalue : (ofInt32 r.side.toValue : ℚ) = r.side.sign := by
    unfold ofInt32
    rw [hr.toInt_toValue]
  unfold addFill
  dsimp only
  rw [if_neg hcond, if_pos hflip, if_neg hposition, hoppSide, hshare, habs, hcost, hvalue]
  refine ⟨rfl, ?_, ?_⟩
  · exact (Function.update_of_ne hne _ _).trans (Function.update_self _ _ _)
  · exact (Function.update_self _ _ _).trans Int.cast_zero

end PositionInfo

/-! ## What a history of fills leaves

Histories are newest first: the fill that is being processed is in front of those before it. -/

/-- What the fills since the last change of side have cost. -/
def openCost : List MEClientResponse → ℚ
  | [] => 0
  | [r] => r.cost
  | r :: r' :: rs => if r.side = r'.side then openCost (r' :: rs) + r.cost else r.cost

theorem cost_le_openCost (r : MEClientResponse) (rs : List MEClientResponse) :
    r.cost ≤ openCost (r :: rs) := by
  induction rs generalizing r with
  | nil => exact le_refl r.cost
  | cons r' rs ih =>
    unfold openCost
    split
    · have hrest : 0 ≤ openCost (r' :: rs) := r'.cost_nonneg.trans (ih r')
      linarith
    · exact le_refl r.cost

/-- The value at which a change of side closes the fills before it. Of their cost, only the share that
the new fill `r` covers of the last of them, `r'`, is exchanged for the price of `r`. -/
def closedAt (r r' : MEClientResponse) (cost : ℚ) : ℚ :=
  cost - min (r.execQty.toNat : ℚ) r'.execQty.toNat / r'.execQty.toNat *
    (cost - r'.execQty.toNat * r.price.toNat)

/-- The value at which the changes of side have closed the fills before them. -/
def closedValue : List MEClientResponse → ℚ
  | [] => 0
  | [_] => 0
  | r :: r' :: rs =>
    if r.side = r'.side then closedValue (r' :: rs)
    else closedValue (r' :: rs) + r'.side.sign * closedAt r r' (openCost (r' :: rs))

/-- What a run of fills has paid, less what it has received. -/
def paid (fills : List MEClientResponse) : ℚ := (fills.map fun r => (r.side.sign : ℚ) * r.cost).sum

@[simp] theorem paid_cons (r : MEClientResponse) (rs : List MEClientResponse) :
    paid (r :: rs) = r.side.sign * r.cost + paid rs := by
  unfold paid
  rw [List.map_cons, List.sum_cons]

theorem paid_reverse (fills : List MEClientResponse) : paid fills.reverse = paid fills := by
  unfold paid
  rw [List.map_reverse, List.sum_reverse]

/-- No integer operation overflows on a run of fills. The code multiplies the position by what it was
before, and comes to this where the side changes. -/
structure NoOverflow (fills : List MEClientResponse) : Prop where
  small : ∀ r ∈ fills, r.Small
  turn : fills.IsChain fun r r' =>
    r.side ≠ r'.side → r.execQty.toNat * r'.execQty.toNat ≤ 2 ^ 31

instance decidableSmall (r : MEClientResponse) : Decidable r.Small :=
  decidable_of_iff
    ((r.side = .buy ∨ r.side = .sell) ∧ 0 < r.execQty.toNat ∧ r.execQty.toNat < 2 ^ 31 ∧
      r.price.toNat * r.execQty.toNat < 2 ^ 64)
    ⟨fun ⟨h₁, h₂, h₃, h₄⟩ => ⟨h₁, h₂, h₃, h₄⟩, fun ⟨h₁, h₂, h₃, h₄⟩ => ⟨h₁, h₂, h₃, h₄⟩⟩

instance decidableNoOverflow (fills : List MEClientResponse) : Decidable (NoOverflow fills) :=
  decidable_of_iff
    ((∀ r ∈ fills, r.Small) ∧ fills.IsChain fun r r' =>
      r.side ≠ r'.side → r.execQty.toNat * r'.execQty.toNat ≤ 2 ^ 31)
    ⟨fun ⟨h₁, h₂⟩ => ⟨h₁, h₂⟩, fun ⟨h₁, h₂⟩ => ⟨h₁, h₂⟩⟩

namespace PositionInfo

/-- The books after a history that ends with `r`. -/
structure Booked (r : MEClientResponse) (rs : List MEClientResponse) (p : PositionInfo ℚ) :
    Prop where
  position : p.position.toInt = r.signedQty
  openVwap : p.openVwap r.side = openCost (r :: rs)
  openVwap_opposite : p.openVwap r.side.opposite = 0
  realPnl : p.realPnl =
    closedValue (r :: rs) - paid (r :: rs) + r.side.sign * openCost (r :: rs)
  unrealPnl : p.unrealPnl = r.side.sign * (r.cost - openCost (r :: rs))
  totalPnl : p.totalPnl = p.unrealPnl + p.realPnl

variable {p : PositionInfo ℚ} {r r' : MEClientResponse} {rs : List MEClientResponse}

/-- A fill is marked at its own price, whichever branch it takes. -/
theorem booked_of (hr : r.Small) (hopen : (p.addFill r).openVwap r.side = openCost (r :: rs))
    (hopposite : (p.addFill r).openVwap r.side.opposite = 0)
    (hreal : (p.addFill r).realPnl =
      closedValue (r :: rs) - paid (r :: rs) + r.side.sign * openCost (r :: rs)) :
    Booked r rs (p.addFill r) where
  position := toInt_addFill_position_small hr
  openVwap := hopen
  openVwap_opposite := hopposite
  realPnl := hreal
  unrealPnl := by
    rw [addFill_unrealPnl (addFill_position_ne hr),
      unrealAt_eq hr (toInt_addFill_position_small hr), hopen]
  totalPnl := addFill_totalPnl

theorem booked_init (hr : r.Small) : Booked r [] (init.addFill r) := by
  have hzero : (init : PositionInfo ℚ).position.toInt * r.side.sign = 0 := Int.zero_mul _
  obtain ⟨hreal, hopen⟩ := addFill_extend (p := init) hr (hzero ▸ by decide) hzero.ge
  refine booked_of hr ?_ ?_ ?_
  · rw [hopen, Function.update_self]
    exact zero_add _
  · rw [hopen, Function.update_of_ne hr.opposite_ne]
    rfl
  · rw [hreal, paid_cons]
    show (0 : ℚ) = 0 - (_ + 0) + r.side.sign * r.cost
    ring

namespace Booked

/-- A fill on the side of the last one adds to what is open. -/
theorem addFill_same (h : Booked r' rs p) (hr : r.Small) (hr' : r'.Small)
    (hside : r.side = r'.side) : Booked r (r' :: rs) (p.addFill r) := by
  have hsame : p.position.toInt * r.side.sign = r'.execQty.toNat := by
    rw [h.position, hside, hr'.signedQty_mul_sign]
  have hlt := hr'.execQty_lt
  obtain ⟨hreal, hopen⟩ := addFill_extend hr (hsame ▸ ⟨by omega, by omega⟩)
    (hsame ▸ Int.natCast_nonneg _)
  have hcost : openCost (r :: r' :: rs) = openCost (r' :: rs) + r.cost := if_pos hside
  have hclosed : closedValue (r :: r' :: rs) = closedValue (r' :: rs) := if_pos hside
  refine booked_of hr ?_ ?_ ?_
  · rw [hopen, Function.update_self, hcost, hside, h.openVwap]
  · rw [hopen, Function.update_of_ne hr.opposite_ne, hside]
    exact h.openVwap_opposite
  · rw [hreal, h.realPnl, hclosed, paid_cons r, hcost, hside]
    ring

/-- A fill on the other side closes what is open, and opens its own position. -/
theorem addFill_turn (h : Booked r' rs p) (hr : r.Small) (hr' : r'.Small)
    (hside : r.side ≠ r'.side) (hturn : r'.execQty.toNat * r.execQty.toNat ≤ 2 ^ 31) :
    Booked r (r' :: rs) (p.addFill r) := by
  have hopposite := hr.opposite_eq hr' hside
  have hsign := hr.sign_eq_neg hr' hside
  have hopp : p.position.toInt * r.side.sign = -r'.execQty.toNat := by
    rw [h.position, hsign, Int.mul_neg, hr'.signedQty_mul_sign]
  have hlt := hr'.execQty_lt
  have hpos := hr'.execQty_pos
  have hproduct : InInt32 (r.signedQty * p.position.toInt) := by
    have hcast : (r'.execQty.toNat : ℤ) * r.execQty.toNat ≤ 2 ^ 31 := by exact_mod_cast hturn
    have hnonneg : (0 : ℤ) ≤ (r'.execQty.toNat : ℤ) * r.execQty.toNat :=
      Int.mul_nonneg (Int.natCast_nonneg _) (Int.natCast_nonneg _)
    rw [signedQty, Int.mul_right_comm, Int.mul_comm _ p.position.toInt, hopp, Int.neg_mul]
    constructor <;> omega
  obtain ⟨hreal, hopen, hclosedVwap⟩ := PositionInfo.addFill_turn hr
    (h.position ▸ hr'.lt_signedQty) (h.position ▸ hr'.abs_signedQty) (hopp ▸ ⟨by omega, by omega⟩)
    (hopp ▸ by omega) hproduct
  have hcost : openCost (r :: r' :: rs) = r.cost := if_neg hside
  have hclosed : closedValue (r :: r' :: rs) =
      closedValue (r' :: rs) + r'.side.sign * closedAt r r' (openCost (r' :: rs)) := if_neg hside
  refine booked_of hr ?_ hclosedVwap ?_
  · rw [hopen, hcost]
  · rw [hreal, h.realPnl, hclosed, paid_cons r, hcost, hopposite, h.openVwap, hsign,
      closedAt]
    have hne : (r'.execQty.toNat : ℚ) ≠ 0 := by exact_mod_cast hpos.ne'
    push_cast
    field_simp
    ring

/-- **Step lemma.** -/
theorem addFill (h : Booked r' rs p) (hr : r.Small) (hr' : r'.Small)
    (hturn : r.side ≠ r'.side → r.execQty.toNat * r'.execQty.toNat ≤ 2 ^ 31) :
    Booked r (r' :: rs) (p.addFill r) := by
  by_cases hside : r.side = r'.side
  · exact h.addFill_same hr hr' hside
  · exact h.addFill_turn hr hr' hside (Nat.mul_comm _ _ ▸ hturn hside)

end Booked

/-- **Run lemma.** -/
theorem booked_foldr {history : List MEClientResponse} (h : NoOverflow (r :: history)) :
    Booked r history ((r :: history).foldr (fun r p => p.addFill r) init) := by
  induction history generalizing r with
  | nil => exact booked_init (h.small r List.mem_cons_self)
  | cons r' rs ih =>
    have hsmall := h.small
    have hchain := List.isChain_cons_cons.mp h.turn
    have hrest : NoOverflow (r' :: rs) :=
      ⟨fun x hx => hsmall x (List.mem_cons_of_mem r hx), hchain.2⟩
    exact (ih hrest).addFill (hsmall r List.mem_cons_self)
      (hsmall r' (List.mem_cons_of_mem r List.mem_cons_self)) hchain.1

/-! ## The identity of profit and loss -/

/-- Profit and loss as what the fills have received, less what they have paid, with the net position at
the price of the last of them. -/
structure PnlIdentity (fills : List MEClientResponse) (price : Price) (p : PositionInfo ℚ) : Prop where
  totalPnl : p.totalPnl = -paid fills + netQty fills * price.toNat
  sum : p.totalPnl = p.realPnl + p.unrealPnl
  flat : netQty fills = 0 →
    p.openVwap .buy = 0 ∧ p.openVwap .sell = 0 ∧ p.unrealPnl = 0

variable {fills : List MEClientResponse} {last : MEClientResponse}

theorem noOverflow_reverse (h : NoOverflow (fills ++ [last])) :
    NoOverflow (last :: fills.reverse) := by
  rw [← List.singleton_append, ← List.reverse_singleton, ← List.reverse_append]
  refine ⟨fun r hr => h.small r (List.mem_reverse.mp hr), ?_⟩
  rw [List.isChain_reverse]
  refine h.turn.imp ?_
  intro r r' hturn hne
  rw [Nat.mul_comm]
  exact hturn hne.symm

theorem booked_foldl (h : NoOverflow (fills ++ [last])) :
    Booked last fills.reverse ((fills ++ [last]).foldl PositionInfo.addFill init) := by
  rw [← List.foldr_reverse, List.reverse_append]
  exact booked_foldr (noOverflow_reverse h)

/-- The identity in the terms of the books: what is left of it is the value of the fills before the
last one, and that a closed position has no cost. -/
theorem Booked.pnlIdentity_iff (h : Booked last fills.reverse p) (hlast : last.Small) :
    p.PnlIdentity (fills ++ [last]) last.price ↔
      closedValue (last :: fills.reverse) = netQty fills * last.price.toNat ∧
        (netQty (fills ++ [last]) = 0 → openCost (last :: fills.reverse) = 0) := by
  have hpaid : paid (fills ++ [last]) = paid (last :: fills.reverse) := by
    rw [← paid_reverse, List.reverse_append]
    rfl
  have htotal : p.totalPnl = closedValue (last :: fills.reverse) - paid (fills ++ [last]) +
      last.side.sign * last.cost := by
    rw [h.totalPnl, h.unrealPnl, h.realPnl, hpaid]
    ring
  have hmark : (netQty (fills ++ [last]) : ℚ) * last.price.toNat =
      netQty fills * last.price.toNat + last.side.sign * last.cost := by
    rw [netQty_append, netQty_singleton, signedQty, cost]
    push_cast
    ring
  constructor
  · intro hid
    have hsum := hid.totalPnl
    rw [htotal, hmark] at hsum
    refine ⟨by linarith, fun hnet => ?_⟩
    obtain ⟨hbuy, hsell, -⟩ := hid.flat hnet
    rw [← h.openVwap]
    rcases hlast.side with hside | hside <;> rw [hside] <;> assumption
  · rintro ⟨hclosed, hflat⟩
    refine ⟨?_, h.totalPnl.trans (add_comm _ _), fun hnet => ?_⟩
    · rw [htotal, hmark, hclosed]
      ring
    · have hopen := hflat hnet
      have hcost : last.cost = 0 :=
        le_antisymm (hopen ▸ cost_le_openCost last fills.reverse) last.cost_nonneg
      have hunreal : p.unrealPnl = 0 := by
        rw [h.unrealPnl, hopen, hcost, sub_zero, mul_zero]
      have hside := h.openVwap.trans hopen
      have hopposite := h.openVwap_opposite
      rcases hlast.side with heq | heq <;> rw [heq] at hside hopposite
      · exact ⟨hside, hopposite, hunreal⟩
      · exact ⟨hopposite, hside, hunreal⟩

/-- **When the identity holds**: exactly if the changes of side have closed the fills before the last
one at the value that these have at its price and, where all fills add up to no position, nothing has
been paid for what is open. -/
theorem foldl_pnlIdentity_iff (h : NoOverflow (fills ++ [last])) :
    ((fills ++ [last]).foldl PositionInfo.addFill init).PnlIdentity (fills ++ [last]) last.price ↔
      closedValue (last :: fills.reverse) = netQty fills * last.price.toNat ∧
        (netQty (fills ++ [last]) = 0 → openCost (last :: fills.reverse) = 0) :=
  (booked_foldl h).pnlIdentity_iff
    (h.small last (List.mem_append_right fills (List.mem_singleton_self last)))

/-- A fill of `qty` shares at `price`. -/
def fillOf (side : Side) (price : Price) (qty : Qty) : MEClientResponse :=
  { type := .filled, side := side, price := price, execQty := qty }

/-- A buy and then a larger sale. -/
theorem foldl_pnlIdentity_flip :
    ([fillOf .buy 100 10, fillOf .sell 110 25].foldl PositionInfo.addFill init).PnlIdentity
        [fillOf .buy 100 10, fillOf .sell 110 25] 110 := by
  refine (@foldl_pnlIdentity_iff [fillOf .buy 100 10] (fillOf .sell 110 25) (by decide)).mpr ⟨?_, ?_⟩
  · simp only [fillOf, List.reverse_singleton, closedValue, openCost, closedAt, cost, signedQty,
      netQty_singleton, Side.sign, reduceCtorEq, if_false, UInt32.reduceToNat, UInt64.reduceToNat]
    norm_num
  · intro hnet
    exact absurd hnet (by decide)

/-- Two buys of ten shares, the second at a price that is higher by ten: the profit of 100 is a loss of
1000 to the code, which holds both costs against the ten shares of the second. -/
theorem not_pnlIdentity_two_buys :
    ¬ ([fillOf .buy 100 10, fillOf .buy 110 10].foldl PositionInfo.addFill init).PnlIdentity
        [fillOf .buy 100 10, fillOf .buy 110 10] 110 := by
  have hbooked := @booked_foldl [fillOf .buy 100 10] (fillOf .buy 110 10) (by decide)
  intro hid
  have hclosed := ((hbooked.pnlIdentity_iff (by decide)).mp hid).1
  simp [closedValue, fillOf, signedQty, Side.sign] at hclosed

/-- Fills of one side close nothing. -/
theorem closedValue_one_side {side : Side} {history : List MEClientResponse}
    (hsides : ∀ r ∈ history, r.side = side) : closedValue history = 0 := by
  induction history with
  | nil => rfl
  | cons r rest ih =>
    cases rest with
    | nil => rfl
    | cons r' rs =>
      have hr := hsides r List.mem_cons_self
      have hr' := hsides r' (List.mem_cons_of_mem r List.mem_cons_self)
      exact (if_pos (hr.trans hr'.symm)).trans (ih fun x hx => hsides x (List.mem_cons_of_mem r hx))

theorem netQty_one_side {side : Side} (hsides : ∀ r ∈ fills, r.side = side) :
    netQty fills = side.sign * tradedQty fills := by
  induction fills with
  | nil => exact (Int.mul_zero _).symm
  | cons r rs ih =>
    have hr := hsides r List.mem_cons_self
    rw [← List.singleton_append, netQty_append, tradedQty_append, netQty_singleton,
      tradedQty_singleton, ih fun x hx => hsides x (List.mem_cons_of_mem r hx), signedQty, hr]
    push_cast
    ring

/-- Fills of one side only: with a second fill the identity is lost, unless the last price is zero. -/
theorem foldl_pnlIdentity_one_side {side : Side} (h : NoOverflow (fills ++ [last]))
    (hsides : ∀ r ∈ fills ++ [last], r.side = side) :
    ((fills ++ [last]).foldl PositionInfo.addFill init).PnlIdentity (fills ++ [last]) last.price ↔
      fills = [] ∨ last.price = 0 := by
  have hlast := h.small last (List.mem_append_right fills (List.mem_singleton_self last))
  have hsign : side.sign ≠ 0 := by
    rw [← hsides last (List.mem_append_right fills (List.mem_singleton_self last))]
    rcases hlast.side with hside | hside <;> rw [hside] <;> decide
  have hclosed : closedValue (last :: fills.reverse) = 0 := by
    apply @closedValue_one_side side
    intro r hr
    rw [List.mem_cons, List.mem_reverse] at hr
    rcases hr with rfl | hr
    · exact hsides r (List.mem_append_right fills (List.mem_singleton_self r))
    · exact hsides r (List.mem_append_left [last] hr)
  have hpos := fun r hr => (h.small r hr).execQty_pos
  have hall : netQty (fills ++ [last]) ≠ 0 := by
    have htraded := tradedQty_pos hpos (List.concat_ne_nil last fills)
    rw [netQty_one_side hsides]
    exact mul_ne_zero hsign (Int.natCast_ne_zero.mpr htraded.ne')
  have hbefore : netQty fills = 0 ↔ fills = [] := by
    constructor
    · intro hzero
      by_contra hne
      have htraded := tradedQty_pos (fun r hr => hpos r (List.mem_append_left [last] hr)) hne
      rw [netQty_one_side fun r hr => hsides r (List.mem_append_left [last] hr)] at hzero
      exact mul_ne_zero hsign (Int.natCast_ne_zero.mpr htraded.ne') hzero
    · rintro rfl
      rfl
  rw [(booked_foldl h).pnlIdentity_iff hlast, hclosed, ← hbefore, eq_comm, mul_eq_zero,
    Int.cast_eq_zero, Nat.cast_eq_zero, ← UInt64.toNat_zero, UInt64.toNat_inj]
  exact and_iff_left fun hnet => absurd hnet hall

/-- What fills of one side have cost. -/
theorem openCost_one_side {side : Side} {history : List MEClientResponse}
    (hsides : ∀ r ∈ history, r.side = side) : openCost history = (history.map (·.cost)).sum := by
  induction history with
  | nil => rfl
  | cons r rest ih =>
    cases rest with
    | nil => exact List.sum_singleton.symm
    | cons r' rs =>
      have hr := hsides r List.mem_cons_self
      have hr' := hsides r' (List.mem_cons_of_mem r List.mem_cons_self)
      unfold openCost
      rw [if_pos (hr.trans hr'.symm), ih fun x hx => hsides x (List.mem_cons_of_mem r hx), add_comm]
      exact List.sum_cons.symm

/-- One change of side: fills of one side that have cost `C` for `Q` shares, the last of them `q'`, and then
a fill of the other side, of `q` shares at `p`. The code closes `q'` shares at most. -/
theorem foldl_pnlIdentity_one_turn {before : List MEClientResponse} {r' : MEClientResponse} {side : Side}
    (h : NoOverflow (before ++ [r'] ++ [last])) (hsides : ∀ r ∈ before ++ [r'], r.side = side)
    (hturn : last.side ≠ side) {C Q q q' p : ℚ} (hC : C = ((before ++ [r']).map (·.cost)).sum)
    (hQ : Q = tradedQty (before ++ [r'])) (hq : q = last.execQty.toNat) (hq' : q' = r'.execQty.toNat)
    (hp : p = last.price.toNat) :
    ((before ++ [r'] ++ [last]).foldl PositionInfo.addFill init).PnlIdentity (before ++ [r'] ++ [last])
        last.price ↔
      q' * (C - Q * p) = min q q' * (C - q' * p) ∧ (Q = q → p = 0) := by
  have hlast := h.small last (List.mem_append_right _ (List.mem_singleton_self last))
  have hmem : r' ∈ before ++ [r'] := List.mem_append_right before (List.mem_singleton_self r')
  have hr' := h.small r' (List.mem_append_left [last] hmem)
  have hside' : r'.side = side := hsides r' hmem
  have hne : last.side ≠ r'.side := fun heq => hturn (heq.trans hside')
  have hsign : (side.sign : ℚ) ≠ 0 := by
    rw [← hside']
    rcases hr'.side with hside | hside <;> rw [hside] <;> decide
  have hopposite : last.side.sign = -side.sign := by
    rw [← hside']
    exact hlast.sign_eq_neg hr' hne
  have hhistory : ∀ r ∈ r' :: before.reverse, r.side = side := by
    intro r hr
    apply hsides
    rw [← List.mem_reverse, List.reverse_append]
    exact hr
  have hopen : openCost (r' :: before.reverse) = C := by
    rw [openCost_one_side hhistory, hC, ← List.sum_reverse, ← List.map_reverse, List.reverse_cons,
      List.reverse_reverse]
  have hclosed : closedValue (last :: (before ++ [r']).reverse) =
      side.sign * (C - min q q' / q' * (C - q' * p)) := by
    rw [List.reverse_append, List.reverse_singleton, List.singleton_append, closedValue, if_neg hne,
      closedValue_one_side hhistory, hopen, hside', zero_add, closedAt, hq, hq', hp]
  have hcost : openCost (last :: (before ++ [r']).reverse) = p * q := by
    rw [List.reverse_append, List.reverse_singleton, List.singleton_append, openCost, if_neg hne, hp, hq]
    rfl
  have hnet : netQty (before ++ [r'] ++ [last]) = 0 ↔ Q = q := by
    rw [netQty_append, netQty_singleton, netQty_one_side hsides, signedQty, hopposite, Int.neg_mul,
      add_neg_eq_zero, mul_right_inj' (Int.cast_ne_zero.mp hsign), hQ, hq, Nat.cast_inj, Nat.cast_inj]
  have hq'pos : q' ≠ 0 := by
    rw [hq']
    exact Nat.cast_ne_zero.mpr hr'.execQty_pos.ne'
  have hqpos : q ≠ 0 := by
    rw [hq]
    exact Nat.cast_ne_zero.mpr hlast.execQty_pos.ne'
  rw [(booked_foldl h).pnlIdentity_iff hlast, hclosed, hcost, hnet, netQty_one_side hsides]
  apply and_congr
  · push_cast
    rw [← hQ, ← hp, mul_assoc, mul_right_inj' hsign]
    field_simp
    constructor
    · intro heq
      linarith
    · intro heq
      linarith
  · rw [mul_eq_zero, or_iff_left hqpos]

/-- Two fills of different sides: the second is the larger one, or is at the price of the first; and where
they are of the same size it is at zero. -/
theorem foldl_pnlIdentity_two {r' : MEClientResponse} (h : NoOverflow [r', last])
    (hturn : last.side ≠ r'.side) :
    ([r', last].foldl PositionInfo.addFill init).PnlIdentity [r', last] last.price ↔
      (r'.execQty.toNat ≤ last.execQty.toNat ∨ last.price = r'.price) ∧
        (r'.execQty.toNat = last.execQty.toNat → last.price = 0) := by
  have hr' := h.small r' List.mem_cons_self
  have hpos : (r'.execQty.toNat : ℚ) ≠ 0 := Nat.cast_ne_zero.mpr hr'.execQty_pos.ne'
  have h' : NoOverflow ([] ++ [r'] ++ [last]) := h
  have hiff := foldl_pnlIdentity_one_turn h' (by simp) hturn rfl rfl rfl rfl rfl
  have hcost : (([] ++ [r']).map MEClientResponse.cost).sum = (r'.price.toNat : ℚ) * r'.execQty.toNat :=
    List.sum_singleton
  have htraded : tradedQty ([] ++ [r']) = r'.execQty.toNat := List.sum_singleton
  rw [hcost, htraded, Nat.cast_inj, Nat.cast_eq_zero, ← UInt64.toNat_zero, UInt64.toNat_inj] at hiff
  refine hiff.trans (and_congr_left fun _ => ?_)
  rw [← UInt64.toNat_inj, ← Nat.cast_inj (R := ℚ), eq_comm (a := (last.price.toNat : ℚ))]
  have hfactor : (r'.execQty.toNat : ℚ) *
        (r'.price.toNat * r'.execQty.toNat - r'.execQty.toNat * last.price.toNat) =
      min (last.execQty.toNat : ℚ) r'.execQty.toNat *
        (r'.price.toNat * r'.execQty.toNat - r'.execQty.toNat * last.price.toNat) ↔
      (r'.execQty.toNat : ℚ) = min (last.execQty.toNat : ℚ) r'.execQty.toNat ∨
        (r'.price.toNat : ℚ) = last.price.toNat := by
    rw [mul_eq_mul_right_iff, sub_eq_zero, mul_comm (r'.price.toNat : ℚ), mul_right_inj' hpos]
  rw [hfactor, eq_comm (a := (r'.execQty.toNat : ℚ)), min_eq_right_iff, Nat.cast_le]

end PositionInfo

end TradingSystem
