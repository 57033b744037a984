import TradingSystem.Client.PositionKeeper
import TradingSystem.Lib.Run

/-!
# What is kept of a run of fills

`PositionKeeper::addFill`, over all fills of a ticker. A fill assigns its quantity to `volume_` and its
signed quantity to `position_`, where both should be added to: what a position was before a fill does
not count in what it is after it. So the volume is right after one fill and never again, and the
position is right if what was filled before the last fill adds up to nothing.
-/

namespace TradingSystem

/-- `+1` for a buy, `-1` for a sell. -/
def Side.sign : Side → ℤ
  | .buy => 1
  | .sell => -1
  | _ => 0

namespace MEClientResponse

/-- What a fill adds to the position. -/
def signedQty (r : MEClientResponse) : ℤ := r.side.sign * r.execQty.toNat

/-- A fill of an order for ticker `t`. -/
structure IsFill (t : TickerId) (r : MEClientResponse) : Prop where
  type : r.type = .filled
  tickerId : r.tickerId = t
  side : r.side = .buy ∨ r.side = .sell
  execQty : 0 < r.execQty

instance decidableIsFill (t : TickerId) (r : MEClientResponse) : Decidable (r.IsFill t) :=
  decidable_of_iff
    (r.type = .filled ∧ r.tickerId = t ∧ (r.side = .buy ∨ r.side = .sell) ∧ 0 < r.execQty)
    ⟨fun ⟨h₁, h₂, h₃, h₄⟩ => ⟨h₁, h₂, h₃, h₄⟩, fun ⟨h₁, h₂, h₃, h₄⟩ => ⟨h₁, h₂, h₃, h₄⟩⟩

theorem IsFill.execQty_pos {t : TickerId} {r : MEClientResponse} (h : r.IsFill t) :
    0 < r.execQty.toNat :=
  UInt32.lt_iff_toNat_lt.mp h.execQty

end MEClientResponse

/-- The position that a run of fills makes. -/
def netQty (fills : List MEClientResponse) : ℤ := (fills.map (·.signedQty)).sum

/-- What a run of fills trades. -/
def tradedQty (fills : List MEClientResponse) : Nat := (fills.map (·.execQty.toNat)).sum

@[simp] theorem netQty_nil : netQty [] = 0 := rfl

@[simp] theorem netQty_append (xs ys : List MEClientResponse) :
    netQty (xs ++ ys) = netQty xs + netQty ys := by
  unfold netQty
  rw [List.map_append, List.sum_append]

@[simp] theorem netQty_singleton (r : MEClientResponse) : netQty [r] = r.signedQty :=
  List.sum_singleton

@[simp] theorem tradedQty_append (xs ys : List MEClientResponse) :
    tradedQty (xs ++ ys) = tradedQty xs + tradedQty ys := by
  unfold tradedQty
  rw [List.map_append, List.sum_append]

@[simp] theorem tradedQty_singleton (r : MEClientResponse) : tradedQty [r] = r.execQty.toNat :=
  List.sum_singleton

theorem tradedQty_pos {fills : List MEClientResponse} (hfills : ∀ r ∈ fills, 0 < r.execQty.toNat)
    (hne : fills ≠ []) : 0 < tradedQty fills := by
  cases fills with
  | nil => exact absurd rfl hne
  | cons r rs =>
    have hr := hfills r List.mem_cons_self
    show 0 < (r.execQty.toNat :: rs.map (·.execQty.toNat)).sum
    rw [List.sum_cons]
    exact Nat.add_pos_left hr _

/-- The range of `int32_t`. -/
def InInt32 (x : ℤ) : Prop := -2 ^ 31 ≤ x ∧ x < 2 ^ 31

instance decidableInInt32 (x : ℤ) : Decidable (InInt32 x) := inferInstanceAs (Decidable (_ ∧ _))

section

variable {D : Type} [Add D] [Sub D] [Mul D] [Div D] [IntCast D]
variable {t : TickerId} {fills : List MEClientResponse} {r : MEClientResponse}

namespace PositionInfo

@[simp] theorem addFill_volume (p : PositionInfo D) (r : MEClientResponse) :
    (p.addFill r).volume = r.execQty := by
  unfold addFill
  dsimp only
  split_ifs <;> rfl

theorem addFill_position (p : PositionInfo D) (r : MEClientResponse) :
    (p.addFill r).position = (r.execQty * r.side.toValue.toUInt32).toInt32 := by
  unfold addFill
  dsimp only
  split_ifs <;> rfl

/-- The position after a fill is the signed quantity of the fill alone. -/
theorem toInt_addFill_position (p : PositionInfo D) (hside : r.side = .buy ∨ r.side = .sell) :
    (p.addFill r).position.toInt = r.signedQty.bmod (2 ^ 32) := by
  rw [addFill_position, UInt32.toInt32_mul, Int32.toInt_mul, Int32.toInt32_toUInt32]
  have hqty : r.execQty.toInt32.toInt = (r.execQty.toNat : ℤ).bmod (2 ^ 32) :=
    BitVec.toInt_eq_toNat_bmod _
  have hvalue : r.side.toValue.toInt = r.side.sign := by
    rcases hside with h | h <;> rw [h] <;> decide
  rw [hqty, hvalue, Int.bmod_mul_bmod, Int.mul_comm]
  rfl

end PositionInfo

namespace PositionKeeper

/-- A run of fills of one ticker is a run on its position. -/
theorem foldlM_addFill (hticker : t.toNat < meMaxTickers) (hfills : ∀ r ∈ fills, r.tickerId = t)
    (k : PositionKeeper D) :
    fills.foldlM addFill k =
      .ok (Function.update k t (fills.foldl PositionInfo.addFill (k t))) := by
  induction fills generalizing k with
  | nil => exact congrArg Except.ok (Function.update_eq_self t k).symm
  | cons r rs ih =>
    have hr := hfills r List.mem_cons_self
    have hstep : k.addFill r = .ok (Function.update k t ((k t).addFill r)) := by
      unfold addFill
      rw [hr, if_pos hticker]
    rw [List.foldlM_cons, hstep]
    show rs.foldlM addFill _ = _
    rw [ih fun r' hmem => hfills r' (List.mem_cons_of_mem r hmem), Function.update_idem,
      Function.update_self]
    rfl

end PositionKeeper

namespace PositionInfo

/-- **When the position is right**: exactly if the fills before the last one make no position. -/
theorem foldl_position_iff (hside : r.side = .buy ∨ r.side = .sell)
    (hbefore : InInt32 (netQty fills)) (hall : InInt32 (netQty (fills ++ [r])))
    (p : PositionInfo D) :
    ((fills ++ [r]).foldl addFill p).position.toInt = netQty (fills ++ [r]) ↔ netQty fills = 0 := by
  rw [List.foldl_append, List.foldl_cons, List.foldl_nil, toInt_addFill_position _ hside]
  rw [netQty_append, netQty_singleton] at hall ⊢
  unfold InInt32 at hbefore hall
  rw [Int.bmod_eq_iff (by decide)]
  omega

/-- The volume is right exactly after the first fill. -/
theorem foldl_volume_iff (hfills : ∀ r ∈ fills, r.IsFill t) (p : PositionInfo D) :
    ((fills ++ [r]).foldl addFill p).volume.toNat = tradedQty (fills ++ [r]) ↔ fills = [] := by
  rw [List.foldl_append, List.foldl_cons, List.foldl_nil, addFill_volume, tradedQty_append,
    tradedQty_singleton]
  constructor
  · intro heq
    by_contra hne
    have hpos := tradedQty_pos (fun r hr => (hfills r hr).execQty_pos) hne
    omega
  · rintro rfl
    exact (Nat.zero_add _).symm

end PositionInfo

/-- **When positions accumulate**: for one fill, and for no run of two or more. -/
theorem PositionKeeper.addFill_accumulates_iff (hticker : t.toNat < meMaxTickers)
    (hfills : ∀ r ∈ fills, r.IsFill t) (hsums : ∀ pre ∈ fills.inits, InInt32 (netQty pre)) :
    ∃ k : PositionKeeper D, fills.foldlM PositionKeeper.addFill .init = .ok k ∧
      ((k t).position.toInt = netQty fills ∧ (k t).volume.toNat = tradedQty fills ↔
        fills.length ≤ 1) := by
  refine ⟨_, PositionKeeper.foldlM_addFill hticker (fun r hr => (hfills r hr).tickerId) _, ?_⟩
  rw [Function.update_self]
  rcases List.eq_nil_or_concat fills with rfl | ⟨before, last, rfl⟩
  · exact iff_of_true ⟨rfl, rfl⟩ (Nat.zero_le 1)
  · rw [List.concat_eq_append] at hfills hsums ⊢
    have hlast := hfills last (List.mem_append_right before (List.mem_singleton_self last))
    have hbefore : ∀ r ∈ before, r.IsFill t := fun r hr => hfills r (List.mem_append_left _ hr)
    have hnet := hsums before ((List.mem_inits _ _).mpr (List.prefix_append before [last]))
    have hall := hsums (before ++ [last]) ((List.mem_inits _ _).mpr (List.prefix_refl _))
    rw [PositionInfo.foldl_position_iff hlast.side hnet hall, PositionInfo.foldl_volume_iff hbefore,
      List.length_append, List.length_singleton]
    constructor
    · rintro ⟨-, rfl⟩
      exact Nat.le_refl 1
    · intro hlen
      obtain rfl := List.eq_nil_of_length_eq_zero (l := before) (by omega)
      exact ⟨rfl, rfl⟩

end

/-- A buy of five shares. -/
theorem PositionKeeper.addFill_accumulates_one :
    ∃ k : PositionKeeper ℚ,
      [{ type := .filled, tickerId := 3, side := .buy, price := 100, execQty := 5 }].foldlM
        PositionKeeper.addFill .init = .ok k ∧
      ((k 3).position.toInt =
          netQty [{ type := .filled, tickerId := 3, side := .buy, price := 100, execQty := 5 }] ∧
        (k 3).volume.toNat =
          tradedQty [{ type := .filled, tickerId := 3, side := .buy, price := 100, execQty := 5 }] ↔
        1 ≤ 1) :=
  PositionKeeper.addFill_accumulates_iff (by decide) (by decide) (by decide)

/-- Five shares and then three are bought; the keeper has three. -/
theorem PositionKeeper.not_accumulated_two_buys :
    ∃ fills : List MEClientResponse,
      (∀ r ∈ fills, r.IsFill 3) ∧ (∀ pre ∈ fills.inits, InInt32 (netQty pre)) ∧
      ∃ k : PositionKeeper ℚ, fills.foldlM PositionKeeper.addFill .init = .ok k ∧
        (k 3).position.toInt = 3 ∧ netQty fills = 8 ∧
        (k 3).volume.toNat = 3 ∧ tradedQty fills = 8 := by
  refine ⟨[{ type := .filled, tickerId := 3, side := .buy, price := 100, execQty := 5 },
    { type := .filled, tickerId := 3, side := .buy, price := 100, execQty := 3 }],
    by decide, by decide, _,
    PositionKeeper.foldlM_addFill (t := 3) (by decide) (by decide) _, ?_, rfl, ?_, rfl⟩
  · rw [Function.update_self, List.foldl_cons, List.foldl_cons, List.foldl_nil,
      PositionInfo.addFill_position]
    rfl
  · rw [Function.update_self, List.foldl_cons, List.foldl_cons, List.foldl_nil,
      PositionInfo.addFill_volume]
    rfl

end TradingSystem
