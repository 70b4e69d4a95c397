import Montage.Position.Axis
import Montage.Proofs.Expr.Alike

/-!
# Placing settled positions

A position and the same position settled are placed by expressions that are alike: the zero that
nobody gave is added as a whole number in the one and as a quantity in the other.
-/

set_option autoImplicit false

namespace Montage

variable [Rounding]

namespace Expr

/-- The sum of two offsets, and the sum in which the second and perhaps the first are settled. -/
theorem add_offsets (hzero : Rounding.round 0 = .finite 0) {m n d : Number} (hm : m.IsOffset)
    (hn : n = m ∨ n = m.settled) (hd : d.IsOffset) :
    Agree Alike ((Expr.num m).add (.num d)) ((Expr.num n).add (.num d.settled)) := by
  have hsum : (Quantity.finite 0).add (.finite 0) = .finite 0 := by
    rw [Quantity.add, Rat.add_zero, hzero]
  have hadd (a b : Number) : (Expr.num a).add (.num b) = (a.add b).map Expr.num := rfl
  have hreal (x y : Quantity) : (Number.real x).add (.real y) = .ok (.real (x.add y)) := rfl
  have hright (x : Quantity) : (Number.real x).add 0 = .ok (.real (x.add (.finite 0))) :=
    Number.combine_real_zero hzero _ _ x
  have hleft (x : Quantity) :
      (0 : Number).add (.real x) = .ok (.real (Quantity.add (.finite 0) x)) :=
    Number.combine_zero_real hzero _ _ x
  obtain rfl | ⟨x, rfl⟩ := hm
  · obtain rfl | ⟨y, rfl⟩ := hd
    · rw [hadd, hadd, Number.settled_zero]
      obtain rfl | rfl := hn
      · rw [hleft, hsum]
        exact .ok .zero
      · rw [Number.settled_zero, hreal, hsum]
        exact .ok .zero
    · rw [hadd, hadd, hleft, Number.settled_real]
      obtain rfl | rfl := hn
      · rw [hleft]
        exact .ok (.refl _)
      · rw [Number.settled_zero, hreal]
        exact .ok (.refl _)
  · obtain rfl : n = .real x := by simpa [Number.settled_real] using hn
    obtain rfl | ⟨y, rfl⟩ := hd
    · rw [hadd, hadd, hright, Number.settled_zero, hreal]
      exact .ok (.refl _)
    · exact .refl .refl _

/-- An offset is added to what is no constant, and a zero of either kind is dropped. -/
theorem add_offset_of_isOpen {a b : Expr} (h : Alike a b) (ha : a.IsOpen) (hb : b.IsOpen)
    {offset : Number} (hoffset : offset.IsOffset) :
    Agree Alike (a.add (.num offset)) (b.add (.num offset.settled)) := by
  rw [add, add, combine_of_isOpen (.inl ha), combine_of_isOpen (.inl hb)]
  obtain rfl | ⟨x, rfl⟩ := hoffset
  · have hwhole : (Expr.num 0).isConstant 0 = true := by decide
    have hreal : (Expr.num (Number.settled 0)).isConstant 0 = true := by decide
    simp only [simplified, isConstant_of_isOpen ha, isConstant_of_isOpen hb, hwhole, hreal,
      Bool.false_eq_true, if_false, if_true]
    exact .ok h
  · exact .ok (h.simplified (.inl rfl) ha hb _)

/-- **Alike expressions stay alike** when an offset is added to the one and the same offset,
settled, to the other. -/
theorem add_settled (hzero : Rounding.round 0 = .finite 0) {a b : Expr} (h : Alike a b)
    (hconstant : ∀ n, a = .num n → n.IsOffset) {offset : Number} (hoffset : offset.IsOffset) :
    Agree Alike (a.add (.num offset)) (b.add (.num offset.settled)) := by
  cases h with
  | refl e =>
    by_cases hopen : a.IsOpen
    · exact add_offset_of_isOpen (.refl a) hopen hopen hoffset
    · obtain ⟨n, rfl⟩ : ∃ n, a = .num n := by simpa [IsOpen] using hopen
      exact add_offsets hzero (hconstant n rfl) (.inl rfl) hoffset
  | zero => exact add_offsets hzero (.inl rfl) (.inr rfl) hoffset
  | binary operation h c =>
    exact add_offset_of_isOpen (.binary operation h c) (isOpen_binary _ _ _) (isOpen_binary _ _ _)
      hoffset

end Expr

/-! ## Both axes -/

/-- What the coordinate comes to is a number that may stand in a position, if it is a number. -/
theorem Placement.base_isOffset {placement : Placement} {canvas : String} {base : Expr}
    (hpixels : ∀ n, placement = .pixels n → n.IsOffset)
    (h : placement.base (.expr (.var canvas)) = .ok base) : ∀ n, base = .num n → n.IsOffset := by
  cases placement with
  | percent x =>
    obtain ⟨share, -, h⟩ := bind_eq_ok.mp h
    exact fun n hn ↦ .inl (Expr.mul_isVariable (.inl (Expr.isOpen_var canvas)) h n hn)
  | pixels n =>
    cases pure_eq_ok.mp h
    rintro _ ⟨⟩
    exact hpixels n rfl
  | expression text =>
    cases pure_eq_ok.mp h
    rintro _ ⟨⟩

omit [Rounding] in
theorem classifyText_isOffset {s : String} {n : Number}
    (h : classifyText s = .pixels n) : n.IsOffset := by
  unfold classifyText at h
  dsimp only at h
  split at h
  · cases h
  · split at h
    · cases h
      exact .inr ⟨_, rfl⟩
    · cases h

/-- A coordinate and the settled coordinate come to what is alike. -/
theorem Coordinate.base_settled {coordinate : Coordinate} (valid : coordinate.IsValid)
    (canvas : String) :
    Agree (fun a b ↦ Expr.Alike a b ∧ ∀ n, a = .num n → n.IsOffset)
      (coordinate.classify.base (.expr (.var canvas)))
      (coordinate.settled.classify.base (.expr (.var canvas))) := by
  cases coordinate with
  | text s =>
    show Agree _ ((classifyText s).base _) ((classifyText s).base _)
    cases hbase : (classifyText s).base (.expr (.var canvas)) with
    | error e => exact .error e
    | ok base =>
      exact .ok ⟨.refl base, Placement.base_isOffset (fun _ ↦ classifyText_isOffset) hbase⟩
  | num n =>
    refine .ok ⟨?_, by rintro _ ⟨⟩; exact valid⟩
    obtain rfl | ⟨x, rfl⟩ := valid
    · exact .zero
    · exact .refl _

/-- Less the share of an extent, what is alike stays alike. -/
theorem lessShare_alike (hzero : Rounding.round 0 = .finite 0) {a b : Expr} (h : Expr.Alike a b)
    (extent : String) (share : Json) :
    Agree Expr.Alike (lessShare a (.expr (.var extent)) share)
      (lessShare b (.expr (.var extent)) share) := by
  rw [lessShare, lessShare]
  split
  · refine .after _ fun e he ↦ .after _ fun half hhalf ↦ ?_
    cases he
    exact h.combine hzero (.inr rfl) (Expr.div_isVariable (Expr.isOpen_var extent) hhalf)
  split
  · refine .after _ fun e he ↦ .after _ fun factor _ ↦ .after _ fun part hpart ↦ ?_
    cases he
    exact h.combine hzero (.inr rfl) (Expr.mul_isVariable (.inl (Expr.isOpen_var extent)) hpart)
  · exact .ok h

/-- One axis of a position and of the settled position. -/
theorem Coordinate.resolve_settled (hzero : Rounding.round 0 = .finite 0)
    {coordinate : Coordinate} (valid : coordinate.IsValid) {offset : Number}
    (hoffset : offset.IsOffset) (canvas extent : String) (share : Json) :
    Agree Expr.Alike
      (coordinate.resolve (.expr (.var canvas)) (.expr (.var extent)) share (.expr (.num offset)))
      (coordinate.settled.resolve (.expr (.var canvas)) (.expr (.var extent)) share
        (.expr (.num offset.settled))) := by
  refine .bind (base_settled valid canvas) fun a b hbase ↦ ?_
  obtain ⟨halike, hconstant⟩ := hbase
  refine .bind (Expr.add_settled hzero halike hconstant hoffset) fun _ _ hmoved ↦ ?_
  exact lessShare_alike hzero hmoved extent share

/-- **A position and the settled position are placed alike.** -/
theorem Position.resolve_settled (hzero : Rounding.round 0 = .finite 0) {position : Position}
    (valid : position.IsValid) (frame : Frame) :
    Agree (fun a b ↦ Expr.Alike a.1 b.1 ∧ Expr.Alike a.2 b.2) (position.resolve frame)
      (position.settled.resolve frame) := by
  refine .bind (Coordinate.resolve_settled hzero valid.x valid.dx _ _ _) fun _ _ hx ↦ ?_
  refine .bind (Coordinate.resolve_settled hzero valid.y valid.dy _ _ _) fun _ _ hy ↦ ?_
  exact .ok ⟨hx, hy⟩

end Montage
