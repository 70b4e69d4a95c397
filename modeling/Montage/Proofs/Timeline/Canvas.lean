import Mathlib.Algebra.Group.Int.Even
import Montage.Proofs.Number.Landing
import Montage.Proofs.Number.Row
import Montage.Proofs.Number.Same
import Montage.Proofs.Number.Shortest
import Montage.Proofs.Timeline.Options

/-!
# The canvas

The canvas of valid options is the size that was set, one of a table, or what a ratio leads to: 1080
rows, and as many pixels in a row as the ratio says, made even.  The last one does not always exist.
A ratio is checked by its form alone, so that its second side may be zero, and its sides may have
more digits than the grid has room for.  `RenderOptions.HasCanvas` says that nothing of this
happens.

Where a canvas exists, its sides are positive, those that come from a ratio are even, and the width
differs from the quotient that was rounded by at most one (`canvas_usable`).
-/

set_option autoImplicit false

namespace Montage

/-! ## Sides of a ratio -/

/-- A side of a ratio writes a number with digits and, if there is a point, more of them behind
it. -/
def IsSide (s : List Char) (value : Rat) : Prop :=
  ∃ whole fraction, IsRow s whole fraction ∧ whole ≠ [] ∧ ('.' ∈ s → fraction ≠ [])
    ∧ value = rowValue whole fraction

/-- A text that writes two numbers with a colon between them, and white space around them. -/
def IsRatio (s : String) (a b : Rat) : Prop :=
  ∃ front back, s.toList = front ++ ':' :: back ∧ ':' ∉ front ∧ ':' ∉ back
    ∧ IsSide (trim front) a ∧ IsSide (trim back) b

theorem IsSide.nonneg {s : List Char} {value : Rat} (h : IsSide s value) : 0 ≤ value := by
  obtain ⟨whole, fraction, -, -, -, rfl⟩ := h
  exact rowValue_nonneg whole fraction

theorem point_not_mem {s : List Char} (hs : ∀ c ∈ s, isDecimal c = true) : '.' ∉ s :=
  fun hmem ↦ absurd (hs _ hmem) (by decide)

/-- A side is read as the quantity nearest to the number that it writes. -/
theorem IsSide.ratioSide?_eq {s : List Char} {value : Rat} (h : IsSide s value) :
    ratioSide? s = some (binary64 value) := by
  obtain ⟨whole, fraction, hrow, hwhole, hpoint, rfl⟩ := h
  obtain ⟨hdigits, hfraction⟩ := List.forall_mem_append.mp hrow.digits
  rw [ratioSide?, ← hrow.read]
  obtain rfl | ⟨rfl, rfl⟩ := hrow.text
  · have hsome := hpoint (by simp)
    rw [span_append hdigits (by rintro c ⟨⟩; decide)]
    dsimp only
    rw [if_neg]
    simpa [hwhole, hsome] using hfraction
  · rw [List.span_eq_takeWhile_dropWhile, List.takeWhile_eq_self_iff.mpr hdigits,
      List.dropWhile_eq_nil_iff.mpr hdigits]
    dsimp only
    rw [if_neg]
    simpa using hwhole

/-- What is read as a side is one: the reader has tested the form that a side has. -/
theorem exists_isSide {s : List Char} {x : Quantity} (h : ratioSide? s = some x) :
    ∃ value, IsSide s value := by
  rw [ratioSide?, List.span_eq_takeWhile_dropWhile] at h
  dsimp only at h
  obtain ⟨hform, -⟩ := Option.ite_none_left_eq_some.mp h
  rw [Bool.or_eq_true, not_or, Bool.not_eq_true, List.isEmpty_eq_false_iff,
    Bool.not_eq_true', Bool.not_eq_false] at hform
  obtain ⟨hwhole, hrest⟩ := hform
  have hdigits : ∀ c ∈ s.takeWhile isDecimal, isDecimal c = true :=
    fun c hc ↦ List.mem_takeWhile_imp hc
  have hs : s = s.takeWhile isDecimal ++ s.dropWhile isDecimal :=
    List.takeWhile_append_dropWhile.symm
  split at hrest
  · rename_i hnil
    rw [hnil, List.append_nil] at hs
    refine ⟨_, _, [], ⟨?_, ?_, .inr ⟨hs, rfl⟩⟩, hwhole, fun hmem ↦ ?_, rfl⟩
    · rwa [List.append_nil]
    · rwa [List.append_nil]
    · rw [hs] at hmem
      exact absurd hmem (point_not_mem hdigits)
  · rename_i more hcons
    rw [hcons] at hs
    rw [Bool.and_eq_true, Bool.not_eq_true', List.isEmpty_eq_false_iff, List.all_eq_true] at hrest
    refine ⟨_, _, more, ⟨?_, ?_, .inl hs⟩, hwhole, fun _ ↦ hrest.1, rfl⟩
    · exact List.forall_mem_append.mpr ⟨hdigits, hrest.2⟩
    · exact fun hnil ↦ hwhole (List.append_eq_nil_iff.mp hnil).1
  · cases hrest

/-- **What is read as a side**: the quantity nearest to the number that it writes. -/
theorem ratioSide?_eq_some {s : List Char} {x : Quantity} :
    ratioSide? s = some x ↔ ∃ value, IsSide s value ∧ x = binary64 value := by
  constructor
  · intro h
    obtain ⟨value, hvalue⟩ := exists_isSide h
    rw [hvalue.ratioSide?_eq] at h
    exact ⟨value, hvalue, (Option.some.inj h).symm⟩
  · rintro ⟨value, hvalue, rfl⟩
    exact hvalue.ratioSide?_eq

/-- **What is read as a ratio**: the quantities nearest to the two numbers that it writes. -/
theorem ratioSides?_eq_some {s : String} {x y : Quantity} : ratioSides? s = some (x, y) ↔
    ∃ a b, IsRatio s a b ∧ x = binary64 a ∧ y = binary64 b := by
  rw [ratioSides?]
  constructor
  · intro h
    split at h
    · rename_i front back hsplit
      obtain ⟨x', hx, h⟩ := Option.bind_eq_some_iff.mp h
      obtain ⟨y', hy, h⟩ := Option.bind_eq_some_iff.mp h
      cases h
      obtain ⟨a, ha, rfl⟩ := ratioSide?_eq_some.mp hx
      obtain ⟨b, hb, rfl⟩ := ratioSide?_eq_some.mp hy
      refine ⟨a, b, ⟨front, back, ?_, ?_, ?_, ha, hb⟩, rfl, rfl⟩
      · have hjoin := joinWith_splitAll ':' s.toList
        rw [hsplit] at hjoin
        exact hjoin.symm.trans (List.append_cons front ':' back).symm
      · exact not_mem_of_mem_splitAll (hsplit ▸ List.mem_cons_self)
      · exact not_mem_of_mem_splitAll (hsplit ▸ List.mem_cons_of_mem _ List.mem_cons_self)
    · cases h
  · rintro ⟨a, b, ⟨front, back, htext, hfront, hback, ha, hb⟩, rfl, rfl⟩
    rw [htext, splitAll_part hfront, splitAll_of_not_mem hback]
    dsimp only
    rw [ratioSide?_eq_some.mpr ⟨a, ha, rfl⟩, ratioSide?_eq_some.mpr ⟨b, hb, rfl⟩]
    rfl

section

attribute [local instance] Rounding.binary64

theorem IsRatio.isEmpty_eq {s : String} {a b : Rat} (h : IsRatio s a b) : s.isEmpty = false := by
  obtain ⟨front, back, htext, -⟩ := h
  rw [← Bool.not_eq_true, String.isEmpty_iff]
  rintro rfl
  exact List.append_ne_nil_of_right_ne_nil front (List.cons_ne_nil ':' back) htext.symm

/-! ## The quotient -/

/-- The number of pixels in a row that a ratio leads to with 1080 rows, before it is made even. -/
def ratioWidth (a b : Quantity) : Quantity := ((Quantity.finite 1080).mul a).div b

/-- A quantity whose value, if it has one, is not below zero. -/
def Quantity.IsNotBelowZero (x : Quantity) : Prop := ∀ q, x.value? = some q → 0 ≤ q

theorem isNotBelowZero_binary64 {q : Rat} (hq : 0 ≤ q) : (binary64 q).IsNotBelowZero := by
  intro v hv
  obtain ⟨r, hr, hround⟩ | hround := binary64_keepsSigns.nonnegative q hq
  · rw [show binary64 q = .finite r from hround] at hv
    cases hv
    exact hr
  · rw [show binary64 q = .infinite false from hround] at hv
    cases hv

theorem Quantity.IsNotBelowZero.mul {x y : Quantity} (hx : x.IsNotBelowZero)
    (hy : y.IsNotBelowZero) : (x.mul y).IsNotBelowZero := by
  intro v hv
  rw [Quantity.mul] at hv
  split at hv
  · rename_i p q hp hq
    split at hv
    · rw [Quantity.value?_zero] at hv
      cases hv
      exact le_rfl
    · exact isNotBelowZero_binary64 (mul_nonneg (hx p hp) (hy q hq)) v hv
  all_goals
    split at hv <;> cases hv

theorem Quantity.IsNotBelowZero.div {x y : Quantity} (hx : x.IsNotBelowZero)
    (hy : y.IsNotBelowZero) : (x.div y).IsNotBelowZero := by
  intro v hv
  rw [Quantity.div] at hv
  split at hv
  · rename_i p q hp hq
    split at hv
    · rw [Quantity.value?_zero] at hv
      cases hv
      exact le_rfl
    · exact isNotBelowZero_binary64 (div_nonneg (hx p hp) (hy q hq)) v hv
  · split at hv
    · cases hv
    · rw [Quantity.value?_zero] at hv
      cases hv
      exact le_rfl
  · split at hv <;> cases hv
  · cases hv

/-- **Half of a point of the grid is rounded to a whole number that counts pairs**: twice that
number is off by one at most, unless there is at most one pair. -/
theorem exists_pairs {x : Quantity} {q : Rat} (hx : x.value? = some q) (hq : 0 ≤ q)
    (hgrid : IsOnGrid q) : ∃ n : Nat, (Number.real (x.div (.finite 2))).roundWhole = .ok (n : Int)
      ∧ (n ≤ 1 ∨ |(n * 2 : Rat) - q| ≤ 1) := by
  obtain ⟨v, hv, hnonneg, hhalf⟩ : ∃ v, (x.div (.finite 2)).value? = some v ∧ 0 ≤ v
      ∧ (v < 3 / 4 ∨ v = q / 2) := by
    have htwo : (Quantity.finite 2).value? = some 2 := rfl
    rw [Quantity.div, hx, htwo]
    dsimp only
    by_cases hzero : q = 0
    · exact ⟨0, by rw [if_pos hzero, Quantity.value?_zero], le_rfl, .inl (by norm_num)⟩
    rw [if_neg hzero]
    rcases lt_or_ge q 1 with hsmall | hlarge
    · obtain ⟨v, hv, hnonneg, hnear⟩ := exists_near_binary64_of_nonneg (q := q / 2) (by linarith)
        (lt_binaryLimit (by linarith))
      rw [max_eq_right (by linarith)] at hnear
      exact ⟨v, congrArg Quantity.value? hv, hnonneg, .inl (by linarith [(abs_le.mp hnear).2])⟩
    · exact ⟨q / 2, congrArg Quantity.value? (hgrid.half hlarge), by linarith, .inr rfl⟩
  obtain ⟨n, hn, hnear⟩ := exists_nearestInt hnonneg
  have hnear := abs_le.mp hnear
  refine ⟨n, by rw [Number.roundWhole, hv, ← hn], ?_⟩
  refine hhalf.imp (fun hsmall ↦ ?_) fun heq ↦ abs_le.mpr ⟨by linarith, by linarith⟩
  have : (n : Rat) < 2 := by linarith
  have : n < 2 := by exact_mod_cast this
  omega

/-- The width that counts some pairs, or one pair if there is none. -/
theorem width_of_pairs {n : Nat} {q : Rat} (h : n ≤ 1 ∨ |(n * 2 : Rat) - q| ≤ 1) :
    0 < max 2 ((n : Int) * 2) ∧ Even (max 2 ((n : Int) * 2))
      ∧ (max 2 ((n : Int) * 2) = 2 ∨ |((max 2 ((n : Int) * 2) : Int) : Rat) - q| ≤ 1) := by
  rcases le_or_gt n 1 with hle | hgt
  · rw [max_eq_left (by omega)]
    exact ⟨by decide, by decide, .inl rfl⟩
  · rw [max_eq_right (by omega)]
    refine ⟨by omega, even_two.mul_left _, .inr ?_⟩
    push_cast
    exact h.resolve_left (by omega)

theorem exists_roundWhole_eq_error {x : Quantity} (hx : x.isFinite = false) :
    ∃ e, (Number.real x).roundWhole = .error e := by
  cases x <;> cases hx <;> exact ⟨_, rfl⟩

/-- Numbers that leave room on the grid on either side. -/
def IsOrdinary (q : Rat) : Prop := 1 / 10 ^ 100 ≤ q ∧ q ≤ 10 ^ 100

/-- Three roundings, each of them off by at most a part `e`, and a divisor that is as much off:
together these are at most eight such parts. -/
theorem near_quotient {e a b a' b' w q : Rat} (he : 0 ≤ e) (hsmall : e ≤ 1 / 100) (ha : 0 < a)
    (hb : 0 < b) (ha' : |a' - a| ≤ a * e) (hb' : |b' - b| ≤ b * e)
    (hw : |w - 1080 * a'| ≤ 1080 * a' * e) (hq : |q - w / b'| ≤ w / b' * e) :
    |q - 1080 * a / b| ≤ 1080 * a / b * (8 * e) := by
  rw [abs_le] at ha' hb' hw hq ⊢
  have hless : 0 < 1 - e := by linarith
  have hdivisor : b * (1 - e) ≤ b' ∧ b' ≤ b * (1 + e) := ⟨by linarith, by linarith⟩
  have hpos : 0 < b' := (mul_pos hb hless).trans_le hdivisor.1
  have hwide : 1080 * a * (1 - e) ^ 2 ≤ w ∧ w ≤ 1080 * a * (1 + e) ^ 2 := by
    constructor
    · calc 1080 * a * (1 - e) ^ 2 = 1080 * (a * (1 - e)) * (1 - e) := by ring
        _ ≤ 1080 * a' * (1 - e) := by gcongr; linarith
        _ ≤ w := by linarith
    · calc w ≤ 1080 * a' * (1 + e) := by linarith
        _ ≤ 1080 * (a * (1 + e)) * (1 + e) := by gcongr; linarith
        _ = 1080 * a * (1 + e) ^ 2 := by ring
  have hideal : 0 < 1080 * a / b := by positivity
  constructor
  · have hparts : 1 - 8 * e ≤ (1 - e) ^ 3 / (1 + e) := by
      rw [le_div_iff₀ (by linarith)]
      nlinarith [mul_nonneg he he, mul_nonneg (mul_nonneg he he) hless.le]
    have hbelow : 1080 * a / b * (1 - 8 * e) ≤ q := by
      calc 1080 * a / b * (1 - 8 * e) ≤ 1080 * a / b * ((1 - e) ^ 3 / (1 + e)) := by gcongr
        _ = 1080 * a * (1 - e) ^ 2 / (b * (1 + e)) * (1 - e) := by field_simp
        _ ≤ w / b' * (1 - e) := by
            gcongr
            · exact (by positivity : 0 ≤ 1080 * a * (1 - e) ^ 2).trans hwide.1
            · exact hwide.1
            · exact hdivisor.2
        _ ≤ q := by linarith
    linarith
  · have hparts : (1 + e) ^ 3 / (1 - e) ≤ 1 + 8 * e := by
      rw [div_le_iff₀ hless]
      nlinarith [mul_nonneg he he, mul_nonneg (mul_nonneg he he) hless.le]
    have habove : q ≤ 1080 * a / b * (1 + 8 * e) := by
      calc q ≤ w / b' * (1 + e) := by linarith
        _ ≤ 1080 * a * (1 + e) ^ 2 / (b * (1 - e)) * (1 + e) := by
            gcongr
            · exact hwide.2
            · exact hdivisor.1
        _ = 1080 * a / b * ((1 + e) ^ 3 / (1 - e)) := by field_simp
        _ ≤ 1080 * a / b * (1 + 8 * e) := by gcongr
    linarith

/-- **Between numbers that leave room on the grid the quotient exists**, and three roundings lead
away from it by at most one part in `2 ^ 50`. -/
theorem exists_ratioWidth {a b : Rat} (ha : IsOrdinary a) (hb : IsOrdinary b) :
    (binary64 b).eq (.finite 0) = false ∧ ∃ q,
      (ratioWidth (binary64 a) (binary64 b)).value? = some q
        ∧ |q - 1080 * a / b| ≤ 1080 * a / b / 2 ^ 50 := by
  have hlow : (2 ^ 52 * 2 ^ (-1074 : Int) : Rat) ≤ 1 / 10 ^ 250 := by
    have hpowers : 2 ^ 52 * 10 ^ 250 ≤ 1 * 2 ^ 1074 := by decide +kernel
    rw [zpow_neg, ← div_eq_mul_inv, div_le_div_iff₀ (two_zpow_pos 1074) (by positivity)]
    exact_mod_cast hpowers
  have hhigh : (10 ^ 250 : Rat) < binaryLimit := by
    have : 10 ^ 250 < binaryLimit := by decide +kernel
    exact_mod_cast this
  have hnear {x : Rat} (hx : 1 / 10 ^ 250 ≤ x) (hx' : 2 * x ≤ 10 ^ 250) :=
    exists_near_binary64 (hlow.trans hx) (hx'.trans_lt hhigh)
  obtain ⟨halow, hahigh⟩ := ha
  obtain ⟨hblow, hbhigh⟩ := hb
  obtain ⟨a', ha', hapos, hanear⟩ := hnear (x := a) (by linarith) (by linarith)
  obtain ⟨b', hb', hbpos, hbnear⟩ := hnear (x := b) (by linarith) (by linarith)
  have habounds := abs_le.mp hanear
  have hbbounds := abs_le.mp hbnear
  obtain ⟨w, hw, hwpos, hwnear⟩ := hnear (x := 1080 * a') (by linarith) (by linarith)
  have hwbounds := abs_le.mp hwnear
  obtain ⟨q, hq, -, hqnear⟩ := hnear (x := w / b')
    (by rw [div_le_div_iff₀ (by positivity) hbpos]; linarith)
    (by rw [← mul_div_assoc, div_le_iff₀ hbpos]; linarith)
  refine ⟨?_, q, ?_, ?_⟩
  · rw [hb']
    exact beq_false_of_ne hbpos.ne'
  · have hproduct : (Quantity.finite 1080).mul (.finite a') = .finite w :=
      (Quantity.finite_mul (by positivity)).trans hw
    have hquotient : (Quantity.finite w).div (.finite b') = .finite q :=
      (Quantity.finite_div hwpos.ne' b').trans hq
    rw [ratioWidth, ha', hb', hproduct, hquotient]
    rfl
  · have hpart {x y : Rat} (h : |x - y| ≤ y / 2 ^ 53) : |x - y| ≤ y * (1 / 2 ^ 53) :=
      h.trans_eq (by ring)
    exact (near_quotient (by positivity) (by norm_num) (by linarith) (by linarith) (hpart hanear)
      (hpart hbnear) (hpart hwnear) (hpart hqnear)).trans_eq (by ring)

/-! ## The canvas of a ratio -/

namespace RenderOptions

/-- The ratio from which the canvas comes, if the size is not set. -/
def ratio? (options : RenderOptions) : Option String :=
  match options.width, options.height with
  | some _, some _ => none
  | _, _ => options.aspectRatio

/-- The canvas does not come from a ratio whose second side is read as zero or whose quotient is not
finite. -/
def HasCanvas (options : RenderOptions) : Prop :=
  ∀ ratio ∈ options.ratio?, ratioSize? ratio = none → ∀ a b, IsRatio ratio a b →
    (binary64 b).eq (.finite 0) = false ∧ (ratioWidth (binary64 a) (binary64 b)).isFinite = true

/-- Nothing counts beside the ratio. -/
theorem canvasSize_alone {options : RenderOptions} {ratio : String}
    (hratio : options.ratio? = some ratio) :
    options.canvasSize = canvasSize { aspectRatio := some ratio } := by
  rw [ratio?.eq_def] at hratio
  split at hratio
  · cases hratio
  rename_i hunset
  rw [canvasSize.eq_def]
  split
  · rename_i hwidth hheight
    exact absurd hheight fun h ↦ hunset _ _ hwidth h
  · rw [hratio]
    rfl

/-- A ratio outside of the table leads to its quotient with 1080, of which the half is rounded. -/
theorem canvasSize_of_ratio {options : RenderOptions} {ratio : String}
    (hratio : options.ratio? = some ratio) (hsize : ratioSize? ratio = none) {a b : Rat}
    (h : IsRatio ratio a b) : options.canvasSize =
      if (binary64 b).eq (.finite 0) then .error .divisionByZero
      else (Number.real ((ratioWidth (binary64 a) (binary64 b)).div (.finite 2))).roundWhole.map
        fun n ↦ (max 2 (n * 2), 1080) := by
  have hsides : ratioSides? ratio = some (binary64 a, binary64 b) :=
    ratioSides?_eq_some.mpr ⟨a, b, h, rfl, rfl⟩
  have hwide : (Number.whole 1080).mul (.real (binary64 a))
      = .ok (.real ((Quantity.finite 1080).mul (binary64 a))) := by
    have hheight : (Number.whole 1080).toQuantity = .ok (.finite 1080) :=
      binary64_isGrid.toQuantity_natCast (n := 1080) (by omega)
    exact bind_eq_ok.mpr ⟨_, hheight, rfl⟩
  have hhalf (w : Quantity) : (Number.real w).div 2 = .ok (.real (w.div (.finite 2))) := by
    have htwo : (Number.whole 2).toQuantity = .ok (.finite 2) :=
      binary64_isGrid.toQuantity_natCast (n := 2) (by omega)
    exact bind_eq_ok.mpr ⟨_, rfl, bind_eq_ok.mpr ⟨_, htwo, rfl⟩⟩
  rw [canvasSize_alone hratio, canvasSize]
  dsimp only
  rw [h.isEmpty_eq, if_neg Bool.false_ne_true, hsize, hsides]
  dsimp only
  rw [bind_of_ok hwide, Number.div_real]
  split
  · rfl
  · rw [bind_of_ok rfl, bind_of_ok (hhalf _)]
    show (Number.real ((ratioWidth (binary64 a) (binary64 b)).div (.finite 2))).roundWhole >>= _ = _
    cases (Number.real ((ratioWidth (binary64 a) (binary64 b)).div (.finite 2))).roundWhole <;> rfl

/-- **The canvas of a ratio exists just if the quotient does**, and its width is off by one at
most. -/
theorem ratio_canvas {options : RenderOptions} {ratio : String}
    (hratio : options.ratio? = some ratio) (hsize : ratioSize? ratio = none) {a b : Rat}
    (h : IsRatio ratio a b) :
    ((∃ size, options.canvasSize = .ok size) ↔ (binary64 b).eq (.finite 0) = false ∧
      (ratioWidth (binary64 a) (binary64 b)).isFinite = true) ∧
    ∀ size, options.canvasSize = .ok size → ∃ width, size = (width, 1080) ∧ 0 < width ∧ Even width ∧
      (width = 2 ∨ ∃ q, (ratioWidth (binary64 a) (binary64 b)).value? = some q ∧
        |(width : Rat) - q| ≤ 1) := by
  obtain ⟨front, back, -, -, -, ha, hb⟩ := id h
  have hnotBelow : (binary64 a).IsNotBelowZero ∧ (binary64 b).IsNotBelowZero :=
    ⟨isNotBelowZero_binary64 ha.nonneg, isNotBelowZero_binary64 hb.nonneg⟩
  have hheight : (Quantity.finite 1080).IsNotBelowZero := by
    rintro _ ⟨⟩
    norm_num
  rw [canvasSize_of_ratio hratio hsize h]
  cases hzero : (binary64 b).eq (.finite 0) with
  | true =>
    rw [if_pos rfl]
    exact ⟨iff_of_false (by rintro ⟨size, ⟨⟩⟩) (by rintro ⟨⟨⟩, -⟩), by rintro size ⟨⟩⟩
  | false =>
    rw [if_neg Bool.false_ne_true]
    cases hfinite : (ratioWidth (binary64 a) (binary64 b)).isFinite with
    | false =>
      obtain ⟨e, he⟩ := exists_roundWhole_eq_error hfinite
      rw [Quantity.div_of_not_finite hfinite two_pos, he]
      exact ⟨iff_of_false (by rintro ⟨size, ⟨⟩⟩) (by rintro ⟨-, ⟨⟩⟩), by rintro size ⟨⟩⟩
    | true =>
      obtain ⟨q, hq⟩ := Quantity.isFinite_iff.mp hfinite
      have hnonneg := (hheight.mul hnotBelow.1).div hnotBelow.2 q hq
      have hgrid := Quantity.IsOnGrid.div binary64_isGrid _ _ q hq
      obtain ⟨n, hn, hpairs⟩ := exists_pairs hq hnonneg hgrid
      rw [hn]
      refine ⟨iff_of_true ⟨_, rfl⟩ ⟨rfl, rfl⟩, ?_⟩
      rintro _ ⟨⟩
      obtain ⟨hpos, heven, hwidth⟩ := width_of_pairs hpairs
      exact ⟨_, rfl, hpos, heven, hwidth.imp_right fun h ↦ ⟨q, hq, h⟩⟩

/-- The sizes of the table are positive and even. -/
theorem ratioSize?_even {ratio : String} {size : Int × Int} (h : ratioSize? ratio = some size) :
    0 < size.1 ∧ 0 < size.2 ∧ Even size.1 ∧ Even size.2 := by
  rw [ratioSize?.eq_def] at h
  split at h <;> cases h <;> decide

/-- The canvas of a ratio of the table is its size there. -/
theorem canvasSize_of_table {options : RenderOptions} {ratio : String}
    (hratio : options.ratio? = some ratio) (hsome : ratio.isEmpty = false) {size : Int × Int}
    (h : ratioSize? ratio = some size) : options.canvasSize = .ok size := by
  rw [canvasSize_alone hratio, canvasSize]
  dsimp only
  rw [hsome, if_neg Bool.false_ne_true, h]
  rfl

/-- Without a ratio the canvas is the size that was set, or the usual one. -/
theorem exists_canvasSize_of_none {options : RenderOptions} (valid : options.IsValid)
    (h : options.ratio? = none) :
    ∃ size, options.canvasSize = .ok size ∧ 0 < size.1 ∧ 0 < size.2 := by
  rw [ratio?.eq_def] at h
  rw [canvasSize.eq_def]
  split
  · rename_i width height hwidth hheight
    exact ⟨_, rfl, valid.width width hwidth, valid.height height hheight⟩
  · rename_i hunset
    split at h
    · rename_i hwidth hheight
      exact absurd hheight fun h ↦ hunset _ _ hwidth h
    rw [h]
    exact ⟨_, rfl, by decide, by decide⟩

/-- A valid ratio writes two numbers. -/
theorem IsValid.exists_isRatio {options : RenderOptions} (valid : options.IsValid) {ratio : String}
    (h : options.ratio? = some ratio) : ∃ a b, IsRatio ratio a b := by
  have hratio : options.aspectRatio = some ratio := by
    rw [ratio?.eq_def] at h
    split at h
    · cases h
    · exact h
  obtain ⟨⟨x, y⟩, hsides⟩ := Option.isSome_iff_exists.mp (valid.aspectRatio ratio hratio)
  obtain ⟨a, b, hwritten, -, -⟩ := ratioSides?_eq_some.mp hsides
  exact ⟨a, b, hwritten⟩

/-- **Valid options have a canvas just if `HasCanvas` holds of them**, and every canvas is usable:
its sides are positive, and even if they come from a ratio.  Outside of the table the height is
1080, and the width is 2 or off by one at most from the quotient as the grid has it.  Of a ratio
between numbers that leave room on the grid the canvas exists, and the width is 2 or off from the
quotient itself by at most one pixel and one part in `2 ^ 50`. -/
theorem canvas_usable {options : RenderOptions} (valid : options.IsValid) :
    ((∃ size, options.canvasSize = .ok size) ↔ options.HasCanvas)
    ∧ (∀ size, options.canvasSize = .ok size → 0 < size.1 ∧ 0 < size.2
      ∧ (options.ratio?.isSome = true → Even size.1 ∧ Even size.2))
    ∧ ∀ ratio ∈ options.ratio?, ratioSize? ratio = none → ∀ a b, IsRatio ratio a b →
      (∀ size, options.canvasSize = .ok size → size.2 = 1080 ∧ (size.1 = 2 ∨
        ∃ q, (ratioWidth (binary64 a) (binary64 b)).value? = some q ∧ |(size.1 : Rat) - q| ≤ 1))
      ∧ (IsOrdinary a → IsOrdinary b → ∃ width, options.canvasSize = .ok (width, 1080)
        ∧ (width = 2 ∨ |(width : Rat) - 1080 * a / b| ≤ 1 + 1080 * a / b / 2 ^ 50)) := by
  refine ⟨⟨?_, fun canvas ↦ ?_⟩, ?_, ?_⟩
  · intro hsize ratio h htable a b hwritten
    exact (ratio_canvas h htable hwritten).1.mp hsize
  · cases h : options.ratio? with
    | none =>
      obtain ⟨size, hsize, -⟩ := exists_canvasSize_of_none valid h
      exact ⟨size, hsize⟩
    | some ratio =>
      obtain ⟨a, b, hwritten⟩ := valid.exists_isRatio h
      cases htable : ratioSize? ratio with
      | some size => exact ⟨size, canvasSize_of_table h hwritten.isEmpty_eq htable⟩
      | none => exact (ratio_canvas h htable hwritten).1.mpr (canvas ratio h htable a b hwritten)
  · intro size hsize
    cases h : options.ratio? with
    | none =>
      obtain ⟨_, hsize', hwidth, hheight⟩ := exists_canvasSize_of_none valid h
      rw [hsize] at hsize'
      cases hsize'
      exact ⟨hwidth, hheight, by rintro ⟨⟩⟩
    | some ratio =>
      obtain ⟨a, b, hwritten⟩ := valid.exists_isRatio h
      cases htable : ratioSize? ratio with
      | some size' =>
        rw [canvasSize_of_table h hwritten.isEmpty_eq htable] at hsize
        cases hsize
        obtain ⟨hwidth, hheight, heven⟩ := ratioSize?_even htable
        exact ⟨hwidth, hheight, fun _ ↦ heven⟩
      | none =>
        obtain ⟨width, rfl, hwidth, heven, -⟩ := (ratio_canvas h htable hwritten).2 size hsize
        exact ⟨hwidth, (by decide : (0 : Int) < 1080),
          fun _ ↦ ⟨heven, (by decide : Even (1080 : Int))⟩⟩
  · intro ratio h htable a b hwritten
    obtain ⟨hexists, hsizes⟩ := ratio_canvas h htable hwritten
    constructor
    · intro size hsize
      obtain ⟨width, rfl, -, -, hnear⟩ := hsizes size hsize
      exact ⟨rfl, hnear⟩
    · intro ha hb
      obtain ⟨hzero, q, hq, hideal⟩ := exists_ratioWidth ha hb
      obtain ⟨size, hsize⟩ := hexists.mpr ⟨hzero, Quantity.isFinite_iff.mpr ⟨q, hq⟩⟩
      obtain ⟨width, rfl, -, -, hnear⟩ := hsizes size hsize
      refine ⟨width, hsize, hnear.imp_right ?_⟩
      rintro ⟨q', hq', hwidth⟩
      rw [hq] at hq'
      cases hq'
      exact (abs_sub_le _ q _).trans (add_le_add hwidth hideal)

/-- Of the ratio 2.39:1 there is a canvas; of 1:0, which is valid as well, there is none. -/
theorem wideRatio_canvas :
    (∃ width, canvasSize { aspectRatio := some "2.39:1" } = .ok (width, 1080)
      ∧ (width = 2 ∨
        |(width : Rat) - 1080 * (239 / 100) / 1| ≤ 1 + 1080 * (239 / 100) / 1 / 2 ^ 50))
    ∧ IsValid { aspectRatio := some "1:0" }
    ∧ ¬ ∃ size, canvasSize { aspectRatio := some "1:0" } = .ok size := by
  have hvalid : IsValid { aspectRatio := some "2.39:1" } :=
    { isValid_usual with aspectRatio := by rintro _ ⟨⟩; decide }
  have hwide : IsRatio "2.39:1" (239 / 100) 1 := by
    refine ⟨"2.39".toList, "1".toList, rfl, by decide, by decide, ?_, ?_⟩
    · exact ⟨['2'], ['3', '9'], ⟨by decide, by decide, .inl (by decide)⟩, by decide, by decide,
        by decide +kernel⟩
    · exact ⟨['1'], [], ⟨by decide, by decide, .inr (by decide)⟩, by decide, by decide,
        by decide +kernel⟩
  have hzero : IsValid { aspectRatio := some "1:0" } :=
    { isValid_usual with aspectRatio := by rintro _ ⟨⟩; decide }
  have hnone : IsRatio "1:0" 1 0 := by
    refine ⟨"1".toList, "0".toList, rfl, by decide, by decide, ?_, ?_⟩
    · exact ⟨['1'], [], ⟨by decide, by decide, .inr (by decide)⟩, by decide, by decide,
        by decide +kernel⟩
    · exact ⟨['0'], [], ⟨by decide, by decide, .inr (by decide)⟩, by decide, by decide,
        by decide +kernel⟩
  refine ⟨((canvas_usable hvalid).2.2 _ rfl rfl _ _ hwide).2 ?_ ?_, hzero, fun hsize ↦ ?_⟩
  · exact ⟨by norm_num, by norm_num⟩
  · exact ⟨by norm_num, by norm_num⟩
  · have hcanvas := (canvas_usable hzero).1.mp hsize _ rfl rfl _ _ hnone
    exact absurd hcanvas.1 (by decide)

end RenderOptions

end

end Montage
