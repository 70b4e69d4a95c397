import Montage.Effect.Filters
import Montage.Proofs.Document.Field
import Montage.Proofs.Number.Exact
import Montage.Proofs.Number.Landing

/-!
# What an effect asks of its parameters

A filter layer is accepted whatever its parameters are, as long as each of them is a truth value, a
number or a text.  What an effect does with them is another matter: it computes with some of them,
looks one up in a table, passes others on, and calls a filter that is not known to it with all of
them.  `HasFilters` says what it takes for the filters of an effect to exist
(`exists_filters_iff`), and `IsWritten` what it takes for them to be written (`isWritten_iff`): the
whole numbers among their options must not be too long.

A window that switches a filter replaces the option that a parameter may have brought along, so that
option is not written then.
-/

set_option autoImplicit false

namespace Montage

/-! ## Parameters -/

namespace ParamValue

/-- A truth value counts as a number. -/
def number? : ParamValue → Option Number
  | flag b => some (.whole (if b then 1 else 0))
  | num n => some n
  | text _ => none

/-- Whether a value can be written. -/
def isShort : ParamValue → Bool
  | num n => n.isWritable
  | _ => true

/-- A quantity can be made of the value. -/
def IsMeasurable [Rounding] (value : ParamValue) : Prop :=
  ∃ n x, value.number? = some n ∧ n.toQuantity = .ok x

/-- The value is a number, and finite in percent. -/
def HasPercent [Rounding] (value : ParamValue) : Prop :=
  ∃ n, value.number? = some n ∧ ∀ x, n = .real x → (x.mul (.finite 100)).isFinite = true

/-- In percent, the value can be written if it is a whole number. -/
def HasShortPercent (value : ParamValue) : Prop :=
  ∀ n, value.number? = some (.whole n) → (Number.whole (n * 100)).isWritable = true

theorem number?_paramJson (value : ParamValue) :
    (Layer.paramJson value).number? = value.number? := by
  cases value <;> rfl

theorem isWritable_ofJson_paramJson (value : ParamValue) :
    (OptionValue.ofJson (Layer.paramJson value)).isWritable = value.isShort := by
  cases value <;> rfl

end ParamValue

/-- Whether every option of a filter can be written, except for one that a window replaces if the
filter is switched. -/
def Filter.isWrittenWith (switched : Bool) (filter : Filter) : Bool :=
  filter.options.all fun option ↦
    (switched && Effect.isTimed filter.name && option.1 == some "enable") || option.2.isWritable

namespace Effect

/-- The parameter of a key, if it is given. -/
def given (effect : Effect) (key : String) : Option ParamValue := Json.lookup? key effect.params

/-- The keys of the parameters that an effect passes on as they are.  A filter that is called by its
own name has no such keys, as it gets all parameters. -/
def passedKeys : String → Option (List String)
  | "brightness" | "contrast" | "saturation" | "gamma" => some ["value"]
  | "hue" => some ["degrees", "saturation"]
  | "blur" => some ["radius"]
  | "gaussian_blur" => some ["sigma"]
  | "motion_blur" => some ["frames"]
  | "vignette" => some ["angle"]
  | "rotate" => some ["fill"]
  | "speed" => some ["factor"]
  | "chromakey" => some ["color", "similarity", "blend"]
  | "denoise" => some ["strength"]
  | "fade" => some ["type", "start", "duration"]
  | "grayscale" | "sepia" | "invert" | "film_grain" | "flip" | "stabilize" => some []
  | _ => none

/-- What an effect asks of its parameters so that its filters exist. -/
structure HasFilters [Rounding] (effect : Effect) : Prop where
  vignette : effect.name = "vignette" → effect.given "angle" = none →
    ∀ radius ∈ effect.given "radius", radius.IsMeasurable
  grain : effect.name = "film_grain" →
    ∀ intensity ∈ effect.given "intensity", intensity.HasPercent
  rotate : effect.name = "rotate" → ∀ degrees ∈ effect.given "degrees", degrees.IsMeasurable
  flip : effect.name = "flip" → ∀ direction ∈ effect.given "direction",
    direction ∈ [.text "horizontal", .text "vertical", .text "both"]
  called : passedKeys effect.name = none →
    ∀ param ∈ effect.params, param.1 ≠ "name" ∧ param.1 ≠ "self"

/-- What an effect asks of its parameters so that its filters are written, if they are switched by a
window or not. -/
structure IsWritten (switched : Bool) (effect : Effect) : Prop where
  passed : ∀ keys ∈ passedKeys effect.name, ∀ key ∈ keys, ∀ value ∈ effect.given key,
    value.isShort = true
  grain : effect.name = "film_grain" →
    ∀ intensity ∈ effect.given "intensity", intensity.HasShortPercent
  called : passedKeys effect.name = none → ∀ param ∈ effect.params,
    (switched = true ∧ isTimed effect.name = true ∧ param.1 = "enable") ∨ param.2.isShort = true

theorem lookup?_paramJson (key : String) (params : List (String × ParamValue)) :
    Json.lookup? key (params.map fun (key, value) ↦ (key, Layer.paramJson value)) =
      (Json.lookup? key params).map Layer.paramJson := by
  rw [Json.lookup?, Json.lookup?, List.find?_map, Option.map_map, Option.map_map]
  rfl

end Effect

namespace Number

variable [Rounding]

/-- A number times a quantity is a quantity. -/
theorem mul_real (n : Number) (y : Quantity) :
    n.mul (.real y) = n.toQuantity.map fun x ↦ .real (x.mul y) := by
  cases n with
  | whole n =>
    show (Number.whole n).toQuantity >>= _ = _
    cases (Number.whole n).toQuantity <;> rfl
  | real x => rfl

/-- A quotient by a whole number that is a quantity other than zero. -/
theorem real_div_whole {d : Int} {y : Quantity} (hd : (Number.whole d).toQuantity = .ok y)
    (hy : y.eq (.finite 0) = false) (x : Quantity) :
    (Number.real x).div (.whole d) = .ok (.real (x.div y)) := by
  show ((Number.whole d).toQuantity >>= fun y ↦
    if y.eq (.finite 0) then _ else _) = _
  rw [bind_of_ok hd, hy]
  rfl

/-- A quotient of a quantity is a quantity. -/
theorem real_of_div {x : Quantity} {n m : Number} (h : (Number.real x).div n = .ok m) :
    ∃ y, m = .real y := by
  have h : ((n.toQuantity >>= fun y ↦
      if y.eq (.finite 0) then throw .divisionByZero else pure (.real (x.div y))) :
        Except Error Number) = .ok m := by
    cases n <;> exact h
  obtain ⟨y, -, h⟩ := bind_eq_ok.mp h
  split at h
  · cases h
  · exact ⟨_, (pure_eq_ok.mp h).symm⟩

end Number

namespace Effect

section

variable [Rounding]

/-- An angle exists just if a quantity can be made of its factor. -/
theorem exists_angle_iff {factor : Json} {d : Int} {places : Nat} {y : Quantity}
    (hd : (Number.whole d).toQuantity = .ok y) (hy : y.eq (.finite 0) = false) :
    (∃ n, angle factor (.whole d) places = .ok n) ↔
      ∃ n x, factor.number? = some n ∧ n.toQuantity = .ok x := by
  simp only [angle, exists_bind_eq_ok, exists_pure_eq_ok, and_true, Json.number_eq_ok,
    Number.mul_real, map_eq_ok]
  constructor
  · rintro ⟨n, hn, _, ⟨x, hx, rfl⟩, -⟩
    exact ⟨n, x, hn, hx⟩
  · rintro ⟨n, x, hn, hx⟩
    exact ⟨n, hn, _, ⟨x, hx, rfl⟩, _, Number.real_div_whole hd hy _⟩

/-- An angle is a quantity, which can be written. -/
theorem isWritable_angle {factor : Json} {divisor : Number} {places : Nat} {n : Number}
    (h : angle factor divisor places = .ok n) : n.isWritable = true := by
  obtain ⟨_, -, h⟩ := bind_eq_ok.mp h
  obtain ⟨m, hm, h⟩ := bind_eq_ok.mp h
  obtain ⟨q, hq, h⟩ := bind_eq_ok.mp h
  cases pure_eq_ok.mp h
  rw [Number.mul_real] at hm
  obtain ⟨x, -, rfl⟩ := map_eq_ok.mp hm
  obtain ⟨y, rfl⟩ := Number.real_of_div hq
  rfl

end

attribute [local instance] Rounding.binary64

/-- A number exists in percent, to the nearest whole one, if it is finite there; and it is short
unless it is a whole number that is not short. -/
theorem percent_iff (n : Number) :
    ((∃ m, n.mul 100 = .ok m ∧ ∃ k, m.roundWhole = .ok k) ↔
        ∀ x, n = .real x → (x.mul (.finite 100)).isFinite = true) ∧
      ∀ m, n.mul 100 = .ok m → ∀ k, m.roundWhole = .ok k →
        ((Number.whole k).isWritable = true ↔
          ∀ w, n = .whole w → (Number.whole (w * 100)).isWritable = true) := by
  cases n with
  | whole w =>
    refine ⟨iff_of_true ⟨_, rfl, _, rfl⟩ (by rintro _ ⟨⟩), ?_⟩
    rintro _ ⟨⟩ _ ⟨⟩
    exact ⟨fun h _ hw ↦ by cases hw; exact h, fun h ↦ h w rfl⟩
  | real x =>
    have hmul : (Number.real x).mul 100 = .ok (.real (x.mul (.finite 100))) :=
      Number.mul_whole (binary64_isGrid.toQuantity_natCast (n := 100) (by omega)) x
    constructor
    · rw [hmul]
      constructor
      · rintro ⟨_, ⟨⟩, hround⟩ _ ⟨⟩
        exact (Number.exists_roundWhole _).mp hround
      · exact fun h ↦ ⟨_, rfl, (Number.exists_roundWhole _).mpr (h x rfl)⟩
    · rw [hmul]
      rintro _ ⟨⟩ k hk
      refine iff_of_true ?_ (by rintro _ ⟨⟩)
      rw [Number.roundWhole] at hk
      split at hk
      · rename_i q hq
        cases hk
        have hgrid : Montage.IsOnGrid q := Quantity.IsOnGrid.mul binary64_isGrid x _ q hq
        rw [Number.isWritable, decide_eq_true_iff]
        exact hgrid.natAbs_nearestInt_lt
      · cases hk

/-- A digit can be written. -/
theorem isWritable_digit {w : Int} (h : w.natAbs < 10) : (Number.whole w).isWritable = true := by
  rw [Number.isWritable, decide_eq_true_iff]
  exact h.trans_le (Nat.le_self_pow (by decide) 10)

/-- What holds of a default holds of a parameter that may be missing if it holds of its value. -/
theorem getD_iff {P : Json → Prop} {default : Json} (hdefault : P default)
    (value : Option ParamValue) :
    P ((value.map Layer.paramJson).getD default) ↔ ∀ v ∈ value, P (Layer.paramJson v) := by
  cases value with
  | none => exact iff_of_true hdefault (by rintro _ ⟨⟩)
  | some v => exact ⟨fun h _ hv ↦ by cases hv; exact h, fun h ↦ h v rfl⟩

/-- A quantity can be made of a parameter that may be missing if one can be made of its value. -/
theorem isMeasurable_getD {default : Json}
    (hdefault : ∃ n x, default.number? = some n ∧ n.toQuantity = .ok x)
    (value : Option ParamValue) :
    (∃ n x, ((value.map Layer.paramJson).getD default).number? = some n ∧ n.toQuantity = .ok x) ↔
      ∀ v ∈ value, v.IsMeasurable := by
  refine (getD_iff (P := fun value ↦ ∃ n x, value.number? = some n ∧ n.toQuantity = .ok x)
    hdefault value).trans (forall₂_congr fun v _ ↦ ?_)
  rw [ParamValue.number?_paramJson]
  rfl

/-- The angle of a vignette exists if a quantity can be made of its radius. -/
theorem exists_vignette_iff (radius : Option ParamValue) :
    (∃ n, angle ((radius.map Layer.paramJson).getD (.quantity (binary64 (8 / 10)))) 4 4 = .ok n) ↔
      ∀ v ∈ radius, v.IsMeasurable :=
  (exists_angle_iff (binary64_isGrid.toQuantity_natCast (n := 4) (by omega)) (by decide)).trans
    (isMeasurable_getD ⟨_, _, rfl, rfl⟩ radius)

/-- The angle of a rotation exists if a quantity can be made of its degrees. -/
theorem exists_rotate_iff (degrees : Option ParamValue) :
    (∃ n, angle ((degrees.map Layer.paramJson).getD (.whole 0)) 180 6 = .ok n) ↔
      ∀ v ∈ degrees, v.IsMeasurable :=
  (exists_angle_iff (binary64_isGrid.toQuantity_natCast (n := 180) (by omega)) (by decide)).trans
    (isMeasurable_getD ⟨_, _, rfl, binary64_isGrid.toQuantity_natCast (n := 0) (by omega)⟩ degrees)

/-- The intensity of a grain exists if it is a number that is finite in percent. -/
theorem exists_grain_iff (intensity : Option ParamValue) :
    (∃ n, ((intensity.map Layer.paramJson).getD (.quantity (binary64 (2 / 10)))).number = .ok n ∧
      ∃ m, n.mul 100 = .ok m ∧ ∃ k, m.roundWhole = .ok k) ↔ ∀ v ∈ intensity, v.HasPercent := by
  simp only [(percent_iff _).1, Json.number_eq_ok]
  refine (getD_iff (P := fun value ↦ ∃ n, value.number? = some n ∧ ∀ x, n = .real x →
    (x.mul (.finite 100)).isFinite = true) ?_ intensity).trans (forall₂_congr fun v _ ↦ ?_)
  · refine ⟨_, rfl, ?_⟩
    rintro _ ⟨⟩
    decide +kernel
  · rw [ParamValue.number?_paramJson]
    rfl

/-- The intensity of a grain is short in percent if its value is. -/
theorem isWritable_grain {intensity : Option ParamValue} {n m : Number} {k : Int}
    (hn : ((intensity.map Layer.paramJson).getD (.quantity (binary64 (2 / 10)))).number = .ok n)
    (hm : n.mul 100 = .ok m) (hk : m.roundWhole = .ok k) :
    (Number.whole k).isWritable = true ↔ ∀ v ∈ intensity, v.HasShortPercent := by
  rw [(percent_iff n).2 m hm k hk]
  cases intensity with
  | none =>
    cases hn
    exact iff_of_true (by rintro _ ⟨⟩) (by rintro _ ⟨⟩)
  | some v =>
    have hvalue : v.number? = some n := by
      rwa [Option.map_some, Option.getD_some, Json.number_eq_ok,
        ParamValue.number?_paramJson] at hn
    simp [ParamValue.HasShortPercent, hvalue]

/-- A flip is one of three directions. -/
theorem exists_flip_iff (direction : Option ParamValue) :
    (∃ filters, flip ((direction.map Layer.paramJson).getD (.str "horizontal")) = .ok filters) ↔
      ∀ v ∈ direction, v ∈ [.text "horizontal", .text "vertical", .text "both"] := by
  refine (getD_iff (P := fun value ↦ ∃ filters, flip value = .ok filters) ⟨_, rfl⟩
    direction).trans (forall₂_congr fun v _ ↦ ?_)
  cases v with
  | flag b => exact iff_of_false (by rintro ⟨_, ⟨⟩⟩) (by simp)
  | num n => exact iff_of_false (by rintro ⟨_, ⟨⟩⟩) (by simp)
  | text s =>
    constructor
    · rintro ⟨filters, h⟩
      rw [flip] at h
      obtain ⟨key, hkey, h⟩ := bind_eq_ok.mp h
      cases hkey
      split at h
      case h_1 heq | h_2 heq | h_3 heq =>
        cases heq
        simp
      case h_4 => cases h
    · simp only [List.mem_cons, ParamValue.text.injEq, List.not_mem_nil, or_false]
      rintro (rfl | rfl | rfl) <;> exact ⟨_, rfl⟩

/-- A filter can be called with options that leave its own name alone. -/
theorem exists_called_iff (name : String) (params : List (String × ParamValue)) :
    (∃ filter, Filter.called name [] ((params.map fun (key, value) ↦
        (key, Layer.paramJson value)).map fun (key, value) ↦
          (key, (present? value).map OptionValue.ofJson)) = .ok filter) ↔
      ∀ param ∈ params, param.1 ≠ "name" ∧ param.1 ≠ "self" := by
  have hkeys : ((params.map fun (key, value) ↦ (key, Layer.paramJson value)).map fun (key, value) ↦
      (key, (present? value).map OptionValue.ofJson)).any
        (fun option ↦ option.1 == "name" || option.1 == "self") = true ↔
      ∃ param ∈ params, param.1 = "name" ∨ param.1 = "self" := by
    simp only [List.any_map, List.any_eq_true, Function.comp_apply, Bool.or_eq_true, beq_iff_eq]
  rw [Filter.called]
  split
  · rename_i hany
    obtain ⟨param, hparam, hname⟩ := hkeys.mp hany
    refine iff_of_false (by rintro ⟨_, ⟨⟩⟩) fun h ↦ ?_
    exact hname.elim (h param hparam).1 (h param hparam).2
  · rename_i hany
    refine iff_of_true ⟨_, rfl⟩ fun param hparam ↦ ?_
    rw [← not_or]
    exact fun hname ↦ hany (hkeys.mpr ⟨param, hparam, hname⟩)

/-- One can be written, in whichever way it is given. -/
theorem isWritable_of_eq_one {n : Number} (h : n.eq 1 = true) : n.isWritable = true := by
  cases n with
  | real x => rfl
  | whole w =>
    have hone : (w : Rat) = 1 := Quantity.finite.inj (Quantity.eq_of_pos h (by decide))
    obtain rfl : w = 1 := by exact_mod_cast hone
    exact isWritable_digit (by decide)

/-- A quotient of a name can be written if its divisor can. -/
theorem isWritable_quotient (name : String) (e : Expr) :
    (Expr.simplified .dividedBy (.var name) e).isWritable = e.isWritable := by
  rw [Expr.simplified]
  split
  · rename_i hone
    cases e with
    | num n => exact (isWritable_of_eq_one hone).symm
    | _ => cases hone
  · rfl

/-- The time of a frame can be divided by every factor. -/
theorem exists_slowed (factor : Option ParamValue) :
    ∃ e slowed, Expr.ofJson ((factor.map Layer.paramJson).getD (.whole 1)) = .ok e ∧
      (Expr.var "PTS").div e = .ok slowed ∧
        (slowed.isWritable = true ↔ ∀ v ∈ factor, v.isShort = true) := by
  have hshort : ∃ e, Expr.ofJson ((factor.map Layer.paramJson).getD (.whole 1)) = .ok e ∧
      (e.isWritable = true ↔ ∀ v ∈ factor, v.isShort = true) := by
    cases factor with
    | none => exact ⟨_, rfl, iff_of_true (isWritable_of_eq_one rfl) (by rintro _ ⟨⟩)⟩
    | some v =>
      cases v with
      | flag b =>
        refine ⟨_, rfl, iff_of_true (isWritable_digit ?_) (by rintro _ ⟨⟩; rfl)⟩
        cases b <;> decide
      | num n => exact ⟨_, rfl, by simp [ParamValue.isShort, Expr.isWritable]⟩
      | text s => exact ⟨_, rfl, by simp [ParamValue.isShort, Expr.isWritable]⟩
  obtain ⟨e, he, hshort⟩ := hshort
  exact ⟨e, _, he, rfl, by rw [isWritable_quotient, hshort]⟩

/-- **An effect has filters just if its parameters are what it asks for.** -/
theorem exists_filters_iff (effect : Effect) :
    (∃ filters, effect.filters = .ok filters) ↔ effect.HasFilters := by
  obtain ⟨name, params⟩ := effect
  rw [filters, filtersOf.eq_def]
  dsimp only
  simp only [lookup?_paramJson]
  split
  case h_12 =>
    -- the angle of a vignette is passed on, or computed
    cases hangle : Json.lookup? "angle" params with
    | some value =>
      refine iff_of_true ⟨_, rfl⟩ ?_
      constructor <;> simp [passedKeys, given, hangle]
    | none =>
      simp only [Option.map_none, exists_bind_eq_ok, exists_pure_eq_ok, and_true]
      rw [exists_vignette_iff]
      refine ⟨fun h ↦ ?_, fun h ↦ h.vignette rfl hangle⟩
      exact ⟨fun _ _ ↦ h, by simp, by simp, by simp, by simp [passedKeys]⟩
  case h_13 =>
    simp only [exists_bind_eq_ok, exists_pure_eq_ok, and_true]
    rw [exists_grain_iff]
    refine ⟨fun h ↦ ?_, fun h ↦ h.grain rfl⟩
    exact ⟨by simp, fun _ ↦ h, by simp, by simp, by simp [passedKeys]⟩
  case h_14 =>
    simp only [exists_bind_eq_ok, exists_pure_eq_ok, and_true]
    rw [exists_rotate_iff]
    refine ⟨fun h ↦ ?_, fun h ↦ h.rotate rfl⟩
    exact ⟨by simp, by simp, fun _ ↦ h, by simp, by simp [passedKeys]⟩
  case h_15 =>
    rw [exists_flip_iff]
    refine ⟨fun h ↦ ?_, fun h ↦ h.flip rfl⟩
    exact ⟨by simp, by simp, by simp, fun _ ↦ h, by simp [passedKeys]⟩
  case h_16 =>
    obtain ⟨e, slowed, he, hslowed, -⟩ := exists_slowed (Json.lookup? "factor" params)
    refine iff_of_true ?_ (by constructor <;> simp [passedKeys])
    rw [bind_of_ok he, bind_of_ok hslowed]
    exact ⟨_, rfl⟩
  case h_21 hnames =>
    simp only [exists_bind_eq_ok, exists_pure_eq_ok, and_true]
    rw [exists_called_iff]
    have hkeys : passedKeys name = none := by simp [passedKeys, *]
    exact ⟨fun h ↦ ⟨fun hname ↦ by contradiction, fun hname ↦ by contradiction,
      fun hname ↦ by contradiction, fun hname ↦ by contradiction, fun _ ↦ h⟩,
      fun h ↦ h.called hkeys⟩
  all_goals
    refine iff_of_true ⟨_, rfl⟩ ?_
    constructor <;> simp [passedKeys]

/-! ## Writing -/

/-- A parameter that may be missing can be written if its value can, and its default. -/
theorem isWritable_getD {default : Json} (hdefault : (OptionValue.ofJson default).isWritable = true)
    (value : Option ParamValue) :
    (OptionValue.ofJson ((value.map Layer.paramJson).getD default)).isWritable = true ↔
      ∀ v ∈ value, v.isShort = true := by
  refine (getD_iff (P := fun value ↦ (OptionValue.ofJson value).isWritable = true) hdefault
    value).trans (forall₂_congr fun v _ ↦ ?_)
  rw [ParamValue.isWritable_ofJson_paramJson]

@[simp] theorem isWritable_ofJson_digit {w : Int} (h : w.natAbs < 10) :
    (OptionValue.ofJson (.whole w)).isWritable = true := by
  rw [Json.whole, OptionValue.ofJson, OptionValue.isWritable]
  exact isWritable_digit h

@[simp] theorem isWritable_ofJson_str (s : String) :
    (OptionValue.ofJson (.str s)).isWritable = true := by
  rw [OptionValue.ofJson, OptionValue.isWritable] <;> simp

@[simp] theorem isWritable_ofJson_quantity (x : Quantity) :
    (OptionValue.ofJson (.quantity x)).isWritable = true := by
  rw [Json.quantity, OptionValue.ofJson, OptionValue.isWritable, Number.isWritable]

@[simp] theorem isWritable_ofJson_null : (OptionValue.ofJson .null).isWritable = true := by
  rw [OptionValue.ofJson, OptionValue.isWritable] <;> simp

section

variable (switched : Bool)

/-- An effect that passes some parameters on asks nothing of the others. -/
theorem isWritten_iff_of_passed {effect : Effect} {keys : List String}
    (hkeys : passedKeys effect.name = some keys) (hname : effect.name ≠ "film_grain") :
    effect.IsWritten switched ↔
      ∀ key ∈ keys, ∀ value ∈ effect.given key, value.isShort = true := by
  constructor
  · exact fun h ↦ h.passed keys hkeys
  · refine fun h ↦ ⟨fun _ hkeys' ↦ ?_, fun hgrain ↦ absurd hgrain hname, fun hnone ↦ ?_⟩
    · cases hkeys.symm.trans hkeys'
      exact h
    · cases hkeys.symm.trans hnone

theorem isWrittenWith_withArgs (name : String) (args : List OptionValue) :
    (Filter.withArgs name args).isWrittenWith switched = true ↔
      ∀ value ∈ args, value.isWritable = true := by
  simp [Filter.isWrittenWith, Filter.withArgs]

/-- Named options are written if they can be, and none of them is a window. -/
theorem isWrittenWith_named (name : String) {options : List (String × OptionValue)}
    (h : "enable" ∉ options.map Prod.fst) :
    (Filter.named name options).isWrittenWith switched = true ↔
      ∀ option ∈ options, option.2.isWritable = true := by
  rw [Filter.isWrittenWith, Filter.named, List.all_map, List.all_eq_true]
  refine forall₂_congr fun option hoption ↦ ?_
  have hkey : (some option.1 == some "enable") = false := by
    rw [Option.some_beq_some, beq_eq_false_iff_ne]
    exact fun heq ↦ h (heq ▸ List.mem_map_of_mem hoption)
  simp only [Function.comp_apply, hkey, Bool.and_false, Bool.false_or]

theorem isWrittenWith_mixer (weights : List (String × Rat))
    (h : "enable" ∉ weights.map Prod.fst) : (mixer weights).isWrittenWith switched = true := by
  rw [mixer, isWrittenWith_named switched _ (by simpa using h), List.forall_mem_map]
  intro _ _
  rfl

/-- An option whose value is null is left out, and could be written. -/
theorem isWrittenWith_present (name : String) {options : List (String × Json)}
    (h : "enable" ∉ options.map Prod.fst) :
    (Filter.named name (present options)).isWrittenWith switched = true ↔
      ∀ option ∈ options, (OptionValue.ofJson option.2).isWritable = true := by
  rw [isWrittenWith_named switched name, present, List.forall_mem_map]
  · simp only [List.mem_filter, and_imp]
    refine forall₂_congr fun option _ ↦ ?_
    cases option.2 <;> simp
  · rw [present, List.map_map]
    intro hmem
    obtain ⟨option, hoption, heq⟩ := List.mem_map.mp hmem
    exact h (heq ▸ List.mem_map_of_mem (List.mem_of_mem_filter hoption))

theorem isWrittenWith_append (name : String) (options more : List (Option String × OptionValue)) :
    Filter.isWrittenWith switched ⟨name, options ++ more⟩ = true ↔
      Filter.isWrittenWith switched ⟨name, options⟩ = true ∧
        Filter.isWrittenWith switched ⟨name, more⟩ = true := by
  rw [Filter.isWrittenWith, List.all_append, Bool.and_eq_true]
  rfl

theorem isWrittenWith_flip {direction : Json} {filters : List Filter}
    (h : flip direction = .ok filters) :
    ∀ filter ∈ filters, filter.isWrittenWith switched = true := by
  rw [flip] at h
  obtain ⟨key, -, h⟩ := bind_eq_ok.mp h
  have hplain : ∀ name : String, (Filter.named name []).isWrittenWith switched = true := fun _ ↦ rfl
  split at h <;> cases h <;> simp [hplain]

/-- A filter that is called with all parameters writes all of them, but for what a window
replaces. -/
theorem isWrittenWith_called {name : String} {params : List (String × ParamValue)} {filter : Filter}
    (h : Filter.called name [] ((params.map fun (key, value) ↦ (key, Layer.paramJson value)).map
      fun (key, value) ↦ (key, (present? value).map OptionValue.ofJson)) = .ok filter) :
    filter.isWrittenWith switched = true ↔ ∀ param ∈ params,
      (switched = true ∧ isTimed name = true ∧ param.1 = "enable") ∨ param.2.isShort = true := by
  have hpresent : ∀ value : ParamValue,
      present? (Layer.paramJson value) = some (Layer.paramJson value) := by
    rintro (_ | _ | _) <;> rfl
  rw [Filter.called] at h
  split at h
  · cases h
  · cases h
    simp only [Filter.isWrittenWith, Filter.withArgs, Filter.named, List.map_nil, List.nil_append,
      List.map_map, List.filterMap_map, Function.comp_def, hpresent, Option.map_some,
      List.filterMap_eq_map', List.all_map, List.all_eq_true, Bool.or_eq_true, Bool.and_eq_true,
      Option.some_beq_some, beq_iff_eq, ParamValue.isWritable_ofJson_paramJson, and_assoc]

/-- An effect that passes nothing on and is no grain asks nothing so that it is written. -/
theorem isWritten_of_passedKeys_nil {effect : Effect} (hkeys : passedKeys effect.name = some [])
    (hname : effect.name ≠ "film_grain") : effect.IsWritten switched :=
  (isWritten_iff_of_passed switched hkeys hname).mpr (List.forall_mem_nil _)

/-- **The filters of an effect are written just if its parameters are what it asks for.** -/
theorem isWritten_iff {effect : Effect} {filters : List Filter} (h : effect.filters = .ok filters) :
    (∀ filter ∈ filters, filter.isWrittenWith switched = true) ↔ effect.IsWritten switched := by
  obtain ⟨name, params⟩ := effect
  rw [Effect.filters, filtersOf.eq_def] at h
  dsimp only at h
  simp only [lookup?_paramJson] at h
  split at h
  case h_1 | h_2 | h_3 | h_4 | h_5 | h_7 | h_8 | h_20 =>
    cases h
    rw [isWritten_iff_of_passed switched rfl (by simp), List.forall_mem_singleton,
      isWrittenWith_present switched _ (by simp)]
    simp [given, isWritable_getD]
  case h_6 | h_17 | h_19 =>
    cases h
    rw [isWritten_iff_of_passed switched rfl (by simp), List.forall_mem_singleton,
      isWrittenWith_withArgs]
    simp [given, isWritable_getD]
  case h_9 | h_10 =>
    cases h
    rw [List.forall_mem_singleton]
    exact iff_of_true (isWrittenWith_mixer switched _ (by simp))
      (isWritten_of_passedKeys_nil switched rfl (by simp))
  case h_11 | h_18 =>
    cases h
    rw [List.forall_mem_singleton]
    exact iff_of_true rfl (isWritten_of_passedKeys_nil switched rfl (by simp))
  case h_12 =>
    rw [isWritten_iff_of_passed switched rfl (by simp)]
    cases hangle : Json.lookup? "angle" params with
    | some value =>
      rw [hangle] at h
      cases h
      rw [List.forall_mem_singleton, isWrittenWith_present switched _ (by simp)]
      simp [given, hangle, ParamValue.isWritable_ofJson_paramJson]
    | none =>
      rw [hangle] at h
      obtain ⟨n, hn, h⟩ := bind_eq_ok.mp h
      cases h
      have hshort := isWritable_angle hn
      rw [List.forall_mem_singleton, isWrittenWith_named switched _ (by simp)]
      exact iff_of_true (by simpa [OptionValue.isWritable] using hshort) (by simp [given, hangle])
  case h_13 =>
    obtain ⟨n, hn, h⟩ := bind_eq_ok.mp h
    obtain ⟨m, hm, h⟩ := bind_eq_ok.mp h
    obtain ⟨k, hk, h⟩ := bind_eq_ok.mp h
    cases h
    rw [List.forall_mem_singleton, isWrittenWith_named switched _ (by simp)]
    have hgrain (flags : String) : (∀ option ∈ [("alls", OptionValue.num (.whole k)),
        ("allf", .plain flags)], option.2.isWritable = true) ↔
          (Number.whole k).isWritable = true := by
      simp [OptionValue.isWritable]
    rw [hgrain, isWritable_grain hn hm hk]
    exact ⟨fun h ↦ ⟨by simp [passedKeys], fun _ ↦ h, by simp [passedKeys]⟩, fun h ↦ h.grain rfl⟩
  case h_14 =>
    obtain ⟨radians, hradians, h⟩ := bind_eq_ok.mp h
    cases h
    have hshort := isWritable_angle hradians
    rw [isWritten_iff_of_passed switched rfl (by simp), List.forall_mem_singleton,
      isWrittenWith_append]
    have hturn : Filter.isWrittenWith switched ⟨"rotate",
        (Filter.withArgs "rotate" [.num radians]).options⟩ = true := by
      refine (isWrittenWith_withArgs switched "rotate" _).mpr ?_
      simpa [OptionValue.isWritable] using hshort
    rw [and_iff_right hturn]
    refine (isWrittenWith_present switched "rotate" (by simp)).trans ?_
    simp [given, isWritable_getD]
  case h_15 =>
    exact iff_of_true (isWrittenWith_flip switched h)
      (isWritten_of_passedKeys_nil switched rfl (by simp))
  case h_16 =>
    obtain ⟨e, slowed, he, hslowed, hshort⟩ := exists_slowed (Json.lookup? "factor" params)
    rw [bind_of_ok he, bind_of_ok hslowed] at h
    cases h
    rw [isWritten_iff_of_passed switched rfl (by simp), List.forall_mem_singleton,
      isWrittenWith_withArgs, List.forall_mem_singleton, OptionValue.isWritable, hshort]
    simp [given]
  case h_21 =>
    obtain ⟨filter, hfilter, h⟩ := bind_eq_ok.mp h
    cases h
    rw [List.forall_mem_singleton, isWrittenWith_called switched hfilter]
    have hkeys : passedKeys name = none := by simp [passedKeys, *]
    exact ⟨fun h ↦ ⟨by simp [hkeys], fun hname ↦ by contradiction, fun _ ↦ h⟩,
      fun h ↦ h.called hkeys⟩

end

end Effect
end Montage
