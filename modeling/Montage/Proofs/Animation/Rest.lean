import Mathlib.Analysis.SpecialFunctions.Trigonometric.Basic
import Montage.Proofs.Animation.Course
import Montage.Proofs.Animation.Valid

/-!
# Where an animation rests

Once an animation is over, the text is drawn as it rests: a slide has arrived, a bounce and a shake
have ended, a growing text has its size, and what fades in is opaque (`textOptions_rest`).  A fade
keeps within its bounds at all times, is not seen before the animation begins nor once the window
is closed, and is opaque in between.

Before an animation begins only what is made of the share that is over stands still.  The sine of a
bounce, a shake and a pulse has been running since ever: nothing holds it back while the animation
waits, so until it begins the text rests just at the zeros of the sine, or where the motion moves
nothing at all (`textOptions_waits_iff`).
-/

set_option autoImplicit false

namespace Montage

variable {K : Type} [Field K] [LinearOrder K] [IsStrictOrderedRing K]

/-! ## Courses that are over, and courses that have not begun -/

namespace Course

variable {course : Course K} {instant : Instant K} (hlength : 0 < course.length)
include hlength

theorem share_of_begins (h : instant.time ≤ course.begins) : course.share instant = 0 :=
  ramp_of_nonpos hlength (sub_nonpos.mpr h)

theorem share_of_ends (h : course.ends ≤ instant.time) : course.share instant = 1 :=
  ramp_of_le hlength (le_sub_iff_add_le'.mpr h)

theorem left_of_le {last : K} (h : last ≤ instant.time) : course.left instant last = 0 :=
  ramp_of_nonpos hlength (sub_nonpos.mpr h)

theorem left_of_ge {last : K} (h : instant.time ≤ last - course.length) :
    course.left instant last = 1 :=
  ramp_of_le hlength (by rwa [le_sub_comm] at h)

omit hlength [IsStrictOrderedRing K] in
theorem gate_of_ends (h : course.ends ≤ instant.time) : course.gate instant = 0 :=
  if_neg (not_lt.mpr h)

theorem gate_of_begins (h : instant.time < course.begins) : course.gate instant = 1 :=
  if_pos (h.trans (lt_add_of_pos_right _ hlength))

end Course

namespace Animation

variable {animation : Animation} {course : Course K} {instant : Instant K}

section

variable (hlength : 0 < course.length) (ended : course.ends ≤ instant.time)
include hlength ended

theorem ahead_of_ends : ahead course instant = 0 := by
  rw [ahead, course.share_of_ends hlength ended, sub_self, mul_zero]

theorem across_of_ends : animation.across course instant = 0 := by
  rw [across.eq_def]
  cases animation.motion <;> try rfl
  case slideIn => cases animation.direction.getD .left <;> simp [ahead_of_ends hlength ended]
  case shake => simp [course.gate_of_ends ended]

theorem down_of_ends : animation.down course instant = 0 := by
  rw [down.eq_def]
  cases animation.motion <;> try rfl
  case slideIn => cases animation.direction.getD .left <;> simp [ahead_of_ends hlength ended]
  case bounce => simp [course.gate_of_ends ended]

end

/-- A valid animation lasts for some time, which is read exactly. -/
theorem HasCourse.length_pos {start : Number} (has : animation.HasCourse start course)
    (valid : animation.IsValid) : 0 < course.length := by
  obtain ⟨q, hq, hlength⟩ := Number.valueIn_eq_some.mp has.length
  have hpositive : 0 < q := (Quantity.lt_iff_value? rfl hq).mp valid.duration
  rw [← (ratIn_eq_some.mp hlength).2]
  exact Rat.cast_pos.mpr hpositive

/-! ## Rest -/

/-- The text is drawn as it rests, as far as the kind of the animation says anything about it. -/
structure IsAtRest (animation : Animation) (options : List (String × OptionValue))
    (instant : Instant K) (x y fontSize : Expr) (size : K) : Prop where
  x : animation.motion = .slideIn ∨ animation.motion = .bounce ∨ animation.motion = .shake →
    drawn options instant "x" x = x.valueIn instant
  y : animation.motion = .slideIn ∨ animation.motion = .bounce ∨ animation.motion = .shake →
    drawn options instant "y" y = y.valueIn instant
  size : animation.motion = .scale ∨ animation.motion = .zoomIn →
    drawn options instant "fontsize" fontSize = some (max 1 size)
  opacity : animation.motion = .fadeIn ∨ animation.motion = .slideIn →
    drawnOpacity options instant = some 1

/-- An opacity that rises when an animation begins, and that falls before the window closes. -/
structure RisesAndFalls (course : Course K) (instant : Instant K) (last opacity : K) : Prop where
  nonneg : 0 ≤ opacity
  le_one : opacity ≤ 1
  before : instant.time ≤ course.begins → opacity = 0
  after : last ≤ instant.time → opacity = 0
  between : course.ends ≤ instant.time → instant.time ≤ last - course.length → opacity = 1

theorem min_risesAndFalls (hlength : 0 < course.length) (last : K) :
    RisesAndFalls course instant last (min (course.share instant) (course.left instant last)) where
  nonneg := le_min (ramp_nonneg _ _) (ramp_nonneg _ _)
  le_one := (min_le_left _ _).trans (ramp_le_one _ _)
  before h := by
    rw [course.share_of_begins hlength h]
    exact min_eq_left (ramp_nonneg _ _)
  after h := by
    rw [course.left_of_le hlength h]
    exact min_eq_right (ramp_nonneg _ _)
  between hover hearly := by
    rw [course.share_of_ends hlength hover, course.left_of_ge hlength hearly, min_self]

variable {stop : Option Expr} {x y fontSize : Expr} {size : K}
  {options : List (String × OptionValue)}

theorem Follows.isAtRest (follows : animation.Follows course stop instant x y size fontSize options)
    (hlength : 0 < course.length) (ended : course.ends ≤ instant.time) :
    animation.IsAtRest options instant x y fontSize size where
  x _ := by simp [follows.x, across_of_ends hlength ended]
  y _ := by simp [follows.y, down_of_ends hlength ended]
  size hmotion := by
    rw [follows.size]
    rcases hmotion with hmotion | hmotion <;>
      simp [sized, hmotion, course.share_of_ends hlength ended]
  opacity hmotion := by
    rw [follows.opacity]
    rcases hmotion with hmotion | hmotion <;>
      simp [Animation.opacity, hmotion, course.share_of_ends hlength ended]

section

variable [rounding : Rounding] (exact : rounding.IsExact) (standard : instant.IsStandard)
  {start : Number} (valid : animation.IsValid) (has : animation.HasCourse start course)
include exact standard valid has

/-- **An animation ends where the text rests.**  From the end of the animation on a slide, a bounce
and a shake leave the text where it rests, a growing text has its size, but at least one, and what
fades in is opaque; and a fade rises from nothing when the animation begins, and is gone again when
the window closes. -/
theorem textOptions_rest (stop : Option Expr) (x y : Expr)
    (hsize : fontSize.valueIn instant = some size) :
    ∃ options, animation.textOptions start stop x y fontSize = .ok options ∧
      (course.ends ≤ instant.time → animation.IsAtRest options instant x y fontSize size) ∧
      (animation.motion = .fade → ∀ e last, stop = some e → e.valueIn instant = some last →
        ∃ opacity, drawnOpacity options instant = some opacity ∧
          RisesAndFalls course instant last opacity) := by
  have hlength : 0 < course.length := has.length_pos valid
  obtain ⟨options, hoptions, follows⟩ :=
    textOptions_course exact standard stop x y hsize has hlength.ne'
  refine ⟨options, hoptions, follows.isAtRest hlength, ?_⟩
  rintro hmotion e last rfl hlast
  refine ⟨_, ?_, min_risesAndFalls hlength last⟩
  rw [follows.opacity]
  simp [Animation.opacity, hmotion, hlast]

end

/-- A slide that comes from the left, by a negative way, after a second. -/
def lateSlide : Animation where
  motion := .slideIn
  delay := .finite 1
  intensity := some (.finite (-30))

/-- The slide of half a second has arrived after two seconds. -/
theorem lateSlide_rests : let _ : Rounding := .exact
    ∃ options, lateSlide.textOptions 0 none (.num 40) (.num 60) (.num 48) = .ok options ∧
      drawn options (Instant.standard (2 : Rat) 3 id) "x" (.num 40) = some 40 ∧
      drawnOpacity options (Instant.standard (2 : Rat) 3 id) = some 1 := by
  intro _
  have hcourse : lateSlide.HasCourse 0 (⟨0, 1, 1 / 2, -30⟩ : Course Rat) :=
    ⟨by decide +kernel, by decide +kernel, by decide +kernel, by decide +kernel⟩
  obtain ⟨options, hoptions, hrest, -⟩ := textOptions_rest Rounding.exact_isExact
    (Instant.standard_isStandard (2 : Rat) 3 id) ⟨by decide +kernel, by decide +kernel⟩ hcourse none
    (.num 40) (.num 60) (show (Expr.num 48).valueIn _ = some (48 : Rat) by decide +kernel)
  have hover := hrest (by decide +kernel)
  have hplace : (Expr.num 40).valueIn (Instant.standard (2 : Rat) 3 id) = some 40 := by
    decide +kernel
  exact ⟨options, hoptions, (hover.x (.inl rfl)).trans hplace, hover.opacity (.inr rfl)⟩

/-! ## Delay -/

/-- The text is drawn at the place and in the size at which it rests. -/
structure StandsStill (options : List (String × OptionValue)) (instant : Instant K)
    (x y fontSize : Expr) : Prop where
  x : drawn options instant "x" x = x.valueIn instant
  y : drawn options instant "y" y = y.valueIn instant
  size : drawn options instant "fontsize" fontSize = fontSize.valueIn instant

theorem Follows.standsStill_iff
    (follows : animation.Follows course stop instant x y size fontSize options) {x₀ y₀ : K}
    (hx : x.valueIn instant = some x₀) (hy : y.valueIn instant = some y₀)
    (hsize : fontSize.valueIn instant = some size) :
    StandsStill options instant x y fontSize ↔ animation.across course instant = 0 ∧
      animation.down course instant = 0 ∧ animation.sized course instant size = size := by
  constructor
  · rintro ⟨h₁, h₂, h₃⟩
    rw [follows.x, hx] at h₁
    rw [follows.y, hy] at h₂
    rw [follows.size, hsize] at h₃
    exact ⟨by simpa using h₁, by simpa using h₂, by simpa using h₃⟩
  · rintro ⟨h₁, h₂, h₃⟩
    exact ⟨by simp [follows.x, h₁], by simp [follows.y, h₂], by rw [follows.size, h₃, hsize]⟩

section

variable [rounding : Rounding] (exact : rounding.IsExact) (standard : instant.IsStandard)
  {start : Number} (valid : animation.IsValid) (has : animation.HasCourse start course)
include exact standard valid has

/-- **Nothing holds a bounce, a shake or a pulse back while it waits.**  Before it begins the text
rests just where the sine of its angle is zero, or where it moves nothing. -/
theorem textOptions_waits_iff (hmotion : animation.motion = .bounce ∨ animation.motion = .shake ∨
      animation.motion = .pulse) (stop : Option Expr) {x₀ y₀ : K}
    (hx : x.valueIn instant = some x₀) (hy : y.valueIn instant = some y₀)
    (hsize : fontSize.valueIn instant = some size) (hsome : size ≠ 0)
    (early : instant.time < course.begins) :
    ∃ options, animation.textOptions start stop x y fontSize = .ok options ∧
      (StandsStill options instant x y fontSize ↔
        course.amount * instant.sin (animation.angle course instant) = 0) := by
  have hlength : 0 < course.length := has.length_pos valid
  obtain ⟨options, hoptions, follows⟩ :=
    textOptions_course exact standard stop x y hsize has hlength.ne'
  refine ⟨options, hoptions, (follows.standsStill_iff hx hy hsize).trans ?_⟩
  rcases hmotion with hmotion | hmotion | hmotion <;>
    simp [across, down, sized, hmotion, course.gate_of_begins hlength early, hsome]

end

/-- A bounce that waits for a second, and that lifts the text by twenty pixels. -/
def lateBounce : Animation where
  motion := .bounce
  delay := .finite 1

/-- An eighth of a second before it begins the bounce has lifted the text. -/
theorem lateBounce_lifts : let _ : Rounding := .exact
    ∃ options, lateBounce.textOptions 0 none (.num 40) (.num 60) (.num 48) = .ok options ∧
      ¬ StandsStill options (Instant.standard (7 / 8) Real.pi Real.sin) (.num 40) (.num 60)
        (.num 48) := by
  intro _
  have hcourse : lateBounce.HasCourse 0 (⟨0, 1, 1 / 2, 20⟩ : Course Real) := by
    refine ⟨?_, ?_, ?_, ?_⟩
    · exact (Number.valueIn_whole 0).trans (by simp)
    · exact (Number.valueIn_of_value? (q := 1) rfl).trans (by simp)
    · exact (Number.valueIn_of_value? (q := 1 / 2) rfl).trans (by simp)
    · exact (Number.valueIn_of_value? (q := 20) rfl).trans (by simp)
  obtain ⟨options, hoptions, hwaits⟩ := textOptions_waits_iff Rounding.exact_isExact
    (Instant.standard_isStandard (7 / 8) Real.pi Real.sin)
    ⟨by decide +kernel, by decide +kernel⟩ hcourse (.inl rfl) none
    (Expr.valueIn_whole 40) (Expr.valueIn_whole 60) (Expr.valueIn_whole 48) (by norm_num)
    (by norm_num [Instant.time, Instant.standard, Course.begins])
  refine ⟨options, hoptions, fun h ↦ ?_⟩
  have hzero := hwaits.mp h
  have hangle : lateBounce.angle (⟨0, 1, 1 / 2, 20⟩ : Course Real)
      (Instant.standard (7 / 8) Real.pi Real.sin) = -(Real.pi / 2) := by
    simp only [angle, lateBounce, Course.elapsed, Course.begins, Instant.time, Instant.pi,
      Instant.standard]
    ring
  rw [hangle] at hzero
  simp [Instant.sin, Instant.standard] at hzero

end Animation
end Montage
