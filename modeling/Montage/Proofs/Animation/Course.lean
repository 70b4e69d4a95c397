import Montage.Animation.Motion
import Montage.Proofs.Expr.Exact

/-!
# The course of an animation

What an animation makes of a drawn text at each instant, as functions of the time: how far it moves
the text across and down, which size the text has, and how opaque it is.  The options that replace
those of the text at rest are expressions that are synthesised from the same numbers, and where
nothing is rounded they come to exactly these functions (`textOptions_course`).

The numbers of an animation are read exactly (`HasCourse`), so they are finite.  The sine and the
number pi are those of the instant, whatever they are.
-/

set_option autoImplicit false

namespace Montage

variable {K : Type} [Field K] [LinearOrder K] [IsStrictOrderedRing K]

/-! ## Ramps -/

/-- How much of a span is over: none of it when nothing of the time has elapsed, and all of it when
the whole length has. -/
def ramp (elapsed length : K) : K := min (max (elapsed / length) 0) 1

theorem ramp_nonneg (elapsed length : K) : 0 ≤ ramp elapsed length :=
  le_min (le_max_right _ _) zero_le_one

omit [IsStrictOrderedRing K] in
theorem ramp_le_one (elapsed length : K) : ramp elapsed length ≤ 1 := min_le_right _ _

theorem ramp_of_nonpos {elapsed length : K} (hlength : 0 < length) (h : elapsed ≤ 0) :
    ramp elapsed length = 0 := by
  rw [ramp, max_eq_right (div_nonpos_of_nonpos_of_nonneg h hlength.le), min_eq_left zero_le_one]

theorem ramp_of_le {elapsed length : K} (hlength : 0 < length) (h : length ≤ elapsed) :
    ramp elapsed length = 1 := by
  have hone : 1 ≤ elapsed / length := (one_le_div hlength).mpr h
  rw [ramp, max_eq_left (zero_le_one.trans hone), min_eq_right hone]

/-! ## Courses -/

/-- The numbers of an animation in a window of time: when the window begins, how long the animation
waits and lasts, and how far it moves. -/
structure Course (K : Type) where
  start : K
  delay : K
  length : K
  amount : K

namespace Course

/-- When the animation begins. -/
def begins (course : Course K) : K := course.start + course.delay

/-- When the animation is over. -/
def ends (course : Course K) : K := course.begins + course.length

/-- The time since the animation began. -/
def elapsed (course : Course K) (instant : Instant K) : K := instant.time - course.begins

/-- How much of the animation is over. -/
def share (course : Course K) (instant : Instant K) : K :=
  ramp (course.elapsed instant) course.length

/-- How much of the length of the animation is left before some instant. -/
def left (course : Course K) (instant : Instant K) (last : K) : K :=
  ramp (last - instant.time) course.length

/-- One until the animation is over, and zero from then on. -/
def gate (course : Course K) (instant : Instant K) : K :=
  if instant.time < course.ends then 1 else 0

end Course

namespace Animation

/-- The numbers of an animation in a window from `start` on are those of a course. -/
structure HasCourse (animation : Animation) (start : Number) (course : Course K) : Prop where
  start : start.valueIn K = some course.start
  delay : (Number.real animation.delay).valueIn K = some course.delay
  length : (Number.real animation.duration).valueIn K = some course.length
  amount : (Number.real animation.amount).valueIn K = some course.amount

/-- The angle at which a motion that swings is. -/
def angle (animation : Animation) (course : Course K) (instant : Instant K) : K :=
  match animation.motion with
  | .bounce => 2 * instant.pi * course.elapsed instant / course.length
  | .pulse => 2 * instant.pi * course.elapsed instant
  | .shake => 50 * course.elapsed instant
  | _ => 0

/-- How far a slide still has to go. -/
def ahead (course : Course K) (instant : Instant K) : K :=
  course.amount * (1 - course.share instant)

/-- How far the text is moved to the right. -/
def across (animation : Animation) (course : Course K) (instant : Instant K) : K :=
  match animation.motion with
  | .slideIn =>
    match animation.direction.getD .left with
    | .left => -ahead course instant
    | .right => ahead course instant
    | .up | .down => 0
  | .shake =>
    course.amount * instant.sin (animation.angle course instant) * course.gate instant
  | _ => 0

/-- How far the text is moved down. -/
def down (animation : Animation) (course : Course K) (instant : Instant K) : K :=
  match animation.motion with
  | .slideIn =>
    match animation.direction.getD .left with
    | .left | .right => 0
    | .up => ahead course instant
    | .down => -ahead course instant
  | .bounce =>
    -(course.amount * |instant.sin (animation.angle course instant)| * course.gate instant)
  | _ => 0

/-- The size of a text that has some size at rest. -/
def sized (animation : Animation) (course : Course K) (instant : Instant K) (size : K) : K :=
  match animation.motion with
  | .scale | .zoomIn => max 1 (size * course.share instant)
  | .pulse => size * (1 + course.amount * instant.sin (animation.angle course instant))
  | _ => size

/-- How opaque the text is, if the animation says so, in a window that closes at `stop` or never. -/
def opacity (animation : Animation) (course : Course K) (stop : Option Expr)
    (instant : Instant K) : Option K :=
  match animation.motion, stop with
  | .fadeIn, _ | .slideIn, _ | .fade, none => some (course.share instant)
  | .fadeOut, some stop => (stop.valueIn instant).map (course.left instant)
  | .fade, some stop =>
    (stop.valueIn instant).map fun last ↦ min (course.share instant) (course.left instant last)
  | _, _ => none

/-- What an option of drawn text comes to that rests at an expression, unless it is replaced. -/
def drawn (options : List (String × OptionValue)) (instant : Instant K) (key : String)
    (rest : Expr) : Option K :=
  ((Json.lookup? key options).getD (.expr rest)).valueIn instant

/-- How opaque options say that the text is, if they do. -/
def drawnOpacity (options : List (String × OptionValue)) (instant : Instant K) : Option K :=
  (Json.lookup? "alpha" options).bind (OptionValue.valueIn instant)

/-- The options that replace those of a text follow the course of an animation. -/
structure Follows (animation : Animation) (course : Course K) (stop : Option Expr)
    (instant : Instant K) (x y : Expr) (size : K) (fontSize : Expr)
    (options : List (String × OptionValue)) : Prop where
  x : drawn options instant "x" x = (x.valueIn instant).map (· + animation.across course instant)
  y : drawn options instant "y" y = (y.valueIn instant).map (· + animation.down course instant)
  size : drawn options instant "fontsize" fontSize = some (animation.sized course instant size)
  opacity : drawnOpacity options instant = animation.opacity course stop instant

section

variable {instant : Instant K} {key : String} {rest : Expr}
omit [IsStrictOrderedRing K]

@[simp]
theorem drawn_nil : drawn [] instant key rest = rest.valueIn instant := rfl

@[simp]
theorem drawn_cons (given : String) (value : OptionValue) (options : List (String × OptionValue)) :
    drawn ((given, value) :: options) instant key rest =
      if given = key then value.valueIn instant else drawn options instant key rest := by
  by_cases h : given = key <;> simp [drawn, Json.lookup?, h]

@[simp]
theorem drawnOpacity_nil : drawnOpacity [] instant = none := rfl

@[simp]
theorem drawnOpacity_cons (given : String) (value : OptionValue)
    (options : List (String × OptionValue)) : drawnOpacity ((given, value) :: options) instant =
      if given = "alpha" then value.valueIn instant else drawnOpacity options instant := by
  by_cases h : given = "alpha" <;> simp [drawnOpacity, Json.lookup?, h]

end

/-! ## Building blocks -/

section

variable [rounding : Rounding] (exact : rounding.IsExact) (instant : Instant K) {course : Course K}
  {begins duration : Number}
include exact

theorem elapsed_valueIn (hbegins : begins.valueIn K = some course.begins) :
    ∃ elapsed, Expr.time.sub (.num begins) = .ok elapsed ∧
      elapsed.valueIn instant = some (course.elapsed instant) := by
  have hvalue : (Expr.num begins).valueIn instant = some course.begins := by
    rw [Expr.valueIn_num, hbegins]
  obtain ⟨elapsed, helapsed, hdifference⟩ := Expr.sub_valueIn exact .time hvalue
  exact ⟨elapsed, helapsed, hdifference⟩

theorem turns_valueIn (hbegins : begins.valueIn K = some course.begins) :
    ∃ e, turns begins = .ok e ∧
      e.valueIn instant = some (2 * instant.pi * course.elapsed instant) := by
  have htwo : (Expr.num 2).valueIn instant = some 2 := (Expr.valueIn_whole 2).trans (by simp)
  have hpi : Expr.pi.valueIn instant = some instant.pi := Expr.valueIn_var "PI"
  obtain ⟨turn, hturn, hcircle⟩ := Expr.mul_valueIn exact htwo hpi
  obtain ⟨elapsed, helapsed, hvalue⟩ := elapsed_valueIn exact instant hbegins
  obtain ⟨e, he, hproduct⟩ := Expr.mul_valueIn exact hcircle hvalue
  exact ⟨e, bind_eq_ok.mpr ⟨turn, hturn, bind_eq_ok.mpr ⟨elapsed, helapsed, he⟩⟩, hproduct⟩

variable {instant} (standard : instant.IsStandard)
include standard

theorem progress_valueIn (hbegins : begins.valueIn K = some course.begins)
    (hduration : duration.valueIn K = some course.length) (hlasts : course.length ≠ 0) :
    ∃ e, progress begins duration = .ok e ∧
      e.valueIn instant = some (course.share instant) := by
  obtain ⟨elapsed, helapsed, hvalue⟩ := elapsed_valueIn exact instant hbegins
  have hlength : (Expr.num duration).valueIn instant = some course.length := by
    rw [Expr.valueIn_num, hduration]
  obtain ⟨share, hshare, hquotient⟩ := Expr.div_valueIn exact elapsed hlength hlasts
  rw [hvalue, Option.map_some] at hquotient
  exact ⟨_, bind_eq_ok.mpr ⟨elapsed, helapsed, bind_eq_ok.mpr ⟨share, hshare, rfl⟩⟩,
    Expr.clip_valueIn standard hquotient⟩

theorem remainder_valueIn (stop : Expr) (hduration : duration.valueIn K = some course.length)
    (hlasts : course.length ≠ 0) :
    ∃ e, remainder stop duration = .ok e ∧
      e.valueIn instant = (stop.valueIn instant).map (course.left instant) := by
  obtain ⟨left, hleft, hvalue⟩ : ∃ left, stop.sub .time = .ok left ∧
      left.valueIn instant = (stop.valueIn instant).map (· - instant.time) :=
    Expr.sub_valueIn exact stop (Expr.valueIn_var "t")
  have hlength : (Expr.num duration).valueIn instant = some course.length := by
    rw [Expr.valueIn_num, hduration]
  obtain ⟨share, hshare, hquotient⟩ := Expr.div_valueIn exact left hlength hlasts
  refine ⟨_, bind_eq_ok.mpr ⟨left, hleft, bind_eq_ok.mpr ⟨share, hshare, rfl⟩⟩, ?_⟩
  rw [hvalue] at hquotient
  cases hstop : stop.valueIn instant with
  | some last =>
    rw [hstop] at hquotient
    exact Expr.clip_valueIn standard hquotient
  | none =>
    rw [hstop] at hquotient
    simp [Expr.clip, Expr.valueIn, hquotient]

theorem during_valueIn (hbegins : begins.valueIn K = some course.begins)
    (hduration : duration.valueIn K = some course.length) :
    ∃ e, during begins duration = .ok e ∧ e.valueIn instant = some (course.gate instant) := by
  obtain ⟨stop, hstop, hsum⟩ := begins.add_valueIn exact hduration
  rw [hbegins, Option.map_some] at hsum
  refine ⟨_, bind_eq_ok.mpr ⟨stop, hstop, rfl⟩, ?_⟩
  have hvalues : Expr.valuesIn instant [.time, .num stop] = some [instant.time, course.ends] := by
    simp [Expr.time, hsum, Instant.time, Course.ends]
  rw [Expr.valueIn_call hvalues, standard.lt]
  rfl

end

/-! ## Motions -/

variable [rounding : Rounding] (exact : rounding.IsExact) {instant : Instant K}
  (standard : instant.IsStandard) {animation : Animation} {course : Course K} {begins : Number}
  {fontSize : Expr} {size : K} (hbegins : begins.valueIn K = some course.begins)
  (hlength : (Number.real animation.duration).valueIn K = some course.length)
  (hlasts : course.length ≠ 0)
include exact standard hbegins hlength hlasts

/-- What every motion is made of has its value. -/
theorem clocks_valueIn (stop : Option Expr) :
    ∃ arrived leaving, progress begins (.real animation.duration) = .ok arrived ∧
      (stop.mapM fun stop ↦ remainder stop (.real animation.duration)) = .ok leaving ∧
      arrived.valueIn instant = some (course.share instant) ∧
      leaving.map (Expr.valueIn instant) =
        stop.map fun stop ↦ (stop.valueIn instant).map (course.left instant) := by
  obtain ⟨arrived, harrived, hshare⟩ := progress_valueIn exact standard hbegins hlength hlasts
  refine ⟨arrived, ?_⟩
  cases stop with
  | none => exact ⟨none, harrived, rfl, hshare, rfl⟩
  | some stop =>
    obtain ⟨e, he, hvalue⟩ := remainder_valueIn exact standard stop hlength hlasts
    exact ⟨some e, harrived, by simp [he], hshare, by simp [hvalue]⟩

variable (hamount : (Expr.quantity animation.amount).valueIn instant = some course.amount)
  (stop : Option Expr) (x y : Expr) (hsize : fontSize.valueIn instant = some size)
include hsize

/-- A fade is as opaque as the share that is over, or that is left. -/
theorem textOptionsFrom_fade (hmotion : animation.motion = .fadeIn ∨ animation.motion = .fadeOut ∨
      animation.motion = .fade) :
    ∃ options, animation.textOptionsFrom begins stop x y fontSize = .ok options ∧
      animation.Follows course stop instant x y size fontSize options := by
  obtain ⟨arrived, leaving, harrived, hleaving, hshare, hleft⟩ :=
    clocks_valueIn exact standard hbegins hlength hlasts stop
  rw [textOptionsFrom]
  dsimp only
  rw [bind_of_ok harrived, bind_of_ok hleaving]
  rcases hmotion with hmotion | hmotion | hmotion <;> rw [hmotion] <;> refine ⟨_, rfl, ?_⟩
  · constructor <;> simp [across, down, sized, opacity, hmotion, hsize, hshare]
  -- What is left of the window has a value just if the window closes.
  · cases leaving <;> cases stop <;> simp at hleft <;> constructor <;>
      simp [across, down, sized, opacity, hmotion, hsize, hleft]
  · cases leaving <;> cases stop <;> simp at hleft <;> constructor <;>
      simp [across, down, sized, opacity, hmotion, hsize, hshare, hleft,
        Expr.min_valueIn standard hshare, Function.comp_def]

include hamount

/-- A slide comes nearer until it has arrived. -/
theorem textOptionsFrom_slideIn (hmotion : animation.motion = .slideIn) :
    ∃ options, animation.textOptionsFrom begins stop x y fontSize = .ok options ∧
      animation.Follows course stop instant x y size fontSize options := by
  obtain ⟨arrived, leaving, harrived, hleaving, hshare, -⟩ :=
    clocks_valueIn exact standard hbegins hlength hlasts stop
  have hone : (Expr.num 1).valueIn instant = some 1 := (Expr.valueIn_whole 1).trans (by simp)
  obtain ⟨left, hleft, hrest⟩ := Expr.sub_valueIn exact (.num 1) hshare
  rw [hone, Option.map_some] at hrest
  obtain ⟨ahead, hahead, hfar⟩ := Expr.mul_valueIn exact hamount hrest
  rw [textOptionsFrom]
  dsimp only
  rw [bind_of_ok harrived, bind_of_ok hleaving, hmotion]
  dsimp only
  rw [bind_of_ok hleft, bind_of_ok hahead]
  cases hdirection : animation.direction.getD .left <;> dsimp only
  case left =>
    obtain ⟨moved, hmoved, hvalue⟩ := Expr.sub_valueIn exact x hfar
    rw [hmoved]
    refine ⟨_, rfl, ?_⟩
    constructor <;> simp [across, down, sized, opacity, hmotion, hdirection, hsize, hshare, hvalue,
      Animation.ahead, sub_eq_add_neg]
  case right =>
    obtain ⟨moved, hmoved, hvalue⟩ := Expr.add_valueIn exact x hfar
    rw [hmoved]
    refine ⟨_, rfl, ?_⟩
    constructor <;> simp [across, down, sized, opacity, hmotion, hdirection, hsize, hshare, hvalue,
      Animation.ahead]
  case up =>
    obtain ⟨moved, hmoved, hvalue⟩ := Expr.add_valueIn exact y hfar
    rw [hmoved]
    refine ⟨_, rfl, ?_⟩
    constructor <;> simp [across, down, sized, opacity, hmotion, hdirection, hsize, hshare, hvalue,
      Animation.ahead]
  case down =>
    obtain ⟨moved, hmoved, hvalue⟩ := Expr.sub_valueIn exact y hfar
    rw [hmoved]
    refine ⟨_, rfl, ?_⟩
    constructor <;> simp [across, down, sized, opacity, hmotion, hdirection, hsize, hshare, hvalue,
      Animation.ahead, sub_eq_add_neg]

/-- A bounce lifts the text by the sine of its angle while it lasts. -/
theorem textOptionsFrom_bounce (hmotion : animation.motion = .bounce) :
    ∃ options, animation.textOptionsFrom begins stop x y fontSize = .ok options ∧
      animation.Follows course stop instant x y size fontSize options := by
  obtain ⟨arrived, leaving, harrived, hleaving, -, -⟩ :=
    clocks_valueIn exact standard hbegins hlength hlasts stop
  obtain ⟨turned, hturned, hturns⟩ := turns_valueIn exact instant hbegins
  have hspan : (Expr.num (.real animation.duration)).valueIn instant = some course.length := by
    rw [Expr.valueIn_num, hlength]
  obtain ⟨angle, hangle, hquotient⟩ := Expr.div_valueIn exact turned hspan hlasts
  rw [hturns, Option.map_some] at hquotient
  obtain ⟨height, hheight, hhigh⟩ :=
    Expr.mul_valueIn exact hamount (Expr.abs_valueIn standard (Expr.sin_valueIn hquotient))
  obtain ⟨lasting, hlasting, hgate⟩ := during_valueIn exact standard hbegins hlength
  obtain ⟨lift, hlift, hproduct⟩ := Expr.mul_valueIn exact hhigh hgate
  obtain ⟨moved, hmoved, hvalue⟩ := Expr.sub_valueIn exact y hproduct
  rw [textOptionsFrom]
  dsimp only
  rw [bind_of_ok harrived, bind_of_ok hleaving, hmotion]
  dsimp only
  rw [bind_of_ok hturned, bind_of_ok hangle, bind_of_ok hheight, bind_of_ok hlasting,
    bind_of_ok hlift, bind_of_ok hmoved]
  refine ⟨_, rfl, ?_⟩
  constructor <;> simp [across, down, sized, opacity, hmotion, hsize, hvalue, Animation.angle,
    sub_eq_add_neg]

/-- A shake moves the text by the sine of its angle while it lasts. -/
theorem textOptionsFrom_shake (hmotion : animation.motion = .shake) :
    ∃ options, animation.textOptionsFrom begins stop x y fontSize = .ok options ∧
      animation.Follows course stop instant x y size fontSize options := by
  obtain ⟨arrived, leaving, harrived, hleaving, -, -⟩ :=
    clocks_valueIn exact standard hbegins hlength hlasts stop
  obtain ⟨elapsed, helapsed, htime⟩ := elapsed_valueIn exact instant hbegins
  have hfifty : (Expr.num 50).valueIn instant = some 50 := (Expr.valueIn_whole 50).trans (by simp)
  obtain ⟨angle, hangle, hproduct⟩ := Expr.mul_valueIn exact hfifty htime
  obtain ⟨wave, hwave, hheight⟩ := Expr.mul_valueIn exact hamount (Expr.sin_valueIn hproduct)
  obtain ⟨lasting, hlasting, hgate⟩ := during_valueIn exact standard hbegins hlength
  obtain ⟨jitter, hjitter, hgated⟩ := Expr.mul_valueIn exact hheight hgate
  obtain ⟨moved, hmoved, hvalue⟩ := Expr.add_valueIn exact x hgated
  rw [textOptionsFrom]
  dsimp only
  rw [bind_of_ok harrived, bind_of_ok hleaving, hmotion]
  dsimp only
  rw [bind_of_ok helapsed, bind_of_ok hangle, bind_of_ok hwave, bind_of_ok hlasting,
    bind_of_ok hjitter, bind_of_ok hmoved]
  refine ⟨_, rfl, ?_⟩
  constructor <;> simp [across, down, sized, opacity, hmotion, hsize, hvalue, Animation.angle]

/-- A pulse grows and shrinks with the sine of its angle. -/
theorem textOptionsFrom_pulse (hmotion : animation.motion = .pulse) :
    ∃ options, animation.textOptionsFrom begins stop x y fontSize = .ok options ∧
      animation.Follows course stop instant x y size fontSize options := by
  obtain ⟨arrived, leaving, harrived, hleaving, -, -⟩ :=
    clocks_valueIn exact standard hbegins hlength hlasts stop
  obtain ⟨turned, hturned, hturns⟩ := turns_valueIn exact instant hbegins
  obtain ⟨wave, hwave, hheight⟩ := Expr.mul_valueIn exact hamount (Expr.sin_valueIn hturns)
  have hone : (Expr.num 1).valueIn instant = some 1 := (Expr.valueIn_whole 1).trans (by simp)
  obtain ⟨factor, hfactor, hsum⟩ := Expr.add_valueIn exact (.num 1) hheight
  rw [hone, Option.map_some] at hsum
  obtain ⟨grown, hgrown, hvalue⟩ := Expr.mul_valueIn exact hsize hsum
  rw [textOptionsFrom]
  dsimp only
  rw [bind_of_ok harrived, bind_of_ok hleaving, hmotion]
  dsimp only
  rw [bind_of_ok hturned, bind_of_ok hwave, bind_of_ok hfactor, bind_of_ok hgrown]
  refine ⟨_, rfl, ?_⟩
  constructor <;> simp [across, down, sized, opacity, hmotion, hvalue, Animation.angle]

omit hamount

/-- A growing text has its size once the motion is over. -/
theorem textOptionsFrom_scale (hmotion : animation.motion = .scale ∨ animation.motion = .zoomIn) :
    ∃ options, animation.textOptionsFrom begins stop x y fontSize = .ok options ∧
      animation.Follows course stop instant x y size fontSize options := by
  obtain ⟨arrived, leaving, harrived, hleaving, hshare, -⟩ :=
    clocks_valueIn exact standard hbegins hlength hlasts stop
  obtain ⟨grown, hgrown, hvalue⟩ := Expr.mul_valueIn exact hsize hshare
  rw [textOptionsFrom]
  dsimp only
  rw [bind_of_ok harrived, bind_of_ok hleaving]
  rcases hmotion with hmotion | hmotion <;> rw [hmotion] <;> dsimp only <;>
    rw [bind_of_ok hgrown] <;> refine ⟨_, rfl, ?_⟩ <;> constructor <;>
    simp [across, down, sized, opacity, hmotion, Expr.max_valueIn standard hvalue]

/-- A glow leaves the text where it is. -/
theorem textOptionsFrom_glow (hmotion : animation.motion = .glow) :
    ∃ options, animation.textOptionsFrom begins stop x y fontSize = .ok options ∧
      animation.Follows course stop instant x y size fontSize options := by
  obtain ⟨arrived, leaving, harrived, hleaving, -, -⟩ :=
    clocks_valueIn exact standard hbegins hlength hlasts stop
  rw [textOptionsFrom]
  dsimp only
  rw [bind_of_ok harrived, bind_of_ok hleaving, hmotion]
  refine ⟨_, rfl, ?_⟩
  constructor <;> simp [across, down, sized, opacity, hmotion, hsize]

omit exact standard hbegins hlength hlasts hsize

/-- The numbers of an animation are read exactly: so are its beginning and what it moves. -/
theorem HasCourse.begins_valueIn (exact : rounding.IsExact) {start : Number}
    (has : animation.HasCourse start course) :
    ∃ begins, animation.begins start = .ok begins ∧ begins.valueIn K = some course.begins := by
  obtain ⟨begins, hbegins, hsum⟩ := start.add_valueIn exact has.delay
  rw [has.start, Option.map_some] at hsum
  exact ⟨begins, hbegins, hsum⟩

include exact standard hsize in
/-- **The options of an animation follow its course.** -/
theorem textOptions_course {start : Number} (has : animation.HasCourse start course)
    (hlasts : course.length ≠ 0) :
    ∃ options, animation.textOptions start stop x y fontSize = .ok options ∧
      animation.Follows course stop instant x y size fontSize options := by
  obtain ⟨begins, hstart, hbegins⟩ := has.begins_valueIn exact
  have hlength := has.length
  have hamount : (Expr.quantity animation.amount).valueIn instant = some course.amount := by
    rw [Expr.quantity, Expr.valueIn_num, has.amount]
  rw [textOptions, bind_of_ok hstart]
  cases hmotion : animation.motion
  case fade | fadeIn | fadeOut =>
    exact textOptionsFrom_fade exact standard hbegins hlength hlasts stop x y hsize
      (by simp [hmotion])
  case slideIn =>
    exact textOptionsFrom_slideIn exact standard hbegins hlength hlasts hamount stop x y hsize
      hmotion
  case scale | zoomIn =>
    exact textOptionsFrom_scale exact standard hbegins hlength hlasts stop x y hsize
      (by simp [hmotion])
  case bounce =>
    exact textOptionsFrom_bounce exact standard hbegins hlength hlasts hamount stop x y hsize
      hmotion
  case pulse =>
    exact textOptionsFrom_pulse exact standard hbegins hlength hlasts hamount stop x y hsize
      hmotion
  case shake =>
    exact textOptionsFrom_shake exact standard hbegins hlength hlasts hamount stop x y hsize
      hmotion
  case glow =>
    exact textOptionsFrom_glow exact standard hbegins hlength hlasts stop x y hsize hmotion
  case still =>
    refine ⟨[], rfl, ?_⟩
    constructor <;> simp [across, down, sized, opacity, hmotion, hsize]

end Animation
end Montage
