import Montage.Proofs.Command.Switched
import Montage.Proofs.Expr.Moment
import Montage.Proofs.Timeline.Brackets
import Montage.Timeline.Effects

/-!
# A fade at the end of a timeline that is joined

A fade to black begins some seconds before the end of the timeline that it is applied to, and it is
kept as a filter with that time among its parameters.  Joining moves the layers of the second
timeline by their start alone.  So the layer of the fade is moved and the fade is not: in the graph
of the joined timeline it begins as early as it would in the second one alone, whatever stands in
front of that (`concat_fadeOut`).  It is in its place only behind a timeline that lasts for nothing
at all.

That the layer is moved does not help.  A fade cannot be switched, so the window of its layer is
nowhere in the graph.
-/

set_option autoImplicit false

namespace Montage

/-- The later one of two numbers is the one of the later quantity. -/
theorem Number.exactly_max (m n : Number) : (m.max n).exactly = m.exactly.max n.exactly := by
  rw [max, Quantity.max, lt]
  split <;> rfl

namespace Quantity

theorem same_max {x y : Quantity} (h : Same x y) :
    Same (max (.finite 0) x) (max (.finite 0) y) := by
  obtain rfl | ⟨hx, hy⟩ := h.eq_or_zero
  · exact .refl _
  · have hzero (z : Quantity) (hz : z.value? = some 0) : max (.finite 0) z = .finite 0 := by
      cases z <;> cases hz <;> rfl
    rw [hzero x hx, hzero y hy]
    exact .refl _

/-- Moving a time leaves it where it is just if it is moved by nothing, or if it never comes. -/
theorem same_add_iff [rounding : Rounding] (exact : rounding.IsExact) {x offset : Quantity}
    (hx : Quantity.le (.finite 0) x = true) (hoffset : Quantity.le (.finite 0) offset = true) :
    Same x (offset.add x) ↔ Same offset (.finite 0) ∨ x = .infinite false := by
  rw [le_zero_iff] at hx hoffset
  obtain ⟨q, -, rfl⟩ | rfl | rfl := hx <;> obtain ⟨o, -, rfl⟩ | rfl | rfl := hoffset <;>
    simp [add, exact _, Same, unsigned, eq_comm]

end Quantity

namespace Timeline

/-! ## The fade -/

/-- The layer of a fade to black that begins at a time and takes some seconds. -/
def fadeOutLayer (start duration : Number) : Layer where
  content := .filter ⟨"fade",
    [("type", .text "out"), ("start", .num start), ("duration", .num duration)]⟩

/-- The filter of a fade to black that begins at a time and takes some seconds. -/
def fadeOutFilter (start duration : Number) : Filter :=
  .named "fade" [("t", .plain "out"), ("st", .num start), ("d", .num duration)]

variable [rounding : Rounding] {timeline other faded joined : Timeline} {start duration : Number}

/-- A fade to black begins some seconds before the end, but not before the beginning. -/
theorem applyEffects_fadeOut (exact : rounding.IsExact) (timeline : Timeline) (duration : Number) :
    ∃ start, timeline.applyEffects [("fade_out", [("duration", .num duration)])] =
        .ok (timeline.append [fadeOutLayer start duration]) ∧
      start.exactly.Same (Quantity.max (.finite 0) (timeline.duration.sub duration.exactly)) := by
  obtain ⟨left, hleft, hsame⟩ := Number.sub_same exact (.real timeline.duration) duration
  refine ⟨Number.max (.real (.finite 0)) left, ?_, ?_⟩
  · have hstep : Step.ending "fade" (.num duration) (fun start ↦
        [("type", .str "out"), ("start", start), ("duration", .num duration)]) timeline =
        .ok (timeline.append [fadeOutLayer (Number.max (.real (.finite 0)) left) duration]) :=
      bind_eq_ok.mpr ⟨duration, rfl, bind_eq_ok.mpr ⟨left, hleft, rfl⟩⟩
    exact bind_eq_ok.mpr ⟨_, rfl, bind_eq_ok.mpr ⟨_, hstep, rfl⟩⟩
  · rw [Number.exactly_max]
    exact Quantity.same_max hsame

/-- A fade is not switched, wherever its layer stands. -/
theorem effectFilters_fadeOut {canvas : Command.Canvas} {layer : Layer} {effect : Effect}
    (hcontent : layer.content = (fadeOutLayer start duration).content)
    (heffect : layer.content = .filter effect) {filters : List Filter}
    (h : Command.effectFilters canvas layer effect = .ok filters) :
    filters = [fadeOutFilter start duration] := by
  obtain ⟨plain, hplain, h⟩ := bind_eq_ok.mp h
  obtain ⟨window, -, h⟩ := bind_eq_ok.mp h
  have hfade : effect = ⟨"fade",
      [("type", .text "out"), ("start", .num start), ("duration", .num duration)]⟩ := by
    rw [hcontent] at heffect
    exact (Content.filter.inj heffect).symm
  rw [hfade] at hplain
  obtain rfl : [fadeOutFilter start duration] = plain := Except.ok.inj hplain
  cases window with
  | none => exact (pure_eq_ok.mp h).symm
  | some enable => exact (pure_eq_ok.mp h).symm

/-! ## Joining -/

/-- The layer of the fade is the last one that is seen. -/
theorem seenLayers_fadeOut (h : timeline.concat (other.append [fadeOutLayer start duration]) =
      .ok joined) : ∃ front, Command.seenLayers joined =
        front ++ [(fadeOutLayer start duration).shifted timeline.duration] := by
  obtain ⟨-, rfl⟩ := concat_eq_ok.mp h
  refine ⟨(timeline.layers ++ other.layers.map (·.shifted timeline.duration)).filter
    fun layer ↦ Command.isSeen layer.content, ?_⟩
  have hlayers : (timeline.followedBy (other.append [fadeOutLayer start duration])).layers =
      (timeline.layers ++ other.layers.map (·.shifted timeline.duration)) ++
        [(fadeOutLayer start duration).shifted timeline.duration] := by
    simp [followedBy, append]
  rw [Command.seenLayers, hlayers, List.filter_append]
  rfl

/-- What is painted last before the canvas is cut and scaled is the fade, where it stood before. -/
theorem compile_fadeOut {compiled : Command.Compiled}
    (h : timeline.concat (other.append [fadeOutLayer start duration]) = .ok joined)
    (hcompiled : Command.compile joined = .ok compiled) : ∃ canvas source steps stage finish,
      Command.PaintsInOrder joined compiled canvas source (steps ++ [stage]) finish ∧
      stage.filters = [fadeOutFilter start duration] := by
  obtain ⟨front, hseen⟩ := seenLayers_fadeOut h
  obtain ⟨canvas, -, ⟨source, steps, finish, paints⟩, -⟩ := Command.compile_inLayerOrder hcompiled
  have hlast := List.forall₂_drop front.length paints.painted
  rw [hseen, List.drop_left] at hlast
  cases hsteps : steps.drop front.length with
  | nil =>
    rw [hsteps] at hlast
    cases hlast
  | cons stage rest =>
    rw [hsteps] at hlast
    cases hlast with
    | cons hpainted hnil =>
      cases hnil
      have hall : steps = steps.take front.length ++ [stage] := by
        rw [← hsteps, List.take_append_drop]
      refine ⟨canvas, source, steps.take front.length, stage, finish, hall ▸ paints, ?_⟩
      cases hpainted with
      | picture content => cases content
      | text content => cases content
      | effect content inputs built =>
        have hmoved : ((fadeOutLayer start duration).shifted timeline.duration).content =
          (fadeOutLayer start duration).content := rfl
        exact effectFilters_fadeOut hmoved content built

/-- **A fade at the end stays where it was when its timeline is moved.**  Its layer is the last one
that is painted, by a fade that begins as early as in the second timeline alone.  That is where it
has to begin behind the first one only if this lasts for nothing, or if the fade never begins. -/
theorem concat_fadeOut (exact : rounding.IsExact) (valid : timeline.IsValid) (other : Timeline)
    (duration : Number) :
    ∃ start faded, other.applyEffects [("fade_out", [("duration", .num duration)])] = .ok faded ∧
      start.exactly.Same (Quantity.max (.finite 0) (other.duration.sub duration.exactly)) ∧
      (∀ joined compiled, timeline.concat faded = .ok joined →
        Command.compile joined = .ok compiled → ∃ canvas source steps stage finish,
          Command.PaintsInOrder joined compiled canvas source (steps ++ [stage]) finish ∧
          stage.filters = [fadeOutFilter start duration]) ∧
      (start.exactly.Same (timeline.duration.add
          (Quantity.max (.finite 0) (other.duration.sub duration.exactly))) ↔
        timeline.duration.Same (.finite 0) ∨ start.exactly = .infinite false) := by
  obtain ⟨start, hfaded, hstart⟩ := applyEffects_fadeOut exact other duration
  refine ⟨start, _, hfaded, hstart, fun _ _ h hcompiled ↦ compile_fadeOut h hcompiled, ?_⟩
  have hnonneg : Quantity.le (.finite 0) start.exactly = true := by
    rw [← Quantity.unsigned_le, hstart, Quantity.unsigned_le]
    exact Quantity.le_zero_max (by decide)
  have hmoved : (timeline.duration.add start.exactly).Same (timeline.duration.add
      (Quantity.max (.finite 0) (other.duration.sub duration.exactly))) :=
    (Quantity.Same.refl _).add exact hstart
  rw [← Quantity.same_add_iff exact hnonneg (valid.duration_isNonnegative exact.keepsSigns)]
  exact ⟨fun h ↦ h.trans hmoved.symm, fun h ↦ h.trans hmoved⟩

omit rounding in
/-- A title of ten seconds fades out in its last two, from its eighth second on.  Behind a title of
five seconds the fade begins at the eighth second still, and not at the thirteenth. -/
theorem titledFadeOut_stays : let _ : Rounding := .exact
    ∃ faded joined compiled, (titled "Two" (some (.finite 10))).applyEffects
        [("fade_out", [("duration", .num (.whole 2))])] = .ok faded ∧
      (titled "One" (some (.finite 5))).concat faded = .ok joined ∧
      Command.compile joined = .ok compiled ∧
      ∃ stage ∈ compiled.graph.stages, ∃ start : Number,
        stage.filters = [fadeOutFilter start (.whole 2)] ∧ start.exactly.Same (.finite 8) ∧
        ¬ start.exactly.Same (.finite 13) := by
  intro _
  have valid : (titled "One" (some (.finite 5))).IsValid :=
    titled_isValid "One" (by rintro _ ⟨⟩; decide)
  obtain ⟨start, faded, hfaded, hstart, hpainted, -⟩ := concat_fadeOut Rounding.exact_isExact
    valid (titled "Two" (some (.finite 10))) (.whole 2)
  have hknown : ((titled "Two" (some (.finite 10))).applyEffects
      [("fade_out", [("duration", .num (.whole 2))])]).toOption =
        some ((titled "Two" (some (.finite 10))).append
          [fadeOutLayer (.real (.finite 8)) (.whole 2)]) := by decide +kernel
  obtain rfl : (titled "Two" (some (.finite 10))).append
      [fadeOutLayer (.real (.finite 8)) (.whole 2)] = faded := by
    rw [hfaded] at hknown
    exact (Option.some.inj hknown).symm
  have hcompiles : (Command.compile ((titled "One" (some (.finite 5))).followedBy
      ((titled "Two" (some (.finite 10))).append
        [fadeOutLayer (.real (.finite 8)) (.whole 2)]))).toOption.isSome = true := by decide +kernel
  cases hcompile : Command.compile ((titled "One" (some (.finite 5))).followedBy
      ((titled "Two" (some (.finite 10))).append
        [fadeOutLayer (.real (.finite 8)) (.whole 2)])) with
  | error e =>
    rw [hcompile] at hcompiles
    cases hcompiles
  | ok compiled =>
    obtain ⟨canvas, source, steps, stage, finish, paints, hfilters⟩ :=
      hpainted _ compiled rfl hcompile
    obtain ⟨label, -, hroute, -⟩ := paints.way
    have hstarts : start.exactly.Same (.finite 8) := by
      have hlast : Quantity.max (.finite 0)
          ((titled "Two" (some (.finite 10))).duration.sub (Number.whole 2).exactly) =
          .finite 8 := by decide +kernel
      exact hlast ▸ hstart
    have hmem : stage ∈ compiled.graph.stages := hroute.mem stage (by simp)
    refine ⟨_, _, compiled, hfaded, rfl, hcompile, stage, hmem, start, hfilters, hstarts, ?_⟩
    intro hthirteen
    cases hstarts.symm.trans hthirteen

end Timeline
end Montage
