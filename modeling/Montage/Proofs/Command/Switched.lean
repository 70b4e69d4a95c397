import Montage.Proofs.Command.Order
import Montage.Proofs.Expr.Moment
import Montage.Proofs.Command.Drawn

/-!
# Filters are on while their layer is visible

A filter with the option `enable` works on those frames for which its expression is not zero, and a
filter without it works on every frame.  For each layer that is seen, the filters of its stage are
on at exactly the times of the output at which the layer is visible.  Where the option is left out,
the layer is visible at every time that the output has.

The filters of an effect are only switched where they can be, and an effect that brings an option of
that name along is none of our business unless the window replaces it.
-/

set_option autoImplicit false

namespace Montage

/-! ## Switches -/

/-- What a comparison yields. -/
def Quantity.truth (b : Bool) : Quantity := if b then .finite 1 else .finite 0

/-- The moment is a time of the output, with comparisons that yield one or zero. -/
structure Moment.IsAt (moment : Moment) (time : Quantity) : Prop where
  clock : moment.name "t" = time
  gte : ∀ x y, moment.function "gte" [x, y] = Quantity.truth (y.le x)
  lt : ∀ x y, moment.function "lt" [x, y] = Quantity.truth (x.lt y)

/-- A moment of which only the time is known. -/
def Moment.ofTime (time : Quantity) : Moment where
  name name := if name = "t" then time else .undefined
  function function args :=
    match function, args with
    | "gte", [x, y] => Quantity.truth (y.le x)
    | "lt", [x, y] => Quantity.truth (x.lt y)
    | _, _ => .undefined
  given _ := .undefined

/-- Every time has a moment. -/
theorem Moment.ofTime_isAt (time : Quantity) : (Moment.ofTime time).IsAt time :=
  ⟨rfl, fun _ _ ↦ rfl, fun _ _ ↦ rfl⟩

namespace Filter

/-- The values of all options that switch a filter. -/
def switches (filter : Filter) : List OptionValue :=
  (filter.options.filter fun option ↦ option.1 == some "enable").map (·.2)

/-- The filter is not switched at all, or its expression has the value one. -/
def IsOn [Rounding] (moment : Moment) (filter : Filter) : Prop :=
  filter.switches = [] ∨ ∃ e, filter.switches = [.expr e] ∧ e.valueAt moment = .finite 1

/-- The filter is switched by an expression that has the value zero. -/
def IsOff [Rounding] (moment : Moment) (filter : Filter) : Prop :=
  ∃ e, filter.switches = [.expr e] ∧ e.valueAt moment = .finite 0

/-- At every time of an output of some length, the filter is on if a layer is visible, and off
otherwise. -/
def FollowsLayer [Rounding] (length : Quantity) (layer : Layer) (filter : Filter) : Prop :=
  ∀ (moment : Moment) (time : Quantity), moment.IsAt time →
    Quantity.le (.finite 0) time = true → time.lt length = true →
      (filter.IsOn moment ↔ layer.isVisible length time = true) ∧
        (filter.IsOff moment ↔ layer.isVisible length time = false)

theorem switches_append (name : String) (options more : List (Option String × OptionValue)) :
    switches ⟨name, options ++ more⟩ = switches ⟨name, options⟩ ++ switches ⟨name, more⟩ := by
  rw [switches, switches, switches, List.filter_append, List.map_append]

theorem switches_named {options : List (String × OptionValue)}
    (h : Command.NoWindow options) (name : String) : (named name options).switches = [] := by
  rw [switches, named, List.map_eq_nil_iff, List.filter_eq_nil_iff]
  refine List.forall_mem_map.mpr fun option hoption hkey ↦ h option hoption ?_
  exact Option.some.inj (eq_of_beq hkey)

theorem switches_withArgs (name : String) (args : List OptionValue) :
    (withArgs name args).switches = [] := by
  rw [switches, withArgs, List.map_eq_nil_iff, List.filter_eq_nil_iff]
  exact List.forall_mem_map.mpr fun _ _ ↦ Bool.false_ne_true

/-- A filter that is switched anew has no other switch. -/
theorem switches_set (filter : Filter) (value : OptionValue) :
    (filter.set "enable" value).switches = [value] := by
  have hkept : (filter.unset "enable").switches = [] := by
    rw [switches, unset, List.map_eq_nil_iff, List.filter_eq_nil_iff]
    intro option hoption hkey
    rw [List.mem_filter] at hoption
    rw [bne, hkey] at hoption
    cases hoption.2
  show switches ⟨filter.name, (filter.unset "enable").options ++ [(some "enable", value)]⟩ = [value]
  rw [switches_append]
  exact congrArg (· ++ [value]) hkept

/-- The window of a layer as the only switch of a filter. -/
theorem switches_optional {options : List (String × OptionValue)} (h : Command.NoWindow options)
    (name : String) (window : Option Expr) :
    (named name (options ++ Command.optional "enable" (window.map .expr))).switches =
      window.toList.map .expr := by
  rw [named, List.map_append, switches_append]
  have hkept := switches_named h name
  rw [named] at hkept
  rw [hkept]
  cases window <;> rfl

end Filter

section

variable [rounding : Rounding]

/-! ## Windows -/

theorem Quantity.mul_truth (one : rounding.round 1 = .finite 1) (a b : Bool) :
    (truth a).mul (truth b) = truth (a && b) := by
  cases a <;> cases b <;> simp [truth, mul, value?, zero, isNegative, one]

/-- The value of a window is whether the time lies in it. -/
theorem Expr.window_valueAt (one : rounding.round 1 = .finite 1) {moment : Moment} {time : Quantity}
    (h : moment.IsAt time) (start stop : Quantity) :
    ∃ e, Expr.window (.quantity start) (some (.quantity stop)) = .ok e ∧
      e.valueAt moment = Quantity.truth (start.le time && time.lt stop) := by
  refine ⟨.binary .times (.call "gte" [.var "t", .quantity start])
    (.call "lt" [.var "t", .quantity stop]), rfl, ?_⟩
  simp only [valueAt, valuesAt, quantity, Number.exactly, Operation.compute, h.clock, h.gte, h.lt]
  exact Quantity.mul_truth one _ _

namespace Command

/-- **The window of a layer has the value one while the layer is visible and zero otherwise**; a
layer without a window is visible all the time. -/
theorem enableOf_valueAt (one : rounding.round 1 = .finite 1) (canvas : Canvas) (layer : Layer) :
    ∃ window, enableOf canvas layer = .ok window ∧
      ∀ (moment : Moment) (time : Quantity), moment.IsAt time →
        Quantity.le (.finite 0) time = true → time.lt canvas.duration = true →
          (window = none → layer.isVisible canvas.duration time = true) ∧
            ∀ e ∈ window, e.valueAt moment =
              Quantity.truth (layer.isVisible canvas.duration time) := by
  by_cases hspans : spans canvas.duration layer = true
  · refine ⟨none, enableOf_of_spans hspans, fun moment time _ begun running ↦ ?_⟩
    refine ⟨fun _ ↦ ?_, by rintro e ⟨⟩⟩
    obtain ⟨window, hwindow, hvisible⟩ : ∃ window, enableOf canvas layer = .ok window ∧
        window.all (Expr.isOpenAt time) = layer.isVisible canvas.duration time :=
      enableOf_isOpenAt begun running
    rw [enableOf_of_spans hspans] at hwindow
    cases hwindow
    exact hvisible.symm
  · refine ⟨_, enableOf_of_not_spans hspans, fun moment time hmoment _ _ ↦ ?_⟩
    obtain ⟨e, he, hvalue⟩ := Expr.window_valueAt one hmoment layer.startTime
      (effectiveEnd canvas layer)
    cases he
    exact ⟨by rintro ⟨⟩, fun e he ↦ by cases he; exact hvalue⟩

/-- A filter that is switched by the window of a layer alone follows the layer. -/
theorem followsLayer_of_switches (one : rounding.round 1 = .finite 1) {canvas : Canvas}
    {layer : Layer} {window : Option Expr} (hwindow : enableOf canvas layer = .ok window)
    {filter : Filter} (h : filter.switches = window.toList.map .expr) :
    filter.FollowsLayer canvas.duration layer := by
  intro moment time hmoment begun running
  obtain ⟨window, hwindow', hvalue⟩ := enableOf_valueAt one canvas layer
  obtain rfl : window = _ := Except.ok.inj (hwindow'.symm.trans hwindow)
  obtain ⟨hvisible, hvalue⟩ := hvalue moment time hmoment begun running
  cases window with
  | none =>
    have hon : filter.IsOn moment := .inl h
    have hoff : ¬ filter.IsOff moment := by
      rintro ⟨e, he, -⟩
      rw [h] at he
      cases he
    simp [hon, hoff, hvisible rfl]
  | some e =>
    have hswitches : filter.switches = [.expr e] := h
    have hon : filter.IsOn moment ↔ e.valueAt moment = .finite 1 := by
      rw [Filter.IsOn, hswitches]
      simp
    have hoff : filter.IsOff moment ↔ e.valueAt moment = .finite 0 := by
      rw [Filter.IsOff, hswitches]
      simp
    rw [hon, hoff, hvalue e rfl]
    cases layer.isVisible canvas.duration time <;> simp [Quantity.truth]

/-! ## The filters of a layer -/

theorem overlayFilter_followsLayer (one : rounding.round 1 = .finite 1) {canvas : Canvas}
    {layer : Layer} {picture : Picture} {filter : Filter}
    (h : overlayFilter canvas layer picture = .ok filter) :
    filter.FollowsLayer canvas.duration layer := by
  rw [overlayFilter] at h
  obtain ⟨place, -, h⟩ := bind_eq_ok.mp h
  obtain ⟨window, hwindow, h⟩ := bind_eq_ok.mp h
  rw [← pure_eq_ok.mp h]
  exact followsLayer_of_switches one hwindow
    (Filter.switches_optional (.of_keys (by simp)) "overlay" window)

theorem textFilter_followsLayer (one : rounding.round 1 = .finite 1) {canvas : Canvas}
    {style : Option Style} {layer : Layer} {drawing : Drawing} {filter : Filter}
    (h : textFilter canvas style layer drawing = .ok filter) :
    filter.FollowsLayer canvas.duration layer := by
  rw [textFilter_eq] at h
  obtain ⟨options, hoptions, h⟩ := bind_eq_ok.mp h
  obtain ⟨window, hwindow, h⟩ := bind_eq_ok.mp h
  rw [← pure_eq_ok.mp h]
  exact followsLayer_of_switches one hwindow
    (Filter.switches_optional (textOptions_noWindow hoptions) "drawtext" window)

omit rounding in
theorem switches_present {options : List (String × Json)} (h : "enable" ∉ options.map Prod.fst)
    (name : String) : (Filter.named name (Effect.present options)).switches = [] := by
  refine Filter.switches_named ?_ name
  rw [Effect.present]
  refine List.forall_mem_map.mpr fun option hoption heq ↦ h ?_
  exact heq ▸ List.mem_map_of_mem (List.mem_of_mem_filter hoption)

omit rounding in
theorem switches_mixer {weights : List (String × Rat)} (h : "enable" ∉ weights.map Prod.fst) :
    (Effect.mixer weights).switches = [] := by
  refine Filter.switches_named (.of_keys ?_) _
  rwa [List.map_map]

omit rounding in
theorem flip_switches {direction : Json} {filters : List Filter}
    (h : Effect.flip direction = .ok filters) : ∀ filter ∈ filters, filter.switches = [] := by
  rw [Effect.flip] at h
  obtain ⟨key, -, h⟩ := bind_eq_ok.mp h
  have hplain : ∀ name : String, (Filter.named name []).switches = [] := fun _ ↦ rfl
  split at h <;> cases h <;> simp [hplain]

omit rounding in
theorem called_switches {name : String} {options : List (String × Option OptionValue)}
    (hkeys : "enable" ∉ options.map Prod.fst) {filter : Filter}
    (h : Filter.called name [] options = .ok filter) : filter.switches = [] := by
  rw [Filter.called] at h
  split at h
  · cases h
  · cases h
    refine (Filter.switches_append _ _ _).trans ?_
    refine congrArg₂ (· ++ ·) (Filter.switches_withArgs name []) (Filter.switches_named ?_ name)
    intro option hoption hkey
    obtain ⟨given, hgiven, hoption⟩ := List.mem_filterMap.mp hoption
    obtain ⟨value, -, rfl⟩ := Option.map_eq_some_iff.mp hoption
    exact hkeys (hkey ▸ List.mem_map_of_mem hgiven)

/-- The filters of an effect have no switch but one that its parameters bring along. -/
theorem filtersOf_switches {name : String} {params : List (String × Json)}
    (hparams : "enable" ∉ params.map Prod.fst) {filters : List Filter}
    (h : Effect.filtersOf name params = .ok filters) :
    ∀ filter ∈ filters, filter.switches = [] := by
  have hsingle : ∀ filter : Filter, filter.switches = [] →
      ∀ other ∈ [filter], other.switches = [] :=
    fun filter hfilter other hother ↦ List.mem_singleton.mp hother ▸ hfilter
  rw [Effect.filtersOf.eq_def] at h
  dsimp only at h
  split at h
  case h_1 | h_2 | h_3 | h_4 | h_5 | h_7 | h_8 | h_20 =>
    cases h
    exact hsingle _ (switches_present (by simp) _)
  case h_6 | h_17 | h_19 =>
    cases h
    exact hsingle _ (Filter.switches_withArgs _ _)
  case h_9 | h_10 =>
    cases h
    exact hsingle _ (switches_mixer (by simp))
  case h_11 | h_18 =>
    cases h
    exact hsingle _ rfl
  case h_12 =>
    split at h
    · cases h
      exact hsingle _ (switches_present (by simp) _)
    · obtain ⟨value, -, h⟩ := bind_eq_ok.mp h
      cases h
      exact hsingle _ rfl
  case h_13 =>
    obtain ⟨intensity, -, h⟩ := bind_eq_ok.mp h
    obtain ⟨percent, -, h⟩ := bind_eq_ok.mp h
    obtain ⟨strength, -, h⟩ := bind_eq_ok.mp h
    cases h
    exact hsingle _ rfl
  case h_14 =>
    obtain ⟨radians, -, h⟩ := bind_eq_ok.mp h
    cases h
    refine hsingle _ ((Filter.switches_append _ _ _).trans ?_)
    exact congrArg₂ (· ++ ·) (Filter.switches_withArgs _ _) (switches_present (by simp) _)
  case h_15 => exact flip_switches h
  case h_16 =>
    obtain ⟨factor, -, h⟩ := bind_eq_ok.mp h
    obtain ⟨slowed, -, h⟩ := bind_eq_ok.mp h
    cases h
    exact hsingle _ rfl
  case h_21 =>
    obtain ⟨filter, hfilter, h⟩ := bind_eq_ok.mp h
    cases h
    refine hsingle _ (called_switches ?_ hfilter)
    rwa [List.map_map]

/-- A filter of an effect that can be switched follows the layer, unless the effect brings a switch
of its own. -/
theorem effectFilters_followLayer (one : rounding.round 1 = .finite 1) {canvas : Canvas}
    {layer : Layer} {effect : Effect} (hparams : "enable" ∉ effect.params.map Prod.fst)
    {filters : List Filter} (h : effectFilters canvas layer effect = .ok filters) :
    ∀ filter ∈ filters, Effect.isTimed filter.name = true →
      filter.FollowsLayer canvas.duration layer := by
  rw [effectFilters] at h
  obtain ⟨plain, hplain, h⟩ := bind_eq_ok.mp h
  obtain ⟨window, hwindow, h⟩ := bind_eq_ok.mp h
  intro filter hfilter htimed
  refine followsLayer_of_switches one hwindow ?_
  have hunswitched := filtersOf_switches (by rwa [List.map_map]) hplain
  cases window with
  | none =>
    cases h
    exact hunswitched filter hfilter
  | some e =>
    cases h
    obtain ⟨before, -, rfl⟩ := List.mem_map.mp hfilter
    by_cases hbefore : Effect.isTimed before.name = true
    · rw [if_pos hbefore]
      exact before.switches_set (.expr e)
    · rw [if_neg hbefore] at htimed
      contradiction

/-! ## The whole graph -/

/-- The filters of a stage that a layer switches: its picture or its text, and of an effect those
that can be switched if its parameters bring no switch along. -/
def IsSwitchedBy (layer : Layer) (filter : Filter) : Prop :=
  ∀ effect, layer.content = .filter effect →
    Effect.isTimed filter.name = true ∧ "enable" ∉ effect.params.map Prod.fst

theorem IsPaintedBy.followsLayer (one : rounding.round 1 = .finite 1) {canvas : Canvas}
    {options : RenderOptions} {ready : Layer → Picture → String → Prop} {layer : Layer}
    {stage : Stage} (h : IsPaintedBy canvas options ready layer stage) :
    ∀ filter ∈ stage.filters, IsSwitchedBy layer filter →
      filter.FollowsLayer canvas.duration layer := by
  intro filter hfilter hswitched
  cases h with
  | picture content inputs isReady built name filters =>
    rw [filters, List.mem_singleton] at hfilter
    exact hfilter ▸ overlayFilter_followsLayer one built
  | text content inputs built name filters =>
    rw [filters, List.mem_singleton] at hfilter
    exact hfilter ▸ textFilter_followsLayer one built
  | effect content inputs built =>
    obtain ⟨htimed, hparams⟩ := hswitched _ content
    exact effectFilters_followLayer one hparams built filter hfilter htimed

theorem duration_canvasOf {timeline : Timeline} {canvas : Canvas}
    (h : canvasOf timeline = .ok canvas) : canvas.duration = timeline.duration := by
  rw [canvasOf] at h
  obtain ⟨size, -, h⟩ := bind_eq_ok.mp h
  rw [← pure_eq_ok.mp h]

end Command

end

namespace Command

attribute [local instance] Rounding.binary64

/-- **What is drawn is on exactly while its layer is visible.**  In the graph of a timeline, each
layer that is seen has its stage on the way of the canvas, and at every time of the output the
filters of this stage that the layer switches are on if the time lies in the window of the layer,
and off otherwise. -/
theorem compile_onWhileVisible {timeline : Timeline} {compiled : Compiled}
    (h : compile timeline = .ok compiled) :
    ∃ canvas source steps finish, canvasOf timeline = .ok canvas
      ∧ PaintsInOrder timeline compiled canvas source steps finish
      ∧ List.Forall₂ (fun layer stage ↦ ∀ filter ∈ stage.filters, IsSwitchedBy layer filter →
          filter.FollowsLayer timeline.duration layer) (seenLayers timeline) steps := by
  obtain ⟨parts⟩ := compile_parts h
  obtain ⟨source, steps, finish, hpaints⟩ := parts.paintsInOrder
  have one : binary64 1 = .finite 1 := by decide +kernel
  refine ⟨parts.canvas, source, steps, finish, parts.canvas_eq, hpaints, ?_⟩
  rw [← duration_canvasOf parts.canvas_eq]
  exact hpaints.painted.imp fun _ _ hpainted ↦ hpainted.followsLayer one

/-- A video throughout, a blur and a title for a while, and a picture from some time on. -/
def switchedScene : Timeline where
  layers := [
    { content := .video { source := ⟨"clip.mp4", none, none⟩ } },
    { content := .filter ⟨"gblur", [("sigma", .num 4)]⟩, startTime := .finite 1,
      duration := some (.finite 2) },
    { content := .text "Title" none, startTime := .finite (1 / 2), duration := some (.finite 1) },
    { content := .image { source := ⟨"logo.png", none, none⟩ }, startTime := .finite 2 }]
  options := { duration := some (.finite 4) }

/-- At one second the title is on and the picture is off. -/
theorem switchedScene_onWhileVisible : ∃ compiled, compile switchedScene = .ok compiled
    ∧ (seenLayers switchedScene).map (Layer.isVisible (.finite 4) (.finite 1))
      = [true, true, true, false]
    ∧ ∃ canvas source steps finish, canvasOf switchedScene = .ok canvas
      ∧ PaintsInOrder switchedScene compiled canvas source steps finish
      ∧ List.Forall₂ (fun layer stage ↦ ∀ filter ∈ stage.filters, IsSwitchedBy layer filter →
          (filter.IsOn (.ofTime (.finite 1)) ↔ layer.isVisible (.finite 4) (.finite 1) = true) ∧
            (filter.IsOff (.ofTime (.finite 1)) ↔
              layer.isVisible (.finite 4) (.finite 1) = false)) (seenLayers switchedScene) steps := by
  have hok : (compile switchedScene).toOption.isSome = true := by decide +kernel
  cases hcompile : compile switchedScene with
  | error e =>
    rw [hcompile] at hok
    cases hok
  | ok compiled =>
    obtain ⟨canvas, source, steps, finish, hcanvas, hpaints, hfollows⟩ :=
      compile_onWhileVisible hcompile
    refine ⟨compiled, rfl, by decide +kernel, canvas, source, steps, finish, hcanvas, hpaints, ?_⟩
    exact hfollows.imp fun layer stage hfilters filter hfilter hswitched ↦
      hfilters filter hfilter hswitched (.ofTime (.finite 1)) (.finite 1) (Moment.ofTime_isAt _)
        (by decide) (by decide)

end Command
end Montage
