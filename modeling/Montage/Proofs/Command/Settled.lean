import Montage.Command.Basic
import Montage.Proofs.Filter.Alike
import Montage.Proofs.Position.Axis
import Montage.Proofs.Timeline.Settled

/-!
# Commands of settled timelines

A timeline whose positions are settled has the same command as before.  Only drawn text and
overlays look at positions; for them the settled position gives expressions that are alike, and a
graph does not show the difference.
-/

set_option autoImplicit false

namespace Montage

variable [Rounding]

/-! ## Filters that look at positions -/

namespace Command

/-- The place of a layer, with a place that stands for a missing one. -/
theorem place_settled (hzero : Rounding.round 0 = .finite 0) {layer : Layer}
    (valid : layer.IsValid) (missing : Position) (frame : Frame) :
    Agree (fun a b ↦ Expr.Alike a.1 b.1 ∧ Expr.Alike a.2 b.2)
      ((layer.position.getD missing).resolve frame)
      ((layer.settled.position.getD missing).resolve frame) := by
  cases hposition : layer.position with
  | none =>
    rw [Layer.settled, hposition]
    exact .refl (fun _ ↦ ⟨.refl _, .refl _⟩) _
  | some position =>
    rw [Layer.settled, hposition]
    exact Position.resolve_settled hzero (valid.position position hposition) frame

theorem overlayFilter_settled (hzero : Rounding.round 0 = .finite 0) {layer : Layer}
    (valid : layer.IsValid) (canvas : Canvas) (picture : Picture) :
    Agree Filter.Alike (overlayFilter canvas layer picture)
      (overlayFilter canvas layer.settled picture) := by
  refine .bind (place_settled hzero valid _ _) fun a b hplace ↦ ?_
  refine .after _ fun enable _ ↦ .ok (.named _ ?_)
  refine .append (List.Forall₂.cons ⟨rfl, .expr hplace.1⟩ ?_) (.refl _)
  exact List.Forall₂.cons ⟨rfl, .expr hplace.2⟩ (OptionsAlike.refl _)

omit [Rounding] in
theorem getD_alike {a b : Option OptionValue} (h : Option.Rel OptionValue.Alike a b)
    {c d : OptionValue} (hrest : c.Alike d) : (a.getD c).Alike (b.getD d) := by
  cases h with
  | some h => exact h
  | none => exact hrest

omit [Rounding] in
theorem optional_alike (key : String) {a b : Option OptionValue}
    (h : Option.Rel OptionValue.Alike a b) : OptionsAlike (optional key a) (optional key b) := by
  cases h with
  | some h => exact .single key h
  | none => exact .refl _

theorem strokeOptions_alike (style : Style) {as bs : List (String × OptionValue)}
    (h : OptionsAlike as bs) :
    Agree OptionsAlike (strokeOptions style as) (strokeOptions style bs) := by
  have hwidth := h.lookup? "borderw"
  have hcolor := h.lookup? "bordercolor"
  rw [strokeOptions, strokeOptions]
  generalize Json.lookup? "borderw" as = a, Json.lookup? "borderw" bs = b at hwidth ⊢
  cases hwidth with
  | none => cases style.strokeWidth <;> exact .refl OptionsAlike.refl _
  | some h =>
    exact .ok (List.Forall₂.cons ⟨rfl, h⟩ (OptionsAlike.single _ (getD_alike hcolor (.refl _))))

theorem movedOptions_settled (hzero : Rounding.round 0 = .finite 0) (canvas : Canvas)
    (layer : Layer) (drawing : Drawing) {x x' y y' : Expr} (hx : Expr.Alike x x')
    (hy : Expr.Alike y y') (fontSize : Expr) :
    Agree OptionsAlike (movedOptions canvas layer drawing x y fontSize)
      (movedOptions canvas layer.settled drawing x' y' fontSize) := by
  rw [movedOptions, movedOptions]
  cases drawing.animation with
  | none => exact .ok (.refl [])
  | some animation => exact animation.textOptions_alike hzero _ _ hx hy fontSize

theorem textFilter_settled (hzero : Rounding.round 0 = .finite 0) {layer : Layer}
    (valid : layer.IsValid) (canvas : Canvas) (defaultStyle : Option Style) (drawing : Drawing) :
    Agree Filter.Alike (textFilter canvas defaultStyle layer drawing)
      (textFilter canvas defaultStyle layer.settled drawing) := by
  refine .after _ fun fontSize _ ↦ ?_
  refine .bind (place_settled hzero valid _ _) fun a b hplace ↦ ?_
  refine .bind (movedOptions_settled hzero canvas layer drawing hplace.1 hplace.2 _)
    fun as bs hmoved ↦ ?_
  have hmoving (key : String) {c d : OptionValue} (h : c.Alike d) :
      OptionsAlike [(key, (Json.lookup? key as).getD c)] [(key, (Json.lookup? key bs).getD d)] :=
    .single key (getD_alike (hmoved.lookup? key) h)
  refine .after _ fun color _ ↦ .bind (strokeOptions_alike _ hmoved) fun _ _ hstroke ↦ ?_
  refine .after _ fun box _ ↦ .after _ fun shadow _ ↦ .after _ fun lines _ ↦ ?_
  refine .after _ fun enable _ ↦ .ok (.named _ ?_)
  refine .append (.append ?_ (optional_alike _ (hmoved.lookup? "alpha"))) (.refl _)
  refine .append ?_ ((hmoving "x" (.expr hplace.1)).append (hmoving "y" (.expr hplace.2)))
  refine .append (.append (.append ?_ (.refl box)) (.refl shadow)) (.refl lines)
  refine .append (.append (.refl _) ?_) hstroke
  exact (hmoving "fontsize" (.refl _)).append (.refl [("fontcolor", .plain color)])

/-! ## Painting -/

/-- The paintings leave the same behind and have stages that are alike. -/
structure Painted.Alike (a b : Painted) : Prop where
  stages : List.Forall₂ Stage.Alike a.stages b.stages
  output : a.output = b.output
  session : a.session = b.session

omit [Rounding] in
theorem forall₂_alike (stages : List Stage) : List.Forall₂ Stage.Alike stages stages :=
  List.forall₂_same.mpr fun stage _ ↦ .refl stage

omit [Rounding] in
theorem Painted.Alike.refl (painted : Painted) : Alike painted painted :=
  ⟨forall₂_alike _, rfl, rfl⟩

/-- What lays a filter over the canvas does not look into the filter. -/
theorem paintPicture_settled (hzero : Rounding.round 0 = .finite 0) {layer : Layer}
    (valid : layer.IsValid) (canvas : Canvas) (inputs : List Input) (session : Session)
    (current : String) (picture : Picture) :
    Agree Painted.Alike (paintPicture canvas inputs session current layer picture)
      (paintPicture canvas inputs session current layer.settled picture) := by
  refine .after _ fun prepare _ ↦ ?_
  refine .bind (overlayFilter_settled hzero valid canvas picture) fun _ _ hoverlay ↦ ?_
  refine .ok ⟨?_, rfl, rfl⟩
  exact .cons (.refl _) (.cons ⟨rfl, .cons hoverlay .nil, rfl⟩ .nil)

theorem paintLayer_settled (hzero : Rounding.round 0 = .finite 0) {layer : Layer}
    (valid : layer.IsValid) (canvas : Canvas) (options : RenderOptions) (inputs : List Input)
    (session : Session) (current : String) :
    Agree (Option.Rel Painted.Alike) (paintLayer canvas options inputs session current layer)
      (paintLayer canvas options inputs session current layer.settled) := by
  have hcontent : layer.settled.content = layer.content := rfl
  rw [paintLayer, paintLayer, hcontent]
  cases Picture.ofContent layer.content with
  | some picture =>
    exact .bind (paintPicture_settled hzero valid canvas inputs session current picture)
      fun _ _ h ↦ .ok (.some h)
  | none =>
    cases drawingOf layer.content with
    | some drawing =>
      refine .bind (textFilter_settled hzero valid canvas _ drawing) fun _ _ h ↦ .ok (.some ?_)
      exact ⟨.cons ⟨rfl, .cons h .nil, rfl⟩ .nil, rfl, rfl⟩
    | none =>
      have hrefl (painted : Option Painted) : Option.Rel Painted.Alike painted painted := by
        cases painted with
        | none => exact .none
        | some painted => exact .some (.refl painted)
      cases layer.content <;> exact .refl hrefl _

/-- **Layers and the settled layers are painted alike.** -/
theorem paintLayers_settled (hzero : Rounding.round 0 = .finite 0) {layers : List Layer}
    (valid : ∀ layer ∈ layers, layer.IsValid) (canvas : Canvas) (options : RenderOptions)
    (inputs : List Input) (session : Session) (current : String) :
    Agree Painted.Alike (paintLayers canvas options inputs session current layers)
      (paintLayers canvas options inputs session current (layers.map Layer.settled)) := by
  induction layers generalizing session current with
  | nil => exact .ok (.refl _)
  | cons layer rest ih =>
    rw [List.forall_mem_cons] at valid
    refine .bind (paintLayer_settled hzero valid.1 canvas options inputs session current)
      fun a b h ↦ ?_
    cases h with
    | none => exact ih valid.2 session current
    | @some a b h =>
      dsimp only
      obtain ⟨hstages, houtput, hsession⟩ := h
      rw [houtput, hsession]
      refine .bind (ih valid.2 _ _) fun _ _ hlater ↦ .ok ?_
      exact ⟨List.rel_append hstages hlater.stages, hlater.output, hlater.session⟩

/-! ## Sound -/

theorem soundStages_settled (canvas : Canvas) (inputs : List Input) (session : Session)
    (layers : List Layer) :
    soundStages canvas inputs session (layers.map Layer.settled) =
      soundStages canvas inputs session layers := by
  induction layers generalizing session with
  | nil => rfl
  | cons layer rest ih =>
    have hcontent : layer.settled.content = layer.content := rfl
    have hfilters (sound : Sound) :
        soundFilters canvas layer.settled sound = soundFilters canvas layer sound := rfl
    simp only [List.map_cons, soundStages, hcontent, hfilters, ih]

theorem soundEffects_settled (layers : List Layer) :
    soundEffects (layers.map Layer.settled) = soundEffects layers := by
  induction layers with
  | nil => rfl
  | cons layer rest ih =>
    have hcontent : layer.settled.content = layer.content := rfl
    simp only [List.map_cons, soundEffects, hcontent, ih]

/-! ## The whole command -/

omit [Rounding] in
theorem inputsOf_settled (layers : List Layer) :
    inputsOf (layers.map Layer.settled) = inputsOf layers := by
  rw [inputsOf, inputsOf, List.filterMap_map]
  rfl

omit [Rounding] in
theorem splitsOf_settled (inputs : List Input) (layers : List Layer) :
    splitsOf inputs (layers.map Layer.settled) = splitsOf inputs layers := by
  have hpads : padsOf inputs (layers.map Layer.settled) = padsOf inputs layers := by
    rw [padsOf, padsOf, List.flatMap_map]
    rfl
  rw [splitsOf, splitsOf, hpads]

omit [Rounding] in
/-- Stages that are alike stay so when the last one gets another output. -/
theorem relabelLast_alike (output : String) {as bs : List Stage}
    (h : List.Forall₂ Stage.Alike as bs) :
    List.Forall₂ Stage.Alike (relabelLast output as) (relabelLast output bs) := by
  induction h with
  | nil => exact .nil
  | cons h hrest ih =>
    cases hrest with
    | nil => exact .cons ⟨h.inputs, h.filters, rfl⟩ .nil
    | cons _ _ => exact .cons h ih

omit [Rounding] in
theorem finishPicture_alike (options : RenderOptions) (current : String) {as bs : List Stage}
    (h : List.Forall₂ Stage.Alike as bs) :
    List.Forall₂ Stage.Alike (finishPicture options current as)
      (finishPicture options current bs) := by
  rw [finishPicture, finishPicture]
  split
  · exact relabelLast_alike _ h
  · exact List.rel_append h (forall₂_alike _)

/-- The compiled timelines read the same inputs and have graphs that are written alike. -/
structure Compiled.Alike (a b : Compiled) : Prop where
  inputs : a.inputs = b.inputs
  graph : List.Forall₂ Stage.Alike a.graph.stages b.graph.stages
  hasSound : a.hasSound = b.hasSound

variable {timeline : Timeline}

theorem compile_settled (hzero : Rounding.round 0 = .finite 0) (valid : timeline.IsValid) :
    Agree Compiled.Alike (compile timeline) (compile timeline.settled) := by
  have hcanvas : canvasOf timeline.settled = canvasOf timeline := by
    rw [canvasOf, canvasOf, Timeline.duration_settled]
    rfl
  have hlayers : timeline.settled.layers = timeline.layers.map Layer.settled := rfl
  have hoptions : timeline.settled.options = timeline.options := rfl
  rw [compile, compile, hcanvas, hlayers, hoptions, inputsOf_settled]
  dsimp only
  rw [splitsOf_settled]
  refine .after _ fun canvas _ ↦ .after _ fun base _ ↦ ?_
  refine .bind (paintLayers_settled hzero valid.layers _ _ _ _ _) fun a b h ↦ ?_
  rw [soundStages_settled, soundEffects_settled, h.output, h.session]
  refine .after _ fun sounds _ ↦ .after _ fun effects _ ↦ .ok ⟨rfl, ?_, rfl⟩
  have hpictures := finishPicture_alike timeline.options b.output (.cons (.refl base) h.stages)
  exact List.rel_append (List.rel_append (List.rel_append (forall₂_alike _) hpictures)
    (forall₂_alike _)) (forall₂_alike _)

theorem cutArgs_settled (timeline : Timeline) : cutArgs timeline.settled = cutArgs timeline := by
  rw [cutArgs, cutArgs, Timeline.duration_settled]
  rfl

/-- **A timeline and the settled timeline have the same command.** -/
theorem arguments_settled (hzero : Rounding.round 0 = .finite 0) (valid : timeline.IsValid)
    (path : Json) (context : Context) (profile : Option EncoderProfile) :
    arguments timeline.settled path context profile = arguments timeline path context profile := by
  have hbody : body timeline profile = body timeline.settled profile := by
    refine Agree.eq (.bind (compile_settled hzero valid) fun a b h ↦ ?_)
    rw [FilterGraph.write_eq h.graph, h.inputs, h.hasSound, cutArgs_settled]
    exact .refl (fun _ ↦ rfl) _
  rw [arguments, arguments, hbody]

end Command
end Montage
