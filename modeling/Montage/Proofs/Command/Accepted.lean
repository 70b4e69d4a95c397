import Montage.Proofs.Command.Drawn
import Montage.Proofs.Command.Layerwise
import Montage.Proofs.Effect.Demands
import Montage.Proofs.Layer.RoundTrip
import Montage.Proofs.Timeline.Built

/-!
# Filter layers and the command

A builder accepts a filter layer by its name, its start and its length; of the parameters it asks
only that each of them is a truth value, a number or a text (`exists_addFilter_iff`).  Whether the
command can be built comes out later, and depends on what the effect does with its parameters.

A filter layer brings no input and no sound, so it leaves the frame of the graph and the other
layers alone, but for the length of the output.  A timeline with a filter layer behind its own
therefore has a command just if it had one without the layer, at the same length, and the parameters
are what the effect asks for (`accepted_filter_compiles_iff`).
-/

set_option autoImplicit false

namespace Montage

/-! ## Accepted layers -/

namespace Layer

/-- A layer as a builder makes it of an effect: it is valid and begins at a finite moment, and it
has no place and no look of its own. -/
structure IsMadeOf (effect : Effect) (layer : Layer) : Prop where
  content : layer.content = .filter effect
  valid : layer.IsValid
  startTime : layer.startTime.isFinite = true
  position : layer.position = none
  style : layer.style = none

/-- Parameters are read as they are, those that are not finite among them. -/
theorem decodeParams_paramJson (params : List (String × ParamValue)) :
    decodeParams (.obj (params.map fun (key, value) ↦ (key, paramJson value))) = .ok params := by
  have hparam (value : ParamValue) : decodeParam (paramJson value) = .ok value := by
    cases value <;> rfl
  induction params with
  | nil => rfl
  | cons param params ih =>
    simp only [decodeParams, List.map_cons, List.foldr_cons] at ih ⊢
    rw [ih, hparam]
    rfl

variable [Rounding] {effect : Effect} {layer : Layer}

/-- A start that was read is finite. -/
theorem decodeStart_isFinite (value : Json) :
    (decodeStart value).All fun x ↦ x.isFinite = true := by
  refine Checked.all_map.mpr fun x hx ↦ ?_
  have hfinite : x.isFinite = true := Decoder.all_such x hx
  show (clampStart x).isFinite = true
  rw [clampStart, Quantity.max]
  split
  · exact hfinite
  · rfl

/-- A filter layer that is made from any fields is one of an effect. -/
theorem isMadeOf_of_make {fields : List (String × Json)}
    (h : make .filter fields (.ok none) (.ok none) none = .ok layer) :
    ∃ effect, layer.IsMadeOf effect := by
  have valid := makeBare_isValid h
  have hall : (decodeWith .filter (.obj fields) ⟨.ok none, .ok none, .ok none⟩).All fun layer ↦
      layer.startTime.isFinite = true ∧ layer.position = none ∧ layer.style = none ∧
        ∃ effect, layer.content = .filter effect := by
    simp only [decodeWith, decodeContent, decodeEffect, assemble, Checked.all_seq, Checked.all_map]
    rintro start hstart duration - _ ⟨⟩ _ ⟨⟩ name - params -
    exact ⟨Decoder.all_field (p := fun x ↦ x.isFinite = true) rfl decodeStart_isFinite _ hstart,
      rfl, rfl, _, rfl⟩
  obtain ⟨hstart, hposition, hstyle, effect, hcontent⟩ :=
    hall layer (Checked.toExcept_eq_ok.mp (constructing_eq_ok.mp h))
  exact ⟨effect, hcontent, valid, hstart, hposition, hstyle⟩

/-- The fields of a filter layer, as a request has them. -/
def filterFields (layer : Layer) (effect : Effect) : List (String × Json) := [
  ("name", .str effect.name), ("start_time", .quantity layer.startTime),
  ("duration", (layer.duration.map .quantity).getD .null),
  ("params", .obj (effect.params.map fun (key, value) ↦ (key, paramJson value)))]

/-- **Every such layer can be made**, from its own fields. -/
theorem make_filterFields (h : layer.IsMadeOf effect) :
    make .filter (filterFields layer effect) (.ok none) (.ok none) none = .ok layer := by
  obtain ⟨start, duration, position, style, content⟩ := layer
  obtain ⟨hcontent, valid, hfinite, hposition, hstyle⟩ := h
  cases hcontent
  cases hposition
  cases hstyle
  have hname : filledText (.str effect.name) = .ok effect.name := filledText_str valid.content
  have hstart : decodeStart (.quantity start) = .ok start := by
    rw [decodeStart, Decoder.such_quantity, if_pos hfinite]
    exact congrArg Checked.ok (clampStart_of_isStart valid.startTime)
  have hduration : Decoder.optional decodeLength ((duration.map .quantity).getD .null) =
      .ok duration := by
    cases duration with
    | none => rfl
    | some x =>
      have hlength : decodeLength (.quantity x) = .ok x :=
        Decoder.such_of_ok rfl (valid.duration x rfl)
      exact congrArg (Checked.map some) hlength
  refine constructing_eq_ok.mpr (Checked.toExcept_eq_ok.mpr ?_)
  change (Layer.mk <$> (decodeStart (.quantity start)).within "startTime"
    <*> (Decoder.optional decodeLength ((duration.map .quantity).getD .null)).within "duration"
    <*> Checked.ok none <*> Checked.ok none <*> (Content.filter <$> (Effect.mk
      <$> (filledText (.str effect.name)).within "name"
      <*> (decodeParams (.obj (effect.params.map fun (key, value) ↦
        (key, paramJson value)))).within "params"))) = _
  rw [hstart, hduration, hname, decodeParams_paramJson]
  rfl

end Layer

namespace Timeline

variable [Rounding]

omit [Rounding] in
/-- The timeline with a length that is set. -/
def lasting (timeline : Timeline) (length : Quantity) : Timeline :=
  { timeline with options := { timeline.options with duration := some length } }

/-- **A builder accepts a filter layer whatever its parameters are.** -/
theorem exists_addFilter_iff {timeline next : Timeline} :
    (∃ given, timeline.addFilter given = .ok next) ↔
      ∃ layer effect, Layer.IsMadeOf effect layer ∧ next = timeline.append [layer] := by
  constructor
  · rintro ⟨given, h⟩
    obtain ⟨request, -, h⟩ := bind_eq_ok.mp h
    obtain ⟨params, -, h⟩ := bind_eq_ok.mp h
    obtain ⟨layer, hlayer, h⟩ := bind_eq_ok.mp h
    obtain ⟨effect, made⟩ := Layer.isMadeOf_of_make hlayer
    exact ⟨layer, effect, made, (pure_eq_ok.mp h).symm⟩
  · rintro ⟨layer, effect, made, rfl⟩
    have hparams (members : List (String × Json)) :
        givenParams (.obj members) = .ok (.obj members) := by
      cases members <;> rfl
    refine ⟨Layer.filterFields layer effect, bind_eq_ok.mpr ⟨⟨_⟩, rfl, ?_⟩⟩
    refine bind_eq_ok.mpr ⟨_, hparams _, bind_eq_ok.mpr ⟨layer, ?_, rfl⟩⟩
    exact Layer.make_filterFields made

end Timeline

/-! ## Windows -/

namespace Filter

theorem isWrittenWith_false (filter : Filter) : filter.isWrittenWith false = filter.isWritable := by
  simp only [isWrittenWith, isWritable, Bool.false_and, Bool.false_or]

/-- A window that can be written takes the place of the option that was there. -/
theorem isWritable_windowed (filter : Filter) {window : Expr} (h : window.isWritable = true) :
    (if Effect.isTimed filter.name then filter.set "enable" (.expr window) else filter).isWritable =
      filter.isWrittenWith true := by
  cases htimed : Effect.isTimed filter.name with
  | false => simp [isWrittenWith, isWritable, htimed]
  | true =>
    have hwindow : (OptionValue.expr window).isWritable = true := h
    rw [if_pos rfl, isWrittenWith, isWritable, set, unset, List.all_append, List.all_filter]
    simp [htimed, hwindow, bne]

end Filter

attribute [local instance] Rounding.binary64

/-- An effect has filters, and they are written if anyone asks for them. -/
theorem Effect.exists_written_iff {effect : Effect} {switched : Bool} {asked : Prop} :
    (∃ filters, effect.filters = .ok filters ∧
        (asked → ∀ filter ∈ filters, filter.isWrittenWith switched = true)) ↔
      effect.HasFilters ∧ (asked → effect.IsWritten switched) := by
  rw [← exists_filters_iff]
  constructor
  · rintro ⟨filters, h, hwritten⟩
    exact ⟨⟨filters, h⟩, fun hasked ↦ (isWritten_iff switched h).mp (hwritten hasked)⟩
  · rintro ⟨⟨filters, h⟩, hwritten⟩
    exact ⟨filters, h, fun hasked ↦ (isWritten_iff switched h).mpr (hwritten hasked)⟩

namespace Command

variable {timeline : Timeline} {layer : Layer} {effect : Effect}

/-! ## Filter layers in the graph -/

/-- A window can be made, and written. -/
theorem exists_window (start stop : Quantity) :
    ∃ window, Expr.window (.quantity start) (some (.quantity stop)) = .ok window ∧
      window.isWritable = true :=
  ⟨_, rfl, rfl⟩

/-- **The filters of an effect are painted if it has them and they are written.** -/
theorem exists_effectFilters_iff (canvas : Canvas) :
    (∃ filters, effectFilters canvas layer effect = .ok filters ∧ AreWritable filters) ↔
      effect.HasFilters ∧ effect.IsWritten (!spans canvas.duration layer) := by
  rw [← Effect.exists_filters_iff, effectFilters]
  cases hfilters : effect.filters with
  | error e => exact iff_of_false (by rintro ⟨_, ⟨⟩, -⟩) (by rintro ⟨⟨_, ⟨⟩⟩, -⟩)
  | ok filters =>
    rw [and_iff_right ⟨filters, rfl⟩, ← Effect.isWritten_iff _ hfilters]
    by_cases hspans : spans canvas.duration layer = true
    · simp only [enableOf_of_spans hspans, hspans, Bool.not_true, Filter.isWrittenWith_false]
      constructor
      · rintro ⟨_, ⟨⟩, h⟩
        exact h
      · exact fun h ↦ ⟨filters, rfl, h⟩
    · obtain ⟨window, hwindow, hshort⟩ :=
        exists_window layer.startTime (effectiveEnd canvas layer)
      have hbounded : spans canvas.duration layer = false := Bool.not_eq_true _ ▸ hspans
      simp only [enableOf_of_not_spans hspans, hwindow, hbounded, Bool.not_false,
        ← Filter.isWritable_windowed _ hshort]
      constructor
      · rintro ⟨_, ⟨⟩, h⟩
        exact List.forall_mem_map.mp h
      · exact fun h ↦ ⟨_, rfl, List.forall_mem_map.mpr h⟩

/-- **A filter layer can be built if its effect has filters, and they are written where they are
used**: those of a sound only if there is some, and the others under the window of the layer. -/
theorem layerCompiles_filter_iff {canvas : Canvas} {style : Option Style} {heard : Prop}
    (hcontent : layer.content = .filter effect) :
    LayerCompiles canvas style heard layer ↔ effect.HasFilters ∧ ((effect.isAudio = true → heard) →
      effect.IsWritten (!effect.isAudio && !spans canvas.duration layer)) := by
  have hsilent : ∃ filters, soundingOf canvas layer = .ok filters ∧ AreWritable filters := by
    rw [soundingOf, hcontent]
    exact ⟨[], rfl, List.forall_mem_nil _⟩
  cases haudio : effect.isAudio with
  | false =>
    have hpainting : paintingOf canvas style layer = effectFilters canvas layer effect := by
      simp [paintingOf, hcontent, Picture.ofContent, drawingOf, haudio]
    have hmixing : mixingOf layer = .ok [] := by
      simp [mixingOf, hcontent, haudio]
    simp only [Bool.not_false, Bool.true_and, Bool.false_eq_true, false_imp_iff, true_imp_iff,
      ← exists_effectFilters_iff]
    rw [← hpainting]
    exact ⟨fun h ↦ h.painting, fun h ↦ ⟨h, hsilent, [], hmixing, List.forall_mem_nil _⟩⟩
  | true =>
    have hpainting : paintingOf canvas style layer = .ok [] := by
      simp [paintingOf, hcontent, Picture.ofContent, drawingOf, haudio]
      rfl
    have hmixing : mixingOf layer = effect.filters := by
      simp [mixingOf, hcontent, haudio]
    have hmixed : (∃ filters, mixingOf layer = .ok filters ∧
        ∀ filter ∈ filters, heard → filter.isWritable = true) ↔
          effect.HasFilters ∧ (heard → effect.IsWritten false) := by
      rw [hmixing, ← Effect.exists_written_iff]
      simp only [Filter.isWrittenWith_false]
      exact exists_congr fun filters ↦ and_congr_right fun _ ↦
        ⟨fun h heard filter hfilter ↦ h filter hfilter heard,
          fun h filter hfilter heard ↦ h heard filter hfilter⟩
    simp only [Bool.not_true, Bool.false_and, true_imp_iff]
    rw [← hmixed]
    exact ⟨fun h ↦ h.mixing, fun h ↦ ⟨⟨[], hpainting, List.forall_mem_nil _⟩, hsilent, h⟩⟩

/-! ## The layers before it -/

theorem soundsOf_append_filter (hcontent : layer.content = .filter effect) (layers : List Layer) :
    soundsOf (layers ++ [layer]) = soundsOf layers := by
  simp [soundsOf, hcontent, Sound.ofContent]

theorem inputsOf_append_filter (hcontent : layer.content = .filter effect) (layers : List Layer) :
    inputsOf (layers ++ [layer]) = inputsOf layers := by
  simp [inputsOf, hcontent, inputOf, sourceOf]

theorem splitsOf_append_filter (hcontent : layer.content = .filter effect) (inputs : List Input)
    (layers : List Layer) : splitsOf inputs (layers ++ [layer]) = splitsOf inputs layers := by
  simp [splitsOf, padsOf, hcontent, picturePad, soundPad]

/-- A filter layer leaves the frame as it is. -/
theorem frameCompiles_append_filter (hcontent : layer.content = .filter effect) (length : Quantity)
    (canvas : Canvas) : FrameCompiles (timeline.append [layer]) canvas ↔
      FrameCompiles (timeline.lasting length) canvas := by
  constructor
  · rintro ⟨background, output, splits, mixer⟩
    simp only [Timeline.append, inputsOf_append_filter hcontent, splitsOf_append_filter hcontent,
      soundsOf_append_filter hcontent] at splits mixer
    exact ⟨background, output, splits, mixer⟩
  · rintro ⟨background, output, splits, mixer⟩
    refine ⟨background, output, ?_, ?_⟩
    · simpa only [Timeline.append, inputsOf_append_filter hcontent, splitsOf_append_filter hcontent]
    · simpa only [Timeline.append, soundsOf_append_filter hcontent]

/-- **A command with a filter layer at the end.** -/
theorem exists_body_append_filter_iff (hcontent : layer.content = .filter effect)
    (given : Option EncoderProfile) :
    (∃ args, body (timeline.append [layer]) given = .ok args) ↔
      (∃ args, body (timeline.lasting (timeline.append [layer]).duration) given = .ok args) ∧
      effect.HasFilters ∧ ((effect.isAudio = true → soundsOf timeline.layers ≠ []) →
        effect.IsWritten (!effect.isAudio && !spans (timeline.append [layer]).duration layer)) := by
  have hcanvas : canvasOf (timeline.append [layer]) =
      canvasOf (timeline.lasting (timeline.append [layer]).duration) := rfl
  have hlength (canvas : Canvas) (h : canvasOf (timeline.append [layer]) = .ok canvas) :
      canvas.duration = (timeline.append [layer]).duration := by
    obtain ⟨_, -, h⟩ := bind_eq_ok.mp h
    cases pure_eq_ok.mp h
    rfl
  rw [exists_body_iff, exists_body_iff, ← hcanvas]
  constructor
  · rintro ⟨⟨canvas, h, hframe, hlayers⟩, hprofile⟩
    rw [frameCompiles_append_filter hcontent (timeline.append [layer]).duration] at hframe
    simp only [Timeline.append, soundsOf_append_filter hcontent, List.forall_mem_append,
      List.forall_mem_singleton, layerCompiles_filter_iff hcontent] at hlayers
    rw [hlength canvas h] at hlayers
    exact ⟨⟨⟨canvas, h, hframe, hlayers.1⟩, hprofile⟩, hlayers.2⟩
  · rintro ⟨⟨⟨canvas, h, hframe, hlayers⟩, hprofile⟩, hlayer⟩
    refine ⟨⟨canvas, h, (frameCompiles_append_filter hcontent _ _).mpr hframe, ?_⟩, hprofile⟩
    simp only [Timeline.append, soundsOf_append_filter hcontent, List.forall_mem_append,
      List.forall_mem_singleton, layerCompiles_filter_iff hcontent]
    rw [hlength canvas h]
    exact ⟨hlayers, hlayer⟩

/-- The arguments of a command exist if those behind its opening do. -/
theorem exists_arguments_iff (timeline : Timeline) (path : Json) (context : Context)
    (given : Option EncoderProfile) :
    (∃ args, arguments timeline path context given = .ok args) ↔
      ∃ args, body timeline given = .ok args := by
  simp only [arguments, exists_bind_eq_ok, exists_pure_eq_ok, and_true]

/-- **Main.** A builder accepts just the layers that are made of an effect, with whatever
parameters.  If a filter layer stands behind the others, the arguments of the command exist just if
they do without it, for an output of the same length, and the parameters are what the effect asks
for: so that its filters exist, and so that they are written, unless they were to work on a sound
that is not there. -/
theorem accepted_filter_compiles_iff (timeline : Timeline) (path : Json) (context : Context)
    (given : Option EncoderProfile) :
    (∀ next, (∃ request, timeline.addFilter request = .ok next) ↔
      ∃ layer effect, Layer.IsMadeOf effect layer ∧ next = timeline.append [layer]) ∧
    ∀ layer effect, layer.content = .filter effect →
      ((∃ filters, effect.filters = .ok filters) ↔ effect.HasFilters) ∧
      ((∃ args, arguments (timeline.append [layer]) path context given = .ok args) ↔
        (∃ args, arguments (timeline.lasting (timeline.append [layer]).duration) path context
          given = .ok args) ∧
        effect.HasFilters ∧ ((effect.isAudio = true → soundsOf timeline.layers ≠ []) →
          effect.IsWritten (!effect.isAudio &&
            !spans (timeline.append [layer]).duration layer))) := by
  refine ⟨fun _ ↦ Timeline.exists_addFilter_iff, fun layer effect hcontent ↦
    ⟨effect.exists_filters_iff, ?_⟩⟩
  simp only [exists_arguments_iff]
  exact exists_body_append_filter_iff hcontent given

/-- A flip along a diagonal, which no filter can do. -/
def diagonalFlip : Layer where
  content := .filter ⟨"flip", [("direction", .text "diagonal")]⟩

theorem diagonalFlip_accepted :
    (∃ request, Timeline.addFilter {} request = .ok (Timeline.append {} [diagonalFlip])) ∧
      ∀ path context given args,
        arguments (Timeline.append {} [diagonalFlip]) path context given ≠ .ok args := by
  have hmade : Layer.IsMadeOf ⟨"flip", [("direction", .text "diagonal")]⟩ diagonalFlip :=
    ⟨rfl, ⟨⟨by decide, by rintro ⟨⟩⟩, by rintro _ ⟨⟩, by rintro _ ⟨⟩, by rintro _ ⟨⟩,
      (by decide : isAllBlank "flip" = false)⟩, rfl, rfl, rfl⟩
  constructor
  · exact ((accepted_filter_compiles_iff {} .null {} none).1 _).mpr ⟨_, _, hmade, rfl⟩
  · intro path context given args hargs
    obtain ⟨-, hfilters, -⟩ := ((accepted_filter_compiles_iff {} path context given).2 _ _
      hmade.content).2.mp ⟨args, hargs⟩
    have hdirection := hfilters.flip rfl _ rfl
    simp at hdirection

end Command
end Montage
