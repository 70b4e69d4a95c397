import Montage.Proofs.Command.Whole
import Montage.Command.Basic

/-!
# A command, layer by layer

A layer brings filters of its own to a graph: those of its picture or its text, those of its sound,
and those that it puts behind the mixed sound.  Which ones these are does not depend on the other
layers but for the length of the output; the walk over the layers only wires them together.

So a command can be built just if each layer can be built for itself, and the frame in which they
stand (`exists_body_iff`).
-/

set_option autoImplicit false

namespace Montage

/-- The filters of some stages, in their order. -/
def Stage.filtersOf (stages : List Stage) : List Filter := stages.flatMap Stage.filters

/-- Every filter can be written. -/
def AreWritable (filters : List Filter) : Prop := ∀ filter ∈ filters, filter.isWritable = true

theorem areWritable_append {first second : List Filter} :
    AreWritable (first ++ second) ↔ AreWritable first ∧ AreWritable second :=
  List.forall_mem_append

theorem Stage.filtersOf_append (first second : List Stage) :
    filtersOf (first ++ second) = filtersOf first ++ filtersOf second :=
  List.flatMap_append

theorem FilterGraph.isWritable_iff {graph : FilterGraph} :
    graph.isWritable = true ↔ AreWritable (Stage.filtersOf graph.stages) := by
  simp only [isWritable, List.all_eq_true, AreWritable, Stage.filtersOf, List.forall_mem_flatMap]

namespace Command

variable [Rounding]

/-! ## The filters of a layer -/

/-- The filters that paint a layer. -/
def paintingOf (canvas : Canvas) (style : Option Style) (layer : Layer) :
    Except Error (List Filter) := do
  match Picture.ofContent layer.content with
  | some picture =>
    return (← preparation canvas layer picture) ++ [← overlayFilter canvas layer picture]
  | none =>
    match drawingOf layer.content, layer.content with
    | some drawing, _ => return [← textFilter canvas style layer drawing]
    | none, .filter effect =>
      if effect.isAudio then return [] else effectFilters canvas layer effect
    | none, _ => return []

/-- The filters that prepare the sound of a layer, if it has one. -/
def soundingOf (canvas : Canvas) (layer : Layer) : Except Error (List Filter) :=
  match Sound.ofContent layer.content with
  | some sound => soundFilters canvas layer sound
  | none => .ok []

/-- The filters that a layer puts behind the mixed sound. -/
def mixingOf (layer : Layer) : Except Error (List Filter) :=
  match layer.content with
  | .filter effect => if effect.isAudio then effect.filters else .ok []
  | _ => .ok []

/-- The filters of the stages that lay a picture over the canvas. -/
theorem paintPicture_filters (canvas : Canvas) (inputs : List Input) (session : Session)
    (current : String) (layer : Layer) (picture : Picture) :
    (paintPicture canvas inputs session current layer picture).map
        (fun painted ↦ Stage.filtersOf painted.stages) = do
      return (← preparation canvas layer picture) ++ [← overlayFilter canvas layer picture] := by
  rw [paintPicture]
  cases preparation canvas layer picture with
  | error e => rfl
  | ok prepare => cases overlayFilter canvas layer picture <;> rfl

/-- The filters of the stages that paint a layer. -/
theorem paintLayer_filters (canvas : Canvas) (options : RenderOptions) (inputs : List Input)
    (session : Session) (current : String) (layer : Layer) :
    (paintLayer canvas options inputs session current layer).map
        (fun result ↦ Stage.filtersOf ((result.map Painted.stages).getD [])) =
      paintingOf canvas options.defaultStyle layer := by
  have hpicture (picture : Picture) :
      (paintPicture canvas inputs session current layer picture >>= fun painted ↦
        pure (some painted)).map (fun result ↦
          Stage.filtersOf ((result.map Painted.stages).getD [])) = do
        return (← preparation canvas layer picture) ++ [← overlayFilter canvas layer picture] := by
    rw [← paintPicture_filters canvas inputs session current layer picture]
    cases paintPicture canvas inputs session current layer picture <;> rfl
  have hdrawing (drawing : Drawing) :
      (textFilter canvas options.defaultStyle layer drawing >>= fun filter ↦
        pure (some (paintWith session current [filter]))).map (fun result ↦
          Stage.filtersOf ((result.map Painted.stages).getD [])) = do
        return [← textFilter canvas options.defaultStyle layer drawing] := by
    cases textFilter canvas options.defaultStyle layer drawing <;> rfl
  rw [paintLayer, paintingOf]
  cases layer.content with
  | video video => exact hpicture (.video video)
  | image image => exact hpicture (.image image)
  | audio audio => rfl
  | text text transition => exact hdrawing _
  | caption caption => exact hdrawing _
  | filter effect =>
    dsimp only [Picture.ofContent, drawingOf]
    split
    · rfl
    · cases effectFilters canvas layer effect with
      | error e => rfl
      | ok filters => exact congrArg Except.ok (List.append_nil filters)

/-! ## The filters of all layers -/

omit [Rounding] in
/-- A row of calls gives in one list what the first call gives, and what the others give. -/
theorem mapM_cons_flatten {α β : Type} (f : α → Except Error (List β)) (x : α) (xs : List α) :
    ((x :: xs).mapM f).map List.flatten =
      f x >>= fun first ↦ ((xs.mapM f).map List.flatten).map (first ++ ·) := by
  rw [List.mapM_cons]
  cases f x with
  | error e => rfl
  | ok first => cases xs.mapM f <;> rfl

/-- **The filters that paint layers are those that paint each of them.** -/
theorem paintLayers_filters (canvas : Canvas) (options : RenderOptions) (inputs : List Input)
    (session : Session) (current : String) (layers : List Layer) :
    (paintLayers canvas options inputs session current layers).map
        (fun painted ↦ Stage.filtersOf painted.stages) =
      (layers.mapM (paintingOf canvas options.defaultStyle)).map List.flatten := by
  induction layers generalizing session current with
  | nil => rfl
  | cons layer rest ih =>
    rw [paintLayers, mapM_cons_flatten,
      ← paintLayer_filters canvas options inputs session current layer]
    cases paintLayer canvas options inputs session current layer with
    | error e => rfl
    | ok result =>
      cases result with
      | none =>
        rw [← ih session current]
        cases paintLayers canvas options inputs session current rest <;> rfl
      | some painted =>
        rw [← ih painted.session painted.output]
        change (paintLayers canvas options inputs painted.session painted.output rest >>=
          fun later ↦ pure { later with stages := painted.stages ++ later.stages }).map _ = _
        cases paintLayers canvas options inputs painted.session painted.output rest with
        | error e => rfl
        | ok later => exact congrArg Except.ok (Stage.filtersOf_append _ _)

/-- **The filters that prepare sounds are those that prepare each of them.** -/
theorem soundStages_filters (canvas : Canvas) (inputs : List Input) (session : Session)
    (layers : List Layer) :
    (soundStages canvas inputs session layers).map (fun sounds ↦ Stage.filtersOf sounds.1) =
      (layers.mapM (soundingOf canvas)).map List.flatten := by
  induction layers generalizing session with
  | nil => rfl
  | cons layer rest ih =>
    rw [soundStages, mapM_cons_flatten, soundingOf]
    cases Sound.ofContent layer.content with
    | none =>
      rw [← ih session]
      cases soundStages canvas inputs session rest <;> rfl
    | some sound =>
      dsimp only
      cases soundFilters canvas layer sound with
      | error e => rfl
      | ok filters =>
        -- the sounds behind this one read what it leaves of the copies
        let stream := takeStream ⟨indexOf inputs sound.source.path, true⟩ session.splits
        let next := { session with splits := stream.2, sounds := session.sounds + 1 }
        rw [← ih next]
        change (soundStages canvas inputs next rest >>= fun later ↦ pure
          (⟨[stream.1], filters, [numbered "a" session.sounds]⟩ :: later.1,
            numbered "a" session.sounds :: later.2)).map _ = _
        cases soundStages canvas inputs next rest <;> rfl

/-- **The filters behind the mixed sound are those that each layer puts there.** -/
theorem soundEffects_filters (layers : List Layer) :
    soundEffects layers = (layers.mapM mixingOf).map List.flatten := by
  induction layers with
  | nil => rfl
  | cons layer rest ih =>
    have hskip : soundEffects rest = (soundEffects rest).map ([] ++ ·) := by
      cases soundEffects rest <;> rfl
    rw [soundEffects, mapM_cons_flatten, ← ih, mixingOf]
    cases layer.content with
    | filter effect =>
      dsimp only
      split
      · cases effect.filters with
        | error e => rfl
        | ok filters => cases soundEffects rest <;> rfl
      · exact hskip
    | _ => exact hskip

omit [Rounding] in
/-- What holds of all that a row of calls gives holds of what each call gives. -/
theorem exists_flatten_iff {α β : Type} {f : α → Except Error (List β)} {P : β → Prop}
    {xs : List α} : (∃ ys, (xs.mapM f).map List.flatten = .ok ys ∧ ∀ y ∈ ys, P y) ↔
      ∀ x ∈ xs, ∃ ys, f x = .ok ys ∧ ∀ y ∈ ys, P y := by
  induction xs with
  | nil => exact iff_of_true ⟨[], rfl, List.forall_mem_nil _⟩ (List.forall_mem_nil _)
  | cons x xs ih =>
    rw [mapM_cons_flatten, List.forall_mem_cons, ← ih]
    constructor
    · rintro ⟨ys, h, hys⟩
      obtain ⟨first, hfirst, h⟩ := bind_eq_ok.mp h
      obtain ⟨rest, hrest, rfl⟩ := map_eq_ok.mp h
      rw [List.forall_mem_append] at hys
      exact ⟨⟨first, hfirst, hys.1⟩, rest, hrest, hys.2⟩
    · rintro ⟨⟨first, hfirst, hP⟩, rest, hrest, hP'⟩
      exact ⟨first ++ rest, bind_eq_ok.mpr ⟨first, hfirst, map_eq_ok.mpr ⟨rest, hrest, rfl⟩⟩,
        List.forall_mem_append.mpr ⟨hP, hP'⟩⟩

/-! ## The frame -/

/-- The sounds of layers. -/
def soundsOf (layers : List Layer) : List Sound :=
  layers.filterMap fun layer ↦ Sound.ofContent layer.content

omit [Rounding] in
theorem filtersOf_relabelLast (output : String) (stages : List Stage) :
    Stage.filtersOf (relabelLast output stages) = Stage.filtersOf stages := by
  induction stages with
  | nil => rfl
  | cons stage rest ih =>
    cases rest with
    | nil => rfl
    | cons next rest => exact congrArg (stage.filters ++ ·) ih

omit [Rounding] in
theorem areWritable_finishPicture (options : RenderOptions) (current : String)
    (stages : List Stage) :
    AreWritable (Stage.filtersOf (finishPicture options current stages)) ↔
      AreWritable (Stage.filtersOf stages) ∧ AreWritable (outputFilters options) := by
  rw [finishPicture]
  split
  · rename_i hempty
    rw [List.isEmpty_iff] at hempty
    rw [filtersOf_relabelLast, hempty]
    exact (and_iff_left (List.forall_mem_nil _)).symm
  · rw [Stage.filtersOf_append, areWritable_append]
    simp [Stage.filtersOf]

omit [Rounding] in
theorem areWritable_mixStage (labels : List String) (effects : List Filter) :
    AreWritable (Stage.filtersOf (mixStage labels effects)) ↔
      (labels ≠ [] → (mixerOf labels.length).isWritable = true) ∧
        ∀ filter ∈ effects, labels ≠ [] → filter.isWritable = true := by
  by_cases h : labels = []
  · subst h
    simp [mixStage, Stage.filtersOf, AreWritable]
  · rw [mixStage_of_ne_nil h]
    simp [Stage.filtersOf, AreWritable, h]

/-- What a command asks of everything but the layers: the canvas and what is done to it at the end,
the copies of streams, and the mixer of the sounds. -/
structure FrameCompiles (timeline : Timeline) (canvas : Canvas) : Prop where
  background : ∃ stage, canvasStage canvas timeline.options.backgroundColor = .ok stage ∧
    AreWritable stage.filters
  output : AreWritable (outputFilters timeline.options)
  splits : AreWritable (Stage.filtersOf
    ((splitsOf (inputsOf timeline.layers) timeline.layers).map Split.stage))
  mixer : soundsOf timeline.layers ≠ [] →
    (mixerOf (soundsOf timeline.layers).length).isWritable = true

/-- What a command asks of a layer: its filters exist and can be written.  Those behind the mixed
sound are only written if there is some. -/
structure LayerCompiles (canvas : Canvas) (style : Option Style) (heard : Prop) (layer : Layer) :
    Prop where
  painting : ∃ filters, paintingOf canvas style layer = .ok filters ∧ AreWritable filters
  sounding : ∃ filters, soundingOf canvas layer = .ok filters ∧ AreWritable filters
  mixing : ∃ filters, mixingOf layer = .ok filters ∧
    ∀ filter ∈ filters, heard → filter.isWritable = true

theorem length_labels {canvas : Canvas} {inputs : List Input} {session : Session}
    {layers : List Layer} {stages : List Stage} {labels : List String}
    (h : soundStages canvas inputs session layers = .ok (stages, labels)) :
    labels.length = (soundsOf layers).length := by
  rw [(soundStages_sounding h).labels_eq, List.length_map, List.length_range', length_soundPads]
  rfl

omit [Rounding] in
theorem labels_ne_nil_iff {labels : List String} {layers : List Layer}
    (h : labels.length = (soundsOf layers).length) : labels ≠ [] ↔ soundsOf layers ≠ [] := by
  rw [ne_eq, ne_eq, ← List.length_eq_zero_iff, ← List.length_eq_zero_iff, h]

variable {timeline : Timeline}

/-- **A graph can be made and written just if its frame and each layer can be.** -/
theorem exists_compile_iff :
    (∃ compiled, compile timeline = .ok compiled ∧ compiled.graph.isWritable = true) ↔
      ∃ canvas, canvasOf timeline = .ok canvas ∧ FrameCompiles timeline canvas ∧
        ∀ layer ∈ timeline.layers,
          LayerCompiles canvas timeline.options.defaultStyle (soundsOf timeline.layers ≠ [])
            layer := by
  constructor
  · rintro ⟨compiled, h, hwritable⟩
    obtain ⟨parts⟩ := compile_parts h
    have hlabels := length_labels parts.plays
    rw [FilterGraph.isWritable_iff, parts.stages_eq] at hwritable
    simp only [Stage.filtersOf_append, areWritable_append, areWritable_finishPicture,
      areWritable_mixStage, labels_ne_nil_iff hlabels, hlabels] at hwritable
    obtain ⟨hsplits, ⟨hpictures, houtput⟩, hsounds, hmixer, heffects⟩ := hwritable
    have hbackground : AreWritable parts.background ∧
        AreWritable (Stage.filtersOf parts.painted.stages) :=
      areWritable_append.mp hpictures
    refine ⟨parts.canvas, parts.canvas_eq,
      ⟨⟨_, parts.background_eq, hbackground.1⟩, houtput, hsplits, hmixer⟩, fun layer hlayer ↦ ?_⟩
    have hpainting := (paintLayers_filters _ _ _ _ _ _).symm.trans
      (congrArg (Except.map fun painted ↦ Stage.filtersOf painted.stages) parts.paints)
    have hsounding := (soundStages_filters _ _ _ _).symm.trans
      (congrArg (Except.map fun sounds ↦ Stage.filtersOf sounds.1) parts.plays)
    have hmixing := (soundEffects_filters _).symm.trans parts.effects_eq
    exact ⟨exists_flatten_iff.mp ⟨_, hpainting, hbackground.2⟩ layer hlayer,
      exists_flatten_iff.mp ⟨_, hsounding, hsounds⟩ layer hlayer,
      exists_flatten_iff.mp ⟨_, hmixing, heffects⟩ layer hlayer⟩
  · rintro ⟨canvas, hcanvas, ⟨⟨base, hbase, hbackground⟩, houtput, hsplits, hmixer⟩, hlayers⟩
    obtain ⟨_, hpainting, hpictures⟩ :=
      exists_flatten_iff.mpr fun layer hlayer ↦ (hlayers layer hlayer).painting
    rw [← paintLayers_filters canvas timeline.options (inputsOf timeline.layers)
      { splits := splitsOf (inputsOf timeline.layers) timeline.layers } "base"] at hpainting
    obtain ⟨painted, hpainted, rfl⟩ := map_eq_ok.mp hpainting
    obtain ⟨_, hsounding, hsounds⟩ :=
      exists_flatten_iff.mpr fun layer hlayer ↦ (hlayers layer hlayer).sounding
    rw [← soundStages_filters canvas (inputsOf timeline.layers) painted.session] at hsounding
    obtain ⟨⟨sounds, labels⟩, hplayed, rfl⟩ := map_eq_ok.mp hsounding
    obtain ⟨effects, hmixing, heffects⟩ :=
      exists_flatten_iff.mpr fun layer hlayer ↦ (hlayers layer hlayer).mixing
    rw [← soundEffects_filters] at hmixing
    have hlabels := length_labels hplayed
    have hcompile : compile timeline = .ok ⟨inputsOf timeline.layers,
        ⟨(splitsOf (inputsOf timeline.layers) timeline.layers).map Split.stage ++
          finishPicture timeline.options painted.output (base :: painted.stages) ++ sounds ++
            mixStage labels effects⟩, !labels.isEmpty⟩ := by
      rw [compile, bind_of_ok hcanvas, bind_of_ok hbase, bind_of_ok hpainted, bind_of_ok hplayed]
      dsimp only
      rw [bind_of_ok hmixing]
      rfl
    refine ⟨_, hcompile, ?_⟩
    rw [FilterGraph.isWritable_iff]
    simp only [Stage.filtersOf_append, areWritable_append, areWritable_finishPicture,
      areWritable_mixStage, labels_ne_nil_iff hlabels, hlabels]
    exact ⟨⟨⟨hsplits, areWritable_append.mpr ⟨hbackground, hpictures⟩, houtput⟩, hsounds⟩,
      hmixer, heffects⟩

/-- **A command can be built just if its frame and each layer can be**, and there is an encoder. -/
theorem exists_body_iff (given : Option EncoderProfile) :
    (∃ args, body timeline given = .ok args) ↔
      (∃ canvas, canvasOf timeline = .ok canvas ∧ FrameCompiles timeline canvas ∧
        ∀ layer ∈ timeline.layers,
          LayerCompiles canvas timeline.options.defaultStyle (soundsOf timeline.layers ≠ [])
            layer) ∧
      (given = none → ∃ profile, profileOf timeline.options = .ok profile) := by
  have hwrite (graph : FilterGraph) :
      (∃ text, graph.write = .ok text) ↔ graph.isWritable = true := by
    rw [FilterGraph.write]
    split <;> simp [*]
  rw [← exists_compile_iff, body]
  constructor
  · rintro ⟨args, h⟩
    obtain ⟨compiled, hcompiled, h⟩ := bind_eq_ok.mp h
    obtain ⟨text, htext, h⟩ := bind_eq_ok.mp h
    refine ⟨⟨compiled, hcompiled, (hwrite _).mp ⟨text, htext⟩⟩, ?_⟩
    rintro rfl
    obtain ⟨profile, hprofile, -⟩ := bind_eq_ok.mp h
    exact ⟨profile, hprofile⟩
  · rintro ⟨⟨compiled, hcompiled, hwritable⟩, hprofile⟩
    obtain ⟨text, htext⟩ := (hwrite _).mpr hwritable
    rw [bind_of_ok hcompiled, bind_of_ok htext]
    cases given with
    | some profile => exact ⟨_, rfl⟩
    | none =>
      obtain ⟨profile, hprofile⟩ := hprofile rfl
      exact ⟨_, bind_eq_ok.mpr ⟨profile, hprofile, rfl⟩⟩

end Command
end Montage
