import Montage.Proofs.Command.Whole

/-!
# Well linked graphs

`WellLinked` is what a reader of filter graphs asks of one before looking at any filter: no label
is written twice, whatever is written is read, and whatever is read is there.  It also says that
each layer is prepared from its own file, however many layers share it, and that the arguments of
a command fit the graph.

Every timeline that compiles has a well linked graph.  The streams flow through the graph by
`Parts.flow`, and their names differ by `Label.name_injective`; the rest is read off the flow.
-/

set_option autoImplicit false

namespace Montage
namespace Command

variable [Rounding]

/-! ## What is asked of a graph -/

omit [Rounding] in
/-- The stream is the pad itself, or a copy of it that one splitting stage makes. -/
def Draws (stages : List Stage) (pad : Pad) (stream : String) : Prop :=
  stream = pad.name ∨ ∃ stage ∈ stages, stage.inputs = [pad.name] ∧ stream ∈ stage.outputs
    ∧ stage.filters = [.withArgs (if pad.sound then "asplit" else "split")
      [.num (.whole stage.outputs.length)]]

omit [Rounding] in
/-- A stage of the graph gives out `label`, made by `filters` from the picture or the sound of the
file at `path`. -/
def PreparedFrom (compiled : Compiled) (path : String) (sound : Bool)
    (filters : Except Error (List Filter)) (label : String) : Prop :=
  ∃ stage ∈ compiled.graph.stages, stage.outputs = [label] ∧ filters = .ok stage.filters
    ∧ ∃ pad stream, stage.inputs = [stream] ∧ Draws compiled.graph.stages pad stream
      ∧ pad.sound = sound ∧ (compiled.inputs[pad.input]?).map Input.path = some path

/-- What a reader of filter graphs asks of the graph of a timeline. -/
structure WellLinked (timeline : Timeline) (compiled : Compiled) : Prop where
  /-- No label is written twice. -/
  written_once : (Stage.written compiled.graph.stages).Nodup
  /-- A label that is not the end of the graph is read once, behind the stage that writes it. -/
  read_once : ∀ front stage back, compiled.graph.stages = front ++ stage :: back →
    ∀ label ∈ stage.outputs, label ≠ pictureLabel → label ≠ soundLabel →
      (Stage.reads compiled.graph.stages).count label = 1 ∧ label ∈ Stage.reads back
  /-- Whatever is read is a label from before or a stream of an input. -/
  read_known : ∀ front stage back, compiled.graph.stages = front ++ stage :: back →
    ∀ stream ∈ stage.inputs, stream ∈ Stage.written front
      ∨ ∃ pad : Pad, stream = pad.name ∧ pad.input < compiled.inputs.length
  /-- A stream of an input is read at most once. -/
  pad_once : ∀ pad : Pad, (Stage.reads compiled.graph.stages).count pad.name ≤ 1
  /-- The inputs are the files of the layers, each once, as they first appear. -/
  inputs_eq : compiled.inputs.map Input.path = (timeline.layers.filterMap mediaPath).eraseDups
  /-- The picture of a layer is prepared from the layer's own file. -/
  picture_from : ∀ canvas before layer after picture, canvasOf timeline = .ok canvas →
    timeline.layers = before ++ layer :: after → Picture.ofContent layer.content = some picture →
      PreparedFrom compiled picture.source.path false (preparation canvas layer picture)
        (numbered "l" (before.filterMap fun layer ↦ Picture.ofContent layer.content).length)
  /-- The sound of a layer is prepared from the layer's own file. -/
  sound_from : ∀ canvas before layer after sound, canvasOf timeline = .ok canvas →
    timeline.layers = before ++ layer :: after → Sound.ofContent layer.content = some sound →
      PreparedFrom compiled sound.source.path true (soundFilters canvas layer sound)
        (numbered "a" (before.filterMap fun layer ↦ Sound.ofContent layer.content).length)
  /-- The finished picture is written. -/
  picture_written : (Stage.written compiled.graph.stages).count pictureLabel = 1
  /-- Mixed sound is written where there is any. -/
  sound_written : (Stage.written compiled.graph.stages).count soundLabel
    = if compiled.hasSound then 1 else 0
  /-- There is sound where a layer has it. -/
  hasSound_iff : compiled.hasSound = true ↔ ∃ layer ∈ timeline.layers,
    (∃ audio, layer.content = .audio audio)
      ∨ ∃ video, layer.content = .video video ∧ video.audio = true
  /-- The sounds are brought together by a filter for as many as there are. -/
  mixed_all : ∀ stage ∈ compiled.graph.stages, soundLabel ∈ stage.outputs →
    ∃ effects, stage.filters = mixerOf stage.inputs.length :: effects

omit [Rounding] in
theorem sourceOf_picture {content : Content} {picture : Picture}
    (h : Picture.ofContent content = some picture) : sourceOf content = some picture.source := by
  cases content <;> cases h <;> rfl

omit [Rounding] in
theorem sourceOf_sound {content : Content} {sound : Sound}
    (h : Sound.ofContent content = some sound) : sourceOf content = some sound.source := by
  cases content with
  | video video =>
    rw [Sound.ofContent] at h
    split at h <;> cases h
    rfl
  | audio audio =>
    cases h
    rfl
  | image | text | caption | filter => cases h

omit [Rounding] in
theorem sound_ne_none {content : Content} : Sound.ofContent content ≠ none
    ↔ (∃ audio, content = .audio audio)
      ∨ ∃ video, content = .video video ∧ video.audio = true := by
  cases content <;> simp [Sound.ofContent]

/-! ## All names at once -/

omit [Rounding] in
/-- The labels of a graph with so many copies, pictures, canvases and sounds. -/
def allLabels (pads : List Pad) (copies pictures canvases sounds : Nat) (mix : List Label) :
    List Label :=
  pads.map .pad ++ ((List.range' 0 copies).map .copy
    ++ ((Label.canvas :: ((List.range' 0 pictures).map .prepared
          ++ (List.range' 0 canvases).map .painted) ++ [.picture])
      ++ ((List.range' 0 sounds).map .sound ++ mix)))

omit [Rounding] in
theorem nodup_allLabels {pads : List Pad} (h : pads.Nodup) (copies pictures canvases sounds : Nat)
    {mix : List Label} (hmix : mix = [] ∨ mix = [.mix]) :
    (allLabels pads copies pictures canvases sounds mix).Nodup := by
  have numbers : ∀ (make : Nat → Label) (n : Nat), Function.Injective make →
      ((List.range' 0 n).map make).Nodup := fun make n hmake ↦ (List.nodup_range' 1).map hmake
  have hpads : (pads.map Label.pad).Nodup := h.map fun _ _ heq ↦ Label.pad.inj heq
  have hcopies := numbers .copy copies fun _ _ heq ↦ Label.copy.inj heq
  have hpictures := numbers .prepared pictures fun _ _ heq ↦ Label.prepared.inj heq
  have hcanvases := numbers .painted canvases fun _ _ heq ↦ Label.painted.inj heq
  have hsounds := numbers .sound sounds fun _ _ heq ↦ Label.sound.inj heq
  rcases hmix with rfl | rfl <;>
    simp [allLabels, List.nodup_append, or_imp, forall_and, hpads, hcopies, hpictures, hcanvases,
      hsounds]

omit [Rounding] in
theorem map_name_allLabels (pads : List Pad) (copies pictures canvases sounds : Nat)
    (mix : List Label) :
    (allLabels pads copies pictures canvases sounds mix).map Label.name
      = pads.map Pad.name ++ ((List.range' 0 copies).map (numbered "s")
        ++ (("base" :: ((List.range' 0 pictures).map (numbered "l")
              ++ (List.range' 0 canvases).map (numbered "v")) ++ [pictureLabel])
          ++ ((List.range' 0 sounds).map (numbered "a") ++ mix.map Label.name))) := by
  simp [allLabels, Function.comp_def, Label.name]

namespace Parts

variable {timeline : Timeline} {compiled : Compiled} (parts : Parts timeline compiled)

/-- The labels of the mixed sound. -/
def mixLabels : List Label := if parts.labels = [] then [] else [.mix]

theorem written_le : ∃ copies canvases,
    ((↑((distinct parts.uses).map Pad.name) + ↑(Stage.written compiled.graph.stages) :
        Multiset String))
      ≤ ↑((allLabels (distinct parts.uses) copies
          (picturePads (inputsOf timeline.layers) timeline.layers).length canvases
          (soundPads (inputsOf timeline.layers) timeline.layers).length parts.mixLabels).map
        Label.name) := by
  obtain ⟨copies, hcopies⟩ := labels_splitsFrom parts.uses (distinct parts.uses) 0
  obtain ⟨canvases, -, hpainted⟩ := parts.advances.written
  obtain ⟨front, stage, hstages, -⟩ := parts.last_painted
  obtain ⟨labels, hfinished, hsub⟩ := written_finishPicture timeline.options parts.painted.output
    front stage
  refine ⟨copies, canvases, ?_⟩
  have hsplits : Stage.written ((splitsOf (inputsOf timeline.layers) timeline.layers).map
      Split.stage) = (List.range' 0 copies).map (numbered "s") := by
    rw [Stage.written, List.flatMap_map]
    exact hcopies
  have hpictures : (labels ++ [pictureLabel]).Subperm
      ("base" :: ((List.range' 0 (picturePads (inputsOf timeline.layers)
          timeline.layers).length).map (numbered "l")
        ++ (List.range' 0 canvases).map (numbered "v")) ++ [pictureLabel]) := by
    refine List.Subperm.append ?_ (.refl _)
    rw [← hstages, Stage.written_cons] at hsub
    exact hsub.subperm.trans (hpainted.cons _).subperm
  have hsounds : parts.labels = (List.range' 0 (soundPads (inputsOf timeline.layers)
      timeline.layers).length).map (numbered "a") := by
    rw [parts.sounding.labels_eq, parts.advances.sounds]
  have hmix : (Stage.written (mixStage parts.labels parts.effects)).Subperm
      (parts.mixLabels.map Label.name) := by
    rw [← Multiset.coe_le, written_mixStage, mixed, mixLabels]
    split <;> exact le_refl _
  rw [parts.stages_eq, hstages, Stage.written_append, Stage.written_append, Stage.written_append,
    hsplits, hfinished, parts.sounding.written, Multiset.coe_add, Multiset.coe_le,
    map_name_allLabels, ← hsounds]
  exact .append (.refl _) (.append (.refl _) (.append hpictures (.append (.refl _) hmix)))

theorem nodup_names :
    (↑((distinct parts.uses).map Pad.name) + ↑(Stage.written compiled.graph.stages) :
      Multiset String).Nodup := by
  obtain ⟨copies, canvases, hle⟩ := parts.written_le
  refine Multiset.nodup_of_le hle (Multiset.coe_nodup.mpr ?_)
  refine (nodup_allLabels (nodup_distinct _) _ _ _ _ ?_).map Label.name_injective
  rw [mixLabels]
  split
  · exact .inl rfl
  · exact .inr rfl

include parts in
theorem nodup_written : (Stage.written compiled.graph.stages).Nodup :=
  Multiset.coe_nodup.mp (Multiset.nodup_add.mp parts.nodup_names).2.1

/-- A graph without sounds has no label for them. -/
theorem soundLabel_mem_written :
    soundLabel ∈ Stage.written compiled.graph.stages ↔ parts.labels ≠ [] := by
  constructor
  · intro hmem hempty
    obtain ⟨copies, canvases, hle⟩ := parts.written_le
    have hin := Multiset.mem_of_le hle (Multiset.mem_add.mpr (.inr hmem))
    obtain ⟨label, hlabel, hname⟩ := List.mem_map.mp hin
    obtain rfl : label = .mix := Label.name_injective hname
    simp [allLabels, mixLabels, hempty] at hlabel
  · intro hlabels
    rw [parts.stages_eq, mixStage_of_ne_nil hlabels]
    simp

theorem labels_eq_nil : parts.labels = []
    ↔ ∀ layer ∈ timeline.layers, Sound.ofContent layer.content = none := by
  rw [parts.sounding.labels_eq, List.map_eq_nil_iff, List.range'_eq_nil_iff,
    List.length_eq_zero_iff, soundPads, List.filterMap_eq_nil_iff]
  refine forall₂_congr fun layer _ ↦ ?_
  rw [soundPad_eq, Option.map_eq_none_iff]

theorem mem_uses {pad : Pad} (h : pad ∈ distinct parts.uses) :
    pad.input < compiled.inputs.length := by
  rw [mem_distinct, uses, padsOf, List.mem_flatMap] at h
  obtain ⟨layer, hlayer, hpad⟩ := h
  rw [parts.inputs_eq]
  rw [List.mem_append, Option.mem_toList, Option.mem_toList, picturePad_eq, soundPad_eq,
    Option.map_eq_some_iff, Option.map_eq_some_iff] at hpad
  rcases hpad with ⟨picture, hpicture, rfl⟩ | ⟨sound, hsound, rfl⟩
  · exact indexOf_lt (mem_paths_of_source hlayer (sourceOf_picture hpicture))
  · exact indexOf_lt (mem_paths_of_source hlayer (sourceOf_sound hsound))

include parts in
/-- The copies of a stream come from the stage that splits it. -/
theorem draws_of_comesFrom {pad : Pad} {stream : String}
    (h : ComesFrom (splitsOf (inputsOf timeline.layers) timeline.layers) pad stream) :
    Draws compiled.graph.stages pad stream := by
  rcases h with hpad | ⟨split, hsplit, rfl, hstream⟩
  · exact .inl hpad
  · refine .inr ⟨split.stage, ?_, rfl, hstream, rfl⟩
    rw [parts.stages_eq]
    exact List.mem_append_left _ (List.mem_map_of_mem hsplit)

include parts in
theorem preparedFrom {layer : Layer} {source : Source} {sound : Bool}
    {filters : Except Error (List Filter)} {label : String} {stage : Stage}
    (hlayer : layer ∈ timeline.layers) (hsource : sourceOf layer.content = some source)
    (hstage : stage ∈ compiled.graph.stages)
    (h : Prepares (splitsOf (inputsOf timeline.layers) timeline.layers)
      ⟨indexOf (inputsOf timeline.layers) source.path, sound⟩ filters label stage) :
    PreparedFrom compiled source.path sound filters label := by
  obtain ⟨stream, hinputs, hfrom⟩ := h.input
  refine ⟨stage, hstage, h.output, h.filters, _, stream, hinputs, parts.draws_of_comesFrom hfrom,
    rfl, ?_⟩
  rw [parts.inputs_eq]
  exact getElem?_indexOf (mem_paths_of_source hlayer hsource)

include parts in
theorem read_once {front back : List Stage} {stage : Stage} {label : String}
    (heq : compiled.graph.stages = front ++ stage :: back) (hlabel : label ∈ stage.outputs)
    (hpicture : label ≠ pictureLabel) (hsound : label ≠ soundLabel) :
    (Stage.reads compiled.graph.stages).count label = 1 ∧ label ∈ Stage.reads back := by
  have hopen : label ∉ ({pictureLabel} + mixed parts.labels : Multiset String) := by
    rw [mixed]
    split <;> simp [hpicture, hsound]
  have hwritten : label ∈ Stage.written compiled.graph.stages := by
    rw [heq]
    simp [hlabel]
  refine ⟨parts.flow.count_reads parts.nodup_names (.inr hwritten) hopen, ?_⟩
  have hflow := parts.flow
  have hnames := parts.nodup_names
  rw [heq] at hflow hnames
  exact hflow.reader hnames hlabel hopen

include parts in
theorem read_known {front back : List Stage} {stage : Stage} {stream : String}
    (heq : compiled.graph.stages = front ++ stage :: back) (hstream : stream ∈ stage.inputs) :
    stream ∈ Stage.written front
      ∨ ∃ pad : Pad, stream = pad.name ∧ pad.input < compiled.inputs.length := by
  have hflow := parts.flow
  rw [heq] at hflow
  rcases hflow.source hstream with hin | hin
  · obtain ⟨pad, hpad, rfl⟩ := List.mem_map.mp hin
    exact .inr ⟨pad, rfl, parts.mem_uses hpad⟩
  · exact .inl hin

include parts in
theorem picture_from {canvas : Canvas} {before after : List Layer} {layer : Layer}
    {picture : Picture} (hcanvas : canvasOf timeline = .ok canvas)
    (hlayers : timeline.layers = before ++ layer :: after)
    (hpicture : Picture.ofContent layer.content = some picture) :
    PreparedFrom compiled picture.source.path false (preparation canvas layer picture)
      (numbered "l" (before.filterMap fun layer ↦ Picture.ofContent layer.content).length) := by
  obtain rfl : parts.canvas = canvas := Except.ok.inj (parts.canvas_eq.symm.trans hcanvas)
  obtain ⟨front, preparing, laying, back, hstages, hprepares⟩ :=
    paintLayers_prepares hlayers hpicture parts.paints
  rw [length_picturePads, Nat.zero_add] at hprepares
  refine parts.preparedFrom (by rw [hlayers]; simp) (sourceOf_picture hpicture) ?_ hprepares
  rw [parts.stages_eq, hstages, ← List.cons_append]
  exact List.mem_append_right _ (List.mem_append_left _ mem_finishPicture)

include parts in
theorem sound_from {canvas : Canvas} {before after : List Layer} {layer : Layer} {sound : Sound}
    (hcanvas : canvasOf timeline = .ok canvas)
    (hlayers : timeline.layers = before ++ layer :: after)
    (hsound : Sound.ofContent layer.content = some sound) :
    PreparedFrom compiled sound.source.path true (soundFilters canvas layer sound)
      (numbered "a" (before.filterMap fun layer ↦ Sound.ofContent layer.content).length) := by
  obtain rfl : parts.canvas = canvas := Except.ok.inj (parts.canvas_eq.symm.trans hcanvas)
  obtain ⟨stage, hstage, hprepares⟩ := soundStages_prepares hlayers hsound parts.plays
  rw [length_soundPads, parts.advances.sounds, Nat.zero_add] at hprepares
  refine parts.preparedFrom (by rw [hlayers]; simp) (sourceOf_sound hsound) ?_
    (hprepares.of_left parts.advances.left)
  rw [parts.stages_eq]
  exact List.mem_append_right _ (List.mem_append_right _ (List.mem_append_left _ hstage))

include parts in
theorem pictureLabel_mem_written : pictureLabel ∈ Stage.written compiled.graph.stages := by
  obtain ⟨front, stage, hstages, -⟩ := parts.last_painted
  obtain ⟨labels, hfinished, -⟩ := written_finishPicture timeline.options parts.painted.output
    front stage
  rw [parts.stages_eq, hstages, Stage.written_append, Stage.written_append, hfinished]
  simp

include parts in
theorem hasSound_iff : compiled.hasSound = true ↔ ∃ layer ∈ timeline.layers,
    (∃ audio, layer.content = .audio audio)
      ∨ ∃ video, layer.content = .video video ∧ video.audio = true := by
  have hsome : parts.labels ≠ []
      ↔ ∃ layer ∈ timeline.layers, Sound.ofContent layer.content ≠ none := by
    rw [Ne, parts.labels_eq_nil]
    push Not
    rfl
  simp only [sound_ne_none] at hsome
  rw [← hsome, parts.hasSound_eq]
  simp

include parts in
theorem mixed_all {stage : Stage} (hstage : stage ∈ compiled.graph.stages)
    (hsound : soundLabel ∈ stage.outputs) :
    ∃ effects, stage.filters = mixerOf stage.inputs.length :: effects := by
  have hlabels := parts.soundLabel_mem_written.mp (List.mem_flatMap.mpr ⟨stage, hstage, hsound⟩)
  have hnodup := parts.nodup_written
  rw [parts.stages_eq, mixStage_of_ne_nil hlabels, ← List.append_assoc, ← List.append_assoc]
    at hstage hnodup
  rw [Stage.written_append, List.nodup_append] at hnodup
  -- the mixing stage writes the label, so no stage before it does
  rcases List.mem_append.mp hstage with hin | hin
  · exact absurd rfl (hnodup.2.2 soundLabel (List.mem_flatMap.mpr ⟨stage, hin, hsound⟩)
      soundLabel List.mem_cons_self)
  · rw [List.mem_singleton.mp hin]
    exact ⟨parts.effects, rfl⟩

include parts in
/-- **The graph of a timeline is well linked.** -/
theorem wellLinked : WellLinked timeline compiled where
  written_once := parts.nodup_written
  read_once _ _ _ heq _ := parts.read_once heq
  read_known _ _ _ heq _ := parts.read_known heq
  pad_once pad := parts.flow.count_reads_le parts.nodup_names pad.name
  inputs_eq := by rw [parts.inputs_eq, map_path_inputsOf]
  picture_from _ _ _ _ _ := parts.picture_from
  sound_from _ _ _ _ _ := parts.sound_from
  picture_written := List.count_eq_one_of_mem parts.nodup_written parts.pictureLabel_mem_written
  sound_written := by
    have hmem := parts.soundLabel_mem_written
    rw [parts.hasSound_eq]
    by_cases hlabels : parts.labels = []
    · rw [List.count_eq_zero_of_not_mem fun hin ↦ hmem.mp hin hlabels, hlabels]
      rfl
    · rw [List.count_eq_one_of_mem parts.nodup_written (hmem.mpr hlabels)]
      simp [hlabels]
  hasSound_iff := parts.hasSound_iff
  mixed_all _ := parts.mixed_all

end Parts
end Command
end Montage
