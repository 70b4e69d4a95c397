import Mathlib.Data.List.Forall2
import Montage.Proofs.Command.Linked

/-!
# Layers are painted in their order

The canvas goes through the graph on one way: the stage that makes it, a stage for each layer that
is seen, in the order of the layers, and a stage that cuts and scales it if that is asked for.
`Route` is such a way.  Every stage of it takes the canvas from the one before, as its first input,
and nothing else in the graph does, so that there is no other way.

The stages that prepare pictures stand between the stages of the way, and the last stage of the way
gets another name for its output.  So a way is found first among the stages that paint some layers
(`paintLayers_painting`), where labels are as they were given out, and is then carried over to the
graph.
-/

set_option autoImplicit false

namespace Montage

/-! ## Ways through a graph -/

namespace Stage

/-- Each stage takes the label that the one before gives out, as its first input. -/
inductive Leads : String → List Stage → String → Prop
  | nil (label : String) : Leads label [] label
  | cons {label next last : String} {stage : Stage} {rest : List Stage}
      (takes : stage.inputs.head? = some label) (gives : stage.outputs = [next])
      (later : Leads next rest last) : Leads label (stage :: rest) last

/-- The stages lead from one label to another, and nothing else in the graph reads what they take
from each other. -/
structure Route (stages : List Stage) (first : String) (steps : List Stage) (last : String) :
    Prop where
  leads : Leads first steps last
  mem : ∀ stage ∈ steps, stage ∈ stages
  alone : ∀ stage ∈ steps, ∀ label ∈ stage.inputs.head?, ∀ other ∈ stages,
    label ∈ other.inputs → other = stage

namespace Leads

variable {a b c : String} {s t : List Stage}

theorem append (h : Leads a s b) (k : Leads b t c) : Leads a (s ++ t) c := by
  induction h with
  | nil => exact k
  | cons takes gives _ ih => exact .cons takes gives (ih k)

theorem single {stage : Stage} (takes : stage.inputs.head? = some a)
    (gives : stage.outputs = [b]) : Leads a [stage] b :=
  .cons takes gives (.nil b)

/-- The last stage of a way may name its output anew. -/
theorem relabel {stage : Stage} (h : Leads a (s ++ [stage]) b) (c : String) :
    Leads a (s ++ [{ stage with outputs := [c] }]) c := by
  induction s generalizing a with
  | nil =>
    cases h with
    | cons takes _ _ => exact .single takes rfl
  | cons first s ih =>
    cases h with
    | cons takes gives later => exact .cons takes gives (ih later)

theorem first_mem {stage : Stage} (h : Leads a (stage :: s) b) : a ∈ stage.inputs := by
  cases h with
  | cons takes _ _ => exact List.mem_of_mem_head? takes

end Leads

/-- Where every label is read at most once, its reader is known. -/
theorem eq_of_reads_le {stages : List Stage} {label : String}
    (h : (reads stages).count label ≤ 1) {stage other : Stage} (hs : stage ∈ stages)
    (ho : other ∈ stages) (hlabel : label ∈ stage.inputs) (hother : label ∈ other.inputs) :
    other = stage := by
  obtain ⟨front, back, rfl⟩ := List.append_of_mem hs
  rw [reads_append, reads_cons, List.count_append, List.count_append] at h
  have hstage := List.one_le_count_iff.mpr hlabel
  rw [List.mem_append, List.mem_cons] at ho
  have hread : ∀ part : List Stage, other ∈ part → 1 ≤ (reads part).count label :=
    fun part hpart ↦ List.one_le_count_iff.mpr (List.mem_flatMap.mpr ⟨other, hpart, hother⟩)
  rcases ho with ho | rfl | ho
  · have := hread front ho
    omega
  · rfl
  · have := hread back ho
    omega

theorem Leads.route {stages steps : List Stage} {a b : String} (h : Leads a steps b)
    (hmem : ∀ stage ∈ steps, stage ∈ stages) (hreads : ∀ label, (reads stages).count label ≤ 1) :
    Route stages a steps b where
  leads := h
  mem := hmem
  alone stage hs label hlabel _ ho hother :=
    eq_of_reads_le (hreads label) (hmem stage hs) ho (List.mem_of_mem_head? hlabel) hother

/-- **There is only one way** to a label that nothing reads. -/
theorem Route.unique {stages s t : List Stage} {a b : String} (h : Route stages a s b)
    (k : Route stages a t b) (hb : b ∉ reads stages) : t = s := by
  obtain ⟨hleads, hmem, halone⟩ := h
  induction hleads generalizing t with
  | nil label =>
    cases ht : t with
    | nil => rfl
    | cons stage t =>
      subst ht
      exact absurd (List.mem_flatMap.mpr ⟨stage, k.mem stage List.mem_cons_self,
        k.leads.first_mem⟩) hb
  | @cons label next last stage rest takes gives later ih =>
    obtain ⟨kleads, kmem, kalone⟩ := k
    rw [List.forall_mem_cons] at hmem halone
    cases kleads with
    | nil =>
      exact absurd (List.mem_flatMap.mpr ⟨stage, hmem.1, List.mem_of_mem_head? takes⟩) hb
    | @cons _ other _ stage' rest' takes' gives' later' =>
      rw [List.forall_mem_cons] at kmem kalone
      obtain rfl := halone.1 label takes stage' kmem.1 (List.mem_of_mem_head? takes')
      obtain rfl : next = other := List.singleton_injective (gives.symm.trans gives')
      rw [ih ⟨later', kmem.2, kalone.2⟩ hb hmem.2 halone.2]

end Stage

namespace Command

/-! ## One layer -/

/-- Whether content is seen: a picture, text, or an effect on the canvas. -/
def isSeen : Content → Bool
  | .video _ | .image _ | .text _ _ | .caption _ => true
  | .filter effect => !effect.isAudio
  | .audio _ => false

variable [Rounding]

/-- The stage is the one that a layer asks for: it lays the picture of the layer, which is `ready`
under a label, over the canvas, draws the text of the layer, or applies its effect. -/
inductive IsPaintedBy (canvas : Canvas) (options : RenderOptions)
    (ready : Layer → Picture → String → Prop) (layer : Layer) (stage : Stage) : Prop
  | picture {picture : Picture} {current prepared : String} {overlay : Filter}
      (content : Picture.ofContent layer.content = some picture)
      (inputs : stage.inputs = [current, prepared]) (isReady : ready layer picture prepared)
      (built : overlayFilter canvas layer picture = .ok overlay) (name : overlay.name = "overlay")
      (filters : stage.filters = [overlay])
  | text {drawing : Drawing} {current : String} {filter : Filter}
      (content : drawingOf layer.content = some drawing) (inputs : stage.inputs = [current])
      (built : textFilter canvas options.defaultStyle layer drawing = .ok filter)
      (name : filter.name = "drawtext") (filters : stage.filters = [filter])
  | effect {effect : Effect} {current : String} (content : layer.content = .filter effect)
      (inputs : stage.inputs = [current])
      (built : effectFilters canvas layer effect = .ok stage.filters)

/-- The picture of a layer is prepared by a stage among some, before the last of them. -/
def IsReadyAmong (canvas : Canvas) (inputs : List Input) (splits : List Split)
    (stages : List Stage) (layer : Layer) (picture : Picture) (label : String) : Prop :=
  ∃ stage ∈ stages.dropLast, Prepares splits ⟨indexOf inputs picture.source.path, false⟩
    (preparation canvas layer picture) label stage

theorem IsPaintedBy.mono {canvas : Canvas} {options : RenderOptions}
    {ready known : Layer → Picture → String → Prop} {layer : Layer} {stage : Stage}
    (h : IsPaintedBy canvas options ready layer stage)
    (hready : ∀ picture label, Picture.ofContent layer.content = some picture →
      ready layer picture label → known layer picture label) :
    IsPaintedBy canvas options known layer stage := by
  cases h with
  | picture content inputs isReady built name filters =>
    exact .picture content inputs (hready _ _ content isReady) built name filters
  | text content inputs built name filters => exact .text content inputs built name filters
  | effect content inputs built => exact .effect content inputs built

theorem IsPaintedBy.relabel {canvas : Canvas} {options : RenderOptions}
    {ready : Layer → Picture → String → Prop} {layer : Layer} {stage : Stage}
    (h : IsPaintedBy canvas options ready layer stage) (outputs : List String) :
    IsPaintedBy canvas options ready layer { stage with outputs } := by
  cases h with
  | picture content inputs isReady built name filters =>
    exact .picture content inputs isReady built name filters
  | text content inputs built name filters => exact .text content inputs built name filters
  | effect content inputs built => exact .effect content inputs built

theorem name_overlayFilter {canvas : Canvas} {layer : Layer} {picture : Picture} {overlay : Filter}
    (h : overlayFilter canvas layer picture = .ok overlay) : overlay.name = "overlay" := by
  rw [overlayFilter] at h
  obtain ⟨_, -, h⟩ := bind_eq_ok.mp h
  obtain ⟨_, -, h⟩ := bind_eq_ok.mp h
  rw [pure_eq_ok] at h
  exact h ▸ rfl

theorem name_textFilter {canvas : Canvas} {style : Option Style} {layer : Layer} {drawing : Drawing}
    {filter : Filter} (h : textFilter canvas style layer drawing = .ok filter) :
    filter.name = "drawtext" := by
  rw [textFilter] at h
  iterate 9 obtain ⟨_, -, h⟩ := bind_eq_ok.mp h
  rw [pure_eq_ok] at h
  exact h ▸ rfl

/-- A layer that is seen is painted by the last of its stages, which takes the canvas and gives it
on; any other layer leaves the canvas alone. -/
theorem paintLayer_painting {canvas : Canvas} {options : RenderOptions} {inputs : List Input}
    {session : Session} {current : String} {layer : Layer} {result : Option Painted}
    (h : paintLayer canvas options inputs session current layer = .ok result) :
    (isSeen layer.content = false ∧ result = none)
      ∨ ∃ painted sides step, isSeen layer.content = true ∧ result = some painted
        ∧ painted.stages = sides ++ [step] ∧ step.inputs.head? = some current
        ∧ step.outputs = [painted.output] ∧ IsPaintedBy canvas options
          (IsReadyAmong canvas inputs session.splits painted.stages) layer step := by
  rcases paintLayer_cases h with ⟨picture, prepare, overlay, hpicture, hprepare, hoverlay, rfl⟩
    | ⟨drawing, filter, hpicture, hdrawing, hfilter, rfl⟩
    | ⟨effect, filters, heffect, haudio, hfilters, rfl⟩ | ⟨hpicture, hdrawing, hother, rfl⟩
  · refine .inr ⟨_, [_], _, ?_, rfl, rfl, rfl, rfl, .picture hpicture rfl
      ⟨_, List.mem_cons_self, hprepare, rfl, _, rfl, (takeStream_spec _ _).1⟩ hoverlay
      (name_overlayFilter hoverlay) rfl⟩
    cases hcontent : layer.content <;> rw [hcontent] at hpicture <;> cases hpicture <;> rfl
  · refine .inr ⟨_, [], _, ?_, rfl, rfl, rfl, rfl,
      .text hdrawing rfl hfilter (name_textFilter hfilter) rfl⟩
    cases hcontent : layer.content <;> rw [hcontent] at hdrawing <;> cases hdrawing <;> rfl
  · refine .inr ⟨_, [], _, ?_, rfl, rfl, rfl, rfl, .effect heffect rfl hfilters⟩
    rw [heffect, isSeen, haudio]
    rfl
  · refine .inl ⟨?_, rfl⟩
    cases hcontent : layer.content with
    | filter effect =>
      rw [isSeen, hother effect hcontent]
      rfl
    | audio => rfl
    | text => rw [hcontent] at hdrawing; cases hdrawing
    | caption => rw [hcontent] at hdrawing; cases hdrawing
    | video => rw [hcontent] at hpicture; cases hpicture
    | image => rw [hcontent] at hpicture; cases hpicture

/-! ## Many layers -/

omit [Rounding] in
/-- Some of the stages, with the last one of them. -/
def IsPicked (steps stages : List Stage) : Prop :=
  (steps = [] ∧ stages = []) ∨ ∃ front sides last,
    steps = front ++ [last] ∧ stages = sides ++ [last] ∧ ∀ stage ∈ front, stage ∈ sides

theorem IsReadyAmong.append_left {canvas : Canvas} {inputs : List Input} {splits : List Split}
    {first later : List Stage} {layer : Layer} {picture : Picture} {label : String}
    (h : IsReadyAmong canvas inputs splits first layer picture label) :
    IsReadyAmong canvas inputs splits (first ++ later) layer picture label := by
  obtain ⟨stage, hstage, hprepares⟩ := h
  refine ⟨stage, ?_, hprepares⟩
  cases later with
  | nil => rwa [List.append_nil]
  | cons next later =>
    rw [List.dropLast_append_of_ne_nil (List.cons_ne_nil next later)]
    exact List.mem_append_left _ ((List.dropLast_sublist first).subset hstage)

theorem IsReadyAmong.append_right {canvas : Canvas} {inputs : List Input}
    {splits left : List Split} (hleft : LeftOf splits left) (first : List Stage) {later : List Stage}
    {layer : Layer} {picture : Picture} {label : String}
    (h : IsReadyAmong canvas inputs left later layer picture label) :
    IsReadyAmong canvas inputs splits (first ++ later) layer picture label := by
  obtain ⟨stage, hstage, hprepares⟩ := h
  refine ⟨stage, ?_, hprepares.of_left hleft⟩
  rw [List.dropLast_append_of_ne_nil (by rintro rfl; cases hstage)]
  exact List.mem_append_right _ hstage

/-- **Each layer that is seen has its stage on the way of the canvas**, in the order of the
layers. -/
theorem paintLayers_painting {canvas : Canvas} {options : RenderOptions} {inputs : List Input}
    {session : Session} {current : String} {layers : List Layer} {painted : Painted}
    (h : paintLayers canvas options inputs session current layers = .ok painted) :
    ∃ steps, Stage.Leads current steps painted.output ∧ IsPicked steps painted.stages
      ∧ List.Forall₂ (IsPaintedBy canvas options
          (IsReadyAmong canvas inputs session.splits painted.stages))
        (layers.filter fun layer ↦ isSeen layer.content) steps := by
  induction layers generalizing session current painted with
  | nil =>
    rw [paintLayers, Except.ok.injEq] at h
    subst h
    exact ⟨[], .nil current, .inl ⟨rfl, rfl⟩, .nil⟩
  | cons layer rest ih =>
    obtain ⟨result, first, later, hlayer, hfirst, hlater, rfl⟩ := paintLayers_cons h
    obtain ⟨steps, hleads, hpicked, hsteps⟩ := ih hlater
    have hadvances := paintLayer_advances hlayer
    rw [← hfirst] at hadvances
    have hrest := hsteps.imp fun other _ hpainted ↦ hpainted.mono fun _ _ _ hready ↦
      IsReadyAmong.append_right hadvances.left first.stages hready
    rcases paintLayer_painting hlayer with ⟨hunseen, rfl⟩
      | ⟨painted, sides, step, hseen, rfl, hstages, htakes, hgives, hpainted⟩
    · subst hfirst
      rw [List.filter_cons_of_neg (by rw [hunseen]; exact Bool.false_ne_true)]
      exact ⟨steps, hleads, hpicked, hrest⟩
    · obtain rfl : first = painted := hfirst
      rw [List.filter_cons, if_pos hseen]
      refine ⟨step :: steps, .cons htakes hgives hleads, .inr ?_,
        .cons (hpainted.mono fun _ _ _ hready ↦ hready.append_left) hrest⟩
      rcases hpicked with ⟨rfl, hnone⟩ | ⟨front, others, last, rfl, hothers, hmem⟩
      · exact ⟨[], sides, step, rfl, by rw [hstages, hnone, List.append_nil], by simp⟩
      · refine ⟨step :: front, first.stages ++ others, last, rfl,
          by rw [hothers, List.append_assoc], List.forall_mem_cons.mpr ⟨?_, fun stage hstage ↦
            List.mem_append_right _ (hmem stage hstage)⟩⟩
        rw [hstages]
        simp

/-! ## Sounds -/

/-- The sound of a layer is prepared by a stage among some. -/
def IsHeardAmong (canvas : Canvas) (inputs : List Input) (splits : List Split)
    (stages : List Stage) (layer : Layer) (label : String) : Prop :=
  ∃ sound, Sound.ofContent layer.content = some sound ∧ ∃ stage ∈ stages,
    Prepares splits ⟨indexOf inputs sound.source.path, true⟩ (soundFilters canvas layer sound)
      label stage

/-- **Each layer that is heard has its label**, in the order of the layers. -/
theorem soundStages_heard {canvas : Canvas} {inputs : List Input} {session : Session}
    {layers : List Layer} {stages : List Stage} {labels : List String}
    (h : soundStages canvas inputs session layers = .ok (stages, labels)) :
    List.Forall₂ (IsHeardAmong canvas inputs session.splits stages)
      (layers.filter fun layer ↦ (Sound.ofContent layer.content).isSome) labels := by
  induction layers generalizing session stages labels with
  | nil =>
    rw [soundStages, Except.ok.injEq, Prod.mk.injEq] at h
    obtain ⟨rfl, rfl⟩ := h
    exact .nil
  | cons layer rest ih =>
    rcases soundStages_cases h with ⟨hsound, h⟩
      | ⟨sound, filters, later, more, hsound, hfilters, hlater, rfl, rfl⟩
    · rw [List.filter_cons_of_neg (by rw [hsound]; exact Bool.false_ne_true)]
      exact ih h
    · rw [List.filter_cons_of_pos (by rw [hsound]; rfl)]
      refine .cons ⟨sound, hsound, _, List.mem_cons_self, hfilters, rfl, _, rfl,
        (takeStream_spec _ _).1⟩ ((ih hlater).imp ?_)
      rintro other label ⟨sound', hsound', stage, hstage, hprepares⟩
      exact ⟨sound', hsound', stage, List.mem_cons_of_mem _ hstage,
        hprepares.of_left (takeStream_spec _ _).2⟩

/-- Whether content works on the mixed sound. -/
def isSoundEffect : Content → Bool
  | .filter effect => effect.isAudio
  | _ => false

/-- The filters are those of a layer that works on the mixed sound. -/
def AreEffectsOf (layer : Layer) (filters : List Filter) : Prop :=
  ∃ effect, layer.content = .filter effect ∧ effect.filters = .ok filters

/-- **Each layer that works on the mixed sound has its filters**, in the order of the layers. -/
theorem soundEffects_groups {layers : List Layer} {effects : List Filter}
    (h : soundEffects layers = .ok effects) : ∃ groups, effects = groups.flatten
      ∧ List.Forall₂ AreEffectsOf (layers.filter fun layer ↦ isSoundEffect layer.content)
        groups := by
  induction layers generalizing effects with
  | nil =>
    rw [soundEffects, Except.ok.injEq] at h
    subst h
    exact ⟨[], rfl, .nil⟩
  | cons layer rest ih =>
    rw [soundEffects] at h
    split at h
    · rename_i effect heffect
      split at h
      · rename_i haudio
        obtain ⟨filters, hfilters, h⟩ := bind_eq_ok.mp h
        obtain ⟨more, hmore, h⟩ := bind_eq_ok.mp h
        rw [pure_eq_ok] at h
        subst h
        obtain ⟨groups, rfl, hgroups⟩ := ih hmore
        rw [List.filter_cons_of_pos (by rw [heffect]; exact haudio)]
        exact ⟨filters :: groups, rfl, .cons ⟨effect, heffect, hfilters⟩ hgroups⟩
      · rename_i haudio
        rw [List.filter_cons_of_neg (by rw [heffect]; exact haudio)]
        exact ih h
    · rename_i hother
      rw [List.filter_cons_of_neg]
      · exact ih h
      · cases hcontent : layer.content with
        | filter effect => exact absurd hcontent (hother effect)
        | _ => exact Bool.false_ne_true

/-! ## The whole graph -/

/-- The layers that are seen. -/
def seenLayers (timeline : Timeline) : List Layer :=
  timeline.layers.filter fun layer ↦ isSeen layer.content

/-- The layers that are heard: sounds, and videos that keep theirs. -/
def heardLayers (timeline : Timeline) : List Layer :=
  timeline.layers.filter fun layer ↦ (Sound.ofContent layer.content).isSome

/-- The layers that work on the mixed sound. -/
def soundEffectLayers (timeline : Timeline) : List Layer :=
  timeline.layers.filter fun layer ↦ isSoundEffect layer.content

/-- The canvas goes from the stage `source`, which makes it, through `steps`, one for each layer that
is seen and in the order of the layers, and through `finish`, and this is its only way. -/
structure PaintsInOrder (timeline : Timeline) (compiled : Compiled) (canvas : Canvas)
    (source : Stage) (steps finish : List Stage) : Prop where
  mem : source ∈ compiled.graph.stages
  makes : ∃ base, canvasStage canvas timeline.options.backgroundColor = .ok base
    ∧ source.inputs = base.inputs ∧ source.filters = base.filters
  way : ∃ label, source.outputs = [label]
    ∧ Stage.Route compiled.graph.stages label (steps ++ finish) pictureLabel
    ∧ ∀ other, Stage.Route compiled.graph.stages label other pictureLabel → other = steps ++ finish
  painted : List.Forall₂ (IsPaintedBy canvas timeline.options fun layer picture label ↦
      PreparedFrom compiled picture.source.path false (preparation canvas layer picture) label)
    (seenLayers timeline) steps
  /-- Where the canvas is to be cut or scaled, one stage does both, in this order. -/
  finished : finish.map Stage.filters =
    if timeline.options.crop = none ∧ timeline.options.scale = none then []
    else [(timeline.options.crop.map fun box ↦ Filter.withArgs "crop" [.num (.whole box.width),
          .num (.whole box.height), .num (.whole box.x), .num (.whole box.y)]).toList
      ++ (timeline.options.scale.map fun size ↦ scaleTo size.width size.height).toList]

/-- The stage `mix` brings the sounds of layers together, one for each layer that is heard and in
the order of the layers, and then works on them by the filters of layers, in their order. -/
structure MixesInOrder (timeline : Timeline) (compiled : Compiled) (canvas : Canvas)
    (mix : Stage) : Prop where
  mem : mix ∈ compiled.graph.stages
  gives : mix.outputs = [soundLabel]
  heard : List.Forall₂ (fun layer label ↦ ∃ sound, Sound.ofContent layer.content = some sound
      ∧ PreparedFrom compiled sound.source.path true (soundFilters canvas layer sound) label)
    (heardLayers timeline) mix.inputs
  effects : ∃ groups, mix.filters = mixerOf mix.inputs.length :: groups.flatten
    ∧ List.Forall₂ AreEffectsOf (soundEffectLayers timeline) groups

omit [Rounding] in
theorem outputFilters_eq (options : RenderOptions) : outputFilters options =
    (options.crop.map fun box ↦ Filter.withArgs "crop" [.num (.whole box.width),
        .num (.whole box.height), .num (.whole box.x), .num (.whole box.y)]).toList
      ++ (options.scale.map fun size ↦ scaleTo size.width size.height).toList := by
  rw [outputFilters]
  cases options.crop <;> cases options.scale <;> rfl

omit [Rounding] in
theorem outputFilters_eq_nil {options : RenderOptions} :
    outputFilters options = [] ↔ options.crop = none ∧ options.scale = none := by
  rw [outputFilters]
  cases options.crop <;> cases options.scale <;> simp

omit [Rounding] in
theorem mem_relabelLast {output : String} {stages : List Stage} {stage : Stage}
    (h : stage ∈ stages.dropLast) : stage ∈ relabelLast output stages := by
  obtain rfl | ⟨front, last, rfl⟩ := List.eq_nil_or_concat' stages
  · cases h
  · rw [List.dropLast_concat] at h
    rw [relabelLast_append]
    exact List.mem_append_left _ h

omit [Rounding] in
/-- All stages but the last one stay as they are. -/
theorem mem_finishPicture_of_mem_dropLast {options : RenderOptions} {current : String}
    {stages : List Stage} {stage : Stage} (h : stage ∈ stages.dropLast) :
    stage ∈ finishPicture options current stages := by
  rw [finishPicture]
  split
  · exact mem_relabelLast h
  · exact List.mem_append_left _ ((List.dropLast_sublist stages).subset h)

omit [Rounding] in
theorem forall₂_concat {α β : Type} {R : α → β → Prop} {b b' : β} (hb : ∀ a, R a b → R a b')
    {l : List α} {front : List β} (h : List.Forall₂ R l (front ++ [b])) :
    List.Forall₂ R l (front ++ [b']) := by
  induction front generalizing l with
  | nil =>
    cases h with
    | cons hab hnil => exact .cons (hb _ hab) hnil
  | cons first front ih =>
    cases h with
    | cons hab hrest => exact .cons hab (ih hrest)

namespace Parts

variable {timeline : Timeline} {compiled : Compiled} (parts : Parts timeline compiled)

include parts in
theorem reads_le (label : String) : (Stage.reads compiled.graph.stages).count label ≤ 1 :=
  parts.flow.count_reads_le parts.nodup_names label

include parts in
theorem picture_not_read : pictureLabel ∉ Stage.reads compiled.graph.stages := by
  have hd := parts.nodup_names
  rw [parts.flow.balance] at hd
  intro hmem
  exact Multiset.disjoint_left.mp (Multiset.nodup_add.mp hd).2.2 hmem
    (Multiset.mem_add.mpr (.inl (Multiset.mem_singleton_self _)))

theorem mem_of_pictures {stage : Stage} (h : stage ∈ parts.pictures) :
    stage ∈ compiled.graph.stages := by
  rw [parts.stages_eq]
  exact List.mem_append_right _ (List.mem_append_left _ h)

/-- What is prepared among the stages of the picture is prepared in the graph. -/
theorem ready_of_among {layer : Layer} (hlayer : layer ∈ timeline.layers) {picture : Picture}
    {label : String} (hpicture : Picture.ofContent layer.content = some picture)
    (h : IsReadyAmong parts.canvas (inputsOf timeline.layers)
      (splitsOf (inputsOf timeline.layers) timeline.layers) parts.painted.stages layer picture
      label) :
    PreparedFrom compiled picture.source.path false (preparation parts.canvas layer picture)
      label := by
  obtain ⟨stage, hstage, hprepares⟩ := h
  refine parts.preparedFrom hlayer (sourceOf_picture hpicture) (parts.mem_of_pictures ?_) hprepares
  refine mem_finishPicture_of_mem_dropLast ?_
  rw [List.dropLast_cons_of_ne_nil (by rintro heq; rw [heq] at hstage; cases hstage)]
  exact List.mem_cons_of_mem _ hstage

/-- The way of the canvas, before it is cut and scaled, and the stages that do this. -/
theorem exists_way : ∃ source label steps finish,
    source ∈ parts.pictures ∧ source.inputs = [] ∧ source.filters = parts.background
      ∧ source.outputs = [label] ∧ Stage.Leads label (steps ++ finish) pictureLabel
      ∧ (∀ stage ∈ steps ++ finish, stage ∈ parts.pictures)
      ∧ List.Forall₂ (IsPaintedBy parts.canvas timeline.options
          (IsReadyAmong parts.canvas (inputsOf timeline.layers)
            (splitsOf (inputsOf timeline.layers) timeline.layers) parts.painted.stages))
        (seenLayers timeline) steps
      ∧ finish.map Stage.filters = if outputFilters timeline.options = [] then []
        else [outputFilters timeline.options] := by
  obtain ⟨steps, hleads, hpicked, hpainted⟩ := paintLayers_painting parts.paints
  by_cases hfinish : outputFilters timeline.options = []
  · have hpictures : parts.pictures =
        relabelLast pictureLabel (⟨[], parts.background, ["base"]⟩ :: parts.painted.stages) := by
      rw [pictures, finishPicture, hfinish]
      rfl
    rw [if_pos hfinish, hpictures]
    rcases hpicked with ⟨rfl, hnone⟩ | ⟨front, sides, last, rfl, hsides, hmem⟩
    · -- nothing is painted, and the canvas itself is the picture
      rw [hnone] at hpainted ⊢
      exact ⟨_, pictureLabel, [], [], List.mem_singleton_self _, rfl, rfl, rfl, .nil _, by simp,
        hpainted, rfl⟩
    · rw [hsides, ← List.cons_append, relabelLast_append]
      refine ⟨_, "base", front ++ [{ last with outputs := [pictureLabel] }], [],
        List.mem_append_left _ List.mem_cons_self, rfl, rfl, rfl, ?_, ?_, ?_, rfl⟩
      · rw [List.append_nil]
        exact hleads.relabel pictureLabel
      · intro stage hstage
        rw [List.append_nil, List.mem_append] at hstage
        rcases hstage with hstage | hstage
        · exact List.mem_append_left _ (List.mem_cons_of_mem _ (hmem stage hstage))
        · exact List.mem_append_right _ hstage
      · exact forall₂_concat (fun layer h ↦ h.relabel [pictureLabel]) (hsides ▸ hpainted)
  · have hpictures : parts.pictures = (⟨[], parts.background, ["base"]⟩ :: parts.painted.stages)
        ++ [⟨[parts.painted.output], outputFilters timeline.options, [pictureLabel]⟩] := by
      rw [pictures, finishPicture]
      exact if_neg (by simpa using hfinish)
    rw [if_neg hfinish, hpictures]
    refine ⟨_, "base", steps, [⟨[parts.painted.output], outputFilters timeline.options,
      [pictureLabel]⟩], List.mem_cons_self, rfl, rfl, rfl, hleads.append (.single rfl rfl), ?_,
      hpainted, rfl⟩
    intro stage hstage
    rw [List.mem_append] at hstage
    rcases hstage with hstage | hstage
    · refine List.mem_append_left _ (List.mem_cons_of_mem _ ?_)
      rcases hpicked with ⟨rfl, -⟩ | ⟨front, sides, last, rfl, hsides, hmem⟩
      · cases hstage
      · rw [hsides]
        rcases List.mem_append.mp hstage with hstage | hstage
        · exact List.mem_append_left _ (hmem stage hstage)
        · exact List.mem_append_right _ hstage
    · exact List.mem_append_right _ hstage

theorem paintsInOrder :
    ∃ source steps finish, PaintsInOrder timeline compiled parts.canvas source steps finish := by
  obtain ⟨source, label, steps, finish, hsource, hinputs, hfilters, houtputs, hleads, hmem,
    hpainted, hfinish⟩ := parts.exists_way
  have hroute := hleads.route (fun stage hstage ↦ parts.mem_of_pictures (hmem stage hstage))
    parts.reads_le
  refine ⟨source, steps, finish, parts.mem_of_pictures hsource,
    ⟨_, parts.background_eq, hinputs, hfilters⟩,
    ⟨label, houtputs, hroute, fun other hother ↦ hroute.unique hother parts.picture_not_read⟩, ?_, ?_⟩
  · have hlayers : ∀ layer ∈ seenLayers timeline, layer ∈ timeline.layers :=
      fun layer hlayer ↦ List.mem_of_mem_filter hlayer
    refine ((List.forall₂_and_left _ _).mpr ⟨hlayers, hpainted⟩).imp ?_
    rintro layer stage ⟨hlayer, h⟩
    exact h.mono fun picture label hpicture hready ↦ parts.ready_of_among hlayer hpicture hready
  · rw [hfinish, outputFilters_eq]
    simp only [← outputFilters_eq, outputFilters_eq_nil]

theorem heard : List.Forall₂ (fun layer label ↦ ∃ sound, Sound.ofContent layer.content = some sound
      ∧ PreparedFrom compiled sound.source.path true (soundFilters parts.canvas layer sound) label)
    (heardLayers timeline) parts.labels := by
  have hlayers : ∀ layer ∈ heardLayers timeline, layer ∈ timeline.layers :=
    fun layer hlayer ↦ List.mem_of_mem_filter hlayer
  refine ((List.forall₂_and_left _ _).mpr ⟨hlayers, soundStages_heard parts.plays⟩).imp ?_
  rintro layer label ⟨hlayer, sound, hsound, stage, hstage, hprepares⟩
  refine ⟨sound, hsound, parts.preparedFrom hlayer (sourceOf_sound hsound) ?_
    (hprepares.of_left parts.advances.left)⟩
  rw [parts.stages_eq]
  exact List.mem_append_right _ (List.mem_append_right _ (List.mem_append_left _ hstage))

theorem mixesInOrder (h : heardLayers timeline ≠ []) :
    ∃ mix, MixesInOrder timeline compiled parts.canvas mix := by
  have hlabels : parts.labels ≠ [] := by
    intro hnil
    have := parts.heard
    rw [hnil, List.forall₂_nil_right_iff] at this
    exact h this
  obtain ⟨groups, heffects, hgroups⟩ := soundEffects_groups parts.effects_eq
  refine ⟨⟨parts.labels, mixerOf parts.labels.length :: parts.effects, [soundLabel]⟩, ?_, rfl,
    parts.heard, groups, by rw [heffects], hgroups⟩
  rw [parts.stages_eq, mixStage_of_ne_nil hlabels]
  simp

end Parts

/-- **The order of the layers is the order of painting.**  In the graph of a timeline the canvas
has one way, on which each layer that is seen has one stage, made for this layer, in the order of
the layers, and at the end it is cut and scaled if that is asked for.  The sounds come into the mix
in the order of the layers too, and the layers that work on the mixed sound follow in theirs. -/
theorem compile_inLayerOrder {timeline : Timeline} {compiled : Compiled}
    (h : compile timeline = .ok compiled) :
    ∃ canvas, canvasOf timeline = .ok canvas
      ∧ (∃ source steps finish, PaintsInOrder timeline compiled canvas source steps finish)
      ∧ (heardLayers timeline ≠ [] → ∃ mix, MixesInOrder timeline compiled canvas mix) := by
  obtain ⟨parts⟩ := compile_parts h
  exact ⟨parts.canvas, parts.canvas_eq, parts.paintsInOrder, parts.mixesInOrder⟩

/-- Layers of all kinds in turn, on a canvas that is cut and scaled. -/
def layeredScene : Timeline where
  layers := [
    { content := .video { source := ⟨"clip.mp4", none, none⟩ } },
    { content := .filter ⟨"lowpass", [("f", .num 800)]⟩ },
    { content := .filter ⟨"gblur", [("sigma", .num 4)]⟩ },
    { content := .audio { source := ⟨"song.mp3", none, none⟩ } },
    { content := .text "Title" none },
    { content := .filter ⟨"volume", [("volume", .num 2)]⟩ },
    { content := .image { source := ⟨"logo.png", none, none⟩ } }]
  options := { crop := some { width := 640, height := 360 }, scale := some ⟨320, 180⟩ }

omit [Rounding] in
theorem layeredScene_inLayerOrder : ∃ compiled, @compile .binary64 layeredScene = .ok compiled
    ∧ (seenLayers layeredScene).length = 4
    ∧ ∃ canvas, @canvasOf .binary64 layeredScene = .ok canvas
      ∧ (∃ source steps finish,
        @PaintsInOrder .binary64 layeredScene compiled canvas source steps finish)
      ∧ ∃ mix, @MixesInOrder .binary64 layeredScene compiled canvas mix := by
  have hok : (@compile .binary64 layeredScene).toOption.isSome = true := by decide +kernel
  cases hcompile : @compile .binary64 layeredScene with
  | error e =>
    rw [hcompile] at hok
    cases hok
  | ok compiled =>
    obtain ⟨canvas, hcanvas, hpaints, hmixes⟩ :=
      @compile_inLayerOrder .binary64 layeredScene compiled hcompile
    exact ⟨compiled, rfl, by decide +kernel, canvas, hcanvas, hpaints, hmixes (by decide +kernel)⟩

end Command
end Montage
