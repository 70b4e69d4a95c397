import Montage.Proofs.Command.Painting

/-!
# The flow of a whole graph

The picture is finished under one label, the sounds are prepared and mixed under another, and in
front of both stand the splits.  `Parts` takes a compilation apart, and `Parts.flow` puts the flows
of its parts together: the streams of the inputs go in, and the finished picture comes out, with
the mixed sound where there is any.
-/

set_option autoImplicit false

namespace Montage
namespace Command

/-! ## The end of the picture -/

theorem relabelLast_append (output : String) (front : List Stage) (stage : Stage) :
    relabelLast output (front ++ [stage]) = front ++ [{ stage with outputs := [output] }] := by
  induction front with
  | nil => rfl
  | cons first front ih =>
    cases front with
    | nil => rfl
    | cons second front => exact congrArg (first :: ·) ih

/-- The picture ends by a new name of its last output, or by one more stage. -/
theorem finishPicture_cases (options : RenderOptions) (current : String) (front : List Stage)
    (stage : Stage) :
    finishPicture options current (front ++ [stage])
        = front ++ [{ stage with outputs := [pictureLabel] }]
      ∨ finishPicture options current (front ++ [stage])
        = front ++ [stage] ++ [⟨[current], outputFilters options, [pictureLabel]⟩] := by
  rw [finishPicture]
  split
  · exact .inl (relabelLast_append pictureLabel front stage)
  · exact .inr rfl

theorem finishPicture_flow {options : RenderOptions} {current : String} {front : List Stage}
    {stage : Stage} {a : Multiset String} (h : Stage.Flow a (front ++ [stage]) {current})
    (hs : stage.outputs = [current]) :
    Stage.Flow a (finishPicture options current (front ++ [stage])) {pictureLabel} := by
  rcases finishPicture_cases options current front stage with heq | heq
  · rw [heq]
    exact h.relabel pictureLabel hs
  · rw [heq]
    exact h.append (.single ⟨[current], outputFilters options, [pictureLabel]⟩)

theorem written_finishPicture (options : RenderOptions) (current : String) (front : List Stage)
    (stage : Stage) :
    ∃ labels, Stage.written (finishPicture options current (front ++ [stage]))
        = labels ++ [pictureLabel]
      ∧ labels.Sublist (Stage.written (front ++ [stage])) := by
  rcases finishPicture_cases options current front stage with heq | heq
  · refine ⟨Stage.written front, by rw [heq]; simp, ?_⟩
    rw [Stage.written_append]
    exact List.sublist_append_left _ _
  · exact ⟨Stage.written (front ++ [stage]), by rw [heq]; simp, .refl _⟩

/-- A stage that others follow stays as it is. -/
theorem mem_finishPicture {options : RenderOptions} {current : String} {front back : List Stage}
    {stage next : Stage} :
    stage ∈ finishPicture options current (front ++ stage :: next :: back) := by
  obtain ⟨init, last, hback⟩ := List.eq_nil_or_concat' (next :: back) |>.resolve_left (by simp)
  have hassoc : front ++ stage :: next :: back = (front ++ stage :: init) ++ [last] := by
    rw [hback, List.append_assoc, List.cons_append]
  rw [hassoc]
  rcases finishPicture_cases options current (front ++ stage :: init) last with heq | heq
  · rw [heq]
    simp
  · rw [heq]
    simp

variable [Rounding]

/-! ## Sounds -/

/-- What preparing the sound of one layer can do. -/
theorem soundStages_cases {canvas : Canvas} {inputs : List Input} {session : Session}
    {layer : Layer} {rest : List Layer} {stages : List Stage} {labels : List String}
    (h : soundStages canvas inputs session (layer :: rest) = .ok (stages, labels)) :
    (Sound.ofContent layer.content = none
      ∧ soundStages canvas inputs session rest = .ok (stages, labels))
    ∨ ∃ sound filters later more, Sound.ofContent layer.content = some sound
      ∧ soundFilters canvas layer sound = .ok filters
      ∧ soundStages canvas inputs { session with
          splits := (takeStream ⟨indexOf inputs sound.source.path, true⟩ session.splits).2
          sounds := session.sounds + 1 } rest = .ok (later, more)
      ∧ stages = ⟨[(takeStream ⟨indexOf inputs sound.source.path, true⟩ session.splits).1],
          filters, [numbered "a" session.sounds]⟩ :: later
      ∧ labels = numbered "a" session.sounds :: more := by
  rw [soundStages] at h
  split at h
  · rename_i hsound
    exact .inl ⟨hsound, h⟩
  · rename_i sound hsound
    obtain ⟨filters, hfilters, h⟩ := bind_eq_ok.mp h
    obtain ⟨⟨later, more⟩, hlater, h⟩ := bind_eq_ok.mp h
    rw [pure_eq_ok, Prod.mk.injEq] at h
    exact .inr ⟨sound, filters, later, more, hsound, hfilters, hlater, h.1.symm, h.2.symm⟩

/-- What the sounds come to: one label each, numbered through. -/
structure Sounding (pads : List Pad) (session : Session) (stages : List Stage)
    (labels : List String) : Prop where
  flow : Stage.Flow ↑(drawn pads session.splits).1 stages ↑labels
  labels_eq : labels = (List.range' session.sounds pads.length).map (numbered "a")
  written : Stage.written stages = labels

theorem soundStages_sounding {canvas : Canvas} {inputs : List Input} {session : Session}
    {layers : List Layer} {stages : List Stage} {labels : List String}
    (h : soundStages canvas inputs session layers = .ok (stages, labels)) :
    Sounding (soundPads inputs layers) session stages labels := by
  induction layers generalizing session stages labels with
  | nil =>
    rw [soundStages, Except.ok.injEq, Prod.mk.injEq] at h
    obtain ⟨rfl, rfl⟩ := h
    exact ⟨.nil _, rfl, rfl⟩
  | cons layer rest ih =>
    rw [soundPads_cons, soundPad_eq]
    rcases soundStages_cases h with ⟨hsound, h⟩
      | ⟨sound, filters, later, more, hsound, -, hlater, rfl, rfl⟩
    · rw [hsound]
      exact ih h
    · have hrest := ih hlater
      rw [hsound, Option.map_some, Option.toList_some, List.singleton_append]
      refine ⟨?_, ?_, ?_⟩
      · have hflow := hrest.flow.frame ↑[numbered "a" session.sounds]
        rw [add_comm, add_comm (Multiset.ofList more)] at hflow
        exact .cons _ rfl hflow
      · rw [List.length_cons, List.range'_succ, List.map_cons]
        exact congrArg _ hrest.labels_eq
      · rw [Stage.written_cons, hrest.written]
        rfl

theorem soundStages_prepares {canvas : Canvas} {inputs : List Input} {session : Session}
    {layers before after : List Layer} {layer : Layer} {sound : Sound} {stages : List Stage}
    {labels : List String} (hl : layers = before ++ layer :: after)
    (hs : Sound.ofContent layer.content = some sound)
    (h : soundStages canvas inputs session layers = .ok (stages, labels)) :
    ∃ stage ∈ stages, Prepares session.splits ⟨indexOf inputs sound.source.path, true⟩
      (soundFilters canvas layer sound)
      (numbered "a" (session.sounds + (soundPads inputs before).length)) stage := by
  subst hl
  induction before generalizing session stages labels with
  | nil =>
    rcases soundStages_cases h with ⟨hnone, -⟩
      | ⟨other, filters, later, more, hother, hfilters, -, rfl, -⟩
    · rw [hnone] at hs
      cases hs
    · obtain rfl : other = sound := Option.some.inj (hother.symm.trans hs)
      exact ⟨_, List.mem_cons_self, hfilters, rfl, _, rfl, (takeStream_spec _ _).1⟩
  | cons first before ih =>
    rw [soundPads_cons, soundPad_eq]
    rcases soundStages_cases h with ⟨hnone, h⟩
      | ⟨other, filters, later, more, hother, -, hlater, rfl, -⟩
    · rw [hnone]
      exact ih h
    · obtain ⟨stage, hstage, hprepares⟩ := ih hlater
      rw [hother, Option.map_some, Option.toList_some, List.singleton_append, List.length_cons,
        Nat.add_comm _ 1, ← Nat.add_assoc]
      exact ⟨stage, List.mem_cons_of_mem _ hstage, hprepares.of_left (takeStream_spec _ _).2⟩

/-! ## The whole graph -/

/-- The filter that brings `n` sounds together. -/
def mixerOf (n : Nat) : Filter :=
  if 1 < n then
    .named "amix" [("inputs", .num (.whole n)), ("duration", .plain "longest")]
  else .named "anull" []

omit [Rounding] in
theorem mixStage_of_ne_nil {labels : List String} (h : labels ≠ []) (effects : List Filter) :
    mixStage labels effects = [⟨labels, mixerOf labels.length :: effects, [soundLabel]⟩] := by
  rw [mixStage, if_neg (by simpa using h)]
  rfl

/-- The sound that is open at the end of a graph. -/
def mixed (labels : List String) : Multiset String := if labels = [] then 0 else {soundLabel}

omit [Rounding] in
theorem mixStage_flow (labels : List String) (effects : List Filter) :
    Stage.Flow ↑labels (mixStage labels effects) (mixed labels) := by
  by_cases h : labels = []
  · subst h
    exact .nil _
  · rw [mixStage_of_ne_nil h, mixed, if_neg h]
    exact .single ⟨labels, mixerOf labels.length :: effects, [soundLabel]⟩

omit [Rounding] in
theorem written_mixStage (labels : List String) (effects : List Filter) :
    (Stage.written (mixStage labels effects) : Multiset String) = mixed labels := by
  by_cases h : labels = []
  · subst h
    rfl
  · rw [mixStage_of_ne_nil h, mixed, if_neg h]
    rfl

/-- The parts of a compilation that succeeded. -/
structure Parts (timeline : Timeline) (compiled : Compiled) where
  canvas : Canvas
  background : List Filter
  painted : Painted
  sounds : List Stage
  labels : List String
  effects : List Filter
  canvas_eq : canvasOf timeline = .ok canvas
  background_eq : canvasStage canvas timeline.options.backgroundColor
    = .ok ⟨[], background, ["base"]⟩
  paints : paintLayers canvas timeline.options (inputsOf timeline.layers)
    { splits := splitsOf (inputsOf timeline.layers) timeline.layers } "base" timeline.layers
      = .ok painted
  plays : soundStages canvas (inputsOf timeline.layers) painted.session timeline.layers
    = .ok (sounds, labels)
  effects_eq : soundEffects timeline.layers = .ok effects
  inputs_eq : compiled.inputs = inputsOf timeline.layers
  stages_eq : compiled.graph.stages
    = (splitsOf (inputsOf timeline.layers) timeline.layers).map Split.stage
      ++ (finishPicture timeline.options painted.output
          (⟨[], background, ["base"]⟩ :: painted.stages)
        ++ (sounds ++ mixStage labels effects))
  hasSound_eq : compiled.hasSound = !labels.isEmpty

theorem compile_parts {timeline : Timeline} {compiled : Compiled}
    (h : compile timeline = .ok compiled) : Nonempty (Parts timeline compiled) := by
  rw [compile] at h
  obtain ⟨canvas, hcanvas, h⟩ := bind_eq_ok.mp h
  obtain ⟨base, hbase, h⟩ := bind_eq_ok.mp h
  obtain ⟨painted, hpainted, h⟩ := bind_eq_ok.mp h
  obtain ⟨⟨sounds, labels⟩, hsounds, h⟩ := bind_eq_ok.mp h
  obtain ⟨effects, heffects, h⟩ := bind_eq_ok.mp h
  have hbackground := hbase
  rw [canvasStage] at hbase
  obtain ⟨color, -, hbase⟩ := bind_eq_ok.mp hbase
  rw [pure_eq_ok] at hbase h
  subst hbase h
  exact ⟨⟨canvas, _, painted, sounds, labels, effects, hcanvas, hbackground, hpainted, hsounds,
    heffects, rfl, by rw [List.append_assoc, List.append_assoc], rfl⟩⟩

namespace Parts

variable {timeline : Timeline} {compiled : Compiled} (parts : Parts timeline compiled)

/-- All uses of streams, layer by layer. -/
def uses (_ : Parts timeline compiled) : List Pad :=
  padsOf (inputsOf timeline.layers) timeline.layers

/-- The stages of the picture. -/
def pictures : List Stage :=
  finishPicture timeline.options parts.painted.output
    (⟨[], parts.background, ["base"]⟩ :: parts.painted.stages)

theorem advances : Advances (picturePads (inputsOf timeline.layers) timeline.layers)
    { splits := splitsOf (inputsOf timeline.layers) timeline.layers } "base" parts.painted :=
  paintLayers_advances parts.paints

theorem sounding : Sounding (soundPads (inputsOf timeline.layers) timeline.layers)
    parts.painted.session parts.sounds parts.labels :=
  soundStages_sounding parts.plays

/-- The stages of the picture before it is finished end with the stage of the last canvas. -/
theorem last_painted : ∃ front stage,
    ⟨[], parts.background, ["base"]⟩ :: parts.painted.stages = front ++ [stage]
      ∧ stage.outputs = [parts.painted.output] := by
  rcases parts.advances.last with ⟨hstages, houtput⟩ | ⟨front, stage, hstages, houtput⟩
  · exact ⟨[], _, by rw [hstages]; rfl, by rw [houtput]⟩
  · exact ⟨_ :: front, stage, by rw [hstages]; rfl, houtput⟩

theorem pictures_flow : Stage.Flow
    ↑(drawn (picturePads (inputsOf timeline.layers) timeline.layers)
      (splitsOf (inputsOf timeline.layers) timeline.layers)).1
    parts.pictures {pictureLabel} := by
  obtain ⟨front, stage, hstages, houtput⟩ := parts.last_painted
  rw [pictures, hstages]
  refine finishPicture_flow ?_ houtput
  rw [← hstages]
  exact .cons _ (by rw [Multiset.coe_nil, zero_add]) parts.advances.flow

/-- **The streams of the inputs go in, and the picture and the mixed sound come out.** -/
theorem flow : Stage.Flow ↑((distinct parts.uses).map Pad.name) compiled.graph.stages
    ({pictureLabel} + mixed parts.labels) := by
  have hsounds := parts.sounding.flow.append (mixStage_flow parts.labels parts.effects)
  rw [parts.advances.splits] at hsounds
  rw [parts.stages_eq]
  refine (streams_flow (pads_perm _ _)).append ?_
  rw [drawn_append, ← Multiset.coe_add]
  exact parts.pictures_flow.beside hsounds

end Parts
end Command
end Montage
