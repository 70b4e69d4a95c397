import Montage.Proofs.Timeline.Made
import Montage.Timeline.Builder
import Montage.Timeline.Effects

/-!
# Timelines that can be built

A timeline begins with options or is read from a document, and grows by calls: builders put layers
behind its own, setters change its options, effects are steps made of both, and another timeline
is joined behind it.  `Timeline.Built` holds of what comes out of any run of such calls.

Each call keeps `Timeline.IsValid`, and so every timeline that is built is valid.
-/

set_option autoImplicit false

namespace Montage
namespace Timeline

/-! ## Calls -/

/-- A call of a builder, of a setter or of a chain of effects, with what it is given. -/
inductive Call where
  | addVideo (given : List (String × Json))
  | addAudio (given : List (String × Json))
  | addImage (given : List (String × Json))
  | addWatermark (given : List (String × Json))
  | addInset (given : List (String × Json))
  | addText (given : List (String × Json))
  | addFilter (given : List (String × Json))
  | addCaptions (given : List (String × Json))
  | addWords (given : List (String × Json))
  | trim (given : List (String × Json))
  | scale (given : List (String × Json))
  | crop (given : List (String × Json))
  | setAspectRatio (given : List (String × Json))
  | setResolution (given : List (String × Json))
  | setOption (option parameter : String) (given : List (String × Json))
  | setDefaultStyle (given : List (String × Json))
  | applyEffects (requests : List (String × List (String × Json)))

variable [rounding : Rounding]

/-- The timeline after a call. -/
def Call.run (timeline : Timeline) : Call → Except Error Timeline
  | .addVideo given => timeline.addVideo given
  | .addAudio given => timeline.addAudio given
  | .addImage given => timeline.addImage given
  | .addWatermark given => timeline.addWatermark given
  | .addInset given => timeline.addInset given
  | .addText given => timeline.addText given
  | .addFilter given => timeline.addFilter given
  | .addCaptions given => timeline.addCaptions given
  | .addWords given => timeline.addWords given
  | .trim given => timeline.trim given
  | .scale given => timeline.scale given
  | .crop given => timeline.crop given
  | .setAspectRatio given => timeline.setAspectRatio given
  | .setResolution given => timeline.setResolution given
  | .setOption option parameter given => timeline.setOption option parameter given
  | .setDefaultStyle given => timeline.setDefaultStyle given
  | .applyEffects requests => timeline.applyEffects requests

/-- The timelines that calls make: from options alone or from a document, by calls and by joining
what was built before. -/
inductive Built : Timeline → Prop where
  | fresh {document : Json} {options : RenderOptions}
      (h : RenderOptions.decode document = .ok options) : Built { options }
  | read {document : Json} {timeline : Timeline}
      (h : (ofDocument document).result = .ok timeline) : Built timeline
  | call {timeline next : Timeline} (built : Built timeline) (call : Call)
      (h : call.run timeline = .ok next) : Built next
  | concat {timeline other next : Timeline} (built : Built timeline) (second : Built other)
      (h : timeline.concat other = .ok next) : Built next

/-! ## What each call keeps -/

variable {timeline next : Timeline} {given : List (String × Json)}

omit rounding in
theorem IsValid.appendOne (valid : timeline.IsValid) {layer : Layer} (h : layer.IsValid) :
    (timeline.append [layer]).IsValid :=
  valid.append (List.forall_mem_singleton.mpr h)

theorem layerOf_isValid {kind : Layer.Kind} {request : Request} {layer : Layer}
    (h : layerOf kind request = .ok layer) : layer.IsValid := by
  obtain ⟨animation, hanimation, h⟩ := bind_eq_ok.mp h
  exact Layer.make_isValid (fun _ h ↦ Layer.givenPosition_isValid h)
    (fun _ h ↦ Style.coerce_isValid h) (Layer.givenAnimation_isValid hanimation) h

/-- A builder that makes one layer from its request adds a valid layer. -/
theorem IsValid.addLayer (valid : timeline.IsValid) {signature : Signature} {kind : Layer.Kind}
    (h : (do
      let request ← Request.complete signature given
      return timeline.append [← layerOf kind request]) = .ok next) : next.IsValid := by
  obtain ⟨request, -, h⟩ := bind_eq_ok.mp h
  obtain ⟨layer, hlayer, h⟩ := bind_eq_ok.mp h
  cases pure_eq_ok.mp h
  exact valid.appendOne (layerOf_isValid hlayer)

theorem IsValid.addAudio (valid : timeline.IsValid) (h : timeline.addAudio given = .ok next) :
    next.IsValid := by
  obtain ⟨request, -, h⟩ := bind_eq_ok.mp h
  obtain ⟨layer, hlayer, h⟩ := bind_eq_ok.mp h
  cases pure_eq_ok.mp h
  exact valid.appendOne (Layer.makeBare_isValid hlayer)

theorem IsValid.addWatermark (valid : timeline.IsValid)
    (h : timeline.addWatermark given = .ok next) : next.IsValid := by
  obtain ⟨request, -, h⟩ := bind_eq_ok.mp h
  obtain ⟨position, hposition, h⟩ := bind_eq_ok.mp h
  obtain ⟨style, hstyle, h⟩ := bind_eq_ok.mp h
  obtain ⟨layer, hlayer, h⟩ := bind_eq_ok.mp h
  cases pure_eq_ok.mp h
  have hplace := Position.preset_isValid (constructing_eq_ok.mp hposition)
  have hlook := Style.decode_isValid _ style (Checked.toExcept_eq_ok.mp hstyle)
  exact valid.appendOne (Layer.makePlaced_isValid hplace hlook (by rintro _ ⟨⟩) hlayer)

theorem IsValid.addInset (valid : timeline.IsValid) (h : timeline.addInset given = .ok next) :
    next.IsValid := by
  obtain ⟨request, -, h⟩ := bind_eq_ok.mp h
  obtain ⟨⟨position, style⟩, hparts, h⟩ := bind_eq_ok.mp h
  obtain ⟨animation, hanimation, h⟩ := bind_eq_ok.mp h
  obtain ⟨layer, hlayer, h⟩ := bind_eq_ok.mp h
  cases pure_eq_ok.mp h
  obtain ⟨_, hposition, hparts⟩ := bind_eq_ok.mp (constructing_eq_ok.mp hparts)
  obtain ⟨_, hstyle, hparts⟩ := bind_eq_ok.mp hparts
  cases pure_eq_ok.mp hparts
  have hlook := Style.decode_isValid _ style (Checked.toExcept_eq_ok.mp hstyle)
  exact valid.appendOne (Layer.makePlaced_isValid (Position.preset_isValid hposition) hlook
    (Layer.givenAnimation_isValid hanimation) hlayer)

theorem IsValid.addFilter (valid : timeline.IsValid) (h : timeline.addFilter given = .ok next) :
    next.IsValid := by
  obtain ⟨request, -, h⟩ := bind_eq_ok.mp h
  obtain ⟨params, -, h⟩ := bind_eq_ok.mp h
  obtain ⟨layer, hlayer, h⟩ := bind_eq_ok.mp h
  cases pure_eq_ok.mp h
  exact valid.appendOne (Layer.makeBare_isValid hlayer)

theorem IsValid.addCaptions (valid : timeline.IsValid)
    (h : timeline.addCaptions given = .ok next) : next.IsValid := by
  obtain ⟨request, -, h⟩ := bind_eq_ok.mp h
  obtain ⟨style, hstyle, h⟩ := bind_eq_ok.mp h
  obtain ⟨items, -, h⟩ := bind_eq_ok.mp h
  obtain ⟨layers, hlayers, h⟩ := bind_eq_ok.mp h
  cases pure_eq_ok.mp h
  refine valid.append (captionLayers_isValid (batchStyle_isValid hstyle) (fun item hitem ↦ ?_)
    hlayers)
  obtain ⟨value, -, hvalue⟩ := List.mem_map.mp hitem
  exact captionItem_isValid hvalue

omit rounding in
theorem chosenPreset_isValid {preset : Json} {chosen : Option Style.WordPreset}
    (h : chosenPreset preset = .ok chosen) :
    (∀ style ∈ chosen.map (·.rest), style.IsValid) ∧
      ∀ style ∈ chosen.map (·.active), style.IsValid := by
  obtain ⟨key, -, h⟩ := bind_eq_ok.mp h
  split at h
  · cases pure_eq_ok.mp h
    exact ⟨by rintro _ ⟨⟩, by rintro _ ⟨⟩⟩
  dsimp only at h
  split at h
  · rename_i found hfound
    cases pure_eq_ok.mp h
    split at hfound
    · obtain ⟨hrest, hactive⟩ := Style.wordPreset?_isValid hfound
      exact ⟨by rintro _ ⟨⟩; exact hrest, by rintro _ ⟨⟩; exact hactive⟩
    · cases hfound
  · exact absurd h throw_ne_ok

theorem wordAnimation_isValid {transition duration : Json} {glows : Bool}
    {animation : Option Animation}
    (h : wordAnimation transition duration glows = .ok animation) :
    ∀ given ∈ animation, given.IsValid := by
  unfold wordAnimation at h
  split at h
  · exact Layer.givenAnimation_isValid h
  · cases h
    rintro _ ⟨⟩
  · exact Layer.givenAnimation_isValid h

/-- The styles of words are valid, whatever they are made from. -/
theorem wordStyles_isValid {request : Request} {preset : Option Style.WordPreset}
    {rest active : Style}
    (hpreset : (∀ style ∈ preset.map (·.rest), style.IsValid) ∧
      ∀ style ∈ preset.map (·.active), style.IsValid)
    (h : wordStyles request preset = .ok (rest, active)) : rest.IsValid ∧ active.IsValid := by
  obtain ⟨base, hbase, h⟩ := bind_eq_ok.mp h
  obtain ⟨highlight, hhighlight, h⟩ := bind_eq_ok.mp h
  cases pure_eq_ok.mp h
  have hrest := Style.wordRest_isValid.merged (List.forall_mem_cons.mpr
    ⟨hpreset.1, List.forall_mem_singleton.mpr (Style.coerce_isValid hbase)⟩)
  have hactive := Style.wordActive_isValid.merged (List.forall_mem_singleton.mpr hpreset.2)
  refine ⟨hrest, hrest.merged (List.forall_mem_cons.mpr ⟨?_, ?_⟩)⟩
  · rintro _ ⟨⟩
    exact hactive
  · exact List.forall_mem_singleton.mpr (Style.coerce_isValid hhighlight)

theorem IsValid.addWords (valid : timeline.IsValid) (h : timeline.addWords given = .ok next) :
    next.IsValid := by
  obtain ⟨request, -, h⟩ := bind_eq_ok.mp h
  obtain ⟨_, -, h⟩ := bind_eq_ok.mp h
  obtain ⟨preset, hpreset, h⟩ := bind_eq_ok.mp h
  obtain ⟨_, -, h⟩ := bind_eq_ok.mp h
  obtain ⟨⟨rest, active⟩, hstyles, h⟩ := bind_eq_ok.mp h
  obtain ⟨animation, hanimation, h⟩ := bind_eq_ok.mp h
  obtain ⟨timed, -, h⟩ := bind_eq_ok.mp h
  obtain ⟨anchor, hanchor, h⟩ := bind_eq_ok.mp h
  obtain ⟨_, -, h⟩ := bind_eq_ok.mp h
  obtain ⟨layers, hlayers, h⟩ := bind_eq_ok.mp h
  cases pure_eq_ok.mp h
  obtain ⟨hrest, hactive⟩ := wordStyles_isValid (chosenPreset_isValid hpreset) hstyles
  exact valid.append (blockLayers_isValid ⟨Position.coerce_isValid (constructing_eq_ok.mp hanchor),
    hrest, hactive, wordAnimation_isValid hanimation⟩ hlayers)

/-! ## Setters -/

theorem IsValid.trim (valid : timeline.IsValid) (h : timeline.trim given = .ok next) :
    next.IsValid := by
  obtain ⟨request, -, h⟩ := bind_eq_ok.mp h
  dsimp only at h
  split at h
  · exact valid.withOptions h
  · obtain ⟨late, -, h⟩ := bind_eq_ok.mp h
    split at h
    · exact absurd h throw_ne_ok
    · exact valid.withOptions h

/-- A setter that makes its changes from its request keeps valid timelines valid. -/
theorem IsValid.setOptions (valid : timeline.IsValid) {signature : Signature}
    {changes : Request → List (String × Json)}
    (h : (do
      let request ← Request.complete signature given
      timeline.withOptions (changes request)) = .ok next) : next.IsValid := by
  obtain ⟨request, -, h⟩ := bind_eq_ok.mp h
  exact valid.withOptions h

theorem IsValid.setDefaultStyle (valid : timeline.IsValid)
    (h : timeline.setDefaultStyle given = .ok next) : next.IsValid := by
  obtain ⟨request, -, h⟩ := bind_eq_ok.mp h
  obtain ⟨style, hstyle, h⟩ := bind_eq_ok.mp h
  cases pure_eq_ok.mp h
  exact ⟨valid.layers, { valid.options with defaultStyle := Style.coerce_isValid hstyle }⟩

/-! ## Effects -/

/-- A step keeps valid timelines valid. -/
def Step.Keeps (step : Step) : Prop :=
  ∀ timeline next, timeline.IsValid → step timeline = .ok next → next.IsValid

omit rounding in
theorem Step.chain_keeps {steps : List Step} (h : ∀ step ∈ steps, step.Keeps) :
    (chain steps).Keeps := by
  induction steps with
  | nil =>
    intro timeline next valid hnext
    cases pure_eq_ok.mp hnext
    exact valid
  | cons step rest ih =>
    rw [List.forall_mem_cons] at h
    intro timeline next valid hnext
    obtain ⟨middle, hmiddle, hnext⟩ := bind_eq_ok.mp hnext
    exact ih h.2 middle next (h.1 timeline middle valid hmiddle) hnext

theorem Step.filter_keeps (name : String) (params : List (String × Json)) :
    (filter name params).Keeps :=
  fun _ _ valid h ↦ valid.addFilter h

theorem Step.ending_keeps (name : String) (duration : Json)
    (params : Json → List (String × Json)) : (ending name duration params).Keeps := by
  intro timeline next valid h
  obtain ⟨_, -, h⟩ := bind_eq_ok.mp h
  obtain ⟨_, -, h⟩ := bind_eq_ok.mp h
  exact valid.addFilter h

/-- Filters in a row keep valid timelines valid. -/
theorem Step.vintage_keeps : vintage.Keeps := by
  refine chain_keeps fun step hstep ↦ ?_
  simp only [List.mem_cons, List.not_mem_nil, or_false] at hstep
  rcases hstep with rfl | rfl | rfl | rfl | rfl <;> exact filter_keeps _ _

theorem Step.cinematic_keeps : cinematic.Keeps := by
  refine chain_keeps fun step hstep ↦ ?_
  simp only [List.mem_cons, List.not_mem_nil, or_false] at hstep
  rcases hstep with rfl | rfl | rfl | rfl <;> exact filter_keeps _ _

/-- Whatever effect is asked for, its step keeps valid timelines valid. -/
theorem Step.ofComplete_keeps {name : String} {request : Request} {step : Step}
    (h : ofComplete name request = .ok step) : step.Keeps := by
  unfold ofComplete at h
  dsimp only at h
  split at h
  case h_5 =>
    cases pure_eq_ok.mp h
    exact chain_keeps (List.forall_mem_nil _)
  case h_6 =>
    cases pure_eq_ok.mp h
    exact vintage_keeps
  case h_7 =>
    cases pure_eq_ok.mp h
    exact cinematic_keeps
  case h_8 =>
    split at h
    all_goals first
      | exact absurd h throw_ne_ok
      | cases pure_eq_ok.mp h
        exact filter_keeps _ _
  case h_9 =>
    obtain ⟨factor, -, h⟩ := bind_eq_ok.mp h
    split at h
    · exact absurd h throw_ne_ok
    · cases pure_eq_ok.mp h
      exact filter_keeps _ _
  case h_10 =>
    cases pure_eq_ok.mp h
    exact fun _ _ valid h ↦ valid.setOptions h
  case h_11 =>
    cases pure_eq_ok.mp h
    exact fun _ _ valid h ↦ valid.setOptions h
  all_goals
    cases pure_eq_ok.mp h
    first | exact filter_keeps _ _ | exact ending_keeps _ _ _

theorem Step.ofRequest_keeps {name : String} {step : Step}
    (h : ofRequest name given = .ok step) : step.Keeps := by
  rw [ofRequest] at h
  split at h
  · cases h
  · obtain ⟨request, -, h⟩ := bind_eq_ok.mp h
    exact ofComplete_keeps h

theorem IsValid.applyEffects (valid : timeline.IsValid)
    {requests : List (String × List (String × Json))}
    (h : timeline.applyEffects requests = .ok next) : next.IsValid := by
  obtain ⟨steps, hsteps, h⟩ := bind_eq_ok.mp h
  refine Step.chain_keeps (fun step hstep ↦ ?_) timeline next valid h
  obtain ⟨request, -, hrequest⟩ := exists_of_mem_mapM hsteps hstep
  exact Step.ofRequest_keeps hrequest

/-! ## What every run keeps -/

/-- A call keeps valid timelines valid. -/
theorem Call.run_isValid (valid : timeline.IsValid) {call : Call}
    (h : call.run timeline = .ok next) : next.IsValid := by
  cases call with
  | addVideo given => exact valid.addLayer h
  | addAudio given => exact valid.addAudio h
  | addImage given => exact valid.addLayer h
  | addWatermark given => exact valid.addWatermark h
  | addInset given => exact valid.addInset h
  | addText given => exact valid.addLayer h
  | addFilter given => exact valid.addFilter h
  | addCaptions given => exact valid.addCaptions h
  | addWords given => exact valid.addWords h
  | trim given => exact valid.trim h
  | scale given => exact valid.setOptions h
  | crop given => exact valid.setOptions h
  | setAspectRatio given => exact valid.setOptions h
  | setResolution given => exact valid.setOptions h
  | setOption option parameter given => exact valid.setOptions h
  | setDefaultStyle given => exact valid.setDefaultStyle h
  | applyEffects requests => exact valid.applyEffects h

/-- **A timeline that was built is valid.** -/
theorem Built.isValid (signs : rounding.KeepsSigns) (built : Built timeline) :
    timeline.IsValid := by
  induction built with
  | fresh h => exact ⟨List.forall_mem_nil _, RenderOptions.decode_isValid _ _ h⟩
  | read h => exact ofDocument_isValid h
  | call _ call h ih => exact call.run_isValid ih h
  | concat _ _ h ih ihOther => exact ih.concat signs ihOther h

end Timeline
end Montage
