import Montage.Proofs.Command.Drawn
import Montage.Proofs.Command.Order
import Montage.Proofs.Timeline.Valid
import Montage.Tracks.Layers

/-!
# Captions drawn alone and on a timeline

The filters of the tracks alone (`TrackSet.filterChain`) are those that draw the tracks on a
timeline (`TrackSet.applyTo`), one for each caption and in the order of the captions.  A timeline
lends them its canvas and its style, and not the length of its layers: a caption that is there from
the beginning until the last caption ends has no window alone, and has one on a timeline that goes
on.
-/

set_option autoImplicit false

namespace Montage

/-! ## Latest ends -/

variable [Rounding]

namespace Timeline

omit [Rounding] in
/-- The latest of some ends is the latest of more, or an earlier one. -/
theorem latest?_append {ends more : List Quantity} (defined : ∀ x ∈ more, x ≠ .undefined)
    {stop latest last : Quantity} (hlatest : latest? (ends ++ more) = some latest)
    (hlast : latest? more = some last) (h : latest.le stop = true) : last.le stop = true := by
  have hmem : last ∈ more := latest?_mem hlast
  cases hall : ends ++ more with
  | nil =>
    rw [hall] at hlatest
    cases hlatest
  | cons x xs =>
    rw [hall] at hlatest
    cases hlatest
    have hx : x ≠ .undefined := by
      rintro rfl
      rw [Quantity.foldl_max_undefined] at h
      exact (Quantity.le_defined h).1 rfl
    refine Quantity.le_trans (Quantity.le_foldl_max hx xs last ?_ (defined last hmem)) h
    rw [← hall]
    exact List.mem_append_right _ hmem

/-- Layers alone do not last longer than a timeline that they are added to. -/
theorem duration_le_of_append {timeline : Timeline} {layers : List Layer} (hne : layers ≠ [])
    (defined : ∀ layer ∈ layers, ∃ x, countedEnd layer = some x ∧ x ≠ .undefined)
    {stop : Quantity} (h : (timeline.append layers).duration.le stop = true) :
    Quantity.le (duration { layers, options := timeline.options }) stop = true := by
  have hoptions : (timeline.append layers).options = timeline.options := rfl
  have hlayers : (timeline.append layers).layers = timeline.layers ++ layers := rfl
  rw [duration, hoptions, hlayers, List.filterMap_append] at h
  rw [duration]
  cases hset : timeline.options.duration with
  | some length =>
    rw [hset] at h
    exact h
  | none =>
    rw [hset] at h
    have hends : ∀ x ∈ layers.filterMap countedEnd, x ≠ .undefined := by
      intro x hx
      obtain ⟨layer, hlayer, hend⟩ := List.mem_filterMap.mp hx
      obtain ⟨y, hy, hdefined⟩ := defined layer hlayer
      cases hend.symm.trans hy
      exact hdefined
    obtain ⟨first, rest, rfl⟩ := List.exists_cons_of_ne_nil hne
    obtain ⟨x, hx, -⟩ := defined first List.mem_cons_self
    obtain ⟨last, hlast⟩ : ∃ last, latest? ((first :: rest).filterMap countedEnd) = some last := by
      rw [List.filterMap_cons_some hx]
      exact ⟨_, rfl⟩
    obtain ⟨latest, hlatest⟩ : ∃ latest, latest? (timeline.layers.filterMap countedEnd
        ++ (first :: rest).filterMap countedEnd) = some latest := by
      rw [List.filterMap_cons_some hx]
      cases timeline.layers.filterMap countedEnd <;> exact ⟨_, rfl⟩
    dsimp only at h ⊢
    rw [hlatest] at h
    rw [hlast]
    exact latest?_append hends hlatest hlast h

end Timeline

namespace TrackSet

/-! ## Captions -/

/-- A layer that a subtitle became. -/
structure IsCaption (layer : Layer) : Prop where
  content : ∃ caption, layer.content = .caption caption
  start : layer.startTime ≠ .undefined
  length : ∃ x, layer.duration = some x ∧ x.isFinite = true

theorem layerOf_isCaption {set : TrackSet} {track : Track} {subtitle : Subtitle} {layer : Layer}
    (h : set.layerOf track subtitle = .ok layer) : IsCaption layer := by
  obtain ⟨position, -, h⟩ := bind_eq_ok.mp h
  refine (?_ : Checked.All _ IsCaption) layer (Checked.toExcept_eq_ok.mp h)
  simp only [Layer.assemble, Checked.all_seq, Checked.all_map]
  intro start hstart duration hduration _ _ _ _ content hcontent
  cases hcontent
  refine ⟨⟨_, rfl⟩, ?_, ?_⟩
  · have hstart : Layer.IsStart start :=
      Decoder.all_field ⟨by decide, by rintro ⟨⟩⟩ Layer.decodeStart_isStart _ hstart
    exact (Quantity.le_defined hstart.nonnegative).2
  · obtain ⟨hnone, -⟩ | ⟨value, hwritten, hread⟩ := Decoder.field_eq_ok.mp hduration
    · cases hnone
    · cases hwritten
      obtain ⟨length, hlength, rfl⟩ : ∃ length, Layer.decodeLength (.quantity
          (Quantity.max (.finite 0) subtitle.length)) = .ok length ∧ some length = duration := by
        rw [Decoder.optional] at hread
        · generalize Layer.decodeLength _ = made at hread
          cases made <;> cases hread
          exact ⟨_, rfl, rfl⟩
        · rintro ⟨⟩
      have hfinite : Layer.isLength length = true := Decoder.all_such length hlength
      rw [Layer.isLength, Bool.and_eq_true] at hfinite
      exact ⟨length, rfl, hfinite.1⟩

theorem layers_isCaption {set : TrackSet} {languages : Json} {layers : List Layer}
    (h : set.layers languages = .ok layers) : ∀ layer ∈ layers, IsCaption layer := by
  obtain ⟨wanted, -, h⟩ := bind_eq_ok.mp h
  obtain ⟨perTrack, hperTrack, h⟩ := bind_eq_ok.mp h
  rw [← pure_eq_ok.mp h]
  intro layer hlayer
  obtain ⟨ofTrack, hofTrack, hlayer⟩ := List.mem_flatten.mp hlayer
  obtain ⟨track, -, hmade⟩ := exists_of_mem_mapM hperTrack hofTrack
  obtain ⟨subtitle, -, hmade⟩ := exists_of_mem_mapM hmade hlayer
  exact layerOf_isCaption hmade

/-! ## Filters of captions -/

variable {set : TrackSet} {timeline : Timeline} {languages : Json} {layers : List Layer}

theorem IsCaption.countedEnd (total : ∀ q, Rounding.round q ≠ .undefined) {layer : Layer}
    (h : IsCaption layer) : ∃ x, Timeline.countedEnd layer = some x ∧ x ≠ .undefined := by
  obtain ⟨length, hlength, hfinite⟩ := h.length
  rw [Timeline.countedEnd, hlength]
  exact ⟨_, rfl, Quantity.add_ne_undefined total h.start hfinite⟩

theorem IsCaption.endTime {layer : Layer} (h : IsCaption layer) :
    layer.endTime = Timeline.countedEnd layer := by
  obtain ⟨length, hlength, -⟩ := h.length
  rw [Timeline.countedEnd, Layer.endTime, hlength]
  rfl

/-- A caption that spans a timeline spans the captions alone. -/
theorem spans_of_append (captions : ∀ layer ∈ layers, IsCaption layer)
    (total : ∀ q, Rounding.round q ≠ .undefined) {layer : Layer} (hlayer : layer ∈ layers)
    (h : Command.spans (timeline.append layers).duration layer = true) :
    Command.spans (Timeline.duration { layers, options := timeline.options }) layer = true := by
  obtain ⟨stop, hstop, -⟩ := (captions layer hlayer).countedEnd total
  rw [Command.spans, Bool.and_eq_true, (captions layer hlayer).endTime, hstop] at h ⊢
  exact ⟨h.1, Timeline.duration_le_of_append (List.ne_nil_of_mem hlayer)
    (fun other hother ↦ (captions other hother).countedEnd total) h.2⟩

/-- The filter that draws a caption on a timeline, as it is where captions of some length are all
there is: without its window if the caption spans them. -/
def alone (length : Quantity) (layer : Layer) (filter : Filter) : Filter :=
  if Command.spans length layer then filter.unset "enable" else filter

/-- The stages that paint captions have one filter each, and these are the filters of the captions
alone but for windows. -/
theorem drawingFilters_of_painted {short long : Command.Canvas} {options : RenderOptions}
    {ready : Layer → Command.Picture → String → Prop} {steps : List Stage}
    (captions : ∀ layer ∈ layers, IsCaption layer)
    (hspans : ∀ layer ∈ layers, Command.spans long.duration layer = true →
      Command.spans short.duration layer = true)
    (painted : List.Forall₂ (Command.IsPaintedBy long options ready) layers steps) :
    ∃ drawn, steps.map Stage.filters = drawn.map (fun filter ↦ [filter])
      ∧ List.zipWith (alone long.duration) layers drawn = drawn
      ∧ drawingFilters short options.defaultStyle layers
        = .ok (List.zipWith (alone short.duration) layers drawn) := by
  rw [drawingFilters]
  induction painted with
  | nil => exact ⟨[], rfl, rfl, rfl⟩
  | @cons layer step layers steps hpainted _ ih =>
    rw [List.forall_mem_cons] at captions hspans
    obtain ⟨drawn, hdrawn, hlong, hfilters⟩ := ih captions.2 hspans.2
    obtain ⟨caption, hcontent⟩ := captions.1.content
    obtain ⟨length, hlength, -⟩ := captions.1.length
    have hended : layer.duration.isSome = true := by rw [hlength, Option.isSome_some]
    cases hpainted with
    | picture content _ _ _ _ _ =>
      rw [hcontent] at content
      cases content
    | effect content _ _ =>
      rw [hcontent] at content
      cases content
    | @text drawing current filter content inputs built name filters =>
      have hshort := Command.textFilter_unset hended hspans.1 built
      have hfilter : alone long.duration layer filter = filter := by
        rw [alone]
        split
        · exact Command.unset_textFilter_of_spans ‹_› built
        · rfl
      refine ⟨filter :: drawn, by rw [List.map_cons, List.map_cons, filters, hdrawn],
        by rw [List.zipWith_cons_cons, hfilter, hlong], ?_⟩
      rw [List.filterMapM_cons, content]
      dsimp only
      rw [hshort]
      refine bind_eq_ok.mpr ⟨_, rfl, ?_⟩
      rw [hfilters]
      rfl

omit [Rounding] in
theorem isSeen_of_isCaption (captions : ∀ layer ∈ layers, IsCaption layer) :
    layers.filter (fun layer ↦ Command.isSeen layer.content) = layers := by
  refine List.filter_eq_self.mpr fun layer hlayer ↦ ?_
  obtain ⟨caption, hcontent⟩ := (captions layer hlayer).content
  rw [hcontent]
  rfl

/-- How long captions last with the options of a timeline, where they are all there is. -/
def captionLength (timeline : Timeline) (layers : List Layer) : Quantity :=
  Timeline.duration { layers, options := timeline.options }

/-- Where a timeline with the captions on it is no longer than the captions, a caption spans it that
spans the captions. -/
theorem alone_congr (captions : ∀ layer ∈ layers, IsCaption layer)
    (total : ∀ q, Rounding.round q ≠ .undefined)
    (hlength : (timeline.append layers).duration.le (captionLength timeline layers) = true)
    {layer : Layer} (hlayer : layer ∈ layers) :
    alone (captionLength timeline layers) layer = alone (timeline.append layers).duration layer := by
  have hspans : Command.spans (captionLength timeline layers) layer
      = Command.spans (timeline.append layers).duration layer := by
    refine Bool.eq_iff_iff.mpr ⟨fun h ↦ ?_, spans_of_append captions total hlayer⟩
    obtain ⟨stop, hstop, -⟩ := (captions layer hlayer).countedEnd total
    rw [Command.spans, Bool.and_eq_true, (captions layer hlayer).endTime, hstop] at h ⊢
    exact ⟨h.1, Quantity.le_trans hlength h.2⟩
  funext filter
  rw [alone, alone, hspans]

/-- The chain of the captions alone against the graph of the timeline with the captions on it.  On
the way of the canvas the captions come last, with one filter each; the chain has these filters in
their order, without the windows of the captions that span all captions.  Where the timeline is no
longer than the captions, the chain has just these filters. -/
structure IsDrawnAlone (set : TrackSet) (timeline : Timeline) (languages : Json)
    (applied : Timeline) (compiled : Command.Compiled) (canvas : Command.Canvas) (source : Stage)
    (steps finish : List Stage) (layers : List Layer) (drawn : List Filter) : Prop where
  made : set.layers languages = .ok layers
  paints : Command.PaintsInOrder applied compiled canvas source steps finish
  filters : (steps.drop (Command.seenLayers timeline).length).map Stage.filters =
    drawn.map fun filter ↦ [filter]
  chain : set.filterChain languages timeline = .ok (",".intercalate
    ((List.zipWith (alone (captionLength timeline layers)) layers drawn).map Filter.render))
  same : applied.duration.le (captionLength timeline layers) = true →
    set.filterChain languages timeline = .ok (",".intercalate (drawn.map Filter.render))

theorem exists_drawnAlone (total : ∀ q, Rounding.round q ≠ .undefined) {applied : Timeline}
    {compiled : Command.Compiled} (happlied : set.applyTo timeline languages = .ok applied)
    (hcompiled : Command.compile applied = .ok compiled) :
    ∃ canvas source steps finish layers drawn, IsDrawnAlone set timeline languages applied compiled
      canvas source steps finish layers drawn := by
  obtain ⟨layers, hlayers, happlied⟩ := bind_eq_ok.mp happlied
  cases pure_eq_ok.mp happlied
  have captions := layers_isCaption hlayers
  obtain ⟨parts⟩ := Command.compile_parts hcompiled
  obtain ⟨source, steps, finish, paints⟩ := parts.paintsInOrder
  have hseen : Command.seenLayers (timeline.append layers) = Command.seenLayers timeline ++ layers := by
    show List.filter _ (timeline.layers ++ layers) = _
    rw [List.filter_append, isSeen_of_isCaption captions]
    rfl
  have hpainted := List.forall₂_drop (Command.seenLayers timeline).length paints.painted
  rw [hseen, List.drop_left] at hpainted
  obtain ⟨⟨width, height⟩, hsize, hcanvas⟩ := bind_eq_ok.mp parts.canvas_eq
  have hlong : parts.canvas.duration = (timeline.append layers).duration := by
    rw [← pure_eq_ok.mp hcanvas]
  let short : Command.Canvas :=
    { width, height, fps := timeline.options.fps, duration := captionLength timeline layers }
  have hshort : Command.canvasOf { layers, options := timeline.options } = .ok short :=
    bind_eq_ok.mpr ⟨(width, height), hsize, rfl⟩
  have hspans : ∀ layer ∈ layers, Command.spans parts.canvas.duration layer = true →
      Command.spans short.duration layer = true := fun layer hlayer h ↦
    spans_of_append captions total hlayer (hlong ▸ h)
  obtain ⟨drawn, hdrawn, hunchanged, hfilters⟩ := drawingFilters_of_painted captions hspans hpainted
  have hchain : set.filterChain languages timeline = .ok (",".intercalate
      ((List.zipWith (alone (captionLength timeline layers)) layers drawn).map Filter.render)) :=
    bind_eq_ok.mpr ⟨layers, hlayers, bind_eq_ok.mpr ⟨short, hshort,
      bind_eq_ok.mpr ⟨_, hfilters, rfl⟩⟩⟩
  refine ⟨parts.canvas, source, steps, finish, layers, drawn, hlayers, paints, hdrawn, hchain,
    fun hlength ↦ ?_⟩
  have hsame : List.zipWith (alone (captionLength timeline layers)) layers drawn = drawn := by
    rw [hlong] at hunchanged
    refine Eq.trans (List.ext_getElem (by simp) fun place hleft hright ↦ ?_) hunchanged
    rw [List.getElem_zipWith, List.getElem_zipWith,
      alone_congr captions total hlength (List.getElem_mem _)]
  rw [hchain, hsame]

omit [Rounding] in
/-- **Captions are drawn alone as on a timeline**, by the same filters and in the same order, with or
without their windows. -/
theorem applyTo_drawnAlone {set : TrackSet} {timeline applied : Timeline} {languages : Json}
    {compiled : Command.Compiled}
    (happlied : @applyTo .binary64 set timeline languages = .ok applied)
    (hcompiled : @Command.compile .binary64 applied = .ok compiled) :
    ∃ canvas source steps finish layers drawn, @IsDrawnAlone .binary64 set timeline languages applied
      compiled canvas source steps finish layers drawn :=
  @exists_drawnAlone .binary64 set timeline languages binary64_ne_undefined applied compiled happlied
    hcompiled

/-- What a call gives to add a greeting from the beginning until a time. -/
def greetingUntil (stop : Rat) : List (String × Json) := [
  ("text", .str "Hi"), ("start_time", .quantity (.finite 0)), ("end_time", .quantity (.finite stop))]

/-- A greeting in the first two seconds. -/
def greeting : TrackSet :=
  let _ : Rounding := .binary64
  ((({} : TrackSet).create (.str "en") []).1.add "en" (greetingUntil 2)).1

/-- A video that lasts for half a minute. -/
def longClip : Timeline where
  layers := [{ content := .video { source := ⟨"clip.mp4", none, none⟩ } }]

omit [Rounding] in
theorem greeting_drawnAlone : ∃ applied compiled,
    @applyTo .binary64 greeting longClip .null = .ok applied
      ∧ @Command.compile .binary64 applied = .ok compiled
      ∧ ∃ canvas source steps finish layers drawn, @IsDrawnAlone .binary64 greeting longClip .null
        applied compiled canvas source steps finish layers drawn := by
  have hok : (do @Command.compile .binary64 (← @applyTo .binary64 greeting longClip .null) :
      Except Error Command.Compiled).toOption.isSome = true := by decide +kernel
  obtain ⟨compiled, hboth⟩ := Option.isSome_iff_exists.mp hok
  obtain ⟨applied, happlied, hcompiled⟩ := bind_eq_ok.mp (toOption_eq_some.mp hboth)
  exact ⟨applied, compiled, happlied, hcompiled, applyTo_drawnAlone happlied hcompiled⟩

omit [Rounding] in
/-- The text that is drawn on the video has a window, and the same text alone has none. -/
theorem greeting_unlike : ∃ applied compiled chain,
    @applyTo .binary64 greeting longClip .null = .ok applied
      ∧ @Command.compile .binary64 applied = .ok compiled
      ∧ @filterChain .binary64 greeting .null longClip = .ok chain
      ∧ chain ≠ ",".intercalate (((compiled.graph.stages.flatMap Stage.filters).filter
        fun filter ↦ filter.name = "drawtext").map Filter.render) := by
  have hdiffer : (do
      let applied ← @applyTo .binary64 greeting longClip .null
      let compiled ← @Command.compile .binary64 applied
      let chain ← @filterChain .binary64 greeting .null longClip
      return decide (chain ≠ ",".intercalate (((compiled.graph.stages.flatMap Stage.filters).filter
        fun filter ↦ filter.name = "drawtext").map Filter.render)) :
      Except Error Bool).toOption = some true := by decide +kernel
  obtain ⟨applied, happlied, h⟩ := bind_eq_ok.mp (toOption_eq_some.mp hdiffer)
  obtain ⟨compiled, hcompiled, h⟩ := bind_eq_ok.mp h
  obtain ⟨chain, hchain, h⟩ := bind_eq_ok.mp h
  exact ⟨applied, compiled, chain, happlied, hcompiled, hchain, of_decide_eq_true (pure_eq_ok.mp h)⟩

end TrackSet
end Montage
