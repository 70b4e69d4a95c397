import Mathlib.Tactic.Linarith
import Montage.Proofs.Timeline.Captions
import Montage.Proofs.Command.Drawn
import Montage.Tracks.Layers

/-!
# The windows of captions on a timeline

There are three ways from a caption with two times to a layer: by the tracks of a set, by captions
in a row, and by subtitles that are burnt into a timeline.  On each of them the layer starts when
the caption does, or at zero if that is later, and lasts as long as the caption would have lasted
(`captions_show_windows`).

A caption that starts before zero is therefore visible for too long: its start is moved and its
length is not, so that it ends later by as much.  Every other caption is visible in its own window.
-/

set_option autoImplicit false

namespace Montage

variable [rounding : Rounding]

/-! ## Windows -/

omit rounding in
/-- The exact value of a number in a document. -/
def Json.value? (value : Json) : Option Rat := value.number?.bind fun n ↦ n.exactly.value?

omit rounding in
/-- The window that a subtitle says, if both its times are finite. -/
def Subtitle.window? (subtitle : Subtitle) : Option (Rat × Rat) := do
  return (← subtitle.start.value?, ← subtitle.stop.value?)

omit rounding in
/-- The window that a caption in a row says, if it says two finite times and no length. -/
def Timeline.captionWindow? : Json → Option (Rat × Rat)
  | .obj members =>
    match (Json.lookup? "duration" members).getD .null with
    | .null => do
      return (← (eitherMember members "start_time" "startTime").value?,
        ← (eitherMember members "end_time" "endTime").value?)
    | _ => none
  | _ => none

namespace Layer

/-- At zero and later, a layer is visible from a start until before a stop. -/
def IsVisibleBetween (start stop : Rat) (layer : Layer) : Prop :=
  ∀ (length : Quantity) (t : Rat), 0 ≤ t →
    (layer.isVisible length (.finite t) = true ↔ start ≤ t ∧ t < stop)

/-- A layer made from a caption is visible from the start of the caption, or from zero, for as long
as the caption lasts; that is the window of the caption just if it does not start before zero, or is
empty. -/
structure Shows (start stop : Rat) (layer : Layer) : Prop where
  visible : layer.IsVisibleBetween (max 0 start) (max 0 start + (stop - start))
  kept : layer.IsVisibleBetween start stop ↔ 0 ≤ start ∨ start = stop

/-- The layer shows the window that a caption says, if it says one that does not end before it
starts. -/
def ShowsWindow (window : Option (Rat × Rat)) (layer : Layer) : Prop :=
  ∀ start stop, window = some (start, stop) → start ≤ stop → layer.Shows start stop

theorem isVisible_iff {layer : Layer} {start stop : Rat} {last : Quantity}
    (hstart : layer.startTime = .finite start) (hlast : layer.endTime = some last)
    (hstop : last.value? = some stop) : layer.IsVisibleBetween start stop := by
  intro length t _
  rw [isVisible, hstart, hlast, Option.getD_some, Bool.and_eq_true,
    Quantity.le_iff_value? rfl rfl, Quantity.lt_iff_value? rfl hstop]

/-- **A window that is moved to zero and not shortened is another one**, unless it is empty. -/
theorem IsVisibleBetween.kept_iff {layer : Layer} {start stop : Rat} (hle : start ≤ stop)
    (h : layer.IsVisibleBetween (max 0 start) (max 0 start + (stop - start))) :
    layer.IsVisibleBetween start stop ↔ 0 ≤ start ∨ start = stop := by
  constructor
  · intro hown
    by_contra hmoved
    obtain ⟨hneg, hne⟩ := not_or.mp hmoved
    have hlt : start < stop := lt_of_le_of_ne hle hne
    have hneg : start < 0 := not_le.mp hneg
    rw [max_eq_left hneg.le, zero_add] at h
    -- The moment at which the caption has just ended, or zero: the layer is visible still.
    have hlate := (h (.finite 0) (max 0 stop) (le_max_left 0 stop)).mpr
      ⟨le_max_left 0 stop, max_lt (sub_pos.mpr hlt) (by linarith)⟩
    have hover := ((hown (.finite 0) (max 0 stop) (le_max_left 0 stop)).mp hlate).2
    exact absurd hover (not_lt.mpr (le_max_right 0 stop))
  · rintro (hstart | rfl)
    · rwa [max_eq_right hstart, add_sub_cancel] at h
    · intro length t ht
      rw [h length t ht, sub_self, add_zero]
      constructor
      · rintro ⟨hge, hlt⟩
        exact absurd hlt (not_lt.mpr hge)
      · rintro ⟨hge, hlt⟩
        exact absurd hlt (not_lt.mpr hge)

theorem shows_of_times {layer : Layer} {start stop : Rat} {length : Quantity} (hle : start ≤ stop)
    (exact : rounding.IsExact) (hstart : layer.startTime = .finite (max 0 start))
    (hduration : layer.duration = some length) (hlength : length.value? = some (stop - start)) :
    layer.Shows start stop := by
  have hend : layer.endTime = some (layer.startTime.add length) := by
    rw [endTime, hduration, Option.map_some]
  have hvisible := isVisible_iff hstart hend
    (Quantity.value?_add exact (by rw [hstart]; rfl) hlength)
  exact ⟨hvisible, hvisible.kept_iff hle⟩

end Layer

/-! ## Times of captions -/

section

variable (exact : rounding.IsExact)

include exact

theorem Number.sub_of_value? {a b : Number} {q r : Rat} (ha : a.exactly.value? = some q)
    (hb : b.exactly.value? = some r) : ∃ c, a.sub b = .ok c ∧ c.exactly.value? = some (q - r) := by
  cases a with
  | whole m =>
    cases ha
    cases b with
    | whole n =>
      cases hb
      refine ⟨.whole (m - n), rfl, ?_⟩
      show some (((m - n : Int) : Rat)) = _
      rw [Rat.intCast_sub]
    | real y =>
      refine ⟨.real (Quantity.sub (.finite m) y), ?_, Quantity.value?_sub exact rfl hb⟩
      show ((Number.whole m).toQuantity >>= _) = _
      rw [toQuantity_whole exact]
      rfl
  | real x =>
    cases b with
    | whole n =>
      cases hb
      refine ⟨.real (x.sub (.finite n)), ?_, Quantity.value?_sub exact ha rfl⟩
      show ((Number.whole n).toQuantity >>= _) = _
      rw [toQuantity_whole exact]
      rfl
    | real y => exact ⟨.real (x.sub y), rfl, Quantity.value?_sub exact ha hb⟩

namespace Json

theorem sub_of_value? {a b : Json} {q r : Rat} (ha : a.value? = some q) (hb : b.value? = some r) :
    ∃ c, a.sub b = .ok c ∧ c.value? = some (q - r) := by
  obtain ⟨m, hm, ha⟩ := Option.bind_eq_some_iff.mp ha
  obtain ⟨n, hn, hb⟩ := Option.bind_eq_some_iff.mp hb
  obtain ⟨c, hsub, hc⟩ := Number.sub_of_value? exact ha hb
  refine ⟨.num c, ?_, hc⟩
  rw [sub, number, hm, number, hn]
  show (m.sub n >>= _) = _
  rw [hsub]
  rfl

/-- A value that is a number is read as a quantity of its value. -/
theorem quantity_of_value? {value : Json} {q : Rat} (h : value.value? = some q) :
    ∃ x, Decoder.quantity value = .ok x ∧ x.value? = some q := by
  obtain ⟨n, hn, h⟩ := Option.bind_eq_some_iff.mp h
  cases value with
  | bool b =>
    cases hn
    refine ⟨.finite (if b then 1 else 0), rfl, ?_⟩
    cases b <;> exact h
  | num n =>
    cases hn
    cases n with
    | whole n =>
      refine ⟨.finite n, ?_, h⟩
      rw [Decoder.quantity, Number.toQuantity_whole exact]
    | real x => exact ⟨x, rfl, h⟩
  | _ => cases hn

end Json

/-- A layer has the times that its start and its length are read from. -/
theorem Layer.times_of_read {layer : Layer} {first length : Json} {start span : Rat}
    (hread : decodeStart first = .ok layer.startTime) (hfirst : first.value? = some start)
    (hspan : Decoder.optional decodeLength length = .ok layer.duration)
    (hlength : length.value? = some span) :
    layer.startTime = .finite (max 0 start) ∧
      ∃ d, layer.duration = some d ∧ d.value? = some span := by
  obtain ⟨x, hx, hxvalue⟩ := Json.quantity_of_value? exact hfirst
  obtain ⟨d, hd, hdvalue⟩ := Json.quantity_of_value? exact hlength
  have hfinite : x.isFinite = true := Quantity.isFinite_iff.mpr ⟨start, hxvalue⟩
  have hbegin : decodeStart first = .ok (.finite (max 0 start)) := by
    rw [decodeStart, Decoder.such_of_ok hx hfinite, ← clampStart_of_value? hxvalue]
    rfl
  have hnull : length ≠ .null := by
    rintro rfl
    cases hlength
  obtain ⟨span, hspan, hduration⟩ := Decoder.exists_of_optional hnull hspan
  cases hd.symm.trans (Checked.require_eq_ok.mp hspan).1
  exact ⟨Checked.ok.inj (hread.symm.trans hbegin), d, hduration, hdvalue⟩

/-- **A layer shows the window that its start and its length are read from.** -/
theorem Layer.shows_of_read {layer : Layer} {first length : Json} {start stop : Rat}
    (hread : decodeStart first = .ok layer.startTime) (hfirst : first.value? = some start)
    (hspan : Decoder.optional decodeLength length = .ok layer.duration)
    (hlength : length.value? = some (stop - start)) (hle : start ≤ stop) :
    layer.Shows start stop := by
  obtain ⟨hstart, d, hduration, hdvalue⟩ := times_of_read exact hread hfirst hspan hlength
  exact shows_of_times hle exact hstart hduration hdvalue

theorem Timeline.CaptionItem.HasTimes.shows {item : CaptionItem} {layer : Layer}
    (h : item.HasTimes layer) {start stop : Rat} (hstart : item.start.value? = some start)
    (hstop : item.stop.value? = some stop) (hle : start ≤ stop) : layer.Shows start stop := by
  obtain ⟨hread, length, hsub, hspan⟩ := h
  obtain ⟨difference, hdifference, hlength⟩ := Json.sub_of_value? exact hstop hstart
  cases hsub.symm.trans hdifference
  exact Layer.shows_of_read exact hread hstart hspan hlength hle

end

/-! ## Three ways to a layer -/

/-- A caption in a row that says the text and the times of a subtitle. -/
def Timeline.captionDocument (subtitle : Subtitle) : Json := .obj [("text", .str subtitle.text),
  ("start_time", .quantity subtitle.start), ("end_time", .quantity subtitle.stop)]

section

variable (exact : rounding.IsExact)

include exact

namespace Timeline

/-! ### Captions in a row -/

omit exact in
/-- A caption says a window: it has the two times, and no length. -/
def CaptionItem.Says (item : CaptionItem) (window : Option (Rat × Rat)) : Prop :=
  ∀ start stop, window = some (start, stop) →
    item.IsTimed ∧ item.start.value? = some start ∧ item.stop.value? = some stop

/-- **Captions in a row show the windows that they say.** -/
theorem captionLayers_show {batch : CaptionBatch} {place : Nat} {cursor : Json}
    {items : List (Except Error CaptionItem)} {windows : List (Option (Rat × Rat))}
    (hitems : List.Forall₂ (fun item window ↦ ∀ made, item = .ok made → made.Says window) items
      windows)
    {layers : List Layer} (h : captionLayers batch place cursor items = .ok layers) :
    List.Forall₂ Layer.ShowsWindow windows layers := by
  have hlayers := captionLayers_eq_ok h
  clear h
  induction hitems generalizing layers with
  | nil =>
    cases hlayers
    exact .nil
  | cons hitem _ ih =>
    cases hlayers with
    | cons hlayer hrest =>
      obtain ⟨made, hmade, htimes⟩ := hlayer
      refine .cons (fun start stop hwindow hle ↦ ?_) (ih hrest)
      obtain ⟨timed, hstart, hstop⟩ := hitem made hmade start stop hwindow
      exact (htimes timed).shows exact hstart hstop hle

omit exact rounding in
theorem value?_ne_null {value : Json} {q : Rat} (h : value.value? = some q) : value ≠ .null := by
  rintro rfl
  cases h

omit exact in
theorem captionItem_says {position transition transitionDuration value : Json} {item : CaptionItem}
    (h : captionItem position transition transitionDuration value = .ok item) :
    item.Says (captionWindow? value) := by
  intro start stop hwindow
  cases value with
  | obj members =>
    cases h
    rw [captionWindow?] at hwindow
    split at hwindow
    · rename_i hduration
      obtain ⟨first, hfirst, hwindow⟩ := Option.bind_eq_some_iff.mp hwindow
      obtain ⟨last, hlast, hwindow⟩ := Option.bind_eq_some_iff.mp hwindow
      cases hwindow
      exact ⟨⟨value?_ne_null hfirst, hduration, value?_ne_null hlast⟩, hfirst, hlast⟩
    · cases hwindow
  | _ => cases hwindow

theorem addCaptions_show {timeline next : Timeline} {given : List (String × Json)}
    {captions : List Json} (hcaptions : Json.lookup? "captions" given = some (.arr captions))
    (h : timeline.addCaptions given = .ok next) :
    ∃ layers, next = timeline.append layers ∧
      List.Forall₂ Layer.ShowsWindow (captions.map captionWindow?) layers := by
  obtain ⟨request, hrequest, h⟩ := bind_eq_ok.mp h
  obtain ⟨style, -, h⟩ := bind_eq_ok.mp h
  obtain ⟨items, hitems, h⟩ := bind_eq_ok.mp h
  obtain ⟨layers, hlayers, h⟩ := bind_eq_ok.mp h
  cases pure_eq_ok.mp h
  have hget : request.get "captions" = .arr captions := by
    rw [Request.get_of_complete hrequest rfl, Parameter.value?]
    show ((Json.lookup? "captions" given).or _).getD .null = _
    rw [hcaptions]
    rfl
  rw [hget] at hitems
  cases hitems
  refine ⟨layers, rfl, captionLayers_show exact ?_ hlayers⟩
  rw [List.forall₂_map_left_iff, List.forall₂_map_right_iff]
  exact List.forall₂_same.mpr fun value _ made hmade ↦ captionItem_says hmade

theorem addCaptions_timed (timeline : Timeline) {subtitles : List Subtitle}
    (h : ∀ s ∈ subtitles, s.IsForward) :
    ∃ next, timeline.addCaptions [("captions", .arr (subtitles.map captionDocument))]
      = .ok next := by
  let fade : Animation := { motion := .fade }
  let plain (s : Subtitle) : Subtitle := { text := s.text, start := s.start, stop := s.stop }
  let usual : CaptionBatch := {
    style := none, startDelay := zeroDelay, overlap := usualOverlap, wordsPerMinute := usualSpeed }
  have hitems : (subtitles.map captionDocument).map
      (captionItem (.str "bottom") (.str "fade") Animation.defaultDuration)
      = (subtitles.map plain).map fun s ↦ .ok (timedItem (some .bottom) (some fade) s) := by
    rw [List.map_map, List.map_map]
    refine List.map_congr_left fun s _ ↦ congrArg Except.ok ?_
    show CaptionItem.mk _ _ _ _ (Layer.givenPosition (.str "bottom")) _
      (Layer.givenAnimation (.str "fade") Animation.defaultDuration) = _
    rw [Layer.givenPosition_bottom exact, Layer.givenAnimation_fade]
    rfl
  have htimes : ∀ s ∈ subtitles.map plain, s.IsForward :=
    List.forall_mem_map.mpr fun s hs ↦ ⟨(h s hs).start, (h s hs).stop, (h s hs).ordered⟩
  have hlayers : captionLayers usual 0 zeroDelay
      ((subtitles.map plain).map fun s ↦ .ok (timedItem (some .bottom) (some fade) s)) = _ :=
    captionLayers_timed exact rfl rfl (some .bottom) (some fade) htimes 0 zeroDelay
  refine ⟨timeline.append ((subtitles.map plain).map (timedLayer (some .bottom) (some fade))), ?_⟩
  show (captionLayers usual 0 zeroDelay ((subtitles.map captionDocument).map
      (captionItem (.str "bottom") (.str "fade") Animation.defaultDuration)) >>= _) = _
  rw [hitems, hlayers]
  rfl

/-! ### Subtitles on a timeline -/

theorem burn_show {timeline next : Timeline} {subtitles : List Subtitle} {burning : Burning}
    (h : timeline.burn subtitles burning = .ok next) :
    ∃ layers, next = timeline.append layers ∧
      List.Forall₂ Layer.ShowsWindow ((Subtitle.sorted subtitles).map Subtitle.window?) layers := by
  obtain ⟨style, -, h⟩ := bind_eq_ok.mp h
  obtain ⟨layers, hlayers, h⟩ := bind_eq_ok.mp h
  cases pure_eq_ok.mp h
  refine ⟨layers, rfl, captionLayers_show exact ?_ hlayers⟩
  rw [List.forall₂_map_left_iff, List.forall₂_map_right_iff]
  refine List.forall₂_same.mpr fun subtitle _ made hmade start stop hwindow ↦ ?_
  cases hmade
  obtain ⟨first, hfirst, hwindow⟩ := Option.bind_eq_some_iff.mp hwindow
  obtain ⟨last, hlast, hwindow⟩ := Option.bind_eq_some_iff.mp hwindow
  cases hwindow
  exact ⟨⟨by rintro ⟨⟩, rfl, by rintro ⟨⟩⟩, hfirst, hlast⟩

end Timeline

/-! ### Tracks -/

namespace TrackSet

variable {set : TrackSet} {track : Track} {subtitle : Subtitle}

/-- The length of a subtitle whose times are in order is the difference of these. -/
theorem value?_length {start stop : Rat} (hstart : subtitle.start.value? = some start)
    (hstop : subtitle.stop.value? = some stop) :
    Quantity.max (.finite 0) subtitle.length = .finite (max 0 (stop - start)) :=
  Layer.clampStart_of_value? (Quantity.value?_sub exact hstop hstart)

/-- A layer of a track shows the window of its subtitle. -/
theorem layerOf_shows {layer : Layer} (h : set.layerOf track subtitle = .ok layer) :
    layer.ShowsWindow subtitle.window? := by
  intro start stop hwindow hle
  obtain ⟨first, hstart, hwindow⟩ := Option.bind_eq_some_iff.mp hwindow
  obtain ⟨last, hstop, hwindow⟩ := Option.bind_eq_some_iff.mp hwindow
  cases hwindow
  obtain ⟨position, -, h⟩ := bind_eq_ok.mp h
  obtain ⟨hread, hspan⟩ := Layer.assemble_eq_ok rfl rfl (Checked.toExcept_eq_ok.mp h)
  have hlength := value?_length exact hstart hstop
  rw [max_eq_right (sub_nonneg.mpr hle)] at hlength
  refine Layer.shows_of_read exact hread hstart hspan ?_ hle
  rw [hlength]
  rfl

theorem exists_layerOf (set : TrackSet) (track : Track) (h : subtitle.window?.isSome = true) :
    ∃ layer, set.layerOf track subtitle = .ok layer := by
  obtain ⟨window, hwindow⟩ := Option.isSome_iff_exists.mp h
  obtain ⟨start, hstart, hwindow⟩ := Option.bind_eq_some_iff.mp hwindow
  obtain ⟨stop, hstop, hwindow⟩ := Option.bind_eq_some_iff.mp hwindow
  obtain ⟨position, hposition⟩ : ∃ position, placeOf track subtitle = .ok position := by
    rw [placeOf]
    split
    · exact ⟨_, rfl⟩
    · exact ⟨_, Position.preset_bottom exact⟩
  have hlasting : Layer.isLength (Quantity.max (.finite 0) subtitle.length) = true := by
    rw [value?_length exact hstart hstop, Layer.isLength, Bool.and_eq_true, Bool.not_eq_true',
      ← Bool.not_eq_true, Quantity.lt_iff_value? rfl rfl]
    exact ⟨rfl, not_lt.mpr (le_max_left _ _)⟩
  rw [layerOf, hposition]
  exact ⟨_, Checked.toExcept_eq_ok.mpr
    (Layer.assemble_ok rfl rfl (Quantity.isFinite_iff.mpr ⟨_, hstart⟩) hlasting)⟩

theorem flatten_show {tracks : List Track} {perTrack : List (List Layer)}
    (h : List.Forall₂ (fun track layers ↦ track.entries.mapM (set.layerOf track) = .ok layers)
      tracks perTrack) :
    List.Forall₂ Layer.ShowsWindow ((tracks.flatMap Track.entries).map Subtitle.window?)
      perTrack.flatten := by
  induction h with
  | nil => exact .nil
  | cons htrack _ ih =>
    rw [List.flatMap_cons, List.map_append, List.flatten_cons]
    refine List.rel_append ?_ ih
    rw [List.forall₂_map_left_iff]
    exact (forall₂_of_mapM htrack).imp fun _ _ ↦ layerOf_shows exact

/-- The layers of tracks show the windows of their subtitles. -/
theorem layers_show {languages : Json} {wanted : Option (List Json)} {layers : List Layer}
    (hwanted : wantedLanguages languages = .ok wanted) (h : set.layers languages = .ok layers) :
    List.Forall₂ Layer.ShowsWindow (((set.shownTracks wanted).reverse.flatMap Track.entries).map
      Subtitle.window?) layers := by
  obtain ⟨_, hshown, h⟩ := bind_eq_ok.mp h
  cases hwanted.symm.trans hshown
  obtain ⟨perTrack, hperTrack, h⟩ := bind_eq_ok.mp h
  cases pure_eq_ok.mp h
  exact flatten_show exact (forall₂_of_mapM hperTrack)

theorem exists_layers {languages : Json} {wanted : Option (List Json)}
    (hwanted : wantedLanguages languages = .ok wanted)
    (h : ∀ track ∈ set.shownTracks wanted, ∀ subtitle ∈ track.entries,
      subtitle.window?.isSome = true) : ∃ layers, set.layers languages = .ok layers := by
  obtain ⟨perTrack, hperTrack⟩ : ∃ perTrack, (set.shownTracks wanted).reverse.mapM
      (fun track ↦ track.entries.mapM (set.layerOf track)) = .ok perTrack :=
    exists_mapM.mpr fun track htrack ↦ exists_mapM.mpr fun subtitle hsubtitle ↦
      exists_layerOf exact set track (h track (List.mem_reverse.mp htrack) subtitle hsubtitle)
  exact ⟨perTrack.flatten,
    bind_eq_ok.mpr ⟨wanted, hwanted, bind_eq_ok.mpr ⟨perTrack, hperTrack, rfl⟩⟩⟩

end TrackSet

/-- **A caption with two finite times becomes a layer that starts when the caption does, or at zero,
and lasts as long as the caption**, on each of the three ways: by the tracks of a set, by captions
in a row, and by subtitles that are burnt into a timeline.  So the layer is visible in the window of
the caption just if the caption does not start before zero or lasts for no time (`Layer.Shows`).

The tracks become layers if all their subtitles have finite times; captions and subtitles in a row
do if these are in order too and nothing else is said. -/
theorem captions_show_windows :
    (∀ (set : TrackSet) (languages : Json) (wanted : Option (List Json)),
      TrackSet.wantedLanguages languages = .ok wanted →
      (∀ layers, set.layers languages = .ok layers → List.Forall₂ Layer.ShowsWindow
        (((set.shownTracks wanted).reverse.flatMap Track.entries).map Subtitle.window?) layers) ∧
      ((∀ track ∈ set.shownTracks wanted, ∀ subtitle ∈ track.entries,
        subtitle.window?.isSome = true) → ∃ layers, set.layers languages = .ok layers)) ∧
    (∀ (timeline next : Timeline) (given : List (String × Json)) (captions : List Json),
      Json.lookup? "captions" given = some (.arr captions) →
      timeline.addCaptions given = .ok next →
      ∃ layers, next = timeline.append layers ∧
        List.Forall₂ Layer.ShowsWindow (captions.map Timeline.captionWindow?) layers) ∧
    (∀ (timeline next : Timeline) (subtitles : List Subtitle) (burning : Timeline.Burning),
      timeline.burn subtitles burning = .ok next →
      ∃ layers, next = timeline.append layers ∧
        List.Forall₂ Layer.ShowsWindow ((Subtitle.sorted subtitles).map Subtitle.window?) layers) ∧
    (∀ (timeline : Timeline) (subtitles : List Subtitle), (∀ s ∈ subtitles, s.IsForward) →
      (∃ next, timeline.addCaptions
        [("captions", .arr (subtitles.map Timeline.captionDocument))] = .ok next) ∧
      ∃ next, timeline.burn subtitles {} = .ok next) := by
  refine ⟨fun set languages wanted hwanted ↦ ⟨fun layers h ↦ TrackSet.layers_show exact hwanted h,
    fun h ↦ TrackSet.exists_layers exact hwanted h⟩,
    fun timeline next given captions hcaptions h ↦ Timeline.addCaptions_show exact hcaptions h,
    fun timeline next subtitles burning h ↦ Timeline.burn_show exact h,
    fun timeline subtitles forward ↦ ⟨Timeline.addCaptions_timed exact timeline forward, _,
      Timeline.burn_timed exact timeline forward⟩⟩

end

/-- A caption of three seconds, the first of which is before zero. -/
def earlySubtitle : Subtitle := { text := "Hi", start := .finite (-1), stop := .finite 2 }

/-- A track with that caption alone. -/
def earlySet : TrackSet where
  held := [("en", { track := { id := "track_en", language := "en", entries := [earlySubtitle] } })]

omit rounding in
/-- On each way, a caption that starts a second before zero is visible half a second after its
end. -/
theorem earlySubtitle_shown : Rounding.exact.IsExact ∧ earlySubtitle.IsForward ∧
    (∃ layer, @TrackSet.layers .exact earlySet .null = .ok [layer] ∧
      @Layer.isVisible .exact (.finite 3) (.finite (5 / 2)) layer = true) ∧
    (∃ next layer, @Timeline.addCaptions .exact {}
      [("captions", .arr [Timeline.captionDocument earlySubtitle])] = .ok next ∧
      next.layers = [layer] ∧
      @Layer.isVisible .exact (.finite 3) (.finite (5 / 2)) layer = true) ∧
    ∃ next layer, @Timeline.burn .exact {} [earlySubtitle] {} = .ok next ∧ next.layers = [layer] ∧
      @Layer.isVisible .exact (.finite 3) (.finite (5 / 2)) layer = true := by
  let _ : Rounding := .exact
  have exact := Rounding.exact_isExact
  have forward : earlySubtitle.IsForward := ⟨rfl, rfl, by decide +kernel⟩
  have hwindow : earlySubtitle.window? = some (-1, 2) := rfl
  have late : ∀ layers, List.Forall₂ Layer.ShowsWindow [some (-1, 2)] layers →
      ∃ layer, layers = [layer] ∧ layer.isVisible (.finite 3) (.finite (5 / 2)) = true := by
    rintro _ (_ | ⟨hlayer, _ | _⟩)
    have shows := hlayer (-1) 2 rfl (by decide +kernel)
    exact ⟨_, rfl, (shows.visible (.finite 3) (5 / 2) (by decide +kernel)).mpr (by decide +kernel)⟩
  obtain ⟨tracks, captions, burnt, made⟩ := captions_show_windows exact
  obtain ⟨hmade, hburnt⟩ := made {} [earlySubtitle] (List.forall_mem_singleton.mpr forward)
  have htracks : earlySet.shownTracks none
      = [{ id := "track_en", language := "en", entries := [earlySubtitle] }] := by
    simp [TrackSet.shownTracks, TrackSet.ranked, earlySet, TrackSet.isShown, Track.isEnabled,
      Json.isTruthy]
  have hsorted : Subtitle.sorted [earlySubtitle] = [earlySubtitle] := by
    simp [Subtitle.sorted, earlySubtitle]
  obtain ⟨hshow, hexists⟩ := tracks earlySet .null none rfl
  rw [htracks] at hshow hexists
  refine ⟨exact, forward, ?_, ?_, ?_⟩
  · obtain ⟨layers, hlayers⟩ := hexists (by simp [hwindow])
    obtain ⟨layer, rfl, hvisible⟩ := late layers (hshow layers hlayers)
    exact ⟨layer, hlayers, hvisible⟩
  · obtain ⟨next, hnext⟩ := hmade
    obtain ⟨layers, rfl, hlayers⟩ := captions {} next _ _ rfl hnext
    obtain ⟨layer, rfl, hvisible⟩ := late layers hlayers
    exact ⟨_, layer, hnext, rfl, hvisible⟩
  · obtain ⟨next, hnext⟩ := hburnt
    obtain ⟨layers, rfl, hlayers⟩ := burnt {} next _ _ hnext
    rw [hsorted] at hlayers
    obtain ⟨layer, rfl, hvisible⟩ := late layers hlayers
    exact ⟨_, layer, hnext, rfl, hvisible⟩

end Montage
