import Montage.Proofs.Number.Monotone
import Montage.Proofs.Timeline.Captions
import Montage.Proofs.Tracks.Call
import Montage.Proofs.Tracks.Filling

/-!
# The order in which tracks are painted

The layers of the tracks that are shown come track by track (`TrackSet.after_paints`): tracks of
lower priority first, and of two tracks of one priority the one first that is listed last.  Each
subtitle has one layer, and the layers of a track are in the order of its subtitles, whose starts
rise.

That starts rise is so after any calls.  The place of a new subtitle is found with the number that
was given for its start, and what is stored is that number rounded.  Rounding keeps the order
(`Quantity.landed_le`), and leaves starts that have been rounded where they are, so what does not
start after the number does not start after the rounded one.  Where a subtitle has no start, as
after a shift from one infinity to the other, its track has no order, and no layers.
-/

set_option autoImplicit false

namespace Montage

namespace TrackSet

/-! ## The order of tracks -/

theorem priority_trans (a b c : Track) (hab : decide (b.priority ≤ a.priority) = true)
    (hbc : decide (c.priority ≤ b.priority) = true) : decide (c.priority ≤ a.priority) = true :=
  decide_eq_true ((of_decide_eq_true hbc).trans (of_decide_eq_true hab))

theorem priority_total (a b : Track) :
    (decide (b.priority ≤ a.priority) || decide (a.priority ≤ b.priority)) = true := by
  rw [Bool.or_eq_true, decide_eq_true_iff, decide_eq_true_iff]
  exact le_total _ _

theorem ranked_pairwise (set : TrackSet) :
    set.ranked.Pairwise fun a b ↦ b.priority ≤ a.priority :=
  (List.pairwise_mergeSort priority_trans priority_total _).imp fun h ↦ of_decide_eq_true h

/-- Tracks of one priority are listed in the order in which they came in. -/
theorem ranked_filter (set : TrackSet) (priority : Int) :
    (set.ranked.filter fun track ↦ track.priority = priority) =
      (set.held.map fun member ↦ member.2.track).filter fun track ↦ track.priority = priority := by
  let alike (track : Track) : Bool := track.priority = priority
  have hperm := (List.mergeSort_perm (set.held.map fun member ↦ member.2.track)
    fun a b ↦ decide (b.priority ≤ a.priority)).filter alike
  have hpairs : ((set.held.map fun member ↦ member.2.track).filter alike).Pairwise
      fun a b ↦ decide (b.priority ≤ a.priority) = true := by
    refine List.pairwise_of_forall_mem_list fun a ha b hb ↦ ?_
    have hpa := of_decide_eq_true (List.mem_filter.mp ha).2
    have hpb := of_decide_eq_true (List.mem_filter.mp hb).2
    exact decide_eq_true (hpb.trans hpa.symm).le
  have hsub := (List.sublist_mergeSort priority_trans priority_total hpairs
    List.filter_sublist).filter alike
  simp only [List.filter_filter, Bool.and_self] at hsub
  exact (hsub.eq_of_length hperm.length_eq.symm).symm

/-- Lines that are broken do not change the words of a text. -/
theorem wordsOf_layerText (set : TrackSet) (text : String) :
    wordsOf (set.layerText text) = wordsOf text := by
  rw [layerText]
  split
  · exact SyncOptions.wordsOf_brokenText _ _
  · rfl

end TrackSet

variable [rounding : Rounding]

/-! ## Starts that rise -/

/-- A time that rounding leaves where it is, as every time is that has been rounded. -/
def Quantity.IsFixed (x : Quantity) : Prop := ∀ q, x.value? = some q → rounding.round q = .finite q

theorem Quantity.IsFixed.landed_eq {x : Quantity} (h : x.IsFixed) : x.landed = x :=
  landed_of_fixed fun q hq ↦ h q (hq ▸ rfl)

namespace Subtitle

/-- Subtitles rise if each of them has a start that has been rounded. -/
def IsArranged (subtitles : List Subtitle) : Prop :=
  (∀ subtitle ∈ subtitles, subtitle.start ≠ .undefined ∧ subtitle.start.IsFixed) →
    IsRising subtitles

/-- Whether subtitles are arranged is a matter of the starts alone. -/
theorem isArranged_numbered {subtitles : List Subtitle} :
    IsArranged (numbered subtitles) ↔ IsArranged subtitles := by
  have hstarts (xs : List Subtitle) :
      (∀ subtitle ∈ xs, subtitle.start ≠ .undefined ∧ subtitle.start.IsFixed) ↔
        ∀ x ∈ xs.map start, x ≠ .undefined ∧ x.IsFixed := by rw [List.forall_mem_map]
  rw [IsArranged, IsArranged, isRising_numbered, hstarts, hstarts, map_start_numbered]

/-- Subtitles in order are arranged. -/
theorem isArranged_inOrder (subtitles : List Subtitle) : IsArranged (inOrder subtitles) := by
  refine isArranged_numbered.mpr fun settled ↦ sorted_isRising fun subtitle h ↦ ?_
  exact (settled subtitle ((sorted_perm subtitles).mem_iff.mpr h)).1

end Subtitle

namespace TrackSet

/-- What is stored as the start of a subtitle is the number that was given for it, rounded. -/
theorem Draft.start_landed (keeps : rounding.KeepsOrder) {draft : Draft} {id : String}
    {subtitle : Subtitle} (hcheck : draft.checkTimes = .ok ())
    (hmade : draft.subtitle id = .ok subtitle) :
    ∃ n, draft.start.number? = some n ∧ n.exactly ≠ .undefined ∧
      subtitle.start.landed = n.exactly.landed := by
  have hfinite := start_isFinite hcheck hmade
  obtain ⟨-, hstart⟩ := subtitle_eq_ok hmade
  rcases checkTimes_start hcheck with hnull | ⟨n, x, hn, hx, -⟩
  · rw [hnull] at hstart
    cases hstart
  refine ⟨n, hn, ?_⟩
  cases hvalue : draft.start <;> rw [hvalue] at hn hstart
  case num m =>
    cases hn
    have hread : subtitle.start = x := by
      cases n with
      | real y => cases hx; exact (Checked.ok.inj hstart).symm
      | whole k =>
        rw [Decoder.quantity, hx] at hstart
        exact (Checked.ok.inj hstart).symm
    refine ⟨?_, hread ▸ Quantity.landed_of_toQuantity keeps hx⟩
    cases n with
    | real y => cases hx; exact hread ▸ Quantity.ne_undefined_of_isFinite hfinite
    | whole k => exact Quantity.noConfusion
  case bool b =>
    cases hn
    rw [← Checked.ok.inj hstart]
    cases b <;> exact ⟨Quantity.noConfusion, rfl⟩
  all_goals cases hn

/-- A subtitle that is put where its start belongs leaves a track arranged. -/
theorem isArranged_insert (monotone : rounding.IsMonotone) {draft : Draft} {id : String}
    {subtitle : Subtitle} {entries : List Subtitle} (hcheck : draft.checkTimes = .ok ())
    (hmade : draft.subtitle id = .ok subtitle) (arranged : Subtitle.IsArranged entries) :
    Subtitle.IsArranged
      (Subtitle.numbered (insertAt (placeFor draft.start entries) subtitle entries)) := by
  obtain ⟨n, hn, hdefined, hlanded⟩ := Draft.start_landed monotone.toKeepsOrder hcheck hmade
  refine Subtitle.isArranged_numbered.mpr fun settled ↦ ?_
  have hsettled := List.forall_mem_cons.mp fun s hs ↦
    settled s ((perm_insertAt (placeFor draft.start entries) subtitle entries).mem_iff.mpr hs)
  have rising := arranged hsettled.2
  rw [hsettled.1.2.landed_eq] at hlanded
  have split : IsSplit (fun entry ↦ n.lt (.real entry.start)) entries :=
    rising.pairwise.imp fun hle hlt ↦ Quantity.lt_of_lt_of_le hlt hle
  obtain ⟨front, back⟩ := bisect_isPlace split
  have hplace : placeFor draft.start entries =
      bisect (fun entry ↦ n.lt (.real entry.start)) entries 0 entries.length := by
    rw [placeFor, hn]
  rw [← hplace] at front back
  refine ⟨fun s hs ↦ (settled s hs).1,
    pairwise_insertAt rising.pairwise (fun s hs ↦ ?_) fun s hs ↦ ?_⟩
  · have hmem := List.mem_of_mem_take hs
    have hle := Quantity.landed_le monotone
      ((Quantity.lt_eq_false hdefined (rising.defined s hmem)).mp (front s hs))
    rwa [(hsettled.2 s hmem).2.landed_eq, ← hlanded] at hle
  · have hmem := List.mem_of_mem_drop hs
    have hlt : n.exactly.lt s.start = true := back s hs
    have hle := Quantity.landed_le monotone (Quantity.le_of_lt hlt)
    rwa [(hsettled.2 s hmem).2.landed_eq, ← hlanded] at hle

/-- **The subtitles of every track are arranged**, whatever calls are made. -/
theorem isArranged_isLasting (monotone : rounding.IsMonotone) :
    HeldTrack.IsLasting fun _ held ↦ Subtitle.IsArranged held.track.entries where
  created _ hentries _ := hentries ▸ Subtitle.isRising_nil
  enabled _ arranged := arranged
  emptied _ _ := Subtitle.isRising_nil
  issued arranged := arranged
  inserted arranged hcheck hmade := isArranged_insert monotone hcheck hmade arranged
  synchronized := by
    intro language held radius cues _
    rw [Track.synchronized_eq]
    exact Subtitle.isArranged_inOrder _

/-! ## Layers -/

/-- The layer that a subtitle of a track becomes: its times and its look are those of the subtitle,
and its text has the words of the subtitle, in their order. -/
structure IsLayerOf (track : Track) (subtitle : Subtitle) (layer : Layer) : Prop where
  finite : subtitle.start.isFinite = true
  start : layer.startTime = Layer.clampStart subtitle.start
  duration : layer.duration = some (Quantity.max (.finite 0) subtitle.length)
  position : ∃ position, placeOf track subtitle = .ok position ∧ layer.position = some position
  style : layer.style = subtitle.style
  content : ∃ text, wordsOf text = wordsOf subtitle.text ∧ layer.content = .caption {
    text, animation := subtitle.animation, trackStyle := track.defaultStyle
    language := some track.language }

theorem layerOf_eq_ok {set : TrackSet} {track : Track} {subtitle : Subtitle} {layer : Layer}
    (h : set.layerOf track subtitle = .ok layer) : IsLayerOf track subtitle layer := by
  obtain ⟨position, hposition, h⟩ := bind_eq_ok.mp h
  have hlayer := Checked.toExcept_eq_ok.mp h
  obtain ⟨hstart, hduration⟩ := Layer.assemble_eq_ok rfl rfl hlayer
  obtain ⟨hfinite, hstart⟩ := Layer.decodeStart_quantity hstart
  obtain ⟨-, hduration⟩ := Layer.decodeLength_quantity hduration
  have hparts : layer.position = some position ∧ layer.style = subtitle.style ∧
      layer.content = .caption {
        text := set.layerText subtitle.text, animation := subtitle.animation
        trackStyle := track.defaultStyle, language := some track.language } := by
    refine (?_ : Checked.All _ fun layer ↦ layer.position = some position ∧
      layer.style = subtitle.style ∧ layer.content = .caption {
        text := set.layerText subtitle.text, animation := subtitle.animation
        trackStyle := track.defaultStyle, language := some track.language }) layer hlayer
    simp only [Layer.assemble, Checked.all_seq, Checked.all_map]
    intro _ _ _ _ _ hplace _ hlook _ hcontent
    cases hplace
    cases hlook
    cases hcontent
    exact ⟨rfl, rfl, rfl⟩
  exact ⟨hfinite, hstart, hduration, ⟨position, hposition, hparts.1⟩, hparts.2.1,
    _, wordsOf_layerText set subtitle.text, hparts.2.2⟩

/-- The layers of the tracks that are shown: a row for each track, and in it one layer for each
subtitle.  Tracks of lower priority come first, and of the tracks of one priority the one that is
listed last; a track lists its subtitles in the order of their starts. -/
structure Paints (set : TrackSet) (wanted : Option (List Json)) (painted : List Track)
    (rows : List (List Layer)) : Prop where
  shown : painted.Perm ((set.held.map fun member ↦ member.2.track).filter (isShown wanted))
  rising : painted.Pairwise fun a b ↦ a.priority ≤ b.priority
  ties : ∀ priority : Int, (painted.filter fun track ↦ track.priority = priority) =
    ((set.ranked.filter (isShown wanted)).filter fun track ↦ track.priority = priority).reverse
  arrival : ∀ priority : Int, (set.ranked.filter fun track ↦ track.priority = priority) =
    (set.held.map fun member ↦ member.2.track).filter fun track ↦ track.priority = priority
  layers : List.Forall₂ (fun track row ↦ List.Forall₂ (IsLayerOf track) track.entries row)
    painted rows
  starts : ∀ track ∈ painted, (∀ subtitle ∈ track.entries, subtitle.start.IsFixed) →
    track.entries.Pairwise fun a b ↦ a.start.le b.start = true

theorem layers_eq_ok {set : TrackSet} (arranged : set.Holds fun _ held ↦
    Subtitle.IsArranged held.track.entries) {languages : Json} {layers : List Layer}
    (h : set.layers languages = .ok layers) :
    ∃ wanted painted rows, wantedLanguages languages = .ok wanted ∧
      set.Paints wanted painted rows ∧ layers = rows.flatten := by
  obtain ⟨wanted, hwanted, h⟩ := bind_eq_ok.mp h
  obtain ⟨rows, hrows, h⟩ := bind_eq_ok.mp h
  have hshown : (set.shownTracks wanted).reverse.Perm
      ((set.held.map fun member ↦ member.2.track).filter (isShown wanted)) :=
    (List.reverse_perm _).trans ((List.mergeSort_perm _ _).filter _)
  have hlayers : List.Forall₂ (fun track row ↦ List.Forall₂ (IsLayerOf track) track.entries row)
      (set.shownTracks wanted).reverse rows := by
    refine (forall₂_of_mapM hrows).imp fun track row hrow ↦ ?_
    exact (forall₂_of_mapM hrow).imp fun subtitle layer hlayer ↦ layerOf_eq_ok hlayer
  refine ⟨wanted, _, rows, hwanted, ⟨hshown, ?_, fun priority ↦ ?_, set.ranked_filter, hlayers, ?_⟩,
    (pure_eq_ok.mp h).symm⟩
  · exact List.pairwise_reverse.mpr (set.ranked_pairwise.sublist List.filter_sublist)
  · rw [List.filter_reverse, shownTracks]
  · intro track htrack settled
    obtain ⟨member, hmember, rfl⟩ :=
      List.mem_map.mp (List.mem_filter.mp (hshown.mem_iff.mp htrack)).1
    obtain ⟨row, hrow⟩ := exists_mapM.mp ⟨rows, hrows⟩ member.2.track htrack
    refine (arranged.each member hmember fun subtitle hsubtitle ↦ ?_).pairwise
    obtain ⟨layer, hlayer⟩ := exists_mapM.mp ⟨row, hrow⟩ subtitle hsubtitle
    exact ⟨Quantity.ne_undefined_of_isFinite (layerOf_eq_ok hlayer).finite,
      settled subtitle hsubtitle⟩

/-! ## Reachable sets -/

omit rounding in
/-- **Priority is the order of painting**, whatever calls led to the set and whatever languages are
asked for: every track that is shown has a row of layers, one for each subtitle and with its words,
and the rows come by rising priority. -/
theorem after_paints {calls : List Call} {languages : Json} {layers : List Layer}
    (h : @TrackSet.layers .binary64 (@after .binary64 {} calls) languages = .ok layers) :
    ∃ wanted painted rows, wantedLanguages languages = .ok wanted ∧
      @Paints .binary64 (@after .binary64 {} calls) wanted painted rows ∧ layers = rows.flatten := by
  let _ : Rounding := .binary64
  exact layers_eq_ok (after_holds (isArranged_isLasting binary64_isMonotone) empty_holds calls) h

/-- What a call gives to add a text from a time on for a second. -/
def textFrom (text : String) (start : Rat) : List (String × Json) := [
  ("text", .str text), ("start_time", .quantity (.finite start)),
  ("end_time", .quantity (.finite (start + 1)))]

/-- Three tracks, two of them of one priority.  One of those is made twice, which leaves it in its
place; the subtitles of the first track come in backwards. -/
def tiedTracks : TrackSet :=
  let _ : Rounding := .binary64
  after {} [
    .create (.str "en") [("priority", .whole 5)], .create (.str "de") [], .create (.str "fr") [],
    .add "fr" (textFrom "un" 0), .add "de" (textFrom "null" 0), .create (.str "de") [],
    .add "de" (textFrom "eins" 0), .add "en" (textFrom "two" 1), .add "en" (textFrom "one" 0)]

/-- The text of a caption. -/
def captionText (layer : Layer) : String :=
  match layer.content with
  | .caption caption => caption.text
  | _ => ""

omit rounding in
theorem tiedTracks_paints : ∃ layers, @TrackSet.layers .binary64 tiedTracks .null = .ok layers ∧
    layers.map captionText = ["un", "eins", "one", "two"] ∧
    ∃ wanted painted rows, wantedLanguages .null = .ok wanted ∧
      @Paints .binary64 tiedTracks wanted painted rows ∧ layers = rows.flatten := by
  have hfalling : (tiedTracks.held.map fun member ↦ member.2.track).Pairwise
      fun a b ↦ decide (b.priority ≤ a.priority) = true := by decide +kernel
  have hranked : tiedTracks.shownTracks none =
      (tiedTracks.held.map fun member ↦ member.2.track).filter (isShown none) :=
    congrArg (List.filter _) (List.mergeSort_of_pairwise hfalling)
  have hlayers : @TrackSet.layers .binary64 tiedTracks .null =
      (do return (← (tiedTracks.shownTracks none).reverse.mapM fun track ↦
        track.entries.mapM (@layerOf .binary64 tiedTracks track)).flatten) := rfl
  have hok : (@TrackSet.layers .binary64 tiedTracks .null).toOption.map (List.map captionText) =
      some ["un", "eins", "one", "two"] := by
    rw [hlayers, hranked]
    decide +kernel
  obtain ⟨layers, hlayers, htexts⟩ := Option.map_eq_some_iff.mp hok
  have h := toOption_eq_some.mp hlayers
  exact ⟨layers, h, htexts, after_paints h⟩

end TrackSet
end Montage
