import Mathlib.Tactic.Linarith
import Montage.Proofs.Number.Exact
import Montage.Proofs.Tracks.Cues
import Montage.Proofs.Tracks.Kept

/-!
# Following the sound

Where times are exact, a subtitle starts at the value of its nearest cue, or stays where no cue is
within the radius (`Subtitle.landing`).  Landings are in the order of the starts: the earlier one of
two subtitles does not go to the later one of two cues, since it would have to lie behind their midpoint
and the other subtitle in front of it, and where one of the two stays, the other one reaches no cue
beyond it.  So the order of a track is left as it is.

A subtitle that has landed is at no distance from a cue, and so it stays there when the sound is
followed again.
-/

set_option autoImplicit false

namespace Montage

/-! ## Midpoints -/

section

variable {early late x : Rat}

/-- What is nearer to the later one of two values lies behind their midpoint. -/
theorem midpoint_le (horder : early < late) (h : |late - x| ≤ |early - x|) : early + late ≤ 2 * x := by
  have hlate := le_abs_self (late - x)
  rcases abs_cases (early - x) with ⟨hearly, -⟩ | ⟨hearly, -⟩ <;> linarith

/-- What is nearer to the earlier one of two values lies in front of their midpoint. -/
theorem le_midpoint (horder : early < late) (h : |early - x| ≤ |late - x|) : 2 * x ≤ early + late := by
  have hearly := neg_le_abs (early - x)
  rcases abs_cases (late - x) with ⟨hlate, -⟩ | ⟨hlate, -⟩ <;> linarith

end

variable [rounding : Rounding]

namespace Subtitle

/-- The nearest cues are not at the start. -/
def IsDrawn (radius : Quantity) (cues : List Cue) (subtitle : Subtitle) : Prop :=
  ∃ cue ∈ cues, subtitle.IsNearest radius cues cue ∧ cue.time.eq subtitle.start = false

instance (radius : Quantity) (cues : List Cue) (subtitle : Subtitle) :
    Decidable (subtitle.IsDrawn radius cues) :=
  inferInstanceAs (Decidable (∃ cue ∈ cues, _))

/-- What following the sound does to a subtitle: where its nearest cues are not at its start, it moves
to one of them, and else it stays.  Its length and all that is not a time are kept. -/
structure IsSynchronized (radius : Quantity) (cues : List Cue) (before after : Subtitle) : Prop where
  kept : after = { before with start := after.start, stop := after.stop }
  length : after.length.eq before.length = true
  drawn : before.IsDrawn radius cues → ∃ cue, before.IsNearest radius cues cue ∧
    cue.time.eq before.start = false ∧ after.start.eq cue.time = true
  rest : ¬ before.IsDrawn radius cues → after = before

/-- The value at which a subtitle starts when it has followed the sound. -/
def landing (radius : Quantity) (cues : List Cue) (subtitle : Subtitle) : Rat :=
  match subtitle.nearestCue radius cues with
  | none => subtitle.start.value
  | some cue => cue.time.value

variable {radius : Quantity} {cues : List Cue} {subtitle other : Subtitle} {cue : Cue}

/-- A subtitle has landed if its nearest cue, where there is one, is at its start. -/
def IsLanded (radius : Quantity) (cues : List Cue) (subtitle : Subtitle) : Prop :=
  ∀ cue, subtitle.nearestCue radius cues = some cue → cue.time.eq subtitle.start = true

theorem IsLanded.moved_eq (h : subtitle.IsLanded radius cues) :
    subtitle.moved radius cues = (subtitle, false) := by
  rw [moved]
  split
  · rfl
  · rename_i cue hcue
    rw [if_pos (h cue hcue)]

section

variable (exact : rounding.IsExact) (htimes : ∀ cue ∈ cues, cue.time.isFinite = true)

include exact

/-! ## Distances -/

theorem distance_eq (hcue : cue.time.isFinite = true) (hstart : subtitle.start.isFinite = true) :
    cue.distance subtitle = .finite |cue.time.value - subtitle.start.value| :=
  Quantity.abs_of_value? (Quantity.value?_sub exact (Quantity.value?_of_isFinite hcue)
    (Quantity.value?_of_isFinite hstart))

theorem distance_le_iff {first second : Cue} (hfirst : first.time.isFinite = true)
    (hsecond : second.time.isFinite = true) (hstart : subtitle.start.isFinite = true) :
    (first.distance subtitle).le (second.distance subtitle) = true ↔
      |first.time.value - subtitle.start.value| ≤ |second.time.value - subtitle.start.value| := by
  rw [distance_eq exact hfirst hstart, distance_eq exact hsecond hstart]
  exact Quantity.le_iff_value? rfl rfl

/-- What is not farther than something within the radius is within it, also if it is seen from
another subtitle. -/
theorem near_of_le {first second : Cue} (hfirst : first.time.isFinite = true)
    (hsecond : second.time.isFinite = true) (hstart : subtitle.start.isFinite = true)
    (hother : other.start.isFinite = true) (hnear : (second.distance other).le radius = true)
    (hle : |first.time.value - subtitle.start.value| ≤ |second.time.value - other.start.value|) :
    (first.distance subtitle).le radius = true := by
  refine Quantity.le_trans ?_ hnear
  rw [distance_eq exact hfirst hstart, distance_eq exact hsecond hother]
  exact (Quantity.le_iff_value? rfl rfl).mpr hle

include htimes

/-- No cue at all is nearer than a nearest one. -/
theorem IsNearest.abs_le (nearest : subtitle.IsNearest radius cues cue)
    (hstart : subtitle.start.isFinite = true) {other : Cue} (hother : other ∈ cues) :
    |cue.time.value - subtitle.start.value| ≤ |other.time.value - subtitle.start.value| := by
  have hcue := htimes cue nearest.mem
  by_contra hlt
  have hnear := near_of_le exact (htimes other hother) hcue hstart hstart nearest.near
    (le_of_lt (not_le.mp hlt))
  exact hlt ((distance_le_iff exact hcue (htimes other hother) hstart).mp
    (nearest.least other hother hnear))

/-! ## Landings -/

omit htimes in
/-- The sign of a zero does not count in a distance. -/
theorem distance_congr (hstart : subtitle.start.isFinite = true) (hother : other.start.isFinite = true)
    (hvalue : subtitle.start.value = other.start.value) (cue : Cue) :
    cue.distance subtitle = cue.distance other := by
  by_cases hcue : cue.time.isFinite = true
  · rw [distance_eq exact hcue hstart, distance_eq exact hcue hother, hvalue]
  · have hbeyond : ∀ x : Quantity, x.isFinite = true → cue.time.sub x = cue.time := by
      intro x hx
      have hneg : x.neg.value? = some (-x.value) := by
        rw [Quantity.value?_neg, Quantity.value?_of_isFinite hx, Option.map_some]
      rw [Quantity.sub]
      cases htime : cue.time <;> cases hopposite : x.neg <;>
        simp_all [Quantity.add, Quantity.isFinite, Quantity.value?]
    rw [Cue.distance, Cue.distance, hbeyond _ hstart, hbeyond _ hother]

omit htimes in
/-- Subtitles that start at the same value go to the same cue. -/
theorem landing_congr (hstart : subtitle.start.isFinite = true) (hother : other.start.isFinite = true)
    (hvalue : subtitle.start.value = other.start.value) :
    subtitle.landing radius cues = other.landing radius cues := by
  have hnearer : subtitle.nearer radius = other.nearer radius := by
    funext nearest cue
    simp only [nearer, distance_congr exact hstart hother hvalue]
  rw [landing, landing, nearestCue, nearestCue, hnearer, hvalue]

/-- **Subtitles land in the order in which they start.** -/
theorem landing_le_landing (hstart : subtitle.start.isFinite = true)
    (hother : other.start.isFinite = true) (hle : subtitle.start.value ≤ other.start.value) :
    subtitle.landing radius cues ≤ other.landing radius cues := by
  rcases hle.eq_or_lt with heq | hlt
  · exact (landing_congr exact hstart hother heq).le
  by_contra hback
  rw [landing, landing] at hback
  cases hfirst : subtitle.nearestCue radius cues <;>
    cases hsecond : other.nearestCue radius cues <;>
    simp only [hfirst, hsecond, not_le] at hback
  case none.none => exact absurd hback hle.not_gt
  case none.some cue =>
    -- the cue would lie in front of both, nearer to the one that stays
    have nearest := isNearest_of_nearestCue hsecond
    have hcue := htimes cue nearest.mem
    have hnear := near_of_le exact hcue hcue hstart hother nearest.near (by
      rw [abs_of_neg (by linarith), abs_of_neg (by linarith)]
      linarith)
    exact absurd hnear (by simp [far_of_nearestCue hfirst cue nearest.mem])
  case some.none cue =>
    -- the cue would lie behind both, nearer to the one that stays
    have nearest := isNearest_of_nearestCue hfirst
    have hcue := htimes cue nearest.mem
    have hnear := near_of_le exact hcue hcue hother hstart nearest.near (by
      rw [abs_of_pos (by linarith), abs_of_pos (by linarith)]
      linarith)
    exact absurd hnear (by simp [far_of_nearestCue hsecond cue nearest.mem])
  case some.some first second =>
    have nearest := isNearest_of_nearestCue hfirst
    have nearest' := isNearest_of_nearestCue hsecond
    have hbehind := midpoint_le hback (nearest.abs_le exact htimes hstart nearest'.mem)
    have hbefore := le_midpoint hback (nearest'.abs_le exact htimes hother nearest.mem)
    linarith

/-- A subtitle that follows the sound lands. -/
theorem moved_start (hstart : subtitle.start.isFinite = true) :
    (subtitle.moved radius cues).1.start.value? = some (subtitle.landing radius cues) := by
  have hvalue := Quantity.value?_of_isFinite hstart
  rw [moved, landing]
  cases hnearest : subtitle.nearestCue radius cues with
  | none => exact hvalue
  | some cue =>
    have htime := Quantity.value?_of_isFinite (htimes cue (isNearest_of_nearestCue hnearest).mem)
    dsimp only
    split
    · rename_i hlanded
      rw [(Quantity.eq_iff_value? htime hvalue).mp hlanded]
      exact hvalue
    · dsimp only [shifted]
      rw [Quantity.value?_add exact hvalue (Quantity.value?_sub exact htime hvalue),
        add_sub_cancel]

/-- What is nearest to a subtitle at a cue is at its start. -/
theorem IsNearest.at_start (nearest : subtitle.IsNearest radius cues cue)
    (hstart : subtitle.start.isFinite = true) {landed : Cue} (hlanded : landed ∈ cues)
    (heq : landed.time.value = subtitle.start.value) : cue.time.eq subtitle.start = true := by
  have hle := nearest.abs_le exact htimes hstart hlanded
  rw [heq, sub_self, abs_zero, abs_nonpos_iff, sub_eq_zero] at hle
  exact (Quantity.eq_iff_value? (Quantity.value?_of_isFinite (htimes cue nearest.mem))
    (Quantity.value?_of_isFinite hstart)).mpr hle

/-- A subtitle that follows the sound has landed then. -/
theorem moved_isLanded (hstart : subtitle.start.isFinite = true) :
    (subtitle.moved radius cues).1.IsLanded radius cues := by
  have hlanded : (subtitle.moved radius cues).1.start.value? = some (subtitle.landing radius cues) :=
    moved_start exact htimes hstart
  have hfinite := Quantity.isFinite_iff.mpr ⟨_, hlanded⟩
  cases hnearest : subtitle.nearestCue radius cues with
  | none =>
    have hstays : subtitle.IsLanded radius cues := fun cue hcue ↦ by simp [hnearest] at hcue
    rw [hstays.moved_eq]
    exact hstays
  | some cue =>
    refine fun next hnext ↦ (isNearest_of_nearestCue hnext).at_start exact htimes hfinite
      (isNearest_of_nearestCue hnearest).mem ?_
    rw [Quantity.value?_of_isFinite hfinite, landing, hnearest] at hlanded
    exact (Option.some.inj hlanded).symm

/-- Whether a subtitle is drawn shows at the cue that was found. -/
theorem isDrawn_iff (hstart : subtitle.start.isFinite = true) : subtitle.IsDrawn radius cues ↔
    ∃ cue, subtitle.nearestCue radius cues = some cue ∧ cue.time.eq subtitle.start = false := by
  constructor
  · rintro ⟨cue, hcue, nearest, haway⟩
    cases hfound : subtitle.nearestCue radius cues with
    | none =>
      have hnear := nearest.near
      rw [far_of_nearestCue hfound cue hcue] at hnear
      cases hnear
    | some found =>
      have hmem := (isNearest_of_nearestCue hfound).mem
      refine ⟨found, rfl, ?_⟩
      by_contra hat
      rw [Bool.not_eq_false, Quantity.eq_iff_value? (Quantity.value?_of_isFinite (htimes found hmem))
        (Quantity.value?_of_isFinite hstart)] at hat
      rw [nearest.at_start exact htimes hstart hmem hat] at haway
      cases haway
  · rintro ⟨cue, hcue, haway⟩
    have nearest := isNearest_of_nearestCue hcue
    exact ⟨cue, nearest.mem, nearest, haway⟩

/-- **What following the sound does to a subtitle**, and when it counts as a move. -/
theorem moved_isSynchronized (hstart : subtitle.start.isFinite = true)
    (hstop : subtitle.stop.isFinite = true) :
    subtitle.IsSynchronized radius cues (subtitle.moved radius cues).1 ∧
      (subtitle.moved radius cues).2 = decide (subtitle.IsDrawn radius cues) := by
  have hvalue := Quantity.value?_of_isFinite hstart
  have hlength := Quantity.value?_sub exact (Quantity.value?_of_isFinite hstop) hvalue
  by_cases hdrawn : subtitle.IsDrawn radius cues
  · obtain ⟨cue, hcue, haway⟩ := (isDrawn_iff exact htimes hstart).mp hdrawn
    have nearest := isNearest_of_nearestCue hcue
    have htime := Quantity.value?_of_isFinite (htimes cue nearest.mem)
    have hmoved : subtitle.moved radius cues =
        (subtitle.shifted (cue.time.sub subtitle.start), true) := by
      simp [moved, hcue, haway]
    have hoffset := Quantity.value?_sub exact htime hvalue
    have hnewstart := Quantity.value?_add exact hvalue hoffset
    have hnewstop := Quantity.value?_add exact (Quantity.value?_of_isFinite hstop) hoffset
    rw [hmoved]
    refine ⟨⟨rfl, ?_, fun _ ↦ ⟨cue, nearest, haway, ?_⟩, fun h ↦ absurd hdrawn h⟩,
      (decide_eq_true hdrawn).symm⟩
    · refine (Quantity.eq_iff_value? (Quantity.value?_sub exact hnewstop hnewstart) hlength).mpr ?_
      exact add_sub_add_right_eq_sub _ _ _
    · exact (Quantity.eq_iff_value? hnewstart htime).mpr (add_sub_cancel _ _)
  · have hlanded : subtitle.IsLanded radius cues := by
      intro cue hcue
      by_contra haway
      exact hdrawn ((isDrawn_iff exact htimes hstart).mpr ⟨cue, hcue, by simpa using haway⟩)
    rw [hlanded.moved_eq]
    exact ⟨⟨rfl, (Quantity.eq_iff_value? hlength hlength).mpr rfl, fun h ↦ absurd h hdrawn,
      fun _ ↦ rfl⟩, (decide_eq_false hdrawn).symm⟩

end

/-! ## Tracks -/

/-- What following the sound does to the subtitles of a track.  Subtitles that start one after the
other do so afterwards, so that putting a track in order changes nothing if it was in order. -/
structure IsSynchronization (radius : Quantity) (cues : List Cue) (before after : List Subtitle) :
    Prop where
  each : List.Forall₂ (IsSynchronized radius cues) before after
  monotone : ∀ first ∈ before.zip after, ∀ second ∈ before.zip after,
    first.1.start.le second.1.start = true → first.2.start.le second.2.start = true
  sorted : IsRising before → Subtitle.sorted after = after
  numbered : IsNumbered before → Subtitle.numbered after = after

section

variable (exact : rounding.IsExact) (htimes : ∀ cue ∈ cues, cue.time.isFinite = true)
  {entries : List Subtitle}
  (hentries : ∀ s ∈ entries, s.start.isFinite = true ∧ s.stop.isFinite = true)

include exact htimes hentries

/-- **Following the sound keeps the order of a track.** -/
theorem map_moved_isSynchronization : IsSynchronization radius cues entries
    (entries.map fun subtitle ↦ (subtitle.moved radius cues).1) := by
  have hmonotone : ∀ first ∈ entries, ∀ second ∈ entries, first.start.le second.start = true →
      (first.moved radius cues).1.start.le (second.moved radius cues).1.start = true := by
    intro first hfirst second hsecond hle
    have hstart := (hentries first hfirst).1
    have hother := (hentries second hsecond).1
    rw [Quantity.le_iff_value? (moved_start exact htimes hstart) (moved_start exact htimes hother)]
    exact landing_le_landing exact htimes hstart hother ((Quantity.le_iff_value?
      (Quantity.value?_of_isFinite hstart) (Quantity.value?_of_isFinite hother)).mp hle)
  refine ⟨?_, ?_, fun rising ↦ sorted_of_isRising ⟨?_, ?_⟩, fun hnumbered ↦ numbered_of_isNumbered ?_⟩
  · rw [List.forall₂_map_right_iff, List.forall₂_same]
    intro subtitle hsubtitle
    obtain ⟨hstart, hstop⟩ := hentries subtitle hsubtitle
    exact (moved_isSynchronized exact htimes hstart hstop).1
  · rw [← List.map_prod_left_eq_zip, List.forall_mem_map]
    intro first hfirst
    rw [List.forall_mem_map]
    exact hmonotone first hfirst
  · rw [List.forall_mem_map]
    intro subtitle hsubtitle
    exact Quantity.ne_undefined_of_isFinite (Quantity.isFinite_iff.mpr
      ⟨_, moved_start exact htimes (hentries subtitle hsubtitle).1⟩)
  · rw [List.pairwise_map]
    exact rising.pairwise.imp_of_mem fun hfirst hsecond hle ↦ hmonotone _ hfirst _ hsecond hle
  · intro place hplace
    rw [List.getElem_map, moved_kept]
    exact hnumbered place (by simpa using hplace)

end

end Subtitle

/-- A track in order whose subtitles have landed stays as it is. -/
theorem Track.synchronized_of_landed {track : Track} {radius : Quantity} {cues : List Cue}
    (hlanded : ∀ subtitle ∈ track.entries, subtitle.IsLanded radius cues)
    (hordered : Subtitle.inOrder track.entries = track.entries) :
    track.synchronized radius cues = (track, 0) := by
  have hentries : track.entries.map (fun subtitle ↦ (subtitle.moved radius cues).1) =
      track.entries := by
    refine (List.map_congr_left fun subtitle hsubtitle ↦ ?_).trans (List.map_id _)
    rw [(hlanded subtitle hsubtitle).moved_eq]
    rfl
  have hcount : track.entries.countP (fun subtitle ↦ (subtitle.moved radius cues).2) = 0 := by
    rw [List.countP_eq_zero]
    intro subtitle hsubtitle
    rw [(hlanded subtitle hsubtitle).moved_eq]
    exact Bool.false_ne_true
  rw [synchronized_eq]
  dsimp only
  rw [hentries, hcount, hordered]

namespace TrackSet

variable {set : TrackSet} {language : String} {held : HeldTrack} {request : Json} {cues : List Cue}

/-- Cues that can be read move the subtitles of the track. -/
theorem synchronize_of_find? {track : Track} {count : Nat} (hheld : set.find? language = some held)
    (hcues : (do (← request.elements).mapM Cue.ofRequest : Except Error (List Cue)) = .ok cues)
    (h : held.track.synchronized set.sync.syncRadius
      (cues.filter fun cue ↦ set.sync.syncConfidence.lt cue.confidence) = (track, count)) :
    set.synchronize language request = (set.put language { held with track }, .ok count) := by
  rw [synchronize, hheld]
  dsimp only
  rw [hcues]
  dsimp only
  rw [h]

/-- **Following the sound moves the subtitles that are drawn, keeps the order, and is done after one
call.**  In a set that is kept well a track is in order and numbered, and so are the moved subtitles
then: sorting and numbering them changes nothing. -/
theorem synchronize_isSynchronization (exact : rounding.IsExact)
    (hheld : set.find? language = some held)
    (hcues : (do (← request.elements).mapM Cue.ofRequest : Except Error (List Cue)) = .ok cues)
    (hentries : ∀ s ∈ held.track.entries, s.start.isFinite = true ∧ s.stop.isFinite = true)
    (htimes : ∀ cue ∈ cues, cue.time.isFinite = true) :
    let radius := set.sync.syncRadius
    let sure := cues.filter fun cue ↦ set.sync.syncConfidence.lt cue.confidence
    ∃ moved, Subtitle.IsSynchronization radius sure held.track.entries moved ∧
      (set.IsKept → Subtitle.inOrder moved = moved) ∧
      let after := set.put language
        { held with track := { held.track with entries := Subtitle.inOrder moved } }
      set.synchronize language request =
          (after, .ok (held.track.entries.countP fun s ↦ s.IsDrawn radius sure)) ∧
        after.synchronize language request = (after, .ok 0) := by
  intro radius sure
  have hsure : ∀ cue ∈ sure, cue.time.isFinite = true :=
    fun cue hcue ↦ htimes cue (List.mem_of_mem_filter hcue)
  let moved := held.track.entries.map fun subtitle ↦ (subtitle.moved radius sure).1
  have hmoved : ∀ subtitle ∈ moved, subtitle.start ≠ .undefined ∧ subtitle.IsLanded radius sure := by
    refine List.forall_mem_map.mpr fun subtitle hsubtitle ↦ ?_
    have hstart := (hentries subtitle hsubtitle).1
    exact ⟨Quantity.ne_undefined_of_isFinite (Quantity.isFinite_iff.mpr
      ⟨_, Subtitle.moved_start exact hsure hstart⟩), Subtitle.moved_isLanded exact hsure hstart⟩
  have hagain : ∀ subtitle ∈ Subtitle.inOrder moved, subtitle.IsLanded radius sure := by
    intro subtitle hsubtitle
    obtain ⟨landed, hlanded, index, rfl⟩ := Subtitle.exists_of_mem_numbered hsubtitle
    exact (hmoved landed ((Subtitle.sorted_perm moved).subset hlanded)).2
  have hsynchronized : Subtitle.IsSynchronization radius sure held.track.entries moved :=
    Subtitle.map_moved_isSynchronization exact hsure hentries
  refine ⟨moved, hsynchronized, fun kept ↦ ?_, ?_, ?_⟩
  · have hkept := kept.find hheld
    rw [Subtitle.inOrder, hsynchronized.sorted hkept.rising, hsynchronized.numbered hkept.numbered]
  · refine synchronize_of_find? hheld hcues ?_
    rw [Track.synchronized_eq]
    refine Prod.ext rfl (List.countP_congr fun subtitle hsubtitle ↦ ?_)
    obtain ⟨hstart, hstop⟩ := hentries subtitle hsubtitle
    rw [(Subtitle.moved_isSynchronized exact hsure hstart hstop).2]
  · refine (synchronize_of_find? find?_put_self hcues
      (Track.synchronized_of_landed hagain ?_)).trans ?_
    · exact Subtitle.inOrder_inOrder fun subtitle hsubtitle ↦ (hmoved subtitle hsubtitle).1
    · rw [put_of_find? find?_put_self]

/-- Two subtitles with a cue between them, and one at a cue. -/
def heardTrack : Track := {
  id := "track_en", language := "en"
  entries := [
    { id := "track_en_1", index := 1, text := "one", start := .finite 1, stop := .finite 2 },
    { id := "track_en_2", index := 2, text := "two", start := .finite (3 / 2), stop := .finite 3 },
    { id := "track_en_3", index := 3, text := "three", start := .finite 5, stop := .finite 6 }] }

/-- A set of that track alone. -/
def heardTracks : TrackSet := { held := [("en", { track := heardTrack, issued := 3 })] }

omit rounding in
theorem heardTracks_isKept : heardTracks.IsKept where
  keys := List.nodup_singleton _
  kept := by
    refine List.forall_mem_singleton.mpr ⟨rfl, ⟨by decide, by decide +kernel⟩, ?_, ?_, by decide⟩
    · rw [Subtitle.IsNumbered]
      decide
    · simp only [heardTrack, List.map_cons, List.map_nil, List.forall_mem_cons]
      exact ⟨⟨1, by decide⟩, ⟨2, by decide⟩, ⟨3, by decide⟩, List.forall_mem_nil _⟩
  radius := rfl

/-- The cues, the last of which is not sure enough. -/
def heardCues : List Cue := [⟨.finite (5 / 4), .finite 1⟩, ⟨.finite 5, .finite 1⟩,
  ⟨.finite 1, .finite (1 / 2)⟩]

omit rounding in
theorem heardTrack_synchronized : let _ : Rounding := .exact
    let request : Json := .arr (heardCues.map Cue.encode)
    heardTracks.IsKept ∧
    ∃ moved, Subtitle.IsSynchronization (.finite 1) (heardCues.take 2) heardTrack.entries moved ∧
      Subtitle.inOrder moved = moved ∧
      let after := heardTracks.put "en"
        { track := { heardTrack with entries := moved }, issued := 3 }
      heardTracks.synchronize "en" request = (after, .ok 2) ∧
        after.synchronize "en" request = (after, .ok 0) := by
  intro _ request
  have hsure : (heardCues.filter fun cue ↦ heardTracks.sync.syncConfidence.lt cue.confidence) =
      heardCues.take 2 := by decide +kernel
  have hcount : heardTrack.entries.countP
      (fun s ↦ s.IsDrawn heardTracks.sync.syncRadius (heardCues.take 2)) = 2 := by decide +kernel
  have h := @synchronize_isSynchronization .exact heardTracks "en"
    { track := heardTrack, issued := 3 } request heardCues Rounding.exact_isExact rfl rfl (by decide)
    (by decide)
  rw [hsure] at h
  obtain ⟨moved, hmoved, hkept, hfirst, hsecond⟩ := h
  have hordered := hkept heardTracks_isKept
  rw [hordered] at hfirst hsecond
  rw [hcount] at hfirst
  exact ⟨heardTracks_isKept, moved, hmoved, hordered, hfirst, hsecond⟩

end TrackSet
end Montage
