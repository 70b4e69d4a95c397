import Mathlib.Data.List.Induction
import Montage.Proofs.Number.Order
import Montage.Tracks.Sync

/-!
# The nearest cue

One pass over the cues keeps the nearest one so far.  After each cue, what it has kept is nearest among
those that it has seen, or none of them is within the radius (`Subtitle.IsFound`).  That is so for any
rounding: distances within a radius are defined, and so they can be compared.
-/

set_option autoImplicit false

namespace Montage

variable [Rounding]

namespace Subtitle

/-- A cue within the radius to which no other one within it is nearer. -/
structure IsNearest (radius : Quantity) (cues : List Cue) (subtitle : Subtitle) (cue : Cue) :
    Prop where
  mem : cue ∈ cues
  near : (cue.distance subtitle).le radius = true
  least : ∀ other ∈ cues, (other.distance subtitle).le radius = true →
    (cue.distance subtitle).le (other.distance subtitle) = true

theorem isNearest_iff {radius : Quantity} {cues : List Cue} {subtitle : Subtitle} {cue : Cue} :
    subtitle.IsNearest radius cues cue ↔ cue ∈ cues ∧ (cue.distance subtitle).le radius = true ∧
      cues.all (fun other ↦ !(other.distance subtitle).le radius ||
        (cue.distance subtitle).le (other.distance subtitle)) = true := by
  rw [List.all_eq_true]
  constructor
  · rintro ⟨hmem, hnear, hleast⟩
    exact ⟨hmem, hnear, fun other hother ↦ by simpa [imp_iff_not_or] using hleast other hother⟩
  · rintro ⟨hmem, hnear, hleast⟩
    exact ⟨hmem, hnear, fun other hother ↦ by simpa [imp_iff_not_or] using hleast other hother⟩

instance (radius : Quantity) (cues : List Cue) (subtitle : Subtitle) (cue : Cue) :
    Decidable (subtitle.IsNearest radius cues cue) := decidable_of_iff' _ isNearest_iff

/-- A cue that is nearest among some cues, or none where none of them is within the radius. -/
def IsFound (radius : Quantity) (cues : List Cue) (subtitle : Subtitle) : Option Cue → Prop
  | none => ∀ cue ∈ cues, (cue.distance subtitle).le radius = false
  | some cue => subtitle.IsNearest radius cues cue

variable {radius : Quantity} {cues : List Cue} {subtitle : Subtitle} {cue : Cue}

/-- A cue that comes last is nearest if the others within the radius are not nearer. -/
theorem isNearest_concat_self (hnear : (cue.distance subtitle).le radius = true)
    (h : ∀ other ∈ cues, (other.distance subtitle).le radius = true →
      (cue.distance subtitle).le (other.distance subtitle) = true) :
    subtitle.IsNearest radius (cues ++ [cue]) cue := by
  refine ⟨List.mem_concat_self, hnear, ?_⟩
  rw [List.forall_mem_append, List.forall_mem_singleton]
  exact ⟨h, fun _ ↦ Quantity.le_refl (Quantity.le_defined hnear).1⟩

/-- What is nearest stays so if the cue behind it is out of reach or not nearer. -/
theorem IsNearest.concat {first : Cue} (nearest : subtitle.IsNearest radius cues first)
    (h : (cue.distance subtitle).le radius = true →
      (first.distance subtitle).le (cue.distance subtitle) = true) :
    subtitle.IsNearest radius (cues ++ [cue]) first := by
  refine ⟨List.mem_append_left _ nearest.mem, nearest.near, ?_⟩
  rw [List.forall_mem_append, List.forall_mem_singleton]
  exact ⟨nearest.least, h⟩

/-- One more cue. -/
theorem IsFound.concat {nearest : Option Cue} (found : subtitle.IsFound radius cues nearest)
    (cue : Cue) : subtitle.IsFound radius (cues ++ [cue]) (subtitle.nearer radius nearest cue) := by
  unfold nearer
  split
  · rename_i hnear
    cases nearest with
    | none =>
      refine isNearest_concat_self hnear fun other hother hle ↦ ?_
      rw [found other hother] at hle
      cases hle
    | some first =>
      dsimp only
      split
      · rename_i hlt
        exact isNearest_concat_self hnear fun other hother hle ↦
          Quantity.le_trans (Quantity.le_of_lt hlt) (found.least other hother hle)
      · rename_i hlt
        refine IsNearest.concat found fun _ ↦ ?_
        rw [Bool.not_eq_true] at hlt
        exact (Quantity.lt_eq_false (Quantity.le_defined hnear).1
          (Quantity.le_defined found.near).1).mp hlt
  · rename_i hfar
    cases nearest with
    | none =>
      rw [IsFound, List.forall_mem_append, List.forall_mem_singleton]
      exact ⟨found, by simpa using hfar⟩
    | some first => exact IsNearest.concat found fun hnear ↦ absurd hnear hfar

/-- **The pass finds a nearest cue if any cue is within the radius.** -/
theorem isFound_nearestCue (radius : Quantity) (cues : List Cue) (subtitle : Subtitle) :
    subtitle.IsFound radius cues (subtitle.nearestCue radius cues) := by
  induction cues using List.reverseRecOn with
  | nil => exact fun cue hcue ↦ absurd hcue List.not_mem_nil
  | append_singleton cues cue ih =>
    rw [nearestCue, List.foldl_append, List.foldl_cons, List.foldl_nil]
    exact ih.concat cue

theorem isNearest_of_nearestCue (h : subtitle.nearestCue radius cues = some cue) :
    subtitle.IsNearest radius cues cue := by
  have := isFound_nearestCue radius cues subtitle
  rwa [h] at this

theorem far_of_nearestCue (h : subtitle.nearestCue radius cues = none) :
    ∀ cue ∈ cues, (cue.distance subtitle).le radius = false := by
  have := isFound_nearestCue radius cues subtitle
  rwa [h] at this

/-- A subtitle that follows the sound keeps all that is not a time. -/
theorem moved_kept : (subtitle.moved radius cues).1 = { subtitle with
    start := (subtitle.moved radius cues).1.start, stop := (subtitle.moved radius cues).1.stop } := by
  rw [moved]
  split
  · rfl
  · split <;> rfl

end Subtitle

/-- The track of the moved subtitles in order, and how many have moved. -/
theorem Track.synchronized_eq (track : Track) (radius : Quantity) (cues : List Cue) :
    track.synchronized radius cues =
      let moved := track.entries.map fun subtitle ↦ (subtitle.moved radius cues).1
      ({ track with entries := Subtitle.inOrder moved },
        track.entries.countP fun subtitle ↦ (subtitle.moved radius cues).2) := by
  simp [Track.synchronized, Track.sorted, List.countP_eq_length_filter, List.filter_map,
    Function.comp_def]

end Montage
