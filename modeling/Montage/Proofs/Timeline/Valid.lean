import Montage.Proofs.Layer.Valid
import Montage.Proofs.Timeline.Options
import Montage.Timeline.Basic

/-!
# Valid timelines

A timeline is valid if its layers and its options are.  Its length is then not below zero, so
that another valid timeline can be joined behind it: the layers of that one move to later times
and nothing else about them changes.
-/

set_option autoImplicit false

namespace Montage
namespace Timeline

/-- Layers and options are valid. -/
structure IsValid (timeline : Timeline) : Prop where
  layers : ∀ layer ∈ timeline.layers, layer.IsValid
  options : timeline.options.IsValid

variable {timeline next : Timeline}

theorem IsValid.append (valid : timeline.IsValid) {layers : List Layer}
    (h : ∀ layer ∈ layers, layer.IsValid) : (timeline.append layers).IsValid :=
  ⟨List.forall_mem_append.mpr ⟨valid.layers, h⟩, valid.options⟩

/-! ## Length -/

/-- What a layer may have as its length is not below zero. -/
theorem isNonnegative_of_isLength {x : Quantity} (h : Layer.isLength x = true) :
    Style.isNonnegative x = true := by
  obtain ⟨hfinite, hlt⟩ := Bool.and_eq_true_iff.mp h
  cases x with
  | finite q =>
    refine Quantity.le_zero_iff.mpr (.inl ⟨q, ?_, rfl⟩)
    simp only [Quantity.lt, Bool.not_eq_true', decide_eq_false_iff_not] at hlt
    exact not_lt.mp hlt
  | negativeZero => rfl
  | infinite negative => cases hfinite
  | undefined => cases hfinite

/-- The latest end is one of the ends. -/
theorem latest?_mem {xs : List Quantity} {latest : Quantity} (h : latest? xs = some latest) :
    latest ∈ xs := by
  cases xs with
  | nil => cases h
  | cons x xs =>
    cases h
    exact Quantity.foldl_max_mem x xs

variable [rounding : Rounding]

theorem openLength_isNonnegative {content : Content} {length : Quantity}
    (h : openLength content = some length) : Style.isNonnegative length = true := by
  have hstill : Style.isNonnegative stillDuration = true := by decide
  have hmedia : Style.isNonnegative mediaDuration = true := by decide
  have hzero : Style.isNonnegative (.finite 0) = true := by decide
  unfold openLength at h
  split at h <;> cases h
  · split
    · exact Quantity.le_zero_max hzero
    · exact hmedia
  · split
    · exact Quantity.le_zero_max hzero
    · exact hmedia
  · exact hstill

/-- A layer does not end before zero. -/
theorem countedEnd_isStart (signs : rounding.KeepsSigns) {layer : Layer} (valid : layer.IsValid)
    {stop : Quantity} (h : countedEnd layer = some stop) : Layer.IsStart stop := by
  have hstart := valid.startTime
  rw [countedEnd] at h
  split at h
  · rename_i length hlength
    cases h
    have hnonnegative := isNonnegative_of_isLength (valid.duration length hlength)
    have hsum := Quantity.add_nonnegative signs hstart.nonnegative hstart.unsigned hnonnegative
    exact ⟨hsum.1, hsum.2⟩
  · obtain ⟨length, hlength, rfl⟩ := Option.map_eq_some_iff.mp h
    have hnonnegative := openLength_isNonnegative hlength
    have hsum := Quantity.add_nonnegative signs hstart.nonnegative hstart.unsigned hnonnegative
    exact ⟨hsum.1, hsum.2⟩

theorem IsValid.countedEnds_isStart (signs : rounding.KeepsSigns) (valid : timeline.IsValid) :
    ∀ stop ∈ timeline.layers.filterMap countedEnd, Layer.IsStart stop := by
  intro stop hstop
  obtain ⟨layer, hlayer, hend⟩ := List.mem_filterMap.mp hstop
  exact countedEnd_isStart signs (valid.layers layer hlayer) hend

/-- **A valid timeline has a length that is not below zero.** -/
theorem IsValid.duration_isNonnegative (signs : rounding.KeepsSigns) (valid : timeline.IsValid) :
    Style.isNonnegative timeline.duration = true := by
  rw [duration]
  split
  · rename_i duration hduration
    exact (Bool.and_eq_true_iff.mp (valid.options.duration duration hduration)).1
  · cases hlatest : latest? (timeline.layers.filterMap countedEnd) with
    | none => decide
    | some latest => exact (valid.countedEnds_isStart signs _ (latest?_mem hlatest)).nonnegative

/-! ## Changing options and joining -/

theorem IsValid.withOptions (valid : timeline.IsValid) {changes : List (String × Json)}
    (h : timeline.withOptions changes = .ok next) : next.IsValid := by
  obtain ⟨options, hoptions, h⟩ := bind_eq_ok.mp h
  cases pure_eq_ok.mp h
  have hdecoded := Checked.toExcept_eq_ok.mp (constructing_eq_ok.mp hoptions)
  exact ⟨valid.layers, RenderOptions.decodeOver_isValid valid.options _ options hdecoded⟩

/-- **Valid timelines make a valid one when they are joined.** -/
theorem IsValid.concat (signs : rounding.KeepsSigns) (valid : timeline.IsValid)
    {other : Timeline} (hother : other.IsValid) (h : timeline.concat other = .ok next) :
    next.IsValid := by
  have hjoined : (timeline.append
      (other.layers.map fun layer ↦ layer.shifted timeline.duration)).IsValid := by
    refine valid.append (List.forall_mem_map.mpr fun layer hlayer ↦ ?_)
    exact (hother.layers layer hlayer).shifted signs (valid.duration_isNonnegative signs)
  rw [Timeline.concat] at h
  split at h
  · cases h
    exact hjoined
  · exact hjoined.withOptions h

/-! ## Documents -/

theorem decodeLayers_isValid {documents : List Json} {layers : List Layer}
    (h : (decodeLayers documents).result = .ok layers) : ∀ layer ∈ layers, layer.IsValid := by
  induction documents generalizing layers with
  | nil =>
    cases h
    exact List.forall_mem_nil _
  | cons document rest ih =>
    rw [decodeLayers] at h
    obtain ⟨_, -, h⟩ := Reported.bind_eq_ok.mp h
    split at h
    · obtain ⟨_, -, h⟩ := Reported.bind_eq_ok.mp h
      exact ih h
    · obtain ⟨layer, hlayer, h⟩ := Reported.bind_eq_ok.mp h
      obtain ⟨others, hothers, h⟩ := Reported.bind_eq_ok.mp h
      cases pure_eq_ok.mp h
      have hdecoded := Checked.toExcept_eq_ok.mp (constructing_eq_ok.mp hlayer)
      exact List.forall_mem_cons.mpr ⟨Layer.decode_isValid document layer hdecoded, ih hothers⟩

/-- **A timeline that comes from a document is valid.** -/
theorem ofDocument_isValid {document : Json} (h : (ofDocument document).result = .ok timeline) :
    timeline.IsValid := by
  obtain ⟨_, -, h⟩ := Reported.bind_eq_ok.mp h
  obtain ⟨_, -, h⟩ := Reported.bind_eq_ok.mp h
  obtain ⟨layers, hlayers, h⟩ := Reported.bind_eq_ok.mp h
  obtain ⟨_, -, h⟩ := Reported.bind_eq_ok.mp h
  obtain ⟨options, hoptions, h⟩ := Reported.bind_eq_ok.mp h
  cases pure_eq_ok.mp h
  have hdecoded := Checked.toExcept_eq_ok.mp (constructing_eq_ok.mp hoptions)
  exact ⟨decodeLayers_isValid hlayers, RenderOptions.decode_isValid _ options hdecoded⟩

end Timeline
end Montage
