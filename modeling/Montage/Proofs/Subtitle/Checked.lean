import Montage.Proofs.Subtitle.Order
import Montage.Subtitle.Validation

/-!
# What a check of subtitles says

A subtitle is looked at together with the one before it only, and what makes it invalid is its window
alone.  Where every window lasts, one look at each neighbour is enough: a subtitle that does not
overlap the next one ends before the next one does, and so before all that come later
(`Subtitle.pairwise_of_isChain`).

Subtitles of which no two start together can be arranged in one way only, so the order in which they
come in does not show in what is found.
-/

set_option autoImplicit false

namespace Montage
namespace Subtitle

/-! ## Windows -/

/-- A window that starts at zero or later, and lasts. -/
structure HasSoundWindow (subtitle : Subtitle) : Prop where
  start : Quantity.le (.finite 0) subtitle.start = true
  lasts : subtitle.start.lt subtitle.stop = true

/-- Whether a subtitle is there at a time: from its start on, and before its end. -/
def IsOn (subtitle : Subtitle) (time : Quantity) : Prop :=
  subtitle.start.le time = true ∧ time.lt subtitle.stop = true

/-- Two subtitles overlap if both are there at some time. -/
def Overlaps (a b : Subtitle) : Prop := ∃ time, a.IsOn time ∧ b.IsOn time

variable {a b : Subtitle} {subtitles : List Subtitle}

theorem Overlaps.symm (h : a.Overlaps b) : b.Overlaps a := by
  obtain ⟨time, ha, hb⟩ := h
  exact ⟨time, hb, ha⟩

/-- Of two subtitles the later one overlaps the other if it starts before that one ends. -/
theorem overlaps_iff (hle : a.start.le b.start = true) (hlasts : b.start.lt b.stop = true) :
    a.Overlaps b ↔ b.start.lt a.stop = true := by
  constructor
  · rintro ⟨time, ha, hb⟩
    exact Quantity.lt_of_le_of_lt hb.1 ha.2
  · intro hlt
    exact ⟨b.start, ⟨hle, hlt⟩, Quantity.le_refl (Quantity.lt_defined hlasts).1, hlasts⟩

/-- **What ends before the next one starts ends before all that come later start**, if all of them
last. -/
theorem pairwise_of_isChain (hlasts : ∀ s ∈ subtitles, s.start.lt s.stop = true)
    (h : subtitles.IsChain fun a b ↦ b.start.lt a.stop = false) :
    subtitles.Pairwise fun a b ↦ b.start.lt a.stop = false := by
  induction subtitles with
  | nil => exact .nil
  | cons a rest ih =>
    rw [List.forall_mem_cons] at hlasts
    cases rest with
    | nil => exact List.pairwise_singleton _ a
    | cons b rest =>
      rw [List.isChain_cons_cons] at h
      have hpairs := ih hlasts.2 h.2
      refine List.pairwise_cons.mpr ⟨?_, hpairs⟩
      rw [List.forall_mem_cons]
      refine ⟨h.1, fun c hc ↦ ?_⟩
      -- a later one that started before the end of `a` would start before the end of `b`
      by_contra hearly
      rw [Bool.not_eq_false] at hearly
      have hb := hlasts.2 b List.mem_cons_self
      have hab := (Quantity.lt_eq_false (Quantity.lt_defined hb).1 (Quantity.lt_defined hearly).2).mp h.1
      have hcb := Quantity.lt_of_lt_of_le hearly (Quantity.le_trans hab (Quantity.le_of_lt hb))
      rw [(List.pairwise_cons.mp hpairs).1 c hc] at hcb
      cases hcb

/-- Among subtitles in order that last, those that overlap none are those that end before all later
ones start. -/
theorem pairwise_not_overlaps_iff (rising : IsRising subtitles)
    (hlasts : ∀ s ∈ subtitles, s.start.lt s.stop = true) :
    subtitles.Pairwise (fun a b ↦ ¬ a.Overlaps b) ↔
      subtitles.Pairwise fun a b ↦ b.start.lt a.stop = false := by
  constructor
  · intro h
    refine (rising.pairwise.and h).imp_of_mem fun _ hb ⟨hle, hapart⟩ ↦ ?_
    rwa [overlaps_iff hle (hlasts _ hb), Bool.not_eq_true] at hapart
  · intro h
    refine (rising.pairwise.and h).imp_of_mem fun _ hb ⟨hle, hapart⟩ ↦ ?_
    rwa [overlaps_iff hle (hlasts _ hb), Bool.not_eq_true]

variable [Rounding]

/-! ## Errors -/

/-- Whether something is wrong with the window of a subtitle. -/
def isWrong (subtitle : Subtitle) : Bool :=
  subtitle.start.lt (.finite 0) || subtitle.endsEarly

/-- What is found about a subtitle makes it invalid if something is wrong with its window. -/
theorem any_isError_findings (threshold : Number) (previous : Option Subtitle) (subtitle : Subtitle) :
    (subtitle.findings threshold previous).any Finding.isError = subtitle.isWrong := by
  have hwindow : subtitle.windowFindings.any Finding.isError = subtitle.isWrong := by
    rw [windowFindings, isWrong, List.any_append]
    congr 1
    · split <;> simp_all [Finding.isError]
    · repeat' split
      all_goals simp_all [Finding.isError]
  have htext : subtitle.textFindings.any Finding.isError = false := by
    rw [textFindings]
    repeat' split
    all_goals rfl
  have hneighbour : (subtitle.neighbourFindings threshold previous).any Finding.isError = false := by
    cases previous with
    | none => rfl
    | some previous =>
      rw [neighbourFindings]
      repeat' split
      all_goals rfl
  rw [findings, List.any_append, List.any_append, hwindow, htext, hneighbour, Bool.or_false,
    Bool.or_false]

theorem any_isError_findingsFrom (threshold : Number) (place : Nat) (previous : Option Subtitle)
    (subtitles : List Subtitle) :
    (findingsFrom threshold place previous subtitles).any (fun found ↦ found.2.isError) =
      subtitles.any isWrong := by
  induction subtitles generalizing place previous with
  | nil => rfl
  | cons subtitle rest ih =>
    rw [findingsFrom, List.any_append, List.any_map, ih, List.any_cons,
      ← any_isError_findings threshold previous]
    rfl

/-- **Subtitles are valid if nothing is wrong with any window.** -/
theorem isValid_validate (subtitles : List Subtitle) (threshold : Number) :
    (validate subtitles threshold).isValid = !subtitles.any isWrong := by
  have hfound := any_isError_findingsFrom threshold 1 none (sorted subtitles)
  rw [(sorted_perm subtitles).any_eq] at hfound
  rw [← hfound, ValidationResult.isValid, validate, List.partition_eq_filter_filter,
    Bool.eq_iff_iff]
  simp

omit [Rounding] in
theorem isWrong_eq_false {subtitle : Subtitle} (hstart : subtitle.start ≠ .undefined)
    (hstop : subtitle.stop ≠ .undefined) : subtitle.isWrong = false ↔ subtitle.HasSoundWindow := by
  have hends : subtitle.endsEarly = false ↔ subtitle.start.lt subtitle.stop = true := by
    rw [endsEarly, ← Bool.not_eq_true, ← Quantity.lt_eq_false hstart hstop, Bool.not_eq_false]
  rw [isWrong, Bool.or_eq_false_iff, hends, Quantity.lt_eq_false hstart (by rintro ⟨⟩)]
  exact ⟨fun ⟨h, h'⟩ ↦ ⟨h, h'⟩, fun ⟨h, h'⟩ ↦ ⟨h, h'⟩⟩

/-! ## Overlaps -/

theorem overlap_mem_findings (threshold : Number) (previous : Option Subtitle) (subtitle : Subtitle) :
    Finding.overlap ∈ subtitle.findings threshold previous ↔
      ∃ a, previous = some a ∧ subtitle.start.lt a.stop = true := by
  have hwindow : Finding.overlap ∉ subtitle.windowFindings := by
    rw [windowFindings]
    repeat' split
    all_goals simp
  have htext : Finding.overlap ∉ subtitle.textFindings := by
    rw [textFindings]
    repeat' split
    all_goals simp
  rw [findings, List.mem_append, List.mem_append, or_iff_right (not_or.mpr ⟨hwindow, htext⟩)]
  cases previous with
  | none => simp [neighbourFindings]
  | some a =>
    rw [neighbourFindings]
    repeat' split
    all_goals simp_all

/-- No overlap is found where no subtitle starts before the one in front of it ends. -/
theorem overlap_notMem_findingsFrom (threshold : Number) (place : Nat) (previous : Option Subtitle)
    (subtitles : List Subtitle) :
    (∀ found ∈ findingsFrom threshold place previous subtitles, found.2 ≠ .overlap) ↔
      (previous.toList ++ subtitles).IsChain fun a b ↦ b.start.lt a.stop = false := by
  induction subtitles generalizing place previous with
  | nil => cases previous <;> simp [findingsFrom]
  | cons subtitle rest ih =>
    rw [findingsFrom, List.forall_mem_append, ih, List.forall_mem_map]
    have hhere : (∀ found ∈ subtitle.findings threshold previous, found ≠ .overlap) ↔
        ∀ a, previous = some a → subtitle.start.lt a.stop = false := by
      rw [← not_iff_not]
      simpa using overlap_mem_findings threshold previous subtitle
    rw [hhere]
    cases previous <;> simp [List.isChain_cons_cons]

/-- **No overlaps are counted if no two subtitles overlap**, neighbours or not. -/
theorem overlappingCount_eq_zero (threshold : Number)
    (hlasts : ∀ s ∈ subtitles, s.start.lt s.stop = true) :
    (validate subtitles threshold).stats.overlappingCount = 0 ↔
      subtitles.Pairwise fun a b ↦ ¬ a.Overlaps b := by
  have hperm := sorted_perm subtitles
  have rising := sorted_isRising fun s hs ↦ (Quantity.lt_defined (hlasts s hs)).1
  have hsorted : ∀ s ∈ sorted subtitles, s.start.lt s.stop = true :=
    fun s hs ↦ hlasts s (hperm.subset hs)
  have hcount : (validate subtitles threshold).stats.overlappingCount = 0 ↔
      (sorted subtitles).IsChain fun a b ↦ b.start.lt a.stop = false := by
    have hfound := overlap_notMem_findingsFrom threshold 1 none (sorted subtitles)
    rw [Option.toList_none, List.nil_append] at hfound
    rw [← hfound, validate]
    simp only [List.length_eq_zero_iff, List.filter_eq_nil_iff, decide_eq_true_eq, ne_eq]
  rw [hcount, ← hperm.pairwise_iff fun h hback ↦ h hback.symm, pairwise_not_overlaps_iff rising hsorted]
  exact ⟨pairwise_of_isChain hsorted, List.Pairwise.isChain⟩

/-! ## What a check says -/

/-- **A check is sound.**  It calls subtitles valid if all windows are sound, counts no overlap among
valid ones if no two of them overlap, and says the same of subtitles in any order if no two of them start
together. -/
theorem validate_sound (hstart : ∀ s ∈ subtitles, s.start ≠ .undefined)
    (hstop : ∀ s ∈ subtitles, s.stop ≠ .undefined) (threshold : Number) :
    ((validate subtitles threshold).isValid = true ↔ ∀ s ∈ subtitles, s.HasSoundWindow) ∧
      ((validate subtitles threshold).isValid = true →
        ((validate subtitles threshold).stats.overlappingCount = 0 ↔
          subtitles.Pairwise fun a b ↦ ¬ a.Overlaps b)) ∧
      (subtitles.Pairwise (fun a b ↦ a.start.eq b.start = false) → ∀ other, other.Perm subtitles →
        validate other threshold = validate subtitles threshold) := by
  have hvalid : (validate subtitles threshold).isValid = true ↔ ∀ s ∈ subtitles, s.HasSoundWindow := by
    rw [isValid_validate, Bool.not_eq_true', List.any_eq_false]
    refine forall₂_congr fun s hs ↦ ?_
    rw [Bool.not_eq_true, isWrong_eq_false (hstart s hs) (hstop s hs)]
  refine ⟨hvalid, fun h ↦ ?_, fun distinct other hperm ↦ ?_⟩
  · exact overlappingCount_eq_zero threshold fun s hs ↦ (hvalid.mp h s hs).lasts
  · rw [validate, validate, sorted_eq_of_perm hstart distinct hperm]

/-- Three subtitles, of which the one that starts first goes on behind the others. -/
def heldUnder : List Subtitle := [
  { text := "last", start := .finite 3, stop := .finite 4 },
  { text := "first", start := .finite 0, stop := .finite 10 },
  { text := "second", start := .finite 1, stop := .finite 2 }]

omit [Rounding] in
theorem heldUnder_checked : let _ : Rounding := .binary64
    (validate heldUnder (.whole 5)).isValid = true ∧
      (validate heldUnder (.whole 5)).stats.overlappingCount ≠ 0 ∧
      validate heldUnder.reverse (.whole 5) = validate heldUnder (.whole 5) := by
  intro _
  obtain ⟨hvalid, hoverlaps, horder⟩ :=
    @validate_sound heldUnder .binary64 (by decide) (by decide) (.whole 5)
  have hsound := hvalid.mpr (List.forall_iff_forall_mem.mp
    ⟨⟨by decide, by decide⟩, ⟨by decide, by decide⟩, ⟨by decide, by decide⟩⟩)
  refine ⟨hsound, fun hnone ↦ ?_, horder (by decide) _ (List.reverse_perm heldUnder)⟩
  have hapart := (List.pairwise_cons.mp ((hoverlaps hsound).mp hnone)).1 _ List.mem_cons_self
  exact hapart ⟨.finite 3, ⟨by decide, by decide⟩, by decide, by decide⟩

end Subtitle
end Montage
