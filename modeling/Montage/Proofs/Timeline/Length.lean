import Montage.Proofs.Timeline.Valid

/-!
# Filters and the length of a timeline

A timeline whose length is not set lasts to the latest of its ends, or for the length of a still
picture if nothing in it has an end that counts (`lengthOf_eq_iff`).  An open filter has none, but a
filter with a duration ends like any other layer.  So a filter can change the length after all: it
makes a timeline longer if it ends behind everything else, and where nothing else counts it says the
length alone.  `filters_keep_length_iff` says that these are the only cases.
-/

set_option autoImplicit false

namespace Montage

/-- Starts that are not behind each other are equal. -/
theorem Layer.IsStart.antisymm {x y : Quantity} (hx : Layer.IsStart x) (hy : Layer.IsStart y)
    (hxy : x.le y = true) (hyx : y.le x = true) : x = y := by
  obtain ⟨hxdefined, hydefined⟩ := Quantity.le_defined hxy
  have hrank : x.rank = y.rank := le_antisymm ((Quantity.le_iff hxdefined hydefined).mp hxy)
    ((Quantity.le_iff hydefined hxdefined).mp hyx)
  obtain ⟨p, -, rfl⟩ | rfl | rfl := Quantity.le_zero_iff.mp hx.nonnegative
  · obtain ⟨q, -, rfl⟩ | rfl | rfl := Quantity.le_zero_iff.mp hy.nonnegative
    · exact congrArg Quantity.finite (WithTop.coe_inj.mp (WithBot.coe_inj.mp hrank))
    · exact absurd rfl hy.unsigned
    · exact absurd hrank (Quantity.coe_lt_top p).ne
  · exact absurd rfl hx.unsigned
  · obtain ⟨q, -, rfl⟩ | rfl | rfl := Quantity.le_zero_iff.mp hy.nonnegative
    · exact absurd hrank (Quantity.coe_lt_top q).ne'
    · exact absurd rfl hy.unsigned
    · rfl

namespace Timeline

/-! ## The latest of some ends -/

/-- The length for which some ends account. -/
def lengthOf (ends : List Quantity) : Quantity := (latest? ends).getD stillDuration

/-- A length for which some ends account: the latest of them, or that of a still picture if there
are none. -/
inductive IsLengthOf (ends : List Quantity) (length : Quantity) : Prop where
  | still (none : ends = []) (length_eq : length = stillDuration)
  | latest (mem : length ∈ ends) (le : ∀ stop ∈ ends, stop.le length = true)

/-- **The length of some ends is the latest of them.** -/
theorem lengthOf_eq_iff {ends : List Quantity} (starts : ∀ stop ∈ ends, Layer.IsStart stop)
    {length : Quantity} : lengthOf ends = length ↔ IsLengthOf ends length := by
  cases ends with
  | nil =>
    constructor
    · exact fun h ↦ .still rfl h.symm
    · rintro (⟨-, rfl⟩ | ⟨hmem, -⟩)
      · rfl
      · cases hmem
  | cons stop stops =>
    have hmem := Quantity.foldl_max_mem stop stops
    have hlength : lengthOf (stop :: stops) = stops.foldl Quantity.max stop := rfl
    have hlatest : ∀ other ∈ stop :: stops, other.le (stops.foldl Quantity.max stop) = true :=
      fun other hother ↦ Quantity.le_foldl_max
        (Quantity.le_defined (starts stop List.mem_cons_self).nonnegative).2 stops other hother
        (Quantity.le_defined (starts other hother).nonnegative).2
    rw [hlength]
    constructor
    · rintro rfl
      exact .latest hmem hlatest
    · rintro (⟨hnil, -⟩ | ⟨hother, hle⟩)
      · cases hnil
      · exact (starts _ hmem).antisymm (starts _ hother) (hle _ hmem) (hlatest _ hother)

/-- More ends leave the length of some ends as it is: none of them is later, and where there were no
ends before, there are none still or one of them is at the length of a still picture. -/
structure Fits (ends more : List Quantity) : Prop where
  le : ∀ stop ∈ more, stop.le (lengthOf ends) = true
  still : ends = [] → more = [] ∨ stillDuration ∈ more

/-- Ends that come to others leave the length as it is just if they fit. -/
theorem lengthOf_eq_lengthOf_iff {all ends more : List Quantity}
    (starts : ∀ stop ∈ all, Layer.IsStart stop)
    (hall : ∀ stop, stop ∈ all ↔ stop ∈ ends ∨ stop ∈ more) :
    lengthOf all = lengthOf ends ↔ Fits ends more := by
  have hends : ∀ stop ∈ ends, Layer.IsStart stop :=
    fun stop h ↦ starts stop ((hall stop).mpr (.inl h))
  rw [lengthOf_eq_iff starts]
  obtain ⟨hnone, hlength⟩ | ⟨hmem, hle⟩ := (lengthOf_eq_iff hends).mp rfl
  · have hmore : ∀ stop, stop ∈ all ↔ stop ∈ more := by simpa [hnone] using hall
    constructor
    · rintro (⟨hnil, -⟩ | ⟨hin, hlatest⟩)
      · have hempty : more = [] := by
          rw [List.eq_nil_iff_forall_not_mem]
          intro stop hstop
          simpa [hnil] using (hmore stop).mpr hstop
        exact ⟨by simp [hempty], fun _ ↦ .inl hempty⟩
      · exact ⟨fun stop hstop ↦ hlatest stop ((hmore stop).mpr hstop),
          fun _ ↦ .inr (hlength ▸ (hmore _).mp hin)⟩
    · rintro ⟨hle, hstill⟩
      obtain hempty | hstill := hstill hnone
      · refine .still (List.eq_nil_iff_forall_not_mem.mpr fun stop hstop ↦ ?_) hlength
        simpa [hempty] using (hmore stop).mp hstop
      · exact .latest (hlength ▸ (hmore _).mpr hstill)
          fun stop hstop ↦ hle stop ((hmore stop).mp hstop)
  · have hne : ends ≠ [] := List.ne_nil_of_mem hmem
    constructor
    · rintro (⟨hnil, -⟩ | ⟨-, hlatest⟩)
      · have hin := (hall _).mpr (.inl hmem)
        rw [hnil] at hin
        cases hin
      · exact ⟨fun stop hstop ↦ hlatest stop ((hall stop).mpr (.inr hstop)), fun h ↦ absurd h hne⟩
    · rintro ⟨hmore, -⟩
      refine .latest ((hall _).mpr (.inl hmem)) fun stop hstop ↦ ?_
      exact ((hall stop).mp hstop).elim (hle stop) (hmore stop)

/-! ## Layers -/

variable [rounding : Rounding]

/-- The ends that count for the length. -/
def ends (timeline : Timeline) : List Quantity := timeline.layers.filterMap countedEnd

/-- The ends that count of the layers that are no filters. -/
def contentEnds (timeline : Timeline) : List Quantity :=
  (timeline.layers.filter fun layer ↦ !layer.content.isFilter).filterMap countedEnd

/-- The ends of the filters that have one. -/
def filterEnds (timeline : Timeline) : List Quantity :=
  (timeline.layers.filter fun layer ↦ layer.content.isFilter).filterMap Layer.endTime

variable {timeline : Timeline}

theorem duration_of_unset (unset : timeline.options.duration = none) :
    timeline.duration = lengthOf timeline.ends := by
  rw [duration, unset]
  rfl

/-- A filter counts with its own end, if it has one. -/
theorem countedEnd_of_isFilter {layer : Layer} (hfilter : layer.content.isFilter = true) :
    countedEnd layer = layer.endTime := by
  rw [countedEnd, Layer.endTime]
  cases layer.duration with
  | some length => rfl
  | none =>
    cases hcontent : layer.content with
    | filter effect => rfl
    | video | audio | image | text | caption =>
      rw [hcontent] at hfilter
      cases hfilter

/-- The ends that count are those of the filters and of the other layers. -/
theorem mem_ends {stop : Quantity} :
    stop ∈ timeline.ends ↔ stop ∈ timeline.contentEnds ∨ stop ∈ timeline.filterEnds := by
  simp only [ends, contentEnds, filterEnds, List.mem_filterMap, List.mem_filter,
    Bool.not_eq_true']
  constructor
  · rintro ⟨layer, hlayer, hstop⟩
    cases hfilter : layer.content.isFilter with
    | false => exact .inl ⟨layer, ⟨hlayer, hfilter⟩, hstop⟩
    | true => exact .inr ⟨layer, ⟨hlayer, hfilter⟩, countedEnd_of_isFilter hfilter ▸ hstop⟩
  · rintro (⟨layer, ⟨hlayer, -⟩, hstop⟩ | ⟨layer, ⟨hlayer, hfilter⟩, hstop⟩)
    · exact ⟨layer, hlayer, hstop⟩
    · exact ⟨layer, hlayer, (countedEnd_of_isFilter hfilter).trans hstop⟩

theorem mem_ends_append {layer : Layer} (hfilter : layer.content.isFilter = true)
    {stop : Quantity} : stop ∈ (timeline.append [layer]).ends ↔
      stop ∈ timeline.ends ∨ stop ∈ layer.endTime.toList := by
  rw [ends, append, List.filterMap_append, List.mem_append, ends, Option.mem_toList,
    ← countedEnd_of_isFilter hfilter]
  simp [List.mem_filterMap]

section

variable (signs : rounding.KeepsSigns) (valid : timeline.IsValid)

include signs valid

/-- A filter leaves a length that is not set as it is just if its end fits the ends that count
already. -/
theorem duration_append_filter_iff (unset : timeline.options.duration = none) {layer : Layer}
    (hlayer : layer.IsValid) (hfilter : layer.content.isFilter = true) :
    (timeline.append [layer]).duration = timeline.duration ↔
      Fits timeline.ends layer.endTime.toList := by
  have hstarts : ∀ stop ∈ (timeline.append [layer]).ends, Layer.IsStart stop :=
    (valid.append (List.forall_mem_singleton.mpr hlayer)).countedEnds_isStart signs
  have hunset : (timeline.append [layer]).options.duration = none := unset
  rw [duration_of_unset unset, duration_of_unset hunset]
  exact lengthOf_eq_lengthOf_iff hstarts fun stop ↦ mem_ends_append hfilter

/-- A length that is not set is what the other layers account for just if the ends of the filters
fit theirs. -/
theorem duration_isLengthOf_iff (unset : timeline.options.duration = none) :
    IsLengthOf timeline.contentEnds timeline.duration ↔
      Fits timeline.contentEnds timeline.filterEnds := by
  have hstarts : ∀ stop ∈ timeline.ends, Layer.IsStart stop := valid.countedEnds_isStart signs
  rw [← lengthOf_eq_iff fun stop h ↦ hstarts stop (mem_ends.mpr (.inl h)), eq_comm,
    duration_of_unset unset]
  exact lengthOf_eq_lengthOf_iff hstarts fun stop ↦ mem_ends

end

/-! ## What filters change -/

omit rounding

/-- **A filter leaves the length of a timeline as it is** just if the length is set or the end of
the filter, if it has one, fits the ends that count already.  And a length that is not set is what
the layers account for that are no filters just if the ends of the filters fit theirs. -/
theorem filters_keep_length_iff (valid : timeline.IsValid) {layer : Layer}
    (hlayer : layer.IsValid) (hfilter : layer.content.isFilter = true) :
    let _ : Rounding := .binary64
    ((timeline.append [layer]).duration = timeline.duration ↔
        timeline.options.duration.isSome = true ∨ Fits timeline.ends layer.endTime.toList) ∧
      (timeline.options.duration = none →
        (IsLengthOf timeline.contentEnds timeline.duration ↔
          Fits timeline.contentEnds timeline.filterEnds)) := by
  intro _
  refine ⟨?_, duration_isLengthOf_iff binary64_keepsSigns valid⟩
  cases hset : timeline.options.duration with
  | some length =>
    have hkept : (timeline.append [layer]).options.duration = some length := hset
    simp [duration, hset, hkept]
  | none =>
    rw [duration_append_filter_iff binary64_keepsSigns valid hset hlayer hfilter]
    simp

/-- A blur of some length, or an open one. -/
def blurFor (duration : Option Quantity) : Layer := { duration, content := .filter ⟨"gblur", []⟩ }

theorem blurFor_isValid (duration : Option Quantity)
    (h : ∀ x ∈ duration, Layer.isLength x = true) : (blurFor duration).IsValid where
  startTime := by
    show Layer.IsStart (.finite 0)
    exact ⟨by decide, by decide⟩
  duration := h
  position := by rintro _ ⟨⟩
  style := by rintro _ ⟨⟩
  content := by
    show isAllBlank "gblur" = false
    decide

theorem empty_isValid : ({} : Timeline).IsValid :=
  ⟨List.forall_mem_nil _, RenderOptions.isValid_usual⟩

/-- On an empty timeline a blur of ten seconds doubles the length, one of two seconds shortens it,
and an open one leaves it. -/
theorem blurFor_length :
    let _ : Rounding := .binary64
    (({} : Timeline).append [blurFor (some (.finite 10))]).duration ≠ ({} : Timeline).duration ∧
      ¬ IsLengthOf (({} : Timeline).append [blurFor (some (.finite 2))]).contentEnds
        (({} : Timeline).append [blurFor (some (.finite 2))]).duration ∧
      (({} : Timeline).append [blurFor none]).duration = ({} : Timeline).duration := by
  intro _
  have hten := blurFor_isValid (some (.finite 10)) (by rintro _ ⟨⟩; decide)
  have htwo := blurFor_isValid (some (.finite 2)) (by rintro _ ⟨⟩; decide)
  have hopen := blurFor_isValid none (by rintro _ ⟨⟩)
  refine ⟨?_, ?_, ?_⟩
  · rw [ne_eq, (filters_keep_length_iff empty_isValid hten rfl).1]
    rintro (⟨⟨⟩⟩ | ⟨hle, -⟩)
    exact absurd (hle (.finite 10) (by decide +kernel)) (by decide)
  · rw [(filters_keep_length_iff (empty_isValid.append (List.forall_mem_singleton.mpr htwo)) htwo
      rfl).2 rfl]
    have hends :
        (({} : Timeline).append [blurFor (some (.finite 2))]).filterEnds = [.finite 2] := by
      decide +kernel
    rw [hends]
    rintro ⟨-, hstill⟩
    exact absurd (hstill rfl) (by decide)
  · exact (filters_keep_length_iff empty_isValid hopen rfl).1.mpr
      (.inr ⟨List.forall_mem_nil _, fun _ ↦ .inl rfl⟩)

end Timeline
end Montage
