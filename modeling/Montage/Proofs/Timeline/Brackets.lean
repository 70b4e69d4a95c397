import Montage.Proofs.Number.Same
import Montage.Proofs.Timeline.Joined
import Montage.Proofs.Timeline.Length

/-!
# How long joined timelines last

A joined timeline keeps the options of the first one.  So the length that was set for the second
one counts only if one was set for the first one too, which then grows by it; else the layers of
the second one count alone.  The lengths of both add up if the length of the first one was set, or
if the second one lasts for its layers, as it does unless its length was set (`concat_addsUp`).

For the same reason it may count how three timelines are bracketed.  It does not if the length of
both of the first two was set, or of none of them, or if what lies behind lasts for its layers
(`BracketsFit`).

Lengths are computed on the line of the rationals, with an infinite end.
-/

set_option autoImplicit false

namespace Montage
namespace Timeline

/-! ## Latest ends -/

/-- The place of the latest one of some ends, below everything if there are none. -/
def latestRank (ends : List Quantity) : WithBot (WithTop Rat) :=
  (ends.map Quantity.rank).foldr max ⊥

@[simp]
theorem latestRank_nil : latestRank [] = ⊥ := rfl

@[simp]
theorem latestRank_cons (stop : Quantity) (ends : List Quantity) :
    latestRank (stop :: ends) = max stop.rank (latestRank ends) := rfl

theorem latestRank_append (ends more : List Quantity) :
    latestRank (ends ++ more) = max (latestRank ends) (latestRank more) := by
  induction ends with
  | nil => simp
  | cons stop ends ih => simp [ih, max_assoc]

theorem rank_foldl_max {stop : Quantity} (hstop : stop ≠ .undefined) {ends : List Quantity}
    (hends : ∀ x ∈ ends, x ≠ .undefined) :
    (ends.foldl Quantity.max stop).rank = max stop.rank (latestRank ends) := by
  induction ends generalizing stop with
  | nil => simp
  | cons next ends ih =>
    rw [List.forall_mem_cons] at hends
    have hmax : stop.max next ≠ .undefined := by
      rw [Quantity.max]
      split
      · exact hends.1
      · exact hstop
    rw [List.foldl_cons, ih hmax hends.2, Quantity.rank_max hstop hends.1, latestRank_cons,
      max_assoc]

section

variable {ends : List Quantity} (hends : ∀ x ∈ ends, Quantity.le (.finite 0) x = true)
include hends

/-- Ends that are there lie above zero. -/
theorem latestRank_nonneg (hsome : ends ≠ []) : 0 ≤ latestRank ends := by
  cases ends with
  | nil => exact absurd rfl hsome
  | cons stop ends =>
    exact (Quantity.rank_nonneg (hends stop List.mem_cons_self)).trans (le_max_left _ _)

theorem latestRank_moved [rounding : Rounding] (exact : rounding.IsExact) {offset : Quantity}
    (hoffset : Quantity.le (.finite 0) offset = true) :
    latestRank (ends.map (·.add offset)) = latestRank ends + offset.rank := by
  induction ends with
  | nil => simp
  | cons stop ends ih =>
    rw [List.forall_mem_cons] at hends
    rw [List.map_cons, latestRank_cons, latestRank_cons, ih hends.2,
      Quantity.rank_add exact hends.1 hoffset, max_add_add_right]

end

/-! ## Layers -/

variable [rounding : Rounding]

/-- Something counts for the length whether it ends or not: anything but a filter. -/
def HasContent (timeline : Timeline) : Prop :=
  ∃ layer ∈ timeline.layers, layer.content.isFilter = false

/-- The length is that of the layers, whatever the options say. -/
def LastsForLayers (timeline : Timeline) : Prop := timeline.duration.Same timeline.layersEnd

variable {timeline other : Timeline}

theorem openLength_of_content {content : Content} (h : content.isFilter = false) :
    ∃ length, openLength content = some length := by
  cases content with
  | filter effect => cases h
  | video video => exact ⟨_, rfl⟩
  | audio audio => exact ⟨_, rfl⟩
  | image image => exact ⟨_, rfl⟩
  | text text transition => exact ⟨_, rfl⟩
  | caption caption => exact ⟨_, rfl⟩

theorem HasContent.ends_ne_nil (content : timeline.HasContent) : timeline.ends ≠ [] := by
  obtain ⟨layer, hlayer, hcontent⟩ := content
  obtain ⟨stop, hstop⟩ : ∃ stop, countedEnd layer = some stop := by
    rw [countedEnd]
    cases layer.duration with
    | some length => exact ⟨_, rfl⟩
    | none =>
      obtain ⟨length, hlength⟩ := openLength_of_content hcontent
      exact ⟨_, by simp [hlength]; rfl⟩
  exact List.ne_nil_of_mem (List.mem_filterMap.mpr ⟨layer, hlayer, hstop⟩)

section

variable (exact : rounding.IsExact) (valid : timeline.IsValid)
include exact valid

theorem IsValid.ends_nonneg : ∀ x ∈ timeline.ends, Quantity.le (.finite 0) x = true :=
  fun x hx ↦ (valid.countedEnds_isStart exact.keepsSigns x hx).nonnegative

theorem rank_layersEnd : timeline.layersEnd.rank = max 0 (latestRank timeline.ends) := by
  have hnonneg := IsValid.ends_nonneg exact valid
  rw [layersEnd, ← ends]
  cases hends : timeline.ends with
  | nil => simp [latest?, Quantity.rank]
  | cons stop stops =>
    rw [hends] at hnonneg
    have hdefined : ∀ x ∈ stop :: stops, x ≠ .undefined :=
      fun x hx ↦ (Quantity.le_defined (hnonneg x hx)).2
    rw [List.forall_mem_cons] at hdefined
    rw [max_eq_right (latestRank_nonneg hnonneg (List.cons_ne_nil _ _)), latest?, Option.getD_some,
      rank_foldl_max hdefined.1 hdefined.2, latestRank_cons]

end

/-- Without a length of its own a timeline lasts for its layers. -/
theorem lastsForLayers_of_unset (content : timeline.HasContent)
    (unset : timeline.options.duration = none) : timeline.LastsForLayers := by
  have hsome := content.ends_ne_nil
  rw [LastsForLayers, duration_of_unset unset, layersEnd, ← ends, lengthOf]
  cases hends : timeline.ends with
  | nil => exact absurd hends hsome
  | cons stop stops => rfl

section

variable (exact : rounding.IsExact) (valid : timeline.IsValid) (next : other.IsValid)
include exact

theorem layersEnd_nonneg (valid : timeline.IsValid) :
    Quantity.le (.finite 0) timeline.layersEnd = true := by
  rw [layersEnd]
  cases hlatest : latest? (timeline.layers.filterMap countedEnd) with
  | none => decide
  | some latest => exact IsValid.ends_nonneg exact valid latest (latest?_mem hlatest)

theorem lastsForLayers_iff_rank (valid : timeline.IsValid) :
    timeline.LastsForLayers ↔ timeline.duration.rank = timeline.layersEnd.rank := by
  have hduration := valid.duration_isNonnegative exact.keepsSigns
  exact Quantity.same_iff_rank (Quantity.le_defined hduration).2
    (Quantity.le_defined (layersEnd_nonneg exact valid)).2

include valid next

/-- The layers of the second timeline end behind the first one. -/
theorem rank_layersEnd_followedBy (hjoined : (timeline.followedBy other).IsValid)
    (content : other.HasContent) : (timeline.followedBy other).layersEnd.rank =
      max timeline.layersEnd.rank (timeline.duration.rank + other.layersEnd.rank) := by
  have hnonneg := IsValid.ends_nonneg exact next
  have hends : (timeline.followedBy other).ends =
      timeline.ends ++ other.ends.map (·.add timeline.duration) :=
    countedEnds_followedBy exact valid next
  have hduration := valid.duration_isNonnegative exact.keepsSigns
  rw [rank_layersEnd exact hjoined, rank_layersEnd exact valid, rank_layersEnd exact next, hends,
    latestRank_append, latestRank_moved hnonneg exact hduration,
    max_eq_right (latestRank_nonneg hnonneg content.ends_ne_nil), add_comm, max_assoc]

theorem rank_duration_followedBy : (timeline.followedBy other).duration.rank =
    timeline.duration.rank + (timeline.lengthBehind other).rank := by
  rw [duration_followedBy exact valid next]
  exact Quantity.rank_add exact (valid.duration_isNonnegative exact.keepsSigns)
    (lengthBehind_isNonnegative exact next)

end

/-! ## Sums -/

/-- How the length of a joined timeline is made of those of its parts. -/
structure AddsUp (timeline other joined : Timeline) : Prop
    extends IsJoined timeline other joined where
  /-- The length of the first one grows by the length of the second one if it was set, and else by
  that of the layers of the second one. -/
  duration : joined.duration.Same (timeline.duration.add (timeline.lengthBehind other))
  /-- The lengths add up if that of the second one was set only if that of the first one was. -/
  sum : (other.options.duration.isSome = true → timeline.options.duration.isSome = true) →
    joined.duration.Same (timeline.duration.add other.duration)
  /-- If the first one ends, then they add up just if its length was set or the second one lasts
  for its layers. -/
  sum_iff : timeline.duration.isFinite = true →
    (joined.duration.Same (timeline.duration.add other.duration) ↔
      timeline.options.duration.isSome = true ∨ other.LastsForLayers)

/-- It does not count how three timelines are bracketed. -/
def BracketsFit (first second third : Timeline) : Prop :=
  (first.options.duration.isSome = second.options.duration.isSome) ∨
    (first.options.duration.isSome = true ∧ third.LastsForLayers) ∨
    (second.options.duration.isSome = true ∧ second.LastsForLayers)

section

variable (exact : rounding.IsExact) (valid : timeline.IsValid) (next : other.IsValid)
include exact valid next

theorem followedBy_addsUp (content : other.HasContent) :
    timeline.AddsUp other (timeline.followedBy other) := by
  have signs := exact.keepsSigns
  have hduration := duration_followedBy exact valid next
  have hset (set : timeline.options.duration.isSome = true) :
      timeline.lengthBehind other = other.duration := if_pos set
  have hunset (unset : ¬ timeline.options.duration.isSome = true) :
      timeline.lengthBehind other = other.layersEnd := if_neg unset
  have hsum (h : timeline.options.duration.isSome = true ∨ other.LastsForLayers) :
      (timeline.followedBy other).duration.Same (timeline.duration.add other.duration) := by
    rw [hduration]
    by_cases set : timeline.options.duration.isSome = true
    · rw [hset set]
      exact .refl _
    · rw [hunset set]
      exact (Quantity.Same.refl _).add exact (h.resolve_left set).symm
  refine ⟨followedBy_isJoined timeline other, hduration ▸ .refl _, fun h ↦ hsum ?_,
    fun hfinite ↦ ⟨fun hsame ↦ ?_, hsum⟩⟩
  · by_cases also : other.options.duration.isSome = true
    · exact .inl (h also)
    · exact .inr (lastsForLayers_of_unset content (by simpa using also))
  · refine or_iff_not_imp_left.mpr fun unset ↦ ?_
    have hrank := hsame.rank_eq
    rw [rank_duration_followedBy exact valid next, hunset unset, Quantity.rank_add exact
      (valid.duration_isNonnegative signs) (next.duration_isNonnegative signs)] at hrank
    have hends := Quantity.rank_add_left_cancel hfinite hrank
    exact (lastsForLayers_iff_rank exact next).mpr hends.symm

end

section

variable {first second third : Timeline} (exact : rounding.IsExact) (hfirst : first.IsValid)
  (hsecond : second.IsValid) (hthird : third.IsValid)

theorem lengthBehind_followedBy :
    (first.followedBy second).lengthBehind third = first.lengthBehind third := by
  rw [lengthBehind, lengthBehind, followedBy, Option.isSome_map]

include exact hfirst hsecond hthird

/-- The first two timelines joined, and the third one behind them. -/
theorem rank_bracketed_left (hleft : (first.followedBy second).IsValid) :
    ((first.followedBy second).followedBy third).duration.rank = first.duration.rank +
      ((first.lengthBehind second).rank + (first.lengthBehind third).rank) := by
  rw [rank_duration_followedBy exact hleft hthird, rank_duration_followedBy exact hfirst hsecond,
    lengthBehind_followedBy, add_assoc]

/-- The last two timelines joined behind the first one, if its length was set. -/
theorem rank_bracketed_right_of_set (hright : (second.followedBy third).IsValid)
    (set : first.options.duration.isSome = true) :
    (first.followedBy (second.followedBy third)).duration.rank = first.duration.rank +
      (second.duration.rank + (second.lengthBehind third).rank) := by
  rw [rank_duration_followedBy exact hfirst hright, lengthBehind, if_pos set,
    rank_duration_followedBy exact hsecond hthird]

/-- The last two timelines joined behind the first one, if its length was not set. -/
theorem rank_bracketed_right_of_unset (hright : (second.followedBy third).IsValid)
    (content : third.HasContent) (unset : ¬ first.options.duration.isSome = true) :
    (first.followedBy (second.followedBy third)).duration.rank = first.duration.rank +
      max second.layersEnd.rank (second.duration.rank + third.layersEnd.rank) := by
  rw [rank_duration_followedBy exact hfirst hright, lengthBehind, if_neg unset,
    rank_layersEnd_followedBy exact hsecond hthird hright content]

/-- **It does not count how timelines are bracketed that fit.** -/
theorem bracketed_same (hleft : (first.followedBy second).IsValid)
    (hright : (second.followedBy third).IsValid) (hcontent : second.HasContent)
    (content : third.HasContent) (fit : BracketsFit first second third) :
    ((first.followedBy second).followedBy third).duration.rank =
      (first.followedBy (second.followedBy third)).duration.rank := by
  rw [rank_bracketed_left exact hfirst hsecond hthird hleft]
  have hlater : second.layersEnd.rank ≤ second.layersEnd.rank + third.layersEnd.rank :=
    le_add_of_nonneg_right (Quantity.rank_nonneg (layersEnd_nonneg exact hthird))
  by_cases set : first.options.duration.isSome = true
  · rw [rank_bracketed_right_of_set exact hfirst hsecond hthird hright set]
    by_cases also : second.options.duration.isSome = true
    · rw [lengthBehind, lengthBehind, lengthBehind, if_pos set, if_pos set, if_pos also]
    · have hlasts : third.LastsForLayers := by
        rcases fit with h | ⟨-, h⟩ | ⟨h, -⟩
        · exact absurd (h ▸ set) also
        · exact h
        · exact absurd h also
      rw [lengthBehind, lengthBehind, lengthBehind, if_pos set, if_pos set, if_neg also,
        hlasts.rank_eq]
  · rw [rank_bracketed_right_of_unset exact hfirst hsecond hthird hright content set]
    have hlasts : second.LastsForLayers := by
      by_cases also : second.options.duration.isSome = true
      · rcases fit with h | ⟨h, -⟩ | ⟨-, h⟩
        · exact absurd (h ▸ also) set
        · exact absurd h set
        · exact h
      · exact lastsForLayers_of_unset hcontent (by simpa using also)
    rw [lengthBehind, lengthBehind, if_neg set, if_neg set, hlasts.rank_eq,
      max_eq_right hlater]

/-- Three timelines that end last equally long only if they fit. -/
theorem bracketsFit_of_same (hleft : (first.followedBy second).IsValid)
    (hright : (second.followedBy third).IsValid) (hcontent : second.HasContent)
    (content : third.HasContent) (hstart : first.duration.isFinite = true)
    (hmiddle : second.layersEnd.isFinite = true) (hlast : third.layersEnd.isFinite = true)
    (hsome : Quantity.lt (.finite 0) third.layersEnd = true)
    (h : ((first.followedBy second).followedBy third).duration.rank =
      (first.followedBy (second.followedBy third)).duration.rank) :
    BracketsFit first second third := by
  rw [rank_bracketed_left exact hfirst hsecond hthird hleft] at h
  by_cases set : first.options.duration.isSome = true <;>
    by_cases also : second.options.duration.isSome = true
  · exact .inl (set.trans also.symm)
  · have hlasts := lastsForLayers_of_unset hcontent (by simpa using also)
    rw [rank_bracketed_right_of_set exact hfirst hsecond hthird hright set, lengthBehind,
      lengthBehind, lengthBehind, if_pos set, if_pos set, if_neg also, hlasts.rank_eq] at h
    have hends := Quantity.rank_add_left_cancel hmiddle (Quantity.rank_add_left_cancel hstart h)
    exact .inr (.inl ⟨set, (lastsForLayers_iff_rank exact hthird).mpr hends⟩)
  · obtain ⟨length, hlength⟩ := Option.isSome_iff_exists.mp also
    have hduration : second.duration = length := by rw [duration, hlength]
    have hfinite := (Bool.and_eq_true_iff.mp (hsecond.options.duration length hlength)).2
    rw [rank_bracketed_right_of_unset exact hfirst hsecond hthird hright content set,
      lengthBehind, lengthBehind, if_neg set, if_neg set] at h
    have hends := Quantity.rank_eq_of_add_eq_max hmiddle (hduration ▸ hfinite) hlast hsome
      (Quantity.rank_add_left_cancel hstart h)
    exact .inr (.inr ⟨also, (lastsForLayers_iff_rank exact hsecond).mpr hends⟩)
  · exact .inl (by rw [Bool.eq_false_iff.mpr set, Bool.eq_false_iff.mpr also])

end

/-- How three timelines are joined in two ways. -/
structure Bracketed (first second third left right : Timeline) : Prop where
  /-- It does not count how they are bracketed if they fit. -/
  same : BracketsFit first second third → left.duration.Same right.duration
  /-- If the first one and the layers of the others end, the last of them not at once, then they
  fit just if it does not count. -/
  same_iff : first.duration.isFinite = true → second.layersEnd.isFinite = true →
    third.layersEnd.isFinite = true → Quantity.lt (.finite 0) third.layersEnd = true →
    (left.duration.Same right.duration ↔ BracketsFit first second third)

/-- **The lengths of joined timelines add up**, if times are not rounded and if the length of the
first one was set or that of the second one was not. -/
theorem concat_addsUp {first second third : Timeline} (exact : rounding.IsExact)
    (hfirst : first.IsValid) (hsecond : second.IsValid) (hthird : third.IsValid)
    (content : second.HasContent) (more : third.HasContent) :
    ((∃ joined, first.concat second = .ok joined) ↔
      (first.options.duration.isSome = true → second.duration.isFinite = true)) ∧
    (∀ joined, first.concat second = .ok joined → first.AddsUp second joined) ∧
    ∀ front left back right, first.concat second = .ok front → front.concat third = .ok left →
      second.concat third = .ok back → first.concat back = .ok right →
      Bracketed first second third left right := by
  have signs := exact.keepsSigns
  refine ⟨exists_concat_iff exact hfirst hsecond, fun joined h ↦ ?_, ?_⟩
  · obtain ⟨-, rfl⟩ := concat_eq_ok.mp h
    exact followedBy_addsUp exact hfirst hsecond content
  · intro front left back right hfront hleft hback hright
    have hfrontValid := hfirst.concat signs hsecond hfront
    have hbackValid := hsecond.concat signs hthird hback
    have hleftValid := hfrontValid.concat signs hthird hleft
    have hrightValid := hfirst.concat signs hbackValid hright
    obtain ⟨-, rfl⟩ := concat_eq_ok.mp hfront
    obtain ⟨-, rfl⟩ := concat_eq_ok.mp hleft
    obtain ⟨-, rfl⟩ := concat_eq_ok.mp hback
    obtain ⟨-, rfl⟩ := concat_eq_ok.mp hright
    have hsame := Quantity.same_iff_rank
      (Quantity.le_defined (hleftValid.duration_isNonnegative signs)).2
      (Quantity.le_defined (hrightValid.duration_isNonnegative signs)).2
    have hfit (fit : BracketsFit first second third) :=
      hsame.mpr (bracketed_same exact hfirst hsecond hthird hfrontValid hbackValid content more fit)
    exact ⟨hfit, fun hstart hmiddle hlast hsome ↦ ⟨fun h ↦ bracketsFit_of_same exact hfirst hsecond
      hthird hfrontValid hbackValid content more hstart hmiddle hlast hsome h.rank_eq, hfit⟩⟩

omit rounding in
/-- Three titles of two, five and three seconds last for ten seconds, however they are bracketed. -/
theorem threeTitles_addUp : let _ : Rounding := .exact
    ∃ front left back right,
      (titled "One" (some (.finite 2))).concat (titled "Two" none) = .ok front ∧
      front.concat (titled "Three" (some (.finite 3))) = .ok left ∧
      (titled "Two" none).concat (titled "Three" (some (.finite 3))) = .ok back ∧
      (titled "One" (some (.finite 2))).concat back = .ok right ∧
      front.duration.Same (.finite 7) ∧ left.duration.Same right.duration := by
  intro _
  have hone : (titled "One" (some (.finite 2))).IsValid :=
    titled_isValid "One" (by rintro _ ⟨⟩; decide)
  have htwo : (titled "Two" none).IsValid := titled_isValid "Two" (by rintro _ ⟨⟩)
  have hthree : (titled "Three" (some (.finite 3))).IsValid :=
    titled_isValid "Three" (by rintro _ ⟨⟩; decide)
  obtain ⟨-, hsum, hbracketed⟩ := concat_addsUp Rounding.exact_isExact hone htwo hthree
    ⟨_, List.mem_singleton_self _, rfl⟩ ⟨_, List.mem_singleton_self _, rfl⟩
  refine ⟨_, _, _, _, rfl, rfl, rfl, rfl, ?_, (hbracketed _ _ _ _ rfl rfl rfl rfl).same (.inl rfl)⟩
  have hlength : (titled "One" (some (.finite 2))).duration.add (titled "Two" none).duration =
      .finite 7 := by decide +kernel
  exact hlength ▸ (hsum _ rfl).sum (by rintro ⟨⟩)

/-- A title of some seconds in a timeline whose length is set. -/
def titledFor (text : String) (duration length : Quantity) : Timeline :=
  { titled text (some duration) with
    options := { (titled text (some duration)).options with duration := some length } }

omit rounding in
/-- The length that was set for the second timeline is lost, so the joined one lasts for ten seconds
and not for twenty-five; and with a third one behind it lasts for fifteen or for thirty. -/
theorem setLength_lost : let _ : Rounding := .exact
    (titled "One" (some (.finite 5))).duration = .finite 5 ∧
      (titledFor "Two" (.finite 5) (.finite 20)).duration = .finite 20 ∧
      ∃ front left back right,
        (titled "One" (some (.finite 5))).concat (titledFor "Two" (.finite 5) (.finite 20)) =
          .ok front ∧
        front.concat (titled "Three" (some (.finite 5))) = .ok left ∧
        (titledFor "Two" (.finite 5) (.finite 20)).concat (titled "Three" (some (.finite 5))) =
          .ok back ∧
        (titled "One" (some (.finite 5))).concat back = .ok right ∧
        front.duration = .finite 10 ∧ left.duration = .finite 15 ∧ right.duration = .finite 30 := by
  intro _
  have hback : (titledFor "Two" (.finite 5) (.finite 20)).concat (titled "Three" (some (.finite 5)))
      = .ok _ := concat_eq_ok.mpr ⟨fun _ ↦ by decide +kernel, rfl⟩
  refine ⟨by decide +kernel, by decide +kernel, _, _, _, _, rfl, rfl, hback, rfl, ?_⟩
  exact ⟨by decide +kernel, by decide +kernel, by decide +kernel⟩

end Timeline
end Montage
