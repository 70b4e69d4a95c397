import Montage.Proofs.Command.Drawn

/-!
# One timeline behind another

Joining two timelines moves the layers of the second one behind the length of the first one.  Up to
that length the joined timeline shows what the first one shows.  From there on it shows what the
second one shows, and in front of that whatever of the first one has no end before: the joined
timeline keeps open layers open, and they last until it ends (`Timeline.concat_playsAfter`).

Nothing is rounded here: the times are those of the rationals, and infinite ones.
-/

set_option autoImplicit false

namespace Montage

variable [rounding : Rounding]

/-- Changing the length alone changes nothing else, and the new length has to be one. -/
theorem RenderOptions.decodeOver_duration (options : RenderOptions) (x : Quantity) :
    options.decodeOver (.obj [("duration", .quantity x)]) =
      if isSpan x = true then .ok { options with duration := some x }
      else .failed [["duration"]] := by
  have hduration : (Decoder.quantity.such fun x ↦ Style.isNonnegative x && x.isFinite).optional
      (.quantity x) = if isSpan x = true then .ok (some x) else .reject := by
    show Checked.map some _ = _
    rw [Decoder.such_quantity, isSpan]
    split <;> rfl
  split <;> rename_i hspan
  · simp [decodeOver, Decoder.object, Decoder.field, Decoder.written?, Json.get?, Json.lookup?,
      Decoder.snakeCase, hduration, hspan]
  · simp [decodeOver, Decoder.object, Decoder.field, Decoder.written?, Json.get?, Json.lookup?,
      Decoder.snakeCase, hduration, hspan]
    rfl

namespace Timeline

variable {timeline other joined : Timeline}

/-! ## Joining -/

theorem withOptions_duration_eq_ok {next : Timeline} {x : Quantity} :
    timeline.withOptions [("duration", .quantity x)] = .ok next ↔
      RenderOptions.isSpan x = true ∧
        next = { timeline with options := { timeline.options with duration := some x } } := by
  rw [withOptions, RenderOptions.decodeOver_duration]
  split
  · rename_i hspan
    simp only [hspan, true_and]
    show Except.ok _ = _ ↔ _
    rw [Except.ok.injEq, eq_comm]
  · rename_i hspan
    simp only [hspan, Bool.false_eq_true, false_and, iff_false]
    rintro ⟨⟩

/-- The layers of another timeline behind a timeline, which keeps its options but for its length. -/
def followedBy (timeline other : Timeline) : Timeline where
  layers := timeline.layers ++ other.layers.map fun layer ↦ layer.shifted timeline.duration
  options := { timeline.options with
    duration := timeline.options.duration.map fun _ ↦ timeline.duration.add other.duration }

/-- Joining fails only for a length that was set and cannot grow. -/
theorem concat_eq_ok : timeline.concat other = .ok joined ↔
    (timeline.options.duration.isSome = true →
      RenderOptions.isSpan (timeline.duration.add other.duration) = true) ∧
    joined = timeline.followedBy other := by
  rw [concat, followedBy]
  cases hset : timeline.options.duration with
  | none =>
    have hkept : { timeline.options with duration := none } = timeline.options := by rw [← hset]
    rw [Except.ok.injEq, eq_comm, append, Option.map_none, hkept]
    simp
  | some length =>
    dsimp only
    rw [withOptions_duration_eq_ok, append]
    simp

/-! ## Lengths -/

/-- The latest end of the layers that count, whatever the options say. -/
def layersEnd (timeline : Timeline) : Quantity :=
  (latest? (timeline.layers.filterMap countedEnd)).getD (.finite 0)

/-- The length for which another timeline counts behind a timeline: its own length if the length of
the first one was set, and else the length of its layers. -/
def lengthBehind (timeline other : Timeline) : Quantity :=
  if timeline.options.duration.isSome then other.duration else other.layersEnd

section

variable (exact : rounding.IsExact) (valid : timeline.IsValid) (next : other.IsValid)

include exact

/-- A layer that is moved ends later by as much. -/
theorem countedEnd_shifted {layer : Layer} (hlayer : layer.IsValid) {offset : Quantity}
    (hoffset : Style.isNonnegative offset = true) :
    countedEnd (layer.shifted offset) = (countedEnd layer).map (·.add offset) := by
  have hstart := hlayer.startTime.nonnegative
  rw [countedEnd, countedEnd, Layer.shifted]
  cases hduration : layer.duration with
  | some length =>
    have hlength := isNonnegative_of_isLength (hlayer.duration length hduration)
    exact congrArg some (Quantity.add_right_comm exact hstart hoffset hlength)
  | none =>
    dsimp only
    cases hopen : openLength layer.content with
    | none => rfl
    | some length =>
      have hlength := openLength_isNonnegative hopen
      exact congrArg some (Quantity.add_right_comm exact hstart hoffset hlength)

theorem add_zero_of_isStart {x : Quantity} (hx : Layer.IsStart x) : x.add (.finite 0) = x := by
  obtain ⟨q, -, rfl⟩ | rfl | rfl := Quantity.le_zero_iff.mp hx.nonnegative
  · rw [Quantity.finite_add exact, add_zero]
  · exact absurd rfl hx.unsigned
  · rfl

/-- The latest of some ends is the latest one still if all are moved. -/
theorem latest?_moved {offset : Quantity} (hoffset : Layer.IsStart offset) {ends : List Quantity}
    (hends : ∀ x ∈ ends, Layer.IsStart x) :
    (latest? (ends.map (·.add offset))).getD offset
      = offset.add ((latest? ends).getD (.finite 0)) := by
  cases ends with
  | nil => exact (add_zero_of_isStart exact hoffset).symm
  | cons x ends =>
    rw [List.forall_mem_cons] at hends
    have hmoved := Quantity.foldl_max_add exact hends.1.nonnegative
      (fun y hy ↦ (hends.2 y hy).nonnegative) hoffset.nonnegative
    rw [Quantity.add_comm offset]
    exact hmoved

/-- Ends that are moved behind a time are later than it. -/
theorem foldl_max_moved {offset : Quantity} (hoffset : Layer.IsStart offset) {ends : List Quantity}
    (hends : ∀ x ∈ ends, Layer.IsStart x) :
    (ends.map (·.add offset)).foldl Quantity.max offset
      = offset.add ((latest? ends).getD (.finite 0)) := by
  rw [← latest?_moved exact hoffset hends]
  cases ends with
  | nil => rfl
  | cons x ends =>
    rw [List.forall_mem_cons] at hends
    have hzero : Quantity.le (.finite 0) (.finite 0) = true := by decide
    have hlater := Quantity.max_add exact hzero hends.1.nonnegative hoffset.nonnegative
    have hx : Quantity.max (.finite 0) x = x := Layer.clampStart_of_isStart hends.1
    rw [Quantity.add_comm, add_zero_of_isStart exact hoffset, hx] at hlater
    rw [List.map_cons, List.foldl_cons, hlater]
    rfl

include valid next

/-- The ends that count of the second timeline are moved behind the first one. -/
theorem countedEnds_followedBy : (timeline.followedBy other).layers.filterMap countedEnd =
    timeline.layers.filterMap countedEnd
      ++ (other.layers.filterMap countedEnd).map (·.add timeline.duration) := by
  rw [followedBy, List.filterMap_append, List.filterMap_map, List.map_filterMap]
  congr 1
  exact List.filterMap_congr fun layer hlayer ↦ countedEnd_shifted exact (next.layers layer hlayer)
    (valid.duration_isNonnegative exact.keepsSigns)

/-- **A joined timeline lasts for the first one and for what counts of the second one.** -/
theorem duration_followedBy :
    (timeline.followedBy other).duration = timeline.duration.add (timeline.lengthBehind other) := by
  have signs := exact.keepsSigns
  rw [lengthBehind]
  cases hset : timeline.options.duration with
  | some length => simp [duration, followedBy, hset]
  | none =>
    have hnext := next.countedEnds_isStart signs
    have hjoined : (timeline.followedBy other).duration
        = (latest? ((timeline.followedBy other).layers.filterMap countedEnd)).getD stillDuration := by
      simp [duration, followedBy, hset]
    have hfirst : timeline.duration
        = (latest? (timeline.layers.filterMap countedEnd)).getD stillDuration := by
      simp [duration, hset]
    have hlatest := valid.countedEnds_isStart signs
    rw [hjoined, countedEnds_followedBy exact valid next]
    cases hown : timeline.layers.filterMap countedEnd with
    | nil =>
      rw [hown] at hfirst
      have hstart : Layer.IsStart timeline.duration := by
        rw [hfirst]
        exact ⟨by decide, by decide⟩
      have hstill : stillDuration = timeline.duration := hfirst.symm
      rw [List.nil_append, hstill, latest?_moved exact hstart hnext]
      rfl
    | cons stop stops =>
      rw [hown] at hfirst hlatest
      have hstart : Layer.IsStart timeline.duration :=
        hfirst ▸ hlatest _ (latest?_mem rfl)
      have hlast : stops.foldl Quantity.max stop = timeline.duration := hfirst.symm
      rw [List.cons_append, latest?, Option.getD_some, List.foldl_append, hlast,
        foldl_max_moved exact hstart hnext]
      rfl

omit valid in
theorem lengthBehind_isNonnegative :
    Style.isNonnegative (timeline.lengthBehind other) = true := by
  have signs := exact.keepsSigns
  rw [lengthBehind]
  split
  · exact next.duration_isNonnegative signs
  · rw [layersEnd]
    cases hlatest : latest? (other.layers.filterMap countedEnd) with
    | none => decide
    | some latest => exact (next.countedEnds_isStart signs _ (latest?_mem hlatest)).nonnegative

end

/-! ## What is visible -/

section

variable (exact : rounding.IsExact)

include exact

/-- Moving a layer and the end of the timeline is moving the clock back. -/
theorem isVisible_shifted {layer : Layer} (hlayer : layer.IsValid) {offset : Quantity}
    (hoffset : Style.isNonnegative offset = true) (hfinite : offset.isFinite = true)
    (length : Quantity) (t : Rat) :
    (layer.shifted offset).isVisible (offset.add length) (.finite t)
      = layer.isVisible length ((Quantity.finite t).sub offset) := by
  have hend : (layer.shifted offset).endTime.getD (offset.add length)
      = (layer.endTime.getD length).add offset := by
    rw [Layer.endTime, Layer.endTime, Layer.shifted]
    cases hduration : layer.duration with
    | none => exact Quantity.add_comm _ _
    | some own =>
      have hown := isNonnegative_of_isLength (hlayer.duration own hduration)
      exact Quantity.add_right_comm exact hlayer.startTime.nonnegative hoffset hown
  rw [Layer.isVisible, Layer.isVisible, hend, Quantity.lt_add exact hfinite]
  congr 1
  exact Quantity.add_le exact hfinite t layer.startTime

/-- A layer that is moved is not visible before the offset. -/
theorem isVisible_shifted_before {layer : Layer} (hlayer : layer.IsValid) {offset : Quantity}
    (hoffset : Style.isNonnegative offset = true) (length : Quantity) {time : Quantity}
    (h : time.lt offset = true) : (layer.shifted offset).isVisible length time = false := by
  have hlater := Quantity.le_add exact hlayer.startTime.nonnegative hoffset
  have hbefore := Quantity.lt_of_lt_of_le h hlater
  obtain ⟨htime, hstart⟩ := Quantity.lt_defined hbefore
  have hnot : (layer.shifted offset).startTime.le time = false := by
    rw [Bool.eq_false_iff]
    intro hle
    have hself := Quantity.lt_of_lt_of_le hbefore hle
    rw [Quantity.lt_iff htime htime] at hself
    exact lt_irrefl _ hself
  rw [Layer.isVisible, hnot, Bool.false_and]

variable (valid : timeline.IsValid) (next : other.IsValid) (t : Rat)

include valid next

/-- Up to the length of the first timeline, what it shows is visible. -/
theorem visibleAt_followedBy_before (h : Quantity.lt (.finite t) timeline.duration = true) :
    (timeline.followedBy other).visibleAt (.finite t) = timeline.visibleAt (.finite t) := by
  have hnonnegative := valid.duration_isNonnegative exact.keepsSigns
  have hlater : Quantity.lt (.finite t) (timeline.followedBy other).duration = true := by
    rw [duration_followedBy exact valid next, Quantity.add_comm]
    exact Quantity.lt_of_lt_of_le h
      (Quantity.le_add exact (lengthBehind_isNonnegative exact next) hnonnegative)
  have hsecond : (other.layers.map fun layer ↦ layer.shifted timeline.duration).filter
      (Layer.isVisible (timeline.followedBy other).duration (.finite t)) = [] := by
    rw [List.filter_eq_nil_iff, List.forall_mem_map]
    intro layer hlayer
    rw [isVisible_shifted_before exact (next.layers layer hlayer) hnonnegative _ h]
    exact Bool.false_ne_true
  rw [visibleAt, visibleAt, followedBy, List.filter_append, ← followedBy, hsecond, List.append_nil]
  refine List.filter_congr fun layer _ ↦ ?_
  rw [Layer.isVisible, Layer.isVisible]
  cases layer.endTime with
  | none => rw [Option.getD_none, Option.getD_none, h, hlater]
  | some stop => rfl

omit next in
/-- A timeline that is over at some time has a finite length. -/
theorem IsValid.isFinite_of_le (h : timeline.duration.le (.finite t) = true) :
    timeline.duration.isFinite = true := by
  obtain ⟨q, -, hq⟩ | hq | hq :=
    Quantity.le_zero_iff.mp (valid.duration_isNonnegative exact.keepsSigns)
  · rw [hq]
    rfl
  · rw [hq]
    rfl
  · rw [hq] at h
    cases h

/-- From there on, what has no end before of the first timeline is visible and what the second one
shows. -/
theorem visibleAt_followedBy_behind (h : timeline.duration.le (.finite t) = true) :
    (timeline.followedBy other).visibleAt (.finite t) =
      timeline.layers.filter (Layer.isVisible (timeline.followedBy other).duration (.finite t)) ++
        (other.layers.filter (Layer.isVisible (timeline.lengthBehind other)
          ((Quantity.finite t).sub timeline.duration))).map (·.shifted timeline.duration) := by
  have hnonnegative := valid.duration_isNonnegative exact.keepsSigns
  have hfinite := IsValid.isFinite_of_le exact valid t h
  rw [visibleAt, followedBy, List.filter_append, ← followedBy, List.filter_map]
  congr 2
  refine List.filter_congr fun layer hlayer ↦ ?_
  rw [Function.comp_apply, duration_followedBy exact valid next,
    isVisible_shifted exact (next.layers layer hlayer) hnonnegative hfinite]

end

/-! ## One behind the other -/

/-- Every layer ends, and not behind the timeline. -/
def EndsInTime (timeline : Timeline) : Prop :=
  ∀ layer ∈ timeline.layers, ∃ stop, layer.endTime = some stop ∧ stop.le timeline.duration = true

/-- Behind the first timeline, no open layer of the second one ends before its time. -/
def FillsBehind (timeline other : Timeline) : Prop :=
  (∀ layer ∈ other.layers, layer.duration.isSome = true) ∨
    other.duration.le (timeline.lengthBehind other) = true

/-- What a joined timeline is made of. -/
structure IsJoined (timeline other joined : Timeline) : Prop where
  /-- The layers of the first timeline stay in front; those of the second one are moved by its
  length. -/
  layers : joined.layers = timeline.layers ++ other.layers.map (·.shifted timeline.duration)
  /-- The options of the first timeline are kept, but that a length that was set for it grows by the
  length of the second one. -/
  options : joined.options = { timeline.options with
    duration := timeline.options.duration.map fun _ ↦ timeline.duration.add other.duration }

theorem followedBy_isJoined (timeline other : Timeline) :
    IsJoined timeline other (timeline.followedBy other) := ⟨rfl, rfl⟩

/-- A timeline shows what one timeline shows and then what another one shows, together with what has
no end before of the first one. -/
structure PlaysAfter (timeline other joined : Timeline) : Prop
    extends IsJoined timeline other joined where
  /-- The joined timeline lasts for the first one and for what counts of the second one. -/
  duration : joined.duration = timeline.duration.add (timeline.lengthBehind other)
  /-- Up to the length of the first timeline, exactly its layers are visible that are so in it. -/
  before (t : Rat) : Quantity.lt (.finite t) timeline.duration = true →
    joined.visibleAt (.finite t) = timeline.visibleAt (.finite t)
  /-- From there on, layers of the first timeline are visible until their own end or, if they are
  open, until the joined timeline ends; and so are those of the second one, an open one of them
  lasting as long as the second timeline counts. -/
  behind (t : Rat) : timeline.duration.le (.finite t) = true → joined.visibleAt (.finite t) =
    timeline.layers.filter (Layer.isVisible joined.duration (.finite t)) ++
      (other.layers.filter (Layer.isVisible (timeline.lengthBehind other)
        ((Quantity.finite t).sub timeline.duration))).map (·.shifted timeline.duration)
  /-- If nothing of the first timeline is left over and the second one fills its time, then exactly
  the layers of the second one are visible that are so in it, until the lengths of both are over. -/
  alone (t : Rat) : timeline.EndsInTime → timeline.FillsBehind other →
    timeline.duration.le (.finite t) = true →
    Quantity.lt (.finite t) (timeline.duration.add other.duration) = true →
    joined.visibleAt (.finite t) =
      (other.visibleAt ((Quantity.finite t).sub timeline.duration)).map
        (·.shifted timeline.duration)

section

variable (exact : rounding.IsExact) (valid : timeline.IsValid) (next : other.IsValid)

include exact valid next

theorem followedBy_alone {t : Rat} (ends : timeline.EndsInTime) (fills : timeline.FillsBehind other)
    (hbehind : timeline.duration.le (.finite t) = true)
    (hbefore : Quantity.lt (.finite t) (timeline.duration.add other.duration) = true) :
    (timeline.followedBy other).visibleAt (.finite t) =
      (other.visibleAt ((Quantity.finite t).sub timeline.duration)).map
        (·.shifted timeline.duration) := by
  have hfinite := IsValid.isFinite_of_le exact valid t hbehind
  rw [Quantity.add_comm, Quantity.lt_add exact hfinite] at hbefore
  have hleft : timeline.layers.filter
      (Layer.isVisible (timeline.followedBy other).duration (.finite t)) = [] := by
    refine List.filter_eq_nil_iff.mpr fun layer hlayer ↦ ?_
    obtain ⟨stop, hstop, hle⟩ := ends layer hlayer
    have hover := Quantity.le_trans hle hbehind
    obtain ⟨hdefined, htime⟩ := Quantity.le_defined hover
    rw [Layer.isVisible, hstop, Option.getD_some, (Quantity.lt_eq_false htime hdefined).mpr hover,
      Bool.and_false]
    exact Bool.false_ne_true
  rw [visibleAt_followedBy_behind exact valid next t hbehind, hleft, List.nil_append, visibleAt]
  congr 1
  refine List.filter_congr fun layer hlayer ↦ ?_
  rw [Layer.isVisible, Layer.isVisible, Layer.endTime]
  cases hduration : layer.duration with
  | some own => rfl
  | none =>
    have hfills : other.duration.le (timeline.lengthBehind other) = true := by
      refine fills.resolve_left fun hended ↦ ?_
      have := hended layer hlayer
      rw [hduration] at this
      cases this
    rw [Option.map_none, Option.getD_none, Option.getD_none, hbefore,
      Quantity.lt_of_lt_of_le hbefore hfills]

/-- Two timelines can be joined, unless the length of the first one was set and the second one never
ends. -/
theorem exists_concat_iff : (∃ joined, timeline.concat other = .ok joined) ↔
    (timeline.options.duration.isSome = true → other.duration.isFinite = true) := by
  have signs := exact.keepsSigns
  have hspan : timeline.options.duration.isSome = true →
      (RenderOptions.isSpan (timeline.duration.add other.duration) = true ↔
        other.duration.isFinite = true) := by
    intro hset
    obtain ⟨length, hlength⟩ := Option.isSome_iff_exists.mp hset
    have hown : timeline.duration = length := by rw [duration, hlength]
    obtain ⟨hnonnegative, hfinite⟩ := Bool.and_eq_true_iff.mp (valid.options.duration length hlength)
    have hsum := Quantity.le_trans hnonnegative
      (Quantity.le_add exact (next.duration_isNonnegative signs) hnonnegative)
    rw [hown, RenderOptions.isSpan, Style.isNonnegative, Quantity.add_comm, hsum, Bool.true_and,
      Quantity.isFinite_add exact hfinite]
  constructor
  · rintro ⟨joined, hjoined⟩ hset
    exact (hspan hset).mp ((concat_eq_ok.mp hjoined).1 hset)
  · intro hfits
    exact ⟨_, concat_eq_ok.mpr ⟨fun hset ↦ (hspan hset).mpr (hfits hset), rfl⟩⟩

/-- **Joined timelines play one after the other**, if times are not rounded.  The joined timeline has
the layers of both and the options of the first one, but that a length that was set grows.  What the
first one shows is visible first.  Then follows what the second one shows, and in front of it whatever
of the first one has no end before: an open layer of either lasts until the joined timeline ends. -/
theorem concat_playsAfter :
    ((∃ joined, timeline.concat other = .ok joined) ↔
      (timeline.options.duration.isSome = true → other.duration.isFinite = true)) ∧
    ∀ joined, timeline.concat other = .ok joined → timeline.PlaysAfter other joined := by
  refine ⟨exists_concat_iff exact valid next, fun joined h ↦ ?_⟩
  obtain ⟨-, rfl⟩ := concat_eq_ok.mp h
  exact {
    toIsJoined := followedBy_isJoined timeline other
    duration := duration_followedBy exact valid next
    before := visibleAt_followedBy_before exact valid next
    behind := visibleAt_followedBy_behind exact valid next
    alone := fun _ ↦ followedBy_alone exact valid next }

end

/-- A timeline of one title, which is open or ends. -/
def titled (text : String) (duration : Option Quantity) : Timeline where
  layers := [{ duration, content := .text text none }]

omit rounding in
theorem titled_isValid (text : String) {duration : Option Quantity}
    (h : ∀ x ∈ duration, Layer.isLength x = true) : (titled text duration).IsValid := by
  have hstart : Layer.IsStart (.finite 0) := ⟨by decide, by decide⟩
  refine ⟨List.forall_mem_singleton.mpr ⟨hstart, h, ?_, ?_, ?_⟩, RenderOptions.isValid_usual⟩ <;>
    rintro _ ⟨⟩

omit rounding in
/-- A title of two seconds and an open one play one after the other, the open one for its usual five
seconds. -/
theorem titled_playsAfter :
    Rounding.exact.IsExact ∧ (titled "One" (some (.finite 2))).IsValid ∧ (titled "Two" none).IsValid ∧
      ∃ joined, @concat .exact (titled "One" (some (.finite 2))) (titled "Two" none) = .ok joined ∧
        joined.layers = (titled "One" (some (.finite 2))).layers ++
          [{ startTime := .finite 2, content := .text "Two" none }] ∧
        joined.options = (titled "One" (some (.finite 2))).options ∧
        @duration .exact joined = .finite 7 ∧
        @visibleAt .exact joined (.finite 1) = (titled "One" (some (.finite 2))).layers ∧
        @visibleAt .exact joined (.finite 6)
          = [{ startTime := .finite 2, content := .text "Two" none }] := by
  let _ : Rounding := .exact
  have exact := Rounding.exact_isExact
  have valid : (titled "One" (some (.finite 2))).IsValid :=
    titled_isValid "One" (by rintro _ ⟨⟩; decide)
  have next : (titled "Two" none).IsValid := titled_isValid "Two" (by rintro _ ⟨⟩)
  obtain ⟨hexists, hplays⟩ := concat_playsAfter exact valid next
  obtain ⟨joined, hjoined⟩ := hexists.mpr (by rintro ⟨⟩)
  have plays := hplays joined hjoined
  have ends : (titled "One" (some (.finite 2))).EndsInTime := by
    refine List.forall_mem_singleton.mpr ⟨.finite 2, ?_, ?_⟩
    · decide +kernel
    · decide +kernel
  have fills : (titled "One" (some (.finite 2))).FillsBehind (titled "Two" none) :=
    .inr (by decide +kernel)
  refine ⟨exact, valid, next, joined, hjoined, plays.layers.trans ?_, plays.options, ?_, ?_, ?_⟩
  · decide +kernel
  · rw [plays.duration]
    decide +kernel
  · rw [plays.before 1 (by decide +kernel)]
    decide +kernel
  · rw [plays.alone 6 ends fills (by decide +kernel) (by decide +kernel)]
    decide +kernel

omit rounding in
/-- An open title is visible still while the title behind it is. -/
theorem openTitles_overlap :
    @duration .exact (titled "One" none) = .finite 5 ∧
      @duration .exact (titled "Two" none) = .finite 5 ∧
      @visibleAt .exact (titled "Two" none) (.finite 2) = (titled "Two" none).layers ∧
      ∃ joined, @concat .exact (titled "One" none) (titled "Two" none) = .ok joined ∧
        @visibleAt .exact joined (.finite 7) = [{ content := .text "One" none },
          { startTime := .finite 5, content := .text "Two" none }] := by
  refine ⟨by decide +kernel, by decide +kernel, by decide +kernel, _, rfl, ?_⟩
  decide +kernel

end Timeline
end Montage
