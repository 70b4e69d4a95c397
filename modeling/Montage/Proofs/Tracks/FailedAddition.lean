import Montage.Proofs.Tracks.Batch
import Montage.Proofs.Tracks.Gap

/-!
# What a failed addition leaves

A request for a subtitle that fails leaves no subtitle behind.  If it fails before a name is given
out, it leaves nothing at all: whatever is called later is answered as if it had not been made.  If
it fails afterwards, it leaves a gap in the names of its track, and every later answer is the same
but for names behind the gap (`TrackSet.failedAddition_leavesGap`).
-/

set_option autoImplicit false

namespace Montage

/-! ## Answers under other names -/

/-- Two texts of a track: the same one, or documents in JSON that differ in names. -/
inductive TextIsRenamed (rename : String → String) : String → String → Prop where
  | same (text : String) : TextIsRenamed rename text text
  | document (track : Track) :
      TextIsRenamed rename (track.encode.text .track) ((track.renamed rename).encode.text .track)

namespace TrackSet

/-- The answer with its subtitles under other names; texts stay as they are. -/
def Answer.renamed (rename : String → String) : Answer → Answer
  | .subtitle made => .subtitle (made.renamed rename)
  | .subtitles made => .subtitles (made.map (Subtitle.renamed rename))
  | .track found => .track (found.renamed rename)
  | .tracks found => .tracks (found.map (Track.renamed rename))
  | answer => answer

/-- Two answers differ in names alone. -/
inductive Answer.IsRenamed (rename : String → String) : Answer → Answer → Prop where
  | renamed (answer : Answer) : IsRenamed rename answer (answer.renamed rename)
  | text {text other : String} (h : TextIsRenamed rename text other) :
      IsRenamed rename (.text text) (.text other)
  | texts {texts others : List (String × String)}
      (h : List.Forall₂ (fun text other ↦ other.1 = text.1 ∧ TextIsRenamed rename text.2 other.2)
        texts others) :
      IsRenamed rename (.texts texts) (.texts others)

/-- Two calls are answered alike but for names: they fail with the same cause, or succeed with
answers that differ in names alone; and they warn of the same. -/
structure IsRenamed (rename : String → String) (reported other : Reported Answer) : Prop where
  result : Agree (Answer.IsRenamed rename) reported.result other.result
  warnings : other.warnings = reported.warnings

/-- Answers that hold no names differ in none. -/
theorem Answer.agree_map {rename : String → String} {α : Type} {give : α → Answer}
    (hgive : ∀ a, give a = (give a).renamed rename) (x : Except Error α) :
    Agree (Answer.IsRenamed rename) (x.map give) (x.map give) := by
  cases x with
  | error e => exact .error e
  | ok a =>
    refine .ok ?_
    nth_rewrite 2 [hgive a]
    exact .renamed (give a)

variable {gap : NameGap} {set : TrackSet}

/-! ## Outcomes of operations -/

section

variable {α : Type} {give : α → Answer}

theorem answering_parallel {r : Reported α → Reported α → Prop}
    {outcome other : TrackSet × Reported α} (h : gap.Parallel r outcome other)
    (hgive : ∀ reported reported', r reported reported' → IsRenamed gap.rename
      ⟨reported.result.map give, reported.warnings⟩
      ⟨reported'.result.map give, reported'.warnings⟩) :
    gap.Parallel (IsRenamed gap.rename) (answering give outcome) (answering give other) :=
  ⟨h.sets, hgive _ _ h.values⟩

variable {outcome other : TrackSet × Except Error α}

/-- An operation that keeps the gap and whose value changes with the names. -/
theorem yielding_map {change : α → α}
    (h : other = (outcome.1.withGap gap, outcome.2.map change) ∧ gap.IsOpenIn outcome.1)
    (hgive : ∀ a, give (change a) = (give a).renamed gap.rename) :
    gap.Parallel (IsRenamed gap.rename) (yielding give outcome) (yielding give other) := by
  obtain ⟨rfl, hopen⟩ := h
  refine ⟨.inr ⟨hopen, rfl⟩, (Agree.of_map change outcome.2).map fun a b hb ↦ ?_, rfl⟩
  rw [hb, hgive]
  exact .renamed (give a)

/-- An operation that keeps the gap and whose value holds no names. -/
theorem yielding_same (h : other = (outcome.1.withGap gap, outcome.2) ∧ gap.IsOpenIn outcome.1)
    (hgive : ∀ a, give a = (give a).renamed gap.rename) :
    gap.Parallel (IsRenamed gap.rename) (yielding give outcome) (yielding give other) := by
  obtain ⟨rfl, hopen⟩ := h
  exact ⟨.inr ⟨hopen, rfl⟩, Answer.agree_map hgive outcome.2, rfl⟩

end

/-- An operation that replaces the settings of a set keeps the gap. -/
theorem replacing_withGap {next other : Except Error TrackSet}
    (h : other = next.map (withGap gap)) (hopen : gap.IsOpenIn set)
    (hnext : ∀ set', next = .ok set' → set'.held = set.held) :
    gap.Parallel (IsRenamed gap.rename) (set.replacing next) ((set.withGap gap).replacing other) := by
  rw [h]
  cases next with
  | error e => exact ⟨.inr ⟨hopen, rfl⟩, .error e, rfl⟩
  | ok set' =>
    refine ⟨.inr ⟨fun held hheld ↦ hopen held ?_, rfl⟩, .ok (.renamed .done), rfl⟩
    rwa [find?, ← hnext set' rfl]

/-! ## Questions about a set with a gap -/

theorem track_withGap (language : String) :
    Agree (fun track other ↦ other = track.renamed gap.rename) (set.track language)
      ((set.withGap gap).track language) := by
  rw [track, track, find?_withGap]
  cases set.find? language with
  | none => exact .error _
  | some held => exact .ok rfl

theorem ranked_withGap : (set.withGap gap).ranked = set.ranked.map (Track.renamed gap.rename) := by
  have htracks : (set.withGap gap).held.map (fun member ↦ member.2.track) =
      (set.held.map fun member ↦ member.2.track).map (Track.renamed gap.rename) := by
    rw [withGap, List.map_map, List.map_map]
    rfl
  rw [ranked, ranked, htracks]
  refine (List.map_mergeSort fun a _ b _ ↦ ?_).symm
  rfl

variable [Rounding]

theorem layers_withGap (languages : Json) :
    (set.withGap gap).layers languages = set.layers languages := by
  have hshown (wanted : Option (List Json)) : (set.withGap gap).shownTracks wanted =
      (set.shownTracks wanted).map (Track.renamed gap.rename) := by
    rw [shownTracks, ranked_withGap, List.filter_map]
    rfl
  have hlayers (track : Track) : (track.renamed gap.rename).entries.mapM
      ((set.withGap gap).layerOf (track.renamed gap.rename)) =
        track.entries.mapM (set.layerOf track) := by
    rw [Track.renamed, List.mapM_map]
    rfl
  simp only [layers, hshown, ← List.map_reverse, List.mapM_map, Function.comp_def, hlayers]

theorem export_renamed (rename : String → String) (track : Track) (format : SubtitleFormat)
    (options : Option WriteOptions) :
    Agree (TextIsRenamed rename) (track.export format options)
      ((track.renamed rename).export format options) := by
  by_cases hformat : format = .json
  · rw [hformat]
    exact .ok (.document track)
  · have hwrite := SubtitleFormat.write_renamed rename track.entries hformat options track.heading
    have hsame : (track.renamed rename).export format options = track.export format options := by
      cases format
      case json => exact absurd rfl hformat
      all_goals exact hwrite
    rw [hsame]
    exact .refl .same _

theorem exportTrack_withGap (language : String) (format : Json) (options : Option WriteOptions) :
    Agree (TextIsRenamed gap.rename) (set.exportTrack language format options)
      ((set.withGap gap).exportTrack language format options) := by
  refine (track_withGap language).bind fun track other hother ↦ .after _ fun format _ ↦ ?_
  rw [hother]
  exact export_renamed gap.rename track format options

theorem exportAll_withGap (format : Json) (options : Option WriteOptions)
    (given : List (String × Json)) :
    Agree (List.Forall₂ fun text other ↦ other.1 = text.1 ∧ TextIsRenamed gap.rename text.2 other.2)
      (set.exportAll format options given) ((set.withGap gap).exportAll format options given) := by
  rw [exportAll, exportAll, ranked_withGap]
  refine .after _ fun request _ ↦ .after _ fun below _ ↦ ?_
  split
  · exact .error _
  · rw [List.mapM_map]
    refine .mapM fun track _ ↦ ?_
    exact (exportTrack_withGap track.language format options).bind fun text other h ↦ .ok ⟨rfl, h⟩

theorem validate_withGap (language : String) :
    (set.withGap gap).validate language = set.validate language := by
  refine ((track_withGap language).bind fun track other hother ↦ ?_).eq.symm
  rw [hother]
  exact .ok (Subtitle.validate_renamed gap.rename track.entries _).symm

theorem totalDuration_renamed (rename : String → String) (subtitles : List Subtitle) :
    totalDuration (subtitles.map (Subtitle.renamed rename)) = totalDuration subtitles := by
  cases subtitles with
  | nil => rfl
  | cons subtitle rest =>
    refine congrArg Number.real (Eq.trans (List.foldl_map ..) ?_)
    rfl

theorem statistics_withGap : (set.withGap gap).statistics = set.statistics := by
  have hsubtitles : (set.ranked.map (Track.renamed gap.rename)).flatMap (·.entries) =
      (set.ranked.flatMap (·.entries)).map (Subtitle.renamed gap.rename) := by
    rw [List.flatMap_map, List.map_flatMap]
    rfl
  have htext (subtitle : Subtitle) : (subtitle.renamed gap.rename).text = subtitle.text := rfl
  have hlanguage (track : Track) : (track.renamed gap.rename).language = track.language := rfl
  have hcount (track : Track) :
      (track.renamed gap.rename).entries.length = track.entries.length := List.length_map _
  simp only [statistics, ranked_withGap, hsubtitles, List.isEmpty_map, List.length_map,
    List.foldl_map, List.map_map, Function.comp_def, totalDuration_renamed, htext, hlanguage,
    hcount]

/-- Questions about a set with a gap are answered alike but for names. -/
theorem answer_withGap (question : Question) :
    Agree (Answer.IsRenamed gap.rename) (set.answer question)
      ((set.withGap gap).answer question) := by
  cases question with
  | defaults => exact .ok (.renamed (.style set.defaults))
  | timing => exact .ok (.renamed (.timing set.sync))
  | track language =>
    refine (track_withGap language).map fun track other hother ↦ ?_
    rw [hother]
    exact .renamed (.track track)
  | tracks =>
    rw [answer, answer, ranked_withGap]
    exact .ok (.renamed (.tracks set.ranked))
  | readingTime text => exact Answer.agree_map (fun _ ↦ rfl) _
  | brokenLines text => exact Answer.agree_map (fun _ ↦ rfl) _
  | layers languages =>
    rw [answer, answer, layers_withGap]
    exact Answer.agree_map (fun _ ↦ rfl) _
  | onTimeline timeline languages =>
    rw [answer, answer, applyTo, applyTo, layers_withGap]
    exact Answer.agree_map (fun _ ↦ rfl) _
  | filters languages timeline =>
    rw [answer, answer, filterChain, filterChain, layers_withGap]
    exact Answer.agree_map (fun _ ↦ rfl) _
  | document language format options =>
    exact (exportTrack_withGap language format options).map fun _ _ ↦ .text
  | documents format options given =>
    exact (exportAll_withGap format options given).map fun _ _ ↦ .texts
  | findings language =>
    rw [answer, answer, validate_withGap]
    exact Answer.agree_map (fun _ ↦ rfl) _
  | statistics =>
    rw [answer, answer, statistics_withGap]
    exact Answer.agree_map (fun _ ↦ rfl) _

/-! ## Calls on a set with a gap -/

/-- **A call on a set with a gap** is answered as without it but for names, and the gap stays or is
gone for good. -/
theorem Call.run_parallel (named : set.IsNamed) (hopen : gap.IsOpenIn set) (call : Call) :
    gap.Parallel (IsRenamed gap.rename) (call.run set) (call.run (set.withGap gap)) := by
  cases call with
  | setDefaults style =>
    refine replacing_withGap ?_ hopen fun _ h ↦ setDefaults_held h
    rw [TrackSet.setDefaults, TrackSet.setDefaults]
    cases Style.coerce style <;> rfl
  | setSync options changes =>
    refine replacing_withGap ?_ hopen fun _ h ↦ setSync_held h
    rw [TrackSet.setSync, TrackSet.setSync]
    dsimp only [withGap]
    cases constructing .syncOptions Error.isInvalid
      ((options.getD set.sync).decodeOver (.obj changes)).toExcept <;> rfl
  | create language given =>
    refine answering_parallel (create_parallel named hopen language given) ?_
    rintro ⟨result, warnings⟩ _ ⟨rfl, hempty⟩
    refine ⟨?_, rfl⟩
    cases result with
    | error e => exact .error e
    | ok track =>
      have hsame : track.renamed gap.rename = track := by
        rw [Track.renamed, hempty track rfl, List.map_nil, ← hempty track rfl]
      refine .ok ?_
      nth_rewrite 2 [← hsame]
      exact .renamed (.track track)
  | remove language =>
    have hremoved := remove_withGap hopen language
    exact yielding_same ⟨by rw [hremoved.1], hremoved.2⟩ fun _ ↦ rfl
  | enable language enabled => exact yielding_same (enable_withGap hopen enabled) fun _ ↦ rfl
  | add language given => exact yielding_map (add_withGap named hopen language given) fun _ ↦ rfl
  | addSequence language given =>
    exact yielding_map (addSequence_withGap named hopen given) fun _ ↦ rfl
  | synchronize language cues => exact yielding_same (synchronize_withGap hopen cues) fun _ ↦ rfl
  | importText language content format options given =>
    refine answering_parallel (importText_parallel named hopen content format options given) ?_
    rintro reported _ rfl
    exact ⟨Answer.agree_map (fun _ ↦ rfl) _, rfl⟩
  | ask question => exact ⟨.inr ⟨hopen, rfl⟩, (answer_withGap question).map fun _ _ h ↦ h, rfl⟩

/-- Calls in a row on a set with a gap are answered alike but for names as long as the gap is there,
and then as without it. -/
theorem answers_withGap (named : set.IsNamed) (hopen : gap.IsOpenIn set) (calls : List Call) :
    ∃ front back, calls = front ++ back ∧
      List.Forall₂ (IsRenamed gap.rename) (set.answers front) ((set.withGap gap).answers front) ∧
      ((set.withGap gap).after front).answers back = (set.after front).answers back := by
  induction calls generalizing set with
  | nil => exact ⟨[], [], rfl, .nil, rfl⟩
  | cons call rest ih =>
    obtain ⟨hsets, hanswer⟩ := call.run_parallel named hopen
    rcases hsets with hsame | ⟨hstill, hsets⟩
    · refine ⟨[call], rest, rfl, .cons hanswer .nil, ?_⟩
      exact congrArg (answers · rest) hsame
    · obtain ⟨front, back, rfl, hfront, hback⟩ := ih (call.run_isNamed named) hstill
      rw [← hsets] at hfront hback
      exact ⟨call :: front, back, rfl, .cons hanswer hfront, hback⟩

/-! ## Additions that fail -/

variable {left : TrackSet} {language : String} {given : List (String × Json)} {held : HeldTrack}
  {e : Error}

/-- A request for a subtitle gets as far as a name: it is complete, there is a track for it, and its
times are accepted. -/
def GivesName (set : TrackSet) (language : String) (given : List (String × Json)) : Prop :=
  ∃ draft held, Draft.ofRequest given = .ok draft ∧ set.find? language = some held ∧
    draft.checkTimes = .ok ()

omit [Rounding] in
/-- The gap that is left if the next name of a track is given to nothing. -/
def nextGap (set : TrackSet) (language : String) : NameGap :=
  ⟨language, ((set.find? language).map HeldTrack.issued).getD 0 + 1⟩

/-- An addition that fails changes nothing, or uses up a name. -/
theorem add_failed (h : set.add language given = (left, .error e)) :
    ¬ set.GivesName language given ∧ left = set ∨
    ∃ held, set.find? language = some held ∧ set.GivesName language given ∧
      left = set.put language { held with issued := held.issued + 1 } := by
  rw [add] at h
  cases hdraft : Draft.ofRequest given with
  | error e =>
    refine .inl ⟨?_, ?_⟩
    · rintro ⟨draft, -, hdraft', -, -⟩
      cases hdraft.symm.trans hdraft'
    · rw [hdraft] at h
      exact (congrArg Prod.fst h).symm
  | ok draft =>
    rw [hdraft] at h
    dsimp only at h
    cases hheld : set.find? language with
    | none =>
      refine .inl ⟨?_, ?_⟩
      · rintro ⟨-, held, -, hheld', -⟩
        cases hheld.symm.trans hheld'
      · simp only [insert, hheld] at h
        exact (congrArg Prod.fst h).symm
    | some held =>
      cases hcheck : draft.checkTimes with
      | error e =>
        refine .inl ⟨?_, ?_⟩
        · rintro ⟨draft', -, hdraft', -, hcheck'⟩
          cases hdraft.symm.trans hdraft'
          cases hcheck.symm.trans hcheck'
        · rw [insert_of_refused hheld hcheck] at h
          exact (congrArg Prod.fst h).symm
      | ok _ =>
        refine .inr ⟨held, rfl, ⟨draft, held, hdraft, hheld, hcheck⟩, ?_⟩
        cases hmade : draft.subtitle (held.nameOf (held.issued + 1)) with
        | error e =>
          rw [insert_of_failed hheld hcheck hmade] at h
          exact (congrArg Prod.fst h).symm
        | ok subtitle =>
          obtain ⟨index, after, -, hinsert⟩ := insert_of_made hheld hcheck hmade
          rw [hinsert] at h
          cases congrArg Prod.snd h

/-- A plain subtitle can always be added to a track, and gets its next name. -/
theorem add_secondFrom (hheld : set.find? language = some held) (start : Rat) :
    ∃ next subtitle, set.add language (secondFrom start) = (next, .ok subtitle) ∧
      subtitle.id = held.nameOf (held.issued + 1) := by
  obtain ⟨draft, hdraft⟩ : ∃ draft, Draft.ofRequest (secondFrom start) = .ok draft := ⟨_, rfl⟩
  let made : Subtitle := {
    id := held.nameOf (held.issued + 1), text := "Hi", start := .finite start
    stop := .finite (start + 1) }
  have hcheck : draft.checkTimes = .ok () := by
    cases hdraft
    rfl
  have hmade : draft.subtitle (held.nameOf (held.issued + 1)) = .ok made := by
    cases hdraft
    rfl
  obtain ⟨index, after, -, hinsert⟩ := insert_of_made hheld hcheck hmade
  refine ⟨set.put language after, { made with index }, ?_, rfl⟩
  rw [add, hdraft]
  exact hinsert

/-- A gap shows: the next subtitle is named otherwise than without it. -/
theorem answers_withGap_ne (named : set.IsNamed) (hheld : set.find? language = some held) :
    ∃ later, (set.withGap ⟨language, held.issued + 1⟩).answers later ≠ set.answers later := by
  obtain ⟨next, subtitle, hadd, hid⟩ := add_secondFrom hheld 0
  have hopen : NameGap.IsOpenIn ⟨language, held.issued + 1⟩ set := by
    intro other hother
    cases hheld.symm.trans hother
    exact le_rfl
  have hgap := (add_withGap named hopen language (secondFrom 0)).1
  rw [hadd] at hgap
  refine ⟨[.add language (secondFrom 0)], fun hsame ↦ ?_⟩
  simp only [answers, Call.run, hadd, hgap, yielding, answering, Reported.ofExcept, Except.map,
    List.cons.injEq, Reported.mk.injEq, Except.ok.injEq, Answer.subtitle.injEq, and_true] at hsame
  have hname : subtitle.id = subtitleName language (held.issued + 1) :=
    hid.trans ((named.find hheld).nameOf_eq _)
  have hbehind : NameGap.rename ⟨language, held.issued + 1⟩ subtitle.id =
      subtitleName language (held.issued + 1 + 1) := by
    rw [hname]
    exact NameGap.rename_behind le_rfl
  have hrenamed := hbehind.symm.trans (congrArg Subtitle.id hsame)
  exact absurd (subtitleName_inj.mp (hrenamed.trans hname)).2 (Nat.succ_ne_self _)

/-- **A failed addition leaves no trace unless it got as far as a name**, and then it leaves no more
than a gap in the names: whatever is called later is answered alike but for the names behind the
gap, until the track is created anew or emptied, and from there on as if the call had not been
made. -/
theorem failedAddition_leavesGap {calls : List Call} (reached : after {} calls = set)
    (failed : set.add language given = (left, .error e)) :
    ((∀ later, left.answers later = set.answers later) ↔ ¬ set.GivesName language given) ∧
    ∀ later, ∃ front back, later = front ++ back ∧
      List.Forall₂ (IsRenamed (set.nextGap language).rename) (set.answers front)
        (left.answers front) ∧
      (left.after front).answers back = (set.after front).answers back := by
  have named : set.IsNamed := reached ▸ after_isNamed empty_isNamed calls
  rcases add_failed failed with ⟨hnone, rfl⟩ | ⟨held, hheld, hgives, hleft⟩
  · exact ⟨iff_of_true (fun _ ↦ rfl) hnone, fun later ↦ ⟨[], later, rfl, .nil, rfl⟩⟩
  · have hnext : set.nextGap language = ⟨language, held.issued + 1⟩ := by
      rw [nextGap, hheld]
      rfl
    have hopen : (set.nextGap language).IsOpenIn set := by
      intro other hother
      rw [hnext] at hother ⊢
      cases hheld.symm.trans hother
      exact le_rfl
    rw [put_issued named hheld, ← hnext] at hleft
    rw [hleft]
    refine ⟨iff_of_false (fun hall ↦ ?_) (not_not_intro hgives), answers_withGap named hopen⟩
    obtain ⟨later, hne⟩ := answers_withGap_ne named hheld
    exact hne (hnext ▸ hall later)

/-- What a call gives to add a subtitle that would be five times as opaque as it can be. -/
def overOpaque : List (String × Json) := [
  ("text", .str "Hi"), ("start_time", .quantity (.finite 0)), ("end_time", .quantity (.finite 1)),
  ("style", .obj [("opacity", .whole 5)])]

/-- A set with an empty track. -/
def emptyTrack : TrackSet :=
  let _ : Rounding := .binary64
  after {} [.create (.str "en") []]

omit [Rounding] in
theorem overOpaque_leavesGap :
    ∃ left e, @after .binary64 {} [.create (.str "en") []] = emptyTrack ∧
      @add .binary64 emptyTrack "en" overOpaque = (left, .error e) ∧
      ¬ (∀ later, @answers .binary64 left later = @answers .binary64 emptyTrack later) ∧
      (@add .binary64 emptyTrack "en" (secondFrom 0)).2.toOption.map Subtitle.id =
        some "track_en_1" ∧
      (@add .binary64 left "en" (secondFrom 0)).2.toOption.map Subtitle.id =
        some "track_en_2" := by
  let _ : Rounding := .binary64
  obtain ⟨e, he⟩ := isNone_toOption.mp
    (by decide +kernel : (emptyTrack.add "en" overOpaque).2.toOption.isNone = true)
  have failed : emptyTrack.add "en" overOpaque = ((emptyTrack.add "en" overOpaque).1, .error e) :=
    Prod.ext rfl he
  have hgives : emptyTrack.GivesName "en" overOpaque := ⟨_, _, rfl, rfl, rfl⟩
  have hiff := (failedAddition_leavesGap rfl failed).1
  exact ⟨_, e, rfl, failed, fun hall ↦ hiff.mp hall hgives, by decide +kernel, by decide +kernel⟩

end TrackSet
end Montage
