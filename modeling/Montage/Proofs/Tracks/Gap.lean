import Montage.Proofs.Number.Numeral
import Montage.Proofs.Subtitle.Renamed
import Montage.Proofs.Tracks.Call

/-!
# Names that were given to nothing

An insertion that fails after its times were accepted has used up a name.  Such a gap changes
nothing but names: whatever is done to the set later goes as it would have gone without the gap,
except that the names of its track from there on have numbers higher by one (`NameGap.rename`).  Once
the track is created anew, emptied or removed, there is no difference left.
-/

set_option autoImplicit false

namespace Montage

/-! ## Names behind a gap -/

/-- The number that stands in a name behind a language. -/
def numberOf? (language name : String) : Option Nat :=
  let number := natOfDigits (name.toList.drop ("track_" ++ language ++ "_").length)
  if name = subtitleName language number then some number else none

theorem numberOf?_subtitleName (language other : String) (n : Nat) :
    numberOf? language (subtitleName other n) = if other = language then some n else none := by
  rw [numberOf?]
  split_ifs with hname hlanguage hlanguage
  · exact congrArg some (subtitleName_inj.mp hname).2.symm
  · exact absurd (subtitleName_inj.mp hname).1 hlanguage
  · refine absurd ?_ hname
    have hdrop : (subtitleName other n).toList.drop ("track_" ++ other ++ "_").length
        = Nat.toDigits 10 n := by
      rw [subtitleName, String.toList_append, toList_toString_nat, ← String.length_toList,
        List.drop_left]
    rw [← hlanguage, hdrop, natOfDigits_toDigits]
  · rfl

/-- A name of a language's track, known by its number, that was given to nothing. -/
structure NameGap where
  language : String
  number : Nat
  deriving DecidableEq, Repr

namespace NameGap

/-- The name that is given behind a gap in place of another one: from the gap on, the number is
higher by one. -/
def rename (gap : NameGap) (name : String) : String :=
  match numberOf? gap.language name with
  | some n => if gap.number ≤ n then subtitleName gap.language (n + 1) else name
  | none => name

variable {gap : NameGap} {language : String} {n : Nat}

theorem rename_behind (h : gap.number ≤ n) :
    gap.rename (subtitleName gap.language n) = subtitleName gap.language (n + 1) := by
  rw [rename, numberOf?_subtitleName, if_pos rfl]
  exact if_pos h

theorem rename_before (h : n < gap.number) :
    gap.rename (subtitleName gap.language n) = subtitleName gap.language n := by
  rw [rename, numberOf?_subtitleName, if_pos rfl]
  exact if_neg (Nat.not_le_of_lt h)

theorem rename_of_ne (h : language ≠ gap.language) :
    gap.rename (subtitleName language n) = subtitleName language n := by
  rw [rename, numberOf?_subtitleName, if_neg h]

end NameGap

/-! ## Sets with a gap -/

/-- The track with its subtitles under other names. -/
def Track.renamed (rename : String → String) (track : Track) : Track :=
  { track with entries := track.entries.map (Subtitle.renamed rename) }

namespace HeldTrack

/-- The track of a language as it would be with a gap. -/
def withGap (gap : NameGap) (language : String) (held : HeldTrack) : HeldTrack where
  track := held.track.renamed gap.rename
  issued := if language = gap.language then held.issued + 1 else held.issued

variable {gap : NameGap} {language : String} {held : HeldTrack}

theorem withGap_of_ne (named : held.IsNamed language) (h : language ≠ gap.language) :
    held.withGap gap language = held := by
  have hentries : held.track.entries.map (Subtitle.renamed gap.rename) = held.track.entries := by
    refine Subtitle.renamed_of_fixed gap.rename fun subtitle hsubtitle ↦ ?_
    obtain ⟨n, -, hname⟩ := named.named _ (List.mem_map_of_mem hsubtitle)
    rw [hname, NameGap.rename_of_ne h]
  rw [withGap, Track.renamed, hentries, if_neg h]

/-- A gap behind all names that were given out is one more name given out. -/
theorem withGap_next (named : held.IsNamed language) :
    held.withGap ⟨language, held.issued + 1⟩ language = { held with issued := held.issued + 1 } := by
  have hentries : held.track.entries.map
      (Subtitle.renamed (NameGap.rename ⟨language, held.issued + 1⟩)) = held.track.entries := by
    refine Subtitle.renamed_of_fixed _ fun subtitle hsubtitle ↦ ?_
    obtain ⟨n, hle, hname⟩ := named.named _ (List.mem_map_of_mem hsubtitle)
    rw [hname]
    exact NameGap.rename_before (Nat.lt_succ_of_le hle)
  rw [withGap, Track.renamed, hentries, if_pos rfl]

/-- The next name of a track behind a gap is the changed next name of the track. -/
theorem next_withGap (named : held.IsNamed language)
    (hopen : language = gap.language → gap.number ≤ held.issued + 1) :
    (held.withGap gap language).track.id ++ "_" ++ toString ((held.withGap gap language).issued + 1)
      = gap.rename (held.track.id ++ "_" ++ toString (held.issued + 1)) := by
  rw [named.nameOf_eq]
  have hid : (held.withGap gap language).track.id = "track_" ++ language := named.id_eq
  rw [hid, withGap]
  by_cases h : language = gap.language
  · rw [if_pos h, h, NameGap.rename_behind (hopen h), subtitleName]
  · rw [if_neg h, NameGap.rename_of_ne h, subtitleName]

/-- With and without a gap, a track gives out one more name. -/
theorem withGap_issue (held : HeldTrack) (entries : List Subtitle) :
    withGap gap language { track := { held.track with entries }, issued := held.issued + 1 } = {
      track := { (held.withGap gap language).track with
        entries := entries.map (Subtitle.renamed gap.rename) }
      issued := (held.withGap gap language).issued + 1 } := by
  simp only [withGap, Track.renamed]
  split <;> rfl

end HeldTrack

namespace TrackSet

/-- The set as it would be with a gap. -/
def withGap (gap : NameGap) (set : TrackSet) : TrackSet :=
  { set with held := set.held.map fun member ↦ (member.1, member.2.withGap gap member.1) }

variable {gap : NameGap} {set : TrackSet} {language : String} {held : HeldTrack}

theorem find?_withGap : (set.withGap gap).find? language =
    (set.find? language).map (HeldTrack.withGap gap language) :=
  Json.lookup?_map fun language ↦ HeldTrack.withGap gap language

theorem put_withGap (held : HeldTrack) : (set.withGap gap).put language (held.withGap gap language) =
    (set.put language held).withGap gap :=
  congrArg (fun held ↦ { set with held })
    (Json.put_map fun language ↦ HeldTrack.withGap gap language)

/-- Another track in the place of the one with the gap leaves no gap. -/
theorem put_withGap_gone (named : set.IsNamed) (gap : NameGap) (held : HeldTrack) :
    (set.withGap gap).put gap.language held = set.put gap.language held := by
  refine congrArg (fun held ↦ { set with held }) (Json.put_map_of_fixed named.keys ?_)
  exact fun member hmember hne ↦ HeldTrack.withGap_of_ne (named.named member hmember) hne

/-- A set that has used up the next name of a track is the set with a gap. -/
theorem put_issued (named : set.IsNamed) (hheld : set.find? language = some held) :
    set.put language { held with issued := held.issued + 1 } =
      set.withGap ⟨language, held.issued + 1⟩ := by
  nth_rewrite 2 [← put_of_find? hheld]
  rw [← put_withGap, HeldTrack.withGap_next (named.find hheld)]
  exact (put_withGap_gone named ⟨language, held.issued + 1⟩ _).symm

end TrackSet

namespace NameGap

/-- The numbers in front of the gap were given out, if there is a track to give them out. -/
def IsOpenIn (gap : NameGap) (set : TrackSet) : Prop :=
  ∀ held, set.find? gap.language = some held → gap.number ≤ held.issued + 1

/-- What comes of one operation on a set and on the set with a gap: either the gap is gone, or it is
still there. -/
structure Parallel (gap : NameGap) {α : Type} (r : α → α → Prop) (outcome other : TrackSet × α) :
    Prop where
  sets : other.1 = outcome.1 ∨ gap.IsOpenIn outcome.1 ∧ other.1 = outcome.1.withGap gap
  values : r outcome.2 other.2

theorem IsOpenIn.put {gap : NameGap} {set : TrackSet} {language : String} {held : HeldTrack}
    (hopen : gap.IsOpenIn set) (hheld : language = gap.language → gap.number ≤ held.issued + 1) :
    gap.IsOpenIn (set.put language held) := by
  intro other hother
  by_cases h : language = gap.language
  · rw [← h, TrackSet.find?_put_self] at hother
    cases hother
    exact hheld h
  · rw [TrackSet.find?_put_of_ne (Ne.symm h)] at hother
    exact hopen other hother

end NameGap

/-! ## Insertions behind a gap -/

namespace TrackSet

variable {gap : NameGap} {set : TrackSet} {language : String} {held : HeldTrack}

variable [Rounding]

/-- Whether a draft makes a subtitle does not depend on the name. -/
theorem Draft.subtitle_renamed (draft : Draft) (rename : String → String) (id : String) :
    draft.subtitle (rename id) = (draft.subtitle id).map (Subtitle.renamed rename) := by
  rw [Draft.subtitle, Draft.subtitle]
  cases draft.style with
  | error e => rfl
  | ok style =>
    cases draft.position with
    | error e => rfl
    | ok position =>
      cases draft.animation with
      | error e => rfl
      | ok animation =>
        dsimp only
        generalize (Subtitle.decode _).toExcept = made
        cases made <;> rfl

omit [Rounding] in
theorem placeFor_renamed (rename : String → String) (start : Json) (entries : List Subtitle) :
    placeFor start (entries.map (Subtitle.renamed rename)) = placeFor start entries := by
  simp only [placeFor, bisect_map, List.length_map]
  rfl

/-- An insertion goes alike with and without a gap: it fails with the same cause, or the subtitle goes
to the same place under the changed name.  The gap stays, because a track that gives out a name
moves on from it. -/
theorem insert_withGap (named : set.IsNamed) (hopen : gap.IsOpenIn set) (language : String)
    (draft : Draft) :
    (set.withGap gap).insert language draft =
      ((set.insert language draft).1.withGap gap,
        (set.insert language draft).2.map (Subtitle.renamed gap.rename)) ∧
    gap.IsOpenIn (set.insert language draft).1 := by
  rw [insert, insert, find?_withGap]
  cases hheld : set.find? language with
  | none => exact ⟨rfl, hopen⟩
  | some held =>
    have hnext := HeldTrack.next_withGap (named.find hheld) fun h ↦ hopen held (h ▸ hheld)
    have hissued : language = gap.language → gap.number ≤ held.issued + 1 + 1 :=
      fun h ↦ (hopen held (h ▸ hheld)).trans (Nat.le_succ _)
    have hput (entries : List Subtitle) : (set.withGap gap).put language {
        track := { (held.withGap gap language).track with
          entries := entries.map (Subtitle.renamed gap.rename) }
        issued := (held.withGap gap language).issued + 1 } =
          (set.put language
            { track := { held.track with entries }, issued := held.issued + 1 }).withGap gap := by
      rw [← put_withGap, held.withGap_issue]
    cases hcheck : draft.checkTimes with
    | error e => exact ⟨rfl, hopen⟩
    | ok _ =>
      dsimp only [Option.map_some]
      rw [hnext, Draft.subtitle_renamed]
      cases draft.subtitle (held.track.id ++ "_" ++ toString (held.issued + 1)) with
      | error e => exact ⟨Prod.ext (hput held.track.entries) rfl, hopen.put hissued⟩
      | ok subtitle =>
        have hplace : placeFor draft.start (held.withGap gap language).track.entries =
            placeFor draft.start held.track.entries :=
          placeFor_renamed gap.rename draft.start held.track.entries
        have hentries (place : Nat) : Subtitle.numbered (insertAt place
            (subtitle.renamed gap.rename) (held.withGap gap language).track.entries) =
              (Subtitle.numbered (insertAt place subtitle held.track.entries)).map
                (Subtitle.renamed gap.rename) := by
          rw [← Subtitle.numbered_renamed, ← insertAt_map]
          rfl
        dsimp only [Except.map]
        rw [hplace, hentries]
        exact ⟨Prod.ext (hput _) rfl, hopen.put hissued⟩

theorem add_withGap (named : set.IsNamed) (hopen : gap.IsOpenIn set) (language : String)
    (given : List (String × Json)) :
    (set.withGap gap).add language given =
      ((set.add language given).1.withGap gap,
        (set.add language given).2.map (Subtitle.renamed gap.rename)) ∧
    gap.IsOpenIn (set.add language given).1 := by
  rw [add, add]
  split
  · exact insert_withGap named hopen _ _
  · exact ⟨rfl, hopen⟩

theorem insertTexts_withGap {sequence : Sequence} (texts : List Json) (start : Json)
    (named : set.IsNamed) (hopen : gap.IsOpenIn set) :
    insertTexts language sequence (set.withGap gap) start texts =
      ((insertTexts language sequence set start texts).1.withGap gap,
        (insertTexts language sequence set start texts).2.map
          (List.map (Subtitle.renamed gap.rename))) ∧
    gap.IsOpenIn (insertTexts language sequence set start texts).1 := by
  induction texts generalizing set start with
  | nil => exact ⟨rfl, hopen⟩
  | cons text rest ih =>
    have hdraft : (set.withGap gap).sequenceDraft sequence start text =
        set.sequenceDraft sequence start text := rfl
    rw [insertTexts, insertTexts, hdraft]
    split
    · exact ⟨rfl, hopen⟩
    rename_i draft length _
    have hnext := insert_isNamed named language draft
    obtain ⟨hinsert, hstill⟩ := insert_withGap named hopen language draft
    rw [hinsert]
    generalize set.insert language draft = outcome at hnext hstill
    obtain ⟨next, result⟩ := outcome
    cases result with
    | error e => exact ⟨rfl, hstill⟩
    | ok subtitle =>
      dsimp only [Except.map]
      split
      · exact ⟨rfl, hstill⟩
      · rename_i start' _
        obtain ⟨hrest, hopen'⟩ := ih start' hnext hstill
        rw [hrest]
        refine ⟨Prod.ext rfl ?_, hopen'⟩
        dsimp only
        cases (insertTexts language sequence next start' rest).2 <;> rfl

theorem addSequence_withGap (named : set.IsNamed) (hopen : gap.IsOpenIn set)
    (given : List (String × Json)) :
    (set.withGap gap).addSequence language given =
      ((set.addSequence language given).1.withGap gap,
        (set.addSequence language given).2.map (List.map (Subtitle.renamed gap.rename))) ∧
    gap.IsOpenIn (set.addSequence language given).1 := by
  rw [addSequence, addSequence]
  split
  · exact ⟨rfl, hopen⟩
  · exact insertTexts_withGap _ _ named hopen

theorem insertAll_withGap (language : String) (subtitles : List Subtitle) (named : set.IsNamed)
    (hopen : gap.IsOpenIn set) :
    insertAll language (set.withGap gap) subtitles =
      ((insertAll language set subtitles).1.withGap gap, (insertAll language set subtitles).2) ∧
    gap.IsOpenIn (insertAll language set subtitles).1 := by
  induction subtitles generalizing set with
  | nil => exact ⟨rfl, hopen⟩
  | cons subtitle rest ih =>
    have hnext := insert_isNamed named language (.ofSubtitle subtitle)
    obtain ⟨hinsert, hstill⟩ :=
      insert_withGap named hopen language (.ofSubtitle subtitle)
    rw [insertAll, insertAll, hinsert]
    generalize set.insert language (.ofSubtitle subtitle) = outcome at hnext hstill
    obtain ⟨next, result⟩ := outcome
    cases result with
    | error e => exact ⟨rfl, hstill⟩
    | ok made => exact ih hnext hstill

end TrackSet

/-! ## Operations on a set with a gap -/

theorem Subtitle.moved_renamed [Rounding] (rename : String → String) (radius : Quantity)
    (cues : List Cue) (subtitle : Subtitle) :
    (subtitle.renamed rename).moved radius cues =
      ((subtitle.moved radius cues).1.renamed rename, (subtitle.moved radius cues).2) := by
  have hnearest : (subtitle.renamed rename).nearestCue radius cues =
      subtitle.nearestCue radius cues := rfl
  rw [moved, moved, hnearest]
  split
  · rfl
  · rw [renamed]
    split <;> rfl

theorem Track.synchronized_renamed [Rounding] (rename : String → String) (track : Track)
    (radius : Quantity) (cues : List Cue) :
    (track.renamed rename).synchronized radius cues =
      ((track.synchronized radius cues).1.renamed rename, (track.synchronized radius cues).2) := by
  have hmoves : (track.renamed rename).entries.map (Subtitle.moved radius cues) =
      (track.entries.map (Subtitle.moved radius cues)).map
        fun move ↦ (move.1.renamed rename, move.2) := by
    simp only [renamed, List.map_map, Function.comp_def, Subtitle.moved_renamed]
  rw [synchronized, synchronized, hmoves]
  refine Prod.ext ?_ ?_
  · simp only [sorted, renamed, List.map_map, Function.comp_def, ← Subtitle.inOrder_renamed]
  · simp only [List.filter_map, List.length_map]
    rfl

namespace TrackSet

variable [Rounding] {gap : NameGap} {set : TrackSet} {language : String}

omit [Rounding] in
theorem remove_withGap (hopen : gap.IsOpenIn set) (language : String) :
    (set.withGap gap).remove language =
      ((set.remove language).1.withGap gap, (set.remove language).2) ∧
    gap.IsOpenIn (set.remove language).1 := by
  refine ⟨Prod.ext ?_ ?_, fun held hheld ↦ ?_⟩
  · simp only [remove, withGap, List.filter_map]
    rfl
  · simp only [remove, find?_withGap, Option.isSome_map]
  · rw [find?, remove, Json.lookup?_filter_ne] at hheld
    split at hheld
    · cases hheld
    · exact hopen held hheld

omit [Rounding] in
theorem enable_withGap (hopen : gap.IsOpenIn set) (enabled : Json) :
    (set.withGap gap).enable language enabled =
      ((set.enable language enabled).1.withGap gap, (set.enable language enabled).2) ∧
    gap.IsOpenIn (set.enable language enabled).1 := by
  rw [enable, enable, find?_withGap]
  cases hheld : set.find? language with
  | none => exact ⟨rfl, hopen⟩
  | some held =>
    exact ⟨Prod.ext (put_withGap { held with track := { held.track with enabled } }) rfl,
      hopen.put fun h ↦ hopen held (h ▸ hheld)⟩

/-- A track that is created has no subtitles, and if it takes the place of the one with the gap, then
the gap is gone. -/
theorem create_parallel (named : set.IsNamed) (hopen : gap.IsOpenIn set) (asked : Json)
    (given : List (String × Json)) :
    gap.Parallel (fun made other ↦ other = made ∧ ∀ track, made.result = .ok track →
        track.entries = [])
      (set.create asked given) ((set.withGap gap).create asked given) := by
  have hheld (language : String) :
      ((set.withGap gap).find? language).isSome = (set.find? language).isSome := by
    rw [find?_withGap, Option.isSome_map]
  have hdefaults : (set.withGap gap).defaults = set.defaults := rfl
  rcases create_cases hdefaults hheld asked given with
    ⟨e, warnings, h, h'⟩ | ⟨language, track, warnings, hid, hentries, h, h'⟩ <;> rw [h, h']
  · exact ⟨.inr ⟨hopen, rfl⟩, rfl, by rintro _ ⟨⟩⟩
  · have hempty : ∀ made : Track, (.ok track : Except Error Track) = .ok made →
        made.entries = [] := by
      rintro _ ⟨⟩
      exact hentries
    by_cases hlanguage : language = gap.language
    · rw [hlanguage]
      exact ⟨.inl (put_withGap_gone named gap _), rfl, hempty⟩
    · refine ⟨.inr ⟨hopen.put fun h ↦ absurd h hlanguage, ?_⟩, rfl, hempty⟩
      have hnamed := HeldTrack.isNamed_of_empty hid hentries 0
      rw [← put_withGap, HeldTrack.withGap_of_ne hnamed hlanguage]

omit [Rounding] in
/-- An emptied track gives out its names anew, so that its gap is gone. -/
theorem clear_withGap (named : set.IsNamed) (hopen : gap.IsOpenIn set) :
    (set.withGap gap).clear language = set.clear language ∨
    gap.IsOpenIn (set.clear language) ∧
      (set.withGap gap).clear language = (set.clear language).withGap gap := by
  by_cases hlanguage : language = gap.language
  · refine .inl (congrArg (fun held ↦ { set with held }) ?_)
    rw [withGap, List.map_map]
    refine List.map_congr_left fun member hmember ↦ ?_
    dsimp only [Function.comp_apply]
    split
    · rfl
    · rename_i hne
      rw [HeldTrack.withGap_of_ne (named.named member hmember) (hlanguage ▸ hne)]
  · refine .inr ⟨fun held hheld ↦ ?_, congrArg (fun held ↦ { set with held }) ?_⟩
    · rw [clear, find?_modify, Option.map_eq_some_iff] at hheld
      obtain ⟨held', hheld', rfl⟩ := hheld
      rw [if_neg (Ne.symm hlanguage)]
      exact hopen held' hheld'
    · rw [withGap, clear, modify, List.map_map, List.map_map]
      refine List.map_congr_left fun member hmember ↦ ?_
      dsimp only [Function.comp_apply]
      split
      · rename_i heq
        refine Prod.ext rfl (HeldTrack.withGap_of_ne (HeldTrack.isNamed_of_empty ?_ rfl 0)
          (heq ▸ hlanguage)).symm
        exact (named.named member hmember).id_eq
      · rfl

theorem prepare_parallel (named : set.IsNamed) (hopen : gap.IsOpenIn set) (language : String)
    (replace : Bool) :
    gap.Parallel (· = ·) (set.prepare language replace)
      ((set.withGap gap).prepare language replace) := by
  rw [prepare, prepare, find?_withGap]
  cases hheld : set.find? language with
  | some held =>
    cases replace with
    | true => exact ⟨clear_withGap named hopen, rfl⟩
    | false => exact ⟨.inr ⟨hopen, rfl⟩, rfl⟩
  | none =>
    have := create_parallel named hopen (.str language) []
    exact ⟨this.sets,
      congrArg (fun made : Reported Track ↦ made.result.map fun _ ↦ ()) this.values.1.symm⟩

theorem importText_parallel (named : set.IsNamed) (hopen : gap.IsOpenIn set) (content format : Json)
    (options : Option ReadOptions) (given : List (String × Json)) :
    gap.Parallel (· = ·) (set.importText language content format options given)
      ((set.withGap gap).importText language content format options given) := by
  rw [importText, importText]
  dsimp only
  split
  · exact ⟨.inr ⟨hopen, rfl⟩, rfl⟩
  rename_i replace subtitles _
  have hnamed := prepare_isNamed named language replace
  obtain ⟨hsets, hvalues⟩ := prepare_parallel named hopen language replace
  generalize set.prepare language replace = outcome at *
  generalize (set.withGap gap).prepare language replace = other at *
  obtain ⟨next, result⟩ := outcome
  obtain ⟨next', result'⟩ := other
  -- the subtitles go in alike, whether or not there is a gap still
  obtain rfl : result = result' := hvalues
  cases result with
  | error e => exact ⟨hsets, rfl⟩
  | ok _ =>
    rcases hsets with hsame | ⟨hstill, hsets⟩
    · obtain rfl : next' = next := hsame
      exact ⟨.inl rfl, rfl⟩
    · obtain rfl : next' = next.withGap gap := hsets
      obtain ⟨hall, hopen'⟩ := insertAll_withGap language subtitles hnamed hstill
      dsimp only
      rw [hall]
      exact ⟨.inr ⟨hopen', rfl⟩, rfl⟩

theorem synchronize_withGap (hopen : gap.IsOpenIn set) (cues : Json) :
    (set.withGap gap).synchronize language cues =
      ((set.synchronize language cues).1.withGap gap, (set.synchronize language cues).2) ∧
    gap.IsOpenIn (set.synchronize language cues).1 := by
  rw [synchronize, synchronize, find?_withGap]
  cases hheld : set.find? language with
  | none => exact ⟨rfl, hopen⟩
  | some held =>
    dsimp only [Option.map_some]
    split
    · exact ⟨rfl, hopen⟩
    rename_i cues _
    have hmoved := held.track.synchronized_renamed gap.rename set.sync.syncRadius
      (cues.filter fun cue ↦ set.sync.syncConfidence.lt cue.confidence)
    refine ⟨Prod.ext ?_ ?_, hopen.put fun h ↦ hopen held (h ▸ hheld)⟩
    · refine Eq.trans (congrArg ((set.withGap gap).put language) ?_) (put_withGap _)
      exact congrArg (HeldTrack.mk · _) (congrArg Prod.fst hmoved)
    · exact congrArg (fun moved ↦ Except.ok moved.2) hmoved

end TrackSet
end Montage
