import Montage.Proofs.Tracks.Reachable
import Montage.Tracks.Export
import Montage.Tracks.Layers

/-!
# Calls on a set of tracks

A call changes the set or asks something about it, and is answered; a call that fails is answered
with the cause, and may have changed the set as well.

What a call can do to a track is little: it makes a new one, shows or hides it, empties it, uses up
a name, puts a subtitle where its start belongs, or moves the subtitles to cues.  What holds of a
new track and is kept by these holds of every track of a set that calls lead to
(`TrackSet.after_holds`).

Whatever calls lead to a set, and whatever they give, its subtitles are named after the languages of
their tracks and numbers that the tracks have given out (`TrackSet.after_isNamed`).
-/

set_option autoImplicit false

namespace Montage
namespace TrackSet

/-! ## Calls and answers -/

/-- What can be asked about a set of tracks. -/
inductive Question where
  | defaults
  | timing
  | track (language : String)
  | tracks
  | readingTime (text : Json)
  | brokenLines (text : Json)
  | layers (languages : Json)
  | onTimeline (timeline : Timeline) (languages : Json)
  | filters (languages : Json) (timeline : Timeline)
  | document (language : String) (format : Json) (options : Option WriteOptions)
  | documents (format : Json) (options : Option WriteOptions) (given : List (String × Json))
  | findings (language : String)
  | statistics

/-- A call, with what it is given. -/
inductive Call where
  | setDefaults (style : Json)
  | setSync (options : Option SyncOptions) (changes : List (String × Json))
  | create (language : Json) (given : List (String × Json))
  | remove (language : String)
  | enable (language : String) (enabled : Json)
  | add (language : String) (given : List (String × Json))
  | addSequence (language : String) (given : List (String × Json))
  | synchronize (language : String) (cues : Json)
  | importText (language : String) (content format : Json) (options : Option ReadOptions)
      (given : List (String × Json))
  | ask (question : Question)

/-- What a call that succeeds is answered with. -/
inductive Answer where
  | done
  | style (style : Style)
  | timing (options : SyncOptions)
  | flag (value : Bool)
  | count (n : Nat)
  | seconds (time : Json)
  | lines (lines : List String)
  | subtitle (subtitle : Subtitle)
  | subtitles (subtitles : List Subtitle)
  | track (track : Track)
  | tracks (tracks : List Track)
  | layers (layers : List Layer)
  | timeline (timeline : Timeline)
  | text (text : String)
  /-- Texts, each under the language of its track. -/
  | texts (texts : List (String × String))
  | findings (result : ValidationResult)
  | statistics (numbers : Statistics)

/-- The outcome of an operation as that of a call. -/
def answering {α : Type} (answer : α → Answer) (outcome : TrackSet × Reported α) :
    TrackSet × Reported Answer :=
  (outcome.1, ⟨outcome.2.result.map answer, outcome.2.warnings⟩)

/-- The outcome of an operation without warnings as that of a call. -/
def yielding {α : Type} (answer : α → Answer) (outcome : TrackSet × Except Error α) :
    TrackSet × Reported Answer :=
  answering answer (outcome.1, .ofExcept outcome.2)

/-- The outcome of an operation that makes a new set or fails. -/
def replacing (set : TrackSet) (next : Except Error TrackSet) : TrackSet × Reported Answer :=
  yielding (fun _ ↦ .done) (next.toOption.getD set, next)

variable [Rounding]

/-- The answer to a question. -/
def answer (set : TrackSet) : Question → Except Error Answer
  | .defaults => .ok (.style set.defaults)
  | .timing => .ok (.timing set.sync)
  | .track language => (set.track language).map .track
  | .tracks => .ok (.tracks set.ranked)
  | .readingTime text => (set.readingTime text).map .seconds
  | .brokenLines text => text.asText.map fun text ↦ .lines (set.sync.breakLines text)
  | .layers languages => (set.layers languages).map .layers
  | .onTimeline timeline languages => (set.applyTo timeline languages).map .timeline
  | .filters languages timeline => (set.filterChain languages timeline).map .text
  | .document language format options => (set.exportTrack language format options).map .text
  | .documents format options given => (set.exportAll format options given).map .texts
  | .findings language => (set.validate language).map .findings
  | .statistics => set.statistics.map .statistics

/-- The set after a call, and the answer. -/
def Call.run (set : TrackSet) : Call → TrackSet × Reported Answer
  | .setDefaults style => set.replacing (set.setDefaults style)
  | .setSync options changes => set.replacing (set.setSync options changes)
  | .create language given => answering .track (set.create language given)
  | .remove language => yielding .flag ((set.remove language).1, .ok (set.remove language).2)
  | .enable language enabled => yielding (fun _ ↦ .done) (set.enable language enabled)
  | .add language given => yielding .subtitle (set.add language given)
  | .addSequence language given => yielding .subtitles (set.addSequence language given)
  | .synchronize language cues => yielding .count (set.synchronize language cues)
  | .importText language content format options given =>
    answering .count (set.importText language content format options given)
  | .ask question => yielding (fun answer ↦ answer) (set, set.answer question)

/-- The set after calls in a row. -/
def after (set : TrackSet) (calls : List Call) : TrackSet :=
  calls.foldl (fun set call ↦ (call.run set).1) set

/-- The answers to calls in a row. -/
def answers (set : TrackSet) : List Call → List (Reported Answer)
  | [] => []
  | call :: rest => (call.run set).2 :: answers (call.run set).1 rest

end TrackSet

/-! ## What calls keep -/

/-- What holds of the tracks of a set, by their languages, whatever calls do to them: of a new track
it holds, and nothing that a call can do to a track takes it away. -/
structure HeldTrack.IsLasting [Rounding] (holds : String → HeldTrack → Prop) : Prop where
  created : ∀ {language : String} {track : Track}, track.id = "track_" ++ language →
    track.entries = [] → holds language { track }
  enabled : ∀ {language : String} {held : HeldTrack} (enabled : Json), holds language held →
    holds language { held with track := { held.track with enabled } }
  emptied : ∀ {language : String} {held : HeldTrack}, holds language held →
    holds language { track := { held.track with entries := [] } }
  issued : ∀ {language : String} {held : HeldTrack}, holds language held →
    holds language { held with issued := held.issued + 1 }
  inserted : ∀ {language : String} {held : HeldTrack} {draft : TrackSet.Draft} {subtitle : Subtitle},
    holds language held → draft.checkTimes = .ok () →
    draft.subtitle (held.track.id ++ "_" ++ toString (held.issued + 1)) = .ok subtitle →
    holds language {
      track := { held.track with
        entries := Subtitle.numbered
          (insertAt (TrackSet.placeFor draft.start held.track.entries) subtitle
            held.track.entries) }
      issued := held.issued + 1 }
  synchronized : ∀ {language : String} {held : HeldTrack} (radius : Quantity) (cues : List Cue),
    holds language held →
    holds language { held with track := (held.track.synchronized radius cues).1 }

namespace TrackSet

/-- The tracks of a set have languages of their own, and something holds of each of them. -/
structure Holds (holds : String → HeldTrack → Prop) (set : TrackSet) : Prop where
  keys : (set.held.map Prod.fst).Nodup
  each : ∀ member ∈ set.held, holds member.1 member.2

variable {holds : String → HeldTrack → Prop} {set : TrackSet} {language : String} {held : HeldTrack}

theorem empty_holds : Holds holds {} := ⟨.nil, by simp⟩

theorem Holds.find (h : set.Holds holds) (hheld : set.find? language = some held) :
    holds language held :=
  h.each (language, held) (Json.mem_of_lookup? hheld)

theorem Holds.put (h : set.Holds holds) (hheld : holds language held) :
    (set.put language held).Holds holds := by
  refine ⟨Json.keys_put_nodup h.keys, fun member hmember ↦ ?_⟩
  rcases Json.mem_put hmember with rfl | hmember
  · exact hheld
  · exact h.each member hmember

theorem remove_holds (h : set.Holds holds) : (set.remove language).1.Holds holds :=
  ⟨h.keys.sublist (List.filter_sublist.map _),
    fun member hmember ↦ h.each member (List.mem_of_mem_filter hmember)⟩

theorem replacing_holds (h : set.Holds holds) {next : Except Error TrackSet}
    (hnext : ∀ set', next = .ok set' → set'.held = set.held) :
    (set.replacing next).1.Holds holds := by
  cases next with
  | error e => exact h
  | ok set' =>
    have hheld := hnext set' rfl
    exact ⟨hheld ▸ h.keys, hheld ▸ h.each⟩

variable [Rounding]

theorem setDefaults_held {next : TrackSet} {style : Json} (h : set.setDefaults style = .ok next) :
    next.held = set.held := by
  obtain ⟨style, -, h⟩ := bind_eq_ok.mp h
  cases pure_eq_ok.mp h
  rfl

theorem setSync_held {next : TrackSet} {options : Option SyncOptions}
    {changes : List (String × Json)} (h : set.setSync options changes = .ok next) :
    next.held = set.held := by
  obtain ⟨sync, -, h⟩ := bind_eq_ok.mp h
  cases pure_eq_ok.mp h
  rfl

section

variable (lasting : HeldTrack.IsLasting holds)

include lasting

theorem enable_holds (h : set.Holds holds) (enabled : Json) :
    (set.enable language enabled).1.Holds holds := by
  rw [enable]
  split
  · exact h
  · rename_i held hheld
    exact h.put (lasting.enabled enabled (h.find hheld))

theorem clear_holds (h : set.Holds holds) : (set.clear language).Holds holds := by
  refine ⟨by rw [clear, keys_modify]; exact h.keys, List.forall_mem_map.mpr fun member hmember ↦ ?_⟩
  split
  · exact lasting.emptied (h.each member hmember)
  · exact h.each member hmember

theorem create_holds (h : set.Holds holds) (asked : Json) (given : List (String × Json)) :
    (set.create asked given).1.Holds holds := by
  rcases create_cases rfl (fun _ ↦ rfl) asked given with
    ⟨e, warnings, hset, -⟩ | ⟨language, track, warnings, hid, hentries, hset, -⟩ <;> rw [hset]
  · exact h
  · exact h.put (lasting.created hid hentries)

theorem insert_holds (h : set.Holds holds) (language : String) (draft : Draft) :
    (set.insert language draft).1.Holds holds := by
  rw [insert]
  split
  · exact h
  rename_i held hheld
  split
  · exact h
  rename_i hcheck
  dsimp only
  split
  · exact h.put (lasting.issued (h.find hheld))
  · rename_i subtitle hmade
    exact h.put (lasting.inserted (h.find hheld) hcheck hmade)

theorem add_holds (h : set.Holds holds) (given : List (String × Json)) :
    (set.add language given).1.Holds holds := by
  rw [add]
  split
  · exact insert_holds lasting h _ _
  · exact h

theorem insertTexts_holds {sequence : Sequence} (texts : List Json) (start : Json)
    (h : set.Holds holds) : (insertTexts language sequence set start texts).1.Holds holds := by
  induction texts generalizing set start with
  | nil => exact h
  | cons text rest ih =>
    rw [insertTexts]
    split
    · exact h
    rename_i draft length hdraft
    have hnext : (set.insert language draft).1.Holds holds := insert_holds lasting h _ draft
    split <;> rename_i hinsert <;> rw [hinsert] at hnext
    · exact hnext
    split
    · exact hnext
    · exact ih _ hnext

theorem insertAll_holds (subtitles : List Subtitle) (h : set.Holds holds) :
    (insertAll language set subtitles).1.Holds holds := by
  induction subtitles generalizing set with
  | nil => exact h
  | cons subtitle rest ih =>
    have hnext : (set.insert language (.ofSubtitle subtitle)).1.Holds holds :=
      insert_holds lasting h _ _
    rw [insertAll]
    split <;> rename_i hinsert <;> rw [hinsert] at hnext
    · exact hnext
    · exact ih hnext

theorem prepare_holds (h : set.Holds holds) (language : String) (replace : Bool) :
    (set.prepare language replace).1.Holds holds := by
  rw [prepare]
  split
  · split
    · exact clear_holds lasting h
    · exact h
  · exact create_holds lasting h _ _

theorem synchronize_holds (h : set.Holds holds) (cues : Json) :
    (set.synchronize language cues).1.Holds holds := by
  rw [synchronize]
  split
  · exact h
  rename_i held hheld
  split
  · exact h
  · exact h.put (lasting.synchronized _ _ (h.find hheld))

/-- **No call takes away what lasts**, whether it succeeds or not. -/
theorem Call.run_holds (h : set.Holds holds) (call : Call) : (call.run set).1.Holds holds := by
  cases call with
  | setDefaults style => exact replacing_holds h fun _ hnext ↦ setDefaults_held hnext
  | setSync options changes => exact replacing_holds h fun _ hnext ↦ setSync_held hnext
  | create language given => exact create_holds lasting h language given
  | remove language => exact remove_holds h
  | enable language enabled => exact enable_holds lasting h enabled
  | add language given => exact add_holds lasting h given
  | addSequence language given =>
    show (set.addSequence language given).1.Holds holds
    rw [TrackSet.addSequence]
    split
    · exact h
    · exact insertTexts_holds lasting _ _ h
  | synchronize language cues => exact synchronize_holds lasting h cues
  | importText language content format options given =>
    show (set.importText language content format options given).1.Holds holds
    rw [TrackSet.importText]
    dsimp only
    split
    · exact h
    rename_i replace subtitles hasked
    have hprepared : (set.prepare language replace).1.Holds holds :=
      prepare_holds lasting h _ replace
    split <;> rename_i hprepare <;> rw [hprepare] at hprepared
    · exact hprepared
    · exact insertAll_holds lasting subtitles hprepared
  | ask question => exact h

theorem after_holds (h : set.Holds holds) (calls : List Call) : (set.after calls).Holds holds := by
  induction calls generalizing set with
  | nil => exact h
  | cons call rest ih => exact ih (call.run_holds lasting h)

end
end TrackSet

/-! ## Names -/

/-- The subtitles of a track have names that it has given out. -/
structure HeldTrack.IsNamed (language : String) (held : HeldTrack) : Prop where
  id_eq : held.track.id = "track_" ++ language
  named : ∀ name ∈ held.track.entries.map Subtitle.id,
    ∃ n ≤ held.issued, name = subtitleName language n

namespace HeldTrack

variable {language : String} {held after : HeldTrack}

theorem isNamed_of_empty {track : Track} (hid : track.id = "track_" ++ language)
    (hentries : track.entries = []) (issued : Nat) : IsNamed language { track, issued } :=
  ⟨hid, by simp [hentries]⟩

theorem IsNamed.nameOf_eq (named : held.IsNamed language) (n : Nat) :
    held.track.id ++ "_" ++ toString n = subtitleName language n := by
  rw [named.id_eq, subtitleName]

/-- A track stays named if each of its subtitles keeps a name or gets one that was given out. -/
theorem IsNamed.of_names (named : held.IsNamed language) (hid : after.track.id = held.track.id)
    (hissued : held.issued ≤ after.issued)
    (hnames : ∀ name ∈ after.track.entries.map Subtitle.id,
      name ∈ held.track.entries.map Subtitle.id ∨
        ∃ n ≤ after.issued, name = subtitleName language n) :
    after.IsNamed language := by
  refine ⟨hid.trans named.id_eq, fun name hname ↦ ?_⟩
  rcases hnames name hname with hname | hname
  · obtain ⟨n, hle, hname⟩ := named.named name hname
    exact ⟨n, hle.trans hissued, hname⟩
  · exact hname

/-- **No call loses track of the names**: an insertion gives out a name at most, and gives it to a
subtitle at most. -/
theorem isNamed_isLasting [Rounding] : IsLasting IsNamed where
  created hid hentries := isNamed_of_empty hid hentries 0
  enabled _ named := ⟨named.id_eq, named.named⟩
  emptied named := by
    refine isNamed_of_empty ?_ rfl 0
    exact named.id_eq
  issued named := named.of_names rfl (Nat.le_succ _) fun _ hname ↦ .inl hname
  inserted := by
    intro language held draft subtitle named hcheck hmade
    refine named.of_names rfl (Nat.le_succ _) fun name hname ↦ ?_
    rw [Subtitle.map_id_numbered, ((perm_insertAt _ _ _).map Subtitle.id).mem_iff, List.map_cons,
      List.mem_cons] at hname
    refine hname.symm.imp_right fun hname ↦ ⟨held.issued + 1, le_rfl, ?_⟩
    rw [hname, (TrackSet.Draft.subtitle_eq_ok hmade).1, named.nameOf_eq]
  synchronized := by
    intro language held radius cues named
    refine named.of_names rfl le_rfl fun name hname ↦ .inl ?_
    rwa [(held.track.map_id_synchronized_perm _ _).mem_iff] at hname

end HeldTrack

namespace TrackSet

/-- The tracks of a set have languages of their own, and their subtitles are named after those. -/
structure IsNamed (set : TrackSet) : Prop where
  keys : (set.held.map Prod.fst).Nodup
  named : ∀ member ∈ set.held, member.2.IsNamed member.1

variable {set : TrackSet} {language : String} {held : HeldTrack}

theorem isNamed_iff : set.IsNamed ↔ set.Holds HeldTrack.IsNamed :=
  ⟨fun ⟨keys, named⟩ ↦ ⟨keys, named⟩, fun ⟨keys, each⟩ ↦ ⟨keys, each⟩⟩

theorem IsNamed.find (named : set.IsNamed) (h : set.find? language = some held) :
    held.IsNamed language :=
  (isNamed_iff.mp named).find h

theorem IsNamed.put (named : set.IsNamed) (hheld : held.IsNamed language) :
    (set.put language held).IsNamed :=
  isNamed_iff.mpr ((isNamed_iff.mp named).put hheld)

theorem empty_isNamed : IsNamed {} := isNamed_iff.mpr empty_holds

variable [Rounding]

theorem insert_isNamed (named : set.IsNamed) (language : String) (draft : Draft) :
    (set.insert language draft).1.IsNamed :=
  isNamed_iff.mpr (insert_holds HeldTrack.isNamed_isLasting (isNamed_iff.mp named) language draft)

theorem prepare_isNamed (named : set.IsNamed) (language : String) (replace : Bool) :
    (set.prepare language replace).1.IsNamed :=
  isNamed_iff.mpr
    (prepare_holds HeldTrack.isNamed_isLasting (isNamed_iff.mp named) language replace)

theorem Call.run_isNamed (named : set.IsNamed) (call : Call) : (call.run set).1.IsNamed :=
  isNamed_iff.mpr (call.run_holds HeldTrack.isNamed_isLasting (isNamed_iff.mp named))

theorem after_isNamed (named : set.IsNamed) (calls : List Call) : (set.after calls).IsNamed :=
  isNamed_iff.mpr (after_holds HeldTrack.isNamed_isLasting (isNamed_iff.mp named) calls)

end TrackSet
end Montage
