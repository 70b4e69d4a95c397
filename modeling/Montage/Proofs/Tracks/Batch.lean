import Montage.Proofs.Tracks.Reachable

/-!
# Sequences and imports that fail

A sequence and an import insert one subtitle after the other, and neither takes anything back when
an insertion fails.  What is left is a beginning of the batch: the track holds what it held before,
which is nothing if an import emptied it first, and the subtitles up to the one that failed; no
other track is touched (`TrackSet.batchFailure_leavesBeginning`).  Nothing at all has changed only
if the batch was never begun: what was asked for could not be read, or there is no track to fill.

Only a time that is not finite stops an import, because whatever else a subtitle holds was settled
when the document was read.  It is refused before a name is given out.  A sequence can fail
anywhere, also behind a subtitle that is in already: the start of the next one is found even if
there is none.  Where it stops is settled by its texts and the settings alone (`TrackSet.Stops`).
-/

set_option autoImplicit false

namespace Montage

/-! ## Subtitles put in -/

/-- The subtitle without its index, which says only where it stands. -/
def Subtitle.unnumbered (subtitle : Subtitle) : Subtitle := { subtitle with index := 0 }

namespace HeldTrack

/-- The name that the track gives out as its `n`th. -/
def nameOf (held : HeldTrack) (n : Nat) : String := held.track.id ++ "_" ++ toString n

/-- The track `after` is the track `before` with the subtitles `made` put in one after the other. -/
structure IsExtended (before : HeldTrack) (made : List Subtitle) (after : HeldTrack) : Prop where
  /-- Only the subtitles of the track change. -/
  track_eq : after.track = { before.track with entries := after.track.entries }
  /-- The subtitles that were there stay, one behind the other as before. -/
  kept : (before.track.entries.map Subtitle.unnumbered).Sublist
    (after.track.entries.map Subtitle.unnumbered)
  /-- Beside them there are those that were put in. -/
  perm : (after.track.entries.map Subtitle.unnumbered).Perm
    (made.map Subtitle.unnumbered ++ before.track.entries.map Subtitle.unnumbered)
  numbered : made ≠ [] → Subtitle.IsNumbered after.track.entries
  /-- Each has the next name of the track. -/
  named : ∀ place (h : place < made.length),
    made[place].id = before.nameOf (before.issued + place + 1)
  issued_eq : after.issued = before.issued + made.length
  same : made = [] → after = before

namespace IsExtended

variable {before between after : HeldTrack} {made more : List Subtitle}

theorem refl (held : HeldTrack) : held.IsExtended [] held where
  track_eq := rfl
  kept := .refl _
  perm := .refl _
  numbered h := absurd rfl h
  named place h := absurd h (Nat.not_lt_zero place)
  issued_eq := rfl
  same _ := rfl

theorem trans (first : before.IsExtended made between) (second : between.IsExtended more after) :
    before.IsExtended (made ++ more) after where
  track_eq := by rw [second.track_eq, first.track_eq]
  kept := first.kept.trans second.kept
  perm := by
    rw [List.map_append, List.append_assoc]
    exact second.perm.trans ((first.perm.append_left _).trans (List.perm_append_comm_assoc _ _ _))
  numbered h := by
    by_cases hmore : more = []
    · rw [second.same hmore]
      rw [hmore, List.append_nil] at h
      exact first.numbered h
    · exact second.numbered hmore
  named place h := by
    have hid : between.track.id = before.track.id := by rw [first.track_eq]
    rw [List.getElem_append]
    split
    · exact first.named place _
    · rename_i hplace
      rw [second.named, nameOf, nameOf, hid, first.issued_eq, Nat.add_assoc before.issued,
        Nat.add_sub_cancel' (Nat.le_of_not_lt hplace)]
  issued_eq := by rw [second.issued_eq, first.issued_eq, List.length_append, Nat.add_assoc]
  same h := by
    obtain ⟨hmade, hmore⟩ := List.append_eq_nil_iff.mp h
    rw [second.same hmore, first.same hmade]

end IsExtended

/-- A subtitle under the next name of a track extends the track, wherever it is put. -/
theorem isExtended_insertAt (held : HeldTrack) {subtitle : Subtitle}
    (hid : subtitle.id = held.nameOf (held.issued + 1)) (place : Nat) (index : Int) :
    held.IsExtended [{ subtitle with index }] {
      track := { held.track with
        entries := Subtitle.numbered (insertAt place subtitle held.track.entries) }
      issued := held.issued + 1 } where
  track_eq := rfl
  kept := by
    rw [Subtitle.map_numbered fun _ _ ↦ rfl]
    refine List.Sublist.map _ ?_
    nth_rewrite 1 [← List.take_append_drop place held.track.entries]
    exact .append_left (List.sublist_cons_self _ _) _
  perm := by
    rw [Subtitle.map_numbered fun _ _ ↦ rfl, insertAt, List.map_append, List.map_cons]
    refine List.perm_middle.trans ?_
    rw [← List.map_append, List.take_append_drop]
    exact .refl _
  numbered _ := Subtitle.numbered_isNumbered _
  named place h := by
    obtain rfl : place = 0 := Nat.lt_one_iff.mp h
    exact hid
  issued_eq := rfl
  same h := absurd h (List.cons_ne_nil _ _)

end HeldTrack

namespace TrackSet

variable {set : TrackSet} {language : String} {held : HeldTrack}

/-! ## Sets of which one track has changed -/

/-- The set `after` has the track `held` for a language, and is the set `before` apart from that. -/
structure IsChangedTo (before : TrackSet) (language : String) (held : HeldTrack)
    (after : TrackSet) : Prop where
  found : after.find? language = some held
  others : (after.remove language).1 = (before.remove language).1

theorem IsChangedTo.refl (hheld : set.find? language = some held) :
    set.IsChangedTo language held set := ⟨hheld, rfl⟩

theorem isChangedTo_put (set : TrackSet) (language : String) (held : HeldTrack) :
    set.IsChangedTo language held (set.put language held) where
  found := find?_put_self
  others := by simp only [remove, put, Json.filter_ne_put]

theorem isChangedTo_modify (hheld : set.find? language = some held)
    (change : HeldTrack → HeldTrack) :
    set.IsChangedTo language (change held) (set.modify language change) where
  found := by rw [find?_modify, hheld, Option.map_some, if_pos rfl]
  others := by simp only [remove, modify, Json.filter_ne_map]

theorem isChangedTo_clear (hheld : set.find? language = some held) :
    set.IsChangedTo language { track := { held.track with entries := [] } }
      (set.clear language) :=
  isChangedTo_modify hheld fun held ↦ { track := { held.track with entries := [] } }

theorem IsChangedTo.trans {between after : TrackSet} {first last : HeldTrack}
    (hfirst : set.IsChangedTo language first between)
    (hlast : between.IsChangedTo language last after) : set.IsChangedTo language last after :=
  ⟨hlast.found, hlast.others.trans hfirst.others⟩

variable [Rounding]

/-! ## One insertion -/

section Insert

variable {draft : Draft} (hheld : set.find? language = some held)

include hheld

theorem insert_of_refused {e : Error} (hcheck : draft.checkTimes = .error e) :
    set.insert language draft = (set, .error e) := by
  simp only [insert, hheld, hcheck]

theorem insert_of_failed {e : Error} (hcheck : draft.checkTimes = .ok ())
    (hmade : draft.subtitle (held.nameOf (held.issued + 1)) = .error e) :
    set.insert language draft =
      (set.put language { held with issued := held.issued + 1 }, .error e) := by
  simp only [insert, hheld, hcheck]
  rw [HeldTrack.nameOf] at hmade
  rw [hmade]

/-- A subtitle that is made extends the track. -/
theorem insert_of_made {subtitle : Subtitle} (hcheck : draft.checkTimes = .ok ())
    (hmade : draft.subtitle (held.nameOf (held.issued + 1)) = .ok subtitle) :
    ∃ index after, (∀ index, held.IsExtended [{ subtitle with index }] after) ∧
      set.insert language draft = (set.put language after, .ok { subtitle with index }) := by
  obtain ⟨hid, -⟩ := Draft.subtitle_eq_ok hmade
  let place := placeFor draft.start held.track.entries
  refine ⟨(place : Int) + 1, _, held.isExtended_insertAt hid place, ?_⟩
  simp only [insert, hheld, hcheck]
  rw [HeldTrack.nameOf] at hmade
  rw [hmade]

end Insert

end TrackSet

/-! ## Subtitles of a document -/

namespace Subtitle

/-- Both times of the subtitle are finite. -/
def IsTimed (subtitle : Subtitle) : Prop :=
  subtitle.start.isFinite = true ∧ subtitle.stop.isFinite = true

/-- The subtitle is another one under a name and an index of its own, and with no confidence. -/
def IsEntryOf (entry subtitle : Subtitle) : Prop :=
  entry = { subtitle with id := entry.id, index := entry.index, confidence := none }

end Subtitle

namespace TrackSet

variable [Rounding] {set : TrackSet} {language : String} {held : HeldTrack}

namespace Draft

theorem checkTime_quantity (name : String) (x : Quantity) :
    checkTime name (.quantity x) = .ok () ↔ x.isFinite = true := by
  have heq : checkTime name (.quantity x) = if x.isFinite then .ok () else
      .error (.refused (.notFinite name (Number.display .plain (.real x)))) := by
    cases x <;> rfl
  rw [heq]
  split <;> simp_all

theorem checkTimes_ofSubtitle (subtitle : Subtitle) :
    (ofSubtitle subtitle).checkTimes = .ok () ↔ subtitle.IsTimed := by
  rw [checkTimes, constructing_eq_ok, bind_eq_ok]
  constructor
  · rintro ⟨_, hstart, hstop⟩
    exact ⟨(checkTime_quantity _ _).mp hstart, (checkTime_quantity _ _).mp hstop⟩
  · rintro ⟨hstart, hstop⟩
    exact ⟨(), (checkTime_quantity _ _).mpr hstart, (checkTime_quantity _ _).mpr hstop⟩

/-- What was read from a document is taken as it is. -/
theorem subtitle_ofSubtitle (subtitle : Subtitle) (id : String) :
    (ofSubtitle subtitle).subtitle id =
      .ok { subtitle with id, index := 0, confidence := none } := by
  obtain ⟨_, _, text, start, stop, style, position, animation, _, metadata⟩ := subtitle
  cases metadata <;> rfl

end Draft

theorem insert_of_timed {subtitle : Subtitle} (hheld : set.find? language = some held)
    (timed : subtitle.IsTimed) : ∃ entry after made, entry.IsEntryOf subtitle ∧
      held.IsExtended [entry] after ∧
      set.insert language (.ofSubtitle subtitle) = (set.put language after, .ok made) := by
  obtain ⟨index, after, extended, hinsert⟩ := insert_of_made hheld
    ((Draft.checkTimes_ofSubtitle subtitle).mpr timed) (Draft.subtitle_ofSubtitle subtitle _)
  refine ⟨_, after, _, ?_, extended 0, hinsert⟩
  rfl

theorem insert_of_untimed {subtitle : Subtitle} (hheld : set.find? language = some held)
    (untimed : ¬ subtitle.IsTimed) :
    ∃ e, set.insert language (.ofSubtitle subtitle) = (set, .error e) := by
  cases hcheck : (Draft.ofSubtitle subtitle).checkTimes with
  | ok _ => exact absurd ((Draft.checkTimes_ofSubtitle subtitle).mp hcheck) untimed
  | error e => exact ⟨e, insert_of_refused hheld hcheck⟩

/-- The insertions of an import stop at the first subtitle with a time that is not finite. -/
theorem insertAll_stops {subtitles : List Subtitle} {e : Error}
    (hheld : set.find? language = some held)
    (h : (insertAll language set subtitles).2 = .error e) :
    ∃ done failed rest entries after, subtitles = done ++ failed :: rest ∧
      (∀ subtitle ∈ done, subtitle.IsTimed) ∧ ¬ failed.IsTimed ∧
      List.Forall₂ Subtitle.IsEntryOf entries done ∧ held.IsExtended entries after ∧
      set.IsChangedTo language after (insertAll language set subtitles).1 := by
  induction subtitles generalizing set held with
  | nil => cases h
  | cons subtitle subtitles ih =>
    by_cases timed : subtitle.IsTimed
    · obtain ⟨entry, between, made, hentry, first, hinsert⟩ := insert_of_timed hheld timed
      simp only [insertAll, hinsert] at h ⊢
      obtain ⟨done, failed, rest, entries, after, rfl, htimed, huntimed, hentries, more, changed⟩ :=
        ih find?_put_self h
      exact ⟨subtitle :: done, failed, rest, entry :: entries, after, rfl,
        List.forall_mem_cons.mpr ⟨timed, htimed⟩, huntimed, .cons hentry hentries, first.trans more,
        (isChangedTo_put set language between).trans changed⟩
    · obtain ⟨_, hinsert⟩ := insert_of_untimed hheld timed
      simp only [insertAll, hinsert]
      exact ⟨[], subtitle, subtitles, [], held, rfl, by simp, timed, .nil, .refl held, .refl hheld⟩

/-- The track that an import fills: a new one if the language has a name, or the present one,
emptied if it is to be replaced. -/
inductive IsFilled (set : TrackSet) (language : String) : Bool → HeldTrack → Prop
  | fresh {replace : Bool} {request : Request} {track : Track}
      (habsent : set.find? language = none) (hnamed : languageOf (.str language) = .ok language)
      (hrequest : Request.complete trackSignature [] = .ok request)
      (htrack : set.newTrack language request = .ok track) (hentries : track.entries = []) :
      IsFilled set language replace { track }
  | emptied {held : HeldTrack} (hheld : set.find? language = some held) :
      IsFilled set language true { track := { held.track with entries := [] } }
  | kept {held : HeldTrack} (hheld : set.find? language = some held) :
      IsFilled set language false held

theorem newTrack_plain (set : TrackSet) (language : String) :
    ∃ request track, Request.complete trackSignature [] = .ok request ∧
      set.newTrack language request = .ok track :=
  ⟨_, _, rfl, rfl⟩

/-- A track that is asked for by its language alone is created, unless the language has no name. -/
theorem create_plain (habsent : set.find? language = none) :
    (∃ e, languageOf (.str language) = .error e ∧
      set.create (.str language) [] = (set, ⟨.error e, []⟩)) ∨
    ∃ request track, languageOf (.str language) = .ok language ∧
      Request.complete trackSignature [] = .ok request ∧
      set.newTrack language request = .ok track ∧
      set.create (.str language) [] = (set.put language { track }, ⟨.ok track, []⟩) := by
  obtain ⟨request, track, hrequest, htrack⟩ := newTrack_plain set language
  cases hnamed : languageOf (.str language) with
  | error e =>
    refine .inl ⟨e, rfl, ?_⟩
    rw [create, Reported.lift_bind hrequest, hnamed]
    rfl
  | ok named =>
    obtain rfl : language = named := by
      rw [languageOf] at hnamed
      split at hnamed
      · cases hnamed
      · exact Except.ok.inj hnamed
    refine .inr ⟨request, track, rfl, hrequest, htrack, ?_⟩
    have habsent : (set.find? language).isSome = false := by rw [habsent, Option.isSome_none]
    rw [create, Reported.lift_bind hrequest, Reported.lift_bind hnamed, habsent]
    simp only [Reported.lift_bind htrack]
    rfl

/-- An import fills a track; or there is none, and none can be created for a language without a
name. -/
theorem prepare_isFilled (set : TrackSet) (language : String) (replace : Bool) :
    (∃ e, set.find? language = none ∧ languageOf (.str language) = .error e ∧
      set.prepare language replace = (set, .error e)) ∨
    ∃ held filled, set.IsFilled language replace held ∧ set.IsChangedTo language held filled ∧
      set.prepare language replace = (filled, .ok ()) := by
  cases hfind : set.find? language with
  | none =>
    rcases create_plain hfind with
      ⟨e, hnamed, hcreate⟩ | ⟨request, track, hnamed, hrequest, htrack, hcreate⟩
    · exact .inl ⟨e, rfl, hnamed, by simp only [prepare, hfind, hcreate]; rfl⟩
    · exact .inr ⟨_, _, .fresh hfind hnamed hrequest htrack (newTrack_eq_ok htrack).2,
        isChangedTo_put set language { track }, by simp only [prepare, hfind, hcreate]; rfl⟩
  | some held =>
    cases replace with
    | true =>
      exact .inr ⟨_, _, .emptied hfind, isChangedTo_clear hfind,
        by simp only [prepare, hfind]; rfl⟩
    | false =>
      exact .inr ⟨_, _, .kept hfind, .refl hfind, by simp only [prepare, hfind]; rfl⟩

/-- What an import that failed has left.  If the request or the document cannot be read, or if there
is no track and the language has no name, then nothing has changed; else the track that was to be
filled holds the subtitles in front of the first one with a time that is not finite. -/
inductive LeftByImport (set : TrackSet) (language : String) (content format : Json)
    (options : Option ReadOptions) (given : List (String × Json)) : TrackSet → Prop
  | unread (h : ∀ request subtitles, Request.complete importSignature given = .ok request →
        (Subtitle.parse content format .null options).result ≠ .ok subtitles) :
      LeftByImport set language content format options given set
  | unnamed {e : Error} (habsent : set.find? language = none)
      (hnamed : languageOf (.str language) = .error e) :
      LeftByImport set language content format options given set
  | stopped {request : Request} {done rest entries : List Subtitle} {failed : Subtitle}
      {before after : HeldTrack} {left : TrackSet}
      (hrequest : Request.complete importSignature given = .ok request)
      (hread : (Subtitle.parse content format .null options).result = .ok (done ++ failed :: rest))
      (filled : set.IsFilled language (request.get "replace").isTruthy before)
      (timed : ∀ subtitle ∈ done, subtitle.IsTimed) (untimed : ¬ failed.IsTimed)
      (hentries : List.Forall₂ Subtitle.IsEntryOf entries done)
      (extended : before.IsExtended entries after)
      (changed : set.IsChangedTo language after left) :
      LeftByImport set language content format options given left

theorem importText_left {content format : Json} {options : Option ReadOptions}
    {given : List (String × Json)} {e : Error}
    (h : (set.importText language content format options given).2.result = .error e) :
    LeftByImport set language content format options given
      (set.importText language content format options given).1 := by
  rw [importText] at h ⊢
  dsimp only at h ⊢
  split at h
  · rename_i hasked
    refine .unread fun request subtitles hrequest hread ↦ ?_
    cases hasked.symm.trans (Reported.bind_eq_ok.mpr
      ⟨request, hrequest, Reported.bind_eq_ok.mpr ⟨subtitles, hread, rfl⟩⟩)
  rename_i replace subtitles hasked
  obtain ⟨request, hrequest, hasked⟩ := Reported.bind_eq_ok.mp hasked
  obtain ⟨read, hread, hasked⟩ := Reported.bind_eq_ok.mp hasked
  obtain ⟨rfl, rfl⟩ := Prod.mk.inj (Except.ok.inj hasked)
  rcases prepare_isFilled set language (request.get "replace").isTruthy with
    ⟨_, habsent, hnamed, hprepare⟩ | ⟨before, set', filled, changed, hprepare⟩
  · rw [hprepare]
    exact .unnamed habsent hnamed
  · rw [hprepare] at h ⊢
    dsimp only at h ⊢
    obtain ⟨done, failed, rest, entries, after, rfl, timed, untimed, hentries, extended, stopped⟩ :=
      insertAll_stops changed.found (map_eq_error.mp h)
    exact .stopped hrequest hread filled timed untimed hentries extended (changed.trans stopped)

end TrackSet

/-! ## Texts in a row -/

namespace TrackSet

variable [Rounding] {set : TrackSet} {language : String} {held : HeldTrack}

/-- The draft of a text in a sequence says the text, its lines broken if that is wanted. -/
theorem sequenceDraft_text {sequence : Sequence} {start text length : Json} {draft : Draft}
    (h : set.sequenceDraft sequence start text = .ok (draft, length)) :
    set.sequenceText text = .ok draft.text := by
  obtain ⟨_, -, h⟩ := bind_eq_ok.mp h
  obtain ⟨shown, hshown, h⟩ := bind_eq_ok.mp h
  obtain ⟨_, -, h⟩ := bind_eq_ok.mp h
  cases pure_eq_ok.mp h
  exact hshown

namespace Draft

/-- A subtitle is made under one name as under any other. -/
theorem subtitle_rename (draft : Draft) (id other : String) : draft.subtitle other =
    (draft.subtitle id).map fun subtitle ↦ { subtitle with id := other } := by
  rw [subtitle, subtitle]
  cases draft.style with
  | error _ => rfl
  | ok style =>
    cases draft.position with
    | error _ => rfl
    | ok position =>
      cases draft.animation with
      | error _ => rfl
      | ok animation =>
        dsimp only [Bind.bind, Except.bind]
        cases (Subtitle.decode _).toExcept <;> rfl

/-- Under every name a subtitle can be made of the draft, and its times are finite. -/
structure IsSound (draft : Draft) : Prop where
  timed : draft.checkTimes = .ok ()
  made : ∀ id, ∃ subtitle, draft.subtitle id = .ok subtitle

/-- The subtitle is that of the draft, but for its index. -/
def Makes (draft : Draft) (entry : Subtitle) : Prop :=
  ∃ index, draft.subtitle entry.id = .ok { entry with index }

theorem makes_of_subtitle {draft : Draft} {id : String} {subtitle : Subtitle}
    (h : draft.subtitle id = .ok subtitle) (index : Int) : draft.Makes { subtitle with index } := by
  obtain ⟨rfl, -⟩ := subtitle_eq_ok h
  exact ⟨subtitle.index, h⟩

end Draft

/-- A draft that is sound extends the track by its subtitle.  Any other one fails, and has used up a
name if its times are finite. -/
theorem insert_cases (hheld : set.find? language = some held) (draft : Draft) :
    (∃ e, draft.checkTimes = .error e ∧ set.insert language draft = (set, .error e)) ∨
    (∃ e, draft.checkTimes = .ok () ∧ (∀ id, draft.subtitle id = .error e) ∧
      set.insert language draft =
        (set.put language { held with issued := held.issued + 1 }, .error e)) ∨
    ∃ entry after, draft.IsSound ∧ draft.Makes entry ∧ held.IsExtended [entry] after ∧
      set.insert language draft = (set.put language after, .ok entry) := by
  cases hcheck : draft.checkTimes with
  | error e => exact .inl ⟨e, rfl, insert_of_refused hheld hcheck⟩
  | ok _ =>
    have hrename := draft.subtitle_rename (held.nameOf (held.issued + 1))
    cases hmade : draft.subtitle (held.nameOf (held.issued + 1)) with
    | error e =>
      refine .inr (.inl ⟨e, rfl, fun id ↦ ?_, insert_of_failed hheld hcheck hmade⟩)
      rw [hrename, hmade]
      rfl
    | ok subtitle =>
      obtain ⟨index, after, extended, hinsert⟩ := insert_of_made hheld hcheck hmade
      have sound : draft.IsSound := ⟨hcheck, fun id ↦ ⟨_, by rw [hrename, hmade]; rfl⟩⟩
      have makes := Draft.makes_of_subtitle hmade index
      exact .inr (.inr ⟨_, after, sound, makes, extended index, hinsert⟩)

/-- Where the insertions of a sequence stop that start with the first of some texts at some time:
the drafts that are in by then, and how many names were given out beside theirs. -/
inductive Stops (set : TrackSet) (sequence : Sequence) :
    Json → List Json → List Draft → Nat → Prop
  /-- The first text has no length, or no end, or is no text that can be broken into lines. -/
  | undrafted {start text : Json} {rest : List Json} {e : Error}
      (hdraft : set.sequenceDraft sequence start text = .error e) :
      Stops set sequence start (text :: rest) [] 0
  /-- The first text would start or end at a time that is not finite. -/
  | untimed {start text length : Json} {rest : List Json} {draft : Draft} {e : Error}
      (hdraft : set.sequenceDraft sequence start text = .ok (draft, length))
      (hcheck : draft.checkTimes = .error e) :
      Stops set sequence start (text :: rest) [] 0
  /-- No subtitle can be made of the first text; its name has been given out before. -/
  | unmade {start text length : Json} {rest : List Json} {draft : Draft} {e : Error}
      (hdraft : set.sequenceDraft sequence start text = .ok (draft, length))
      (hcheck : draft.checkTimes = .ok ()) (hmade : ∀ id, draft.subtitle id = .error e) :
      Stops set sequence start (text :: rest) [] 1
  /-- The first text is in, but the one behind it would have no start. -/
  | unfollowed {start text length : Json} {rest : List Json} {draft : Draft} {e : Error}
      (hdraft : set.sequenceDraft sequence start text = .ok (draft, length))
      (sound : draft.IsSound) (hnext : sequence.next start length = .error e) :
      Stops set sequence start (text :: rest) [draft] 0
  /-- The first text is in, and it goes on with the one behind it. -/
  | behind {start text length next : Json} {rest : List Json} {draft : Draft}
      {drafts : List Draft} {spent : Nat}
      (hdraft : set.sequenceDraft sequence start text = .ok (draft, length))
      (sound : draft.IsSound) (hnext : sequence.next start length = .ok next)
      (stops : Stops set sequence next rest drafts spent) :
      Stops set sequence start (text :: rest) (draft :: drafts) spent

theorem Stops.spent_le_one {sequence : Sequence} {start : Json} {texts : List Json}
    {drafts : List Draft} {spent : Nat} (stops : set.Stops sequence start texts drafts spent) :
    spent ≤ 1 := by
  induction stops with
  | undrafted | untimed | unfollowed => exact Nat.zero_le 1
  | unmade => exact le_rfl
  | behind _ _ _ _ ih => exact ih

/-- The drafts that are in say the texts of a beginning of the sequence. -/
theorem Stops.exists_beginning {sequence : Sequence} {start : Json} {texts : List Json}
    {drafts : List Draft} {spent : Nat} (stops : set.Stops sequence start texts drafts spent) :
    ∃ done rest, texts = done ++ rest ∧
      List.Forall₂ (fun draft text ↦ set.sequenceText text = .ok draft.text) drafts done := by
  induction stops with
  | undrafted | untimed | unmade => exact ⟨[], _, rfl, .nil⟩
  | unfollowed hdraft => exact ⟨[_], _, rfl, .cons (sequenceDraft_text hdraft) .nil⟩
  | behind hdraft _ _ _ ih =>
    obtain ⟨done, rest, rfl, hdrafts⟩ := ih
    exact ⟨_ :: done, rest, rfl, .cons (sequenceDraft_text hdraft) hdrafts⟩

/-- The drafts of a sequence are settled by the settings alone. -/
theorem sequenceDraft_congr {other : TrackSet} (hsync : other.sync = set.sync) :
    other.sequenceDraft = set.sequenceDraft := by
  funext sequence start text
  simp only [sequenceDraft, Sequence.length, readingTime, sequenceText, hsync]

/-- **The insertions of a sequence stop where its texts and the settings say**, and the track has
the subtitles of the drafts up to there. -/
theorem insertTexts_stops {other : TrackSet} {sequence : Sequence} {start : Json}
    {texts : List Json} {e : Error} (hsync : other.sync = set.sync)
    (hheld : other.find? language = some held)
    (h : (insertTexts language sequence other start texts).2 = .error e) :
    ∃ drafts entries after spent, set.Stops sequence start texts drafts spent ∧
      List.Forall₂ Draft.Makes drafts entries ∧ held.IsExtended entries after ∧
      other.IsChangedTo language { after with issued := after.issued + spent }
        (insertTexts language sequence other start texts).1 := by
  induction texts generalizing other held start with
  | nil => cases h
  | cons text texts ih =>
    have hsame := sequenceDraft_congr hsync
    cases hdraft : other.sequenceDraft sequence start text with
    | error _ =>
      simp only [insertTexts, hdraft]
      exact ⟨[], [], held, 0, .undrafted (hsame ▸ hdraft), .nil, .refl held, .refl hheld⟩
    | ok made =>
      obtain ⟨draft, length⟩ := made
      have hdraft' := hsame ▸ hdraft
      rcases insert_cases hheld draft with ⟨_, hcheck, hinsert⟩ | ⟨_, hcheck, hmade, hinsert⟩ |
        ⟨entry, between, sound, makes, first, hinsert⟩
      · simp only [insertTexts, hdraft, hinsert]
        exact ⟨[], [], held, 0, .untimed hdraft' hcheck, .nil, .refl held, .refl hheld⟩
      · simp only [insertTexts, hdraft, hinsert]
        exact ⟨[], [], held, 1, .unmade hdraft' hcheck hmade, .nil, .refl held,
          isChangedTo_put other language _⟩
      · cases hnext : sequence.next start length with
        | error _ =>
          simp only [insertTexts, hdraft, hinsert, hnext]
          exact ⟨[draft], [entry], between, 0, .unfollowed hdraft' sound hnext, .cons makes .nil,
            first, isChangedTo_put other language between⟩
        | ok next =>
          simp only [insertTexts, hdraft, hinsert, hnext] at h ⊢
          obtain ⟨drafts, entries, after, spent, stops, hentries, more, changed⟩ :=
            ih (show (other.put language between).sync = set.sync from hsync) find?_put_self
              (map_eq_error.mp h)
          exact ⟨draft :: drafts, entry :: entries, after, spent,
            .behind hdraft' sound hnext stops, .cons makes hentries, first.trans more,
            (isChangedTo_put other language between).trans changed⟩

/-- A sequence for a language without a track changes nothing. -/
theorem insertTexts_absent {sequence : Sequence} {start : Json} {texts : List Json}
    (habsent : set.find? language = none) :
    (insertTexts language sequence set start texts).1 = set := by
  cases texts with
  | nil => rfl
  | cons text texts =>
    rw [insertTexts]
    split
    · rfl
    · simp only [insert, habsent]

/-- What a sequence that failed has left.  If the request cannot be read, or there is no track, then
nothing has changed; else the track holds the subtitles of the drafts up to where the sequence
stops, and has given out as many names more as are lost there. -/
inductive LeftBySequence (set : TrackSet) (language : String) (given : List (String × Json)) :
    TrackSet → Prop
  | unread (h : ∀ request texts, Request.complete sequenceSignature given = .ok request →
        (request.get "texts").elements ≠ .ok texts) :
      LeftBySequence set language given set
  | absent (habsent : set.find? language = none) : LeftBySequence set language given set
  | stopped {request : Request} {done rest : List Json} {drafts : List Draft}
      {entries : List Subtitle} {before after : HeldTrack} {spent : Nat} {left : TrackSet}
      (hrequest : Request.complete sequenceSignature given = .ok request)
      (htexts : (request.get "texts").elements = .ok (done ++ rest))
      (hbefore : set.find? language = some before)
      (stops : set.Stops (.ofRequest set request) (request.get "start_time") (done ++ rest) drafts
        spent)
      (hspent : spent ≤ 1)
      (hdone : List.Forall₂ (fun draft text ↦ set.sequenceText text = .ok draft.text) drafts done)
      (hentries : List.Forall₂ Draft.Makes drafts entries)
      (extended : before.IsExtended entries after)
      (changed : set.IsChangedTo language { after with issued := after.issued + spent } left) :
      LeftBySequence set language given left

theorem addSequence_left {given : List (String × Json)} {e : Error}
    (h : (set.addSequence language given).2 = .error e) :
    LeftBySequence set language given (set.addSequence language given).1 := by
  rw [addSequence] at h ⊢
  split at h
  · rename_i hasked
    refine .unread fun request texts hrequest htexts ↦ ?_
    cases hasked.symm.trans
      (bind_eq_ok.mpr ⟨request, hrequest, bind_eq_ok.mpr ⟨texts, htexts, pure_eq_ok.mpr rfl⟩⟩)
  rename_i request texts hasked
  obtain ⟨completed, hrequest, hasked⟩ := bind_eq_ok.mp hasked
  obtain ⟨items, htexts, hasked⟩ := bind_eq_ok.mp hasked
  obtain ⟨rfl, rfl⟩ := Prod.mk.inj (pure_eq_ok.mp hasked)
  cases hfind : set.find? language with
  | none =>
    rw [insertTexts_absent hfind]
    exact .absent hfind
  | some before =>
    obtain ⟨drafts, entries, after, spent, stops, hentries, extended, changed⟩ :=
      insertTexts_stops rfl hfind h
    obtain ⟨done, rest, rfl, hdone⟩ := stops.exists_beginning
    exact .stopped hrequest htexts hfind stops stops.spent_le_one hdone hentries extended changed

/-! ## What a failure leaves -/

/-- **A batch that fails leaves what it did up to the failure, and nothing else.**  If the request
or the document cannot be read, or if there is no track to fill and none can be created, then
nothing has changed.  Otherwise the other tracks and the settings are as before, and the track of
the language is extended by a beginning of the batch: by the texts of the sequence up to where it
stops, or by the subtitles of the document in front of the first one with a time that is not finite.
What the track held stays in it, unless the import was asked to replace it. -/
theorem batchFailure_leavesBeginning (set : TrackSet) (language : String) :
    (∀ given e, (set.addSequence language given).2 = .error e →
      LeftBySequence set language given (set.addSequence language given).1) ∧
    ∀ content format options given e,
      (set.importText language content format options given).2.result = .error e →
        LeftByImport set language content format options given
          (set.importText language content format options given).1 :=
  ⟨fun _ _ h ↦ addSequence_left h, fun _ _ _ _ _ h ↦ importText_left h⟩

end TrackSet

/-! ## Times that are none -/

namespace TrackSet

attribute [local instance] Rounding.binary64

/-- What a call gives to add two texts of which the second one would never start. -/
def endlessGap : List (String × Json) := [
  ("texts", .arr [.str "Hi", .str "Bye"]), ("duration", .quantity (.finite 1)),
  ("gap", .quantity (.infinite false))]

/-- A document of two subtitles of which the second one starts at no time. -/
def startlessDocument : Json := .str <|
  "[\x7b\"text\":\"Hi\",\"startTime\":0,\"endTime\":1\x7d," ++
    "\x7b\"text\":\"Bye\",\"startTime\":NaN,\"endTime\":1\x7d]"

/-- How many names the track of a language has given out, and those of its subtitles. -/
def namesOf (set : TrackSet) (language : String) : Option (Nat × List String) :=
  (set.find? language).map fun held ↦ (held.issued, held.track.entries.map Subtitle.id)

/-- The first text of the sequence and the first subtitle of the document are in, each under the
next name of the track, and the second ones are not. -/
theorem endless_leavesBeginning :
    namesOf entangledTracks "a" = some (2, ["track_a_2", "track_a_1"]) ∧
    (∃ e, (entangledTracks.addSequence "a" endlessGap).2 = .error e ∧
      LeftBySequence entangledTracks "a" endlessGap (entangledTracks.addSequence "a" endlessGap).1 ∧
      namesOf (entangledTracks.addSequence "a" endlessGap).1 "a" =
        some (3, ["track_a_3", "track_a_2", "track_a_1"])) ∧
    ∃ e,
      (entangledTracks.importText "a" startlessDocument (.str "json") none []).2.result = .error e ∧
      LeftByImport entangledTracks "a" startlessDocument (.str "json") none []
        (entangledTracks.importText "a" startlessDocument (.str "json") none []).1 ∧
      namesOf (entangledTracks.importText "a" startlessDocument (.str "json") none []).1 "a" =
        some (3, ["track_a_3", "track_a_2", "track_a_1"]) := by
  obtain ⟨hsequence, himport⟩ := batchFailure_leavesBeginning entangledTracks "a"
  obtain ⟨e, hgap⟩ := isNone_toOption.mp
    (by decide +kernel :
      (entangledTracks.addSequence "a" endlessGap).2.toOption.isNone = true)
  obtain ⟨e', hdocument⟩ := isNone_toOption.mp
    (by decide +kernel : (entangledTracks.importText "a" startlessDocument (.str "json") none
      []).2.result.toOption.isNone = true)
  exact ⟨by decide +kernel, ⟨e, hgap, hsequence endlessGap e hgap, by decide +kernel⟩, e',
    hdocument, himport startlessDocument (.str "json") none [] e' hdocument, by decide +kernel⟩

/-- An import that was to replace the two subtitles of a track and failed has lost them, and has put
in the first one of its own. -/
theorem startless_lost :
    (∃ e, (entangledTracks.importText "a" startlessDocument (.str "json") none
      [("replace", .bool true)]).2.result = .error e) ∧
    namesOf entangledTracks "a" = some (2, ["track_a_2", "track_a_1"]) ∧
    namesOf (entangledTracks.importText "a" startlessDocument (.str "json") none
      [("replace", .bool true)]).1 "a" = some (1, ["track_a_1"]) :=
  ⟨isNone_toOption.mp (by decide +kernel), by decide +kernel, by decide +kernel⟩

end TrackSet
end Montage
