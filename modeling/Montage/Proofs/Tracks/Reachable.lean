import Montage.Proofs.Document.Field
import Montage.Proofs.Tracks.Cues
import Montage.Proofs.Tracks.Insertion

/-!
# Tracks stay in order

Whatever is done to a set of tracks, and whether or not it succeeds, the set stays well kept: each
operation keeps `TrackSet.IsKept`, so every set that can be reached has it
(`TrackSet.reachable_inOrder`).

Subtitles that follow the sound move by a distance within the radius.  A finite radius makes that
distance finite, and adding it to a start that is on the line leaves the start there; so cues cannot
take a subtitle out of the order, wherever they are.
-/

set_option autoImplicit false

namespace Montage

variable [Rounding]

/-! ## Following the sound -/

namespace Subtitle

variable {radius : Quantity} {cues : List Cue} {subtitle : Subtitle}

/-- A subtitle that moves stays on the line. -/
theorem moved_start_ne_undefined (total : ∀ q, Rounding.round q ≠ .undefined)
    (finite : radius.isFinite = true) (defined : subtitle.start ≠ .undefined) :
    (subtitle.moved radius cues).1.start ≠ .undefined := by
  rw [moved]
  split
  · exact defined
  rename_i cue hcue
  split
  · exact defined
  · exact Quantity.add_ne_undefined total defined
      (Quantity.isFinite_of_abs_le finite (isNearest_of_nearestCue hcue).near)

theorem moved_id : (subtitle.moved radius cues).1.id = subtitle.id := by rw [moved_kept]

end Subtitle

/-- The subtitles of a track that follow the sound keep their names. -/
theorem Track.map_id_synchronized_perm (track : Track) (radius : Quantity) (cues : List Cue) :
    ((track.synchronized radius cues).1.entries.map Subtitle.id).Perm
      (track.entries.map Subtitle.id) := by
  rw [Track.synchronized, Track.sorted, Subtitle.inOrder, Subtitle.map_id_numbered]
  refine ((Subtitle.sorted_perm _).map _).trans (.of_eq ?_)
  simp [Subtitle.moved_id]

namespace HeldTrack

variable {language : String} {held : HeldTrack}

/-- A track whose subtitles have followed the sound is kept well. -/
theorem IsKept.synchronized (total : ∀ q, Rounding.round q ≠ .undefined)
    (kept : held.IsKept language) {radius : Quantity} (finite : radius.isFinite = true)
    (cues : List Cue) :
    IsKept language { held with track := (held.track.synchronized radius cues).1 } := by
  let moves := held.track.entries.map fun entry ↦ (Subtitle.moved radius cues entry).1
  have hentries : (held.track.synchronized radius cues).1.entries = Subtitle.inOrder moves := by
    rw [Track.synchronized_eq]
  have defined : ∀ subtitle ∈ moves, subtitle.start ≠ .undefined := by
    refine List.forall_mem_map.mpr fun entry hentry ↦ ?_
    exact Subtitle.moved_start_ne_undefined total finite (kept.rising.defined entry hentry)
  have hids := held.track.map_id_synchronized_perm radius cues
  refine ⟨kept.id_eq, ?_, ?_, fun name hname ↦ kept.named name (hids.mem_iff.mp hname),
    hids.nodup_iff.mpr kept.distinct⟩ <;> dsimp only <;> rw [hentries]
  · exact Subtitle.isRising_numbered.mpr (Subtitle.sorted_isRising defined)
  · exact Subtitle.numbered_isNumbered _

end HeldTrack

/-! ## What each operation keeps -/

namespace TrackSet

variable {set : TrackSet} {language : String}

omit [Rounding] in
theorem empty_isKept : IsKept {} := ⟨.nil, by simp, rfl⟩

theorem newTrack_eq_ok {request : Request} {track : Track}
    (h : set.newTrack language request = .ok track) :
    track.id = "track_" ++ language ∧ track.entries = [] := by
  obtain ⟨style, -, h⟩ := bind_eq_ok.mp (constructing_eq_ok.mp h)
  obtain ⟨position, -, h⟩ := bind_eq_ok.mp h
  obtain ⟨fields, -, h⟩ := bind_eq_ok.mp h
  cases pure_eq_ok.mp h
  exact ⟨rfl, rfl⟩

/-- A created track is a new track of the language under which it is held. -/
theorem made_eq_ok {request : Request} {track : Track} {named : String}
    (h : (do
      let track ← (set.newTrack named request : Except Error Track)
      return (named, track) : Reported (String × Track)).result = .ok (language, track)) :
    track.id = "track_" ++ language ∧ track.entries = [] := by
  obtain ⟨made, hmade, h⟩ := Reported.bind_eq_ok.mp h
  obtain ⟨rfl, rfl⟩ := Prod.mk.inj (Except.ok.inj h)
  exact newTrack_eq_ok hmade

/-- A track is created empty, or not at all.  How it goes depends on the defaults and the languages
of a set alone, so that it goes alike for two sets that have those in common. -/
theorem create_cases {other : TrackSet} (hdefaults : other.defaults = set.defaults)
    (hheld : ∀ language, (other.find? language).isSome = (set.find? language).isSome)
    (named : Json) (given : List (String × Json)) :
    (∃ e warnings, set.create named given = (set, ⟨.error e, warnings⟩) ∧
      other.create named given = (other, ⟨.error e, warnings⟩)) ∨
    ∃ language track warnings, track.id = "track_" ++ language ∧ track.entries = [] ∧
      set.create named given = (set.put language { track }, ⟨.ok track, warnings⟩) ∧
      other.create named given = (other.put language { track }, ⟨.ok track, warnings⟩) := by
  have hnew : other.newTrack = set.newTrack := by
    funext language request
    rw [newTrack, newTrack, hdefaults]
  simp only [create, hheld, hnew]
  split
  · rename_i language track hmade
    have hfresh : track.id = "track_" ++ language ∧ track.entries = [] := by
      obtain ⟨request, -, hmade⟩ := Reported.bind_eq_ok.mp hmade
      obtain ⟨asked, -, hmade⟩ := Reported.bind_eq_ok.mp hmade
      split at hmade
      · obtain ⟨_, -, hmade⟩ := Reported.bind_eq_ok.mp hmade
        exact made_eq_ok hmade
      · exact made_eq_ok hmade
    rw [Reported.map_ok hmade]
    exact .inr ⟨language, track, _, hfresh.1, hfresh.2, rfl, rfl⟩
  · rename_i e hmade
    rw [Reported.map_error hmade]
    exact .inl ⟨e, _, rfl, rfl⟩

theorem create_isKept (kept : set.IsKept) (named : Json) (given : List (String × Json)) :
    (set.create named given).1.IsKept := by
  rcases create_cases rfl (fun _ ↦ rfl) named given with
    ⟨e, warnings, h, -⟩ | ⟨language, track, warnings, hid, hentries, h, -⟩ <;> rw [h]
  · exact kept
  · exact kept.put (HeldTrack.isKept_of_empty hid hentries 0)

omit [Rounding] in
theorem remove_isKept (kept : set.IsKept) : (set.remove language).1.IsKept := by
  refine ⟨?_, fun member h ↦ kept.kept member (List.mem_of_mem_filter h), kept.radius⟩
  exact kept.keys.sublist (List.filter_sublist.map _)

/-- A draft starts when its request says. -/
theorem ofRequest_start {given : List (String × Json)} {draft : Draft}
    (h : Draft.ofRequest given = .ok draft) :
    draft.start = (Json.lookup? "start_time" given).getD .null := by
  obtain ⟨request, hrequest, h⟩ := bind_eq_ok.mp h
  rw [← pure_eq_ok.mp h]
  have hget : request.get "start_time" = ((Parameter.given "start_time").value? given).getD .null :=
    Request.get_of_complete hrequest rfl
  rwa [Parameter.value?, Parameter.given, Option.or_none] at hget

/-- The start that a request gives is stored as it is given, if one is given at all. -/
def StartIsStored (given : List (String × Json)) : Prop :=
  ∀ time, Json.lookup? "start_time" given = some time → time.IsStored

theorem ofRequest_isStored {given : List (String × Json)} {draft : Draft}
    (start : StartIsStored given) (h : Draft.ofRequest given = .ok draft) :
    draft.start.IsStored := by
  rw [ofRequest_start h]
  cases htime : Json.lookup? "start_time" given with
  | none => rintro _ _ ⟨⟩
  | some time => exact start time htime

theorem add_isKept (kept : set.IsKept) {given : List (String × Json)}
    (start : StartIsStored given) : (set.add language given).1.IsKept := by
  rw [add]
  split
  · rename_i draft hdraft
    exact insert_isKept kept (ofRequest_isStored start hdraft)
  · exact kept

theorem addSequence_isKept (kept : set.IsKept) {given : List (String × Json)}
    (start : ∀ time, Json.lookup? "start_time" given = some time → ∃ x, time = .quantity x) :
    (set.addSequence language given).1.IsKept := by
  rw [addSequence]
  split
  · exact kept
  rename_i request texts hasked
  obtain ⟨completed, hcompleted, hasked⟩ := bind_eq_ok.mp hasked
  obtain ⟨items, -, hasked⟩ := bind_eq_ok.mp hasked
  obtain ⟨rfl, rfl⟩ := Prod.mk.inj (pure_eq_ok.mp hasked)
  have hget : completed.get "start_time" =
      ((Parameter.default "start_time" (.quantity (.finite 0))).value? given).getD .null :=
    Request.get_of_complete hcompleted rfl
  obtain ⟨x, hx⟩ : ∃ x, completed.get "start_time" = .quantity x := by
    rw [hget, Parameter.value?, Parameter.default]
    cases htime : Json.lookup? "start_time" given with
    | none => exact ⟨_, rfl⟩
    | some time =>
      obtain ⟨x, rfl⟩ := start time htime
      exact ⟨x, rfl⟩
  rw [hx]
  exact insertTexts_isKept items kept

omit [Rounding] in
theorem keys_modify (set : TrackSet) (language : String) (change : HeldTrack → HeldTrack) :
    (set.modify language change).held.map Prod.fst = set.held.map Prod.fst := by
  rw [modify, List.map_map]
  refine List.map_congr_left fun member _ ↦ ?_
  dsimp only [Function.comp_apply]
  split <;> rfl

omit [Rounding] in
theorem clear_isKept (kept : set.IsKept) : (set.clear language).IsKept := by
  refine ⟨?_, List.forall_mem_map.mpr fun member hmember ↦ ?_, kept.radius⟩
  · rw [clear, keys_modify]
    exact kept.keys
  · split
    · refine HeldTrack.isKept_of_empty ?_ rfl 0
      exact (kept.kept member hmember).id_eq
    · exact kept.kept member hmember

theorem prepare_isKept (kept : set.IsKept) (replace : Bool) :
    (set.prepare language replace).1.IsKept := by
  rw [prepare]
  split
  · split
    · exact clear_isKept kept
    · exact kept
  · exact create_isKept kept _ _

theorem importText_isKept (kept : set.IsKept) (content format : Json)
    (options : Option ReadOptions) (given : List (String × Json)) :
    (set.importText language content format options given).1.IsKept := by
  rw [importText]
  dsimp only
  split
  · exact kept
  rename_i replace subtitles hasked
  have hprepared : (set.prepare language replace).1.IsKept := prepare_isKept kept replace
  split <;> rename_i hprepare <;> rw [hprepare] at hprepared
  · exact hprepared
  · exact insertAll_isKept subtitles hprepared

theorem synchronize_isKept (total : ∀ q, Rounding.round q ≠ .undefined) (kept : set.IsKept)
    (cues : Json) : (set.synchronize language cues).1.IsKept := by
  rw [synchronize]
  split
  · exact kept
  rename_i held hheld
  split
  · exact kept
  · exact kept.put ((kept.find hheld).synchronized total kept.radius _)

/-! ## Reachable sets -/

/-- The sets of tracks that calls lead to, those that fail included.  A start that a call gives is
one that can be stored, and the radius is finite; nothing is asked of cues, documents or styles. -/
inductive Reachable : TrackSet → Prop
  | empty : Reachable {}
  | create {set : TrackSet} (reached : Reachable set) (named : Json)
      (given : List (String × Json)) : Reachable (set.create named given).1
  | remove {set : TrackSet} (reached : Reachable set) (language : String) :
      Reachable (set.remove language).1
  | add {set : TrackSet} (reached : Reachable set) (language : String)
      {given : List (String × Json)} (start : StartIsStored given) :
      Reachable (set.add language given).1
  | addSequence {set : TrackSet} (reached : Reachable set) (language : String)
      {given : List (String × Json)}
      (start : ∀ time, Json.lookup? "start_time" given = some time → ∃ x, time = .quantity x) :
      Reachable (set.addSequence language given).1
  | importText {set : TrackSet} (reached : Reachable set) (language : String)
      (content format : Json) (options : Option ReadOptions) (given : List (String × Json)) :
      Reachable (set.importText language content format options given).1
  | synchronize {set : TrackSet} (reached : Reachable set) (language : String) (cues : Json) :
      Reachable (set.synchronize language cues).1
  | setSync {set set' : TrackSet} (reached : Reachable set) {options : Option SyncOptions}
      {changes : List (String × Json)} (h : set.setSync options changes = .ok set')
      (finite : set'.sync.syncRadius.isFinite = true) : Reachable set'
  | setDefaults {set set' : TrackSet} (reached : Reachable set) {style : Json}
      (h : set.setDefaults style = .ok set') : Reachable set'

theorem Reachable.isKept (total : ∀ q, Rounding.round q ≠ .undefined) (reached : Reachable set) :
    set.IsKept := by
  induction reached with
  | empty => exact empty_isKept
  | create _ named given kept => exact create_isKept kept named given
  | remove _ language kept => exact remove_isKept kept
  | add _ language start kept => exact add_isKept kept start
  | addSequence _ language start kept => exact addSequence_isKept kept start
  | importText _ language content format options given kept =>
    exact importText_isKept kept content format options given
  | synchronize _ language cues kept => exact synchronize_isKept total kept cues
  | setSync _ h finite kept =>
    obtain ⟨sync, -, h⟩ := bind_eq_ok.mp h
    cases pure_eq_ok.mp h
    exact ⟨kept.keys, kept.kept, finite⟩
  | setDefaults _ h kept =>
    obtain ⟨style, -, h⟩ := bind_eq_ok.mp h
    cases pure_eq_ok.mp h
    exact ⟨kept.keys, kept.kept, kept.radius⟩

/-- What an insertion that succeeds has done to the track, and that it has done nothing to the
others. -/
theorem add_insertion (kept : set.IsKept) {given : List (String × Json)}
    (start : StartIsStored given) {set' : TrackSet} {subtitle : Subtitle}
    (h : set.add language given = (set', .ok subtitle)) :
    ∃ before after, set.find? language = some before ∧ set'.find? language = some after ∧
      subtitle.IsInsertion before.track.entries after.track.entries ∧
      ∀ other, other ≠ language → set'.find? other = set.find? other := by
  rw [add] at h
  split at h
  · rename_i draft hdraft
    have hinsertion : Insertion set language (set.insert language draft) :=
      insert_insertion kept (ofRequest_isStored start hdraft)
    rw [h] at hinsertion
    cases hinsertion with
    | made hheld insertion finite hid =>
      exact ⟨_, _, hheld, find?_put_self, insertion, fun other hne ↦ find?_put_of_ne hne⟩
  · cases h

/-! ## On the binary grid -/

omit [Rounding] in
/-- **Every set of tracks that calls lead to is in order.**  The subtitles of each track rise by
their starts and are numbered from one; each is named after the language of its track and a number
that the track has given out; and no two subtitles of the set have one name.  A call that adds a
subtitle puts it behind all that start at its start or before, leaves the others of its track in
their order, and leaves the other tracks alone. -/
theorem reachable_inOrder {set : TrackSet} (reached : @Reachable .binary64 set) :
    (∀ member ∈ set.held,
      member.2.track.entries.Pairwise (fun a b ↦ a.start.le b.start = true) ∧
      Subtitle.IsNumbered member.2.track.entries ∧
      ∀ subtitle ∈ member.2.track.entries, ∃ n, 1 ≤ n ∧ n ≤ member.2.issued ∧
        subtitle.id = subtitleName member.1 n) ∧
    (set.held.flatMap fun member ↦ member.2.track.entries.map Subtitle.id).Nodup ∧
    ∀ (language : String) (given : List (String × Json)) (set' : TrackSet) (subtitle : Subtitle),
      @StartIsStored .binary64 given → @add .binary64 set language given = (set', .ok subtitle) →
        ∃ before after, set.find? language = some before ∧ set'.find? language = some after ∧
          subtitle.IsInsertion before.track.entries after.track.entries ∧
          ∀ other, other ≠ language → set'.find? other = set.find? other := by
  have kept : set.IsKept := @Reachable.isKept .binary64 set binary64_ne_undefined reached
  refine ⟨fun member hmember ↦ ?_, kept.ids_nodup, fun language given set' subtitle start h ↦ ?_⟩
  · have := kept.kept member hmember
    exact ⟨this.rising.pairwise, this.numbered,
      fun subtitle hsubtitle ↦ this.named _ (List.mem_map_of_mem hsubtitle)⟩
  · exact @add_insertion .binary64 set language kept given start set' subtitle h

end TrackSet

/-- What a call gives to add a subtitle that stays for a second. -/
def secondFrom (start : Rat) : List (String × Json) := [
  ("text", .str "Hi"), ("start_time", .quantity (.finite start)),
  ("end_time", .quantity (.finite (start + 1)))]

/-- Two tracks of which the name of one language goes on as the names of the other. -/
def entangledTracks : TrackSet :=
  let _ : Rounding := .binary64
  let set := ((({} : TrackSet).create (.str "a") []).1.create (.str "a_1") []).1
  ((set.add "a" (secondFrom 2)).1.add "a" (secondFrom 1)).1.add "a_1" (secondFrom 1) |>.1

theorem secondFrom_startIsStored (start : Rat) : TrackSet.StartIsStored (secondFrom start) := by
  rintro time ⟨⟩
  exact Json.quantity_isStored _

omit [Rounding] in
theorem entangledTracks_reachable : @TrackSet.Reachable .binary64 entangledTracks := by
  let _ : Rounding := .binary64
  have created : TrackSet.Reachable
      ((({} : TrackSet).create (.str "a") []).1.create (.str "a_1") []).1 :=
    (TrackSet.Reachable.empty.create _ _).create _ _
  exact ((created.add "a" (secondFrom_startIsStored 2)).add "a" (secondFrom_startIsStored 1)).add
    "a_1" (secondFrom_startIsStored 1)

omit [Rounding] in
theorem entangledTracks_inOrder :
    @TrackSet.Reachable .binary64 entangledTracks ∧
      (entangledTracks.held.flatMap fun member ↦ member.2.track.entries.map Subtitle.id) =
        ["track_a_2", "track_a_1", "track_a_1_1"] ∧
      ["track_a_2", "track_a_1", "track_a_1_1"].Nodup := by
  have hids : (entangledTracks.held.flatMap fun member ↦ member.2.track.entries.map Subtitle.id) =
      ["track_a_2", "track_a_1", "track_a_1_1"] := by decide +kernel
  have := (TrackSet.reachable_inOrder entangledTracks_reachable).2.1
  exact ⟨entangledTracks_reachable, hids, hids ▸ this⟩

end Montage
