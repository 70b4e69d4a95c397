import Montage.Proofs.Document.Field
import Montage.Proofs.Json.Members
import Montage.Proofs.Number.Shortest
import Montage.Proofs.Subtitle.Order
import Montage.Tracks.Sync

/-!
# What a set of tracks keeps

A track is kept well (`HeldTrack.IsKept`) if its subtitles are in order and numbered, and each has
a name of its own among those that the track has given out.  The names of two tracks never meet,
whatever the languages are called: the number of a name is what stands behind its last underscore,
so the language can be read off (`subtitleName_inj`).

Each change to a track is one of three: it is created empty, it gives out a name, or it takes in a
subtitle under the name that it gave out last.
-/

set_option autoImplicit false

namespace Montage

/-! ## Names -/

/-- The name of a subtitle: the language of its track, and how many names the track had given out
with it. -/
def subtitleName (language : String) (n : Nat) : String :=
  "track_" ++ language ++ "_" ++ toString n

theorem append_cons_inj_right {α : Type} {a : α} {front front' back back' : List α}
    (hback : a ∉ back) (hback' : a ∉ back') (h : front ++ a :: back = front' ++ a :: back') :
    front = front' ∧ back = back' := by
  rcases List.append_eq_append_iff.mp h with ⟨mid, hfront, hmid⟩ | ⟨mid, hfront, hmid⟩
  · cases mid with
    | nil => simp_all
    | cons b rest =>
      obtain ⟨rfl, rfl⟩ := List.cons_eq_cons.mp hmid
      simp at hback
  · cases mid with
    | nil => simp_all
    | cons b rest =>
      obtain ⟨rfl, rfl⟩ := List.cons_eq_cons.mp hmid
      simp at hback'

/-- A name tells the language and the number. -/
theorem subtitleName_inj {language language' : String} {n n' : Nat} :
    subtitleName language n = subtitleName language' n' ↔ language = language' ∧ n = n' := by
  refine ⟨fun h ↦ ?_, fun ⟨hl, hn⟩ ↦ by rw [hl, hn]⟩
  have hdigits (n : Nat) : '_' ∉ Nat.toDigits 10 n :=
    fun hmem ↦ absurd (isDigit_of_mem_toDigits hmem) (by decide)
  rw [← String.toList_inj] at h
  simp only [subtitleName, String.toList_append, toList_toString_nat, List.append_assoc] at h
  rw [show "_".toList = ['_'] from rfl] at h
  obtain ⟨hlanguage, hn⟩ :=
    append_cons_inj_right (hdigits n) (hdigits n') (List.append_cancel_left h)
  exact ⟨String.toList_inj.mp hlanguage, toDigits_injective hn⟩

/-! ## One track -/

/-- What every track of a set keeps, by the language that it is held under. -/
structure HeldTrack.IsKept (language : String) (held : HeldTrack) : Prop where
  id_eq : held.track.id = "track_" ++ language
  rising : Subtitle.IsRising held.track.entries
  numbered : Subtitle.IsNumbered held.track.entries
  named : ∀ name ∈ held.track.entries.map Subtitle.id,
    ∃ n, 1 ≤ n ∧ n ≤ held.issued ∧ name = subtitleName language n
  distinct : (held.track.entries.map Subtitle.id).Nodup

namespace HeldTrack

variable {language : String} {held : HeldTrack}

theorem isKept_of_empty {track : Track} (hid : track.id = "track_" ++ language)
    (hentries : track.entries = []) (issued : Nat) : IsKept language { track, issued } := by
  refine ⟨hid, ?_, ?_, ?_, ?_⟩ <;> simp [hentries, Subtitle.isRising_nil, Subtitle.IsNumbered]

theorem IsKept.issue (kept : held.IsKept language) :
    IsKept language { held with issued := held.issued + 1 } := by
  refine ⟨kept.id_eq, kept.rising, kept.numbered, fun name hname ↦ ?_, kept.distinct⟩
  obtain ⟨n, hpos, hle, rfl⟩ := kept.named name hname
  exact ⟨n, hpos, hle.trans (Nat.le_succ _), rfl⟩

/-- A track that takes in a subtitle under a new name is kept well: the name is new because its
number is above all that were given out. -/
theorem IsKept.insert (kept : held.IsKept language) {subtitle : Subtitle}
    {entries : List Subtitle} (insertion : subtitle.IsInsertion held.track.entries entries)
    (defined : subtitle.start ≠ .undefined)
    (hid : subtitle.id = subtitleName language (held.issued + 1)) :
    IsKept language { track := { held.track with entries }, issued := held.issued + 1 } := by
  refine ⟨kept.id_eq, insertion.isRising defined kept.rising, insertion.isNumbered, ?_, ?_⟩
  · intro name hname
    rcases List.mem_cons.mp (insertion.map_id_perm.mem_iff.mp hname) with rfl | hname
    · exact ⟨held.issued + 1, Nat.succ_pos _, le_rfl, hid⟩
    · exact kept.issue.named name hname
  · rw [insertion.map_id_perm.nodup_iff, List.nodup_cons]
    refine ⟨fun hmem ↦ ?_, kept.distinct⟩
    obtain ⟨n, -, hle, hname⟩ := kept.named _ hmem
    obtain ⟨-, rfl⟩ := subtitleName_inj.mp (hid.symm.trans hname)
    exact absurd hle (Nat.not_succ_le_self _)

end HeldTrack

/-! ## All tracks -/

namespace TrackSet

/-- What a set of tracks keeps. -/
structure IsKept (set : TrackSet) : Prop where
  keys : (set.held.map Prod.fst).Nodup
  kept : ∀ member ∈ set.held, member.2.IsKept member.1
  radius : set.sync.syncRadius.isFinite = true

variable {set : TrackSet} {language : String} {held : HeldTrack}

theorem IsKept.find (kept : set.IsKept) (h : set.find? language = some held) :
    held.IsKept language :=
  kept.kept (language, held) (Json.mem_of_lookup? h)

theorem IsKept.put (kept : set.IsKept) (hheld : held.IsKept language) :
    (set.put language held).IsKept := by
  refine ⟨Json.keys_put_nodup kept.keys, fun member hmember ↦ ?_, kept.radius⟩
  rcases Json.mem_put hmember with rfl | hmember
  · exact hheld
  · exact kept.kept member hmember

theorem find?_put_self : (set.put language held).find? language = some held := by
  rw [find?, put, Json.lookup?_put, if_pos rfl]

theorem put_of_find? (hheld : set.find? language = some held) : set.put language held = set := by
  rw [put, Json.put_of_lookup? hheld]

theorem find?_put_of_ne {other : String} (h : other ≠ language) :
    (set.put language held).find? other = set.find? other := by
  rw [find?, put, Json.lookup?_put, if_neg h.symm]
  rfl

theorem find?_modify {other : String} {change : HeldTrack → HeldTrack} :
    (set.modify language change).find? other =
      (set.find? other).map fun held ↦ if other = language then change held else held := by
  rw [find?, find?, ← Json.lookup?_map fun key held ↦ if key = language then change held else held]
  refine congrArg (Json.lookup? other) (List.map_congr_left fun member _ ↦ ?_)
  split <;> rfl

/-- **No two subtitles of a set have the same name**, be they of one track or of two. -/
theorem IsKept.ids_nodup (kept : set.IsKept) :
    (set.held.flatMap fun member ↦ member.2.track.entries.map Subtitle.id).Nodup := by
  refine List.nodup_flatMap.mpr ⟨fun member h ↦ (kept.kept member h).distinct, ?_⟩
  have hkeys : set.held.Pairwise fun a b ↦ a.1 ≠ b.1 := List.pairwise_map.mp kept.keys
  refine hkeys.imp_of_mem fun {a b} ha hb hne name hname hname' ↦ ?_
  obtain ⟨n, -, -, rfl⟩ := (kept.kept a ha).named name hname
  obtain ⟨n', -, -, h⟩ := (kept.kept b hb).named _ hname'
  exact hne (subtitleName_inj.mp h).1

end TrackSet
end Montage
