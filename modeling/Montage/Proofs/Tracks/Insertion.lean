import Montage.Proofs.Tracks.Kept

/-!
# Inserting subtitles

An insertion does one of three things: it leaves the set as it was, it uses up a name and fails, or
it puts a subtitle where its start belongs (`TrackSet.Insertion`).  Sequences and imports are
insertions one after the other.

The place is found by the start that was given, and the subtitle keeps the start that was stored.
The two are the same for a quantity; a whole number may lie between two quantities, so that what is
stored starts elsewhere (`Json.IsStored`).
-/

set_option autoImplicit false

namespace Montage

variable [Rounding]

/-- A time that is stored as it is given. -/
def Json.IsStored (time : Json) : Prop :=
  ∀ n x, time.number? = some n → Decoder.quantity time = .ok x → n.exactly = x

theorem Json.quantity_isStored (x : Quantity) : (Json.quantity x).IsStored := by
  rintro n y ⟨⟩ ⟨⟩
  rfl

/-! ## Drafts -/

/-- A decoded subtitle starts when its document says. -/
theorem Subtitle.decode_start (document : Json) : (Subtitle.decode document).All fun subtitle ↦
    ∃ value, Decoder.written? "startTime" document = some value ∧
      Decoder.quantity value = .ok subtitle.start := by
  refine Decoder.all_object ?_
  simp only [Checked.all_seq, Checked.all_map]
  intro _ _ _ _ _ _ start hstart
  have := Decoder.needed_eq_ok.mp hstart
  intro _ _ _ _ _ _ _ _ _ _ _ _
  exact this

namespace TrackSet
namespace Draft

variable {draft : Draft} {id : String} {subtitle : Subtitle}

theorem subtitle_eq_ok (h : draft.subtitle id = .ok subtitle) :
    subtitle.id = id ∧ Decoder.quantity draft.start = .ok subtitle.start := by
  simp only [Draft.subtitle, constructing_eq_ok, bind_eq_ok, Checked.toExcept_eq_ok,
    pure_eq_ok] at h
  obtain ⟨style, -, position, -, animation, -, made, hmade, rfl⟩ := h
  refine ⟨rfl, ?_⟩
  obtain ⟨value, hwritten, hvalue⟩ := Subtitle.decode_start _ _ hmade
  cases hwritten
  exact hvalue

/-- A start that passes the check is missing or finite. -/
theorem checkTimes_start (h : draft.checkTimes = .ok ()) : draft.start = .null ∨
    ∃ n x, draft.start.number? = some n ∧ n.toQuantity = .ok x ∧ x.isFinite = true := by
  rw [checkTimes, constructing_eq_ok, bind_eq_ok] at h
  obtain ⟨_, hstart, -⟩ := h
  refine or_iff_not_imp_left.mpr fun hnull ↦ ?_
  rw [checkTime] at hstart
  · obtain ⟨n, hn, hstart⟩ := bind_eq_ok.mp hstart
    obtain ⟨finite, hfinite, hstart⟩ := bind_eq_ok.mp hstart
    obtain ⟨x, hx, hfinite⟩ := bind_eq_ok.mp hfinite
    refine ⟨n, x, ?_, hx, ?_⟩
    · rw [Json.number] at hn
      split at hn
      · cases hn
        assumption
      · cases hn
    · rw [pure_eq_ok] at hfinite
      rw [hfinite]
      by_contra hne
      rw [Bool.not_eq_true] at hne
      rw [hne] at hstart
      exact throw_ne_ok hstart
  · exact hnull

/-- What is made of a checked draft has a finite start. -/
theorem start_isFinite (hcheck : draft.checkTimes = .ok ())
    (hmade : draft.subtitle id = .ok subtitle) : subtitle.start.isFinite = true := by
  obtain ⟨-, hstart⟩ := subtitle_eq_ok hmade
  rcases checkTimes_start hcheck with hnull | ⟨n, x, hn, hx, hfinite⟩
  · rw [hnull] at hstart
    cases hstart
  · cases hvalue : draft.start <;> rw [hvalue] at hn hstart
    case num m =>
      cases hn
      cases n with
      | real y =>
        cases hx
        cases hstart
        exact hfinite
      | whole k =>
        simp only [Decoder.quantity, hx] at hstart
        cases hstart
        exact hfinite
    case bool b =>
      rw [← Checked.ok.inj hstart]
      rfl
    all_goals cases hn

/-- The start that was given is the start that is stored, if there is any. -/
theorem start_eq (hcheck : draft.checkTimes = .ok ()) (stored : draft.start.IsStored)
    (hmade : draft.subtitle id = .ok subtitle) :
    ∃ n, draft.start.number? = some n ∧ n.exactly = subtitle.start := by
  obtain ⟨-, hstart⟩ := subtitle_eq_ok hmade
  rcases checkTimes_start hcheck with hnull | ⟨n, -, hn, -⟩
  · rw [hnull] at hstart
    cases hstart
  · exact ⟨n, hn, stored n _ hn hstart⟩

end Draft

/-! ## Insertion -/

/-- What an insertion into a track does to the set, and what it yields. -/
inductive Insertion (set : TrackSet) (language : String) :
    TrackSet × Except Error Subtitle → Prop
  | refused (e : Error) : Insertion set language (set, .error e)
  | failed {held : HeldTrack} (e : Error) (hheld : set.find? language = some held) :
      Insertion set language
        (set.put language { held with issued := held.issued + 1 }, .error e)
  | made {held : HeldTrack} {subtitle : Subtitle} {entries : List Subtitle}
      (hheld : set.find? language = some held)
      (insertion : subtitle.IsInsertion held.track.entries entries)
      (finite : subtitle.start.isFinite = true)
      (hid : subtitle.id = subtitleName language (held.issued + 1)) :
      Insertion set language
        (set.put language
          { track := { held.track with entries }, issued := held.issued + 1 }, .ok subtitle)

variable {set : TrackSet} {language : String} {draft : Draft}

/-- **An insertion puts a subtitle where its start belongs, or none at all.** -/
theorem insert_insertion (kept : set.IsKept) (stored : draft.start.IsStored) :
    Insertion set language (set.insert language draft) := by
  rw [insert]
  split
  · exact .refused _
  rename_i held hheld
  split
  · exact .refused _
  rename_i hcheck
  dsimp only
  split
  · exact .failed _ hheld
  rename_i subtitle hmade
  have finite := Draft.start_isFinite hcheck hmade
  obtain ⟨hid, -⟩ := Draft.subtitle_eq_ok hmade
  refine .made hheld (Subtitle.isInsertion_of_bisect (kept.find hheld).rising
    (Quantity.ne_undefined_of_isFinite finite) ?_) finite ?_
  · obtain ⟨n, hn, hexact⟩ := Draft.start_eq hcheck stored hmade
    rw [placeFor, hn, ← hexact]
    rfl
  · rw [hid, (kept.find hheld).id_eq, subtitleName]

omit [Rounding] in
theorem Insertion.isKept (kept : set.IsKept) {outcome : TrackSet × Except Error Subtitle}
    (h : Insertion set language outcome) : outcome.1.IsKept := by
  cases h with
  | refused e => exact kept
  | failed e hheld => exact kept.put (kept.find hheld).issue
  | made hheld insertion finite hid =>
    exact kept.put ((kept.find hheld).insert insertion
      (Quantity.ne_undefined_of_isFinite finite) hid)

/-! ## Many insertions -/

theorem insert_isKept (kept : set.IsKept) (stored : draft.start.IsStored) :
    (set.insert language draft).1.IsKept :=
  (insert_insertion kept stored).isKept kept

/-- Behind a quantity comes a quantity. -/
theorem next_isQuantity {sequence : Sequence} {x : Quantity} {length next : Json}
    (h : sequence.next (.quantity x) length = .ok next) : ∃ y, next = .quantity y := by
  obtain ⟨step, -, h⟩ := bind_eq_ok.mp h
  obtain ⟨n, hn, h⟩ := bind_eq_ok.mp h
  obtain ⟨m, -, h⟩ := bind_eq_ok.mp h
  obtain ⟨sum, hsum, h⟩ := bind_eq_ok.mp h
  cases hn
  have hsum : ∃ y, sum = .real y := by
    cases m <;>
    · obtain ⟨_, -, hsum⟩ := bind_eq_ok.mp hsum
      obtain ⟨_, -, hsum⟩ := bind_eq_ok.mp hsum
      exact ⟨_, (pure_eq_ok.mp hsum).symm⟩
  obtain ⟨y, rfl⟩ := hsum
  exact ⟨y, (pure_eq_ok.mp h).symm⟩

/-- The draft of a text in a sequence starts where it is said to start. -/
theorem sequenceDraft_start {sequence : Sequence} {start text length : Json}
    (h : set.sequenceDraft sequence start text = .ok (draft, length)) : draft.start = start := by
  obtain ⟨_, -, h⟩ := bind_eq_ok.mp h
  obtain ⟨_, -, h⟩ := bind_eq_ok.mp h
  obtain ⟨_, -, h⟩ := bind_eq_ok.mp h
  cases pure_eq_ok.mp h
  rfl

theorem insertTexts_isKept {sequence : Sequence} {x : Quantity} (texts : List Json)
    (kept : set.IsKept) : (insertTexts language sequence set (.quantity x) texts).1.IsKept := by
  induction texts generalizing set x with
  | nil => exact kept
  | cons text rest ih =>
    rw [insertTexts]
    split
    · exact kept
    rename_i draft length hdraft
    have hkept : (set.insert language draft).1.IsKept :=
      insert_isKept kept (sequenceDraft_start hdraft ▸ Json.quantity_isStored x)
    split
    · rename_i hinsert
      rw [hinsert] at hkept
      exact hkept
    rename_i hinsert
    rw [hinsert] at hkept
    split
    · exact hkept
    rename_i next hnext
    obtain ⟨y, rfl⟩ := next_isQuantity hnext
    exact ih hkept

theorem insertAll_isKept (subtitles : List Subtitle) (kept : set.IsKept) :
    (insertAll language set subtitles).1.IsKept := by
  induction subtitles generalizing set with
  | nil => exact kept
  | cons subtitle rest ih =>
    have hkept : (set.insert language (.ofSubtitle subtitle)).1.IsKept :=
      insert_isKept kept (Json.quantity_isStored subtitle.start)
    rw [insertAll]
    split <;> rename_i hinsert <;> rw [hinsert] at hkept
    · exact hkept
    · exact ih hkept

end TrackSet
end Montage
