import Montage.Proofs.Number.Monotone
import Montage.Proofs.Outcome
import Montage.Proofs.Subtitle.Order
import Montage.Subtitle.Join

/-!
# Lists of subtitles, one behind the other

Joining moves every list behind the latest end of the lists before it, and then sorts everything at
once.  The sorting never mixes two lists: what starts no later than the rest may be sorted apart from
it (`sorted_append`), and the starts of a list lie behind the ends of all lists before it
(`isSeparate_placed`).  So the joined subtitles are the lists in their order, each sorted for itself.

Where the next list begins is decided by the last list alone, but its latest end is the latest end of
all that is joined so far (`isNext_placed`).  That is why joining may be done in steps: what is
joined already stands at its place, and moving it by zero changes nothing.

All of this holds of the rounded times, since rounding keeps the order of sums.
-/

set_option autoImplicit false

namespace Montage
namespace Subtitle

/-! ## Sorting lists that are apart -/

/-- The starts of one list are not behind those of another. -/
def Precedes (xs ys : List Subtitle) : Prop :=
  ∀ a ∈ xs, ∀ b ∈ ys, a.start.le b.start = true

/-- **Lists that are apart are sorted apart.** -/
theorem sorted_append {xs ys : List Subtitle} (hxs : ∀ s ∈ xs, s.start ≠ .undefined)
    (hys : ∀ s ∈ ys, s.start ≠ .undefined) (h : Precedes xs ys) :
    sorted (xs ++ ys) = sorted xs ++ sorted ys := by
  rw [sorted_eq_mergeSort hxs, sorted_eq_mergeSort hys,
    sorted_eq_mergeSort (List.forall_mem_append.mpr ⟨hxs, hys⟩)]
  refine mergeSort_append rank_le_trans rank_le_total fun a ha b hb ↦ ?_
  exact decide_eq_true ((Quantity.le_iff (hxs a ha) (hys b hb)).mp (h a ha b hb))

theorem sorted_flatten {parts : List (List Subtitle)}
    (defined : ∀ part ∈ parts, ∀ s ∈ part, s.start ≠ .undefined) (h : parts.Pairwise Precedes) :
    sorted parts.flatten = (parts.map sorted).flatten := by
  induction parts with
  | nil => exact sorted_of_isRising isRising_nil
  | cons part parts ih =>
    rw [List.forall_mem_cons] at defined
    rw [List.pairwise_cons] at h
    have hrest : ∀ s ∈ parts.flatten, s.start ≠ .undefined := by
      intro s hs
      obtain ⟨other, hother, hs⟩ := List.mem_flatten.mp hs
      exact defined.2 other hother s hs
    rw [List.flatten_cons, sorted_append defined.1 hrest ?_, ih defined.2 h.2, List.map_cons,
      List.flatten_cons]
    intro a ha b hb
    obtain ⟨other, hother, hb⟩ := List.mem_flatten.mp hb
    exact h.1 other hother a ha b hb

/-- The subtitles of a list in the order of their starts, where those that start together keep the
order in which they came. -/
structure IsArrangementOf (subtitles arranged : List Subtitle) : Prop where
  perm : arranged.Perm subtitles
  rising : IsRising arranged
  stable : ∀ row, row.Sublist subtitles → IsRising row → row.Sublist arranged

theorem sorted_isArrangementOf {subtitles : List Subtitle}
    (defined : ∀ s ∈ subtitles, s.start ≠ .undefined) :
    IsArrangementOf subtitles (sorted subtitles) where
  perm := sorted_perm subtitles
  rising := sorted_isRising defined
  stable row hrow rising := by
    rw [sorted_eq_mergeSort defined]
    refine List.sublist_mergeSort rank_le_trans rank_le_total ?_ hrow
    refine rising.pairwise.imp_of_mem fun {a b} ha hb h ↦ decide_eq_true ?_
    exact (Quantity.le_iff (rising.defined a ha) (rising.defined b hb)).mp h

/-! ## What joining makes of lists -/

/-- A subtitle begins at zero or later, and does not end before it begins. -/
structure HasWindow (subtitle : Subtitle) : Prop where
  begins : Quantity.le (.finite 0) subtitle.start = true
  lasts : subtitle.start.le subtitle.stop = true

instance (subtitle : Subtitle) : Decidable subtitle.HasWindow :=
  decidable_of_iff (Quantity.le (.finite 0) subtitle.start = true ∧
    subtitle.start.le subtitle.stop = true) ⟨fun ⟨h, h'⟩ ↦ ⟨h, h'⟩, fun ⟨h, h'⟩ ↦ ⟨h, h'⟩⟩

theorem HasWindow.ends {subtitle : Subtitle} (h : subtitle.HasWindow) :
    Quantity.le (.finite 0) subtitle.stop = true :=
  Quantity.le_trans h.begins h.lasts

/-- The latest end of some subtitles. -/
structure IsLatestEnd (subtitles : List Subtitle) (latest : Quantity) : Prop where
  attained : ∃ s ∈ subtitles, s.stop = latest
  bound : ∀ s ∈ subtitles, s.stop.le latest = true

/-- Where the next list begins: behind the latest end and a pause, or where the last one did if there
was nothing in it. -/
def IsNext [Rounding] (pause offset : Quantity) (subtitles : List Subtitle) (next : Quantity) : Prop :=
  (subtitles = [] ∧ next = offset) ∨
    ∃ latest, IsLatestEnd subtitles latest ∧ next = latest.add pause

/-- Some lists, one behind the other: each is moved to where the ones before it end, which keeps the
order of its starts, and arranged by its starts. -/
inductive Spaced [Rounding] (pause : Quantity) :
    Quantity → List (List Subtitle) → List (List Subtitle) → Prop
  | nil (offset : Quantity) : Spaced pause offset [] []
  | cons {offset next : Quantity} {list part : List Subtitle} {lists parts : List (List Subtitle)}
      (kept : ∀ a ∈ list, ∀ b ∈ list, a.start.le b.start = true →
        (a.shifted offset).start.le (b.shifted offset).start = true)
      (arranged : IsArrangementOf (list.map (·.shifted offset)) part)
      (begins : IsNext pause offset part next) (rest : Spaced pause next lists parts) :
      Spaced pause offset (list :: lists) (part :: parts)

/-- A subtitle without its index and its times. -/
def untimed (subtitle : Subtitle) : Subtitle :=
  { subtitle with index := 0, start := .finite 0, stop := .finite 0 }

/-- The subtitles of some lists in one list: all of them, those of a list before those of a later
one and a pause before them, in the order of their starts and with indices from one. -/
structure IsMerged [Rounding] (pause : Quantity) (lists : List (List Subtitle))
    (merged : List Subtitle) : Prop where
  numbered : IsNumbered merged
  rising : IsRising merged
  kept : (merged.map untimed).Perm (lists.flatten.map untimed)
  spaced : ∃ parts, merged = Subtitle.numbered parts.flatten ∧ Spaced pause (.finite 0) lists parts ∧
    parts.Pairwise fun earlier later ↦
      ∀ a ∈ earlier, ∀ b ∈ later, (a.stop.add pause).le b.start = true

theorem Spaced.untimed_perm [Rounding] {pause offset : Quantity} {lists parts : List (List Subtitle)}
    (h : Spaced pause offset lists parts) :
    (parts.flatten.map untimed).Perm (lists.flatten.map untimed) := by
  induction h with
  | nil => exact .refl _
  | @cons offset next list part lists parts kept arranged begins rest ih =>
    rw [List.flatten_cons, List.map_append, List.flatten_cons, List.map_append]
    refine .append ?_ ih
    have hmoved := arranged.perm.map untimed
    rw [List.map_map] at hmoved
    exact hmoved

/-! ## Lists at their places -/

section Placed

variable [rounding : Rounding] {pause offset next : Quantity} {lists : List (List Subtitle)}

omit rounding in
/-- The latest end is the end that is latest. -/
theorem latestEnd?_isLatestEnd {subtitles : List Subtitle} {latest : Quantity}
    (defined : ∀ s ∈ subtitles, s.stop ≠ .undefined) (h : latestEnd? subtitles = some latest) :
    IsLatestEnd subtitles latest := by
  cases subtitles with
  | nil => cases h
  | cons first rest =>
    rw [List.forall_mem_cons] at defined
    have heq : (rest.map (·.stop)).foldl Quantity.max first.stop = latest := by
      rw [List.foldl_map]
      exact Option.some.inj h
    constructor
    · have hmem := Quantity.foldl_max_mem first.stop (rest.map (·.stop))
      rw [heq, ← List.map_cons (f := fun s : Subtitle ↦ s.stop)] at hmem
      obtain ⟨s, hs, hstop⟩ := List.mem_map.mp hmem
      exact ⟨s, hs, hstop⟩
    · intro s hs
      rw [← heq]
      refine Quantity.le_foldl_max defined.1 _ _ ?_ ?_
      · exact List.mem_map_of_mem (f := fun s : Subtitle ↦ s.stop) hs
      · rcases List.mem_cons.mp hs with rfl | hs
        · exact defined.1
        · exact defined.2 s hs

/-- Where the next list begins behind these subtitles. -/
def nextOffset (pause offset : Quantity) (subtitles : List Subtitle) : Quantity :=
  match latestEnd? subtitles with
  | none => offset
  | some latest => latest.add pause

/-- The lists, each moved to where the ones before it end. -/
def placed (pause offset : Quantity) : List (List Subtitle) → List (List Subtitle)
  | [] => []
  | list :: lists =>
    let moved := list.map (·.shifted offset)
    moved :: placed pause (nextOffset pause offset moved) lists

/-- Where the next list begins behind all of some lists. -/
def finalOffset (pause offset : Quantity) : List (List Subtitle) → Quantity
  | [] => offset
  | list :: lists =>
    finalOffset pause (nextOffset pause offset (list.map (·.shifted offset))) lists

/-- The lists at their places from zero on, each sorted for itself, with indices from one. -/
def merged (pause : Quantity) (lists : List (List Subtitle)) : List Subtitle :=
  numbered ((placed pause (.finite 0) lists).map sorted).flatten

theorem placed_append (lists more : List (List Subtitle)) : placed pause offset (lists ++ more) =
    placed pause offset lists ++ placed pause (finalOffset pause offset lists) more := by
  induction lists generalizing offset with
  | nil => rfl
  | cons list lists ih => exact congrArg (_ :: ·) ih

variable {gap : Json} {n : Number}

theorem Joined.add_eq (hgap : gap.number = .ok n) (hpause : n.toQuantity = .ok pause)
    (joined : Joined) (subtitles : List Subtitle) :
    joined.add gap subtitles = .ok ⟨joined.subtitles ++ subtitles.map (·.shifted joined.offset),
      nextOffset pause joined.offset (subtitles.map (·.shifted joined.offset))⟩ := by
  rw [Joined.add, nextOffset]
  cases hlatest : latestEnd? (subtitles.map (·.shifted joined.offset)) with
  | none =>
    have hnil : subtitles = [] := by
      cases subtitles with
      | nil => rfl
      | cons first rest => cases hlatest
    rw [hnil, List.map_nil, List.append_nil]
    rfl
  | some latest =>
    have hadd : (Number.real latest).add n = .ok (.real (latest.add pause)) := by
      cases n with
      | whole w =>
        show ((Number.whole w).toQuantity >>= _) = _
        rw [hpause]
        rfl
      | real x =>
        cases hpause
        rfl
    simp only [hgap, bind, Except.bind, hadd]
    rfl

/-- Joining puts the lists at their places, and then in order. -/
theorem joinFrom_eq (hgap : gap.number = .ok n) (hpause : n.toQuantity = .ok pause)
    (joined : Joined) (lists : List (List Subtitle)) : joinFrom pure gap joined lists =
      pure (inOrder (joined.subtitles ++ (placed pause joined.offset lists).flatten)) := by
  induction lists generalizing joined with
  | nil => rw [placed, List.flatten_nil, List.append_nil]; rfl
  | cons list lists ih =>
    rw [joinFrom, Reported.silent_bind (x := pure list) rfl,
      Reported.lift_bind (Joined.add_eq hgap hpause joined list), ih, placed, List.flatten_cons,
      List.append_assoc]

theorem join_eq (hgap : gap.number = .ok n) (hpause : n.toQuantity = .ok pause)
    (lists : List (List Subtitle)) :
    join lists gap = pure (inOrder (placed pause (.finite 0) lists).flatten) :=
  joinFrom_eq hgap hpause {} lists

/-! ## Times at their places -/

/-- Both times have come out of a sum, and the end is not before the start. -/
structure IsPlaced (subtitle : Subtitle) : Prop where
  start : subtitle.start.IsRounded
  stop : subtitle.stop.IsRounded
  lasts : subtitle.start.le subtitle.stop = true

/-- A subtitle whose times have come out of a sum stays where it is when it is moved by zero. -/
theorem IsPlaced.shifted_zero {subtitle : Subtitle} (h : subtitle.IsPlaced) :
    subtitle.shifted (.finite 0) = subtitle := by
  rw [shifted, h.start.add_zero, h.stop.add_zero]

/-- Whether a subtitle stands at its place behind an offset. -/
structure IsBehind (offset : Quantity) (subtitle : Subtitle) : Prop extends IsPlaced subtitle where
  behind : offset.le subtitle.start = true

variable (keeps : rounding.KeepsOrder)
include keeps

/-- Moving times keeps their order. -/
theorem shifted_start_le (hoffset : offset.IsRounded) {x y : Quantity}
    (hx : Quantity.le (.finite 0) x = true) (hxy : x.le y = true) :
    (x.add offset).le (y.add offset) = true := by
  rw [Quantity.add_comm x, Quantity.add_comm y]
  exact hoffset.add_le_add_left keeps hx hxy

theorem HasWindow.isBehind_shifted {subtitle : Subtitle} (window : subtitle.HasWindow)
    (hoffset : offset.IsRounded) : IsBehind offset (subtitle.shifted offset) where
  start := by
    show (subtitle.start.add offset).IsRounded
    rw [Quantity.add_comm]
    exact hoffset.add keeps window.begins
  stop := by
    show (subtitle.stop.add offset).IsRounded
    rw [Quantity.add_comm]
    exact hoffset.add keeps window.ends
  lasts := shifted_start_le keeps hoffset window.begins window.lasts
  behind := by
    show offset.le (subtitle.start.add offset) = true
    rw [Quantity.add_comm]
    exact hoffset.le_add keeps window.begins

theorem isBehind_moved {list : List Subtitle} (hoffset : offset.IsRounded)
    (windows : ∀ s ∈ list, s.HasWindow) : ∀ s ∈ list.map (·.shifted offset), IsBehind offset s :=
  List.forall_mem_map.mpr fun s hs ↦ (windows s hs).isBehind_shifted keeps hoffset

variable (pause) in
omit keeps in
/-- **The next list begins behind the latest end and a pause.** -/
theorem nextOffset_isNext {subtitles : List Subtitle} (behind : ∀ s ∈ subtitles, IsBehind offset s) :
    IsNext pause offset subtitles (nextOffset pause offset subtitles) := by
  rw [nextOffset]
  cases hlatest : latestEnd? subtitles with
  | none =>
    cases subtitles with
    | nil => exact .inl ⟨rfl, rfl⟩
    | cons first rest => cases hlatest
  | some latest =>
    exact .inr ⟨latest, latestEnd?_isLatestEnd (fun s hs ↦ (behind s hs).stop.defined) hlatest, rfl⟩

omit keeps rounding in
theorem isLatestEnd_iff {subtitles : List Subtitle} {latest : Quantity} :
    IsLatestEnd subtitles latest ↔ latest ∈ subtitles.map (·.stop) ∧
      ∀ x ∈ subtitles.map (·.stop), x.le latest = true := by
  rw [List.mem_map, List.forall_mem_map]
  exact ⟨fun ⟨hattained, hbound⟩ ↦ ⟨hattained, hbound⟩, fun ⟨hattained, hbound⟩ ↦ ⟨hattained, hbound⟩⟩

omit keeps in
/-- Where the next list begins depends on the ends alone, and not on their order. -/
theorem IsNext.of_stops {subtitles others : List Subtitle}
    (begins : IsNext pause offset subtitles next)
    (h : (others.map (·.stop)).Perm (subtitles.map (·.stop))) : IsNext pause offset others next := by
  obtain ⟨rfl, rfl⟩ | ⟨latest, hlatest, rfl⟩ := begins
  · exact .inl ⟨List.map_eq_nil_iff.mp h.eq_nil, rfl⟩
  · refine .inr ⟨latest, ?_, rfl⟩
    rw [isLatestEnd_iff] at hlatest ⊢
    exact ⟨h.mem_iff.mpr hlatest.1, fun x hx ↦ hlatest.2 x (h.mem_iff.mp hx)⟩

omit keeps in
/-- Where the next list begins is determined by the subtitles. -/
theorem IsNext.unique {subtitles : List Subtitle} {next' : Quantity}
    (hplaced : ∀ s ∈ subtitles, s.IsPlaced) (h : IsNext pause offset subtitles next)
    (h' : IsNext pause offset subtitles next') : next = next' := by
  obtain ⟨rfl, rfl⟩ | ⟨latest, ⟨⟨s, hs, rfl⟩, hbound⟩, rfl⟩ := h <;>
    obtain ⟨hnil, rfl⟩ | ⟨latest', ⟨⟨t, ht, rfl⟩, hbound'⟩, rfl⟩ := h'
  · rfl
  · cases ht
  · rw [hnil] at hs
    cases hs
  · rw [(hplaced s hs).stop.eq_of_le_of_le (hplaced t ht).stop (hbound' s hs) (hbound t ht)]

section Next

variable {subtitles : List Subtitle} (behind : ∀ s ∈ subtitles, IsBehind offset s)
  (begins : IsNext pause offset subtitles next) (hpause : Quantity.le (.finite 0) pause = true)
include behind begins hpause

theorem IsNext.isRounded (hoffset : offset.IsRounded) : next.IsRounded := by
  obtain ⟨-, rfl⟩ | ⟨latest, ⟨⟨s, hs, rfl⟩, -⟩, rfl⟩ := begins
  · exact hoffset
  · exact (behind s hs).stop.add keeps hpause

/-- The next list begins behind each end and a pause. -/
theorem IsNext.add_le : ∀ s ∈ subtitles, (s.stop.add pause).le next = true := by
  intro s hs
  obtain ⟨rfl, -⟩ | ⟨latest, ⟨⟨t, ht, rfl⟩, hbound⟩, rfl⟩ := begins
  · cases hs
  · exact (behind s hs).stop.add_le_add_right keeps (behind t ht).stop (hbound s hs) hpause

theorem IsNext.offset_le (hoffset : offset.IsRounded) : offset.le next = true := by
  obtain ⟨-, rfl⟩ | ⟨latest, ⟨⟨s, hs, rfl⟩, -⟩, rfl⟩ := begins
  · exact Quantity.le_refl hoffset.defined
  · exact Quantity.le_trans (Quantity.le_trans (behind s hs).behind (behind s hs).lasts)
      ((behind s hs).stop.le_add keeps hpause)

end Next

section Lists

variable (hoffset : offset.IsRounded) (hpause : Quantity.le (.finite 0) pause = true)
  (windows : ∀ list ∈ lists, ∀ s ∈ list, s.HasWindow)
include hoffset hpause windows

/-- The subtitles of the lists stand at their places behind the offset. -/
theorem isBehind_placed : ∀ part ∈ placed pause offset lists, ∀ s ∈ part, IsBehind offset s := by
  induction lists generalizing offset with
  | nil => simp [placed]
  | cons list lists ih =>
    rw [List.forall_mem_cons] at windows
    have behind := isBehind_moved keeps hoffset windows.1
    have begins := nextOffset_isNext pause behind
    rw [placed]
    refine List.forall_mem_cons.mpr ⟨behind, fun part hpart s hs ↦ ?_⟩
    have hrest := ih (begins.isRounded keeps behind hpause hoffset) windows.2 part hpart s hs
    exact ⟨hrest.toIsPlaced,
      Quantity.le_trans (begins.offset_le keeps behind hpause hoffset) hrest.behind⟩

/-- **Every list begins behind the ends of those before it and a pause.** -/
theorem isSeparate_placed : (placed pause offset lists).Pairwise fun earlier later ↦
    ∀ a ∈ earlier, ∀ b ∈ later, (a.stop.add pause).le b.start = true := by
  induction lists generalizing offset with
  | nil => exact .nil
  | cons list lists ih =>
    rw [List.forall_mem_cons] at windows
    have behind := isBehind_moved keeps hoffset windows.1
    have begins := nextOffset_isNext pause behind
    have hnext := begins.isRounded keeps behind hpause hoffset
    rw [placed]
    refine List.pairwise_cons.mpr ⟨fun part hpart a ha b hb ↦ ?_, ih hnext windows.2⟩
    exact Quantity.le_trans (begins.add_le keeps behind hpause a ha)
      (isBehind_placed keeps hnext hpause windows.2 part hpart b hb).behind

/-- **The last list ends where all that is joined ends**: the next list begins behind the latest end
of all lists. -/
theorem isNext_placed :
    IsNext pause offset (placed pause offset lists).flatten (finalOffset pause offset lists) := by
  induction lists generalizing offset with
  | nil => exact .inl ⟨rfl, rfl⟩
  | cons list lists ih =>
    rw [List.forall_mem_cons] at windows
    have behind := isBehind_moved keeps hoffset windows.1
    have begins := nextOffset_isNext pause behind
    have hnext := begins.isRounded keeps behind hpause hoffset
    have hrest := ih hnext windows.2
    rw [placed, List.flatten_cons, finalOffset]
    obtain ⟨hnil, heq⟩ | ⟨latest, ⟨⟨s, hs, rfl⟩, hbound⟩, heq⟩ := hrest
    · rw [hnil, List.append_nil, heq]
      exact begins
    · refine .inr ⟨s.stop, ⟨⟨s, List.mem_append_right _ hs, rfl⟩, fun t ht ↦ ?_⟩, heq⟩
      rcases List.mem_append.mp ht with ht | ht
      · -- what ended before the offset of the rest ended before anything of the rest
        obtain ⟨part, hpart, hs⟩ := List.mem_flatten.mp hs
        have hplace := isBehind_placed keeps hnext hpause windows.2 part hpart s hs
        exact Quantity.le_trans ((behind t ht).stop.le_add keeps hpause)
          (Quantity.le_trans (begins.add_le keeps behind hpause t ht)
            (Quantity.le_trans hplace.behind hplace.lasts))
      · exact hbound t ht

/-- The parts are apart. -/
theorem placed_precedes : (placed pause offset lists).Pairwise Precedes := by
  refine (isSeparate_placed keeps hoffset hpause windows).imp_of_mem
    fun {earlier later} hearlier _ h a ha b hb ↦ ?_
  have hplace := isBehind_placed keeps hoffset hpause windows earlier hearlier a ha
  exact Quantity.le_trans hplace.lasts
    (Quantity.le_trans (hplace.stop.le_add keeps hpause) (h a ha b hb))

theorem placed_defined : ∀ part ∈ placed pause offset lists, ∀ s ∈ part, s.start ≠ .undefined :=
  fun part hpart s hs ↦ (isBehind_placed keeps hoffset hpause windows part hpart s hs).start.defined

/-- **Joined lists are sorted one by one.** -/
theorem sorted_placed : sorted (placed pause offset lists).flatten =
    ((placed pause offset lists).map sorted).flatten :=
  sorted_flatten (placed_defined keeps hoffset hpause windows)
    (placed_precedes keeps hoffset hpause windows)

/-- The lists at their places, each arranged by its starts, stand one behind the other. -/
theorem spaced_placed : Spaced pause offset lists ((placed pause offset lists).map sorted) := by
  induction lists generalizing offset with
  | nil => exact .nil offset
  | cons list lists ih =>
    rw [List.forall_mem_cons] at windows
    have behind := isBehind_moved keeps hoffset windows.1
    have begins := nextOffset_isNext pause behind
    have hnext := begins.isRounded keeps behind hpause hoffset
    rw [placed, List.map_cons]
    refine .cons ?_ (sorted_isArrangementOf fun s hs ↦ (behind s hs).start.defined) ?_
      (ih hnext windows.2)
    · exact fun a ha b _ hab ↦ shifted_start_le keeps hoffset (windows.1 a ha).begins hab
    · exact begins.of_stops ((sorted_perm _).map _)

end Lists

/-! ## Joining -/

section Join

variable (hgap : gap.number = .ok n) (hnumber : n.toQuantity = .ok pause)
  (hpause : Quantity.le (.finite 0) pause = true)
  (windows : ∀ list ∈ lists, ∀ s ∈ list, s.HasWindow)
include hpause windows

include hgap hnumber in
/-- Joining numbers the lists at their places, each sorted for itself. -/
theorem join_eq_numbered : join lists gap =
    pure (merged pause lists) := by
  rw [join_eq hgap hnumber, inOrder,
    sorted_placed keeps (Quantity.IsRounded.zero keeps) hpause windows]
  rfl

/-- **Joined lists stand one behind the other.** -/
theorem merged_isMerged : IsMerged pause lists (merged pause lists) := by
  have hzero := Quantity.IsRounded.zero keeps
  have spaced := spaced_placed keeps hzero hpause windows
  refine ⟨numbered_isNumbered _, ?_, ?_, _, rfl, spaced, ?_⟩
  · rw [merged, isRising_numbered, ← sorted_placed keeps hzero hpause windows]
    refine sorted_isRising fun s hs ↦ ?_
    obtain ⟨part, hpart, hs⟩ := List.mem_flatten.mp hs
    exact placed_defined keeps hzero hpause windows part hpart s hs
  · rw [merged, map_numbered fun _ _ ↦ rfl]
    exact spaced.untimed_perm
  · rw [List.pairwise_map]
    refine (isSeparate_placed keeps hzero hpause windows).imp fun h a ha b hb ↦ ?_
    exact h a ((sorted_perm _).mem_iff.mp ha) b ((sorted_perm _).mem_iff.mp hb)

/-- Joined subtitles stand at their places. -/
theorem isBehind_merged : ∀ s ∈ merged pause lists, IsBehind (.finite 0) s := by
  have hzero := Quantity.IsRounded.zero keeps
  intro s hs
  obtain ⟨t, ht, index, rfl⟩ := exists_of_mem_numbered hs
  rw [← sorted_placed keeps hzero hpause windows, (sorted_perm _).mem_iff] at ht
  obtain ⟨part, hpart, ht⟩ := List.mem_flatten.mp ht
  have hplace := isBehind_placed keeps hzero hpause windows part hpart t ht
  exact ⟨⟨hplace.start, hplace.stop, hplace.lasts⟩, hplace.behind⟩

include hgap hnumber in
/-- **Joining may be done in steps**: behind lists that are joined already, the next one goes where it
goes behind the lists. -/
theorem join_append {more : List Subtitle} (hmore : ∀ s ∈ more, s.HasWindow) :
    join (lists ++ [more]) gap = join [merged pause lists, more] gap := by
  have hzero := Quantity.IsRounded.zero keeps
  have hsorted := sorted_placed keeps hzero hpause windows
  have hbehind := isBehind_merged keeps hpause windows
  have hrising := (merged_isMerged keeps hpause windows).rising
  -- both times the next list begins at the same place
  have hnext : nextOffset pause (.finite 0) (merged pause lists) =
      finalOffset pause (.finite 0) lists := by
    refine (nextOffset_isNext pause hbehind).unique (fun s hs ↦ (hbehind s hs).toIsPlaced) ?_
    refine (isNext_placed keeps hzero hpause windows).of_stops ?_
    rw [merged, map_numbered fun _ _ ↦ rfl, ← hsorted]
    exact (sorted_perm _).map _
  have hstay : (merged pause lists).map (·.shifted (.finite 0)) = merged pause lists :=
    (List.map_congr_left fun s hs ↦ (hbehind s hs).shifted_zero).trans (List.map_id' _)
  have hwindows : ∀ list ∈ [merged pause lists, more], ∀ s ∈ list, s.HasWindow := by
    refine List.forall_mem_cons.mpr ⟨fun s hs ↦ ⟨(hbehind s hs).behind, (hbehind s hs).lasts⟩, ?_⟩
    simpa using hmore
  have hplaces : placed pause (.finite 0) [merged pause lists, more] = [merged pause lists,
      more.map (·.shifted (finalOffset pause (.finite 0) lists))] := by
    simp only [placed, hstay, hnext]
  rw [join_eq_numbered keeps hgap hnumber hpause hwindows,
    join_eq_numbered keeps hgap hnumber hpause
      (List.forall_mem_append.mpr ⟨windows, by simpa using hmore⟩)]
  refine congrArg pure ?_
  rw [merged, merged, hplaces, placed_append, List.map_append, List.flatten_append, List.map_cons,
    List.flatten_cons, sorted_of_isRising hrising]
  exact (numbered_append_of_numbered _ _).symm

end Join

end Placed

/-! ## On the binary grid -/

attribute [local instance] Rounding.binary64

/-- **Joining puts lists one behind the other**, and may be done in steps. -/
theorem join_places_lists {gap : Json} {n : Number} {pause : Quantity} (hgap : gap.number = .ok n)
    (hnumber : n.toQuantity = .ok pause) (hpause : Quantity.le (.finite 0) pause = true)
    {lists : List (List Subtitle)} (windows : ∀ list ∈ lists, ∀ s ∈ list, s.HasWindow) :
    ∃ merged, join lists gap = pure merged ∧ IsMerged pause lists merged ∧
      ∀ more : List Subtitle, (∀ s ∈ more, s.HasWindow) →
        join (lists ++ [more]) gap = join [merged, more] gap :=
  ⟨_, join_eq_numbered binary64_keepsOrder hgap hnumber hpause windows,
    merged_isMerged binary64_keepsOrder hpause windows,
    fun _ hmore ↦ join_append binary64_keepsOrder hgap hnumber hpause windows hmore⟩

/-- Lists that are not sorted, with two subtitles that start together and an empty list between. -/
def scattered : List (List Subtitle) :=
  [[{ text := "second", start := .finite 2, stop := .finite 3 },
    { text := "third", start := .finite 2, stop := .finite 2 },
    { text := "first", start := .negativeZero, stop := .finite (7 / 2) }], [],
   [{ text := "fifth", start := .finite 1, stop := .finite 4 },
    { text := "fourth", start := .finite 0, stop := .finite 1 }]]

theorem join_places_scattered : (∀ list ∈ scattered, ∀ s ∈ list, s.HasWindow) ∧
    ∃ merged, join scattered (.quantity (.finite (1 / 2))) = pure merged ∧
      IsMerged (.finite (1 / 2)) scattered merged ∧
      join (scattered ++ [scattered.flatten]) (.quantity (.finite (1 / 2))) =
        join [merged, scattered.flatten] (.quantity (.finite (1 / 2))) := by
  have windows : ∀ list ∈ scattered, ∀ s ∈ list, s.HasWindow := by decide +kernel
  obtain ⟨merged, hjoin, hmerged, hsteps⟩ :=
    join_places_lists (show (Json.quantity (.finite (1 / 2))).number = _ from rfl) rfl
      (by decide +kernel) windows
  exact ⟨windows, merged, hjoin, hmerged, hsteps _ (by decide +kernel)⟩

end Subtitle
end Montage
