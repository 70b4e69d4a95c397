import Mathlib.Data.List.Chain
import Montage.Proofs.Subtitle.Joined

/-!
# Lists of subtitles, cut into chunks

Subtitles are cut in the order of their starts.  A `Cut` holds them as they were, together with the
time that is the zero of a chunk, and a chunk is a cut that is seen from its zero and numbered
(`Subtitle.chunksFrom_eq`).  What the cuts hold is said once (`Subtitle.IsCutting`), by induction on
what is still to be cut: the current cut only grows, and keeps its zero.

Each chunk is put in order again once it is seen from its zero.  That changes nothing
(`Subtitle.sorted_rebased`), for what is seen from an earlier time keeps its order, also where two
infinities of one sign leave nothing to compare.

Every cut but the first has its zero where its first subtitle starts.  The first one has it at zero,
so that the chunks depend on how far the subtitles are from there
(`Subtitle.chunks_beginAtZero_iff`).
-/

set_option autoImplicit false

namespace Montage

namespace Subtitle

section Cuts

variable [rounding : Rounding]

/-! ## Cuts -/

/-- Subtitles that make up a chunk, and the time that is the zero of the chunk. -/
structure Cut where
  zero : Quantity
  subtitles : List Subtitle

/-- The subtitles of a cut from its zero on. -/
def Cut.rebased (cut : Cut) : List Subtitle := cut.subtitles.map fun s ↦
  { s with start := s.start.sub cut.zero, stop := s.stop.sub cut.zero }

/-- Whether a subtitle ends too late for a chunk. -/
def Cut.isTooShortFor (limit : Number) (cut : Cut) (s : Subtitle) : Bool :=
  limit.lt (.real (s.stop.sub cut.zero))

/-- The cuts of subtitles in order, where `cut` is the current one. -/
def cutsFrom (limit : Number) (cut : Cut) : List Subtitle → List Cut
  | [] => if cut.subtitles.isEmpty then [] else [cut]
  | s :: rest =>
    if !cut.subtitles.isEmpty && cut.isTooShortFor limit s then
      cut :: cutsFrom limit ⟨s.start, [s]⟩ rest
    else cutsFrom limit { cut with subtitles := cut.subtitles ++ [s] } rest

/-- Chunks are cuts that are seen from their zeros. -/
theorem chunksFrom_eq (limit : Number) (cut : Cut) (rest : List Subtitle) :
    chunksFrom limit cut.rebased.reverse cut.zero rest = (cutsFrom limit cut rest).map Cut.rebased := by
  induction rest generalizing cut with
  | nil =>
    rw [chunksFrom, cutsFrom, List.isEmpty_reverse, Cut.rebased, List.isEmpty_map, List.reverse_reverse]
    split <;> rfl
  | cons s rest ih =>
    have hempty : cut.rebased.reverse.isEmpty = cut.subtitles.isEmpty := by
      rw [List.isEmpty_reverse, Cut.rebased, List.isEmpty_map]
    have hopened := ih ⟨s.start, [s]⟩
    have hgrown := ih { cut with subtitles := cut.subtitles ++ [s] }
    rw [Cut.rebased, List.map_append, List.reverse_append] at hgrown
    rw [chunksFrom, cutsFrom, hempty, Cut.isTooShortFor]
    split
    · rw [List.map_cons, ← hopened, List.reverse_reverse]
      rfl
    · exact hgrown

/-! ## What a cut holds -/

/-- Subtitles in order, cut: all of them, with none of the cuts empty.  The first cut has its zero at
zero.  Every later one begins with a subtitle that ends too late for the cut before it, and has its
zero at the start of that subtitle; all others end early enough for their cut. -/
structure IsCutting (limit : Number) (subtitles : List Subtitle) (cuts : List Cut) : Prop where
  whole : cuts.flatMap Cut.subtitles = subtitles
  opened : ∀ cut ∈ cuts, cut.subtitles ≠ []
  fits : ∀ cut ∈ cuts, ∀ s ∈ cut.subtitles.tail, cut.isTooShortFor limit s = false
  first : ∀ cut ∈ cuts.head?, cut.zero = .finite 0
  later : cuts.IsChain fun cut next ↦
    ∀ s ∈ next.subtitles.head?, next.zero = s.start ∧ cut.isTooShortFor limit s = true

section

variable {limit : Number} {cut : Cut} {rest : List Subtitle}

theorem flatMap_cutsFrom : (cutsFrom limit cut rest).flatMap Cut.subtitles = cut.subtitles ++ rest := by
  fun_induction cutsFrom limit cut rest with
  | case1 cut hempty =>
    rw [List.isEmpty_iff.mp hempty]
    rfl
  | case2 cut hempty => simp
  | case3 cut s rest hlate ih => rw [List.flatMap_cons, ih]; rfl
  | case4 cut s rest hlate ih => rw [ih, List.append_assoc]; rfl

theorem subtitles_ne_nil_of_mem_cutsFrom :
    ∀ c ∈ cutsFrom limit cut rest, c.subtitles ≠ [] := by
  fun_induction cutsFrom limit cut rest with
  | case1 cut hempty => simp
  | case2 cut hempty => simpa using hempty
  | case3 cut s rest hlate ih =>
    rw [Bool.and_eq_true, Bool.not_eq_true', List.isEmpty_eq_false_iff] at hlate
    exact List.forall_mem_cons.mpr ⟨hlate.1, ih⟩
  | case4 cut s rest hlate ih => exact ih

/-- The current cut only grows, and keeps its zero. -/
theorem head?_cutsFrom : ∀ c ∈ (cutsFrom limit cut rest).head?,
    c.zero = cut.zero ∧ cut.subtitles <+: c.subtitles := by
  fun_induction cutsFrom limit cut rest with
  | case1 cut hempty => simp
  | case2 cut hempty => simp
  | case3 cut s rest hlate ih => simp
  | case4 cut s rest hlate ih =>
    intro c hc
    obtain ⟨hzero, hgrown⟩ := ih c hc
    exact ⟨hzero, (List.prefix_append _ _).trans hgrown⟩

theorem fits_cutsFrom (fits : ∀ s ∈ cut.subtitles.tail, cut.isTooShortFor limit s = false) :
    ∀ c ∈ cutsFrom limit cut rest, ∀ s ∈ c.subtitles.tail, c.isTooShortFor limit s = false := by
  fun_induction cutsFrom limit cut rest with
  | case1 cut hempty => simp
  | case2 cut hempty => simpa using fits
  | case3 cut s rest hlate ih => exact List.forall_mem_cons.mpr ⟨fits, ih (by simp)⟩
  | case4 cut s rest hlate ih =>
    refine ih ?_
    cases hsubtitles : cut.subtitles with
    | nil => simp
    | cons first others =>
      -- the cut has begun, so it grew by what ends early enough
      rw [hsubtitles] at fits hlate
      have hs : cut.isTooShortFor limit s = false := by simpa using hlate
      exact List.forall_mem_append.mpr ⟨fits, List.forall_mem_singleton.mpr hs⟩

theorem later_cutsFrom : (cutsFrom limit cut rest).IsChain fun cut next ↦
    ∀ s ∈ next.subtitles.head?, next.zero = s.start ∧ cut.isTooShortFor limit s = true := by
  fun_induction cutsFrom limit cut rest with
  | case1 cut hempty => exact .nil
  | case2 cut hempty => exact .singleton _
  | case3 cut s rest hlate ih =>
    rw [Bool.and_eq_true] at hlate
    refine List.isChain_cons.mpr ⟨fun next hnext t ht ↦ ?_, ih⟩
    obtain ⟨hzero, more, hmore⟩ := head?_cutsFrom next hnext
    rw [← hmore] at ht
    obtain rfl : s = t := Option.some.inj ht
    exact ⟨hzero, hlate.2⟩
  | case4 cut s rest hlate ih => exact ih

variable (limit) in
/-- The cuts of subtitles in the order of their starts, the first one from zero on. -/
def cutsOf (subtitles : List Subtitle) : List Cut :=
  cutsFrom limit ⟨.finite 0, []⟩ (sorted subtitles)

theorem cutsOf_isCutting (limit : Number) (subtitles : List Subtitle) :
    IsCutting limit (sorted subtitles) (cutsOf limit subtitles) where
  whole := flatMap_cutsFrom
  opened := subtitles_ne_nil_of_mem_cutsFrom
  fits := fits_cutsFrom (by simp)
  first cut hcut := (head?_cutsFrom cut hcut).1
  later := later_cutsFrom

end

/-- Whatever begins a cut but the first begins at the zero of the cut. -/
theorem zero_eq_start_of_later {limit : Number} {cut : Cut} {cuts : List Cut}
    (later : (cut :: cuts).IsChain fun cut next ↦
      ∀ s ∈ next.subtitles.head?, next.zero = s.start ∧ cut.isTooShortFor limit s = true) :
    ∀ c ∈ cuts, ∀ s ∈ c.subtitles.head?, c.zero = s.start := by
  induction cuts generalizing cut with
  | nil => simp
  | cons next cuts ih =>
    rw [List.isChain_cons_cons] at later
    exact List.forall_mem_cons.mpr ⟨fun s hs ↦ (later.1 s hs).1, ih later.2⟩

namespace IsCutting

variable {limit : Number} {subtitles : List Subtitle} {cuts : List Cut}

theorem zero_or_start (cutting : IsCutting limit subtitles cuts) :
    ∀ cut ∈ cuts, cut.zero = .finite 0 ∨ ∀ s ∈ cut.subtitles.head?, cut.zero = s.start := by
  obtain ⟨-, -, -, first, later⟩ := cutting
  cases cuts with
  | nil => simp
  | cons cut cuts =>
    exact List.forall_mem_cons.mpr ⟨.inl (first cut rfl),
      fun c hc ↦ .inr (zero_eq_start_of_later later c hc)⟩

theorem sublist (cutting : IsCutting limit subtitles cuts) {cut : Cut} (hcut : cut ∈ cuts) :
    cut.subtitles.Sublist subtitles := by
  rw [← cutting.whole, List.flatMap_def]
  exact List.sublist_flatten_of_mem (List.mem_map_of_mem hcut)

end IsCutting

/-! ## Cuts, seen from their zeros -/

/-- Seen from its zero, a cut is as well in order as it was, also where times become undefined. -/
theorem sorted_rebased (keeps : rounding.KeepsOrder) {cut : Cut} (rising : IsRising cut.subtitles)
    (opposites : ∀ s ∈ cut.subtitles, s.start.HasOpposite)
    (hzero : cut.zero = .finite 0 ∨ ∀ s ∈ cut.subtitles.head?, cut.zero = s.start) :
    sorted cut.rebased = cut.rebased := by
  refine sorted_of_pairwise (List.pairwise_map.mpr ?_)
  show cut.subtitles.Pairwise fun a b ↦ (b.start.sub cut.zero).lt (a.start.sub cut.zero) = false
  rcases hzero with hzero | hzero
  · refine rising.pairwise.imp fun {a b} hab ↦ ?_
    rw [hzero, Quantity.sub_origin, Quantity.sub_origin]
    exact (Quantity.lt_eq_false (Quantity.le_defined hab).2 (Quantity.le_defined hab).1).mpr hab
  · cases hcut : cut.subtitles with
    | nil => exact .nil
    | cons first rest =>
      rw [hcut] at rising opposites hzero
      have hfirst : ∀ a ∈ first :: rest, first.start.le a.start = true :=
        List.forall_mem_cons.mpr ⟨Quantity.le_refl (rising.defined first List.mem_cons_self),
          (List.pairwise_cons.mp rising.pairwise).1⟩
      rw [hzero first rfl]
      refine rising.pairwise.imp_of_mem fun {a b} ha _ hab ↦ ?_
      exact Quantity.sub_lt_sub keeps (opposites first List.mem_cons_self) (hfirst a ha) hab

/-- Limits above zero are accepted, and the chunks are the cuts, seen from their zeros and
numbered. -/
theorem chunks_eq (keeps : rounding.KeepsOrder) {limit : Json} {n : Number}
    (hlimit : limit.number = .ok n) (hpositive : Number.lt 0 n = true) {subtitles : List Subtitle}
    (defined : ∀ s ∈ subtitles, s.start ≠ .undefined)
    (opposites : ∀ s ∈ subtitles, s.start.HasOpposite) :
    chunks subtitles limit = .ok ((cutsOf n subtitles).map fun cut ↦ numbered cut.rebased) := by
  have haccepted : n.le 0 ≠ true := by
    intro hle
    have hlt := (Quantity.lt_eq_false (Quantity.lt_defined hpositive).1
      (Quantity.lt_defined hpositive).2).mpr hle
    rw [Number.lt, hlt] at hpositive
    cases hpositive
  have hcuts : chunksFrom n [] (.finite 0) (sorted subtitles) = (cutsOf n subtitles).map Cut.rebased :=
    chunksFrom_eq n ⟨.finite 0, []⟩ (sorted subtitles)
  rw [chunks, hlimit]
  show (if n.le 0 = true then _ else _ : Except Error _) = _
  rw [if_neg haccepted, hcuts, List.map_map]
  refine congrArg Except.ok (List.map_congr_left fun cut hcut ↦ congrArg numbered ?_)
  have cutting := cutsOf_isCutting n subtitles
  have hsublist := cutting.sublist hcut
  have rising := sorted_isRising defined
  refine sorted_rebased keeps ⟨fun s hs ↦ rising.defined s (hsublist.subset hs),
    rising.pairwise.sublist hsublist⟩ (fun s hs ↦ ?_) (cutting.zero_or_start cut hcut)
  exact opposites s ((sorted_perm subtitles).subset (hsublist.subset hs))

/-- The subtitles of a part, seen from one zero and with indices from one.  All but the first of them
end within the limit, except where the end and the zero are one and the same infinity. -/
structure IsChunkOf (limit : Number) (part chunk : List Subtitle) : Prop where
  inhabited : part ≠ []
  rebased : ∃ zero, chunk = part.mapIdx (fun place s ↦ { s with
      index := (place : Int) + 1, start := s.start.sub zero, stop := s.stop.sub zero }) ∧
    ∀ s ∈ part.tail, (Number.real (s.stop.sub zero)).le limit = true ∨
      ∃ negative, s.stop = .infinite negative ∧ zero = .infinite negative

theorem numbered_rebased (cut : Cut) : numbered cut.rebased =
    cut.subtitles.mapIdx (fun place s ↦ { s with
      index := (place : Int) + 1, start := s.start.sub cut.zero, stop := s.stop.sub cut.zero }) := by
  refine List.ext_getElem (by simp [numbered, Cut.rebased]) fun place _ _ ↦ ?_
  simp [numbered, Cut.rebased]

/-- What does not end too late ends within the limit, if it ends at a time that is defined. -/
theorem le_of_fits (total : ∀ q, rounding.round q ≠ .undefined) {limit : Number}
    (hlimit : limit.exactly ≠ .undefined) {cut : Cut} (hzero : cut.zero ≠ .undefined) {s : Subtitle}
    (hstop : s.stop ≠ .undefined) (fits : cut.isTooShortFor limit s = false) :
    (Number.real (s.stop.sub cut.zero)).le limit = true ∨
      ∃ negative, s.stop = .infinite negative ∧ cut.zero = .infinite negative := by
  by_cases hdefined : s.stop.sub cut.zero = .undefined
  · exact .inr ((Quantity.sub_eq_undefined total hstop hzero).mp hdefined)
  · exact .inl ((Quantity.lt_eq_false hlimit hdefined).mp fits)

/-! ## Where chunks begin -/

/-- The first of some subtitles starts at zero. -/
def BeginsAtZero (subtitles : List Subtitle) : Prop :=
  ∀ x ∈ (subtitles.map start).head?, x.value? = some 0

theorem beginsAtZero_numbered_rebased {cut : Cut} : BeginsAtZero (numbered cut.rebased) ↔
    ∀ s ∈ cut.subtitles.head?, (s.start.sub cut.zero).value? = some 0 := by
  rw [BeginsAtZero, map_start_numbered, Cut.rebased, List.map_map, List.head?_map]
  cases cut.subtitles.head? <;> simp

theorem IsCutting.head?_eq {limit : Number} {subtitles : List Subtitle} {cut : Cut} {cuts : List Cut}
    (cutting : IsCutting limit subtitles (cut :: cuts)) :
    cut.subtitles.head? = subtitles.head? := by
  obtain ⟨first, rest, hcut⟩ := List.exists_cons_of_ne_nil (cutting.opened cut List.mem_cons_self)
  rw [← cutting.whole, List.flatMap_cons, hcut]
  rfl

/-- **All chunks begin at zero if the first subtitle starts there**, and only then. -/
theorem IsCutting.beginAtZero_iff (zero : rounding.round 0 = .finite 0) {limit : Number}
    {subtitles : List Subtitle} {cuts : List Cut} (cutting : IsCutting limit subtitles cuts)
    (finite : ∀ s ∈ subtitles, s.start.isFinite = true)
    (opposites : ∀ s ∈ subtitles, s.start.HasOpposite) :
    (∀ cut ∈ cuts, BeginsAtZero (numbered cut.rebased)) ↔ BeginsAtZero subtitles := by
  cases cuts with
  | nil =>
    rw [← cutting.whole]
    simp [BeginsAtZero]
  | cons cut cuts =>
    have hlater : ∀ c ∈ cuts, BeginsAtZero (numbered c.rebased) := by
      intro c hc
      refine beginsAtZero_numbered_rebased.mpr fun s hs ↦ ?_
      have hmem : s ∈ subtitles :=
        (cutting.sublist (List.mem_cons_of_mem _ hc)).subset (List.mem_of_mem_head? hs)
      rw [zero_eq_start_of_later cutting.later c hc s hs]
      exact Quantity.value?_sub_self zero (finite s hmem) (opposites s hmem)
    rw [List.forall_mem_cons, and_iff_left hlater, beginsAtZero_numbered_rebased, cutting.head?_eq,
      cutting.first cut rfl, BeginsAtZero, List.head?_map]
    cases subtitles.head? <;> simp [Quantity.sub_origin]

/-! ## Cuts that are moved -/

/-- Both times are values, with no sign on a zero. -/
structure IsPlain (subtitle : Subtitle) : Prop where
  starts : ∃ q, subtitle.start = .finite q
  stops : ∃ q, subtitle.stop = .finite q

/-- A cut, moved in time together with its zero. -/
def Cut.shifted (cut : Cut) (offset : Quantity) : Cut :=
  ⟨cut.zero.add offset, cut.subtitles.map (·.shifted offset)⟩

section Exact

variable (exact : rounding.IsExact) {limit : Number} {offset : Rat} {cut : Cut}
include exact

theorem exact_sub (q r : Rat) : (Quantity.finite q).sub (.finite r) = .finite (q - r) := by
  rw [Quantity.sub, Quantity.neg]
  split
  · rename_i hr
    rw [Rat.num_eq_zero.mp hr, sub_zero]
    rfl
  · rw [Quantity.add, exact, sub_eq_add_neg]

variable (offset) in
/-- What is seen from a zero does not change when both are moved. -/
theorem shifted_sub_shifted {x zero : Quantity} (hx : ∃ q, x = .finite q)
    (hzero : ∃ q, zero = .finite q) :
    (x.add (.finite offset)).sub (zero.add (.finite offset)) = x.sub zero := by
  obtain ⟨q, rfl⟩ := hx
  obtain ⟨r, rfl⟩ := hzero
  rw [Quantity.finite_add exact, Quantity.finite_add exact, exact_sub exact, exact_sub exact,
    add_sub_add_right_eq_sub]

theorem rebased_shifted (hzero : ∃ q, cut.zero = .finite q)
    (plain : ∀ s ∈ cut.subtitles, s.IsPlain) :
    (cut.shifted (.finite offset)).rebased = cut.rebased := by
  rw [Cut.rebased, Cut.shifted, List.map_map, Cut.rebased]
  refine List.map_congr_left fun s hs ↦ ?_
  have hstart := shifted_sub_shifted exact offset (plain s hs).starts hzero
  have hstop := shifted_sub_shifted exact offset (plain s hs).stops hzero
  simp [shifted, hstart, hstop]

/-- Subtitles that are moved together with the zero of the first cut are cut where they were. -/
theorem cutsFrom_shifted {rest : List Subtitle} (hzero : ∃ q, cut.zero = .finite q)
    (plain : ∀ s ∈ cut.subtitles, s.IsPlain) (hrest : ∀ s ∈ rest, s.IsPlain) :
    (cutsFrom limit (cut.shifted (.finite offset)) (rest.map (·.shifted (.finite offset)))).map
      Cut.rebased = (cutsFrom limit cut rest).map Cut.rebased := by
  induction rest generalizing cut with
  | nil =>
    rw [List.map_nil, cutsFrom, cutsFrom]
    have hempty : (cut.shifted (.finite offset)).subtitles.isEmpty = cut.subtitles.isEmpty :=
      List.isEmpty_map
    rw [hempty]
    split
    · rfl
    · rw [List.map_singleton, rebased_shifted exact hzero plain, List.map_singleton]
  | cons s rest ih =>
    rw [List.forall_mem_cons] at hrest
    have hempty : (cut.shifted (.finite offset)).subtitles.isEmpty = cut.subtitles.isEmpty :=
      List.isEmpty_map
    have hlate : (cut.shifted (.finite offset)).isTooShortFor limit (s.shifted (.finite offset)) =
        cut.isTooShortFor limit s := by
      rw [Cut.isTooShortFor, Cut.isTooShortFor, ← shifted_sub_shifted exact offset hrest.1.stops hzero]
      rfl
    rw [List.map_cons, cutsFrom, cutsFrom, hempty, hlate]
    split
    · rw [List.map_cons, List.map_cons, rebased_shifted exact hzero plain]
      exact congrArg _ (@ih ⟨s.start, [s]⟩ hrest.1.starts (by simpa using hrest.1) hrest.2)
    · have hgrown := @ih { cut with subtitles := cut.subtitles ++ [s] } hzero
        (List.forall_mem_append.mpr ⟨plain, by simpa using hrest.1⟩) hrest.2
      rw [← hgrown, Cut.shifted, Cut.shifted, List.map_append]
      rfl

theorem sorted_shifted {subtitles : List Subtitle} (plain : ∀ s ∈ subtitles, s.IsPlain) :
    sorted (subtitles.map (·.shifted (.finite offset))) =
      (sorted subtitles).map (·.shifted (.finite offset)) := by
  have hstart : ∀ s ∈ subtitles, ∃ q, s.start = .finite q ∧
      (s.shifted (.finite offset)).start = .finite (q + offset) := by
    intro s hs
    obtain ⟨q, hq⟩ := (plain s hs).starts
    exact ⟨q, hq, by rw [shifted, hq, Quantity.finite_add exact]⟩
  rw [sorted_of_defined, sorted_of_defined]
  · refine (List.map_mergeSort fun a ha b hb ↦ ?_).symm
    obtain ⟨q, hq, hq'⟩ := hstart a ha
    obtain ⟨r, hr, hr'⟩ := hstart b hb
    have hlt : b.start.lt a.start =
        (b.shifted (.finite offset)).start.lt (a.shifted (.finite offset)).start := by
      rw [hq, hq', hr, hr', Bool.eq_iff_iff, Quantity.lt_iff_value? rfl rfl,
        Quantity.lt_iff_value? rfl rfl, add_lt_add_iff_right]
    rw [hlt]
  · intro s hs
    obtain ⟨q, hq, -⟩ := hstart s hs
    rw [hq]
    rintro ⟨⟩
  · refine List.forall_mem_map.mpr fun s hs ↦ ?_
    obtain ⟨q, -, hq⟩ := hstart s hs
    rw [hq]
    rintro ⟨⟩

variable (offset) in
/-- **Moving all subtitles by one constant is moving the zero of the first cut the other way.** -/
theorem rebased_cutsOf_shifted {subtitles : List Subtitle} (plain : ∀ s ∈ subtitles, s.IsPlain) :
    (cutsOf limit (subtitles.map (·.shifted (.finite offset)))).map Cut.rebased =
      (cutsFrom limit ⟨.finite (-offset), []⟩ (sorted subtitles)).map Cut.rebased := by
  have hzero : (Quantity.finite (-offset)).add (.finite offset) = .finite 0 := by
    rw [Quantity.finite_add exact, neg_add_cancel]
  have hplain : ∀ s ∈ sorted subtitles, s.IsPlain :=
    fun s hs ↦ plain s ((sorted_perm subtitles).subset hs)
  rw [cutsOf, sorted_shifted exact plain, ← @cutsFrom_shifted _ exact _ _ ⟨_, []⟩ _
    ⟨-offset, rfl⟩ (by simp) hplain, Cut.shifted, hzero]
  rfl

omit exact in
/-- What comes first in all cuts is what comes first, seen from the first zero. -/
theorem head?_rebased_cutsFrom (zero : Quantity) (subtitles : List Subtitle) :
    (((cutsFrom limit ⟨zero, []⟩ subtitles).map Cut.rebased).flatten.map start).head? =
      subtitles.head?.map (·.start.sub zero) := by
  have hwhole : (cutsFrom limit ⟨zero, []⟩ subtitles).flatMap Cut.subtitles = subtitles :=
    flatMap_cutsFrom
  have hopened := @subtitles_ne_nil_of_mem_cutsFrom _ limit ⟨zero, []⟩ subtitles
  have hzero := @head?_cutsFrom _ limit ⟨zero, []⟩ subtitles
  cases hcuts : cutsFrom limit ⟨zero, []⟩ subtitles with
  | nil =>
    rw [hcuts] at hwhole
    rw [← hwhole]
    rfl
  | cons cut cuts =>
    rw [hcuts] at hwhole hopened hzero
    obtain ⟨first, rest, hcut⟩ := List.exists_cons_of_ne_nil (hopened cut List.mem_cons_self)
    rw [← hwhole, List.flatMap_cons, List.map_cons, List.flatten_cons, Cut.rebased, hcut,
      (hzero cut rfl).1]
    rfl

/-- Moving subtitles changes what comes first, so it changes the chunks. -/
theorem numbered_cutsFrom_inj {subtitles : List Subtitle} (plain : ∀ s ∈ subtitles, s.IsPlain)
    (h : (cutsFrom limit ⟨.finite (-offset), []⟩ subtitles).map (fun cut ↦ numbered cut.rebased) =
      (cutsFrom limit ⟨.finite 0, []⟩ subtitles).map fun cut ↦ numbered cut.rebased) :
    offset = 0 ∨ subtitles = [] := by
  have hstarts (cuts : List Cut) :
      (cuts.map fun cut ↦ numbered cut.rebased).flatten.map start =
        (cuts.map Cut.rebased).flatten.map start := by
    rw [List.map_flatten, List.map_flatten, List.map_map, List.map_map]
    exact congrArg _ (List.map_congr_left fun cut _ ↦ map_start_numbered _)
  have hhead := congrArg (fun chunks : List (List Subtitle) ↦ (chunks.flatten.map start).head?) h
  simp only [hstarts, head?_rebased_cutsFrom] at hhead
  cases subtitles with
  | nil => exact .inr rfl
  | cons first rest =>
    obtain ⟨q, hq⟩ := (plain first List.mem_cons_self).starts
    rw [List.head?_cons, Option.map_some, Option.map_some, hq, exact_sub exact, exact_sub exact,
      Option.some_inj, Quantity.finite.injEq] at hhead
    exact .inl (by linarith)

omit exact in
theorem IsCutting.zero_eq_start {subtitles : List Subtitle} {cuts : List Cut}
    (cutting : IsCutting limit subtitles cuts) (plain : ∀ s ∈ subtitles, s.IsPlain)
    (begins : BeginsAtZero subtitles) :
    ∀ cut ∈ cuts, ∀ s ∈ cut.subtitles.head?, cut.zero = s.start := by
  cases cuts with
  | nil => simp
  | cons cut cuts =>
    refine List.forall_mem_cons.mpr ⟨fun s hs ↦ ?_, zero_eq_start_of_later cutting.later⟩
    rw [cutting.head?_eq] at hs
    obtain ⟨q, hq⟩ := (plain s (List.mem_of_mem_head? hs)).starts
    have hzero := begins s.start (by rw [List.head?_map, Option.mem_def.mp hs]; rfl)
    rw [hq] at hzero
    rw [cutting.first cut rfl, hq, Option.some.inj hzero]

variable (offset) in
/-- The chunks of subtitles that are moved are those that the first zero, moved the other way, leads
to. -/
theorem chunks_shifted {limit : Json} {n : Number} (hlimit : limit.number = .ok n)
    (hpositive : Number.lt 0 n = true) {subtitles : List Subtitle}
    (plain : ∀ s ∈ subtitles, s.IsPlain) :
    chunks (subtitles.map (·.shifted (.finite offset))) limit =
      .ok ((cutsFrom n ⟨.finite (-offset), []⟩ (sorted subtitles)).map
        fun cut ↦ numbered cut.rebased) := by
  have hdefined : ∀ s ∈ subtitles.map (·.shifted (.finite offset)), s.start ≠ .undefined := by
    refine List.forall_mem_map.mpr fun s hs ↦ ?_
    obtain ⟨q, hq⟩ := (plain s hs).starts
    rw [shifted, hq, Quantity.finite_add exact]
    rintro ⟨⟩
  rw [chunks_eq exact.keepsOrder hlimit hpositive hdefined fun s _ q _ ↦ exact (-q)]
  have hrebased := congrArg (List.map numbered)
    (@rebased_cutsOf_shifted _ exact n offset _ plain)
  rw [List.map_map, List.map_map] at hrebased
  exact congrArg Except.ok hrebased

end Exact

/-- **Chunks begin at zero only if the first subtitle starts there.**  Without rounding, chunks are
then begun as late as the limit allows, and moving all subtitles by one constant changes them. -/
theorem chunks_beginAtZero_iff (keeps : rounding.KeepsOrder) {limit : Json} {n : Number}
    (hlimit : limit.number = .ok n) (hpositive : Number.lt 0 n = true) {subtitles : List Subtitle}
    (finite : ∀ s ∈ subtitles, s.start.isFinite = true)
    (opposites : ∀ s ∈ subtitles, s.start.HasOpposite) :
    ∃ cuts, IsCutting n (sorted subtitles) cuts ∧
      chunks subtitles limit = .ok (cuts.map fun cut ↦ numbered cut.rebased) ∧
      ((∀ cut ∈ cuts, BeginsAtZero (numbered cut.rebased)) ↔ BeginsAtZero (sorted subtitles)) ∧
      (rounding.IsExact → (∀ s ∈ subtitles, s.IsPlain) →
        (BeginsAtZero (sorted subtitles) → cuts.IsChain fun cut next ↦
          ∀ first ∈ cut.subtitles.head?, ∀ s ∈ next.subtitles.head?,
            n.lt (.real (s.stop.sub first.start)) = true) ∧
        ∀ offset : Rat,
          chunks (subtitles.map (·.shifted (.finite offset))) limit =
            .ok ((cutsFrom n ⟨.finite (-offset), []⟩ (sorted subtitles)).map
              fun cut ↦ numbered cut.rebased) ∧
          (chunks (subtitles.map (·.shifted (.finite offset))) limit = chunks subtitles limit ↔
            offset = 0 ∨ subtitles = [])) := by
  have hmem : ∀ s ∈ sorted subtitles, s ∈ subtitles := fun s ↦ (sorted_perm subtitles).mem_iff.mp
  have cutting := cutsOf_isCutting n subtitles
  have hchunks := chunks_eq keeps hlimit hpositive
    (fun s hs ↦ Quantity.ne_undefined_of_isFinite (finite s hs)) opposites
  refine ⟨_, cutting, hchunks, cutting.beginAtZero_iff keeps.zero (fun s hs ↦ finite s (hmem s hs))
    fun s hs ↦ opposites s (hmem s hs), fun exact plain ↦ ⟨fun begins ↦ ?_, fun offset ↦ ?_⟩⟩
  · have hzero := cutting.zero_eq_start (fun s hs ↦ plain s (hmem s hs)) begins
    refine cutting.later.imp_of_mem_imp fun cut next hcut _ h first hfirst s hs ↦ ?_
    rw [← hzero cut hcut first hfirst]
    exact (h s hs).2
  · have hmoved := chunks_shifted exact offset hlimit hpositive plain
    refine ⟨hmoved, fun heq ↦ ?_, ?_⟩
    · rw [hmoved, hchunks, Except.ok.injEq] at heq
      have hzero := numbered_cutsFrom_inj exact (fun s hs ↦ plain s (hmem s hs)) heq
      exact hzero.imp_right fun hnil ↦ by_contra fun hne ↦ sorted_ne_nil hne hnil
    · rintro (rfl | rfl)
      · rw [hmoved, neg_zero, hchunks]
        rfl
      · rfl

end Cuts

section Late

attribute [local instance] Rounding.exact

/-- Two subtitles that would go into one chunk if that began with the first of them. -/
def lateStart : List Subtitle :=
  [{ text := "a", start := .finite 5, stop := .finite 6 },
    { text := "b", start := .finite 7, stop := .finite 8 }]

/-- The first chunk still begins at five, and the second subtitle is the beginning of another one,
though it ends three seconds after the first one starts. -/
theorem lateStart_chunks : (∀ s ∈ lateStart, s.start.isFinite = true) ∧
    ∃ cuts, IsCutting 5 (sorted lateStart) cuts ∧
      chunks lateStart (.num (.whole 5)) = .ok (cuts.map fun cut ↦ numbered cut.rebased) ∧
      ¬ (∀ cut ∈ cuts, BeginsAtZero (numbered cut.rebased)) ∧
      chunks (lateStart.map (·.shifted (.finite (-5)))) (.num (.whole 5)) ≠
        chunks lateStart (.num (.whole 5)) := by
  have hfinite : ∀ s ∈ lateStart, s.start.isFinite = true := by decide
  have hplain : ∀ s ∈ lateStart, s.IsPlain := by
    simp only [lateStart, List.forall_mem_cons, List.not_mem_nil, false_imp_iff, implies_true, and_true]
    exact ⟨⟨⟨5, rfl⟩, ⟨6, rfl⟩⟩, ⟨⟨7, rfl⟩, ⟨8, rfl⟩⟩⟩
  obtain ⟨cuts, cutting, hchunks, hbegins, hmoved⟩ :=
    chunks_beginAtZero_iff Rounding.exact_isExact.keepsOrder
      (show (Json.num (.whole 5)).number = .ok 5 from rfl) (by decide) hfinite
      fun s _ q _ ↦ Rounding.exact_isExact (-q)
  have hsorted : sorted lateStart = lateStart := sorted_of_pairwise (by decide)
  refine ⟨hfinite, cuts, cutting, hchunks, fun hall ↦ ?_, fun heq ↦ ?_⟩
  · have := hbegins.mp hall (.finite 5) (by rw [hsorted]; rfl)
    cases this
  · have := (hmoved Rounding.exact_isExact hplain).2 (-5)
    rcases this.2.mp heq with h | h <;> cases h

end Late

/-! ## Chunks on the binary grid -/

section Binary

attribute [local instance] Rounding.binary64

/-- A subtitle with times that are defined, of which the start is a number of the grid. -/
structure HasTimes (subtitle : Subtitle) : Prop where
  starts : subtitle.start ≠ .undefined
  onGrid : subtitle.start.IsOnGrid
  stops : subtitle.stop ≠ .undefined

instance (subtitle : Subtitle) : Decidable subtitle.HasTimes :=
  decidable_of_iff (subtitle.start ≠ .undefined ∧ subtitle.start.IsOnGrid ∧
    subtitle.stop ≠ .undefined) ⟨fun ⟨h, h', h''⟩ ↦ ⟨h, h', h''⟩, fun ⟨h, h', h''⟩ ↦ ⟨h, h', h''⟩⟩

/-- **Chunks partition the subtitles in the order of their starts**, and all that a chunk holds but
its first subtitle ends within the limit. -/
theorem chunks_partition {limit : Json} {n : Number} (hlimit : limit.number = .ok n)
    (hpositive : Number.lt 0 n = true) {subtitles : List Subtitle}
    (timed : ∀ s ∈ subtitles, s.HasTimes) :
    ∃ parts chunks, Subtitle.chunks subtitles limit = .ok chunks ∧
      IsArrangementOf subtitles parts.flatten ∧ List.Forall₂ (IsChunkOf n) parts chunks := by
  have hdefined : ∀ s ∈ subtitles, s.start ≠ .undefined := fun s hs ↦ (timed s hs).starts
  have cutting := cutsOf_isCutting n subtitles
  have hchunks := chunks_eq binary64_keepsOrder hlimit hpositive hdefined
    fun s hs q hq ↦ isOnGrid_neg ((timed s hs).onGrid q hq)
  refine ⟨(cutsOf n subtitles).map Cut.subtitles, _, hchunks, ?_, ?_⟩
  · rw [← List.flatMap_def, cutting.whole]
    exact sorted_isArrangementOf hdefined
  rw [List.forall₂_map_left_iff, List.forall₂_map_right_iff, List.forall₂_same]
  intro cut hcut
  have htimed : ∀ s ∈ cut.subtitles, s.HasTimes := fun s hs ↦
    timed s ((sorted_perm subtitles).subset ((cutting.sublist hcut).subset hs))
  have hinhabited := cutting.opened cut hcut
  have hzero : cut.zero ≠ .undefined := by
    rcases cutting.zero_or_start cut hcut with hzero | hzero
    · rw [hzero]
      decide
    · rw [hzero _ (List.head_mem_head? hinhabited)]
      exact (htimed _ (List.head_mem hinhabited)).starts
  refine ⟨hinhabited, cut.zero, numbered_rebased cut, fun s hs ↦ ?_⟩
  exact le_of_fits binary64_ne_undefined (Quantity.lt_defined hpositive).2 hzero
    (htimed s (List.mem_of_mem_tail hs)).stops (cutting.fits cut hcut s hs)

/-- Subtitles that are not sorted: two that start together, a long one, and one that starts before
zero. -/
def uneven : List Subtitle :=
  [{ text := "long", start := .finite 7, stop := .finite 30 },
    { text := "second", start := .finite 2, stop := .finite 3 },
    { text := "third", start := .finite 2, stop := .finite (9 / 2) },
    { text := "early", start := .finite (-1), stop := .negativeZero },
    { text := "last", start := .finite 8, stop := .finite 9 }]

theorem uneven_partition : (∀ s ∈ uneven, s.HasTimes) ∧
    ∃ parts chunks, Subtitle.chunks uneven (.num (.whole 5)) = .ok chunks ∧
      IsArrangementOf uneven parts.flatten ∧ List.Forall₂ (IsChunkOf 5) parts chunks := by
  have timed : ∀ s ∈ uneven, s.HasTimes := by decide +kernel
  exact ⟨timed, chunks_partition (show (Json.num (.whole 5)).number = .ok 5 from rfl)
    (by decide +kernel) timed⟩

/-- Subtitles that never begin and never end. -/
def endless : List Subtitle := ["a", "b", "c"].map fun text ↦
  { text, start := .infinite false, stop := .infinite false }

/-- The second of two subtitles that begin a chunk together at infinity ends nowhere in it. -/
theorem endless_unbounded : (∀ s ∈ endless, s.HasTimes) ∧
    ∃ chunks, Subtitle.chunks endless (.num (.whole 5)) = .ok chunks ∧
      ∃ chunk ∈ chunks, ∃ s ∈ chunk.tail, (Number.real s.stop).le 5 = false := by
  have timed : ∀ s ∈ endless, s.HasTimes := by decide
  have hsorted : sorted endless = endless := sorted_of_pairwise (by decide)
  refine ⟨timed, _, chunks_eq binary64_keepsOrder (show (Json.num (.whole 5)).number = .ok 5 from rfl)
    (by decide) (fun s hs ↦ (timed s hs).starts)
    fun s hs q hq ↦ isOnGrid_neg ((timed s hs).onGrid q hq), ?_⟩
  rw [cutsOf, hsorted]
  decide

end Binary

end Subtitle
end Montage
