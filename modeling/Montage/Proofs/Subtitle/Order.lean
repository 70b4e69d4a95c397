import Mathlib.Data.List.Pairwise
import Mathlib.Data.List.Sort
import Montage.Proofs.Number.Sign
import Montage.Subtitle.Basic

/-!
# Subtitles in order

Bisection finds a place by looking at few items.  Where what belongs behind is all at the end, the
place that it finds is the one that looking at every item would find: that is the invariant of the
halving, and an item put at that place leaves a list as well arranged as it was.

Subtitles are in order if their starts rise (`Subtitle.IsRising`) and their indices count from one
(`Subtitle.IsNumbered`).  Sorting and numbering brings that about, and an insertion keeps it.
-/

set_option autoImplicit false

namespace Montage

/-! ## Bisection -/

section Bisection

variable {α : Type} {isBehind : α → Bool} {items : List α}

/-- What belongs behind is all at the end: behind such an item there are only such items. -/
def IsSplit (isBehind : α → Bool) (items : List α) : Prop :=
  items.Pairwise fun a b ↦ isBehind a = true → isBehind b = true

/-- The place in front of all items that belong behind. -/
structure IsPlace (isBehind : α → Bool) (items : List α) (place : Nat) : Prop where
  front : ∀ a ∈ items.take place, isBehind a = false
  back : ∀ a ∈ items.drop place, isBehind a = true

/-- The items before `low` stay in front and those from `high` on belong behind: halving keeps
that, and ends where the two meet. -/
theorem bisect_isPlace_of_between (split : IsSplit isBehind items) (low high : Nat)
    (hle : low ≤ high) (hlength : high ≤ items.length)
    (front : ∀ a ∈ items.take low, isBehind a = false)
    (back : ∀ a ∈ items.drop high, isBehind a = true) :
    IsPlace isBehind items (bisect isBehind items low high) := by
  fun_induction bisect isBehind items low high with
  | case1 low high hlt middle hmiddle ih =>
    have hin : middle < items.length := by omega
    rw [List.getElem?_eq_getElem hin, Option.any_some] at hmiddle
    refine ih (by omega) (by omega) front ?_
    rw [List.drop_eq_getElem_cons hin]
    have hpairs : IsSplit isBehind (items.drop middle) := split.sublist (List.drop_sublist _ _)
    rw [IsSplit, List.drop_eq_getElem_cons hin, List.pairwise_cons] at hpairs
    intro a ha
    rcases List.mem_cons.mp ha with rfl | ha
    · exact hmiddle
    · exact hpairs.1 a ha hmiddle
  | case2 low high hlt middle hmiddle ih =>
    have hin : middle < items.length := by omega
    rw [List.getElem?_eq_getElem hin, Option.any_some, Bool.not_eq_true] at hmiddle
    refine ih (by omega) (by omega) ?_ back
    have hpairs : IsSplit isBehind (items.take (middle + 1)) :=
      split.sublist (List.take_sublist _ _)
    rw [IsSplit, List.take_succ_eq_append_getElem hin, List.pairwise_append] at hpairs
    rw [List.take_succ_eq_append_getElem hin]
    intro a ha
    rcases List.mem_append.mp ha with ha | ha
    · rw [← Bool.not_eq_true]
      intro hbehind
      have := hpairs.2.2 a ha _ (List.mem_singleton_self _) hbehind
      rw [hmiddle] at this
      cases this
    · rw [List.mem_singleton.mp ha]
      exact hmiddle
  | case3 low high hlt =>
    obtain rfl : low = high := by omega
    exact ⟨front, back⟩

/-- **Bisection finds the place where what belongs behind begins.** -/
theorem bisect_isPlace (split : IsSplit isBehind items) :
    IsPlace isBehind items (bisect isBehind items 0 items.length) :=
  bisect_isPlace_of_between split 0 items.length (Nat.zero_le _) le_rfl (by simp) (by simp)

theorem bisect_le {low high : Nat} (h : low ≤ high) : bisect isBehind items low high ≤ high := by
  fun_induction bisect isBehind items low high with
  | case1 low high hlt middle hmiddle ih =>
    have := ih (by omega)
    omega
  | case2 low high hlt middle hmiddle ih => exact ih (by omega)
  | case3 low high hlt => exact h

theorem perm_insertAt (place : Nat) (a : α) (items : List α) :
    (insertAt place a items).Perm (a :: items) := by
  refine List.perm_middle.trans (.of_eq ?_)
  rw [List.take_append_drop]

/-- An item put where it is related to all before and all behind leaves a list as arranged. -/
theorem pairwise_insertAt {r : α → α → Prop} {place : Nat} {a : α} (h : items.Pairwise r)
    (front : ∀ b ∈ items.take place, r b a) (back : ∀ b ∈ items.drop place, r a b) :
    (insertAt place a items).Pairwise r := by
  rw [← List.take_append_drop place items, List.pairwise_append] at h
  obtain ⟨hfront, hback, hacross⟩ := h
  rw [insertAt, List.pairwise_append, List.pairwise_cons]
  refine ⟨hfront, ⟨back, hback⟩, ?_⟩
  intro b hb c hc
  rcases List.mem_cons.mp hc with rfl | hc
  · exact front b hb
  · exact hacross b hb c hc

end Bisection

/-! ## Sorting by merging -/

section Merge

variable {α : Type}

/-- A list cut where the items that are before an item end is cut at one place. -/
theorem eq_of_cut (isBefore : α → Bool) {xs ys zs ws : List α}
    (h : xs ++ ys = zs ++ ws) (hxs : ∀ a ∈ xs, isBefore a = true) (hys : ∀ a ∈ ys, isBefore a = false)
    (hzs : ∀ a ∈ zs, isBefore a = true) (hws : ∀ a ∈ ws, isBefore a = false) : xs = zs := by
  have htake : ∀ {us vs : List α}, (∀ a ∈ us, isBefore a = true) → (∀ a ∈ vs, isBefore a = false) →
      (us ++ vs).filter isBefore = us := by
    intro us vs hus hvs
    rw [List.filter_append, List.filter_eq_self.mpr hus, List.filter_eq_nil_iff.mpr, List.append_nil]
    intro a ha
    rw [hvs a ha]
    exact Bool.false_ne_true
  rw [← htake hxs hys, h, htake hzs hws]

variable {le : α → α → Bool} (trans : ∀ a b c, le a b = true → le b c = true → le a c = true)
  (total : ∀ a b, (le a b || le b a) = true)
include trans total

/-- The first item goes in front of the first one that is not before it. -/
theorem exists_cut_mergeSort (a : α) (xs : List α) : ∃ front back,
    (a :: xs).mergeSort le = front ++ a :: back ∧ xs.mergeSort le = front ++ back ∧
      (∀ b ∈ front, le a b = false) ∧ ∀ b ∈ back, le a b = true := by
  obtain ⟨front, back, hall, hcut, hfront⟩ := List.mergeSort_cons trans total a xs
  have hsorted := List.pairwise_mergeSort trans total (a :: xs)
  rw [hall, List.pairwise_append, List.pairwise_cons] at hsorted
  exact ⟨front, back, hall, hcut, fun b hb ↦ by simpa using hfront b hb, hsorted.2.1.1⟩

theorem mergeSort_cons_of_cut {a : α} {xs front back : List α}
    (hcut : xs.mergeSort le = front ++ back) (hfront : ∀ b ∈ front, le a b = false)
    (hback : ∀ b ∈ back, le a b = true) : (a :: xs).mergeSort le = front ++ a :: back := by
  obtain ⟨front', back', hall, hcut', hfront', hback'⟩ := exists_cut_mergeSort trans total a xs
  have hsplit := hcut'.symm.trans hcut
  obtain rfl : front' = front := eq_of_cut (fun b ↦ !le a b) hsplit (by simpa using hfront')
    (by simpa using hback') (by simpa using hfront) (by simpa using hback)
  rw [hall, List.append_cancel_left hsplit]

/-- **What is left of sorted items is what is left of the items, sorted.** -/
theorem filter_mergeSort (keep : α → Bool) (xs : List α) :
    (xs.mergeSort le).filter keep = (xs.filter keep).mergeSort le := by
  induction xs with
  | nil => rw [List.mergeSort_nil, List.filter_nil, List.mergeSort_nil]
  | cons a xs ih =>
    obtain ⟨front, back, hall, hcut, hfront, hback⟩ := exists_cut_mergeSort trans total a xs
    rw [hcut, List.filter_append] at ih
    rw [hall, List.filter_append, List.filter_cons, List.filter_cons]
    split
    · exact (mergeSort_cons_of_cut trans total ih.symm
        (fun b hb ↦ hfront b (List.mem_of_mem_filter hb))
        fun b hb ↦ hback b (List.mem_of_mem_filter hb)).symm
    · exact ih

/-- What is not behind the rest may be sorted for itself. -/
theorem mergeSort_append {xs ys : List α} (h : ∀ a ∈ xs, ∀ b ∈ ys, le a b = true) :
    (xs ++ ys).mergeSort le = xs.mergeSort le ++ ys.mergeSort le := by
  induction xs with
  | nil => rw [List.nil_append, List.mergeSort_nil, List.nil_append]
  | cons a xs ih =>
    rw [List.forall_mem_cons] at h
    obtain ⟨front, back, hself, hcut, hfront, hback⟩ := exists_cut_mergeSort trans total a xs
    have hall : (xs ++ ys).mergeSort le = front ++ (back ++ ys.mergeSort le) := by
      rw [ih h.2, hcut, List.append_assoc]
    rw [List.cons_append, mergeSort_cons_of_cut trans total hall hfront ?_, hself, List.append_assoc,
      List.cons_append]
    exact List.forall_mem_append.mpr ⟨hback, fun b hb ↦ h.1 b (List.mem_mergeSort.mp hb)⟩

end Merge

namespace Subtitle

/-! ## Numbering -/

/-- The indices count from one. -/
def IsNumbered (subtitles : List Subtitle) : Prop :=
  ∀ place (h : place < subtitles.length), subtitles[place].index = (place : Int) + 1

theorem numbered_isNumbered (subtitles : List Subtitle) : IsNumbered (numbered subtitles) := by
  intro place h
  simp [numbered]

/-- Indices that count from one stay as they are. -/
theorem numbered_of_isNumbered {subtitles : List Subtitle} (h : IsNumbered subtitles) :
    numbered subtitles = subtitles := by
  refine List.ext_getElem (by simp [numbered]) fun place hplace hplace' ↦ ?_
  simp [numbered, ← h place hplace']

/-- Numbering changes the indices alone. -/
theorem map_numbered {β : Type} {f : Subtitle → β}
    (hf : ∀ (subtitle : Subtitle) (index : Int), f { subtitle with index } = f subtitle)
    (subtitles : List Subtitle) : (numbered subtitles).map f = subtitles.map f := by
  refine List.ext_getElem (by simp [numbered]) ?_
  intro place hleft hright
  simp [numbered, hf]

theorem map_start_numbered (subtitles : List Subtitle) :
    (numbered subtitles).map start = subtitles.map start :=
  map_numbered (fun _ _ ↦ rfl) subtitles

theorem map_id_numbered (subtitles : List Subtitle) :
    (numbered subtitles).map id = subtitles.map id :=
  map_numbered (fun _ _ ↦ rfl) subtitles

theorem exists_of_mem_numbered {xs : List Subtitle} {s : Subtitle} (h : s ∈ numbered xs) :
    ∃ t ∈ xs, ∃ index, s = { t with index } := by
  obtain ⟨place, hplace, rfl⟩ := List.mem_mapIdx.mp h
  exact ⟨xs[place], List.getElem_mem hplace, _, rfl⟩

/-- Indices that are there already do not matter to numbering. -/
theorem numbered_append_of_numbered (xs ys : List Subtitle) :
    numbered (numbered xs ++ ys) = numbered (xs ++ ys) := by
  rw [numbered, numbered, numbered, List.mapIdx_append, List.mapIdx_append, List.mapIdx_mapIdx,
    List.length_mapIdx]
  rfl

/-! ## Order -/

/-- Every subtitle has a start, and the starts rise. -/
structure IsRising (subtitles : List Subtitle) : Prop where
  defined : ∀ subtitle ∈ subtitles, subtitle.start ≠ .undefined
  pairwise : subtitles.Pairwise fun a b ↦ a.start.le b.start = true

/-- Whether starts rise is a matter of the starts alone. -/
theorem isRising_iff {subtitles : List Subtitle} : IsRising subtitles ↔
    (∀ x ∈ subtitles.map start, x ≠ .undefined) ∧
      (subtitles.map start).Pairwise fun x y ↦ x.le y = true := by
  rw [List.forall_mem_map, List.pairwise_map]
  exact ⟨fun ⟨hdefined, hpairs⟩ ↦ ⟨hdefined, hpairs⟩, fun ⟨hdefined, hpairs⟩ ↦ ⟨hdefined, hpairs⟩⟩

theorem isRising_numbered {subtitles : List Subtitle} :
    IsRising (numbered subtitles) ↔ IsRising subtitles := by
  rw [isRising_iff, isRising_iff, map_start_numbered]

theorem isRising_nil : IsRising [] := ⟨by simp, .nil⟩

/-- As long as every subtitle has a start, sorting is sorting by places on the line. -/
theorem sorted_eq_mergeSort {subtitles : List Subtitle}
    (defined : ∀ subtitle ∈ subtitles, subtitle.start ≠ .undefined) :
    sorted subtitles = subtitles.mergeSort fun a b ↦ decide (a.start.rank ≤ b.start.rank) := by
  have hany : ¬ (subtitles.any fun subtitle ↦ subtitle.start = .undefined) = true := by
    simpa using defined
  rw [sorted, if_neg hany]
  have := List.map_mergeSort (f := fun subtitle : Subtitle ↦ subtitle)
    (r := fun a b : Subtitle ↦ !b.isBefore a) (l := subtitles)
    (s := fun a b : Subtitle ↦ decide (a.start.rank ≤ b.start.rank)) ?_
  · simpa using this
  intro a ha b hb
  rw [isBefore, Bool.eq_iff_iff, Bool.not_eq_true',
    Quantity.lt_eq_false (defined b hb) (defined a ha),
    Quantity.le_iff (defined a ha) (defined b hb), decide_eq_true_iff]

/-- A run and the rest make up the list. -/
theorem takeRun_append {α : Type} (follows : α → α → Bool) (last : α) (items : List α) :
    (takeRun follows last items).1 ++ (takeRun follows last items).2 = items := by
  induction items generalizing last with
  | nil => rfl
  | cons a rest ih =>
    rw [takeRun]
    split
    · exact congrArg (a :: ·) (ih a)
    · rfl

theorem foldl_insertByBisection_perm (arranged left : List Subtitle) :
    (left.foldl insertByBisection arranged).Perm (arranged ++ left) := by
  induction left generalizing arranged with
  | nil => rw [List.append_nil]; exact .refl _
  | cons subtitle left ih =>
    exact (ih _).trans (((perm_insertAt _ subtitle arranged).append_right left).trans
      List.perm_middle.symm)

/-- Sorting only changes the order, even where starts are undefined. -/
theorem sorted_perm (subtitles : List Subtitle) : (sorted subtitles).Perm subtitles := by
  rw [sorted]
  split
  · unfold arrangedByBisection
    split
    · rename_i a b rest
      split <;> refine (foldl_insertByBisection_perm _ _).trans ?_
      · refine ((List.reverse_perm _).append_right _).trans (.of_eq ?_)
        simp only [List.cons_append, takeRun_append]
      · refine .of_eq ?_
        simp only [List.cons_append, takeRun_append]
    · exact .refl _
  · exact List.mergeSort_perm _ _

theorem sorted_ne_nil {subtitles : List Subtitle} (h : subtitles ≠ []) : sorted subtitles ≠ [] :=
  fun hnil ↦ h (List.nil_perm.mp (hnil ▸ sorted_perm subtitles))

theorem rank_le_trans (a b c : Subtitle) (hab : decide (a.start.rank ≤ b.start.rank) = true)
    (hbc : decide (b.start.rank ≤ c.start.rank) = true) :
    decide (a.start.rank ≤ c.start.rank) = true :=
  decide_eq_true ((of_decide_eq_true hab).trans (of_decide_eq_true hbc))

theorem rank_le_total (a b : Subtitle) :
    (decide (a.start.rank ≤ b.start.rank) || decide (b.start.rank ≤ a.start.rank)) = true := by
  rw [Bool.or_eq_true, decide_eq_true_iff, decide_eq_true_iff]
  exact le_total _ _

/-- **Sorting puts the starts in order.** -/
theorem sorted_isRising {subtitles : List Subtitle}
    (defined : ∀ subtitle ∈ subtitles, subtitle.start ≠ .undefined) :
    IsRising (sorted subtitles) := by
  have hdefined : ∀ subtitle ∈ sorted subtitles, subtitle.start ≠ .undefined :=
    fun subtitle h ↦ defined subtitle ((sorted_perm subtitles).mem_iff.mp h)
  refine ⟨hdefined, ?_⟩
  have hpairs : (sorted subtitles).Pairwise fun a b ↦ a.start.rank ≤ b.start.rank := by
    rw [sorted_eq_mergeSort defined]
    exact (List.pairwise_mergeSort rank_le_trans rank_le_total subtitles).imp
      fun h ↦ of_decide_eq_true h
  refine hpairs.imp_of_mem fun {a b} ha hb h ↦ ?_
  exact (Quantity.le_iff (hdefined a ha) (hdefined b hb)).mpr h

/-- Subtitles whose starts rise are in order. -/
theorem sorted_of_isRising {subtitles : List Subtitle} (rising : IsRising subtitles) :
    sorted subtitles = subtitles := by
  rw [sorted_eq_mergeSort rising.defined]
  refine List.mergeSort_of_pairwise (rising.pairwise.imp_of_mem fun {a b} ha hb h ↦ ?_)
  exact decide_eq_true ((Quantity.le_iff (rising.defined a ha) (rising.defined b hb)).mp h)

/-- What is left of sorted subtitles is what is left of the subtitles, sorted. -/
theorem sorted_filter {subtitles : List Subtitle}
    (defined : ∀ subtitle ∈ subtitles, subtitle.start ≠ .undefined) (keep : Subtitle → Bool) :
    (sorted subtitles).filter keep = sorted (subtitles.filter keep) := by
  rw [sorted_eq_mergeSort defined, filter_mergeSort rank_le_trans rank_le_total,
    sorted_eq_mergeSort fun subtitle h ↦ defined subtitle (List.mem_of_mem_filter h)]

/-- What is in order stays as it is. -/
theorem inOrder_inOrder {subtitles : List Subtitle}
    (defined : ∀ subtitle ∈ subtitles, subtitle.start ≠ .undefined) :
    inOrder (inOrder subtitles) = inOrder subtitles := by
  rw [inOrder, inOrder, sorted_of_isRising (isRising_numbered.mpr (sorted_isRising defined)),
    numbered_of_isNumbered (numbered_isNumbered _)]

/-- **Subtitles of which no two start together have one order**, however they come in. -/
theorem sorted_eq_of_perm {subtitles other : List Subtitle}
    (defined : ∀ subtitle ∈ subtitles, subtitle.start ≠ .undefined)
    (distinct : subtitles.Pairwise fun a b ↦ a.start.eq b.start = false)
    (h : other.Perm subtitles) : sorted other = sorted subtitles := by
  have hsymmetric : Std.Symm fun a b : Subtitle ↦ a.start.eq b.start = false :=
    ⟨fun a b hne ↦ by rwa [Quantity.eq_swap]⟩
  have hother : (sorted other).Perm subtitles := (sorted_perm other).trans h
  refine List.Perm.eq_of_pairwise (fun a b ha hb hab hba ↦ ?_)
    (sorted_isRising fun subtitle hsubtitle ↦ defined subtitle (h.subset hsubtitle)).pairwise
    (sorted_isRising defined).pairwise (hother.trans (sorted_perm subtitles).symm)
  by_contra hne
  have := distinct.forall (hother.subset ha) ((sorted_perm subtitles).subset hb) hne
  rw [Quantity.eq_of_le_of_le hab hba] at this
  cases this

/-- A run ends where something does not follow. -/
theorem takeRun_of_pairwise {α : Type} {follows : α → α → Bool} {last : α} {items : List α}
    (h : (last :: items).Pairwise fun a b ↦ follows a b = true) :
    takeRun follows last items = (items, []) := by
  induction items generalizing last with
  | nil => rfl
  | cons a rest ih =>
    rw [List.pairwise_cons] at h
    rw [takeRun, if_pos (h.1 a List.mem_cons_self), ih h.2]

/-- Subtitles of which none starts before an earlier one stay where they are, also if some of them
have no start. -/
theorem sorted_of_pairwise {subtitles : List Subtitle}
    (h : subtitles.Pairwise fun a b ↦ b.isBefore a = false) : sorted subtitles = subtitles := by
  have hfollows : subtitles.Pairwise fun a b ↦ (!b.isBefore a) = true :=
    h.imp fun hab ↦ by rw [hab]; rfl
  rw [sorted]
  split
  · unfold arrangedByBisection
    split
    · rename_i a b rest _
      rw [List.pairwise_cons] at h hfollows
      rw [h.1 b List.mem_cons_self, if_neg Bool.false_ne_true, takeRun_of_pairwise hfollows.2]
      rfl
    · rfl
  · exact List.mergeSort_of_pairwise hfollows

/-- The subtitle at a place of a list, named by a word and its index. -/
def renumbered (word : String) (place : Nat) (subtitle : Subtitle) : Subtitle :=
  { subtitle with id := word ++ "_" ++ toString (place + 1), index := place + 1 }

/-- Subtitles whose starts rise are only numbered and named. -/
theorem named_inOrder_of_isRising (word : String) {subtitles : List Subtitle}
    (rising : IsRising subtitles) :
    named word (inOrder subtitles) = subtitles.mapIdx (renumbered word) := by
  rw [inOrder, sorted_of_isRising rising]
  refine List.ext_getElem (by simp [named, numbered]) fun place hleft hright ↦ ?_
  simp [named, numbered, renumbered]
  rfl

/-- **Subtitles that are sorted, numbered and given names are in order.** -/
theorem inOrder_withNames (name : Subtitle → String) {subtitles : List Subtitle}
    (defined : ∀ subtitle ∈ subtitles, subtitle.start ≠ .undefined) :
    IsRising ((inOrder subtitles).map fun subtitle ↦ { subtitle with id := name subtitle }) ∧
      IsNumbered
        ((inOrder subtitles).map fun subtitle ↦ { subtitle with id := name subtitle }) := by
  constructor
  · rw [isRising_iff, List.map_map]
    exact isRising_iff.mp (isRising_numbered.mpr (sorted_isRising defined))
  · intro place hplace
    have hnumber := numbered_isNumbered (sorted subtitles) place (by simpa [inOrder] using hplace)
    simpa [inOrder] using hnumber

/-- Sorting, numbering and giving names change names and indices alone. -/
theorem exists_of_mem_withNames {name : Subtitle → String} {subtitles : List Subtitle}
    {subtitle : Subtitle}
    (h : subtitle ∈ (inOrder subtitles).map fun subtitle ↦ { subtitle with id := name subtitle }) :
    ∃ found ∈ subtitles, ∃ id index, subtitle = { found with id, index } := by
  obtain ⟨numbered, hnumbered, rfl⟩ := List.mem_map.mp h
  obtain ⟨found, hfound, index, rfl⟩ := exists_of_mem_numbered hnumbered
  exact ⟨found, (sorted_perm subtitles).subset hfound, _, index, rfl⟩

/-- Names that are made of a word and the index are names. -/
theorem named_inOrder_isRising (word : String) {subtitles : List Subtitle}
    (defined : ∀ subtitle ∈ subtitles, subtitle.start ≠ .undefined) :
    IsRising (named word (inOrder subtitles)) ∧ IsNumbered (named word (inOrder subtitles)) :=
  inOrder_withNames (fun subtitle ↦ word ++ "_" ++ toString subtitle.index) defined

theorem exists_of_mem_named_inOrder {word : String} {subtitles : List Subtitle} {subtitle : Subtitle}
    (h : subtitle ∈ named word (inOrder subtitles)) :
    ∃ found ∈ subtitles, ∃ id index, subtitle = { found with id, index } :=
  exists_of_mem_withNames h

/-- Reading subtitles back drops at most the signs of their starts, which leaves starts that rise as
they are. -/
theorem IsRising.of_unsigned {subtitles reread : List Subtitle} (rising : IsRising subtitles)
    (hstarts : reread.map start = subtitles.map (·.start.unsigned)) : IsRising reread := by
  rw [isRising_iff, hstarts, List.forall_mem_map, List.pairwise_map]
  refine ⟨fun subtitle h heq ↦ ?_, rising.pairwise.imp fun h ↦ ?_⟩
  · exact rising.defined subtitle h (Quantity.unsigned_eq_undefined.mp heq)
  · rwa [Quantity.unsigned_le]

/-- Subtitles that all start at a time are sorted by merging. -/
theorem sorted_of_defined {subtitles : List Subtitle}
    (defined : ∀ subtitle ∈ subtitles, subtitle.start ≠ .undefined) :
    sorted subtitles = subtitles.mergeSort fun a b ↦ !b.start.lt a.start := by
  rw [sorted, if_neg (by simpa using defined)]
  rfl

/-! ## Insertion -/

/-- The list `after` is the list `before` with a subtitle put behind all that start at its start or
before, in front of all that start later, and with indices from one. -/
def IsInsertion (subtitle : Subtitle) (before after : List Subtitle) : Prop :=
  subtitle ∈ after ∧ ∃ front back, before = front ++ back ∧
    after = numbered (front ++ subtitle :: back) ∧
    (∀ other ∈ front, other.start.le subtitle.start = true) ∧
    ∀ other ∈ back, subtitle.start.lt other.start = true

theorem mem_numbered_append_cons (front back : List Subtitle) (subtitle : Subtitle) :
    { subtitle with index := (front.length : Int) + 1 } ∈ numbered (front ++ subtitle :: back) :=
  List.mem_mapIdx.mpr ⟨front.length, by simp, by simp⟩

/-- The index that a subtitle came with does not matter to numbering. -/
theorem numbered_index (front back : List Subtitle) (subtitle : Subtitle) (index : Int) :
    numbered (front ++ { subtitle with index } :: back) = numbered (front ++ subtitle :: back) := by
  simp only [numbered, List.mapIdx_append, List.mapIdx_cons]

/-- **Bisection puts a subtitle behind all that do not start after it.** -/
theorem isInsertion_of_bisect {entries : List Subtitle} {subtitle : Subtitle} {place : Nat}
    (rising : IsRising entries) (defined : subtitle.start ≠ .undefined)
    (hplace : place = bisect (fun entry ↦ subtitle.start.lt entry.start) entries 0 entries.length) :
    IsInsertion { subtitle with index := (place : Int) + 1 } entries
      (numbered (insertAt place subtitle entries)) := by
  have split : IsSplit (fun entry ↦ subtitle.start.lt entry.start) entries :=
    rising.pairwise.imp fun hle hlt ↦ Quantity.lt_of_lt_of_le hlt hle
  obtain ⟨front, back⟩ := hplace ▸ bisect_isPlace split
  have hlength : place ≤ entries.length := hplace ▸ bisect_le (Nat.zero_le _)
  refine ⟨?_, entries.take place, entries.drop place, (List.take_append_drop _ _).symm, ?_, ?_,
    back⟩
  · have := mem_numbered_append_cons (entries.take place) (entries.drop place) subtitle
    rw [List.length_take_of_le hlength] at this
    exact this
  · rw [numbered_index, insertAt]
  · intro other hother
    exact (Quantity.lt_eq_false defined (rising.defined other (List.mem_of_mem_take hother))).mp
      (front other hother)

namespace IsInsertion

variable {subtitle : Subtitle} {before after : List Subtitle}

theorem isNumbered (h : IsInsertion subtitle before after) : IsNumbered after := by
  obtain ⟨-, front, back, -, rfl, -, -⟩ := h
  exact numbered_isNumbered _

/-- **An insertion keeps the order.** -/
theorem isRising (h : IsInsertion subtitle before after) (defined : subtitle.start ≠ .undefined)
    (rising : IsRising before) : IsRising after := by
  obtain ⟨-, front, back, rfl, rfl, hfront, hback⟩ := h
  rw [isRising_numbered]
  constructor
  · intro other hother
    rcases List.mem_append.mp hother with hother | hother
    · exact rising.defined other (List.mem_append_left _ hother)
    rcases List.mem_cons.mp hother with rfl | hother
    · exact defined
    · exact rising.defined other (List.mem_append_right _ hother)
  · have hpairs : (insertAt front.length subtitle (front ++ back)).Pairwise
        fun a b ↦ a.start.le b.start = true := by
      refine pairwise_insertAt rising.pairwise (by simpa using hfront) ?_
      simpa using fun other hother ↦ Quantity.le_of_lt (hback other hother)
    simpa [insertAt] using hpairs

theorem map_id_perm (h : IsInsertion subtitle before after) :
    (after.map id).Perm (subtitle.id :: before.map id) := by
  obtain ⟨-, front, back, rfl, rfl, -, -⟩ := h
  rw [map_id_numbered, List.map_append, List.map_append, List.map_cons]
  exact List.perm_middle

end IsInsertion
end Subtitle
end Montage
