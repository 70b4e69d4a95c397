import Montage.Proofs.Subtitle.Order
import Montage.Subtitle.Format
import Montage.Subtitle.Validation

/-!
# Subtitles under other names

Nothing that is done with subtitles looks at their names: subtitles under other names go in the same
order, are written alike in every format that leaves the names out, and are found to have the same
faults.  So it is with whatever else is kept of a subtitle but its start, as far as the order goes
(`Subtitle.sorted_map`).
-/

set_option autoImplicit false

namespace Montage

/-! ## Lists under a function -/

section

variable {α β : Type} (f : α → β)

theorem bisect_map (isBehind : β → Bool) (items : List α) (low high : Nat) :
    bisect isBehind (items.map f) low high = bisect (fun a ↦ isBehind (f a)) items low high := by
  fun_induction bisect (fun a ↦ isBehind (f a)) items low high with
  | case1 low high hlt middle hbehind ih =>
    rw [bisect, if_pos hlt]
    dsimp only
    rw [List.getElem?_map, Option.any_map]
    exact (if_pos hbehind).trans ih
  | case2 low high hlt middle hbefore ih =>
    rw [bisect, if_pos hlt]
    dsimp only
    rw [List.getElem?_map, Option.any_map]
    exact (if_neg hbefore).trans ih
  | case3 low high hge => rw [bisect, if_neg hge]

theorem insertAt_map (place : Nat) (a : α) (items : List α) :
    insertAt place (f a) (items.map f) = (insertAt place a items).map f := by
  rw [insertAt, insertAt, List.map_append, List.map_cons, List.map_take, List.map_drop]

theorem takeRun_map (follows : β → β → Bool) (last : α) (items : List α) :
    takeRun follows (f last) (items.map f) =
      ((takeRun (fun a b ↦ follows (f a) (f b)) last items).1.map f,
        (takeRun (fun a b ↦ follows (f a) (f b)) last items).2.map f) := by
  induction items generalizing last with
  | nil => rfl
  | cons a rest ih =>
    rw [List.map_cons, takeRun, takeRun, ih]
    split <;> rfl

end

namespace Subtitle

/-! ## Order -/

section

variable {f : Subtitle → Subtitle} (hstart : ∀ subtitle, (f subtitle).start = subtitle.start)

include hstart

theorem isBefore_map (a b : Subtitle) : (f a).isBefore (f b) = a.isBefore b := by
  rw [isBefore, hstart, hstart, isBefore]

theorem foldl_insertByBisection_map (arranged left : List Subtitle) :
    (left.map f).foldl insertByBisection (arranged.map f) =
      (left.foldl insertByBisection arranged).map f := by
  induction left generalizing arranged with
  | nil => rfl
  | cons subtitle left ih =>
    rw [List.map_cons, List.foldl_cons, List.foldl_cons, ← ih]
    refine congrArg (List.foldl insertByBisection · (left.map f)) ?_
    simp only [insertByBisection, bisect_map, isBefore_map hstart, List.length_map, insertAt_map]

theorem arrangedByBisection_map (subtitles : List Subtitle) :
    arrangedByBisection (subtitles.map f) = (arrangedByBisection subtitles).map f := by
  match subtitles with
  | [] => rfl
  | [_] => rfl
  | a :: b :: rest =>
    simp only [List.map_cons, arrangedByBisection, isBefore_map hstart, takeRun_map]
    split
    · rw [← foldl_insertByBisection_map hstart, List.map_reverse, List.map_cons, List.map_cons]
    · rw [← foldl_insertByBisection_map hstart, List.map_cons, List.map_cons]

/-- A function that leaves the starts can be applied before or after sorting. -/
theorem sorted_map (subtitles : List Subtitle) :
    sorted (subtitles.map f) = (sorted subtitles).map f := by
  simp only [sorted, List.any_map, Function.comp_def, hstart]
  split
  · exact arrangedByBisection_map hstart subtitles
  · refine (List.map_mergeSort fun a _ b _ ↦ ?_).symm
    rw [isBefore_map hstart]

end

/-! ## Names -/

/-- The subtitle under the name that its own is changed to. -/
def renamed (rename : String → String) (subtitle : Subtitle) : Subtitle :=
  { subtitle with id := rename subtitle.id }

/-- The subtitle under a name. -/
def called (id : String) (subtitle : Subtitle) : Subtitle := { subtitle with id }

/-- The subtitle at a place. -/
def indexed (index : Int) (subtitle : Subtitle) : Subtitle := { subtitle with index }

/-- A subtitle whose index tells it from the others can be left out by that index. -/
theorem filter_index_ne {front back : List Subtitle} {subtitle : Subtitle}
    (hothers : ∀ other ∈ front ++ back, other.index ≠ subtitle.index) :
    (front ++ subtitle :: back).filter (fun other ↦ other.index ≠ subtitle.index) =
      front ++ back := by
  rw [List.filter_append, List.filter_cons_of_neg (by simp), ← List.filter_append]
  exact List.filter_eq_self.mpr fun other hother ↦ decide_eq_true (hothers other hother)

/-- A subtitle whose index tells it from the others is sorted to the same place under every name, and
without it the others are sorted as they are with it. -/
theorem exists_sorted_called {front back : List Subtitle} {subtitle : Subtitle}
    (hothers : ∀ other ∈ front ++ back, other.index ≠ subtitle.index) :
    ∃ before after, (∀ id, sorted (front ++ subtitle.called id :: back)
      = before ++ subtitle.called id :: after) ∧
      ((∀ other ∈ front ++ subtitle :: back, other.start ≠ .undefined) →
        sorted (front ++ back) = before ++ after) := by
  let rename (id : String) (other : Subtitle) : Subtitle :=
    if other.index = subtitle.index then other.called id else other
  have hkept (id : String) {others : List Subtitle} (h : ∀ other ∈ others, other ∈ front ++ back) :
      others.map (rename id) = others := by
    conv_rhs => rw [← List.map_id others]
    exact List.map_congr_left fun other hother ↦ if_neg (hothers other (h other hother))
  have hself (id : String) : rename id subtitle = subtitle.called id := if_pos rfl
  have hstart (id : String) (other : Subtitle) : (rename id other).start = other.start := by
    dsimp only [rename]
    split <;> rfl
  have hperm := sorted_perm (front ++ subtitle :: back)
  obtain ⟨before, after, hsplit⟩ := List.append_of_mem
    (hperm.mem_iff.mpr (List.mem_append_right front List.mem_cons_self))
  have hrest : (before ++ after).Perm (front ++ back) :=
    ((List.perm_middle.symm.trans (hsplit ▸ hperm)).trans List.perm_middle).cons_inv
  refine ⟨before, after, fun id ↦ ?_, fun defined ↦ ?_⟩
  · have hsorted := sorted_map (hstart id) (front ++ subtitle :: back)
    rw [hsplit, List.map_append, List.map_append, List.map_cons, List.map_cons, hself,
      hkept id fun other hother ↦ List.mem_append_left _ hother,
      hkept id fun other hother ↦ List.mem_append_right _ hother,
      hkept id fun other hother ↦ hrest.mem_iff.mp (List.mem_append_left _ hother),
      hkept id fun other hother ↦ hrest.mem_iff.mp (List.mem_append_right _ hother)] at hsorted
    exact hsorted
  · have hfilter := sorted_filter defined fun other ↦ other.index ≠ subtitle.index
    rw [hsplit, filter_index_ne hothers,
      filter_index_ne fun other hother ↦ hothers other (hrest.mem_iff.mp hother)] at hfilter
    exact hfilter.symm

/-- What the indices were does not matter for the order. -/
theorem inOrder_map_indexed (index : Int) (subtitles : List Subtitle) :
    inOrder (subtitles.map (indexed index)) = inOrder subtitles := by
  rw [inOrder, sorted_map (f := indexed index) (fun _ ↦ rfl), inOrder]
  refine List.ext_getElem (by simp [numbered]) fun place hplace hplace' ↦ ?_
  simp [numbered, indexed]

/-- The subtitle one place further up. -/
def raised (subtitle : Subtitle) : Subtitle := subtitle.indexed (subtitle.index - 1)

/-- **A subtitle stands at the same place under every name**, and so do the others; without it, those
behind it stand one place further up. -/
theorem exists_inOrder_called (front back : List Subtitle) (subtitle : Subtitle) :
    ∃ before after index, (∀ id, inOrder (front ++ subtitle.called id :: back)
      = before ++ (subtitle.indexed index).called id :: after) ∧
      ((∀ other ∈ front ++ subtitle :: back, other.start ≠ .undefined) →
        inOrder (front ++ back) = before ++ after.map raised) := by
  have hothers : ∀ other ∈ front.map (indexed 0) ++ back.map (indexed 0),
      other.index ≠ (subtitle.indexed 1).index := by
    simp only [List.forall_mem_append, List.forall_mem_map]
    exact ⟨fun _ _ ↦ Int.zero_ne_one, fun _ _ ↦ Int.zero_ne_one⟩
  obtain ⟨before, after, hsorted, hwithout⟩ := exists_sorted_called hothers
  have hmarked (id : String) : inOrder (front ++ subtitle.called id :: back)
      = numbered (before ++ (subtitle.indexed 1).called id :: after) := by
    have hindexed (others : List Subtitle) :
        (others.map (indexed 0)).map (indexed 0) = others.map (indexed 0) := by
      rw [List.map_map]
      rfl
    rw [← hsorted, ← inOrder, ← inOrder_map_indexed 0, ← inOrder_map_indexed 0 (_ ++ _),
      List.map_append, List.map_append, List.map_cons, List.map_cons, hindexed, hindexed]
    rfl
  refine ⟨numbered before, after.mapIdx fun place other ↦
    other.indexed ((place + 1 + before.length : Nat) + 1), (before.length : Int) + 1, fun id ↦ ?_,
    fun defined ↦ ?_⟩
  · rw [hmarked, numbered, List.mapIdx_append, List.mapIdx_cons]
    simp [numbered, indexed, called]
  · have hdefined : ∀ other ∈ front.map (indexed 0) ++ subtitle.indexed 1 :: back.map (indexed 0),
        other.start ≠ .undefined := by
      simp only [List.forall_mem_append, List.forall_mem_cons, List.forall_mem_map] at defined ⊢
      exact defined
    rw [← inOrder_map_indexed 0, List.map_append, inOrder, hwithout hdefined, numbered,
      List.mapIdx_append, numbered]
    congr 1
    refine List.ext_getElem (by simp) fun place hplace hplace' ↦ ?_
    simp [indexed, raised]
    omega

variable (rename : String → String) (subtitles : List Subtitle)

theorem sorted_renamed :
    sorted (subtitles.map (renamed rename)) = (sorted subtitles).map (renamed rename) :=
  sorted_map (f := renamed rename) (fun _ ↦ rfl) subtitles

theorem numbered_renamed :
    numbered (subtitles.map (renamed rename)) = (numbered subtitles).map (renamed rename) := by
  rw [numbered, numbered, List.mapIdx_eq_zipIdx_map, List.mapIdx_eq_zipIdx_map, List.zipIdx_map,
    List.map_map, List.map_map]
  rfl

theorem inOrder_renamed :
    inOrder (subtitles.map (renamed rename)) = (inOrder subtitles).map (renamed rename) := by
  rw [inOrder, sorted_renamed, numbered_renamed, inOrder]

theorem renamed_of_fixed {subtitles : List Subtitle}
    (fixed : ∀ subtitle ∈ subtitles, rename subtitle.id = subtitle.id) :
    subtitles.map (renamed rename) = subtitles := by
  refine (List.map_congr_left fun subtitle h ↦ ?_).trans (List.map_id' subtitles)
  rw [renamed, fixed subtitle h]

/-! ## Checks -/

variable [Rounding]

theorem findingsFrom_renamed (threshold : Number) (place : Nat) (previous : Option Subtitle) :
    findingsFrom threshold place (previous.map (renamed rename)) (subtitles.map (renamed rename)) =
      findingsFrom threshold place previous subtitles := by
  induction subtitles generalizing place previous with
  | nil => rfl
  | cons subtitle rest ih =>
    have hfindings : (subtitle.renamed rename).findings threshold (previous.map (renamed rename)) =
        subtitle.findings threshold previous := by
      cases previous <;> rfl
    rw [List.map_cons, findingsFrom, findingsFrom, hfindings]
    exact congrArg _ (ih (place + 1) (some subtitle))

theorem totalLength_renamed : totalLength (subtitles.map (renamed rename)) = totalLength subtitles := by
  rw [totalLength, List.filter_map, List.foldl_map]
  rfl

theorem validate_renamed (threshold : Number) :
    validate (subtitles.map (renamed rename)) threshold = validate subtitles threshold := by
  have hfound := findingsFrom_renamed rename (sorted subtitles) threshold 1 none
  rw [Option.map_none] at hfound
  simp only [validate, sorted_renamed, hfound, totalLength_renamed, List.length_map,
    List.isEmpty_map]

end Subtitle

/-! ## Documents -/

section

variable [Rounding] (rename : String → String) (subtitles : List Subtitle)

theorem Srt.blocks_renamed (options : WriteOptions) (number : Nat) :
    Srt.blocks options number (subtitles.map (Subtitle.renamed rename)) =
      Srt.blocks options number subtitles := by
  induction subtitles generalizing number with
  | nil => rfl
  | cons subtitle rest ih =>
    rw [List.map_cons, Srt.blocks, Srt.blocks, ih]
    rfl

theorem Vtt.cueTexts_renamed (options : WriteOptions) (number : Nat) :
    Vtt.cueTexts options number (subtitles.map (Subtitle.renamed rename)) =
      Vtt.cueTexts options number subtitles := by
  induction subtitles generalizing number with
  | nil => rfl
  | cons subtitle rest ih =>
    rw [List.map_cons, Vtt.cueTexts, Vtt.cueTexts, ih]
    rfl

theorem Script.write_renamed (heading : Script.Heading) (lineEnding : LineEnding) :
    Script.write heading lineEnding (subtitles.map (Subtitle.renamed rename)) =
      Script.write heading lineEnding subtitles := by
  rw [Script.write, Subtitle.sorted_renamed, List.mapM_map]
  rfl

/-- No document but one in JSON holds the names of subtitles. -/
theorem SubtitleFormat.write_renamed {format : SubtitleFormat} (hformat : format ≠ .json)
    (options : Option WriteOptions) (heading : Script.Heading) :
    format.write options heading (subtitles.map (Subtitle.renamed rename)) =
      format.write options heading subtitles := by
  cases format with
  | srt => rw [write, write, Srt.write, Srt.write, Subtitle.sorted_renamed, Srt.blocks_renamed]
  | vtt => rw [write, write, Vtt.write, Vtt.write, Subtitle.sorted_renamed, Vtt.cueTexts_renamed]
  | ass => rw [write, write, Script.write_renamed]
  | json => exact absurd rfl hformat

end
end Montage
