import Montage.Proofs.Subtitle.Block
import Montage.Proofs.Text.Words

/-!
# Blocks are paragraphs of lines

A paragraph is a run of lines of which none is blank.  The blocks of a text that opens and ends solid
are its paragraphs (`lines_blocksOf_cons`), whatever blank lines stand between them; so a document that is
put together from texts with an empty line behind each has the paragraphs of the texts, one text
after the other (`lines_blocksOf`).  A text that has a blank line somewhere inside falls apart.

Blanks at the ends of lines do not matter here, and the last line of a document is read without them.
What is said of lines is therefore said of trimmed lines.
-/

set_option autoImplicit false

namespace Montage

/-! ## Paragraphs -/

/-- A line that is not blank. -/
def isInked (line : List Char) : Bool := !line.all isBlank

theorem isInked_trimFront (line : List Char) : isInked (trimFront line) = isInked line := by
  rw [isInked, isInked, all_isBlank_trimFront]

theorem isInked_trimBack (line : List Char) : isInked (trimBack line) = isInked line := by
  rw [isInked, isInked, all_isBlank_trimBack]

theorem map_takeWhile_isInked (lines : List (List Char)) :
    (lines.takeWhile isInked).map trimBack = (lines.map trimBack).takeWhile isInked := by
  have hcomp : isInked ∘ trimBack = isInked := funext isInked_trimBack
  rw [List.takeWhile_map, hcomp]

/-- Blank lines do not go on a paragraph. -/
theorem takeWhile_isInked_append {gap : List (List Char)} (hgap : ∀ line ∈ gap, isInked line = false)
    (lines : List (List Char)) : (lines ++ gap).takeWhile isInked = lines.takeWhile isInked := by
  have hnone : gap.takeWhile isInked = [] := by
    cases gap with
    | nil => rfl
    | cons line gap => exact List.takeWhile_cons_of_neg (by simp [hgap line List.mem_cons_self])
  rw [List.takeWhile_append, hnone, List.append_nil]
  split
  case isTrue h => exact ((List.takeWhile_prefix isInked).eq_of_length h).symm
  case isFalse => rfl

/-- The runs of lines that are not blank. -/
def paragraphs (lines : List (List Char)) : List (List (List Char)) :=
  (lines.splitOnP (·.all isBlank)).filter (· ≠ [])

section

variable {line : List Char} {lines front back : List (List Char)}

theorem paragraphs_nil : paragraphs [] = [] := rfl

theorem paragraphs_append_blank (h : line.all isBlank = true) (front back : List (List Char)) :
    paragraphs (front ++ line :: back) = paragraphs front ++ paragraphs back := by
  rw [paragraphs, @List.splitOnP_append_cons _ (fun line ↦ line.all isBlank) front back line h,
    List.filter_append]
  rfl

theorem paragraphs_blank (h : line.all isBlank = true) (lines : List (List Char)) :
    paragraphs (line :: lines) = paragraphs lines :=
  paragraphs_append_blank h [] lines

theorem paragraphs_of_inked (hne : lines ≠ []) (h : ∀ line ∈ lines, isInked line = true) :
    paragraphs lines = [lines] := by
  rw [paragraphs, List.splitOnP_eq_singleton fun line hline ↦ by simpa [isInked] using h line hline,
    List.filter_cons_of_pos (by simpa using hne), List.filter_nil]

/-- **A paragraph ends with the first blank line.** -/
theorem paragraphs_cons (h : isInked line = true) (lines : List (List Char)) :
    paragraphs (line :: lines) =
      (line :: lines.takeWhile isInked) :: paragraphs (lines.dropWhile isInked) := by
  have hinked : ∀ l ∈ line :: lines.takeWhile isInked, isInked l = true :=
    List.forall_mem_cons.mpr ⟨h, fun l hl ↦ List.mem_takeWhile_imp hl⟩
  have hlines : line :: lines = line :: lines.takeWhile isInked ++ lines.dropWhile isInked := by
    rw [List.cons_append, List.takeWhile_append_dropWhile]
  rw [hlines]
  cases hrest : lines.dropWhile isInked with
  | nil => rw [List.append_nil, paragraphs_of_inked (List.cons_ne_nil _ _) hinked, paragraphs_nil]
  | cons next rest =>
    have hnext : next.all isBlank = true := by
      have hhead := List.head?_dropWhile_not isInked lines
      rw [hrest] at hhead
      simpa [isInked] using hhead
    rw [paragraphs_append_blank hnext, paragraphs_of_inked (List.cons_ne_nil _ _) hinked,
      paragraphs_blank hnext]
    rfl

/-- What holds without lines, is kept by a blank line in front, and by a paragraph in front of the
first blank line, holds of all lines. -/
@[elab_as_elim]
theorem paragraphs_induction {P : List (List Char) → Prop} (nil : P [])
    (blank : ∀ line lines, isInked line = false → P lines → P (line :: lines))
    (inked : ∀ line lines, isInked line = true → P (lines.dropWhile isInked) → P (line :: lines))
    (lines : List (List Char)) : P lines := by
  induction hlength : lines.length using Nat.strong_induction_on generalizing lines with
  | _ n ih =>
    cases lines with
    | nil => exact nil
    | cons line lines =>
      rw [List.length_cons] at hlength
      cases h : isInked line with
      | false => exact blank line lines h (ih lines.length (by omega) lines rfl)
      | true =>
        have hless := (List.dropWhile_suffix isInked (l := lines)).length_le
        exact inked line lines h (ih _ (by omega) _ rfl)

theorem all_isBlank_of_isInked (h : isInked line = false) : line.all isBlank = true := by
  simpa [isInked] using h

theorem paragraphs_eq_nil : paragraphs lines = [] ↔ ∀ line ∈ lines, isInked line = false := by
  induction lines using paragraphs_induction with
  | nil => exact iff_of_true rfl (by simp)
  | blank line lines h ih => rw [paragraphs_blank (all_isBlank_of_isInked h), ih, List.forall_mem_cons,
      and_iff_right h]
  | inked line lines h ih => simp [paragraphs_cons h, h]

theorem paragraphs_append_of_blank (h : ∀ line ∈ front, isInked line = false)
    (back : List (List Char)) : paragraphs (front ++ back) = paragraphs back := by
  induction front with
  | nil => rfl
  | cons line front ih =>
    rw [List.forall_mem_cons] at h
    rw [List.cons_append, paragraphs_blank (all_isBlank_of_isInked h.1), ih h.2]

theorem paragraphs_append_of_blank_back (h : ∀ line ∈ back, isInked line = false)
    (front : List (List Char)) : paragraphs (front ++ back) = paragraphs front := by
  cases back with
  | nil => rw [List.append_nil]
  | cons line back =>
    rw [List.forall_mem_cons] at h
    rw [paragraphs_append_blank (all_isBlank_of_isInked h.1), paragraphs_eq_nil.mpr h.2,
      List.append_nil]

/-- Trimming lines does not change where the paragraphs end. -/
theorem paragraphs_map_trimBack (lines : List (List Char)) :
    paragraphs (lines.map trimBack) = (paragraphs lines).map (List.map trimBack) := by
  have hcomp : isInked ∘ trimBack = isInked := funext isInked_trimBack
  induction lines using paragraphs_induction with
  | nil => rfl
  | blank line lines h ih =>
    have hblank := all_isBlank_of_isInked h
    rw [List.map_cons, paragraphs_blank (by rwa [all_isBlank_trimBack]), ih, paragraphs_blank hblank]
  | inked line lines h ih =>
    rw [List.map_cons, paragraphs_cons (by rwa [isInked_trimBack]), ← map_takeWhile_isInked,
      List.dropWhile_map, hcomp, ih, paragraphs_cons h]
    rfl

theorem ne_nil_of_mem_paragraphs {part : List (List Char)} (h : part ∈ paragraphs lines) : part ≠ [] := by
  simpa using (List.mem_filter.mp h).2

/-- Every line of a paragraph is one of the lines. -/
theorem mem_of_mem_paragraphs {part : List (List Char)} (h : part ∈ paragraphs lines) :
    ∀ line ∈ part, line ∈ lines := by
  induction lines using paragraphs_induction with
  | nil => cases h
  | blank line lines hline ih =>
    rw [paragraphs_blank (all_isBlank_of_isInked hline)] at h
    exact fun l hl ↦ List.mem_cons_of_mem _ (ih h l hl)
  | inked line lines hline ih =>
    rw [paragraphs_cons hline, List.mem_cons] at h
    rcases h with rfl | h
    · exact List.cons_subset_cons _ (List.takeWhile_prefix isInked).subset
    · exact fun l hl ↦ List.mem_cons_of_mem _ ((List.dropWhile_suffix isInked).subset (ih h l hl))

end

/-! ## Blocks -/

/-- A gap goes on up to the last line feed among its blanks. -/
theorem gapLength_append {gap s : List Char} (hgap : ∀ c ∈ gap, isBlank c = true)
    (hs : '\n' ∉ s.takeWhile isBlank) : gapLength (gap ++ '\n' :: s) = gap.length + 1 := by
  have hall : ∀ c ∈ (s.takeWhile isBlank).reverse, decide (c ≠ '\n') = true :=
    fun c hc ↦ decide_eq_true fun heq ↦ hs (heq ▸ List.mem_reverse.mp hc)
  rw [gapLength, List.takeWhile_append_of_pos hgap, List.takeWhile_cons_of_pos (by decide),
    List.reverse_append, List.reverse_cons, List.append_assoc, List.dropWhile_append_of_pos hall,
    List.singleton_append, List.dropWhile_cons_of_neg (by decide), List.length_cons,
    List.length_reverse]

/-- A gap ends a block. -/
theorem blocksFrom_gap {gap s : List Char} (hgap : ∀ c ∈ gap, isBlank c = true)
    (hs : '\n' ∉ s.takeWhile isBlank) :
    blocksFrom 0 ('\n' :: (gap ++ '\n' :: s)) = [] :: blocksFrom 0 s := by
  have hdrop : (gap ++ '\n' :: s).drop (gap.length + 1) = s := by
    rw [List.append_cons, List.drop_left' (by simp)]
  rw [blocksFrom, if_pos rfl, gapLength_append hgap hs, if_pos (Nat.succ_pos _), blocksFrom_eq_drop,
    hdrop]

theorem isGapless_joinWith {lines : List (List Char)} (hne : lines ≠ [])
    (hfeed : ∀ line ∈ lines, '\n' ∉ line) (hinked : ∀ line ∈ lines, isInked line = true) :
    IsGapless (joinWith ['\n'] lines) := by
  rw [IsGapless, linesOf, splitAll_joinWith hne hfeed]
  exact fun line hline ↦ by simpa [isInked] using hinked line hline

/-- What is joined of blank lines is blank. -/
theorem isBlank_of_mem_joinWith {lines : List (List Char)} (h : ∀ line ∈ lines, isInked line = false) :
    ∀ c ∈ joinWith ['\n'] lines, isBlank c = true := by
  intro c hc
  rcases mem_joinWith hc with hc | ⟨line, hline, hc⟩
  · rw [List.mem_singleton.mp hc]
    decide
  · exact List.all_eq_true.mp (all_isBlank_of_isInked (h line hline)) c hc

/-- Blank lines between others are a gap. -/
theorem blocksFrom_gapLines {gap lines : List (List Char)} (hgapne : gap ≠ [])
    (hgap : ∀ line ∈ gap, isInked line = false) {line : List Char} (hline : '\n' ∉ line)
    (hinked : isInked line = true) : blocksFrom 0
      (['\n'] ++ joinWith ['\n'] (gap ++ line :: lines)) =
        [] :: blocksFrom 0 (joinWith ['\n'] (line :: lines)) := by
  have hopens : '\n' ∉ (joinWith ['\n'] (line :: lines)).takeWhile isBlank := by
    rw [joinWith_cons, ← gapLength_eq_zero]
    exact gapLength_line hline (by simpa [isInked] using hinked) _
  rw [joinWith_append _ hgapne (List.cons_ne_nil _ _)]
  exact blocksFrom_gap (isBlank_of_mem_joinWith hgap) hopens

/-- Blank lines in front of the first one that is not. -/
theorem exists_gapLines {lines : List (List Char)} (h : ∃ line ∈ lines, isInked line = true) :
    ∃ gap line rest, lines = gap ++ line :: rest ∧ (∀ l ∈ gap, isInked l = false) ∧
      isInked line = true := by
  induction lines with
  | nil => simp at h
  | cons first lines ih =>
    cases hfirst : isInked first with
    | true => exact ⟨[], first, lines, rfl, by simp, hfirst⟩
    | false =>
      obtain ⟨gap, line, rest, rfl, hgap, hline⟩ := ih (by simpa [hfirst] using h)
      exact ⟨first :: gap, line, rest, rfl, List.forall_mem_cons.mpr ⟨hfirst, hgap⟩, hline⟩

/-- **The blocks of lines of which the first and the last one are not blank are their paragraphs.** -/
theorem blocksFrom_joinWith_lines {first : List Char} {others : List (List Char)}
    (hfeed : ∀ line ∈ first :: others, '\n' ∉ line) (hfirst : isInked first = true)
    (hlast : ∀ line ∈ (first :: others).getLast?, isInked line = true) :
    blocksFrom 0 (joinWith ['\n'] (first :: others)) =
      (paragraphs (first :: others)).map (joinWith ['\n']) := by
  induction hlength : others.length using Nat.strong_induction_on generalizing first others with
  | _ n ih =>
    subst hlength
    have hsplit : first :: others =
        (first :: others.takeWhile isInked) ++ others.dropWhile isInked := by
      rw [List.cons_append, List.takeWhile_append_dropWhile]
    have hinked : ∀ line ∈ first :: others.takeWhile isInked, isInked line = true :=
      List.forall_mem_cons.mpr ⟨hfirst, fun _ hl ↦ List.mem_takeWhile_imp hl⟩
    have hhead := List.head?_dropWhile_not isInked others
    have hless := (List.dropWhile_suffix isInked (l := others)).length_le
    rw [paragraphs_cons hfirst, List.map_cons]
    rw [hsplit] at hfeed hlast ⊢
    rw [List.forall_mem_append] at hfeed
    have hgapless := isGapless_joinWith (List.cons_ne_nil _ _) hfeed.1 hinked
    cases hrest : others.dropWhile isInked with
    | nil =>
      have := hgapless.blocksFrom_append (show blocksFrom 0 [] = [[]] from rfl)
      rwa [List.append_nil] at this ⊢
    | cons blank more =>
      rw [hrest] at hhead hfeed hlast hless
      rw [List.getLast?_append_of_ne_nil _ (List.cons_ne_nil _ _)] at hlast
      obtain ⟨gap, line, rest, hmore, hgap, hline⟩ := exists_gapLines
        ⟨_, List.getLast_mem (List.cons_ne_nil blank more), hlast _ (List.getLast?_eq_getLast_of_ne_nil _)⟩
      have hgapne : gap ≠ [] := by
        rintro rfl
        obtain ⟨rfl, -⟩ := List.cons.inj hmore
        rw [List.head?_cons] at hhead
        exact absurd (hline.symm.trans hhead) (by decide)
      rw [hmore] at hfeed hlast hless ⊢
      rw [List.getLast?_append_of_ne_nil _ (List.cons_ne_nil _ _)] at hlast
      have hfeed' := (List.forall_mem_append.mp hfeed.2).2
      have hrec := ih rest.length (by simp at hless; omega) hfeed' hline hlast rfl
      have hgaplines := @blocksFrom_gapLines gap rest hgapne hgap line
        (hfeed' line List.mem_cons_self) hline
      rw [joinWith_append _ (List.cons_ne_nil _ _) (by simp), hgapless.blocksFrom_append hgaplines,
        hrec, paragraphs_append_of_blank hgap]

/-! ## Documents -/

/-- Blank lines in front of lines go as blanks do. -/
theorem trimFront_joinWith {gap lines : List (List Char)} (hgap : ∀ line ∈ gap, isInked line = false)
    {first : List Char} (hfirst : isInked first = true) :
    trimFront (joinWith ['\n'] (gap ++ first :: lines))
      = joinWith ['\n'] (trimFront first :: lines) := by
  have hsome : first.all isBlank = false := by simpa [isInked] using hfirst
  have hopen : trimFront (joinWith ['\n'] (first :: lines))
      = joinWith ['\n'] (trimFront first :: lines) := by
    rw [joinWith_cons, joinWith_cons, trimFront_append_of_some hsome]
  by_cases hnil : gap = []
  · rw [hnil, List.nil_append, hopen]
  · rw [joinWith_append _ hnil (List.cons_ne_nil _ _), trimFront,
      List.dropWhile_append_of_pos (isBlank_of_mem_joinWith hgap), List.singleton_append,
      List.dropWhile_cons_of_pos (by decide), ← trimFront, hopen]

/-- Blank lines behind lines go as blanks do. -/
theorem trimBack_joinWith_lines {gap : List (List Char)} (hgap : ∀ line ∈ gap, isInked line = false)
    {last : List Char} (hlast : isInked last = true) (lines : List (List Char)) :
    trimBack (joinWith ['\n'] (lines ++ last :: gap)) = joinWith ['\n'] (lines ++ [trimBack last]) := by
  have hsome : last.all isBlank = false := by simpa [isInked] using hlast
  have hclose : trimBack (joinWith ['\n'] (lines ++ [last]))
      = joinWith ['\n'] (lines ++ [trimBack last]) := by
    have hjoin (line : List Char) :
        joinWith ['\n'] (lines ++ [line]) = joinWith ['\n'] (lines ++ [[]]) ++ line :=
      joinWith_concat ['\n'] lines [] line
    rw [hjoin last, hjoin (trimBack last), trimBack_append hsome]
  rw [List.append_cons]
  by_cases hnil : gap = []
  · rw [hnil, List.append_nil, hclose]
  · rw [joinWith_append _ (by simp) hnil, trimBack_append_blank, hclose]
    rw [List.singleton_append, List.forall_mem_cons]
    exact ⟨by decide, isBlank_of_mem_joinWith hgap⟩

/-- **The blocks of a document are the paragraphs of its lines**, the first line being trimmed in front
and the last one at its end. -/
theorem blocksOf_lines {content : String} {gap gap' middle : List (List Char)}
    {first last : List Char}
    (hlines : linesOf (normalizeText content.toList) = gap ++ first :: (middle ++ last :: gap'))
    (hgap : ∀ line ∈ gap, isInked line = false) (hfirst : isInked first = true)
    (hlast : isInked last = true) (hgap' : ∀ line ∈ gap', isInked line = false) :
    blocksOf content =
      (paragraphs (trimFront first :: (middle ++ [trimBack last]))).map (joinWith ['\n']) := by
  have htext : normalizeText content.toList
      = joinWith ['\n'] (gap ++ first :: (middle ++ last :: gap')) := by
    rw [← hlines, linesOf, joinWith_splitAll]
  have htrim : trim (normalizeText content.toList)
      = joinWith ['\n'] (trimFront first :: (middle ++ [trimBack last])) := by
    rw [htext, trim, trimFront_joinWith hgap hfirst, ← List.cons_append,
      trimBack_joinWith_lines hgap' hlast, List.cons_append]
  have hfirst' : isInked (trimFront first) = true := (isInked_trimFront first).trans hfirst
  obtain ⟨c, rest, hcons⟩ : ∃ c rest,
      joinWith ['\n'] (trimFront first :: (middle ++ [trimBack last])) = c :: rest := by
    obtain ⟨c, rest, hcons⟩ := List.exists_cons_of_ne_nil (l := trimFront first) (by
      intro hnil
      rw [hnil] at hfirst'
      cases hfirst')
    exact ⟨c, _, by rw [joinWith_cons, hcons, List.cons_append]⟩
  have hfeed : ∀ line ∈ gap ++ first :: (middle ++ last :: gap'), '\n' ∉ line :=
    hlines ▸ fun line hline ↦ not_mem_of_mem_splitAll hline
  have hfeed' : ∀ line ∈ trimFront first :: (middle ++ [trimBack last]), '\n' ∉ line := by
    simp only [List.forall_mem_append, List.forall_mem_cons] at hfeed
    obtain ⟨-, hfirstFeed, hmiddle, hlastFeed, -⟩ := hfeed
    simp only [List.forall_mem_cons, List.forall_mem_append]
    exact ⟨fun h ↦ hfirstFeed ((List.dropWhile_suffix _).subset h), hmiddle,
      fun h ↦ hlastFeed (mem_of_mem_trimBack h), List.forall_mem_nil _⟩
  rw [blocksOf, htrim, hcons]
  show blocksFrom 0 (c :: rest) = _
  rw [← hcons]
  refine blocksFrom_joinWith_lines hfeed' hfirst' ?_
  rw [← List.cons_append, List.getLast?_concat]
  rintro _ ⟨⟩
  exact (isInked_trimBack last).trans hlast

/-- The lines of a text without blanks at their ends. -/
def trimmedLines (s : List Char) : List (List Char) := (linesOf s).map trimBack

theorem trimmedLines_append_lineFeed (s t : List Char) :
    trimmedLines (s ++ '\n' :: t) = trimmedLines s ++ trimmedLines t := by
  rw [trimmedLines, linesOf, splitAll_append_sep, List.map_append]
  rfl

/-- Blanks at the end of a text are empty lines at most. -/
theorem exists_trimmedLines_append {blanks : List Char} (h : ∀ c ∈ blanks, isBlank c = true)
    (s : List Char) : ∃ n, trimmedLines (s ++ blanks) = trimmedLines s ++ List.replicate n [] := by
  induction blanks generalizing s with
  | nil => exact ⟨0, by rw [List.append_nil, List.replicate_zero, List.append_nil]⟩
  | cons c blanks ih =>
    rw [List.forall_mem_cons] at h
    obtain ⟨n, hn⟩ := ih h.2 (s ++ [c])
    rw [List.append_cons, hn]
    by_cases hc : c = '\n'
    · refine ⟨n + 1, ?_⟩
      rw [hc, trimmedLines_append_lineFeed, show trimmedLines [] = [[]] from rfl, List.append_assoc,
        List.replicate_succ, List.singleton_append]
    · refine ⟨n, ?_⟩
      obtain ⟨parts, last, hlast⟩ := exists_lastPart '\n' s
      have hself := hlast [] List.not_mem_nil
      have hlonger := hlast [c] (by simpa using Ne.symm hc)
      rw [List.append_nil, List.append_nil] at hself
      rw [trimmedLines, linesOf, hlonger, trimmedLines, linesOf, hself, List.map_append,
        List.map_append, List.map_singleton, List.map_singleton,
        trimBack_append_blank (by simpa using h.1)]

theorem isInked_of_mem_replicate {n : Nat} :
    ∀ line ∈ List.replicate n ([] : List Char), isInked line = false :=
  fun _ hline ↦ by rw [List.eq_of_mem_replicate hline, isInked, List.all_nil, Bool.not_true]

/-- Blanks at the end of a text are not in its paragraphs. -/
theorem paragraphs_append_blanks {blanks : List Char} (h : ∀ c ∈ blanks, isBlank c = true)
    (s : List Char) : paragraphs (trimmedLines (s ++ blanks)) = paragraphs (trimmedLines s) := by
  obtain ⟨n, hn⟩ := exists_trimmedLines_append h s
  rw [hn, paragraphs_append_of_blank_back isInked_of_mem_replicate]

theorem isInked_of_endsSolid {line : List Char} (h : EndsSolid line) : isInked line = true := by
  rw [isInked, h.all_isBlank]
  rfl

/-- The last line of a text that ends solid is not blank. -/
theorem EndsSolid.isInked_getLast {s : List Char} (h : EndsSolid s) :
    ∀ line ∈ (linesOf s).getLast?, isInked line = true :=
  fun line hline ↦ isInked_of_endsSolid (h.getLast?_splitAll (by decide) line hline)

theorem isGapless_iff_isInked {s : List Char} :
    IsGapless s ↔ ∀ line ∈ trimmedLines s, isInked line = true := by
  rw [IsGapless, trimmedLines, List.forall_mem_map]
  simp only [isInked, Bool.not_eq_true', all_isBlank_trimBack]

theorem exists_trimmedLines (s : List Char) :
    ∃ n, trimmedLines s = trimmedLines (trimBack s) ++ List.replicate n [] := by
  obtain ⟨blanks, hblanks, hs⟩ := exists_trimBack_append s
  obtain ⟨n, hn⟩ := exists_trimmedLines_append hblanks (trimBack s)
  exact ⟨n, by rw [← hn, ← hs]⟩

/-- The first paragraph of a text without a blank line, but for blanks at its end, is the text. -/
theorem takeWhile_trimmedLines {s : List Char} (gapless : IsGapless (trimBack s)) :
    (trimmedLines s).takeWhile isInked = trimmedLines (trimBack s) := by
  obtain ⟨n, hn⟩ := exists_trimmedLines s
  rw [hn, List.takeWhile_append_of_pos (isGapless_iff_isInked.mp gapless)]
  cases n with
  | zero => exact List.append_nil _
  | succ n =>
    rw [List.replicate_succ, List.takeWhile_cons_of_neg (by decide), List.append_nil]

/-- **A text has no blank line, but for blanks at its end, if nothing follows its first paragraph.** -/
theorem isGapless_trimBack_iff {s : List Char} (hs : s.all isBlank = false) :
    IsGapless (trimBack s) ↔ paragraphs ((trimmedLines s).dropWhile isInked) = [] := by
  obtain ⟨n, hn⟩ := exists_trimmedLines s
  have hsolid : EndsSolid (trimBack s) := by
    refine endsSolid_trimBack fun hnil ↦ ?_
    rw [← all_isBlank_trimBack, hnil] at hs
    cases hs
  rw [isGapless_iff_isInked, paragraphs_eq_nil, hn]
  constructor
  · intro hinked
    rw [List.dropWhile_append_of_pos hinked]
    exact fun line hline ↦ isInked_of_mem_replicate line ((List.dropWhile_suffix _).subset hline)
  · intro hblank
    rw [← List.dropWhile_eq_nil_iff]
    by_contra hne
    rw [List.dropWhile_append, if_neg (by simpa using hne)] at hblank
    -- what follows the first paragraph goes on to the last line, which is not blank
    obtain ⟨front, hfront⟩ := List.dropWhile_suffix isInked (l := trimmedLines (trimBack s))
    generalize (trimmedLines (trimBack s)).dropWhile isInked = tail at hblank hne hfront
    have hlast : tail.getLast? = some (tail.getLast hne) := List.getLast?_eq_getLast_of_ne_nil hne
    have hinked : isInked (tail.getLast hne) = true := by
      have hlines : (trimmedLines (trimBack s)).getLast? = some (tail.getLast hne) := by
        rw [← hfront, List.getLast?_append_of_ne_nil _ hne, hlast]
      rw [trimmedLines, List.getLast?_map] at hlines
      obtain ⟨line, hline, htrim⟩ := Option.map_eq_some_iff.mp hlines
      rw [← htrim, isInked_trimBack]
      exact hsolid.isInked_getLast line hline
    rw [hblank _ (List.mem_append_left _ (List.getLast_mem hne))] at hinked
    cases hinked

/-- The blocks of a document that opens solid are its paragraphs. -/
theorem lines_blocksOf_cons {content : String} {c : Char} {rest : List Char}
    (hcontent : normalizeText content.toList = c :: rest) (hc : isBlank c = false) :
    (blocksOf content).map trimmedLines = paragraphs (trimmedLines (c :: rest)) := by
  obtain ⟨blanks, hblanks, hbody⟩ := exists_trimBack_append (c :: rest)
  have hne : trimBack (c :: rest) ≠ [] := by
    intro hnil
    have hall := all_isBlank_trimBack (c :: rest)
    rw [hnil, List.all_cons, hc] at hall
    cases hall
  obtain ⟨d, body, hcons⟩ := List.exists_cons_of_ne_nil hne
  obtain rfl : c = d := by
    rw [hcons] at hbody
    exact (List.cons.inj hbody).1
  have hfeed : c ≠ '\n' := by
    rintro rfl
    cases hc
  obtain ⟨part, parts, hparts⟩ := List.exists_cons_of_ne_nil (splitAll_ne_nil '\n' body)
  have hlines : linesOf (c :: body) = (c :: part) :: parts := splitAll_cons hfeed hparts
  have hinked : isInked (c :: part) = true := by
    rw [isInked, List.all_cons, hc]
    rfl
  have hlast := (endsSolid_trimBack hne).isInked_getLast
  rw [hcons, hlines] at hlast
  have hlinefeeds : ∀ line ∈ linesOf (c :: body), '\n' ∉ line :=
    fun line hline ↦ not_mem_of_mem_splitAll hline
  have hblocks := blocksFrom_joinWith_lines (hlines ▸ hlinefeeds) hinked hlast
  rw [← hlines, linesOf, joinWith_splitAll, ← linesOf] at hblocks
  have htrim : trim (c :: rest) = c :: body := by rw [trim, trimFront_cons hc, hcons]
  rw [blocksOf, hcontent, htrim]
  show (blocksFrom 0 (c :: body)).map trimmedLines = _
  rw [hblocks, hbody, paragraphs_append_blanks hblanks, hcons, trimmedLines, paragraphs_map_trimBack,
    List.map_map]
  refine List.map_congr_left fun lines hmem ↦ ?_
  show (linesOf (joinWith ['\n'] lines)).map trimBack = _
  rw [linesOf, splitAll_joinWith (ne_nil_of_mem_paragraphs hmem)
    fun line hline ↦ hlinefeeds line (mem_of_mem_paragraphs hmem line hline)]

/-- **A document that is put together from texts with an empty line behind each falls into the
paragraphs of the texts.** -/
theorem lines_blocksOf {content : String} {texts : List (List Char)}
    (hcontent : normalizeText content.toList = documentOf texts)
    (opens : ∀ text ∈ texts, ∃ c rest, text = c :: rest ∧ isBlank c = false) :
    (blocksOf content).map trimmedLines = texts.flatMap fun text ↦ paragraphs (trimmedLines text) := by
  have hdocument (texts : List (List Char)) : paragraphs (trimmedLines (documentOf texts)) =
      texts.flatMap fun text ↦ paragraphs (trimmedLines text) := by
    induction texts with
    | nil => rfl
    | cons text texts ih =>
      rw [documentOf_cons, List.append_assoc, List.cons_append, List.singleton_append,
        trimmedLines_append_lineFeed, ← List.nil_append ('\n' :: documentOf texts),
        trimmedLines_append_lineFeed, show trimmedLines [] = [[]] from rfl, List.singleton_append,
        paragraphs_append_blank rfl, ih, List.flatMap_cons]
  rw [← hdocument]
  cases texts with
  | nil =>
    rw [blocksOf, hcontent]
    rfl
  | cons text texts =>
    obtain ⟨c, rest, rfl, hc⟩ := opens text List.mem_cons_self
    exact lines_blocksOf_cons hcontent hc

end Montage
