import Mathlib.Data.List.Forall2
import Montage.Proofs.Number.Exact
import Montage.Proofs.Text.Words
import Montage.Subtitle.Srt

/-!
# Wrapping moves line breaks and nothing else

The words of a line are what stands between single blanks; several blanks in a row have empty words
between them.  Wrapping puts a line break where a blank was, so no word is lost and none is cut, and
the order of the words stays (`words_linesFrom`).

A line that wrapping gives does not open with a blank, and is within the limit unless it is a word
of its own (`IsFinished`).  That is the invariant of the line that is being filled.  A finished line
is left as it is when it is wrapped again, which is why wrapping twice is wrapping once.
-/

set_option autoImplicit false

namespace Montage

namespace Wrap

/-! ## Words -/

/-- The words of a line, in their order: what stands between its blanks and is not empty. -/
def spacedWords (line : List Char) : List (List Char) := (splitAll ' ' line).filter (· ≠ [])

theorem spacedWords_of_not_mem {word : List Char} (h : ' ' ∉ word) :
    spacedWords word = [word].filter (· ≠ []) := by
  rw [spacedWords, splitAll_of_not_mem h]

theorem spacedWords_joined (line : List Char) {word : List Char} (h : ' ' ∉ word) :
    spacedWords (joined line word) = spacedWords line ++ [word].filter (· ≠ []) := by
  rw [joined]
  split
  · rename_i hempty
    rw [List.isEmpty_iff.mp hempty, spacedWords_of_not_mem h]
    rfl
  · rw [spacedWords, splitAll_append_sep, List.filter_append, splitAll_of_not_mem h]
    rfl

/-! ## Lines -/

/-- A line as wrapping leaves it: it does not open with a blank, and is within the limit or a single
word. -/
structure IsFinished (limit : Nat) (line : List Char) : Prop where
  opens : ∀ c ∈ line.head?, c ≠ ' '
  fits : line.length ≤ limit ∨ ' ' ∉ line

section

variable {limit : Nat} {line word : List Char} {words : List (List Char)}

theorem isFinished_of_not_mem (h : ' ' ∉ word) : IsFinished limit word where
  opens _ hc heq := h (heq ▸ List.mem_of_head? hc)
  fits := .inr h

/-- A word that still fits behind a finished line leaves it finished. -/
theorem IsFinished.joined (hline : IsFinished limit line) (h : ' ' ∉ word)
    (hfits : overflows limit line word = false) : IsFinished limit (joined line word) := by
  rw [Wrap.joined]
  split
  · exact isFinished_of_not_mem h
  · rename_i hsome
    obtain ⟨c, rest, rfl⟩ := List.exists_cons_of_ne_nil (mt List.isEmpty_iff.mpr hsome)
    refine ⟨hline.opens, .inl ?_⟩
    rw [overflows, List.isEmpty_cons, Bool.not_false, Bool.true_and, decide_eq_false_iff_not] at hfits
    rw [List.length_append, List.length_cons (a := ' ')]
    omega

/-- **Every line is finished.** -/
theorem isFinished_of_mem_linesFrom (hline : IsFinished limit line) (hwords : ∀ word ∈ words, ' ' ∉ word) :
    ∀ l ∈ linesFrom limit line words, IsFinished limit l := by
  induction words generalizing line with
  | nil => exact List.forall_mem_singleton.mpr hline
  | cons word words ih =>
    rw [List.forall_mem_cons] at hwords
    rw [linesFrom]
    split
    · exact List.forall_mem_cons.mpr ⟨hline, ih (isFinished_of_not_mem hwords.1) hwords.2⟩
    · rename_i hfits
      exact ih (hline.joined hwords.1 (by simpa using hfits)) hwords.2

/-- **No word is lost, and none is cut.** -/
theorem words_linesFrom (hwords : ∀ word ∈ words, ' ' ∉ word) :
    (linesFrom limit line words).flatMap spacedWords = spacedWords line ++ words.filter (· ≠ []) := by
  induction words generalizing line with
  | nil => rw [linesFrom, List.flatMap_singleton, List.filter_nil, List.append_nil]
  | cons word words ih =>
    rw [List.forall_mem_cons] at hwords
    rw [linesFrom, ← List.singleton_append (l := words), List.filter_append]
    split
    · rw [List.flatMap_cons, ih hwords.2, spacedWords_of_not_mem hwords.1]
    · rw [ih hwords.2, spacedWords_joined line hwords.1, List.append_assoc]

theorem linesFrom_ne_nil : linesFrom limit line words ≠ [] := by
  induction words generalizing line with
  | nil => exact List.cons_ne_nil _ _
  | cons word words ih =>
    rw [linesFrom]
    split
    · exact List.cons_ne_nil _ _
    · exact ih

/-- The characters of the lines are blanks and those of the words. -/
theorem not_mem_of_mem_linesFrom {c : Char} (hc : c ≠ ' ') (hline : c ∉ line)
    (hwords : ∀ word ∈ words, c ∉ word) : ∀ l ∈ linesFrom limit line words, c ∉ l := by
  induction words generalizing line with
  | nil => exact List.forall_mem_singleton.mpr hline
  | cons word words ih =>
    rw [List.forall_mem_cons] at hwords
    rw [linesFrom]
    split
    · exact List.forall_mem_cons.mpr ⟨hline, ih hwords.1 hwords.2⟩
    · refine ih ?_ hwords.2
      rw [joined]
      split
      · exact hwords.1
      · simp [hline, hc, hwords.1]

/-- Words that all fit stay on the line. -/
theorem linesFrom_of_length_le (hne : line ≠ [])
    (hlength : (line ++ words.flatMap ([' '] ++ ·)).length ≤ limit) :
    linesFrom limit line words = [line ++ words.flatMap ([' '] ++ ·)] := by
  induction words generalizing line with
  | nil => rw [linesFrom, List.flatMap_nil, List.append_nil]
  | cons word words ih =>
    have hempty : line.isEmpty = false := List.isEmpty_eq_false_iff.mpr hne
    have hjoined : joined line word = line ++ ([' '] ++ word) := by
      rw [joined, hempty, if_neg Bool.false_ne_true, List.singleton_append]
    have hfits : overflows limit line word = false := by
      rw [List.flatMap_cons, List.length_append, List.length_append, List.length_append,
        List.length_singleton] at hlength
      rw [overflows, hempty, Bool.not_false, Bool.true_and, decide_eq_false_iff_not]
      omega
    rw [List.flatMap_cons, ← List.append_assoc] at hlength ⊢
    rw [linesFrom, hfits, if_neg Bool.false_ne_true, hjoined, ih (by simp [hne]) hlength]

/-! ## Wrapping a line -/

variable (limit line) in
theorem wrapLine_ne_nil : wrapLine limit line ≠ [] := linesFrom_ne_nil

variable (limit line) in
theorem words_wrapLine : (wrapLine limit line).flatMap spacedWords = spacedWords line :=
  words_linesFrom fun _ h ↦ not_mem_of_mem_splitAll h

theorem isFinished_of_mem_wrapLine {l : List Char} (h : l ∈ wrapLine limit line) :
    IsFinished limit l :=
  isFinished_of_mem_linesFrom (isFinished_of_not_mem List.not_mem_nil)
    (fun _ h ↦ not_mem_of_mem_splitAll h) l h

theorem not_mem_of_mem_wrapLine {c : Char} (hc : c ≠ ' ') (hline : c ∉ line) {l : List Char}
    (h : l ∈ wrapLine limit line) : c ∉ l :=
  not_mem_of_mem_linesFrom hc List.not_mem_nil
    (fun _ hword hmem ↦ hline (mem_of_mem_splitAll hword hmem)) l h

/-- **A finished line is kept as it is.** -/
theorem IsFinished.wrapLine (h : IsFinished limit line) : wrapLine limit line = [line] := by
  have hjoin := joinWith_splitAll ' ' line
  rw [Wrap.wrapLine]
  obtain ⟨word, words, hsplit⟩ := List.exists_cons_of_ne_nil (splitAll_ne_nil ' ' line)
  rw [hsplit, joinWith_cons] at hjoin
  rw [hsplit]
  show linesFrom limit word words = [line]
  rcases h.fits with hlength | hblank
  · by_cases hword : word = []
    · -- an empty word in front of others would be a blank that opens the line
      cases words with
      | nil => rw [← hjoin, hword]; rfl
      | cons next words =>
        rw [hword] at hjoin
        exact absurd rfl (h.opens ' ' (by rw [← hjoin]; rfl))
    · rw [linesFrom_of_length_le hword (by rwa [hjoin]), hjoin]
  · obtain ⟨rfl, rfl⟩ : line = word ∧ words = [] := by
      rw [splitAll_of_not_mem hblank] at hsplit
      exact ⟨(List.cons.inj hsplit).1, (List.cons.inj hsplit).2.symm⟩
    rfl

end

/-! ## Wrapping a text -/

/-- The lines that a line is wrapped to hold its words, and are within the limit or single words; a
line within the limit that does not open with a blank is kept as it is. -/
structure IsWrappedTo (limit : Int) (line : List Char) (lines : List (List Char)) : Prop where
  words : lines.flatMap spacedWords = spacedWords line
  fits : ∀ l ∈ lines, (l.length : Int) ≤ limit ∨ ' ' ∉ l
  kept : (line.length : Int) ≤ limit → (∀ c ∈ line.head?, c ≠ ' ') → lines = [line]

/-- A text with its line breaks moved so that the lines are within a limit: every line is wrapped
for itself, and wrapping the text again changes nothing. -/
structure IsWrapping (limit : Int) (s wrapped : List Char) : Prop where
  words : (linesOf wrapped).flatMap spacedWords = (linesOf s).flatMap spacedWords
  lines : ∃ parts, linesOf wrapped = parts.flatten ∧ List.Forall₂ (IsWrappedTo limit) (linesOf s) parts
  settled : wrap limit wrapped = wrapped

theorem isWrappedTo_wrapLine (limit : Nat) (line : List Char) :
    IsWrappedTo limit line (wrapLine limit line) where
  words := words_wrapLine limit line
  fits _ h := (isFinished_of_mem_wrapLine h).fits.imp_left Int.ofNat_le.mpr
  kept hlength hopens := IsFinished.wrapLine ⟨hopens, .inl (Int.ofNat_le.mp hlength)⟩

/-- The lines of a wrapped text are those that its lines are wrapped to. -/
theorem linesOf_wrapLines (limit : Nat) (s : List Char) :
    linesOf (wrapLines limit s) = (linesOf s).flatMap (wrapLine limit) := by
  refine splitAll_joinWith ?_ ?_
  · obtain ⟨line, lines, h⟩ := List.exists_cons_of_ne_nil (splitAll_ne_nil '\n' s)
    rw [linesOf, h, List.flatMap_cons]
    exact List.append_ne_nil_of_left_ne_nil (wrapLine_ne_nil limit line) _
  · intro l hl
    obtain ⟨line, hline, hl⟩ := List.mem_flatMap.mp hl
    exact not_mem_of_mem_wrapLine (by decide) (not_mem_of_mem_splitAll hline) hl

theorem words_wrapLines (limit : Nat) (s : List Char) :
    (linesOf (wrapLines limit s)).flatMap spacedWords = (linesOf s).flatMap spacedWords := by
  rw [linesOf_wrapLines, List.flatMap_assoc]
  exact List.flatMap_congr fun line _ ↦ words_wrapLine limit line

/-- **Wrapping again changes nothing.** -/
theorem wrapLines_wrapLines (limit : Nat) (s : List Char) :
    wrapLines limit (wrapLines limit s) = wrapLines limit s := by
  have hkept : (linesOf (wrapLines limit s)).flatMap (wrapLine limit) = linesOf (wrapLines limit s) := by
    rw [linesOf_wrapLines]
    refine (List.flatMap_congr (g := fun line ↦ [line]) fun l hl ↦ ?_).trans (List.flatMap_singleton' _)
    obtain ⟨line, -, hl⟩ := List.mem_flatMap.mp hl
    exact (isFinished_of_mem_wrapLine hl).wrapLine
  rw [wrapLines, hkept]
  exact joinWith_splitAll '\n' _

theorem wrap_of_pos {limit : Int} (hlimit : 0 < limit) (s : List Char) :
    wrap limit s = wrapLines limit.toNat s := if_neg (Int.not_le.mpr hlimit)

/-- A text is wrapped to a whole number as the writers wrap it. -/
theorem wrapFor_whole (limit : Int) (text : String) : wrapFor (.num (.whole limit)) (.str text) =
    .ok (.str (String.ofList (wrap limit text.toList))) := by
  have hle : (Number.whole limit).le 0 = decide (limit ≤ 0) := by
    rw [Bool.eq_iff_iff, decide_eq_true_iff]
    refine (Quantity.le_iff_value? (x := .finite limit) (y := .finite (0 : Int)) rfl rfl).trans ?_
    exact Rat.intCast_le_intCast
  have hchars : charsWithin (.whole limit) text.toList = limit.toNat := by
    show (limit : Rat).floor.toNat = limit.toNat
    rw [Rat.floor_intCast]
  show (if (Number.whole limit).le 0 = true then Except.ok (Json.str text) else
    .ok (.str (String.ofList (wrapLines (charsWithin (.whole limit) text.toList) text.toList)))) = _
  rw [hle, hchars, wrap]
  by_cases h : limit ≤ 0
  · rw [if_pos (decide_eq_true h), if_pos h, String.ofList_toList]
  · rw [if_neg (by simpa using h), if_neg h]

/-- **Wrapping only moves line breaks**: the words stay, every line is within the limit or a single
word, what is within the limit already is kept, and wrapping again changes nothing. -/
theorem wrap_movesBreaks {limit : Int} (hlimit : 0 < limit) (text : String) :
    ∃ wrapped : String, wrapFor (.num (.whole limit)) (.str text) = .ok (.str wrapped) ∧
      wrap limit text.toList = wrapped.toList ∧ IsWrapping limit text.toList wrapped.toList := by
  refine ⟨_, wrapFor_whole limit text, String.toList_ofList.symm, ?_⟩
  obtain ⟨n, rfl⟩ : ∃ n : Nat, limit = n := ⟨limit.toNat, by omega⟩
  rw [String.toList_ofList, wrap_of_pos hlimit, Int.toNat_natCast]
  refine ⟨words_wrapLines n _, ⟨_, (linesOf_wrapLines n _).trans List.flatMap_def, ?_⟩, ?_⟩
  · rw [List.forall₂_map_right_iff, List.forall₂_same]
    exact fun line _ ↦ isWrappedTo_wrapLine n line
  · rw [wrap_of_pos hlimit, Int.toNat_natCast, wrapLines_wrapLines]

/-- Two lines with blanks at their ends and between their words, and a word that is too long. -/
def straggling : String := "one  two \n three fourteen"

theorem straggling_wrapped : (0 : Int) < 5 ∧
    wrapFor (.num (.whole 5)) (.str straggling) = .ok (.str "one \ntwo \nthree\nfourteen") ∧
    IsWrapping 5 straggling.toList "one \ntwo \nthree\nfourteen".toList := by
  have hlimit : (0 : Int) < 5 := by decide
  obtain ⟨wrapped, hfor, hwrap, h⟩ := wrap_movesBreaks hlimit straggling
  obtain rfl : wrapped = "one \ntwo \nthree\nfourteen" := by
    rw [← String.toList_inj, ← hwrap]
    decide
  exact ⟨hlimit, hfor, h⟩

/-! ## Words of a wrapped text -/

theorem wordsIn_linesFrom (limit : Nat) (line : List Char) (words : List (List Char)) :
    (linesFrom limit line words).flatMap wordsIn = wordsIn line ++ words.flatMap wordsIn := by
  induction words generalizing line with
  | nil => rfl
  | cons word words ih =>
    have hjoined : wordsIn (joined line word) = wordsIn line ++ wordsIn word := by
      rw [joined]
      split
      · rename_i hempty
        rw [List.isEmpty_iff.mp hempty]
        rfl
      · exact wordsIn_append_blank (by decide) line word
    rw [linesFrom]
    split
    · rw [List.flatMap_cons, ih, List.flatMap_cons]
    · rw [ih, hjoined, List.append_assoc, List.flatMap_cons]

/-- **Wrapping keeps the words** between blanks of any kind, not only those between single blanks. -/
theorem wordsIn_wrap (limit : Int) (s : List Char) : wordsIn (wrap limit s) = wordsIn s := by
  have hline (line : List Char) : (wrapLine limit.toNat line).flatMap wordsIn = wordsIn line := by
    conv_rhs => rw [← joinWith_splitAll ' ' line, wordsIn_joinWith (by decide)]
    exact wordsIn_linesFrom limit.toNat [] (splitAll ' ' line)
  rw [wrap]
  split
  · rfl
  · rw [← wordsIn_linesOf, linesOf_wrapLines, List.flatMap_assoc, ← wordsIn_linesOf s]
    exact List.flatMap_congr fun line _ ↦ hline line

/-- A wrapped text has line feeds, and else the characters of the text. -/
theorem not_mem_wrap {c : Char} (hblank : c ≠ ' ') (hfeed : c ≠ '\n') {s : List Char} (hs : c ∉ s)
    (limit : Int) : c ∉ wrap limit s := by
  rw [wrap]
  split
  · exact hs
  · intro hmem
    rcases mem_joinWith hmem with hmem | ⟨l, hl, hmem⟩
    · exact hfeed (List.mem_singleton.mp hmem)
    · obtain ⟨line, hline, hl⟩ := List.mem_flatMap.mp hl
      exact not_mem_of_mem_wrapLine hblank (fun h ↦ hs (mem_of_mem_splitAll hline h)) hl hmem

/-- Words of which the last one is not blank, and none is unless it is empty, make no blank line. -/
theorem inked_of_mem_linesFrom {limit : Nat} {line : List Char} {words : List (List Char)}
    (h : ∀ word ∈ line :: words, word = [] ∨ word.all isBlank = false)
    (hlast : ∀ word ∈ (line :: words).getLast?, word.all isBlank = false) :
    ∀ l ∈ linesFrom limit line words, l.all isBlank = false := by
  induction words generalizing line with
  | nil =>
    rw [linesFrom, List.forall_mem_singleton]
    exact hlast line rfl
  | cons word words ih =>
    rw [List.forall_mem_cons] at h
    rw [List.getLast?_cons_cons] at hlast
    rw [linesFrom]
    split
    · rename_i hoverflows
      have hne : line ≠ [] := by
        rintro rfl
        cases hoverflows
      exact List.forall_mem_cons.mpr ⟨h.1.resolve_left hne, ih h.2 hlast⟩
    · refine ih (List.forall_mem_cons.mpr ⟨?_, fun w hw ↦ h.2 w (List.mem_cons_of_mem _ hw)⟩) ?_
      · rw [joined]
        split
        · exact h.2 word List.mem_cons_self
        · rename_i hne
          refine .inr ?_
          rw [List.all_append, h.1.resolve_left (by simpa using hne), Bool.false_and]
      · cases words with
        | nil =>
          have hword := hlast word rfl
          rintro _ ⟨⟩
          show (joined line word).all isBlank = false
          rw [joined]
          split
          · exact hword
          · rw [List.all_append, List.all_cons, hword, Bool.and_false, Bool.and_false]
        | cons next words =>
          rw [List.getLast?_cons_cons] at hlast ⊢
          exact hlast

/-- **Wrapping makes no blank line** of lines that end solid and hold no blanks but single ones. -/
theorem isGapless_wrap {s : List Char} (solid : ∀ line ∈ linesOf s, EndsSolid line)
    (hblank : ∀ c ∈ s, isBlank c = true → c = ' ' ∨ c = '\n') (limit : Int) :
    ∀ line ∈ linesOf (wrap limit s), line.all isBlank = false := by
  rw [wrap]
  split
  · exact fun line hline ↦ (solid line hline).all_isBlank
  rw [linesOf_wrapLines, List.forall_mem_flatMap]
  intro line hline
  have hword : ∀ word ∈ splitAll ' ' line, word = [] ∨ word.all isBlank = false := by
    intro word hword
    cases word with
    | nil => exact .inl rfl
    | cons c word =>
      refine .inr (List.all_eq_false.mpr ⟨c, List.mem_cons_self, fun hc ↦ ?_⟩)
      have hmem := mem_of_mem_splitAll hword List.mem_cons_self
      rcases hblank c (mem_of_mem_splitAll hline hmem) hc with rfl | rfl
      · exact not_mem_of_mem_splitAll hword List.mem_cons_self
      · exact not_mem_of_mem_splitAll hline hmem
  refine inked_of_mem_linesFrom (List.forall_mem_cons.mpr ⟨.inl rfl, hword⟩) fun word hlast ↦ ?_
  have hblankSep : isBlank ' ' = true := by decide
  refine ((solid line hline).getLast?_splitAll hblankSep word ?_).all_isBlank
  obtain ⟨first, words, hwords⟩ := List.exists_cons_of_ne_nil (splitAll_ne_nil ' ' line)
  rw [hwords] at hlast ⊢
  rwa [List.getLast?_cons_cons] at hlast

end Wrap
end Montage
