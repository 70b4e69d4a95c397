import Montage.Proofs.Text.Words
import Montage.Tracks.Options

/-!
# Filling lines

The words of a text go to the current line while they fit there.  No other way of putting them on
lines, in their order and within the limit, needs fewer lines (`SyncOptions.length_linesFrom_le_rows`).
What carries this is a comparison of two lines that are being filled with the same words: the one
that holds less never leads to more lines, and neither leads to more than one line more than the
other (`SyncOptions.length_linesFrom_le`).  So a row that is closed early gains nothing.

If there are more lines than allowed, the last one that is allowed takes all that remains.  That
joins lines and nothing else, so the lines still read as the words of the text.
-/

set_option autoImplicit false

namespace Montage
namespace SyncOptions

variable {limit : Int} {line other word : String} {words rest : List String}

/-! ## One word more -/

theorem lineWith_of_ne (hline : line ≠ "") (word : String) :
    lineWith line word = line ++ " " ++ word := by
  rw [lineWith, if_neg (by simpa using hline)]

theorem lineWith_ne (hline : line ≠ "") (word : String) : lineWith line word ≠ "" := by
  rw [lineWith_of_ne hline]
  simp [hline]

theorem length_lineWith (hline : line ≠ "") (word : String) :
    (lineWith line word).length = line.length + 1 + word.length := by
  rw [lineWith_of_ne hline, String.length_append, String.length_append]
  rfl

/-- The first word stands at the beginning of a line. -/
theorem linesFrom_first (limit : Int) (word : String) (rest : List String) :
    linesFrom limit "" (word :: rest) = linesFrom limit word rest := rfl

theorem linesFrom_fits (hfits : ((lineWith line word).length : Int) ≤ limit) :
    linesFrom limit line (word :: rest) = linesFrom limit (lineWith line word) rest := by
  rw [linesFrom, if_pos (by simp [hfits])]

theorem linesFrom_full (hline : line ≠ "") (hfull : limit < (lineWith line word).length) :
    linesFrom limit line (word :: rest) = line :: linesFrom limit word rest := by
  rw [linesFrom, if_neg (by simp [hline, hfull])]

theorem linesFrom_nil (hline : line ≠ "") : linesFrom limit line [] = [line] := by
  rw [linesFrom, if_neg (by simpa using hline)]

/-! ## Joining the lines -/

theorem intercalate_lineWith (hline : line ≠ "") (word : String) (rest : List String) :
    " ".intercalate (lineWith line word :: rest) = " ".intercalate (line :: word :: rest) := by
  rw [lineWith_of_ne hline, String.intercalate_cons_append, String.intercalate_cons_cons]

/-- **The lines read as the words.** -/
theorem intercalate_linesFrom (hline : line ≠ "") (hwords : ∀ word ∈ words, word ≠ "") :
    " ".intercalate (linesFrom limit line words) = " ".intercalate (line :: words) ∧
      linesFrom limit line words ≠ [] := by
  induction words generalizing line with
  | nil => simp [linesFrom_nil hline]
  | cons word words ih =>
    rw [List.forall_mem_cons] at hwords
    by_cases hfits : ((lineWith line word).length : Int) ≤ limit
    · rw [linesFrom_fits hfits, ← intercalate_lineWith hline]
      exact ih (lineWith_ne hline word) hwords.2
    · obtain ⟨hjoin, hne⟩ := ih hwords.1 hwords.2
      rw [linesFrom_full hline (by omega), String.intercalate_cons_of_ne_nil hne, hjoin,
        String.intercalate_cons_cons]
      exact ⟨rfl, List.cons_ne_nil _ _⟩

theorem intercalate_lines (hwords : ∀ word ∈ words, word ≠ "") :
    " ".intercalate (linesFrom limit "" words) = " ".intercalate words := by
  cases words with
  | nil => simp [linesFrom]
  | cons word words =>
    rw [List.forall_mem_cons] at hwords
    rw [linesFrom_first]
    exact (intercalate_linesFrom hwords.1 hwords.2).1

/-! ## How long lines are -/

/-- A line is within the limit, or it is one of some words. -/
def IsFilled (limit : Int) (words : List String) (line : String) : Prop :=
  (line.length : Int) ≤ limit ∨ line ∈ words

/-- **Every line is within the limit or a single word.** -/
theorem isFilled_of_mem_linesFrom {all : List String} (hline : IsFilled limit all line)
    (hwords : ∀ word ∈ words, word ∈ all) : ∀ l ∈ linesFrom limit line words, IsFilled limit all l := by
  induction words generalizing line with
  | nil =>
    rw [linesFrom]
    split <;> simp [hline]
  | cons word words ih =>
    rw [List.forall_mem_cons] at hwords
    by_cases hempty : line = ""
    · subst hempty
      rw [linesFrom_first]
      exact ih (.inr hwords.1) hwords.2
    by_cases hfits : ((lineWith line word).length : Int) ≤ limit
    · rw [linesFrom_fits hfits]
      exact ih (.inl hfits) hwords.2
    · rw [linesFrom_full hempty (by omega), List.forall_mem_cons]
      exact ⟨hline, ih (.inr hwords.1) hwords.2⟩

theorem isFilled_of_mem_lines : ∀ l ∈ linesFrom limit "" words, IsFilled limit words l := by
  cases words with
  | nil => simp [linesFrom]
  | cons word words =>
    rw [linesFrom_first]
    exact isFilled_of_mem_linesFrom (.inr List.mem_cons_self) fun _ ↦ List.mem_cons_of_mem word

/-! ## How many lines there are -/

/-- **Of two lines that are filled with the same words, the one that holds less does not lead to more
lines**, and neither leads to more than one line more than the other. -/
theorem length_linesFrom_le (hline : line ≠ "") (hother : other ≠ "")
    (hwords : ∀ word ∈ words, word ≠ "") :
    (line.length ≤ other.length →
      (linesFrom limit line words).length ≤ (linesFrom limit other words).length) ∧
    (linesFrom limit line words).length ≤ (linesFrom limit other words).length + 1 := by
  induction words generalizing line other with
  | nil => simp [linesFrom_nil hline, linesFrom_nil hother]
  | cons word words ih =>
    rw [List.forall_mem_cons] at hwords
    have hlonger : word.length ≤ (lineWith other word).length := by
      rw [length_lineWith hother]
      omega
    have hlengths := length_lineWith hline word
    have hlengths' := length_lineWith hother word
    have hnext := lineWith_ne hline word
    have hnext' := lineWith_ne hother word
    by_cases hfits : ((lineWith line word).length : Int) ≤ limit <;>
      by_cases hfits' : ((lineWith other word).length : Int) ≤ limit
    · rw [linesFrom_fits hfits, linesFrom_fits hfits']
      have := ih hnext hnext' hwords.2
      exact ⟨fun h ↦ this.1 (by omega), this.2⟩
    · -- the word is the beginning of a line there, and still fits here
      rw [linesFrom_fits hfits, linesFrom_full hother (by omega), List.length_cons]
      have := (ih hnext hwords.1 hwords.2).2
      exact ⟨fun _ ↦ this, by omega⟩
    · -- the word is the beginning of a line here, where the other line holds more than it
      rw [linesFrom_full hline (by omega), linesFrom_fits hfits', List.length_cons]
      have := (ih hwords.1 hnext' hwords.2).1 hlonger
      exact ⟨fun h ↦ by omega, by omega⟩
    · rw [linesFrom_full hline (by omega), linesFrom_full hother (by omega)]
      simp

/-- What is on a line that is being filled saves at most the line. -/
theorem length_linesFrom_le_succ (hline : line ≠ "") (hwords : ∀ word ∈ words, word ≠ "") :
    (linesFrom limit line words).length ≤ (linesFrom limit "" words).length + 1 := by
  cases words with
  | nil => simp [linesFrom_nil hline]
  | cons word rest =>
    rw [List.forall_mem_cons] at hwords
    rw [linesFrom_first]
    by_cases hfits : ((lineWith line word).length : Int) ≤ limit
    · rw [linesFrom_fits hfits]
      exact (length_linesFrom_le (lineWith_ne hline word) hwords.1 hwords.2).2
    · rw [linesFrom_full hline (by omega), List.length_cons]

/-! ## Rows -/

theorem length_le_intercalate (line : String) (rest : List String) :
    line.length ≤ (" ".intercalate (line :: rest)).length := by
  cases rest with
  | nil => simp
  | cons next rest => simp [String.length_append]; omega

theorem length_le_of_mem_row {row : List String} (h : word ∈ row) :
    word.length ≤ (" ".intercalate row).length := by
  induction row with
  | nil => cases h
  | cons first row ih =>
    rcases List.mem_cons.mp h with rfl | h
    · exact length_le_intercalate word row
    · have := ih h
      rw [String.intercalate_cons_of_ne_nil (List.ne_nil_of_mem h), String.length_append]
      omega

/-- Words that fit on a line all go to it. -/
theorem linesFrom_row {row : List String} (hline : line ≠ "")
    (hfits : ((" ".intercalate (line :: row)).length : Int) ≤ limit) (rest : List String) :
    linesFrom limit line (row ++ rest) = linesFrom limit (" ".intercalate (line :: row)) rest := by
  induction row generalizing line with
  | nil => rw [List.nil_append, String.intercalate_singleton]
  | cons word row ih =>
    rw [← intercalate_lineWith hline] at hfits ⊢
    have hword := length_le_intercalate (lineWith line word) row
    rw [List.cons_append, linesFrom_fits (by omega), ih (lineWith_ne hline word) hfits]

/-- A row that fits stands for at most one line. -/
theorem length_linesFrom_row {row : List String} (hrow : ∀ word ∈ row, word ≠ "")
    (hfits : ((" ".intercalate row).length : Int) ≤ limit) (hwords : ∀ word ∈ words, word ≠ "") :
    (linesFrom limit "" (row ++ words)).length ≤ (linesFrom limit "" words).length + 1 := by
  cases row with
  | nil => simp
  | cons word row =>
    rw [List.forall_mem_cons] at hrow
    have hne : " ".intercalate (word :: row) ≠ "" := by
      intro hempty
      have hword := length_le_intercalate word row
      rw [hempty, String.length_empty, Nat.le_zero, String.length_eq_zero_iff] at hword
      exact hrow.1 hword
    rw [List.cons_append, linesFrom_first, linesFrom_row hrow.1 hfits]
    exact length_linesFrom_le_succ hne hwords

/-- **No rows within the limit are fewer than the lines.** -/
theorem length_linesFrom_le_rows {rows : List (List String)}
    (hwords : ∀ word ∈ rows.flatten, word ≠ "")
    (hfits : ∀ row ∈ rows, ((" ".intercalate row).length : Int) ≤ limit) :
    (linesFrom limit "" rows.flatten).length ≤ rows.length := by
  induction rows with
  | nil => exact Nat.le_refl 0
  | cons row rows ih =>
    rw [List.flatten_cons, List.forall_mem_append] at hwords
    rw [List.forall_mem_cons] at hfits
    have hrow := length_linesFrom_row hwords.1 hfits.1 hwords.2
    have hrest := ih hwords.2 hfits.2
    rw [List.flatten_cons, List.length_cons]
    omega

/-! ## Too many lines -/

section

variable {most : Nat} {lines : List String}

theorem foldLines_of_le (h : lines.length ≤ most) : foldLines most lines = lines := by
  rw [foldLines, if_neg (by omega)]

theorem length_foldLines_le (hmost : 0 < most) : (foldLines most lines).length ≤ most := by
  rw [foldLines]
  split
  · simp
    omega
  · omega

/-- What remains is only joined. -/
theorem intercalate_foldLines (lines : List String) :
    " ".intercalate (foldLines most lines) = " ".intercalate lines := by
  rw [foldLines]
  split
  · rename_i hmany
    have hback : lines.drop (most - 1) ≠ [] := by
      rw [Ne, List.drop_eq_nil_iff]
      omega
    by_cases hfront : lines.take (most - 1) = []
    · conv_rhs => rw [← List.take_append_drop (most - 1) lines]
      simp [hfront]
    · conv_rhs => rw [← List.take_append_drop (most - 1) lines]
      rw [String.intercalate_append_of_ne_nil hfront (List.cons_ne_nil _ _),
        String.intercalate_append_of_ne_nil hfront hback, String.intercalate_singleton]
  · rfl

/-- All lines but the last one are left as they are. -/
theorem mem_of_mem_dropLast_foldLines (h : line ∈ (foldLines most lines).dropLast) : line ∈ lines := by
  rw [foldLines] at h
  split at h
  · rw [List.dropLast_concat] at h
    exact List.mem_of_mem_take h
  · exact List.dropLast_subset lines h

end

/-! ## The lines of a text -/

/-- The words of a text in rows: all of them, in their order, in no more rows than lines are allowed,
none of them longer than the limit. -/
structure IsArrangement (options : SyncOptions) (text : String) (rows : List (List String)) :
    Prop where
  whole : rows.flatten = wordsOf text
  few : (rows.length : Int) ≤ options.maxLines
  fits : ∀ row ∈ rows, ((" ".intercalate row).length : Int) ≤ options.maxCharsPerLine

/-- Lines that a text is broken to.  They read as the words of the text, and are not too many; all but
the last one are within the limit or single words; and all of them are within the limit if there are
rows that arrange the words. -/
structure IsBreaking (options : SyncOptions) (text : String) (lines : List String) : Prop where
  joined : " ".intercalate lines = " ".intercalate (wordsOf text)
  words : wordsOf (" ".intercalate lines) = wordsOf text
  few : (lines.length : Int) ≤ options.maxLines
  filled : ∀ line ∈ lines.dropLast, IsFilled options.maxCharsPerLine (wordsOf text) line
  best : (∃ rows, options.IsArrangement text rows) →
    ∀ line ∈ lines, (line.length : Int) ≤ options.maxCharsPerLine

variable {options : SyncOptions} {text : String}

/-- Where words can be arranged, greed finds lines within the limit, and not too many. -/
theorem IsArrangement.breakLines {rows : List (List String)} (h : options.IsArrangement text rows) :
    ∀ line ∈ options.breakLines text, (line.length : Int) ≤ options.maxCharsPerLine := by
  have hwords : ∀ word ∈ wordsOf text, word ≠ "" ∧ (word.length : Int) ≤ options.maxCharsPerLine := by
    intro word hword
    refine ⟨ne_empty_of_mem_wordsOf hword, ?_⟩
    rw [← h.whole, List.mem_flatten] at hword
    obtain ⟨row, hrow, hword⟩ := hword
    have hlength := length_le_of_mem_row hword
    have hfits := h.fits row hrow
    omega
  have hlength := length_linesFrom_le_rows (h.whole ▸ fun word hword ↦ (hwords word hword).1) h.fits
  have hfew := h.few
  rw [h.whole] at hlength
  rw [SyncOptions.breakLines, foldLines_of_le (by omega)]
  intro line hline
  rcases isFilled_of_mem_lines line hline with hfits | hword
  · exact hfits
  · exact (hwords line hword).2

/-- A text with its lines broken has its words, in their order. -/
theorem wordsOf_brokenText (options : SyncOptions) (text : String) :
    wordsOf (options.brokenText text) = wordsOf text := by
  have hjoined : " ".intercalate (options.breakLines text) = " ".intercalate (wordsOf text) := by
    rw [breakLines, intercalate_foldLines, intercalate_lines fun _ ↦ ne_empty_of_mem_wordsOf]
  calc wordsOf (options.brokenText text)
      = wordsOf (" ".intercalate (options.breakLines text)) := by
        rw [wordsOf_inj, brokenText, toList_intercalate, toList_intercalate]
        -- an end of a line separates words as a space does
        exact (wordsIn_joinWith (c := '\n') (by decide) _).trans
          (wordsIn_joinWith (c := ' ') (by decide) _).symm
    _ = wordsOf text := by rw [hjoined, wordsOf_intercalate]

/-- **Breaking a text loses nothing and is optimal.** -/
theorem breakLines_isBreaking (hlines : 0 < options.maxLines) (text : String) :
    options.IsBreaking text (options.breakLines text) := by
  have hjoined : " ".intercalate (options.breakLines text) = " ".intercalate (wordsOf text) := by
    rw [breakLines, intercalate_foldLines, intercalate_lines fun _ ↦ ne_empty_of_mem_wordsOf]
  refine ⟨hjoined, ?_, ?_, ?_, ?_⟩
  · rw [hjoined, wordsOf_intercalate]
  · have hfew : (options.breakLines text).length ≤ options.maxLines.toNat :=
      length_foldLines_le (by omega)
    omega
  · intro line hline
    exact isFilled_of_mem_lines line (mem_of_mem_dropLast_foldLines hline)
  · rintro ⟨rows, hrows⟩
    exact hrows.breakLines

theorem breakLines_four_words :
    let options : SyncOptions := { maxCharsPerLine := 10, maxLines := 2 }
    let text := " one two\nthree  four"
    0 < options.maxLines ∧
      options.IsArrangement text [["one", "two"], ["three", "four"]] ∧
      options.IsBreaking text ["one two", "three four"] := by
  intro options text
  have hlines : options.breakLines text = ["one two", "three four"] := by decide
  have hbreaking := @breakLines_isBreaking options (by decide) text
  rw [hlines] at hbreaking
  exact ⟨by decide, ⟨by decide, by decide, by decide⟩, hbreaking⟩

end SyncOptions
end Montage
