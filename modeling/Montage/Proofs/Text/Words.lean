import Mathlib.Algebra.BigOperators.Group.List.Basic
import Montage.Proofs.Text.Lines

/-!
# Words of a text

The words of a text are its runs of characters that are not blank.  A blank separates what stands
before it from what stands behind it, so that the words of texts with blanks between them are the
words of the texts (`wordsIn_joinWith`), and blanks at an end do not count.

All that a text has beside blanks stands in its words (`flatten_wordsIn`), and the words with blanks
between them are a text of the same words (`wordsOf_intercalate`).
-/

set_option autoImplicit false

namespace Montage

/-- The words of a row of characters, in their order. -/
def wordsIn (s : List Char) : List (List Char) := wordsFrom [] s

theorem wordsOf_eq (s : String) : wordsOf s = (wordsIn s.toList).map String.ofList := rfl

theorem wordsOf_inj {s t : String} : wordsOf s = wordsOf t ↔ wordsIn s.toList = wordsIn t.toList := by
  have hinj : Function.Injective String.ofList := fun _ _ h ↦ String.ofList_inj.mp h
  rw [wordsOf_eq, wordsOf_eq]
  exact (List.map_injective_iff.mpr hinj).eq_iff

/-! ## What separates words -/

theorem wordsFrom_append_blank {c : Char} (hc : isBlank c = true) (word s t : List Char) :
    wordsFrom word (s ++ c :: t) = wordsFrom word s ++ wordsIn t := by
  induction s generalizing word with
  | nil =>
    rw [List.nil_append, wordsFrom.eq_2, if_pos hc, wordsFrom.eq_1, wordsIn]
    split <;> rfl
  | cons d s ih =>
    rw [List.cons_append, wordsFrom, wordsFrom]
    split
    · split
      · exact ih []
      · rw [ih, List.cons_append]
    · exact ih _

/-- **A blank separates words.** -/
theorem wordsIn_append_blank {c : Char} (hc : isBlank c = true) (s t : List Char) :
    wordsIn (s ++ c :: t) = wordsIn s ++ wordsIn t :=
  wordsFrom_append_blank hc [] s t

theorem wordsIn_append_blanks {blanks : List Char} (h : ∀ c ∈ blanks, isBlank c = true) (s : List Char) :
    wordsIn (s ++ blanks) = wordsIn s := by
  induction blanks generalizing s with
  | nil => rw [List.append_nil]
  | cons c blanks ih =>
    rw [List.forall_mem_cons] at h
    have hrest : wordsIn blanks = [] := ih h.2 []
    rw [wordsIn_append_blank h.1, hrest, List.append_nil]

/-- Blanks at the end do not count. -/
theorem wordsIn_trimBack (s : List Char) : wordsIn (trimBack s) = wordsIn s := by
  obtain ⟨blanks, hblanks, hs⟩ := exists_trimBack_append s
  conv_rhs => rw [hs, wordsIn_append_blanks hblanks]

/-- **Texts with blanks between them have the words of the texts.** -/
theorem wordsIn_joinWith {c : Char} (hc : isBlank c = true) (parts : List (List Char)) :
    wordsIn (joinWith [c] parts) = parts.flatMap wordsIn := by
  induction parts with
  | nil => rfl
  | cons part parts ih =>
    cases parts with
    | nil => rw [joinWith, List.flatMap_singleton]
    | cons next parts =>
      rw [joinWith_cons_cons, List.append_assoc, List.singleton_append, wordsIn_append_blank hc, ih]
      rfl

/-- The words of a text are those of its lines. -/
theorem wordsIn_linesOf (s : List Char) : (linesOf s).flatMap wordsIn = wordsIn s := by
  conv_rhs => rw [← joinWith_splitAll '\n' s, wordsIn_joinWith (by decide)]
  rfl

/-! ## What words are made of -/

theorem flatten_wordsFrom (word s : List Char) :
    (wordsFrom word s).flatten = word.reverse ++ s.filter (!isBlank ·) := by
  induction s generalizing word with
  | nil =>
    rw [wordsFrom]
    split
    · rename_i h
      rw [List.isEmpty_iff.mp h]
      rfl
    · simp
  | cons c s ih =>
    rw [wordsFrom]
    split
    · rename_i hc
      rw [List.filter_cons_of_neg (by simp [hc])]
      split
      · rename_i h
        rw [ih, List.isEmpty_iff.mp h]
      · rw [List.flatten_cons, ih]
        rfl
    · rename_i hc
      rw [ih, List.filter_cons_of_pos (by simp [hc]), List.reverse_cons, List.append_assoc,
        List.singleton_append]

/-- **The words of a text are made of its characters that are not blank.** -/
theorem flatten_wordsIn (s : List Char) : (wordsIn s).flatten = s.filter (!isBlank ·) :=
  flatten_wordsFrom [] s

/-- Texts of the same words hold the same characters, blanks apart. -/
theorem mem_iff_of_wordsIn {s t : List Char} (h : wordsIn s = wordsIn t) {c : Char}
    (hc : isBlank c = false) : c ∈ s ↔ c ∈ t := by
  have hfilter := congrArg List.flatten h
  rw [flatten_wordsIn, flatten_wordsIn] at hfilter
  have hmem : c ∈ s.filter (!isBlank ·) ↔ c ∈ t.filter (!isBlank ·) := by rw [hfilter]
  simpa [hc] using hmem

/-- A text with a word in it is not blank. -/
theorem all_isBlank_of_wordsIn {s t : List Char} (h : wordsIn s = wordsIn t) :
    s.all isBlank = t.all isBlank := by
  have hfilter := congrArg List.flatten h
  rw [flatten_wordsIn, flatten_wordsIn] at hfilter
  have hblank (u : List Char) : u.all isBlank = (u.filter (!isBlank ·)).isEmpty := by
    rw [Bool.eq_iff_iff, List.all_eq_true, List.isEmpty_iff, List.filter_eq_nil_iff]
    simp
  rw [hblank, hblank, hfilter]

/-- A word: it has characters, and none of them is blank. -/
structure IsWord (word : List Char) : Prop where
  inhabited : word ≠ []
  solid : ∀ c ∈ word, isBlank c = false

theorem isWord_of_mem_wordsFrom {word s : List Char} (hword : ∀ c ∈ word, isBlank c = false) :
    ∀ w ∈ wordsFrom word s, IsWord w := by
  have hread : word ≠ [] → IsWord word.reverse := fun hne ↦
    ⟨by simpa using hne, fun c hc ↦ hword c (List.mem_reverse.mp hc)⟩
  induction s generalizing word with
  | nil =>
    rw [wordsFrom]
    split
    · simp
    · rename_i hne
      exact List.forall_mem_singleton.mpr (hread (by simpa using hne))
  | cons c s ih =>
    rw [wordsFrom]
    split
    · split
      · exact ih (by simp) (by simp)
      · rename_i hne
        exact List.forall_mem_cons.mpr ⟨hread (by simpa using hne), ih (by simp) (by simp)⟩
    · rename_i hc
      have hgrown : ∀ d ∈ c :: word, isBlank d = false :=
        List.forall_mem_cons.mpr ⟨by simpa using hc, hword⟩
      exact ih hgrown fun _ ↦ ⟨by simp, fun d hd ↦ hgrown d (List.mem_reverse.mp hd)⟩

theorem isWord_of_mem_wordsIn {s word : List Char} (h : word ∈ wordsIn s) : IsWord word :=
  isWord_of_mem_wordsFrom (by simp) word h

/-- A text has no more words than characters. -/
theorem length_wordsIn_le (s : List Char) : (wordsIn s).length ≤ s.length := by
  have hwords : ∀ n ∈ (wordsIn s).map List.length, 1 ≤ n := by
    refine List.forall_mem_map.mpr fun word hword ↦ ?_
    exact List.length_pos_iff.mpr (isWord_of_mem_wordsIn hword).inhabited
  calc
    (wordsIn s).length ≤ (wordsIn s).flatten.length := by
      rw [List.length_flatten, ← List.length_map (f := List.length)]
      exact List.length_le_sum_of_one_le _ hwords
    _ ≤ s.length := by
      rw [flatten_wordsIn]
      exact List.length_filter_le _ s

/-- Trimming drops nothing but blanks. -/
theorem filter_trim (s : List Char) : (trim s).filter (!isBlank ·) = s.filter (!isBlank ·) := by
  obtain ⟨front, back, hfront, hback, hs⟩ := exists_trim_append s
  have hnone {t : List Char} (ht : ∀ c ∈ t, isBlank c = true) : t.filter (!isBlank ·) = [] :=
    List.filter_eq_nil_iff.mpr fun c hc ↦ by simp [ht c hc]
  conv_rhs => rw [hs, List.filter_append, List.filter_append, hnone hfront, hnone hback,
    List.nil_append, List.append_nil]

theorem wordsFrom_append_solid {s : List Char} (hs : ∀ c ∈ s, isBlank c = false)
    (word t : List Char) : wordsFrom word (s ++ t) = wordsFrom (s.reverse ++ word) t := by
  induction s generalizing word with
  | nil => rfl
  | cons c s ih =>
    rw [List.forall_mem_cons] at hs
    rw [List.cons_append, wordsFrom, hs.1, if_neg Bool.false_ne_true, ih hs.2, List.reverse_cons,
      List.append_assoc, List.singleton_append]

/-- A word is its only word. -/
theorem IsWord.wordsIn_eq {word : List Char} (h : IsWord word) : wordsIn word = [word] := by
  have hwords := wordsFrom_append_solid h.solid [] []
  rw [List.append_nil, List.append_nil] at hwords
  rw [wordsIn, hwords, wordsFrom, if_neg (by simpa using h.inhabited), List.reverse_reverse]

/-- Words with blanks between them are read again. -/
theorem wordsIn_joinWith_words {c : Char} (hc : isBlank c = true) {words : List (List Char)}
    (h : ∀ word ∈ words, IsWord word) : wordsIn (joinWith [c] words) = words := by
  rw [wordsIn_joinWith hc]
  induction words with
  | nil => rfl
  | cons word words ih =>
    rw [List.forall_mem_cons] at h
    rw [List.flatMap_cons, h.1.wordsIn_eq, ih h.2, List.singleton_append]

/-! ## Words as texts -/

theorem ne_empty_of_mem_wordsOf {s word : String} (h : word ∈ wordsOf s) : word ≠ "" := by
  rw [wordsOf_eq] at h
  obtain ⟨chars, hchars, rfl⟩ := List.mem_map.mp h
  have := (isWord_of_mem_wordsIn hchars).inhabited
  simpa using this

/-- Texts are joined as their characters are. -/
theorem toList_intercalate (sep : String) (parts : List String) :
    (sep.intercalate parts).toList = joinWith sep.toList (parts.map String.toList) := by
  induction parts with
  | nil => simp [joinWith]
  | cons part parts ih =>
    cases parts with
    | nil => simp [joinWith]
    | cons next parts =>
      rw [String.intercalate_cons_cons, String.toList_append, String.toList_append, ih]
      rfl

/-- **Words with spaces between them are a text of these words.** -/
theorem wordsOf_intercalate (s : String) : wordsOf (" ".intercalate (wordsOf s)) = wordsOf s := by
  rw [wordsOf_inj, toList_intercalate, wordsOf_eq, List.map_map]
  have hchars : String.toList ∘ String.ofList = id := funext fun _ ↦ String.toList_ofList
  rw [hchars, List.map_id]
  exact wordsIn_joinWith_words (c := ' ') (by decide) fun _ h ↦ isWord_of_mem_wordsIn h

end Montage
