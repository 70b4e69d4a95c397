import Montage.Proofs.Subtitle.Lenient
import Montage.Proofs.Subtitle.Renamed
import Montage.Proofs.Text.Words

/-!
# Blocks that are read apart

A document that is put together from texts with empty lines between them falls into these texts, if
none of them has a blank line or a blank at an end (`blocksOf_intercalate`).  A lenient reader of SRT
then finds in the document what it finds in the texts one by one, sorted and numbered anew: a text that
is no block of a subtitle is skipped, and its neighbours are what they are without it.

Each text alone is read as a document, so what it holds is numbered and named there.  That is undone in
the document, where numbers and names are given last.
-/

set_option autoImplicit false

namespace Montage

attribute [local instance] Rounding.binary64

/-! ## Texts with empty lines between them -/

/-- A text that can stand between empty lines: it has no carriage return and no byte order mark, begins
and ends solid, and has no blank line. -/
structure IsSeparate (text : String) : Prop where
  plain : '\r' ∉ text.toList
  unmarked : byteOrderMark ∉ text.toList
  opens : ∀ c ∈ text.toList.head?, isBlank c = false
  ends : EndsSolid text.toList
  gapless : IsGapless text.toList

instance (s : List Char) : Decidable (EndsSolid s) :=
  decidable_of_iff (s.getLast?.any (!isBlank ·) = true) (by simp [EndsSolid, Option.any_eq_true])

theorem isSeparate_iff {text : String} : IsSeparate text ↔
    '\r' ∉ text.toList ∧ byteOrderMark ∉ text.toList ∧
      text.toList.head?.all (!isBlank ·) = true ∧ EndsSolid text.toList ∧ IsGapless text.toList := by
  have hopens : text.toList.head?.all (!isBlank ·) = true ↔
      ∀ c ∈ text.toList.head?, isBlank c = false := by
    simp [Option.all_eq_true]
  rw [hopens]
  exact ⟨fun ⟨hplain, hmark, hopens, hends, hgapless⟩ ↦ ⟨hplain, hmark, hopens, hends, hgapless⟩,
    fun ⟨hplain, hmark, hopens, hends, hgapless⟩ ↦ ⟨hplain, hmark, hopens, hends, hgapless⟩⟩

instance (text : String) : Decidable (IsSeparate text) := decidable_of_iff' _ isSeparate_iff

/-- What is neither in the texts nor a line feed is not in the document. -/
theorem not_mem_emptyLines {texts : List String} {c : Char} (hc : c ≠ '\n')
    (h : ∀ text ∈ texts, c ∉ text.toList) :
    c ∉ joinWith ['\n', '\n'] (texts.map String.toList) := by
  intro hmem
  rcases mem_joinWith hmem with hmem | ⟨chars, hchars, hmem⟩
  · simp [hc] at hmem
  · obtain ⟨text, htext, rfl⟩ := List.mem_map.mp hchars
    exact h text htext hmem

/-- A text without carriage returns and byte order marks is in its plain form. -/
theorem normalizeText_eq {s : List Char} (hplain : '\r' ∉ s) (hmark : byteOrderMark ∉ s) :
    normalizeText s = s := by
  have hhead : ∀ c ∈ s.head?, (c == byteOrderMark) = false :=
    fun c hc ↦ beq_false_of_ne fun heq ↦ hmark (heq ▸ List.mem_of_mem_head? hc)
  rw [normalizeText, dropWhile_of_head hhead, unifyLineEnds_of_not_mem hplain]

/-- **A document falls into the texts between its empty lines.** -/
theorem blocksOf_intercalate {texts : List String} (h : ∀ text ∈ texts, IsSeparate text) :
    blocksOf ("\n\n".intercalate texts) = texts.map String.toList := by
  by_cases hnil : texts = []
  · rw [hnil]
    rfl
  have hne : texts.map String.toList ≠ [] := by simpa using hnil
  have hloose : ∀ block ∈ texts.map String.toList, IsLooseBlock block :=
    List.forall_mem_map.mpr fun text htext ↦ ⟨(h text htext).opens, (h text htext).gapless⟩
  have hends : ∀ block ∈ texts.map String.toList, EndsSolid block :=
    List.forall_mem_map.mpr fun text htext ↦ (h text htext).ends
  have hplain := not_mem_emptyLines (by decide) fun text htext ↦ (h text htext).plain
  have hmark := not_mem_emptyLines (by decide) fun text htext ↦ (h text htext).unmarked
  have hsplit := blocksFrom_joinWith hne hloose
  have hsolid := endsSolid_joinWith ['\n', '\n'] hne hends
  obtain ⟨c, rest, hopen, hc⟩ := joinWith_eq_cons hne hloose
  rw [hopen] at hplain hmark hsplit hsolid
  have htrim : trim (c :: rest) = c :: rest := by
    rw [trim, trimFront_cons hc, hsolid.trimBack_eq]
  have hfeeds : "\n\n".toList = ['\n', '\n'] := rfl
  rw [blocksOf, toList_intercalate, hfeeds, hopen, normalizeText_eq hplain hmark, htrim]
  exact hsplit

/-! ## Reading apart -/

namespace Subtitle

/-- What is alone has the first number and name. -/
theorem named_inOrder_toList (word : String) (subtitle : Option Subtitle) :
    named word (inOrder subtitle.toList) = subtitle.toList.map (renumbered word 0) := by
  have hsorted : sorted subtitle.toList = subtitle.toList := by
    refine sorted_of_pairwise ?_
    cases subtitle <;> simp
  rw [inOrder, hsorted]
  cases subtitle <;> rfl

/-- Numbers and names are given last. -/
theorem named_inOrder_map_renumbered (word : String) (place : Nat) (subtitles : List Subtitle) :
    named word (inOrder (subtitles.map (renumbered word place))) = named word (inOrder subtitles) := by
  rw [inOrder, inOrder, sorted_map (f := renumbered word place) fun _ ↦ rfl]
  refine List.ext_getElem (by simp [named, numbered]) fun n hleft hright ↦ ?_
  simp [named, numbered, renumbered]

end Subtitle

namespace Srt

variable {options : ReadOptions}

theorem isReading_read (lenient : options.strict = false) (content : String) :
    (format options).IsReading (blocksOf content) [] (read options content) := by
  rw [read, lenient]
  exact BlockFormat.isReading_collect (blocksOf content)

theorem arranged_eq (subtitles : List Subtitle) :
    (format options).arranged subtitles = Subtitle.named "srt" (Subtitle.inOrder subtitles) := rfl

variable {text : String} {texts : List String}

/-- A text alone is a document of one block. -/
theorem isReading_separate (lenient : options.strict = false) (separate : IsSeparate text) :
    (format options).IsReading [text.toList] [] (read options text) := by
  have hblocks := blocksOf_intercalate (List.forall_mem_singleton.mpr separate)
  rw [String.intercalate_singleton] at hblocks
  have hreading := isReading_read lenient text
  rwa [hblocks] at hreading

/-- What is found in a text alone is what it holds, with the first number and name. -/
theorem read_separate {found : List Subtitle} (lenient : options.strict = false)
    (separate : IsSeparate text) (h : (read options text).result = .ok found) :
    found = ((format options).subtitle? text.toList).toList.map (Subtitle.renumbered "srt" 0) := by
  have hone : [text.toList].filterMap (format options).subtitle? =
      ((format options).subtitle? text.toList).toList := rfl
  rw [((isReading_separate lenient separate).eq_of_ok found h).1, hone, arranged_eq,
    Subtitle.named_inOrder_toList]

/-- What is found in texts one by one is what they hold. -/
theorem flatten_separate {parts : List (List Subtitle)} (lenient : options.strict = false)
    (separate : ∀ text ∈ texts, IsSeparate text)
    (h : List.Forall₂ (fun text found ↦ (read options text).result = .ok found) texts parts) :
    parts.flatten = ((texts.map String.toList).filterMap (format options).subtitle?).map
      (Subtitle.renumbered "srt" 0) := by
  induction h with
  | nil => rfl
  | @cons text found texts parts hfound _ ih =>
    rw [List.forall_mem_cons] at separate
    rw [List.flatten_cons, ih separate.2, read_separate lenient separate.1 hfound, List.map_cons]
    cases hsubtitle : (format options).subtitle? text.toList <;> simp [hsubtitle]

/-- **The texts of a document are read apart.**  The document can be read if each text can, and then
gives what the texts give one by one, sorted by start and numbered and named anew. -/
theorem read_intercalate (lenient : options.strict = false)
    (separate : ∀ text ∈ texts, IsSeparate text) :
    ((∃ subtitles, (read options ("\n\n".intercalate texts)).result = .ok subtitles) ↔
        ∀ text ∈ texts, ∃ found, (read options text).result = .ok found) ∧
      ∀ parts, List.Forall₂ (fun text found ↦ (read options text).result = .ok found) texts parts →
        (read options ("\n\n".intercalate texts)).result =
          .ok (Subtitle.named "srt" (Subtitle.inOrder parts.flatten)) := by
  have hreading := isReading_read lenient ("\n\n".intercalate texts)
  rw [blocksOf_intercalate separate] at hreading
  have hsucceeds : (∃ subtitles, (read options ("\n\n".intercalate texts)).result = .ok subtitles) ↔
      ∀ text ∈ texts, ∃ found, (read options text).result = .ok found := by
    rw [hreading.succeeds_iff, List.forall_mem_map]
    refine forall₂_congr fun text htext ↦ ?_
    rw [(isReading_separate lenient (separate text htext)).succeeds_iff, List.forall_mem_singleton]
  refine ⟨hsucceeds, fun parts hparts ↦ ?_⟩
  obtain ⟨subtitles, hsubtitles⟩ := hsucceeds.mpr fun text htext ↦ by
    obtain ⟨n, hn, rfl⟩ := List.getElem_of_mem htext
    exact ⟨_, hparts.get hn (hparts.length_eq ▸ hn)⟩
  rw [hsubtitles, (hreading.eq_of_ok subtitles hsubtitles).1, arranged_eq,
    flatten_separate lenient separate hparts, Subtitle.named_inOrder_map_renumbered]

/-- Two blocks that are not in order, and a text without a window between them. -/
def interrupted : List String := [
  "1\n00:00:05,000 --> 00:00:06,000\nThen", "2\n00:00:03,000 -> later",
  "3\n00:00:01,000 --> 00:00:02,000\nFirst"]

theorem interrupted_read : ({} : ReadOptions).strict = false ∧
    (∀ text ∈ interrupted, IsSeparate text) ∧
      ∃ parts, List.Forall₂ (fun text found ↦ (read {} text).result = .ok found) interrupted parts ∧
        parts.map (·.map (·.text)) = [["Then"], [], ["First"]] ∧
        (read {} ("\n\n".intercalate interrupted)).result =
          .ok (Subtitle.named "srt" (Subtitle.inOrder parts.flatten)) := by
  have hseparate : ∀ text ∈ interrupted, IsSeparate text := by decide +kernel
  have hread (text : String) (lines : List String)
      (h : (read {} text).result.toOption.map (·.map (·.text)) = some lines) :
      ∃ found, (read {} text).result = .ok found ∧ found.map (·.text) = lines := by
    obtain ⟨found, hfound, rfl⟩ := Option.map_eq_some_iff.mp h
    exact ⟨found, toOption_eq_some.mp hfound, rfl⟩
  obtain ⟨before, hbefore, hthen⟩ := hread interrupted[0] ["Then"] (by decide +kernel)
  obtain ⟨between, hbetween, hnone⟩ := hread interrupted[1] [] (by decide +kernel)
  obtain ⟨behind, hbehind, hfirst⟩ := hread interrupted[2] ["First"] (by decide +kernel)
  have hparts : List.Forall₂ (fun text found ↦ (read {} text).result = .ok found) interrupted
      [before, between, behind] := .cons hbefore (.cons hbetween (.cons hbehind .nil))
  refine ⟨rfl, hseparate, _, hparts, ?_, (read_intercalate rfl hseparate).2 _ hparts⟩
  rw [List.map_cons, List.map_cons, List.map_singleton, hthen, hnone, hfirst]

end Srt
end Montage
