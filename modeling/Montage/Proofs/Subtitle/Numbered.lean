import Montage.Proofs.Subtitle.Block
import Montage.Proofs.Subtitle.Markup
import Montage.Proofs.Subtitle.Timecode
import Montage.Subtitle.Srt

/-!
# Numbered blocks

SRT documents and WebVTT documents have blocks of one shape: a line with the number of the subtitle,
a line with its window of time, and its text between the tags of its style.

The lines of a marked text end solid as those of the text do, so such a block is a block of a
document (`isPlainBlock_numbered`), and a document is its blocks, whatever the line ends are
(`normalizeText_document`).
-/

set_option autoImplicit false

namespace Montage

/-! ## Marked text -/

/-- A subtitle whose text has no markup, no carriage return, no blank line and no line with blanks at
its end, and whose look is one that inline markup can say. -/
structure Subtitle.IsMarkable (subtitle : Subtitle) : Prop where
  unmarked : '<' ∉ subtitle.text.toList
  plain : '\r' ∉ subtitle.text.toList
  lines : ∀ line ∈ linesOf subtitle.text.toList, line.all Montage.isBlank = false ∧ trimBack line = line
  style : ∀ style ∈ subtitle.style, style.IsInline

/-- The text of a subtitle between the tags of its style. -/
def markedText (subtitle : Subtitle) : List Char :=
  (Markup.write subtitle.style subtitle.text).toList

namespace Subtitle.IsMarkable

variable {subtitle : Subtitle} (h : subtitle.IsMarkable)
include h

theorem isSolid_text : IsSolid subtitle.text.toList := fun line hline ↦
  endsSolid_of_trimBack (h.lines line hline).1 (h.lines line hline).2

theorem isBlank_eq_false : subtitle.isBlank = false := by
  obtain ⟨c, hc, hsolid⟩ := h.isSolid_text.endsSolid.exists_mem
  rw [← Bool.not_eq_true, Subtitle.isBlank, isAllBlank, List.all_eq_true]
  intro hall
  rw [hall c hc] at hsolid
  cases hsolid

/-- Marked text is text between tags that stay in the first and in the last line. -/
theorem markedText_eq : ∃ front back, markedText subtitle = front ++ (subtitle.text.toList ++ back)
    ∧ (∀ c ∈ Markup.lineEnds, c ∉ front ∧ c ∉ back) ∧ (back = [] ∨ EndsSolid back) := by
  cases hstyle : subtitle.style with
  | none =>
    refine ⟨[], [], ?_, fun c _ ↦ ⟨List.not_mem_nil, List.not_mem_nil⟩, .inl rfl⟩
    rw [markedText, hstyle, List.nil_append, List.append_nil]
    rfl
  | some style =>
    have inline := h.style style hstyle
    refine ⟨Markup.tagsBefore style, Markup.tagsBehind style, ?_, fun c hc ↦
      ⟨Markup.lineEnd_not_mem_tagsBefore inline hc, Markup.lineEnd_not_mem_tagsBehind hc⟩, ?_⟩
    · rw [markedText, hstyle, Markup.toList_write fun h ↦ (inline.color "" h).1 rfl]
    · cases hlast : (Markup.tagsBehind style).getLast? with
      | none => exact .inl (List.getLast?_eq_none_iff.mp hlast)
      | some c =>
        have hc := Markup.getLast?_tagsBehind hlast
        exact .inr ⟨c, hlast, by rw [hc]; decide⟩

theorem isSolid_markedText : IsSolid (markedText subtitle) := by
  obtain ⟨front, back, htext, hends, hback⟩ := h.markedText_eq
  obtain ⟨hfront, hbehind⟩ := hends '\n' (by decide)
  rw [htext]
  refine forall_splitAll_front hfront (forall_splitAll_back hbehind h.isSolid_text ?_)
    fun line h ↦ h.append front
  intro line h
  rcases hback with rfl | hback
  · rwa [List.append_nil]
  · exact hback.append line

theorem not_mem_markedText : '\r' ∉ markedText subtitle := by
  obtain ⟨front, back, htext, hends, -⟩ := h.markedText_eq
  obtain ⟨hfront, hback⟩ := hends '\r' (by decide)
  rw [htext, List.mem_append, List.mem_append, not_or, not_or]
  exact ⟨hfront, h.plain, hback⟩

end Subtitle.IsMarkable

/-- What stands in a document for a text is the marked text with line ends. -/
theorem toList_textOf (lineEnding : LineEnding) (addMark : Bool) (subtitle : Subtitle) :
    (Srt.textOf { lineEnding, addMark } subtitle).toList
      = replaceChar '\n' lineEnding.text.toList (markedText subtitle) := by
  rw [Srt.textOf, String.toList_ofList, markedText]
  dsimp only
  rw [if_pos rfl, Wrap.wrap, if_pos le_rfl, String.ofList_toList]

/-! ## Blocks -/

/-- A block of a number, a window and a marked text, with plain line ends. -/
def numberedBlock (number : Nat) (window : List Char) (subtitle : Subtitle) : List Char :=
  (toString number).toList ++ '\n' :: (window ++ '\n' :: markedText subtitle)

/-- A block of a document before its line ends are written. -/
structure IsPlainBlock (block : List Char) : Prop extends IsBlock block where
  plain : '\r' ∉ block
  unmarked : ∀ c ∈ block.head?, c ≠ byteOrderMark

theorem lineEnd_not_mem_numeral (number : Nat) {c : Char} (hc : c ∈ Markup.lineEnds) :
    c ∉ (toString number).toList := by
  have hmarks : ∀ c ∈ Markup.lineEnds, c.isDigit = false := by decide
  intro hmem
  rw [toList_toString_nat] at hmem
  have := isDigit_of_mem_toDigits hmem
  rw [hmarks c hc] at this
  cases this

/-- A written window ends no line. -/
theorem lineEnd_not_mem_window {style : TimeNotation} (standard : style.IsStandard) (start stop : Nat)
    {c : Char} (hc : c ∈ Markup.lineEnds) :
    c ∉ (style.textOfUnits start ++ " --> " ++ style.textOfUnits stop).toList := by
  have hmarks : ∀ c ∈ Markup.lineEnds, c.isDigit = false ∧ c ≠ ':' ∧ c ≠ ',' ∧ c ≠ '.'
      ∧ c ∉ " --> ".toList := by decide
  obtain ⟨hdigit, hcolon, hcomma, hpoint, harrow⟩ := hmarks c hc
  have hmark : c ≠ style.mark := by
    rcases standard.mark with h | h <;> rwa [h]
  have htime : ∀ n, c ∉ (style.textOfUnits n).toList := fun n ↦
    TimeNotation.not_mem_textOfUnits n hdigit ⟨hcolon, hmark⟩
  simp only [String.toList_append, List.mem_append, not_or]
  exact ⟨⟨htime start, harrow⟩, htime stop⟩

/-- A block opens with the first digit of its number. -/
theorem isDigit_of_head?_numberedBlock {number : Nat} {window : List Char} {subtitle : Subtitle}
    {c : Char} (hc : c ∈ (numberedBlock number window subtitle).head?) : c.isDigit = true := by
  obtain ⟨d, ds, hnumber, hd⟩ := toDigits_eq_cons number
  rw [numberedBlock, toList_toString_nat, hnumber] at hc
  cases hc
  exact hd

section

variable (number : Nat) {window : List Char} {subtitle : Subtitle}
  (hwindow : ∀ c ∈ Markup.lineEnds, c ∉ window)
include hwindow

/-- The lines of a block. -/
theorem linesOf_numberedBlock : linesOf (numberedBlock number window subtitle) =
    (toString number).toList :: window :: linesOf (markedText subtitle) := by
  rw [numberedBlock, linesOf, splitAll_part (lineEnd_not_mem_numeral number (by decide)),
    splitAll_part (hwindow _ (by decide))]
  rfl

/-- What is said of the number, of the window and of the lines of the text is said of all lines of
the block. -/
theorem forall_linesOf_numberedBlock {P : List Char → Prop} (hnumber : P (toString number).toList)
    (htiming : P window) (h : ∀ line ∈ linesOf (markedText subtitle), P line) :
    ∀ line ∈ linesOf (numberedBlock number window subtitle), P line := by
  rw [linesOf_numberedBlock number hwindow, List.forall_mem_cons, List.forall_mem_cons]
  exact ⟨hnumber, htiming, h⟩

theorem not_mem_numberedBlock (hplain : '\r' ∉ markedText subtitle) :
    '\r' ∉ numberedBlock number window subtitle := by
  simp only [numberedBlock, List.mem_append, List.mem_cons, not_or]
  exact ⟨lineEnd_not_mem_numeral number (by decide), by decide, hwindow _ (by decide), by decide,
    hplain⟩

omit hwindow in
theorem endsSolid_number : EndsSolid (toString number).toList := by
  rw [toList_toString_nat]
  exact endsSolid_numeral (toDigits_numeral number) Nat.toDigits_ne_nil

/-- **A numbered block is a block of a document.** -/
theorem isPlainBlock_numbered (hsolid : EndsSolid window) (h : subtitle.IsMarkable) :
    IsPlainBlock (numberedBlock number window subtitle) := by
  refine ⟨⟨fun c hc ↦ isBlank_of_isDigit (isDigit_of_head?_numberedBlock hc), ?_⟩,
    not_mem_numberedBlock number hwindow h.not_mem_markedText, ?_⟩
  · exact forall_linesOf_numberedBlock number hwindow (endsSolid_number number) hsolid
      h.isSolid_markedText
  · rintro c hc rfl
    exact absurd (isDigit_of_head?_numberedBlock hc) (by decide)

/-- A block opens solid and has no blank line if its text has none. -/
theorem isLooseBlock_numbered (hsolid : EndsSolid window) (h : IsGapless (markedText subtitle)) :
    IsLooseBlock (numberedBlock number window subtitle) :=
  ⟨fun _ hc ↦ isBlank_of_isDigit (isDigit_of_head?_numberedBlock hc),
    forall_linesOf_numberedBlock number hwindow (endsSolid_number number).all_isBlank
      hsolid.all_isBlank h⟩

/-- A block and an empty line behind it, with line ends. -/
theorem replaceChar_numberedBlock (eol : List Char) :
    replaceChar '\n' eol (numberedBlock number window subtitle ++ ['\n', '\n'])
      = (toString number).toList ++ (eol ++ (window ++ (eol
        ++ (replaceChar '\n' eol (markedText subtitle) ++ (eol ++ eol))))) := by
  simp only [numberedBlock, List.append_assoc, List.cons_append, replaceChar_append,
    replaceChar_cons_self, replaceChar_nil, List.append_nil,
    replaceChar_of_not_mem (lineEnd_not_mem_numeral number (by decide : '\n' ∈ Markup.lineEnds)),
    replaceChar_of_not_mem (hwindow '\n' (by decide))]

end

/-! ## Documents -/

theorem LineEnding.isLineEnd (lineEnding : LineEnding) : IsLineEnd lineEnding.text.toList := by
  cases lineEnding with
  | lf => exact .inl rfl
  | crlf => exact .inr rfl

/-- What may stand in front of a document is the mark that opens it. -/
theorem WriteOptions.mem_opening {options : WriteOptions} {c : Char}
    (h : c ∈ options.opening.toList) : c = byteOrderMark := by
  rw [opening] at h
  split at h
  · rw [String.toList_singleton] at h
    exact List.mem_singleton.mp h
  · cases h

/-- A text that a document can be put together from: it has no carriage return, and opens with a
character that is neither blank nor a mark. -/
structure IsPlainText (text : List Char) : Prop where
  plain : '\r' ∉ text
  opens : ∃ c rest, text = c :: rest ∧ isBlank c = false ∧ c ≠ byteOrderMark

theorem IsPlainBlock.isPlainText {block : List Char} (h : IsPlainBlock block) : IsPlainText block := by
  obtain ⟨c, rest, rfl, hc⟩ := h.isLoose.exists_cons
  exact ⟨h.plain, c, rest, rfl, hc, h.unmarked c rfl⟩

/-- **The plain form of a document is its texts**, with an empty line behind each. -/
theorem normalizeText_documentOf {options : WriteOptions} {texts : List (List Char)}
    (h : ∀ text ∈ texts, IsPlainText text) :
    normalizeText (options.opening.toList
      ++ replaceChar '\n' options.lineEnding.text.toList (documentOf texts)) = documentOf texts := by
  refine normalizeText_written _ (fun _ ↦ WriteOptions.mem_opening) options.lineEnding.isLineEnd ?_ ?_
  · intro hmem
    obtain ⟨text, htext, hmem⟩ := List.mem_flatMap.mp hmem
    rcases List.mem_append.mp hmem with hmem | hmem
    · exact (h text htext).plain hmem
    · exact absurd hmem (by decide)
  · intro c hc
    cases texts with
    | nil => cases hc
    | cons text texts =>
      obtain ⟨d, rest, rfl, hd, hmark⟩ := (h text List.mem_cons_self).opens
      cases hc
      refine ⟨hmark, ?_⟩
      rintro rfl
      exact absurd hd (by decide)

/-- The plain form of a document is its blocks, with an empty line behind each. -/
theorem normalizeText_document (lineEnding : LineEnding) (addMark : Bool)
    {blockTexts : List (List Char)} (h : ∀ block ∈ blockTexts, IsPlainBlock block) :
    normalizeText ((WriteOptions.opening { lineEnding, addMark }).toList
      ++ replaceChar '\n' lineEnding.text.toList (documentOf blockTexts))
      = documentOf blockTexts :=
  @normalizeText_documentOf { lineEnding, addMark } blockTexts fun block hblock ↦
    (h block hblock).isPlainText

/-! ## Subtitles of a document -/

/-- **The subtitles of pieces that are all subtitles are collected** without a warning, however
strict the reader is. -/
theorem collect_subtitles (strict : Bool) {parts : List LabelledPiece} {subtitles : List Subtitle}
    (h : parts.map (·.piece) = subtitles.map fun subtitle ↦ .ok (.subtitle subtitle)) :
    collect strict parts = ⟨.ok subtitles, []⟩ := by
  have hpieces : parts.map (·.piece) = (subtitles.map Piece.subtitle).map .ok := by
    rw [h, List.map_map]
    rfl
  have hfound : (subtitles.map Piece.subtitle).filterMap Piece.subtitle? = subtitles := by
    rw [List.filterMap_map]
    exact List.filterMap_some
  have hcollect := collect_of_ok strict hpieces (by
    rw [List.forall_mem_map]
    rintro _ _ ⟨⟩)
  rwa [hfound] at hcollect

end Montage
