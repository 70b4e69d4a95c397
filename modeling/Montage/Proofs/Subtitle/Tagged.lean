import Montage.Proofs.Subtitle.Markup
import Montage.Proofs.Subtitle.Seen

/-!
# Texts between tags

Writing puts the tags of a style round a text, whatever the style says beside what inline markup can
say (`Markup.write_inlinePart`).  The tags stay in the first and in the last line of the text, end
solid, and nothing is seen of them.

A reader drops the blanks at the ends of lines before it looks for tags.  What it finds then is a text
of the same words between the same tags (`Markup.exists_retold`).
-/

set_option autoImplicit false

namespace Montage
namespace Markup

/-! ## The inline part of a style -/

/-- What inline markup can say of a text with a style. -/
def inlineStyle (style : Style) : Style where
  fontWeight := if style.isBold then some "bold" else none
  fontStyle := if style.isItalic then some "italic" else none
  textDecoration := if style.isUnderlined then some "underline" else none
  color := style.color.filter (· ≠ "")

/-- What inline markup can say of a text with a style, if it can say something. -/
def inlinePart (style : Style) : Option Style :=
  if inlineStyle style = {} then none else some (inlineStyle style)

section

variable (style : Style)

theorem isBold_inlineStyle : (inlineStyle style).isBold = style.isBold := by
  show ["bold", "700", "800", "900"].contains
    (Style.lowercase (if style.isBold then some "bold" else none)) = style.isBold
  cases style.isBold <;> decide

theorem isItalic_inlineStyle : (inlineStyle style).isItalic = style.isItalic := by
  show (Style.lowercase (if style.isItalic then some "italic" else none) == "italic") = style.isItalic
  cases style.isItalic <;> decide

theorem isUnderlined_inlineStyle : (inlineStyle style).isUnderlined = style.isUnderlined := by
  show (Style.lowercase (if style.isUnderlined then some "underline" else none) == "underline") =
    style.isUnderlined
  cases style.isUnderlined <;> decide

theorem color_inlineStyle : (inlineStyle style).color = style.color.filter (· ≠ "") := rfl

/-- **Of a style, writing looks at the inline part alone.** -/
theorem write_inlinePart (style : Option Style) (text : String) :
    write (style.bind inlinePart) text = write style text := by
  cases style with
  | none => rfl
  | some style =>
    have hinline : write (some (inlineStyle style)) text = write (some style) text := by
      rw [write, write]
      simp only [isBold_inlineStyle, isItalic_inlineStyle, isUnderlined_inlineStyle, color_inlineStyle]
      cases style.color with
      | none => rfl
      | some name =>
        by_cases hname : name = ""
        · rw [hname]
          rfl
        · rw [Option.filter_some, if_pos (by simpa using hname)]
    rw [Option.bind_some, inlinePart]
    split
    · rename_i hempty
      rw [← hinline, hempty]
      rfl
    · exact hinline

end

/-- The color of a style can stand in a font element. -/
def IsPlainColor (style : Style) : Prop :=
  ∀ name ∈ style.color, ∀ c ∈ name.toList, c ∉ colorMarks

theorem isInline_of_mem_inlinePart {style part : Style} (hcolor : IsPlainColor style)
    (h : part ∈ inlinePart style) : part.IsInline := by
  rw [inlinePart] at h
  split at h
  · cases h
  rename_i hnonempty
  obtain rfl := Option.some.inj h
  constructor
  case weight => exact (em style.isBold).symm.imp (if_neg ·) (if_pos ·)
  case slant => exact (em style.isItalic).symm.imp (if_neg ·) (if_pos ·)
  case decoration => exact (em style.isUnderlined).symm.imp (if_neg ·) (if_pos ·)
  case color =>
    intro name hname
    obtain ⟨hname, hne⟩ := Option.filter_eq_some_iff.mp hname
    exact ⟨by simpa using hne, hcolor name hname⟩
  case only => rfl
  case nonempty => exact hnonempty

/-! ## Ends of tags -/

/-- Tags before a text end with a bracket, if there are any. -/
theorem getLast?_tagsBefore {style : Style} {c : Char} (h : (tagsBefore style).getLast? = some c) :
    c = '>' := by
  have hopening : ∀ letter wanted, ∀ c ∈ (opening letter wanted).getLast?, c = '>' := by
    intro letter wanted c h
    cases wanted with
    | false => cases h
    | true => exact (Option.some.inj h).symm
  have hfont : ∀ c ∈ (fontOpening style.color).getLast?, c = '>' := by
    intro c h
    cases hname : style.color with
    | none =>
      rw [hname] at h
      cases h
    | some name =>
      rw [hname, fontOpening_some, ← List.append_assoc, List.getLast?_append] at h
      exact (Option.some.inj h).symm
  simp only [tagsBefore, List.getLast?_append, Option.or_eq_some_iff] at h
  obtain ((h | ⟨-, h⟩) | ⟨-, h⟩) | ⟨-, h⟩ := h
  · exact hopening _ _ c h
  · exact hopening _ _ c h
  · exact hopening _ _ c h
  · exact hfont c h

/-! ## What is seen of tags -/

section

variable {letter : Char} (hbracket : letter ≠ '>') (hfeed : letter ≠ '\n') (wanted : Bool) (s : List Char)
include hbracket hfeed

theorem seen_opening : seen (opening letter wanted ++ s) = seen s := by
  cases wanted with
  | false => rfl
  | true =>
    exact @seen_tag [letter] (by simpa using hbracket.symm) (by simpa using hfeed.symm) s

theorem seen_closing : seen (closing letter wanted ++ s) = seen s := by
  cases wanted with
  | false => rfl
  | true =>
    exact @seen_tag ['/', letter] (by simpa using hbracket.symm) (by simpa using hfeed.symm) s

end

theorem seen_tagsBefore {style : Style} (hcolor : IsPlainColor style) (s : List Char) :
    seen (tagsBefore style ++ s) = seen s := by
  have hfont (s : List Char) : seen (fontOpening style.color ++ s) = seen s := by
    cases hname : style.color with
    | none => rfl
    | some name =>
      have hinside {c : Char} (hc : c ∈ colorMarks) (hliteral : c ∉ "font color=\"".toList ++ ['"']) :
          c ∉ "font color=\"".toList ++ (name.toList ++ ['"']) := by
        simp only [List.mem_append, not_or] at hliteral ⊢
        exact ⟨hliteral.1, fun h ↦ hcolor name hname c h hc, hliteral.2⟩
      have htag := seen_tag (hinside (by decide) (by decide)) (hinside (by decide) (by decide)) s
      rw [fontOpening_some]
      simpa using htag
  rw [tagsBefore, List.append_assoc, List.append_assoc, List.append_assoc, hfont,
    seen_opening (by decide) (by decide), seen_opening (by decide) (by decide),
    seen_opening (by decide) (by decide)]

theorem seen_tagsBehind (style : Style) : seen (tagsBehind style) = 0 := by
  have hfont : seen (fontClosing style.color) = 0 := by
    cases style.color with
    | none => rfl
    | some name => exact seen_tag (by decide : '>' ∉ "/font".toList) (by decide) []
  rw [tagsBehind, seen_closing (by decide) (by decide), seen_closing (by decide) (by decide),
    seen_closing (by decide) (by decide), hfont]

/-! ## Tags of any style -/

/-- What stands before a text with a style, if it has one. -/
def tagsInFront (style : Option Style) : List Char := (style.bind inlinePart).elim [] tagsBefore

/-- What stands behind a text with a style, if it has one. -/
def tagsAtEnd (style : Option Style) : List Char := (style.bind inlinePart).elim [] tagsBehind

theorem endsSolid_tags (style : Option Style) :
    (tagsInFront style = [] ∨ EndsSolid (tagsInFront style)) ∧
      (tagsAtEnd style = [] ∨ EndsSolid (tagsAtEnd style)) := by
  have hends {s : List Char} (h : ∀ c, s.getLast? = some c → c = '>') : s = [] ∨ EndsSolid s := by
    cases hlast : s.getLast? with
    | none => exact .inl (List.getLast?_eq_none_iff.mp hlast)
    | some c => exact .inr ⟨c, hlast, by rw [h c hlast]; decide⟩
  rw [tagsInFront, tagsAtEnd]
  cases style.bind inlinePart with
  | none => exact ⟨.inl rfl, .inl rfl⟩
  | some part => exact ⟨hends fun _ ↦ getLast?_tagsBefore, hends fun _ ↦ getLast?_tagsBehind⟩

section

variable {style : Option Style} (hcolor : ∀ s ∈ style, IsPlainColor s)
include hcolor

theorem isInline_of_mem_bind : ∀ part ∈ style.bind inlinePart, part.IsInline := by
  intro part hpart
  obtain ⟨s, hs, hpart⟩ := Option.bind_eq_some_iff.mp hpart
  exact isInline_of_mem_inlinePart (hcolor s hs) hpart

/-- What is written is the text between its tags. -/
theorem toList_write_tags (text : String) : (write style text).toList =
    tagsInFront style ++ (text.toList ++ tagsAtEnd style) := by
  have inline := isInline_of_mem_bind hcolor
  rw [← write_inlinePart, tagsInFront, tagsAtEnd]
  cases hpart : style.bind inlinePart with
  | none => simp [write]
  | some part =>
    rw [toList_write fun h ↦ ((inline part hpart).color "" h).1 rfl]
    rfl

/-- **A text is read back from between its tags**, whatever the style. -/
theorem read_tags {s : List Char} (hs : '<' ∉ s) :
    (read (tagsInFront style ++ (s ++ tagsAtEnd style))).1 = s := by
  have htext : '<' ∉ (String.ofList s).toList := by rwa [String.toList_ofList]
  have hwritten := toList_write_tags hcolor (String.ofList s)
  have hread := read_write (isInline_of_mem_bind hcolor) htext
  rw [write_inlinePart, hwritten, String.toList_ofList] at hread
  rw [hread]

theorem lineEnd_not_mem_tags {c : Char} (hc : c ∈ lineEnds) :
    c ∉ tagsInFront style ∧ c ∉ tagsAtEnd style := by
  have inline := isInline_of_mem_bind hcolor
  rw [tagsInFront, tagsAtEnd]
  cases hpart : style.bind inlinePart with
  | none => exact ⟨List.not_mem_nil, List.not_mem_nil⟩
  | some part =>
    exact ⟨lineEnd_not_mem_tagsBefore (inline part hpart) hc, lineEnd_not_mem_tagsBehind hc⟩

/-- **Nothing is seen of the tags** round a text. -/
theorem seen_tags {s : List Char} (hs : '<' ∉ s) :
    seen (tagsInFront style ++ (s ++ tagsAtEnd style)) = seen s := by
  have inline := isInline_of_mem_bind hcolor
  rw [tagsInFront, tagsAtEnd]
  cases hpart : style.bind inlinePart with
  | none => exact congrArg seen (List.append_nil s)
  | some part =>
    show seen (tagsBefore part ++ (s ++ tagsBehind part)) = seen s
    rw [seen_tagsBefore fun name hname ↦ ((inline part hpart).color name hname).2, seen_append hs,
      seen_tagsBehind, Nat.add_zero, seen_of_not_mem hs]

end

/-! ## Blanks at the ends of lines -/

variable {front back : List Char}

theorem trimBack_solid_append (hsolid : front = [] ∨ EndsSolid front) (s : List Char) :
    trimBack (front ++ s) = front ++ trimBack s := by
  rcases hsolid with rfl | hsolid
  · rfl
  · by_cases hblank : s.all isBlank = true
    · have hnil : trimBack s = [] := trimBack_append_blank (List.all_eq_true.mp hblank) []
      rw [hsolid.trimBack_append (List.all_eq_true.mp hblank), hnil, List.append_nil]
    · exact trimBack_append (Bool.not_eq_true _ ▸ hblank) front

/-- What stands in front of the first line is kept. -/
theorem bodyText_append (hfeed : '\n' ∉ front) (hsolid : front = [] ∨ EndsSolid front) (s : List Char) :
    bodyText (linesOf (front ++ s)) = front ++ bodyText (linesOf s) := by
  obtain ⟨part, parts, hs⟩ := List.exists_cons_of_ne_nil (splitAll_ne_nil '\n' s)
  rw [linesOf, splitAll_append hfeed hs, linesOf, hs, bodyText, bodyText, List.map_cons, List.map_cons,
    trimBack_solid_append hsolid, joinWith_cons, joinWith_cons, List.append_assoc]

/-- What stands behind the last line is kept, and the words of the text are. -/
theorem exists_bodyText (hfeed : '\n' ∉ back) (hsolid : back = [] ∨ EndsSolid back) (s : List Char) :
    ∃ t, bodyText (linesOf (s ++ back)) = t ++ back ∧ wordsIn t = wordsIn s := by
  obtain ⟨parts, last, hlast⟩ := exists_lastPart '\n' s
  have hlines := hlast [] List.not_mem_nil
  rw [List.append_nil, List.append_nil] at hlines
  obtain ⟨trimmed, htrimmed, hwords⟩ :
      ∃ trimmed, trimBack (last ++ back) = trimmed ++ back ∧ wordsIn trimmed = wordsIn last := by
    rcases hsolid with rfl | hsolid
    · exact ⟨trimBack last, by rw [List.append_nil, List.append_nil], wordsIn_trimBack last⟩
    · exact ⟨last, (hsolid.append last).trimBack_eq, rfl⟩
  refine ⟨joinWith ['\n'] (parts.map trimBack ++ [trimmed]), ?_, ?_⟩
  · rw [linesOf, hlast back hfeed, bodyText, List.map_append, List.map_singleton, htrimmed,
      joinWith_concat]
  · have hparts : (parts.map trimBack).flatMap wordsIn = parts.flatMap wordsIn := by
      rw [List.flatMap_map]
      exact List.flatMap_congr fun part _ ↦ wordsIn_trimBack part
    rw [wordsIn_joinWith (by decide), List.flatMap_append, hparts, List.flatMap_singleton, hwords,
      ← wordsIn_linesOf s, linesOf, hlines, List.flatMap_append, List.flatMap_singleton]

/-- **Without the blanks at the ends of its lines, a text between tags is a text of the same words
between the same tags.** -/
theorem exists_retold {style : Option Style} (hcolor : ∀ s ∈ style, IsPlainColor s) (s : List Char) :
    ∃ t, joinWith ['\n'] (trimmedLines (trimBack (tagsInFront style ++ (s ++ tagsAtEnd style)))) =
      tagsInFront style ++ (t ++ tagsAtEnd style) ∧ wordsIn t = wordsIn s := by
  obtain ⟨hfront, hback⟩ := endsSolid_tags style
  obtain ⟨hfrontFeed, hbackFeed⟩ := lineEnd_not_mem_tags hcolor (show '\n' ∈ lineEnds by decide)
  obtain ⟨middle, hmiddle, hwords⟩ :
      ∃ middle, trimBack (s ++ tagsAtEnd style) = middle ++ tagsAtEnd style ∧
        wordsIn middle = wordsIn s := by
    rcases hback with hnil | hsolid
    · exact ⟨trimBack s, by rw [hnil, List.append_nil, List.append_nil], wordsIn_trimBack s⟩
    · exact ⟨s, (hsolid.append s).trimBack_eq, rfl⟩
  obtain ⟨t, ht, hsame⟩ := exists_bodyText hbackFeed hback middle
  refine ⟨t, ?_, hsame.trans hwords⟩
  show bodyText (linesOf _) = _
  rw [trimBack_solid_append hfront, hmiddle, bodyText_append hfrontFeed hfront, ht]

end Markup
end Montage
