import Mathlib.Data.List.TakeDrop
import Montage.Proofs.Text.Match
import Montage.Subtitle.Markup

/-!
# Inline markup is read back

A text without `<` holds no tag, and neither does what stands round a tag of another letter; so the
tags that a style puts round a text are found one letter after the other, each as the only pair of
its letter, and the font element last (`Markup.read_write`).

Only what inline markup can say comes back: a style is *inline* if it says that text is bold,
slanted, underlined or of a color, and nothing else.
-/

set_option autoImplicit false

namespace Montage

/-- The characters that end the color of a font element, or its line. -/
def colorMarks : List Char := ['<', '>', '"', '\'', '\n', '\r']

/-- What inline markup can say of a text, and something of it. -/
structure Style.IsInline (style : Style) : Prop where
  weight : style.fontWeight = none ∨ style.fontWeight = some "bold"
  slant : style.fontStyle = none ∨ style.fontStyle = some "italic"
  decoration : style.textDecoration = none ∨ style.textDecoration = some "underline"
  color : ∀ color ∈ style.color, color ≠ "" ∧ ∀ c ∈ color.toList, c ∉ colorMarks
  only : style = { fontWeight := style.fontWeight, fontStyle := style.fontStyle,
                   textDecoration := style.textDecoration, color := style.color }
  nonempty : style ≠ {}

namespace Markup

/-! ## Tags of one letter -/

/-- The opening tag of a letter, if it is wanted. -/
def opening (letter : Char) (wanted : Bool) : List Char :=
  if wanted then ['<', letter, '>'] else []

/-- The closing tag of a letter, if it is wanted. -/
def closing (letter : Char) (wanted : Bool) : List Char :=
  if wanted then ['<', '/', letter, '>'] else []

/-- Wherever a tag could begin in the text, none of the letter does, whatever follows the text. -/
abbrev IsFree (letter : Char) (s : List Char) : Prop :=
  Throughout (fun s ↦ tagLength letter s = 0) s

variable {letter : Char}

theorem tagLength_eq_zero {s : List Char} :
    tagLength letter s = 0 ↔ openTag letter s = 0 ∧ closeTag letter s = 0 := by
  rw [tagLength]
  split
  · rename_i h
    simp [h]
  · rename_i h
    simp [h]

theorem tagLength_of_ne {c : Char} (hc : c ≠ '<') (s : List Char) : tagLength letter (c :: s) = 0 := by
  rw [tagLength_eq_zero, openTag.eq_def, closeTag.eq_def]
  constructor
  · split
    · rename_i heq
      exact absurd (List.cons.inj heq).1 hc
    · rfl
  · split
    · rename_i heq
      exact absurd (List.cons.inj heq).1 hc
    · rfl

theorem isFree_of_not_mem {s : List Char} (h : '<' ∉ s) : IsFree letter s :=
  .of_chars fun _ hc rest ↦ tagLength_of_ne (fun heq ↦ h (heq ▸ hc)) rest

/-- The tags of a letter are none of another one. -/
theorem isFree_opening {other : Char} (h : isLetter letter other = false)
    (hother : other ∉ ['<', '/', '>']) (wanted : Bool) : IsFree letter (opening other wanted) := by
  simp only [List.mem_cons, List.not_mem_nil, or_false, not_or] at hother
  cases wanted with
  | false => trivial
  | true =>
    refine ⟨fun rest ↦ tagLength_eq_zero.mpr ⟨?_, ?_⟩,
      isFree_of_not_mem (s := [other, '>']) (by simp [Ne.symm hother.1])⟩
    · show (if isLetter letter other then 3 else 0) = 0
      rw [h]
      rfl
    · rw [closeTag.eq_def]
      split
      · rename_i heq
        exact absurd (List.cons.inj (List.cons.inj heq).2).1 hother.2.1
      · rfl

theorem isFree_closing {other : Char} (h : isLetter letter other = false)
    (hother : other ∉ ['<', '/', '>']) (wanted : Bool) : IsFree letter (closing other wanted) := by
  simp only [List.mem_cons, List.not_mem_nil, or_false, not_or] at hother
  cases wanted with
  | false => trivial
  | true =>
    refine ⟨fun rest ↦ tagLength_eq_zero.mpr ⟨?_, ?_⟩,
      isFree_of_not_mem (s := ['/', other, '>']) (by simp [Ne.symm hother.1])⟩
    · rw [openTag.eq_def]
      split
      · rename_i heq
        exact absurd (List.cons.inj (List.cons.inj (List.cons.inj heq).2).2).1 hother.2.2
      · rfl
    · show (if isLetter letter other then 4 else 0) = 0
      rw [h]
      rfl

theorem hasPair_eq_false {s : List Char} (h : IsFree letter s) : hasPair letter s = false := by
  have hnone : Throughout
      (fun s ↦ (if openTag letter s = 0 then none else some (s.drop 3)) = none) s :=
    h.imp fun s hs ↦ if_pos (tagLength_eq_zero.mp hs).1
  rw [hasPair, hnone.firstMatch?_alone]
  rfl

theorem takeLetter_of_isFree {s : List Char} (h : IsFree letter s) :
    takeLetter letter s = (false, s) := by
  rw [takeLetter, hasPair_eq_false h]
  rfl

/-- **The tags round a text are taken out of it**, and it is known whether there were any. -/
theorem takeLetter_tags (hletter : isLetter letter letter = true) (hbracket : letter ≠ '>')
    (wanted : Bool) (front : List Char) {text : List Char} (back : List Char)
    (hfront : IsFree letter front) (htext : IsFree letter text) (hback : IsFree letter back) :
    takeLetter letter (front ++ (opening letter wanted ++ (text ++ (closing letter wanted ++ back))))
      = (wanted, front ++ (text ++ back)) := by
  cases wanted with
  | false => exact takeLetter_of_isFree (hfront.append (htext.append hback))
  | true =>
    have hopen : ∀ rest, openTag letter (['<', letter, '>'] ++ rest) = 3 := fun rest ↦ if_pos hletter
    have hclose : ∀ rest, closeTag letter (['<', '/', letter, '>'] ++ rest) = 4 :=
      fun rest ↦ if_pos hletter
    have hpair : hasPair letter (front ++ (['<', letter, '>'] ++ (text ++
        (['<', '/', letter, '>'] ++ back)))) = true := by
      have hnone : Throughout
          (fun s ↦ (if openTag letter s = 0 then none else some (s.drop 3)) = none) front :=
        hfront.imp fun s hs ↦ if_pos (tagLength_eq_zero.mp hs).1
      have hbehind : Throughout (fun s ↦ (if closeTag letter s = 0 then none else some ()) = none)
          text := htext.imp fun s hs ↦ if_pos (tagLength_eq_zero.mp hs).2
      rw [hasPair, hnone.firstMatch?, firstMatch?_hit (by rw [hopen, if_neg (by decide)])]
      show hasClose letter (text ++ _) = true
      rw [hasClose, hbehind.firstMatch?, firstMatch?_hit (by rw [hclose, if_neg (by decide)])]
      rfl
    have hlengthOpen : ∀ rest, tagLength letter (['<', letter, '>'] ++ rest) = 3 := fun rest ↦ by
      rw [tagLength, hopen, if_neg (by decide)]
    have hlengthClose : ∀ rest, tagLength letter (['<', '/', letter, '>'] ++ rest) = 4 := by
      intro rest
      have hnone : openTag letter (['<', '/', letter, '>'] ++ rest) = 0 := by
        rw [openTag.eq_def]
        split
        · rename_i heq
          exact absurd (List.cons.inj (List.cons.inj (List.cons.inj heq).2).2).1 hbracket
        · rfl
      rw [tagLength, if_pos hnone, hclose]
    rw [opening, closing, if_pos rfl, if_pos rfl, takeLetter, if_pos hpair, withoutTag,
      hfront.removeMatches, removeMatches_hit (by simp) (hlengthOpen _), htext.removeMatches,
      removeMatches_hit (by simp) (hlengthClose _), hback.removeMatches_alone]

/-! ## Font elements -/

/-- What opens a font element of a color, if there is one. -/
def fontOpening : Option String → List Char
  | none => []
  | some color => "<font color=\"".toList ++ (color.toList ++ "\">".toList)

/-- What closes a font element, if there is one. -/
def fontClosing : Option String → List Char
  | none => []
  | some _ => "</font>".toList

theorem fontOpening_none : fontOpening none = [] := rfl

theorem fontOpening_some (color : String) :
    fontOpening (some color) = "<font color=\"".toList ++ (color.toList ++ "\">".toList) := rfl

theorem fontClosing_none : fontClosing none = [] := rfl

variable {color : Option String}

theorem isFree_fontOpening (hcolor : ∀ name ∈ color, '<' ∉ name.toList) :
    IsFree letter (fontOpening color) := by
  cases color with
  | none => trivial
  | some name =>
    have hmark : '<' ∉ "font color=\"".toList ++ (name.toList ++ "\">".toList) := by
      simp [hcolor name rfl]
    exact ⟨fun rest ↦ rfl, isFree_of_not_mem hmark⟩

theorem isFree_fontClosing (color : Option String) :
    IsFree letter (fontClosing color) := by
  cases color with
  | none => trivial
  | some name => exact ⟨fun rest ↦ rfl, isFree_of_not_mem (s := "/font>".toList) (by decide)⟩

theorem isLetter_bracket {c : Char} (h : isLetter '<' c = true) : c = '<' := by
  have hlower : c.toLower = '<' := by simpa [isLetter, lookalikes] using h
  by_cases hupper : c.val ≥ 'A'.val ∧ c.val ≤ 'Z'.val
  · -- capitals have small letters, and `<` is none
    have hsmall : c.toLower.val = c.val + ('a'.val - 'A'.val) := congrArg Char.val (dif_pos hupper)
    have hval : (c.val + ('a'.val - 'A'.val)).toNat = '<'.val.toNat := by rw [← hsmall, hlower]
    have hlow : 65 ≤ c.val.toNat := hupper.1
    have hhigh : c.val.toNat ≤ 90 := hupper.2
    rw [UInt32.toNat_add, show ('a'.val - 'A'.val).toNat = 32 from rfl,
      show '<'.val.toNat = 60 from rfl, Nat.mod_eq_of_lt (by omega)] at hval
    omega
  · have hsame : c.toLower = c := dif_neg hupper
    rw [← hsame, hlower]

theorem afterWord?_of_ne {c : Char} (hc : c ≠ '<') (word s : List Char) :
    afterWord? ('<' :: word) (c :: s) = none := by
  rw [afterWord?, if_neg (mt isLetter_bracket hc)]

theorem fontColor?_nil : fontColor? [] = none := rfl

theorem fontColor?_of_not_mem {s : List Char} (h : '<' ∉ s) :
    Throughout (fun s ↦ fontColor? s = none) s := by
  refine .of_chars fun c hc rest ↦ ?_
  have hne : c ≠ '<' := fun heq ↦ h (heq ▸ hc)
  rw [fontColor?, show "<font".toList = '<' :: "font".toList from rfl, afterWord?_of_ne hne]
  rfl

theorem fontTag_of_not_mem {s : List Char} (h : '<' ∉ s) :
    Throughout (fun s ↦ fontTag s = 0) s := by
  refine .of_chars fun c hc rest ↦ ?_
  have hne : c ≠ '<' := fun heq ↦ h (heq ▸ hc)
  rw [fontTag, show "<font".toList = '<' :: "font".toList from rfl,
    show "</font".toList = '<' :: "/font".toList from rfl, afterWord?_of_ne hne,
    afterWord?_of_ne hne]
  rfl

theorem fontColor?_opening {name : String} (hne : name ≠ "")
    (hname : ∀ c ∈ name.toList, c ∉ colorMarks) (rest : List Char) :
    fontColor? (fontOpening (some name) ++ rest) = some name := by
  have htext : (name.toList ++ "\">".toList) ++ rest = name.toList ++ '"' :: '>' :: rest := by
    rw [List.append_assoc]
    rfl
  have hword : afterWord? "<font".toList (fontOpening (some name) ++ rest)
      = some (' ' :: ("color=\"".toList ++ (name.toList ++ '"' :: '>' :: rest))) := by
    rw [← htext]
    rfl
  have hblank : trimFront (' ' :: ("color=\"".toList ++ (name.toList ++ '"' :: '>' :: rest)))
      = "color=\"".toList ++ (name.toList ++ '"' :: '>' :: rest) := rfl
  have hattribute : afterWord? "color=".toList
      ("color=\"".toList ++ (name.toList ++ '"' :: '>' :: rest))
      = some ('"' :: (name.toList ++ '"' :: '>' :: rest)) := rfl
  have hvalue : (name.toList ++ '"' :: '>' :: rest).takeWhile
      (fun c ↦ c != '"' && c != '\'' && c != '>') = name.toList := by
    have hall : ∀ c ∈ name.toList, (c != '"' && c != '\'' && c != '>') = true := by
      intro c hc
      have := hname c hc
      simp only [colorMarks, List.mem_cons, List.not_mem_nil, or_false, not_or] at this
      simp [this]
    rw [List.takeWhile_append_of_pos hall, List.takeWhile_cons_of_neg (by decide), List.append_nil]
  have hsome : name.toList.isEmpty = false := by simpa using hne
  have hquote : dropQuote ('"' :: (name.toList ++ '"' :: '>' :: rest))
      = name.toList ++ '"' :: '>' :: rest := by rw [dropQuote, if_pos (.inl rfl)]
  have hend : trimFront (dropQuote ('"' :: '>' :: rest)) = '>' :: rest := rfl
  rw [fontColor?, hword, Option.bind_eq_bind, Option.bind_some]
  dsimp only
  rw [hblank, if_neg (by rw [List.length_cons]; omega)]
  rw [hattribute, Option.bind_some, hquote, hvalue, hsome, if_neg Bool.false_ne_true,
    List.drop_left, hend]
  exact congrArg some String.ofList_toList

theorem fontTag_opening {name : String} (hname : '>' ∉ name.toList) (rest : List Char) :
    fontTag (fontOpening (some name) ++ rest) = (fontOpening (some name)).length := by
  have htext : fontOpening (some name) = "<font".toList
      ++ ((" color=\"".toList ++ (name.toList ++ ['"'])) ++ ['>']) := by
    rw [fontOpening_some, List.append_assoc, List.append_assoc]
    rfl
  have hmark : '>' ∉ " color=\"".toList ++ (name.toList ++ ['"']) := by
    simp [hname]
  have hword : afterWord? "<font".toList (fontOpening (some name) ++ rest)
      = some ((" color=\"".toList ++ (name.toList ++ ['"'])) ++ '>' :: rest) := by
    rw [htext, List.append_assoc, List.append_assoc _ ['>']]
    rfl
  rw [fontTag, hword, Option.some_or]
  dsimp only
  rw [lengthThrough_append hmark, consumed, htext]
  generalize " color=\"".toList ++ (name.toList ++ ['"']) = inner
  simp only [List.length_append, List.length_cons, List.length_nil,
    show "<font".toList.length = 5 from rfl]
  omega

/-- **A font element is taken out of a text**, and its color is known. -/
theorem takeFont_tags (hcolor : ∀ name ∈ color, name ≠ "" ∧ ∀ c ∈ name.toList, c ∉ colorMarks)
    {text : List Char} (htext : '<' ∉ text) :
    takeFont (fontOpening color ++ (text ++ fontClosing color)) = (color, text) := by
  cases color with
  | none =>
    have hnone := (fontColor?_of_not_mem htext).firstMatch?_alone
    rw [fontColor?_nil] at hnone
    rw [fontOpening_none, fontClosing_none, List.nil_append, List.append_nil, takeFont, hnone]
  | some name =>
    obtain ⟨hne, hname⟩ := hcolor name rfl
    have hbracket : '>' ∉ name.toList := fun h ↦ hname _ h (by decide)
    have hclosing : removeMatches fontTag (fontClosing (some name)) = [] := by
      rfl
    rw [takeFont, firstMatch?_hit (fontColor?_opening hne hname _)]
    dsimp only
    rw [removeMatches_hit (by simp [fontOpening_some]) (fontTag_opening hbracket _),
      (fontTag_of_not_mem htext).removeMatches, hclosing, List.append_nil]

/-! ## Reading what was written -/

theorem toList_wrapLetter {name : String} (hname : name.toList = [letter]) (wanted : Bool)
    (text : String) : (wrapLetter name wanted text).toList =
      opening letter wanted ++ (text.toList ++ closing letter wanted) := by
  cases wanted with
  | false => simp [wrapLetter, opening, closing]
  | true => simp [wrapLetter, opening, closing, String.toList_append, hname]

/-- What stands before a text with a style: the bold tag is innermost. -/
def tagsBefore (style : Style) : List Char :=
  fontOpening style.color ++ (opening 'u' style.isUnderlined
    ++ (opening 'i' style.isItalic ++ opening 'b' style.isBold))

/-- What stands behind a text with a style. -/
def tagsBehind (style : Style) : List Char :=
  closing 'b' style.isBold ++ (closing 'i' style.isItalic
    ++ (closing 'u' style.isUnderlined ++ fontClosing style.color))

/-- What is written is the text between the tags of its style. -/
theorem toList_write {style : Style} (hcolor : style.color ≠ some "") (text : String) :
    (write (some style) text).toList = tagsBefore style ++ (text.toList ++ tagsBehind style) := by
  have hb := toList_wrapLetter (show "b".toList = ['b'] from rfl) style.isBold text
  have hi := toList_wrapLetter (show "i".toList = ['i'] from rfl) style.isItalic
    (wrapLetter "b" style.isBold text)
  have hu := toList_wrapLetter (show "u".toList = ['u'] from rfl) style.isUnderlined
    (wrapLetter "i" style.isItalic (wrapLetter "b" style.isBold text))
  rw [hb] at hi
  rw [hi] at hu
  rw [write, tagsBefore, tagsBehind]
  cases hname : style.color with
  | none =>
    rw [fontOpening_none, fontClosing_none, List.nil_append, List.append_nil]
    simpa only [List.append_assoc] using hu
  | some name =>
    have hempty : ¬ name.isEmpty = true := by
      rw [String.isEmpty_iff]
      rintro rfl
      exact hcolor hname
    dsimp only
    rw [if_neg hempty, fontOpening_some]
    simp only [String.toList_append, hu, List.append_assoc]
    rfl

/-- The characters that end a line. -/
def lineEnds : List Char := ['\n', '\r']

theorem lineEnd_not_mem_opening {c : Char} (hc : c ∈ lineEnds) (hletter : letter ∉ lineEnds)
    (wanted : Bool) : c ∉ opening letter wanted := by
  have hbracket : ∀ c ∈ lineEnds, c ≠ '<' ∧ c ≠ '>' := by decide
  have hne : c ≠ letter := fun heq ↦ hletter (heq ▸ hc)
  cases wanted with
  | false => exact List.not_mem_nil
  | true => simp [opening, hbracket c hc, hne]

theorem lineEnd_not_mem_closing {c : Char} (hc : c ∈ lineEnds) (hletter : letter ∉ lineEnds)
    (wanted : Bool) : c ∉ closing letter wanted := by
  have hbracket : ∀ c ∈ lineEnds, c ≠ '<' ∧ c ≠ '/' ∧ c ≠ '>' := by decide
  have hne : c ≠ letter := fun heq ↦ hletter (heq ▸ hc)
  cases wanted with
  | false => exact List.not_mem_nil
  | true => simp [closing, hbracket c hc, hne]

/-- The tags before a text stay in its first line. -/
theorem lineEnd_not_mem_tagsBefore {style : Style} (inline : style.IsInline) {c : Char}
    (hc : c ∈ lineEnds) : c ∉ tagsBefore style := by
  have hfont : c ∉ fontOpening style.color := by
    cases hname : style.color with
    | none => exact List.not_mem_nil
    | some name =>
      have hliterals : ∀ c ∈ lineEnds, c ∉ "<font color=\"".toList ∧ c ∉ "\">".toList := by decide
      have hmarks : ∀ c ∈ lineEnds, c ∈ colorMarks := by decide
      have hmem : c ∉ name.toList := fun h ↦ (inline.color name hname).2 c h (hmarks c hc)
      rw [fontOpening_some, List.mem_append, List.mem_append, not_or, not_or]
      exact ⟨(hliterals c hc).1, hmem, (hliterals c hc).2⟩
  simp only [tagsBefore, List.mem_append, not_or]
  exact ⟨hfont, lineEnd_not_mem_opening hc (by decide) _,
    lineEnd_not_mem_opening hc (by decide) _, lineEnd_not_mem_opening hc (by decide) _⟩

/-- The tags behind a text stay in its last line. -/
theorem lineEnd_not_mem_tagsBehind {style : Style} {c : Char} (hc : c ∈ lineEnds) :
    c ∉ tagsBehind style := by
  have hfont : c ∉ fontClosing style.color := by
    have hliteral : ∀ c ∈ lineEnds, c ∉ "</font>".toList := by decide
    cases style.color with
    | none => exact List.not_mem_nil
    | some name => exact hliteral c hc
  simp only [tagsBehind, List.mem_append, not_or]
  exact ⟨lineEnd_not_mem_closing hc (by decide) _, lineEnd_not_mem_closing hc (by decide) _,
    lineEnd_not_mem_closing hc (by decide) _, hfont⟩

/-- Tags behind a text end with a bracket, if there are any. -/
theorem getLast?_tagsBehind {style : Style} {c : Char} (h : (tagsBehind style).getLast? = some c) :
    c = '>' := by
  have hclosing : ∀ letter wanted, ∀ c ∈ (closing letter wanted).getLast?, c = '>' := by
    intro letter wanted c h
    cases wanted with
    | false => cases h
    | true => exact (Option.some.inj h).symm
  have hfont : ∀ c ∈ (fontClosing style.color).getLast?, c = '>' := by
    intro c h
    cases hcolor : style.color with
    | none =>
      rw [hcolor] at h
      cases h
    | some name =>
      rw [hcolor] at h
      exact (Option.some.inj h).symm
  simp only [tagsBehind, List.getLast?_append, Option.or_eq_some_iff] at h
  obtain ((h | ⟨-, h⟩) | ⟨-, h⟩) | ⟨-, h⟩ := h
  · exact hfont c h
  · exact hclosing _ _ c h
  · exact hclosing _ _ c h
  · exact hclosing _ _ c h

section

variable {style : Style}

/-- What inline markup can say is said by four answers. -/
theorem style_of_isInline (inline : style.IsInline) :
    { fontWeight := if style.isBold then some "bold" else none
      fontStyle := if style.isItalic then some "italic" else none
      textDecoration := if style.isUnderlined then some "underline" else none
      color := style.color } = style := by
  have hweight : (if style.isBold then some "bold" else none) = style.fontWeight := by
    obtain h | h := inline.weight <;> rw [Style.isBold, h] <;> rfl
  have hslant : (if style.isItalic then some "italic" else none) = style.fontStyle := by
    obtain h | h := inline.slant <;> rw [Style.isItalic, h] <;> rfl
  have hdecoration :
      (if style.isUnderlined then some "underline" else none) = style.textDecoration := by
    obtain h | h := inline.decoration <;> rw [Style.isUnderlined, h] <;> rfl
  rw [hweight, hslant, hdecoration, ← inline.only]

/-- One of the answers says something. -/
theorem says_of_isInline (inline : style.IsInline) :
    (style.isBold || style.isItalic || style.isUnderlined || style.color.isSome) = true := by
  rw [← Bool.not_eq_false]
  intro hsilent
  simp only [Bool.or_eq_false_iff, Option.isSome_eq_false_iff, Option.isNone_iff_eq_none] at hsilent
  obtain ⟨⟨⟨hbold, hitalic⟩, hunderlined⟩, hcolor⟩ := hsilent
  have := style_of_isInline inline
  rw [hbold, hitalic, hunderlined, hcolor] at this
  exact inline.nonempty this.symm

end

/-- **A style and a text are read back from what is written for them.** -/
theorem read_write {style : Option Style} (inline : ∀ s ∈ style, s.IsInline) {text : String}
    (htext : '<' ∉ text.toList) :
    read (write style text).toList = (text.toList, style) := by
  cases style with
  | none =>
    have hfont := takeFont_tags (show ∀ name ∈ (none : Option String), _ from by simp) htext
    rw [fontOpening_none, fontClosing_none, List.nil_append, List.append_nil] at hfont
    simp only [write, read, takeLetter_of_isFree (isFree_of_not_mem htext), hfont]
    rfl
  | some style =>
    have inline := inline style rfl
    have hcolor : style.color ≠ some "" := fun h ↦ (inline.color "" h).1 rfl
    have hbracket : ∀ name ∈ style.color, '<' ∉ name.toList := fun name hname h ↦
      (inline.color name hname).2 _ h (by decide)
    have hfree : ∀ letter, IsFree letter text.toList := fun _ ↦ isFree_of_not_mem htext
    have hb := takeLetter_tags (show isLetter 'b' 'b' = true from rfl) (by decide) style.isBold
      (fontOpening style.color ++ (opening 'u' style.isUnderlined
        ++ opening 'i' style.isItalic))
      (closing 'i' style.isItalic ++ (closing 'u' style.isUnderlined
        ++ fontClosing style.color))
      ((isFree_fontOpening hbracket).append ((isFree_opening rfl (by decide) _).append
        (isFree_opening rfl (by decide) _))) (hfree _)
      ((isFree_closing rfl (by decide) _).append ((isFree_closing rfl (by decide) _).append
        (isFree_fontClosing _)))
    have hi := takeLetter_tags (show isLetter 'i' 'i' = true from rfl) (by decide) style.isItalic
      (fontOpening style.color ++ opening 'u' style.isUnderlined)
      (closing 'u' style.isUnderlined ++ fontClosing style.color)
      ((isFree_fontOpening hbracket).append (isFree_opening rfl (by decide) _)) (hfree _)
      ((isFree_closing rfl (by decide) _).append (isFree_fontClosing _))
    have hu := takeLetter_tags (show isLetter 'u' 'u' = true from rfl) (by decide) style.isUnderlined _ _
      (isFree_fontOpening hbracket) (hfree _) (isFree_fontClosing style.color)
    have hfont := takeFont_tags inline.color htext
    simp only [List.append_assoc] at hb hi hu hfont
    rw [toList_write hcolor, tagsBefore, tagsBehind, read]
    simp only [List.append_assoc, hb, hi, hu, hfont]
    rw [says_of_isInline inline, if_pos rfl, style_of_isInline inline]

end Markup
end Montage
