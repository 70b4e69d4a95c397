import Montage.Proofs.Subtitle.Markup
import Montage.Proofs.Subtitle.Script.Place
import Montage.Proofs.Subtitle.Timecode
import Montage.Subtitle.Script.Reader

/-!
# Lines of dialogue

A line of dialogue holds one subtitle: its times, and in the last field its text behind a block of
tags.  The block says what the subtitle says (`Script.exists_block`), and the fields of the line are
those that it was written with, whatever the text holds behind the last comma
(`Script.dialogueValues_lineOf`).  So the line is read as the subtitle that it was written for
(`Script.exists_line`).
-/

set_option autoImplicit false

namespace Montage

/-! ## What a script can hold -/

attribute [local instance] Rounding.binary64

/-- A subtitle that a script can hold: its times survive the notation, its text neither is blank nor
begins or ends with blanks, it has no marks of its own, and override tags can say the rest. -/
structure Subtitle.IsScript (subtitle : Subtitle) : Prop where
  start : TimeNotation.ass.Survives subtitle.start
  stop : TimeNotation.ass.Survives subtitle.stop
  solid : isAllBlank subtitle.text = false
  trimmed : trim subtitle.text.toList = subtitle.text.toList
  plain : ∀ c ∈ ['\x7b', '\x7d', '\\', '\r'], c ∉ subtitle.text.toList
  style : ∀ style ∈ subtitle.style, style.IsScript
  position : ∀ position ∈ subtitle.position, position.IsScript
  animation : ∀ animation ∈ subtitle.animation, animation.IsScript

/-- What is read for a subtitle: its text, its times, its style, its position and its animation, and
nothing else.  No written number has a zero with a sign. -/
def Subtitle.unsigned (subtitle : Subtitle) : Subtitle where
  text := subtitle.text
  start := subtitle.start.unsigned
  stop := subtitle.stop.unsigned
  style := subtitle.style.map Style.unsigned
  position := subtitle.position.map Position.unsigned
  animation := subtitle.animation

namespace Script

variable {subtitle : Subtitle}

/-! ## Tags of a subtitle -/

/-- What tags say of a subtitle. -/
structure Says (said : Overrides) (subtitle : Subtitle) : Prop where
  style : said.styleOf = .ok (subtitle.style.map Style.unsigned)
  position : said.positionOf = subtitle.position.map Position.unsigned
  animation : said.animationOf = .ok subtitle.animation

theorem exists_styled (holds : subtitle.IsScript) :
    ∃ texts after, tagsFor styleTags subtitle.style = .ok texts ∧ Tells texts {} after
      ∧ after.styleOf = .ok (subtitle.style.map Style.unsigned) ∧ after.place = none
      ∧ after.fades = none := by
  cases hstyle : subtitle.style with
  | none => exact ⟨[], {}, rfl, .nothing _, rfl, rfl, rfl⟩
  | some style =>
    have hscript := holds.style style hstyle
    obtain ⟨texts, htexts, htells⟩ := exists_styleTags hscript
    exact ⟨texts, _, htexts, htells, styleOf_unsigned hscript rfl, rfl, rfl⟩

theorem exists_placed (heading : Heading) (holds : subtitle.IsScript) {before : Overrides}
    (hplace : before.place = none) :
    ∃ texts after, tagsFor (placeTags heading) subtitle.position = .ok texts
      ∧ Tells texts before after ∧ after.positionOf = subtitle.position.map Position.unsigned
      ∧ after.style = before.style ∧ after.fades = before.fades := by
  cases hposition : subtitle.position with
  | none => exact ⟨[], before, rfl, .nothing _, by rw [Overrides.positionOf, hplace]; rfl, rfl, rfl⟩
  | some position => exact exists_placeTags before heading (holds.position position hposition)

theorem exists_faded (holds : subtitle.IsScript) {before : Overrides} (hfades : before.fades = none) :
    ∃ texts after, tagsFor fadeTags subtitle.animation = .ok texts
      ∧ Tells texts before after ∧ after.animationOf = .ok subtitle.animation
      ∧ after.style = before.style ∧ after.positionOf = before.positionOf := by
  cases hanimation : subtitle.animation with
  | none =>
    refine ⟨[], before, rfl, .nothing _, ?_, rfl, rfl⟩
    rw [Overrides.animationOf, hfades]
  | some animation => exact exists_fadeTags (holds.animation animation hanimation) before

/-- Texts of tags in braces are the block of the tags, and no texts are no block. -/
theorem exists_braced {texts : List String} {before after : Overrides} (tells : Tells texts before after) :
    ∃ block tags, (match texts with
        | [] => .ok ""
        | texts => .ok ("\x7b" ++ String.join texts ++ "\x7d") : Except Error String) = .ok block
      ∧ block.toList = blockOf tags ∧ (∀ tag ∈ tags, IsWritten tag)
      ∧ before.addAll tags = .ok after := by
  obtain ⟨tags, hjoin, hempty, hwritten, hadd⟩ := tells
  cases texts with
  | nil =>
    refine ⟨"", tags, rfl, ?_, hwritten, hadd⟩
    rw [hempty.mp rfl]
    rfl
  | cons text texts =>
    refine ⟨"\x7b" ++ String.join (text :: texts) ++ "\x7d", tags, rfl, ?_, hwritten, hadd⟩
    have hsome : tags.isEmpty = false := by
      rw [List.isEmpty_eq_false_iff]
      exact fun h ↦ absurd (hempty.mpr h) (List.cons_ne_nil _ _)
    rw [String.toList_append, String.toList_append, hjoin, blockOf, hsome]
    rfl

/-- **The block of a subtitle says what the subtitle says.** -/
theorem exists_block (heading : Heading) (holds : subtitle.IsScript) :
    ∃ block tags said, overrideBlock heading subtitle = .ok block
      ∧ block.toList = blockOf tags ∧ (∀ tag ∈ tags, IsWritten tag)
      ∧ ({} : Overrides).addAll tags = .ok said ∧ Says said subtitle := by
  obtain ⟨styleTexts, styled, hstyle, hstyled, hsaidStyle, hplace, hfades⟩ := exists_styled holds
  obtain ⟨placeTexts, placed, hplaceTexts, hplaced, hsaidPlace, hstyleKept, hfadesKept⟩ :=
    exists_placed heading holds hplace
  obtain ⟨fadeTexts, said, hfadeTexts, hsaid, hsaidFade, hstyleKept', hplaceKept⟩ :=
    exists_faded holds (hfadesKept.trans hfades)
  have htold : Says said subtitle := by
    refine ⟨?_, hplaceKept.trans hsaidPlace, hsaidFade⟩
    rw [← hsaidStyle, Overrides.styleOf, hstyleKept', hstyleKept]
    rfl
  obtain ⟨block, tags, hblock, htags, hwritten, hadd⟩ :=
    exists_braced ((hstyled.append hplaced).append hsaid)
  refine ⟨block, tags, said, ?_, htags, hwritten, hadd, htold⟩
  rw [overrideBlock, hstyle, hplaceTexts, hfadeTexts]
  exact hblock

/-! ## Fields -/

/-- A written time, given in hundredths of a second. -/
def timeText (n : Nat) : List Char := (TimeNotation.ass.textOfUnits n).toList

/-- A line of dialogue from the word that it opens with, the name of its style and its text, its
times being given in hundredths of a second. -/
def lineOf (kind style : List Char) (start stop : Nat) (text : List Char) : List Char :=
  kind ++ ':' :: ' ' :: '0' :: ',' :: (timeText start ++ ',' :: (timeText stop ++ ',' ::
    (style ++ ',' :: ',' :: '0' :: ',' :: '0' :: ',' :: '0' :: ',' :: ',' :: text)))

theorem not_mem_timeText {c : Char} (hdigit : c.isDigit = false) (hmark : c ≠ ':' ∧ c ≠ '.')
    (n : Nat) : c ∉ timeText n :=
  TimeNotation.not_mem_textOfUnits n hdigit hmark

/-- **The last field of a line takes the rest of the line**, commas included. -/
theorem dialogueValues_lineOf {kind style : List Char} (hkind : ':' ∉ kind) (hstyle : ',' ∉ style)
    (start stop : Nat) (text : List Char) :
    dialogueValues eventFields (lineOf kind style start stop text) =
      [['0'], timeText start, timeText stop, style, [], ['0'], ['0'], ['0'], [], text] := by
  have htimes : ∀ n, ',' ∉ timeText n := not_mem_timeText (by decide) (by decide)
  have hempty : ∀ (cuts : Nat) (s : List Char),
      splitMost ',' (cuts + 1) (',' :: s) = [] :: splitMost ',' cuts s :=
    splitMost_part List.not_mem_nil
  have hzero : ∀ (cuts : Nat) (s : List Char),
      splitMost ',' (cuts + 1) ('0' :: ',' :: s) = ['0'] :: splitMost ',' cuts s :=
    splitMost_part (by decide : ',' ∉ ['0'])
  have hfields : eventFields.length - 1 = 9 := by decide
  have hblank : ∀ s, trimFront (' ' :: '0' :: s) = '0' :: s := fun s ↦ by
    rw [trimFront, List.dropWhile_cons_of_pos (by decide), ← trimFront, trimFront_cons (by decide)]
  rw [dialogueValues, hfields, lineValue, lineOf, cutAt_part hkind]
  dsimp only
  rw [hblank, hzero 8, splitMost_part (htimes start) 7, splitMost_part (htimes stop) 6,
    splitMost_part hstyle 5, hempty 4, hzero 3, hzero 2, hzero 1, hempty 0, splitMost]

/-- Where all fields have names of their own, the value of a field is the one that stands at its
place. -/
theorem valueOf_of_place {fields values : List (List Char)} (distinct : fields.Nodup)
    {field : String} {value : List Char} (place : Nat) (hfield : fields[place]? = some field.toList)
    (hvalue : values[place]? = some value) : valueOf fields values field = value := by
  have hnamed : (fields.zip values).filter (fun pair ↦ pair.1 == field.toList)
      = [(field.toList, value)] := by
    induction fields generalizing values place with
    | nil => cases hfield
    | cons first fields ih =>
      obtain ⟨first', values, rfl⟩ : ∃ first' rest, values = first' :: rest := by
        cases values with
        | nil => cases hvalue
        | cons first' rest => exact ⟨first', rest, rfl⟩
      rw [List.nodup_cons] at distinct
      rw [List.zip_cons_cons, List.filter_cons]
      cases place with
      | zero =>
        cases hfield
        cases hvalue
        rw [if_pos (beq_self_eq_true _), List.filter_eq_nil_iff.mpr]
        rintro ⟨other, _⟩ hmem heq
        exact distinct.1 (eq_of_beq heq ▸ (List.of_mem_zip hmem).1)
      | succ place =>
        have hne : ¬ (first == field.toList) = true := fun heq ↦
          distinct.1 (eq_of_beq heq ▸ List.mem_of_getElem? hfield)
        rw [if_neg hne]
        exact ih distinct.2 place hfield hvalue
  rw [valueOf, hnamed]
  rfl

/-! ## Reading a line -/

/-- The text of a line: a block of tags and the text of the subtitle, with marks for its line
ends. -/
def textOf (tags : List (Tag × List Char)) (subtitle : Subtitle) : List Char :=
  blockOf tags ++ replaceChar '\n' ['\\', 'N'] subtitle.text.toList

/-- The line of dialogue of a subtitle with some tags. -/
def lineFor (tags : List (Tag × List Char)) (start stop : Nat) (subtitle : Subtitle) : List Char :=
  lineOf "Dialogue".toList "Default".toList start stop (textOf tags subtitle)

section

variable {tags : List (Tag × List Char)} (hwritten : ∀ tag ∈ tags, IsWritten tag)
  {said : Overrides} (hadd : ({} : Overrides).addAll tags = .ok said) {start stop : Nat}

include hwritten hadd in
/-- The text field of a line tells the subtitle, its times apart. -/
theorem subtitleOf_textOf (strict preserveEmpty : Bool) (holds : subtitle.IsScript)
    (htold : Says said subtitle) :
    subtitleOf { strict, preserveEmpty } subtitle.start.unsigned subtitle.stop.unsigned []
      (textOf tags subtitle) = .ok subtitle.unsigned := by
  have hbrace : '\x7b' ∉ subtitle.text.toList := holds.plain _ (by decide)
  have hmark : '\\' ∉ subtitle.text.toList := holds.plain _ (by decide)
  have hfree : '\x7b' ∉ replaceChar '\n' ['\\', 'N'] subtitle.text.toList :=
    not_mem_replaceChar _ hbrace (by decide)
  have hsaid : overridesOf (textOf tags subtitle) = .ok said := by
    rw [textOf, overridesOf_block hwritten hfree, hadd]
  refine bind_eq_ok.mpr ⟨said, hsaid, bind_eq_ok.mpr ⟨_, htold.style, bind_eq_ok.mpr
    ⟨_, htold.animation, ?_⟩⟩⟩
  rw [htold.position, textOf, visibleText_line hwritten hbrace hmark, String.ofList_toList]
  rfl

include hwritten hadd in
/-- **A written line is read as the subtitle that it was written for.** -/
theorem dialogue_lineFor (strict preserveEmpty : Bool) (holds : subtitle.IsScript)
    (htold : Says said subtitle) (times : TimeNotation.ass.AreTimes start stop subtitle) :
    dialogue { strict, preserveEmpty } eventFields (lineFor tags start stop subtitle)
      = .ok (.subtitle subtitle.unsigned) := by
  have hsubtitle := subtitleOf_textOf hwritten hadd strict preserveEmpty holds htold
  have hvalues : dialogueValues eventFields (lineFor tags start stop subtitle) = _ :=
    dialogueValues_lineOf (by decide) (by decide) start stop (textOf tags subtitle)
  have distinct : eventFields.Nodup := by decide
  have hstart : valueOf eventFields _ "start" = timeText start :=
    valueOf_of_place distinct 1 rfl (congrArg (·[1]?) hvalues)
  have hstop : valueOf eventFields _ "end" = timeText stop :=
    valueOf_of_place distinct 2 rfl (congrArg (·[2]?) hvalues)
  have hname : valueOf eventFields _ "name" = [] :=
    valueOf_of_place distinct 4 rfl (congrArg (·[4]?) hvalues)
  have htext : valueOf eventFields _ "text" = textOf tags subtitle :=
    valueOf_of_place distinct 9 rfl (congrArg (·[9]?) hvalues)
  have hlength : (dialogueValues eventFields (lineFor tags start stop subtitle)).length
      = eventFields.length := by
    have hfields : eventFields.length = 10 := by decide
    rw [hvalues, hfields]
    rfl
  have hread : ∀ n, Timestamp.read (timeText n) = (TimeNotation.ass.stampOf n).seconds?.map some :=
    fun n ↦ TimeNotation.read_textOfUnits TimeNotation.ass_isStandard n
  have hblank : subtitle.unsigned.isBlank = false := holds.solid
  refine bind_eq_ok.mpr ⟨some subtitle.start.unsigned, ?_,
    bind_eq_ok.mpr ⟨some subtitle.stop.unsigned, ?_, ?_⟩⟩
  · rw [hstart, hread, times.start.read]
    rfl
  · rw [hstop, hread, times.stop.read]
    rfl
  · dsimp only
    rw [if_pos hlength, hname, htext, hsubtitle]
    show Except.ok (Piece.ofSubtitle _ _) = _
    rw [Piece.ofSubtitle, hblank]
    rfl

end

/-! ## Writing a line -/

/-- What the word for dialogue opens is such a line and no other. -/
theorem isLineOf_dialogue (text : List Char) :
    isSectionLine ("Dialogue".toList ++ ':' :: text) = false ∧
      isLineOf "format" ("Dialogue".toList ++ ':' :: text) = false ∧
      isLineOf "dialogue" ("Dialogue".toList ++ ':' :: text) = true := by
  have hword : "Dialogue".toList = ['D', 'i', 'a', 'l', 'o', 'g', 'u', 'e'] := by decide
  rw [hword]
  exact ⟨rfl, rfl, rfl⟩

/-- A line that is read as the subtitle that it was written for, and that stays a line of its own
among others. -/
structure IsLineFor (subtitle : Subtitle) (line : List Char) : Prop where
  opens : ∃ text, line = "Dialogue".toList ++ ':' :: text
  solid : EndsSolid line
  plain : ∀ c ∈ Markup.lineEnds, c ∉ line
  read : ∀ strict preserveEmpty, dialogue { strict, preserveEmpty } eventFields line
    = .ok (.subtitle subtitle.unsigned)

section

variable {tags : List (Tag × List Char)} (hwritten : ∀ tag ∈ tags, IsWritten tag)
include hwritten

theorem lineEnd_not_mem_textOf (holds : subtitle.IsScript) {c : Char} (hc : c ∈ Markup.lineEnds) :
    c ∉ textOf tags subtitle := by
  have hmarks : ∀ c ∈ Markup.lineEnds, c ∈ ends ∧ c ≠ '\x7b' ∧ c ≠ '\x7d' ∧ c ∉ ['\\', 'N'] := by
    decide
  obtain ⟨hends, hopen, hclose, hmark⟩ := hmarks c hc
  have hblock : c ∉ blockOf tags := by
    rw [blockOf]
    split
    · exact List.not_mem_nil
    · simp only [List.mem_cons, List.mem_append, List.not_mem_nil, or_false, not_or]
      exact ⟨hopen, not_mem_written hwritten hends, hclose⟩
  have htext : c ∉ replaceChar '\n' ['\\', 'N'] subtitle.text.toList := by
    rcases List.mem_cons.mp hc with rfl | hc
    · exact self_not_mem_replaceChar hmark _
    · obtain rfl := List.mem_singleton.mp hc
      exact not_mem_replaceChar _ (holds.plain _ (by decide)) hmark
  rw [textOf, List.mem_append, not_or]
  exact ⟨hblock, htext⟩

theorem lineEnd_not_mem_lineFor (holds : subtitle.IsScript) (start stop : Nat) {c : Char}
    (hc : c ∈ Markup.lineEnds) : c ∉ lineFor tags start stop subtitle := by
  have hmarks : ∀ c ∈ Markup.lineEnds, c.isDigit = false ∧ c ≠ ':' ∧ c ≠ '.' ∧ c ≠ ',' ∧ c ≠ ' '
      ∧ c ≠ '0' ∧ c ∉ "Dialogue".toList ∧ c ∉ "Default".toList := by decide
  obtain ⟨hdigit, hcolon, hpoint, hcomma, hblank, hzero, hkind, hstyle⟩ := hmarks c hc
  have htime : ∀ n, c ∉ timeText n := not_mem_timeText hdigit ⟨hcolon, hpoint⟩
  have htext := lineEnd_not_mem_textOf hwritten holds hc
  rw [lineFor, lineOf]
  generalize "Dialogue".toList = kind at hkind
  generalize "Default".toList = style at hstyle
  simp only [List.mem_append, List.mem_cons, not_or]
  exact ⟨hkind, hcolon, hblank, hzero, hcomma, htime start, hcomma, htime stop, hcomma, hstyle, hcomma,
    hcomma, hzero, hcomma, hzero, hcomma, hzero, hcomma, hcomma, htext⟩

end

theorem endsSolid_lineFor (holds : subtitle.IsScript) (tags : List (Tag × List Char))
    (start stop : Nat) : EndsSolid (lineFor tags start stop subtitle) := by
  have htext : EndsSolid (replaceChar '\n' ['\\', 'N'] subtitle.text.toList) :=
    (endsSolid_of_trim holds.solid holds.trimmed).replaceChar (by decide) _
  have hline : ∃ front, lineFor tags start stop subtitle = front ++ textOf tags subtitle := by
    refine ⟨lineOf "Dialogue".toList "Default".toList start stop [], ?_⟩
    rw [lineFor, lineOf, lineOf]
    generalize "Dialogue".toList = kind
    generalize "Default".toList = style
    simp only [List.append_assoc, List.cons_append, List.nil_append]
  obtain ⟨front, hline⟩ := hline
  rw [hline, textOf]
  exact (htext.append _).append _

/-- **A line is written for every subtitle that a script can hold.** -/
theorem exists_line (heading : Heading) (holds : subtitle.IsScript) :
    ∃ text, dialogueLine heading subtitle = .ok text ∧ IsLineFor subtitle text.toList := by
  obtain ⟨block, tags, said, hblock, hchars, hwritten, hadd, htold⟩ := exists_block heading holds
  obtain ⟨start, stop, times⟩ := TimeNotation.exists_areTimes binary64_keepsSigns
    TimeNotation.ass_isStandard holds.start holds.stop
  have hline : ("Dialogue: 0," ++ TimeNotation.ass.textOfUnits start ++ ","
      ++ TimeNotation.ass.textOfUnits stop ++ ",Default,,0,0,0,," ++ block
      ++ String.ofList (replaceChar '\n' ['\\', 'N'] subtitle.text.toList)).toList
      = lineFor tags start stop subtitle := by
    have hopen : "Dialogue: 0,".toList = "Dialogue".toList ++ [':', ' ', '0', ','] := by decide
    have hbetween : ",Default,,0,0,0,,".toList = ',' :: ("Default".toList
        ++ [',', ',', '0', ',', '0', ',', '0', ',', ',']) := by decide
    have hcomma : ",".toList = [','] := by decide
    rw [lineFor, lineOf, textOf, ← hchars, timeText, timeText]
    simp only [String.toList_append, String.toList_ofList]
    rw [hopen, hbetween, hcomma]
    generalize "Dialogue".toList = kind
    generalize "Default".toList = style
    simp only [List.append_assoc, List.cons_append, List.nil_append]
  refine ⟨"Dialogue: 0," ++ TimeNotation.ass.textOfUnits start ++ ","
      ++ TimeNotation.ass.textOfUnits stop ++ ",Default,,0,0,0,," ++ block
      ++ String.ofList (replaceChar '\n' ['\\', 'N'] subtitle.text.toList), ?_, ?_⟩
  · rw [dialogueLine, hblock, times.start.written, times.stop.written]
    rfl
  · rw [hline]
    exact ⟨⟨_, rfl⟩, endsSolid_lineFor holds tags start stop,
      fun c hc ↦ lineEnd_not_mem_lineFor hwritten holds start stop hc,
      fun strict preserveEmpty ↦
        dialogue_lineFor hwritten hadd strict preserveEmpty holds htold times⟩

end Script
end Montage
