import Montage.Proofs.Subtitle.Block
import Montage.Proofs.Subtitle.Order
import Montage.Proofs.Subtitle.Script.Line

/-!
# Scripts are read as they were meant

A script that is written for subtitles and read again gives the same subtitles in the order of their
starts, as far as the lines of a script can hold them: times that survive the notation, texts without
marks of their own, and styles, positions and animations that override tags can say.

The lines of dialogue are read one by one (`Script.exists_line`).  What is left to show is that the
reader comes to them: the lines before the section of events hold no such section
(`Script.piecesFrom_before`), and no line of the script breaks into two.
-/

set_option autoImplicit false

namespace Montage
namespace Script

attribute [local instance] Rounding.binary64

/-! ## Reading line by line -/

/-- What stands before the section of events is passed over. -/
theorem piecesFrom_before (options : ReadOptions) (fields : List (List Char))
    {front : List (List Char)} (h : ∀ line ∈ front, lowered (trim line) ≠ "[events]".toList)
    (number : Nat) (rest : List (List Char)) :
    piecesFrom options false fields number (front ++ rest)
      = piecesFrom options false fields (number + front.length) rest := by
  induction front generalizing number with
  | nil => rfl
  | cons line front ih =>
    rw [List.forall_mem_cons] at h
    have hsection : (lowered (trim line) == "[events]".toList) = false := beq_false_of_ne h.1
    have hnext : piecesFrom options false fields number (line :: (front ++ rest))
        = piecesFrom options false fields (number + 1) (front ++ rest) := by
      rw [piecesFrom, hsection]
      split <;> rfl
    rw [List.cons_append, hnext, ih h.2, List.length_cons, Nat.add_assoc, Nat.add_comm 1]

/-- A line of dialogue in the section of events is a piece of the script. -/
theorem piecesFrom_line (options : ReadOptions) {subtitle : Subtitle} {line : List Char}
    (h : IsLineFor subtitle line) (number : Nat) (rest : List (List Char)) :
    piecesFrom options true eventFields number (line :: rest)
      = ⟨.assLine number, line, dialogue options eventFields line⟩
        :: piecesFrom options true eventFields (number + 1) rest := by
  obtain ⟨text, htext⟩ := h.opens
  obtain ⟨hsection, hformat, hdialogue⟩ := isLineOf_dialogue text
  rw [← htext] at hsection hformat hdialogue
  have htrim : trim line = line := by
    rw [trim, htext, trimFront_append (by decide) (by rintro c ⟨⟩; decide), ← htext]
    exact h.solid.trimBack_eq
  rw [piecesFrom, htrim, hsection, hformat, hdialogue]
  rfl

/-- **The lines of the section of events are read as the subtitles that they were written for.** -/
theorem piecesFrom_lines (strict preserveEmpty : Bool) {subtitles : List Subtitle}
    {lines : List (List Char)} (h : List.Forall₂ IsLineFor subtitles lines) (number : Nat) :
    (piecesFrom { strict, preserveEmpty } true eventFields number (lines ++ [[]])).map (·.piece)
      = subtitles.map fun subtitle ↦ .ok (.subtitle subtitle.unsigned) := by
  induction h generalizing number with
  | nil => rfl
  | cons hline _ ih =>
    rw [List.cons_append, piecesFrom_line _ hline, List.map_cons, List.map_cons, ih,
      hline.read strict preserveEmpty]

theorem lineEnd_not_mem_of_forall₂ {subtitles : List Subtitle} {lines : List (List Char)}
    (h : List.Forall₂ IsLineFor subtitles lines) : ∀ line ∈ lines, ∀ c ∈ Markup.lineEnds, c ∉ line := by
  induction h with
  | nil => simp
  | cons hline _ ih =>
    rw [List.forall_mem_cons]
    exact ⟨hline.plain, ih⟩

/-! ## Writing line by line -/

theorem exists_lines (heading : Heading) {subtitles : List Subtitle}
    (holds : ∀ subtitle ∈ subtitles, subtitle.IsScript) :
    ∃ texts, subtitles.mapM (dialogueLine heading) = .ok texts
      ∧ List.Forall₂ IsLineFor subtitles (texts.map String.toList) := by
  induction subtitles with
  | nil => exact ⟨[], rfl, .nil⟩
  | cons subtitle subtitles ih =>
    rw [List.forall_mem_cons] at holds
    obtain ⟨texts, htexts, hlines⟩ := ih holds.2
    obtain ⟨text, htext, hline⟩ := exists_line heading holds.1
    refine ⟨text :: texts, ?_, .cons hline hlines⟩
    rw [List.mapM_cons, htext, htexts]
    rfl

/-! ## The lines before the dialogue -/

/-- The lines before the section of events, where a script says nothing about itself. -/
def openingLines : List String := [
  "[Script Info]", "Title: mediasdk captions", "ScriptType: v4.00+", "PlayResX: 1920",
  "PlayResY: 1080", "WrapStyle: 0", "", "[V4+ Styles]",
  "Format: Name, Fontname, Fontsize, PrimaryColour, SecondaryColour, OutlineColour, BackColour, Bold, Italic, Underline, StrikeOut, ScaleX, ScaleY, Spacing, Angle, BorderStyle, Outline, Shadow, Alignment, MarginL, MarginR, MarginV, Encoding",
  "Style: Default,Arial,32,&H00FFFFFF,&H000000FF,&H00000000,&H80000000,0,0,0,0,100,100,0,0,1,2,0,2,10,10,10,1",
  ""]

/-- The line that names the fields. -/
def formatLine : String :=
  "Format: Layer, Start, End, Style, Name, MarginL, MarginR, MarginV, Effect, Text"

theorem headingLines_eq :
    headingLines {} = .ok (openingLines ++ ["[Events]", formatLine]) := by
  rw [← toOption_eq_some]
  decide +kernel

/-- A property of a row of characters is one of the text that they make. -/
theorem toList_ofList_of {P : List Char → Prop} {s : List Char} (h : P s) :
    P (String.ofList s).toList := by
  rwa [String.toList_ofList]

/-- A line that stays one and does not open the section of events. -/
def IsOpening (line : List Char) : Prop :=
  (∀ c ∈ Markup.lineEnds, c ∉ line) ∧ lowered (trim line) ≠ "[events]".toList

instance (line : List Char) : Decidable (IsOpening line) :=
  inferInstanceAs (Decidable (_ ∧ _))

set_option maxRecDepth 2000 in
theorem isOpening_openingLines : ∀ line ∈ openingLines, IsOpening line.toList := by
  simp only [openingLines, List.forall_mem_cons]
  refine ⟨?_, ?_, ?_, ?_, ?_, ?_, ?_, ?_, ?_, ?_, ?_, by simp⟩ <;>
    exact toList_ofList_of (P := IsOpening) (by decide)

/-- The section of events opens with a line that names the fields in their usual order. -/
theorem piecesFrom_events (options : ReadOptions) (number : Nat) (rest : List (List Char)) :
    piecesFrom options false eventFields number
        ("[Events]".toList :: formatLine.toList :: rest)
      = piecesFrom options true eventFields (number + 2) rest := by
  have hevents : isSectionLine (trim "[Events]".toList) = true
      ∧ (lowered (trim "[Events]".toList) == "[events]".toList) = true := by decide
  have hformat : isSectionLine (trim formatLine.toList) = false
      ∧ isLineOf "format" (trim formatLine.toList) = true
      ∧ namedFields (trim formatLine.toList) = eventFields := by
    exact toList_ofList_of (P := fun s ↦ isSectionLine (trim s) = false
      ∧ isLineOf "format" (trim s) = true ∧ namedFields (trim s) = eventFields) (by decide)
  rw [piecesFrom, hevents.1, hevents.2, if_pos rfl, piecesFrom, hformat.1, hformat.2.1, hformat.2.2]
  rfl

/-! ## Scripts -/

/-- Lines that are written with a line end behind each. -/
theorem toList_join_lines (eol : String) {lines : List String} (h : ∀ line ∈ lines, '\n' ∉ line.toList) :
    (String.join (lines.map (· ++ eol))).toList
      = replaceChar '\n' eol.toList ((lines.map String.toList).flatMap (· ++ ['\n'])) := by
  induction lines with
  | nil => rfl
  | cons line lines ih =>
    rw [List.forall_mem_cons] at h
    rw [List.map_cons, List.map_cons, String.join_cons, String.toList_append, String.toList_append,
      ih h.2, List.flatMap_cons, replaceChar_append, replaceChar_append,
      replaceChar_of_not_mem h.1, replaceChar_cons_self, replaceChar_nil, List.append_nil]

/-- The lines of a script with these lines of dialogue. -/
def scriptLines (dialogue : List String) : List String :=
  openingLines ++ ["[Events]", formatLine] ++ dialogue

theorem lineEnd_not_mem_scriptLines {dialogue : List String}
    (h : ∀ line ∈ dialogue, ∀ c ∈ Markup.lineEnds, c ∉ line.toList) :
    ∀ line ∈ scriptLines dialogue, ∀ c ∈ Markup.lineEnds, c ∉ line.toList := by
  have hformat : ∀ c ∈ Markup.lineEnds, c ∉ formatLine.toList :=
    toList_ofList_of (P := fun s ↦ ∀ c ∈ Markup.lineEnds, c ∉ s) (by decide)
  rw [scriptLines, List.forall_mem_append, List.forall_mem_append, List.forall_mem_cons,
    List.forall_mem_singleton]
  exact ⟨⟨fun line hline ↦ (isOpening_openingLines line hline).1, by decide, hformat⟩, h⟩

/-- **No line of a script breaks into two**, whatever ends the lines. -/
theorem linesOf_script (lineEnding : LineEnding) {dialogue : List String}
    (h : ∀ line ∈ dialogue, ∀ c ∈ Markup.lineEnds, c ∉ line.toList) :
    linesOf (normalizeText (String.join
        ((scriptLines dialogue).map (· ++ lineEnding.text))).toList)
      = openingLines.map String.toList ++ "[Events]".toList :: formatLine.toList
          :: (dialogue.map String.toList ++ [[]]) := by
  have hlines := lineEnd_not_mem_scriptLines h
  have hfeed : ∀ line ∈ scriptLines dialogue, '\n' ∉ line.toList :=
    fun line hline ↦ hlines line hline _ (by decide)
  have hreturn : '\r' ∉ ((scriptLines dialogue).map String.toList).flatMap (· ++ ['\n']) := by
    rw [List.flatMap_map, List.mem_flatMap]
    rintro ⟨line, hline, hmem⟩
    rcases List.mem_append.mp hmem with hmem | hmem
    · exact hlines line hline _ (by decide) hmem
    · exact absurd hmem (by decide)
  have hends : IsLineEnd lineEnding.text.toList := by
    cases lineEnding with
    | lf => exact .inl rfl
    | crlf => exact .inr rfl
  have hplain := normalizeText_written [] (by simp) hends hreturn (by rintro c ⟨⟩; decide)
  rw [toList_join_lines _ hfeed]
  rw [List.nil_append] at hplain
  rw [hplain, linesOf, splitAll_flatMap (by rwa [List.forall_mem_map]), scriptLines, List.map_append,
    List.map_append, List.append_assoc, List.append_assoc]
  rfl

/-- The lines of a script are read as the subtitles that they were written for. -/
theorem read_of_isRising (lineEnding : LineEnding) (strict preserveEmpty : Bool)
    {subtitles : List Subtitle} (rising : Subtitle.IsRising subtitles)
    (holds : ∀ subtitle ∈ subtitles, subtitle.IsScript) :
    ∃ texts, subtitles.mapM (dialogueLine {}) = .ok texts ∧
      read { strict, preserveEmpty }
          (String.join ((scriptLines texts).map (· ++ lineEnding.text)))
        = ⟨.ok ((subtitles.map Subtitle.unsigned).mapIdx (Subtitle.renumbered "ass")), []⟩ := by
  obtain ⟨texts, htexts, hlines⟩ := exists_lines {} holds
  have hplain : ∀ line ∈ texts, ∀ c ∈ Markup.lineEnds, c ∉ line.toList := by
    rw [← List.forall_mem_map (P := fun line ↦ ∀ c ∈ Markup.lineEnds, c ∉ line)]
    exact lineEnd_not_mem_of_forall₂ hlines
  refine ⟨texts, htexts, ?_⟩
  have hpieces : (pieces { strict, preserveEmpty }
      (String.join ((scriptLines texts).map (· ++ lineEnding.text)))).map (·.piece)
      = (subtitles.map fun subtitle ↦ Piece.subtitle subtitle.unsigned).map .ok := by
    rw [pieces, linesOf_script lineEnding hplain, piecesFrom_before, piecesFrom_events,
      piecesFrom_lines strict preserveEmpty hlines, List.map_map]
    · rfl
    · rw [List.forall_mem_map]
      exact fun line hline ↦ (isOpening_openingLines line hline).2
  have hcollect := collect_of_ok strict hpieces (by
    rw [List.forall_mem_map]
    rintro _ _ ⟨⟩)
  have hfound : (subtitles.map fun subtitle ↦ Piece.subtitle subtitle.unsigned).filterMap
      Piece.subtitle? = subtitles.map Subtitle.unsigned := by
    rw [List.filterMap_map, ← List.filterMap_eq_map]
    rfl
  rw [hfound] at hcollect
  rw [read, Reported.silent_bind hcollect,
    Subtitle.named_inOrder_of_isRising "ass" (rising.of_unsigned (by rw [List.map_map]; rfl))]
  rfl

/-- **Subtitles are read back from the script that is written for them**, in the order of their
starts, numbered from one and named by their numbers, whatever ends the lines. -/
theorem read_write_script (lineEnding : LineEnding) (strict preserveEmpty : Bool)
    {entries : List Subtitle} (holds : ∀ entry ∈ entries, entry.IsScript) :
    ∃ text, write {} lineEnding entries = .ok text ∧
      read { strict, preserveEmpty } text = ⟨.ok (((entries.mergeSort fun a b ↦
        !b.start.lt a.start).map Subtitle.unsigned).mapIdx (Subtitle.renumbered "ass")), []⟩ := by
  have defined : ∀ entry ∈ entries, entry.start ≠ .undefined :=
    fun entry h ↦ (holds entry h).start.ne_undefined
  have hperm := Subtitle.sorted_perm entries
  obtain ⟨texts, htexts, hread⟩ := read_of_isRising lineEnding strict preserveEmpty
    (Subtitle.sorted_isRising defined) fun entry h ↦ holds entry (hperm.mem_iff.mp h)
  rw [Subtitle.sorted_of_defined defined] at hread
  refine ⟨_, ?_, hread⟩
  rw [write, headingLines_eq, htexts]
  rfl

/-- A title that fades in at a place of its own, in three colors, sizes and weights, and a plain line
with a comma that starts before it. -/
def placedTitle : List Subtitle := [
  { text := "Late, but\n-- here", start := .finite (3 / 2), stop := .finite 4
    style := some { fontWeight := some "bold", fontSize := some (.finite 48)
                    color := some "#FFCC00", strokeColor := some "#00112A"
                    strokeWidth := some .negativeZero }
    position := some { x := .num (.real (.finite 960)), y := .num (.real (.finite (-1 / 4)))
                       anchor := some .bottomCenter }
    animation := some { motion := .fadeIn, duration := .finite (1 / 4) } },
  { text := "0,0, once", start := .negativeZero, stop := .finite (1 / 4) }]

theorem placedTitle_read : (∀ entry ∈ placedTitle, entry.IsScript) ∧
    ∃ text, write {} .crlf placedTitle = .ok text ∧
      read { strict := true, preserveEmpty := false } text = ⟨.ok [
        { id := "ass_1", index := 1, text := "0,0, once", start := .finite 0
          stop := .finite (1 / 4) },
        { id := "ass_2", index := 2, text := "Late, but\n-- here", start := .finite (3 / 2)
          stop := .finite 4
          style := some { fontWeight := some "bold", fontSize := some (.finite 48)
                          color := some "#FFCC00", strokeColor := some "#00112A"
                          strokeWidth := some (.finite 0) }
          position := some { x := .num (.real (.finite 960)), y := .num (.real (.finite (-1 / 4)))
                             anchor := some .bottomCenter }
          animation := some { motion := .fadeIn, duration := .finite (1 / 4) } }], []⟩ := by
  have hholds : ∀ entry ∈ placedTitle, entry.IsScript := by
    rw [placedTitle, List.forall_mem_cons, List.forall_mem_singleton]
    constructor
    · refine ⟨by decide +kernel, by decide +kernel, by decide, by decide, by decide, ?_, ?_, ?_⟩
      · rintro style ⟨⟩
        refine ⟨?_, by decide, by decide, by decide, ?_, ?_, ?_, ?_, rfl, by decide⟩
        · constructor <;> decide +kernel
        · rintro size ⟨⟩
          exact ⟨⟨48, rfl, by decide +kernel⟩, by decide +kernel⟩
        · rintro width ⟨⟩
          exact ⟨⟨0, rfl, by decide +kernel⟩, by decide +kernel⟩
        · rintro color ⟨⟩
          exact ⟨_, rfl, by decide, by decide⟩
        · rintro color ⟨⟩
          exact ⟨_, rfl, by decide, by decide⟩
      · rintro position ⟨⟩
        exact ⟨⟨_, rfl, .inr ⟨_, rfl⟩, by decide +kernel⟩, ⟨_, rfl, .inr ⟨_, rfl⟩, by decide +kernel⟩,
          rfl, ⟨.inl rfl, rfl⟩, ⟨.inl rfl, rfl⟩⟩
      · rintro animation ⟨⟩
        refine ⟨by decide, rfl, by decide +kernel, 250, by decide, ?_, .finite (1 / 4), ?_,
          by decide +kernel⟩
        · rw [← toOption_eq_some]
          decide +kernel
        · rw [← toOption_eq_some]
          decide +kernel
    · refine ⟨by decide +kernel, by decide +kernel, by decide, by decide, by decide, ?_, ?_, ?_⟩ <;>
        rintro _ ⟨⟩
  have hread := read_write_script .crlf true false hholds
  have hsort : (placedTitle.mergeSort fun a b ↦ !b.start.lt a.start) = placedTitle.reverse := by
    have hlt : Quantity.lt .negativeZero (.finite (3 / 2)) = true := by decide +kernel
    simp [placedTitle, List.mergeSort, hlt]
  rw [hsort] at hread
  exact ⟨hholds, hread⟩

end Script
end Montage
