import Mathlib.Data.List.Perm.Basic
import Montage.Proofs.Subtitle.Block
import Montage.Proofs.Subtitle.Script.Line
import Montage.Subtitle.Script.Writer

/-!
# The order of the fields

A script names the fields of its lines of dialogue, and the lines have their values in that order.
The order decides nothing else: whatever it is, as long as the text comes last, a record is read as
what its values say (`Record.dialogue_line`), and so scripts that have the same records in different
orders are read alike, with the same warnings (`Script.read_arranged`).

Commas are what makes this hold for records and not for texts: all values but the last end at one.
-/

set_option autoImplicit false

namespace Montage
namespace Script

/-! ## Records -/

/-- The fields in front of the text, in the order in which they are written. -/
def standardOrder : List String :=
  ["Layer", "Start", "End", "Style", "Name", "MarginL", "MarginR", "MarginV", "Effect"]

/-- The names of the fields in an order, as they are looked up. -/
def fieldNames (order : List String) : List (List Char) :=
  (order ++ ["Text"]).map fun field ↦ lowered field.toList

/-- The line that names the fields in an order, the text being the last one. -/
def fieldLine (order : List String) : List Char :=
  "Format: ".toList ++ joinWith [',', ' '] ((order ++ ["Text"]).map String.toList)

/-- The line that is written names the fields in their order. -/
example : fieldLine standardOrder = "Format: ".toList ++ eventFormat.toList := by decide

/-- A value for each field. -/
abbrev Record := String → List Char

namespace Record

/-- The line of dialogue with the values of a record in an order, the text being the last one. -/
def line (record : Record) (order : List String) : List Char :=
  "Dialogue: ".toList ++ joinWith [','] ((order ++ ["Text"]).map record)

/-- The values in front of the text neither hold a comma nor begin with a blank. -/
structure IsPlain (record : Record) : Prop where
  comma : ∀ field ∈ standardOrder, ',' ∉ record field
  opens : ∀ field ∈ standardOrder, ∀ c ∈ (record field).head?, isBlank c = false

/-- The record with the text that a line is left with: a line is trimmed, and its text with it. -/
def trimmed (record : Record) : Record :=
  fun field ↦ if field = "Text" then trimBack (record field) else record field

/-- What the values of a record say, whatever line they stand in. -/
def piece [Rounding] (options : ReadOptions) (record : Record) : Except Error Piece := do
  let start ← Timestamp.read (record "Start")
  let stop ← Timestamp.read (record "End")
  match start, stop with
  | some start, some stop =>
    (subtitleOf options start stop (record "Name") (record "Text")).map (Piece.ofSubtitle options)
  | _, _ => return .malformed

end Record

/-- What stands below the line of the fields: a record, or a line that is neither read nor opens a
section, such as a comment or an empty line. -/
inductive Event where
  | record (record : Record)
  | other (line : List Char)

namespace Event

/-- The line of an event. -/
def line (order : List String) : Event → List Char
  | record values => values.line order
  | other text => text

def IsPlain : Event → Prop
  | record values => values.IsPlain
  | other text => isSectionLine (trim text) = false ∧ isLineOf "format" (trim text) = false ∧
      isLineOf "dialogue" (trim text) = false

end Event

/-- The lines of a script whose records are arranged in an order, below any other lines. -/
def arrangedLines (order : List String) (front : List (List Char)) (events : List Event) :
    List (List Char) :=
  front ++ fieldLine order :: events.map (·.line order)

/-! ## Lines -/

theorem fieldLine_opens (order : List String) :
    isSectionLine (fieldLine order) = false ∧ isLineOf "format" (fieldLine order) = true := by
  have hword : "Format: ".toList = ['F', 'o', 'r', 'm', 'a', 't', ':', ' '] := by decide
  unfold fieldLine
  rw [hword]
  exact ⟨rfl, rfl⟩

theorem trim_fieldLine (order : List String) : trim (fieldLine order) = fieldLine order := by
  have hend : EndsSolid (fieldLine order) := by
    have hlast : EndsSolid "Text".toList := ⟨'t', by decide, by decide⟩
    unfold fieldLine
    rw [List.map_append, List.map_singleton, ← List.nil_append "Text".toList, joinWith_concat]
    exact (hlast.append _).append _
  have hfront : trimFront (fieldLine order) = fieldLine order :=
    trimFront_append (s := "Format: ".toList) (by decide) (by rintro c ⟨⟩; decide) _
  rw [trim, hfront, hend.trimBack_eq]

theorem Record.line_opens (record : Record) (order : List String) :
    isSectionLine (record.line order) = false ∧ isLineOf "format" (record.line order) = false ∧
      isLineOf "dialogue" (record.line order) = true := by
  have hword : "Dialogue: ".toList = "Dialogue".toList ++ [':', ' '] := by decide
  unfold Record.line
  rw [hword, List.append_assoc]
  exact isLineOf_dialogue _

/-- The commas in front of the last text are those between the values. -/
theorem splitMost_joinWith {parts : List (List Char)} (h : ∀ part ∈ parts, ',' ∉ part)
    (last : List Char) :
    splitMost ',' parts.length (joinWith [','] (parts ++ [last])) = parts ++ [last] := by
  induction parts with
  | nil => rfl
  | cons part parts ih =>
    rw [List.forall_mem_cons] at h
    obtain ⟨next, rest, hrest⟩ := List.exists_cons_of_ne_nil
      (List.append_ne_nil_of_right_ne_nil parts (List.cons_ne_nil last []))
    rw [List.cons_append, hrest, joinWith_cons_cons, List.append_assoc, List.singleton_append,
      List.length_cons, splitMost_part h.1, ← hrest, ih h.2]

/-! ## The names of the fields -/

section

variable {order : List String} (hperm : order.Perm standardOrder)
include hperm

theorem order_ne_nil : order ≠ [] := by
  rintro rfl
  cases hperm.symm.eq_nil

theorem text_not_mem : "Text" ∉ order := fun h ↦ absurd (hperm.mem_iff.mp h) (by decide)

/-- A property of the fields holds in every order. -/
theorem forall_field {P : String → Prop} (h : ∀ field ∈ standardOrder, P field) (htext : P "Text") :
    ∀ field ∈ order ++ ["Text"], P field := by
  rw [List.forall_mem_append, List.forall_mem_singleton]
  exact ⟨fun field hfield ↦ h field (hperm.mem_iff.mp hfield), htext⟩

/-- The line of the fields names them. -/
theorem namedFields_fieldLine :
    namedFields (fieldLine order) = fieldNames order := by
  have hblank (parts : List (List Char)) (hne : parts ≠ []) :
      ' ' :: joinWith [',', ' '] parts = joinWith [','] (parts.map (' ' :: ·)) := by
    induction parts with
    | nil => exact absurd rfl hne
    | cons part parts ih =>
      cases parts with
      | nil => rfl
      | cons next parts =>
        rw [joinWith_cons_cons, List.map_cons, List.map_cons, joinWith_cons_cons, ← List.map_cons,
          ← ih (List.cons_ne_nil _ _)]
        simp
  have hvalue : lineValue (fieldLine order)
      = joinWith [','] (((order ++ ["Text"]).map String.toList).map (' ' :: ·)) := by
    have hword : "Format: ".toList = "Format".toList ++ [':', ' '] := by decide
    unfold lineValue fieldLine
    rw [← hblank _ (by simp), hword, List.append_assoc, List.cons_append, List.singleton_append,
      cutAt_part (show ':' ∉ "Format".toList by decide)]
  have hparts : ∀ part ∈ ((order ++ ["Text"]).map String.toList).map (' ' :: ·), ',' ∉ part := by
    simp only [List.forall_mem_map]
    exact forall_field hperm (by decide) (by decide)
  rw [namedFields, hvalue, splitAll_joinWith (by simp) hparts, List.map_map, List.map_map, fieldNames]
  refine List.map_congr_left (forall_field hperm ?_ ?_)
  · decide
  · decide

/-! ## The values of a record -/

namespace Record

variable {record : Record}

theorem trimmed_of_mem (record : Record) {field : String} (hfield : field ∈ order) :
    record.trimmed field = record field :=
  if_neg (ne_of_mem_of_not_mem hfield (text_not_mem hperm))

theorem line_eq (record : Record) : record.line order
    = "Dialogue: ".toList ++ joinWith [','] (order.map record) ++ ',' :: record "Text" := by
  unfold line
  rw [List.map_append, List.map_singleton, joinWith_append _ (by simpa using order_ne_nil hperm)
    (List.cons_ne_nil _ _), ← List.append_assoc, joinWith, List.singleton_append]

/-- A line is trimmed where its text ends. -/
theorem trim_line (record : Record) : trim (record.line order) = record.trimmed.line order := by
  have hkept : order.map record.trimmed = order.map record :=
    List.map_congr_left fun field hfield ↦ trimmed_of_mem hperm record hfield
  have htext : record.trimmed "Text" = trimBack (record "Text") := if_pos rfl
  have hfront : trimFront (record.line order) = record.line order :=
    trimFront_append (s := "Dialogue: ".toList) (by decide) (by rintro c ⟨⟩; decide) _
  rw [trim, hfront, line_eq hperm, line_eq hperm, hkept, htext, trimBack_append_cons (by decide)]

theorem IsPlain.dialogueValues_line (plain : record.IsPlain) {fields : List (List Char)}
    (hlength : fields.length = order.length + 1) :
    dialogueValues fields (record.line order) = (order ++ ["Text"]).map record := by
  have hcommas : ∀ part ∈ order.map record, ',' ∉ part :=
    List.forall_mem_map.mpr fun field hfield ↦ plain.comma field (hperm.mem_iff.mp hfield)
  have hopens : trimFront (joinWith [','] (order.map record ++ [record "Text"]))
      = joinWith [','] (order.map record ++ [record "Text"]) := by
    obtain ⟨first, rest, horder⟩ := List.exists_cons_of_ne_nil (order_ne_nil hperm)
    have hfirst := plain.opens first (hperm.mem_iff.mp (horder ▸ List.mem_cons_self))
    obtain ⟨next, parts, hparts⟩ := List.exists_cons_of_ne_nil
      (List.append_ne_nil_of_right_ne_nil (rest.map record) (List.cons_ne_nil (record "Text") []))
    rw [horder, List.map_cons, List.cons_append, hparts, joinWith_cons_cons, List.append_assoc]
    refine dropWhile_of_head ?_
    cases hvalue : record first with
    | nil =>
      rintro c ⟨⟩
      decide
    | cons c value =>
      rintro d ⟨⟩
      exact hfirst _ (by rw [hvalue]; rfl)
  rw [dialogueValues, hlength, Nat.add_sub_cancel]
  have hvalue : lineValue (record.line order)
      = ' ' :: joinWith [','] (order.map record ++ [record "Text"]) := by
    have hword : "Dialogue: ".toList = "Dialogue".toList ++ [':', ' '] := by decide
    unfold lineValue line
    rw [hword, List.append_assoc, List.cons_append, List.singleton_append,
      cutAt_part (show ':' ∉ "Dialogue".toList by decide), List.map_append, List.map_singleton]
  have hsplit := splitMost_joinWith hcommas (record "Text")
  rw [List.length_map] at hsplit
  rw [hvalue, trimFront, List.dropWhile_cons_of_pos (by decide), ← trimFront, hopens, hsplit,
    List.map_append, List.map_singleton]

/-- The names of the fields are different ones, also in small letters. -/
theorem fieldNames_nodup : (fieldNames order).Nodup :=
  ((hperm.append_right _).map _).nodup_iff.mpr (by decide)

/-- The value of a field is the one that the record has for it, wherever it stands. -/
theorem valueOf_eq (record : Record) {field name : String}
    (hfield : field ∈ standardOrder ++ ["Text"]) (hname : lowered field.toList = name.toList) :
    valueOf (fieldNames order) ((order ++ ["Text"]).map record) name = record field := by
  obtain ⟨place, hplace⟩ := List.getElem?_of_mem ((hperm.append_right _).mem_iff.mpr hfield)
  refine valueOf_of_place (fieldNames_nodup hperm) place ?_ ?_
  · rw [fieldNames, List.getElem?_map, hplace, Option.map_some, hname]
  · rw [List.getElem?_map, hplace, Option.map_some]

/-- **A record is read as what its values say**, in whatever order they stand. -/
theorem IsPlain.dialogue_line [Rounding] (plain : record.IsPlain) (options : ReadOptions) :
    dialogue options (fieldNames order) (record.line order)
      = record.piece options := by
  have hvalues := plain.dialogueValues_line hperm
    (show (fieldNames order).length = order.length + 1 by simp [fieldNames])
  have hvalue (field : String) {name : String} (hfield : field ∈ standardOrder ++ ["Text"])
      (hname : lowered field.toList = name.toList) := valueOf_eq hperm record hfield hname
  rw [dialogue, hvalues, hvalue "Start" (by decide) (by decide),
    hvalue "End" (by decide) (by decide), hvalue "Name" (by decide) (by decide),
    hvalue "Text" (by decide) (by decide), fieldNames, List.length_map, List.length_map]
  simp only [if_true]
  rfl

end Record

end

theorem Record.IsPlain.trimmed {record : Record} (plain : record.IsPlain) :
    record.trimmed.IsPlain := by
  have hkept : ∀ field ∈ standardOrder, record.trimmed field = record field :=
    fun field hfield ↦ Record.trimmed_of_mem (.refl _) record hfield
  refine ⟨fun field hfield ↦ ?_, fun field hfield ↦ ?_⟩
  · rw [hkept field hfield]
    exact plain.comma field hfield
  · rw [hkept field hfield]
    exact plain.opens field hfield

/-! ## Scripts -/

section

variable [Rounding] (options : ReadOptions)

/-- The pieces of events, the first one being on a line with the given number. -/
def eventPieces : Nat → List Event → List LabelledPiece
  | _, [] => []
  | number, .record values :: rest =>
    ⟨.assLine number, [], values.trimmed.piece options⟩ :: eventPieces (number + 1) rest
  | number, .other _ :: rest => eventPieces (number + 1) rest

/-- Outside the section of events nothing is read as long as no section opens. -/
theorem piecesFrom_outside {order : List String} (hperm : order.Perm standardOrder)
    (fields : List (List Char)) (number : Nat) {events : List Event}
    (plain : ∀ event ∈ events, event.IsPlain) :
    piecesFrom options false fields number (events.map (·.line order)) = [] := by
  induction events generalizing number with
  | nil => rfl
  | cons event events ih =>
    rw [List.forall_mem_cons] at plain
    have hsection : isSectionLine (trim (event.line order)) = false := by
      cases event with
      | record record =>
        rw [Event.line, record.trim_line hperm]
        exact (record.trimmed.line_opens order).1
      | other text => exact plain.1.1
    rw [List.map_cons, piecesFrom, hsection]
    exact ih (number + 1) plain.2

/-- **The events are the same pieces in every order**, but for the text that they are read from. -/
theorem piecesFrom_inside {order : List String} (hperm : order.Perm standardOrder) (number : Nat)
    {events : List Event} (plain : ∀ event ∈ events, event.IsPlain) :
    (piecesFrom options true (fieldNames order) number
      (events.map (·.line order))).map LabelledPiece.unsourced = eventPieces options number events := by
  induction events generalizing number with
  | nil => rfl
  | cons event events ih =>
    rw [List.forall_mem_cons] at plain
    have hrest := ih (number + 1) plain.2
    rw [List.map_cons, piecesFrom]
    cases event with
    | record record =>
      have hplain : record.trimmed.IsPlain := Record.IsPlain.trimmed plain.1
      obtain ⟨hsection, hformat, hdialogue⟩ := record.trimmed.line_opens order
      rw [Event.line, record.trim_line hperm, hsection, hformat, hdialogue,
        hplain.dialogue_line hperm options]
      exact congrArg _ hrest
    | other text =>
      obtain ⟨hsection, hformat, hdialogue⟩ := plain.1
      rw [Event.line, hsection, hformat, hdialogue]
      exact hrest

theorem piecesFrom_fieldLine {order : List String} (hperm : order.Perm standardOrder)
    (inEvents : Bool) (fields : List (List Char)) (number : Nat) {events : List Event}
    (plain : ∀ event ∈ events, event.IsPlain) :
    (piecesFrom options inEvents fields number
      (fieldLine order :: events.map (·.line order))).map LabelledPiece.unsourced
      = if inEvents then eventPieces options (number + 1) events else [] := by
  obtain ⟨hsection, hformat⟩ := fieldLine_opens order
  rw [piecesFrom, trim_fieldLine, hsection, hformat, namedFields_fieldLine hperm]
  cases inEvents with
  | false => exact congrArg _ (piecesFrom_outside options hperm fields (number + 1) plain)
  | true => exact piecesFrom_inside options hperm (number + 1) plain

/-- What the lines in front say holds for what stands below them in either script. -/
theorem map_piecesFrom_append (front : List (List Char)) {below below' : List (List Char)}
    (h : ∀ inEvents fields number,
      (piecesFrom options inEvents fields number below).map LabelledPiece.unsourced
        = (piecesFrom options inEvents fields number below').map LabelledPiece.unsourced)
    (inEvents : Bool) (fields : List (List Char)) (number : Nat) :
    (piecesFrom options inEvents fields number (front ++ below)).map LabelledPiece.unsourced
      = (piecesFrom options inEvents fields number (front ++ below')).map LabelledPiece.unsourced := by
  induction front generalizing inEvents fields number with
  | nil => exact h inEvents fields number
  | cons line front ih =>
    rw [List.cons_append, List.cons_append, piecesFrom, piecesFrom]
    split
    · exact ih _ _ _
    split
    · exact ih _ _ _
    split
    · exact ih _ _ _
    split
    · rw [List.map_cons, List.map_cons, ih]
    · exact ih _ _ _

end

/-- **The order of the fields decides nothing but where the values stand.**  Scripts with the same
records in different orders, the text being the last field in each, are read by a lenient reader with
the same result and the same warnings. -/
theorem read_arranged [Rounding] {options : ReadOptions} (lenient : options.strict = false)
    {order : List String} (hperm : order.Perm standardOrder) {front : List (List Char)}
    {events : List Event} (plain : ∀ event ∈ events, event.IsPlain) {content arranged : String}
    (hcontent : linesOf (normalizeText content.toList) = arrangedLines standardOrder front events)
    (harranged : linesOf (normalizeText arranged.toList) = arrangedLines order front events) :
    read options arranged = read options content := by
  have hpieces : (pieces options arranged).map LabelledPiece.unsourced
      = (pieces options content).map LabelledPiece.unsourced := by
    rw [pieces, pieces, hcontent, harranged, arrangedLines, arrangedLines]
    refine map_piecesFrom_append options front (fun inEvents fields number ↦ ?_) _ _ _
    rw [piecesFrom_fieldLine options hperm inEvents fields number plain,
      piecesFrom_fieldLine options (.refl _) inEvents fields number plain]
  rw [read, read, lenient, ← collect_unsourced (pieces options arranged), hpieces,
    collect_unsourced]

/-- The values of a slanted line with a comma, and of a line without times. -/
def sampleRecords : List Record := [
  fun
    | "Start" => "0:00:01.00".toList
    | "End" => "0:00:02.00".toList
    | "Name" => "Bob".toList
    | "Text" => "\x7b\\i1\x7dOne, two".toList
    | _ => [],
  fun
    | "Text" => "Three".toList
    | _ => []]

section

attribute [local instance] Rounding.binary64

/-- A script that names the speaker first is read like one in the usual order. -/
theorem speakerFirst_read :
    ["Name", "Start", "End", "Layer", "Style", "MarginL", "MarginR", "MarginV", "Effect"].Perm
      standardOrder ∧
    (∀ record ∈ sampleRecords, record.IsPlain) ∧
    read {} ("[Events]\nFormat: Name, Start, End, Layer, Style, MarginL, MarginR, MarginV, Effect, Text\n"
        ++ "Dialogue: Bob,0:00:01.00,0:00:02.00,,,,,,,\x7b\\i1\x7dOne, two\n"
        ++ "Dialogue: ,,,,,,,,,Three")
      = read {} ("[Events]\nFormat: Layer, Start, End, Style, Name, MarginL, MarginR, MarginV, Effect, Text\n"
        ++ "Dialogue: ,0:00:01.00,0:00:02.00,,Bob,,,,,\x7b\\i1\x7dOne, two\n"
        ++ "Dialogue: ,,,,,,,,,Three") := by
  have hperm : ["Name", "Start", "End", "Layer", "Style", "MarginL", "MarginR", "MarginV",
      "Effect"].Perm standardOrder := by decide
  have plain : ∀ record ∈ sampleRecords, record.IsPlain := by
    have hall : ∀ record ∈ sampleRecords, ∀ field ∈ standardOrder, ',' ∉ record field ∧
        (record field).head?.all (fun c ↦ !isBlank c) = true := by decide +kernel
    refine fun record hrecord ↦ ⟨fun field hfield ↦ (hall record hrecord field hfield).1,
      fun field hfield c hc ↦ ?_⟩
    have hopens := (hall record hrecord field hfield).2
    rw [Option.mem_def.mp hc] at hopens
    simpa using hopens
  have hevents : ∀ event ∈ sampleRecords.map Event.record, event.IsPlain :=
    List.forall_mem_map.mpr plain
  refine ⟨hperm, plain, read_arranged rfl hperm hevents
    (?_ : linesOf _ = arrangedLines _ ["[Events]".toList] _) ?_⟩
  · decide +kernel
  · decide +kernel

end

end Script
end Montage
