import Montage.Proofs.Subtitle.Block
import Montage.Proofs.Subtitle.Millisecond
import Montage.Proofs.Subtitle.Order
import Montage.Proofs.Subtitle.Script.Place
import Montage.Subtitle.Script.Reader

/-!
# What a lenient reader of scripts refuses

A lenient reader passes over lines that are malformed, and takes every other line for itself: the
subtitles that it finds are those of the lines, in the order of their starts.  It has no rule for a
line whose values cannot be used, though, and one such line fails the whole reading.

This module says which lines can be used (`DialogueLine.IsUsable`).  Those that cannot are lines
with a time that has too many digits or is too late for the grid; and, of the lines with both times
and all fields, those with a tag whose value is no number where one is needed, with a size or a
width out of its range, or with a fade that does not last.
-/

set_option autoImplicit false

namespace Montage

attribute [local instance] Rounding.binary64

/-! ## Tags -/

namespace Script

/-- What the value of a tag has to be so that it can be used: a number where one is needed, and
anything otherwise.  An alignment that is not made of digits is passed over, and so are a size and a
width that are empty; a place and a fade are not. -/
def Tag.Accepts (value : List Char) : Tag → Prop
  | .size | .outline => value ≠ [] → ∃ x, readQuantity value = .ok x
  | .align => value ≠ [] → value.all isDecimal = true → ∃ n, readWhole value = .ok n
  | .place => (∃ x, readQuantity (pairOf value).1 = .ok x) ∧
      ∃ y, readQuantity (pairOf value).2 = .ok y
  | .fade => (∃ m, readWhole (pairOf value).1 = .ok m) ∧
      ((pairOf value).2 ≠ [] → ∃ n, readWhole (pairOf value).2 = .ok n)
  | .color | .outlineColor | .bold | .slanted | .underlined => True

namespace Overrides

theorem exists_add (all : Overrides) {tag : Tag} {value : List Char} :
    (∃ after, all.add tag value = .ok after) ↔ tag.Accepts value := by
  cases tag with
  | bold | slanted | underlined =>
    refine iff_of_true ?_ trivial
    rw [add]
    split <;> exact ⟨_, rfl⟩
  | color | outlineColor => exact iff_of_true ⟨_, rfl⟩ trivial
  | size | outline =>
    rw [add, Tag.Accepts]
    by_cases hempty : value = []
    · rw [hempty]
      exact iff_of_true ⟨_, rfl⟩ (absurd rfl)
    · rw [if_neg (by rwa [List.isEmpty_iff]), forall_prop_of_true hempty]
      simp only [exists_bind_eq_ok, exists_pure_eq_ok, and_true]
  | align =>
    rw [add, Tag.Accepts]
    by_cases hempty : value = []
    · rw [hempty]
      exact iff_of_true ⟨_, rfl⟩ (absurd rfl)
    by_cases hdigits : value.all isDecimal = true
    · rw [if_neg (by simp [hempty, hdigits]), forall_prop_of_true hempty,
        forall_prop_of_true hdigits]
      simp only [exists_bind_eq_ok, exists_pure_eq_ok, and_true]
    · rw [if_pos (by simp [hdigits])]
      exact iff_of_true ⟨_, rfl⟩ fun _ h ↦ absurd h hdigits
  | place =>
    rw [add, Tag.Accepts]
    simp only [exists_bind_eq_ok, exists_pure_eq_ok, and_true, exists_and_right]
  | fade =>
    rw [add, Tag.Accepts]
    by_cases hempty : (pairOf value).2 = []
    · simp only [hempty, exists_bind_eq_ok, List.isEmpty_nil, if_true, exists_pure_eq_ok, and_true,
        ne_eq, not_true_eq_false, false_implies]
    · have hsome : (pairOf value).2.isEmpty = false := List.isEmpty_eq_false_iff.mpr hempty
      simp only [hsome, exists_bind_eq_ok, Bool.false_eq_true, if_false, exists_pure_eq_ok,
        and_true, exists_and_right, forall_prop_of_true hempty]

theorem exists_addAll (all : Overrides) {tags : List (Tag × List Char)} :
    (∃ after, all.addAll tags = .ok after) ↔ ∀ tag ∈ tags, tag.1.Accepts tag.2 := by
  induction tags generalizing all with
  | nil => exact iff_of_true ⟨_, rfl⟩ (List.forall_mem_nil _)
  | cons tag rest ih =>
    rw [List.forall_mem_cons, ← exists_add all]
    constructor
    · rintro ⟨after, h⟩
      obtain ⟨next, hnext, h⟩ := bind_eq_ok.mp h
      exact ⟨⟨next, hnext⟩, (ih next).mp ⟨after, h⟩⟩
    · rintro ⟨⟨next, hnext⟩, hrest⟩
      obtain ⟨after, hafter⟩ := (ih next).mpr hrest
      exact ⟨after, bind_eq_ok.mpr ⟨next, hnext, hafter⟩⟩

/-! ## Looks -/

/-- The number of milliseconds that fades last together, if they last: the longer one of two. -/
def fadeMillis? (fades : Int × Int) : Option Int :=
  if fades.1 ≠ 0 ∧ fades.2 ≠ 0 then some (max fades.1 fades.2)
  else if fades.1 ≠ 0 then some fades.1
  else if fades.2 ≠ 0 then some fades.2
  else none

/-- What the tags of a line say can be a look: the sizes are in their ranges, and a fade lasts for
some time on the grid. -/
structure IsUsable (said : Overrides) : Prop where
  style : said.style.IsValid
  fades : ∀ fades ∈ said.fades, ∀ millis ∈ fadeMillis? fades,
    Quantity.lt (.finite 0) (binary64 (millis / 1000)) = true ∧
      (binary64 (millis / 1000)).isFinite = true

theorem exists_styleOf {said : Overrides} :
    (∃ style, said.styleOf = .ok style) ↔ said.style.IsValid := by
  rw [styleOf]
  split
  · rename_i hopen
    rw [hopen]
    exact iff_of_true ⟨_, rfl⟩ Style.isValid_open
  · constructor
    · rintro ⟨style, h⟩
      obtain ⟨made, hmade, -⟩ := map_eq_ok.mp h
      exact Style.isValid_of_decode_encode (Checked.toExcept_eq_ok.mp hmade)
    · intro valid
      rw [Style.decode_encode valid]
      exact ⟨_, rfl⟩

theorem exists_fading {motion : Motion} {millis : Int} :
    (∃ animation, fading motion millis = .ok animation) ↔
      Quantity.lt (.finite 0) (binary64 (millis / 1000)) = true ∧
        (binary64 (millis / 1000)).isFinite = true := by
  constructor
  · rintro ⟨animation, h⟩
    obtain ⟨duration, hduration, h⟩ := bind_eq_ok.mp h
    obtain ⟨made, hmade, -⟩ := bind_eq_ok.mp h
    obtain ⟨hfinite, rfl⟩ := div_thousand_eq_ok.mp hduration
    have hpositive := Animation.all_decode_short motion _ made (Checked.toExcept_eq_ok.mp hmade)
    refine ⟨hpositive, ?_⟩
    obtain ⟨q, -, hq⟩ | hq := Quantity.lt_zero_iff.mp hpositive
    · rw [hq]
      rfl
    · exact absurd hq (hfinite false)
  · rintro ⟨hpositive, hfinite⟩
    refine ⟨_, fading_eq (div_thousand_eq_ok.mpr ⟨fun negative hinfinite ↦ ?_, rfl⟩) hpositive⟩
    rw [hinfinite] at hfinite
    cases hfinite

theorem exists_animationOf {said : Overrides} : (∃ animation, said.animationOf = .ok animation) ↔
    ∀ fades ∈ said.fades, ∀ millis ∈ fadeMillis? fades,
      Quantity.lt (.finite 0) (binary64 (millis / 1000)) = true ∧
        (binary64 (millis / 1000)).isFinite = true := by
  rw [animationOf]
  cases hfades : said.fades with
  | none => exact iff_of_true ⟨_, rfl⟩ (by rintro _ ⟨⟩)
  | some fades =>
    obtain ⟨fadeIn, fadeOut⟩ := fades
    simp only [Option.mem_def, Option.some.injEq, forall_eq', fadeMillis?]
    split_ifs with hboth hin hout
    all_goals
      simp only [exists_fading, Option.some.injEq, forall_eq', false_implies, implies_true,
        iff_true]
    exact ⟨_, rfl⟩

end Overrides

/-! ## Lines of dialogue -/

/-- A line of dialogue with its number and with the fields that are in force for it. -/
structure DialogueLine where
  number : Nat
  fields : List (List Char)
  text : List Char
  deriving DecidableEq, Repr

/-- The lines of dialogue among lines from a number on. -/
def dialogueFrom (inEvents : Bool) (fields : List (List Char)) :
    Nat → List (List Char) → List DialogueLine
  | _, [] => []
  | number, raw :: rest =>
    let line := trim raw
    if isSectionLine line then
      dialogueFrom (lowered line == "[events]".toList) fields (number + 1) rest
    else if !inEvents then dialogueFrom inEvents fields (number + 1) rest
    else if isLineOf "format" line then
      dialogueFrom inEvents (namedFields line) (number + 1) rest
    else if isLineOf "dialogue" line then
      ⟨number, fields, line⟩ :: dialogueFrom inEvents fields (number + 1) rest
    else dialogueFrom inEvents fields (number + 1) rest

/-- The lines of dialogue of a script. -/
def dialogueLines (content : String) : List DialogueLine :=
  dialogueFrom false eventFields 1 (linesOf (normalizeText content.toList))

namespace DialogueLine

/-- The values of the line, in the order of the fields. -/
def values (line : DialogueLine) : List (List Char) := dialogueValues line.fields line.text

/-- The value of a field in the line. -/
def value (line : DialogueLine) (field : String) : List Char :=
  valueOf line.fields line.values field

/-- The tags that stand in the text of the line. -/
def tags (line : DialogueLine) : List (Tag × List Char) :=
  (allMatches takeBlock (line.value "text")).flatMap tagsOf

/-- What the line turns out to be. -/
def piece (options : ReadOptions) (line : DialogueLine) : Except Error Piece :=
  dialogue options line.fields line.text

/-- The subtitle that the line holds, if it holds one. -/
def subtitle? (options : ReadOptions) (line : DialogueLine) : Option Subtitle :=
  (line.piece options).toOption.bind Piece.subtitle?

/-- The line has a value for each field, and two times. -/
structure IsComplete (line : DialogueLine) : Prop where
  start : (Timestamp.ofText? (line.value "start")).isSome = true
  stop : (Timestamp.ofText? (line.value "end")).isSome = true
  values : line.values.length = line.fields.length

/-- The line can be read, be it as malformed.  Its times have to be on the grid if they are times;
and if it is complete, every tag in it has to have a value that it accepts, and all tags together
have to say a look. -/
structure IsUsable (line : DialogueLine) : Prop where
  start : ∀ time, Timestamp.ofText? (line.value "start") = some time → time.IsCountable
  stop : ∀ time, Timestamp.ofText? (line.value "end") = some time → time.IsCountable
  tags : line.IsComplete → ∀ tag ∈ line.tags, tag.1.Accepts tag.2
  look : line.IsComplete → ∀ said, overridesOf (line.value "text") = .ok said → said.IsUsable

end DialogueLine

/-- A text has a look just if its tags can be read and say one. -/
theorem exists_subtitleOf {options : ReadOptions} {start stop : Quantity}
    {speaker text : List Char} :
    (∃ subtitle, subtitleOf options start stop speaker text = .ok subtitle) ↔
      (∀ tag ∈ (allMatches takeBlock text).flatMap tagsOf, tag.1.Accepts tag.2) ∧
        ∀ said, overridesOf text = .ok said → said.IsUsable := by
  rw [← Overrides.exists_addAll {}, ← overridesOf, subtitleOf]
  simp only [exists_bind_eq_ok, exists_pure_eq_ok, and_true]
  constructor
  · rintro ⟨said, hsaid, style, hstyle, hanimation⟩
    refine ⟨⟨said, hsaid⟩, fun other hother ↦ ?_⟩
    cases hsaid.symm.trans hother
    exact ⟨Overrides.exists_styleOf.mp ⟨style, hstyle⟩, Overrides.exists_animationOf.mp hanimation⟩
  · rintro ⟨⟨said, hsaid⟩, usable⟩
    obtain ⟨style, hstyle⟩ := Overrides.exists_styleOf.mpr (usable said hsaid).style
    exact ⟨said, hsaid, style, hstyle, Overrides.exists_animationOf.mpr (usable said hsaid).fades⟩

namespace DialogueLine

variable {options : ReadOptions} {line : DialogueLine}

/-- A complete line is the subtitle that its text says, in the window of its times. -/
theorem piece_of_complete {start stop : Quantity}
    (hstart : Timestamp.read (line.value "start") = .ok (some start))
    (hstop : Timestamp.read (line.value "end") = .ok (some stop))
    (hvalues : line.values.length = line.fields.length) : line.piece options
      = (subtitleOf options start stop (line.value "name") (line.value "text")).map
        (Piece.ofSubtitle options) := by
  have hvalues : (dialogueValues line.fields line.text).length = line.fields.length := hvalues
  refine (bind_of_ok hstart _).trans ((bind_of_ok hstop _).trans ?_)
  exact if_pos hvalues

/-- A line whose times can be read is malformed if it is not complete. -/
theorem piece_of_incomplete {start stop : Option Quantity}
    (hstart : Timestamp.read (line.value "start") = .ok start)
    (hstop : Timestamp.read (line.value "end") = .ok stop) (incomplete : ¬ line.IsComplete) :
    line.piece options = .ok .malformed := by
  refine (bind_of_ok hstart _).trans ((bind_of_ok hstop _).trans ?_)
  cases hx : start with
  | none => rfl
  | some x =>
    cases hy : stop with
    | none => rfl
    | some y =>
      refine if_neg fun hvalues ↦ incomplete ⟨?_, ?_, hvalues⟩
      · rw [← Timestamp.isSome_of_read hstart, hx]
        rfl
      · rw [← Timestamp.isSome_of_read hstop, hy]
        rfl

/-- The two times of a complete line that can be read. -/
theorem exists_times (complete : line.IsComplete) {start stop : Option Quantity}
    (hstart : Timestamp.read (line.value "start") = .ok start)
    (hstop : Timestamp.read (line.value "end") = .ok stop) :
    ∃ x y, start = some x ∧ stop = some y := by
  obtain ⟨x, hx⟩ := Option.isSome_iff_exists.mp
    ((Timestamp.isSome_of_read hstart).trans complete.start)
  obtain ⟨y, hy⟩ := Option.isSome_iff_exists.mp
    ((Timestamp.isSome_of_read hstop).trans complete.stop)
  exact ⟨x, y, hx, hy⟩

/-- **A line can be read just if it is usable.** -/
theorem exists_piece (options : ReadOptions) :
    (∃ piece, line.piece options = .ok piece) ↔ line.IsUsable := by
  constructor
  · rintro ⟨piece, h⟩
    obtain ⟨start, hstart, hrest⟩ := bind_eq_ok.mp h
    obtain ⟨stop, hstop, -⟩ := bind_eq_ok.mp hrest
    have hread (complete : line.IsComplete) : ∃ x y subtitle,
        subtitleOf options x y (line.value "name") (line.value "text") = .ok subtitle := by
      obtain ⟨x, y, rfl, rfl⟩ := exists_times complete hstart hstop
      rw [piece_of_complete hstart hstop complete.values] at h
      obtain ⟨subtitle, hsubtitle, -⟩ := map_eq_ok.mp h
      exact ⟨x, y, subtitle, hsubtitle⟩
    have hcountable := Timestamp.exists_read.mp ⟨start, hstart⟩
    refine ⟨hcountable, Timestamp.exists_read.mp ⟨stop, hstop⟩, ?_, ?_⟩
    · intro complete
      obtain ⟨_, _, hsubtitle⟩ := hread complete
      exact (exists_subtitleOf.mp hsubtitle).1
    · intro complete
      obtain ⟨_, _, hsubtitle⟩ := hread complete
      exact (exists_subtitleOf.mp hsubtitle).2
  · intro usable
    obtain ⟨start, hstart⟩ := Timestamp.exists_read.mpr usable.start
    obtain ⟨stop, hstop⟩ := Timestamp.exists_read.mpr usable.stop
    by_cases complete : line.IsComplete
    · obtain ⟨x, y, rfl, rfl⟩ := exists_times complete hstart hstop
      obtain ⟨subtitle, hsubtitle⟩ := exists_subtitleOf.mpr
        ⟨usable.tags complete, usable.look complete⟩
      exact ⟨_, (piece_of_complete hstart hstop complete.values).trans
        (map_eq_ok.mpr ⟨subtitle, hsubtitle, rfl⟩)⟩
    · exact ⟨_, piece_of_incomplete hstart hstop complete⟩

/-- A subtitle that a line holds starts on the grid. -/
theorem start_of_subtitle? {subtitle : Subtitle} (h : line.subtitle? options = some subtitle) :
    subtitle.start.isFinite = true := by
  obtain ⟨piece, hpiece, hsubtitle⟩ := Option.bind_eq_some_iff.mp h
  have h : line.piece options = .ok (.subtitle subtitle) := by
    rw [toOption_eq_some.mp hpiece, Piece.eq_of_subtitle? hsubtitle]
  obtain ⟨start, hstart, hrest⟩ := bind_eq_ok.mp h
  obtain ⟨stop, hstop, -⟩ := bind_eq_ok.mp hrest
  by_cases complete : line.IsComplete
  · obtain ⟨x, y, rfl, rfl⟩ := exists_times complete hstart hstop
    rw [piece_of_complete hstart hstop complete.values] at h
    obtain ⟨found, hfound, h⟩ := map_eq_ok.mp h
    obtain rfl : found = subtitle := by
      rw [Piece.ofSubtitle] at h
      split at h
      · cases h
      · exact Piece.subtitle.inj h
    obtain ⟨_, -, hfound⟩ := bind_eq_ok.mp hfound
    obtain ⟨_, -, hfound⟩ := bind_eq_ok.mp hfound
    obtain ⟨_, -, hfound⟩ := bind_eq_ok.mp hfound
    cases pure_eq_ok.mp hfound
    rw [Timestamp.read] at hstart
    split at hstart
    · cases hstart
    · obtain ⟨_, hseconds, hsome⟩ := map_eq_ok.mp hstart
      cases hsome
      obtain ⟨_, -, -, hfinite⟩ := Timestamp.seconds?_eq_ok.mp hseconds
      exact hfinite
  · rw [piece_of_incomplete hstart hstop complete] at h
    cases h

end DialogueLine

/-! ## Scripts -/

theorem piecesFrom_eq (options : ReadOptions) (inEvents : Bool) (fields : List (List Char))
    (number : Nat) (lines : List (List Char)) : piecesFrom options inEvents fields number lines
      = (dialogueFrom inEvents fields number lines).map fun line ↦
        ⟨.assLine line.number, line.text, line.piece options⟩ := by
  induction lines generalizing inEvents fields number with
  | nil => rfl
  | cons raw rest ih =>
    rw [piecesFrom, dialogueFrom]
    split_ifs
    · exact ih _ _ _
    · exact ih _ _ _
    · exact ih _ _ _
    · exact congrArg₂ List.cons rfl (ih _ _ _)
    · exact ih _ _ _

/-- What the lines of dialogue turn out to be. -/
theorem mapM_pieces (options : ReadOptions) (content : String) :
    (pieces options content).mapM LabelledPiece.piece
      = (dialogueLines content).mapM fun line ↦ line.piece options := by
  rw [pieces, piecesFrom_eq, List.mapM_map]
  rfl

/-- The subtitles among the pieces of lines are those that the lines hold. -/
theorem filterMap_pieces {options : ReadOptions} {lines : List DialogueLine} {found : List Piece}
    (h : lines.mapM (fun line ↦ line.piece options) = .ok found) :
    found.filterMap Piece.subtitle? = lines.filterMap (·.subtitle? options) :=
  filterMap_subtitle?_of_mapM h

theorem read_eq_ok {options : ReadOptions} (lenient : options.strict = false) {content : String}
    {subtitles : List Subtitle} : (read options content).result = .ok subtitles ↔
      ∃ found, (dialogueLines content).mapM (fun line ↦ line.piece options) = .ok found ∧
        subtitles = Subtitle.named "ass" (Subtitle.inOrder (found.filterMap Piece.subtitle?)) := by
  rw [read, Reported.bind_eq_ok, lenient, collect_lenient, mapM_pieces]
  constructor
  · rintro ⟨_, hfound, h⟩
    obtain ⟨found, hmap, rfl⟩ := map_eq_ok.mp hfound
    exact ⟨found, hmap, (Except.ok.inj h).symm⟩
  · rintro ⟨found, hmap, rfl⟩
    exact ⟨_, map_eq_ok.mpr ⟨found, hmap, rfl⟩, rfl⟩

/-- **A lenient reader takes a script just if each of its lines of dialogue is usable.**  What it
finds then is what the lines hold, each for itself, sorted by start and numbered from one. -/
theorem read_lenient_iff {options : ReadOptions} (lenient : options.strict = false)
    (content : String) :
    ((∃ subtitles, (read options content).result = .ok subtitles) ↔
        ∀ line ∈ dialogueLines content, line.IsUsable) ∧
      ∀ subtitles, (read options content).result = .ok subtitles →
        subtitles = Subtitle.named "ass" (Subtitle.inOrder
          ((dialogueLines content).filterMap (·.subtitle? options))) ∧
        Subtitle.IsRising subtitles ∧ Subtitle.IsNumbered subtitles := by
  constructor
  · simp only [← DialogueLine.exists_piece options, ← exists_mapM, read_eq_ok lenient]
    exact ⟨fun ⟨_, found, hmap, _⟩ ↦ ⟨found, hmap⟩, fun ⟨found, hmap⟩ ↦ ⟨_, found, hmap, rfl⟩⟩
  · intro subtitles h
    obtain ⟨found, hmap, rfl⟩ := (read_eq_ok lenient).mp h
    rw [filterMap_pieces hmap]
    refine ⟨rfl, Subtitle.named_inOrder_isRising "ass" fun subtitle hsubtitle hundefined ↦ ?_⟩
    obtain ⟨line, -, hline⟩ := List.mem_filterMap.mp hsubtitle
    have hfinite := DialogueLine.start_of_subtitle? hline
    rw [hundefined] at hfinite
    cases hfinite

/-- A script with one line, which is usable. -/
def plainLine : String := "[Events]\nDialogue: 0,0:00:00.00,0:00:01.00,Default,,0,0,0,,Fine\n"

theorem plainLine_usable : ∀ line ∈ dialogueLines plainLine, line.IsUsable := by
  have hlines : dialogueLines plainLine = [⟨2, eventFields,
      "Dialogue: 0,0:00:00.00,0:00:01.00,Default,,0,0,0,,Fine".toList⟩] := by decide +kernel
  rw [hlines, List.forall_mem_singleton]
  have hstart : Timestamp.ofText? "0:00:00.00".toList
      = some ⟨['0'], ['0', '0'], ['0', '0'], ['0', '0']⟩ := by decide +kernel
  have hstop : Timestamp.ofText? "0:00:01.00".toList
      = some ⟨['0'], ['0', '0'], ['0', '1'], ['0', '0']⟩ := by decide +kernel
  refine ⟨?_, ?_, fun _ ↦ List.forall_mem_nil _, ?_⟩
  · intro time htime
    cases hstart.symm.trans htime
    exact ⟨0, rfl, by decide +kernel⟩
  · intro time htime
    cases hstop.symm.trans htime
    exact ⟨1000, rfl, by decide +kernel⟩
  · rintro - said hsaid
    cases hsaid
    exact ⟨Style.isValid_open, by rintro _ ⟨⟩⟩

/-- The same line, and one that holds a tag for a place, which does not say which, and no text. -/
def unplacedLine : String :=
  plainLine ++ "Dialogue: 0,0:00:02.00,0:00:03.00,Default,,0,0,0,,\x7b\\pos\x7d\n"

/-- The tag without a place fails the line in front of it, too. -/
theorem unplacedLine_fails : ({} : ReadOptions).strict = false ∧
    (∃ subtitles, (read {} plainLine).result = .ok subtitles
      ∧ subtitles.map (·.text) = ["Fine"] ∧ Subtitle.IsNumbered subtitles) ∧
    ¬ ∃ subtitles, (read {} unplacedLine).result = .ok subtitles := by
  refine ⟨rfl, ?_, ?_⟩
  · have hread := read_lenient_iff (rfl : ({} : ReadOptions).strict = false) plainLine
    obtain ⟨subtitles, h⟩ := hread.1.mpr plainLine_usable
    obtain ⟨hsubtitles, -, hnumbered⟩ := hread.2 subtitles h
    refine ⟨subtitles, h, ?_, hnumbered⟩
    rw [hsubtitles]
    decide +kernel
  · rw [(read_lenient_iff (rfl : ({} : ReadOptions).strict = false) unplacedLine).1]
    intro usable
    obtain ⟨line, hline, hstart, hstop, hvalues, htag⟩ : ∃ line ∈ dialogueLines unplacedLine,
        (Timestamp.ofText? (line.value "start")).isSome = true
          ∧ (Timestamp.ofText? (line.value "end")).isSome = true
          ∧ line.values.length = line.fields.length ∧ (Tag.place, []) ∈ line.tags := by
      decide +kernel
    obtain ⟨⟨x, hx⟩, -⟩ := (usable line hline).tags ⟨hstart, hstop, hvalues⟩ _ htag
    have hnone : (readQuantity (pairOf []).1).toOption.isNone = true := by decide +kernel
    rw [hx] at hnone
    cases hnone

end Script
end Montage
