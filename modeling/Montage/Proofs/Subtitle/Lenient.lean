import Montage.Proofs.Subtitle.Block
import Montage.Proofs.Subtitle.Millisecond
import Montage.Proofs.Subtitle.Order
import Montage.Subtitle.Vtt

/-!
# What a lenient reader of blocks refuses

SRT and WebVTT documents fall into blocks, and a lenient reader takes each block for itself.  The
first lines of a block decide what becomes of it (`Timing`): it is passed over, it is malformed and
skipped with a warning, or it says a window of time.

There is no rule for a window that cannot be counted, though: hours may have any number of digits,
and where these are too many for a whole number, or the time is too late for the grid, the whole
reading fails.  These are the only documents that a lenient reader refuses
(`read_blocks_lenient_iff`).
-/

set_option autoImplicit false

namespace Montage

attribute [local instance] Rounding.binary64

/-! ## Times -/

/-- A time: it is finite, and not before zero. -/
structure Quantity.IsTime (x : Quantity) : Prop where
  finite : x.isFinite = true
  nonnegative : Quantity.le (.finite 0) x = true

theorem Timestamp.isTime_of_seconds? {time : Timestamp} {x : Quantity} (h : time.seconds? = .ok x) :
    x.IsTime := by
  obtain ⟨millis, -, rfl, hfinite⟩ := seconds?_eq_ok.mp h
  refine ⟨hfinite, Quantity.le_zero_iff.mpr ?_⟩
  obtain hq | hinfinite := binary64_keepsSigns.nonnegative (millis / 1000) (by positivity)
  · exact .inl hq
  · exact .inr (.inr hinfinite)

/-- Both times of a window are on the grid. -/
structure TimeRange.IsCountable (range : TimeRange) : Prop where
  start : range.start.IsCountable
  stop : range.stop.IsCountable

/-- The subtitle put into a window. -/
def TimeRange.holding (range : TimeRange) (subtitle : Subtitle) : Except Error Subtitle := do
  let start ← range.start.seconds?
  let stop ← range.stop.seconds?
  return { subtitle with start, stop }

/-- Both times of a subtitle are times. -/
structure Subtitle.IsTimely (subtitle : Subtitle) : Prop where
  start : subtitle.start.IsTime
  stop : subtitle.stop.IsTime

theorem TimeRange.exists_holding {range : TimeRange} (subtitle : Subtitle) :
    (∃ found, range.holding subtitle = .ok found) ↔ range.IsCountable := by
  simp only [holding, exists_bind_eq_ok, exists_pure_eq_ok, and_true, exists_and_right,
    Timestamp.exists_seconds?]
  exact ⟨fun ⟨hstart, hstop⟩ ↦ ⟨hstart, hstop⟩, fun ⟨hstart, hstop⟩ ↦ ⟨hstart, hstop⟩⟩

theorem TimeRange.isTimely_of_holding {range : TimeRange} {subtitle found : Subtitle}
    (h : range.holding subtitle = .ok found) : found.IsTimely := by
  obtain ⟨start, hstart, h⟩ := bind_eq_ok.mp h
  obtain ⟨stop, hstop, h⟩ := bind_eq_ok.mp h
  cases pure_eq_ok.mp h
  exact ⟨Timestamp.isTime_of_seconds? hstart, Timestamp.isTime_of_seconds? hstop⟩

/-! ## Timings -/

/-- What the first lines of a block say about its time. -/
inductive Timing where
  /-- Nothing, and the block need not say it. -/
  | unneeded
  /-- Nothing that can be read. -/
  | missing
  | window (range : TimeRange)
  deriving DecidableEq, Repr

namespace Timing

/-- A block with that timing can be read, be it as malformed. -/
def IsReadable : Timing → Prop
  | unneeded | missing => True
  | window range => range.IsCountable

/-- What a block with that timing may turn out to be.  It can be read just if its window, should it
have one, is on the grid; it is malformed just if the window is missing; and a subtitle in it has
times. -/
structure Settles (timing : Timing) (piece : Except Error Piece) : Prop where
  exists_iff : (∃ found, piece = .ok found) ↔ timing.IsReadable
  malformed_iff : piece = .ok .malformed ↔ timing = missing
  isTimely : ∀ subtitle, piece = .ok (.subtitle subtitle) → subtitle.IsTimely

theorem settles_unneeded : Settles unneeded (.ok .nothing) :=
  ⟨iff_of_true ⟨_, rfl⟩ trivial, iff_of_false (by rintro ⟨⟩) (by rintro ⟨⟩), by rintro _ ⟨⟩⟩

theorem settles_missing : Settles missing (.ok .malformed) :=
  ⟨iff_of_true ⟨_, rfl⟩ trivial, iff_of_true rfl rfl, by rintro _ ⟨⟩⟩

theorem settles_window (options : ReadOptions) (range : TimeRange) (subtitle : Subtitle) :
    Settles (window range) ((range.holding subtitle).map (Piece.ofSubtitle options)) where
  exists_iff := by
    rw [IsReadable, ← TimeRange.exists_holding subtitle]
    constructor
    · rintro ⟨_, h⟩
      obtain ⟨found, hfound, -⟩ := map_eq_ok.mp h
      exact ⟨found, hfound⟩
    · rintro ⟨found, hfound⟩
      exact ⟨_, map_eq_ok.mpr ⟨found, hfound, rfl⟩⟩
  malformed_iff := by
    refine iff_of_false (fun h ↦ ?_) (by rintro ⟨⟩)
    obtain ⟨found, -, h⟩ := map_eq_ok.mp h
    rw [Piece.ofSubtitle] at h
    split at h <;> cases h
  isTimely := by
    intro subtitle h
    obtain ⟨found, hfound, h⟩ := map_eq_ok.mp h
    rw [Piece.ofSubtitle] at h
    split at h
    · cases h
    · cases h
      exact TimeRange.isTimely_of_holding hfound

end Timing

/-! ## Formats -/

/-- How the blocks of a format are read: what they say about their time, what they turn out to be,
what a warning calls the block with a number, and which name a subtitle gets in the end. -/
structure BlockFormat where
  timing : List Char → Timing
  piece : List Char → Except Error Piece
  label : Nat → Unreadable
  name : Subtitle → String
  settles : ∀ block, (timing block).Settles (piece block)

namespace BlockFormat

variable (format : BlockFormat)

/-- The blocks as pieces, numbered from one. -/
def pieces (blocks : List (List Char)) : List LabelledPiece :=
  blocks.mapIdx fun place block ↦ ⟨format.label (place + 1), block, format.piece block⟩

/-- The subtitle that a block holds, if it holds one. -/
def subtitle? (block : List Char) : Option Subtitle :=
  (format.piece block).toOption.bind Piece.subtitle?

/-- Subtitles sorted, numbered from one and named. -/
def arranged (subtitles : List Subtitle) : List Subtitle :=
  (Subtitle.inOrder subtitles).map fun subtitle ↦ { subtitle with id := format.name subtitle }

/-- A warning for each block whose time is missing. -/
def warnings (blocks : List (List Char)) : List Warning :=
  (blocks.zipIdx.filter fun block ↦ format.timing block.1 = .missing).map fun block ↦
    .skipped (format.label (block.2 + 1))

/-- What a lenient reading of blocks comes to, where some warnings stand in front.  It succeeds just
if each block can be read, be it as malformed, and then gives what the blocks hold, each for itself,
and a warning for each block whose time is missing. -/
structure IsReading (blocks : List (List Char)) (front : List Warning)
    (reading : Reported (List Subtitle)) : Prop where
  succeeds_iff : (∃ subtitles, reading.result = .ok subtitles) ↔
    ∀ block ∈ blocks, (format.timing block).IsReadable
  eq_of_ok : ∀ subtitles, reading.result = .ok subtitles →
    subtitles = format.arranged (blocks.filterMap format.subtitle?) ∧
      reading.warnings = front ++ format.warnings blocks
  isTimely : ∀ subtitles, reading.result = .ok subtitles → ∀ subtitle ∈ subtitles, subtitle.IsTimely
  inOrder : ∀ subtitles, reading.result = .ok subtitles →
    Subtitle.IsRising subtitles ∧ Subtitle.IsNumbered subtitles

variable {format}

theorem isTimely_of_subtitle? {block : List Char} {subtitle : Subtitle}
    (h : format.subtitle? block = some subtitle) : subtitle.IsTimely := by
  obtain ⟨piece, hpiece, hsubtitle⟩ := Option.bind_eq_some_iff.mp h
  refine (format.settles block).isTimely subtitle ?_
  rw [toOption_eq_some.mp hpiece, Piece.eq_of_subtitle? hsubtitle]

variable {subtitles : List Subtitle}

/-- Arranging leaves the times of subtitles as they are. -/
theorem isTimely_arranged (timely : ∀ subtitle ∈ subtitles, subtitle.IsTimely) :
    ∀ subtitle ∈ format.arranged subtitles, subtitle.IsTimely := by
  intro subtitle h
  obtain ⟨found, hfound, _, _, rfl⟩ := Subtitle.exists_of_mem_withNames h
  obtain ⟨hstart, hstop⟩ := timely found hfound
  exact ⟨hstart, hstop⟩

theorem inOrder_arranged (timely : ∀ subtitle ∈ subtitles, subtitle.IsTimely) :
    Subtitle.IsRising (format.arranged subtitles) ∧
      Subtitle.IsNumbered (format.arranged subtitles) := by
  refine Subtitle.inOrder_withNames format.name fun subtitle h hundefined ↦ ?_
  have hfinite := (timely subtitle h).start.finite
  rw [hundefined] at hfinite
  cases hfinite

/-! ## Readings -/

theorem mapM_pieces (blocks : List (List Char)) :
    (format.pieces blocks).mapM LabelledPiece.piece = blocks.mapM format.piece := by
  have hpieces : (format.pieces blocks).map LabelledPiece.piece = blocks.map format.piece :=
    List.ext_getElem (by simp [pieces]) (by simp [pieces])
  have hid := congrArg (List.mapM id) hpieces
  rwa [List.mapM_map, List.mapM_map] at hid

theorem filter_isMalformed (blocks : List (List Char)) :
    ((format.pieces blocks).filter (·.isMalformed)).map (fun part ↦ Warning.skipped part.label)
      = format.warnings blocks := by
  have hmalformed (block : List Char × Nat) : LabelledPiece.isMalformed
      ⟨format.label (block.2 + 1), block.1, format.piece block.1⟩
        = decide (format.timing block.1 = .missing) := by
    have hsettles := (format.settles block.1).malformed_iff
    rw [Bool.eq_iff_iff, decide_eq_true_iff, ← hsettles, LabelledPiece.isMalformed]
    split
    · rename_i h
      exact iff_of_true rfl h
    · rename_i h
      exact iff_of_false (by rintro ⟨⟩) h
  rw [pieces, List.mapIdx_eq_zipIdx_map, List.filter_map, List.map_map, warnings]
  congr 1
  exact List.filter_congr fun block _ ↦ hmalformed block

/-- **A lenient reading of blocks succeeds just if each of them can be read.** -/
theorem isReading_collect (blocks : List (List Char)) : format.IsReading blocks []
    (do return format.arranged (← collect false (format.pieces blocks))) := by
  have hfound (subtitles : List Subtitle) (h : (do
      return format.arranged (← collect false (format.pieces blocks)) : Reported _).result
        = .ok subtitles) : subtitles = format.arranged (blocks.filterMap format.subtitle?) := by
    obtain ⟨collected, hcollected, h⟩ := Reported.bind_eq_ok.mp h
    rw [collect_lenient, mapM_pieces] at hcollected
    obtain ⟨found, hfound, rfl⟩ := map_eq_ok.mp hcollected
    cases h
    rw [filterMap_subtitle?_of_mapM hfound]
    rfl
  have htimely : ∀ subtitle ∈ blocks.filterMap format.subtitle?, subtitle.IsTimely := by
    intro subtitle h
    obtain ⟨block, -, hblock⟩ := List.mem_filterMap.mp h
    exact isTimely_of_subtitle? hblock
  constructor
  case succeeds_iff =>
    simp only [← (format.settles _).exists_iff, ← exists_mapM, Reported.bind_eq_ok, collect_lenient,
      mapM_pieces, map_eq_ok]
    constructor
    · rintro ⟨_, _, ⟨found, hfound, -⟩, -⟩
      exact ⟨found, hfound⟩
    · rintro ⟨found, hfound⟩
      exact ⟨_, _, ⟨found, hfound, rfl⟩, rfl⟩
  case eq_of_ok =>
    refine fun subtitles h ↦ ⟨hfound subtitles h, ?_⟩
    obtain ⟨collected, hcollected, -⟩ := Reported.bind_eq_ok.mp h
    have hwarnings := warnings_collect_lenient hcollected
    rw [filter_isMalformed] at hwarnings
    have harranged := Reported.map_ok hcollected format.arranged
    rw [List.nil_append, ← hwarnings]
    exact (congrArg Reported.warnings harranged :)
  case isTimely =>
    intro subtitles h
    rw [hfound subtitles h]
    exact isTimely_arranged htimely
  case inOrder =>
    intro subtitles h
    rw [hfound subtitles h]
    exact inOrder_arranged htimely

/-- A warning in front of a reading changes nothing but the warnings. -/
theorem IsReading.warn {blocks : List (List Char)} {front : List Warning}
    {reading : Reported (List Subtitle)} (h : format.IsReading blocks front reading)
    (warning : Warning) : format.IsReading blocks (warning :: front)
      ⟨reading.result, warning :: reading.warnings⟩ where
  succeeds_iff := h.succeeds_iff
  eq_of_ok subtitles hok := by
    obtain ⟨heq, hwarnings⟩ := h.eq_of_ok subtitles hok
    exact ⟨heq, congrArg (warning :: ·) hwarnings⟩
  isTimely := h.isTimely
  inOrder := h.inOrder

end BlockFormat

/-! ## SRT -/

namespace Srt

/-- What a block says about its time: a window on its second line, if the first one is a whole
number and there are lines enough behind the two. -/
def timing (options : ReadOptions) (block : List Char) : Timing :=
  match linesOf block with
  | number :: timing :: body =>
    match readWhole (trim number), TimeRange.ofLine? timing with
    | .ok _, some range => if isEnough options body then .window range else .missing
    | _, _ => .missing
  | _ => .missing

/-- The text of a block, as a subtitle at zero. -/
def textOnly (options : ReadOptions) (body : List (List Char)) : Subtitle :=
  let marked :=
    if options.parseStyles then Markup.read (bodyText body) else (bodyText body, none)
  { text := String.ofList marked.1, start := .finite 0, stop := .finite 0, style := marked.2 }

theorem subtitleOf_eq (options : ReadOptions) (range : TimeRange) (body : List (List Char)) :
    subtitleOf options range body = range.holding (textOnly options body) := rfl

theorem settles (options : ReadOptions) (block : List Char) :
    (timing options block).Settles (piece options block) := by
  rw [timing, piece]
  generalize linesOf block = lines
  rcases lines with _ | ⟨number, _ | ⟨line, body⟩⟩
  · exact Timing.settles_missing
  · exact Timing.settles_missing
  dsimp only
  cases readWhole (trim number) with
  | error e => exact Timing.settles_missing
  | ok n =>
    cases TimeRange.ofLine? line with
    | none => exact Timing.settles_missing
    | some range =>
      dsimp only
      split
      · rw [subtitleOf_eq]
        exact Timing.settles_window options range (textOnly options body)
      · exact Timing.settles_missing

/-- How the blocks of an SRT document are read. -/
def format (options : ReadOptions) : BlockFormat where
  timing := timing options
  piece := piece options
  label := .srtBlock
  name subtitle := "srt_" ++ toString subtitle.index
  settles := settles options

end Srt

/-! ## WebVTT -/

namespace Vtt

/-- What a block says about its time: nothing if it is passed over, and otherwise a window on its
first line, or on the second one if the first is a name. -/
def timing (block : List Char) : Timing :=
  if isPassedOver block then .unneeded
  else match (takeName (linesOf block)).2 with
    | line :: _ => (TimeRange.ofLine? line).elim .missing .window
    | [] => .missing

/-- The text of a cue, as a subtitle at zero. -/
def textOnly (options : ReadOptions) (name : String) (settings : List Char)
    (body : List (List Char)) : Subtitle :=
  let spoken := withoutTags (bodyText body)
  let marked := if options.parseStyles then Markup.read spoken else (spoken, none)
  { id := name, text := String.ofList marked.1, start := .finite 0, stop := .finite 0
    style := marked.2, metadata := metadataOf settings (bodyText body) }

theorem subtitleOf_eq (options : ReadOptions) (name : String) (range : TimeRange)
    (body : List (List Char)) : subtitleOf options name range body
      = range.holding (textOnly options name range.settings body) := rfl

theorem settles (options : ReadOptions) (block : List Char) :
    (timing block).Settles (piece options block) := by
  rw [timing, piece]
  split
  · exact Timing.settles_unneeded
  · generalize takeName (linesOf block) = parts
    obtain ⟨name, lines⟩ := parts
    cases lines with
    | nil => exact Timing.settles_missing
    | cons line body =>
      dsimp only
      cases TimeRange.ofLine? line with
      | none => exact Timing.settles_missing
      | some range =>
        dsimp only
        rw [subtitleOf_eq]
        exact Timing.settles_window options range (textOnly options name range.settings body)

/-- How the cues of a WebVTT document are read. -/
def format (options : ReadOptions) : BlockFormat where
  timing := timing
  piece := piece options
  label := .vttCue
  name subtitle :=
    if subtitle.id.isEmpty then "vtt_" ++ toString subtitle.index else subtitle.id
  settles := settles options

/-- The blocks of a document that may be cues: all but the header. -/
def cueBlocks (content : String) : List (List Char) :=
  match blocksOf content with
  | [] => []
  | first :: rest => if isHeader first then rest else first :: rest

/-- A warning if the document has blocks and no header. -/
def headerWarnings (content : String) : List Warning :=
  match blocksOf content with
  | [] => []
  | first :: _ => if isHeader first then [] else [.skipped .vttHeader]

theorem withName_eq (options : ReadOptions) (subtitle : Subtitle) :
    withName subtitle = { subtitle with id := (format options).name subtitle } := by
  rw [withName, format]
  dsimp only
  split <;> rfl

theorem isReading_read {options : ReadOptions} (lenient : options.strict = false)
    (content : String) : (format options).IsReading (cueBlocks content) (headerWarnings content)
      (read options content) := by
  have hcues (blocks : List (List Char)) : (format options).IsReading blocks [] (do
      let subtitles ← collect options.strict (cues options blocks)
      return (Subtitle.inOrder subtitles).map withName) := by
    rw [lenient, funext (withName_eq options)]
    exact BlockFormat.isReading_collect blocks
  rw [read, pieces, cueBlocks, headerWarnings]
  cases blocksOf content with
  | nil => exact hcues []
  | cons first rest =>
    dsimp only
    split
    · exact hcues rest
    · have hfirst := (hcues (first :: rest)).warn (.skipped .vttHeader)
      rw [lenient] at hfirst ⊢
      rw [collect_malformed]
      convert hfirst using 1
      generalize collect false (cues options (first :: rest)) = collected
      obtain ⟨result, warnings⟩ := collected
      cases result <;> rfl

end Vtt

/-! ## Readers of blocks -/

/-- **A lenient reader takes a document in blocks just if each block can be read**: it says a window
on the grid, or none.  What it finds then is what the blocks hold, each for itself, sorted by start
and numbered from one, with a warning for each block whose window is missing. -/
theorem read_blocks_lenient_iff {options : ReadOptions} (lenient : options.strict = false)
    (content : String) :
    (Srt.format options).IsReading (blocksOf content) [] (Srt.read options content) ∧
      (Vtt.format options).IsReading (Vtt.cueBlocks content) (Vtt.headerWarnings content)
        (Vtt.read options content) := by
  refine ⟨?_, Vtt.isReading_read lenient content⟩
  rw [Srt.read, lenient]
  exact BlockFormat.isReading_collect (blocksOf content)

/-- A block, and one without a number. -/
def numberless : String :=
  "1\n00:00:01,000 --> 00:00:02,000\nFine\n\n00:00:05,000 --> 00:00:06,000\nOdd\n"

/-- Two blocks with numbers, of which the second starts after more than `10 ^ 309` hours. -/
def farAwayChars : List Char :=
  "1\n00:00:01,000 --> 00:00:02,000\nFine\n\n2\n".toList ++ '1' :: List.replicate 309 '0'
    ++ ":00:00,000 --> 00:00:06,000\nLate\n".toList

def farAway : String := String.ofList farAwayChars

/-- A block without a number is skipped, but one that is too far away fails the block in front of
it, too. -/
theorem farAway_fails : ({} : ReadOptions).strict = false ∧
    (∃ subtitles, (Srt.read {} numberless).result = .ok subtitles ∧
      subtitles.map (·.text) = ["Fine"] ∧
      (Srt.read {} numberless).warnings = [.skipped (.srtBlock 2)]) ∧
    ¬ ∃ subtitles, (Srt.read {} farAway).result = .ok subtitles := by
  refine ⟨rfl, ?_, ?_⟩
  · have hread := (read_blocks_lenient_iff (rfl : ({} : ReadOptions).strict = false) numberless).1
    have hpieces : ∀ block ∈ blocksOf numberless, (Srt.piece {} block).toOption.isSome = true := by
      decide +kernel
    obtain ⟨subtitles, h⟩ := hread.succeeds_iff.mpr fun block hblock ↦ by
      obtain ⟨found, hfound⟩ := Option.isSome_iff_exists.mp (hpieces block hblock)
      exact (Srt.settles {} block).exists_iff.mp ⟨found, toOption_eq_some.mp hfound⟩
    obtain ⟨hsubtitles, hwarnings⟩ := hread.eq_of_ok subtitles h
    refine ⟨subtitles, h, ?_, ?_⟩
    · rw [hsubtitles]
      decide +kernel
    · rw [hwarnings]
      decide +kernel
  · rw [(read_blocks_lenient_iff (rfl : ({} : ReadOptions).strict = false) farAway).1.succeeds_iff]
    intro readable
    have hany :
        (blocksOf farAway).any (fun block ↦ (Srt.piece {} block).toOption.isNone) = true := by
      have hchars : farAway.toList = farAwayChars := String.toList_ofList
      rw [blocksOf, hchars]
      decide +kernel
    obtain ⟨block, hblock, hnone⟩ := List.any_eq_true.mp hany
    obtain ⟨found, hfound⟩ := (Srt.settles {} block).exists_iff.mpr (readable block hblock)
    rw [hfound] at hnone
    cases hnone

end Montage
