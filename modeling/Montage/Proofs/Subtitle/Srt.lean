import Montage.Proofs.Subtitle.Numbered
import Montage.Proofs.Subtitle.Order

/-!
# SRT documents are read as they were meant

A document that is written for subtitles and read again gives the same subtitles in the order of
their starts, as far as an SRT document can hold them: texts without markup of their own whose lines
all end solid, times that survive the notation, and looks that inline markup can say.

The proof goes from the inside outwards.  A written block is a numbered block, which is a block of
the document (`isPlainBlock_numbered`); such a block is read as the subtitle that it was written for
(`Srt.piece_blockOf`); and a document is its blocks, whatever the line ends are.
-/

set_option autoImplicit false

namespace Montage

/-! ## What an SRT document can hold -/

/-- A subtitle that an SRT document can hold: its times survive the notation, its text has no
markup, no carriage return, no blank line and no line with blanks at its end, and its look is one
that inline markup can say. -/
structure Subtitle.IsSrt [Rounding] (subtitle : Subtitle) : Prop where
  start : TimeNotation.srt.Survives subtitle.start
  stop : TimeNotation.srt.Survives subtitle.stop
  unmarked : '<' ∉ subtitle.text.toList
  plain : '\r' ∉ subtitle.text.toList
  lines : ∀ line ∈ linesOf subtitle.text.toList, line.all Montage.isBlank = false ∧ trimBack line = line
  style : ∀ style ∈ subtitle.style, style.IsInline

/-- What is read for a subtitle: its text, its times and its look, and nothing else.  A written time
has no sign. -/
def Subtitle.reread (subtitle : Subtitle) : Subtitle where
  text := subtitle.text
  start := subtitle.start.unsigned
  stop := subtitle.stop.unsigned
  style := subtitle.style

namespace Srt

variable [rounding : Rounding] {subtitle : Subtitle}

theorem isMarkable (holds : subtitle.IsSrt) : subtitle.IsMarkable :=
  ⟨holds.unmarked, holds.plain, holds.lines, holds.style⟩

/-! ## Blocks -/

omit rounding in
/-- The window of a block, its times being given in milliseconds. -/
def windowOf (start stop : Nat) : List Char :=
  (TimeNotation.srt.textOfUnits start ++ " --> " ++ TimeNotation.srt.textOfUnits stop).toList

omit rounding in
/-- A block with plain line ends. -/
def blockOf (number start stop : Nat) (subtitle : Subtitle) : List Char :=
  numberedBlock number (windowOf start stop) subtitle

omit rounding in
theorem lineEnd_not_mem_windowOf (start stop : Nat) : ∀ c ∈ Markup.lineEnds, c ∉ windowOf start stop :=
  fun _ hc ↦ lineEnd_not_mem_window TimeNotation.srt_isStandard start stop hc

/-- **A written block is a block of the document.** -/
theorem isPlainBlock_blockOf (number start stop : Nat) (holds : subtitle.IsSrt) :
    IsPlainBlock (blockOf number start stop subtitle) := by
  refine isPlainBlock_numbered number (lineEnd_not_mem_windowOf start stop) ?_ (isMarkable holds)
  rw [windowOf, String.toList_append]
  exact (TimeNotation.endsSolid_textOfUnits stop).append _

/-- **A written block is read as the subtitle that it was written for.** -/
theorem piece_blockOf (strict preserveEmpty : Bool) (holds : subtitle.IsSrt)
    {number start stop : Nat} (hnumber : number < 10 ^ digitLimit)
    (times : TimeNotation.srt.AreTimes start stop subtitle) :
    piece { strict, preserveEmpty } (blockOf number start stop subtitle)
      = .ok (.subtitle subtitle.reread) := by
  have solid := (isMarkable holds).isSolid_markedText
  have henough : isEnough { strict, preserveEmpty } (linesOf (markedText subtitle)) = true := by
    rw [isEnough, Bool.or_eq_true, Bool.not_eq_true', List.isEmpty_eq_false_iff]
    exact .inr (splitAll_ne_nil _ _)
  have hread : Markup.read (markedText subtitle) = (subtitle.text.toList, subtitle.style) :=
    Markup.read_write holds.style holds.unmarked
  have hsubtitle : subtitleOf { strict, preserveEmpty }
      ⟨TimeNotation.srt.stampOf start, TimeNotation.srt.stampOf stop, []⟩
      (linesOf (markedText subtitle)) = .ok subtitle.reread := by
    rw [subtitleOf, times.start.read, times.stop.read, bodyText_linesOf solid, if_pos rfl, hread]
    show Except.ok _ = Except.ok _
    rw [String.ofList_toList]
    rfl
  have hblank : subtitle.reread.isBlank = false := (isMarkable holds).isBlank_eq_false
  rw [piece, blockOf, linesOf_numberedBlock number (lineEnd_not_mem_windowOf start stop)]
  dsimp only
  rw [toList_toString_nat, trim_numeral (toDigits_numeral number), readWhole_toDigits hnumber,
    windowOf, TimeRange.ofLine?_window TimeNotation.srt_isStandard]
  dsimp only
  rw [if_pos henough, hsubtitle]
  show Except.ok (Piece.ofSubtitle _ _) = _
  rw [Piece.ofSubtitle, hblank]
  rfl

/-- What is written for a block is the block and an empty line behind it, with line ends. -/
theorem block_eq (lineEnding : LineEnding) (addMark : Bool) (number : Nat) {start stop : Nat}
    (times : TimeNotation.srt.AreTimes start stop subtitle) :
    ∃ text, block { lineEnding, addMark } number subtitle = .ok text
      ∧ text.toList = replaceChar '\n' lineEnding.text.toList
          (blockOf number start stop subtitle ++ ['\n', '\n']) := by
  refine ⟨toString number ++ lineEnding.text ++ (TimeNotation.srt.textOfUnits start ++ " --> "
    ++ TimeNotation.srt.textOfUnits stop) ++ lineEnding.text
    ++ textOf { lineEnding, addMark } subtitle ++ lineEnding.text ++ lineEnding.text, ?_, ?_⟩
  · rw [block, times.window_eq]
    rfl
  · rw [blockOf, replaceChar_numberedBlock number (lineEnd_not_mem_windowOf start stop), windowOf]
    simp only [String.toList_append, toList_textOf, List.append_assoc]

/-! ## Documents -/

/-- **The blocks of a document are read as the subtitles that they were written for.** -/
theorem exists_blocks (signs : rounding.KeepsSigns) (lineEnding : LineEnding)
    (addMark strict preserveEmpty : Bool) {subtitles : List Subtitle}
    (holds : ∀ subtitle ∈ subtitles, subtitle.IsSrt) (number : Nat)
    (few : number + subtitles.length ≤ 10 ^ digitLimit) :
    ∃ texts blockTexts, blocks { lineEnding, addMark } number subtitles = .ok texts
      ∧ (String.join texts).toList = replaceChar '\n' lineEnding.text.toList (documentOf blockTexts)
      ∧ (∀ block ∈ blockTexts, IsPlainBlock block)
      ∧ blockTexts.map (piece { strict, preserveEmpty })
          = subtitles.map fun subtitle ↦ .ok (.subtitle subtitle.reread) := by
  induction subtitles generalizing number with
  | nil => exact ⟨[], [], rfl, rfl, by simp, rfl⟩
  | cons subtitle subtitles ih =>
    rw [List.forall_mem_cons] at holds
    rw [List.length_cons] at few
    obtain ⟨texts, blockTexts, htexts, hjoin, hblocks, hpieces⟩ :=
      ih holds.2 (number + 1) (by omega)
    obtain ⟨start, stop, times⟩ := TimeNotation.exists_areTimes signs TimeNotation.srt_isStandard
      holds.1.start holds.1.stop
    obtain ⟨text, htext, hchars⟩ := block_eq lineEnding addMark number times
    refine ⟨text :: texts, blockOf number start stop subtitle :: blockTexts, ?_, ?_, ?_, ?_⟩
    · rw [blocks, htext, htexts]
      rfl
    · rw [String.join_cons, String.toList_append, hchars, hjoin, documentOf_cons,
        ← replaceChar_append]
    · rw [List.forall_mem_cons]
      exact ⟨isPlainBlock_blockOf number start stop holds.1, hblocks⟩
    · rw [List.map_cons, List.map_cons, hpieces,
        piece_blockOf strict preserveEmpty holds.1 (by omega) times]

/-! ## Reading what was written -/

theorem map_piece_pieces (options : ReadOptions) (content : String) :
    (pieces options content).map (·.piece) = (blocksOf content).map (piece options) :=
  List.ext_getElem (by simp [pieces]) (by simp [pieces])

/-- What is written for subtitles whose starts rise is read as these subtitles. -/
theorem read_of_isRising (signs : rounding.KeepsSigns) (lineEnding : LineEnding)
    (addMark strict preserveEmpty : Bool) {subtitles : List Subtitle}
    (rising : Subtitle.IsRising subtitles) (holds : ∀ subtitle ∈ subtitles, subtitle.IsSrt)
    (few : subtitles.length < 10 ^ digitLimit) :
    ∃ texts, blocks { lineEnding, addMark } 1 subtitles = .ok texts ∧
      read { strict, preserveEmpty }
          (WriteOptions.opening { lineEnding, addMark } ++ String.join texts)
        = ⟨.ok ((subtitles.map Subtitle.reread).mapIdx (Subtitle.renumbered "srt")), []⟩ := by
  obtain ⟨texts, blockTexts, htexts, hjoin, hblocks, hpieces⟩ :=
    exists_blocks signs lineEnding addMark strict preserveEmpty holds 1 (by omega)
  refine ⟨texts, htexts, ?_⟩
  have hblocksOf : blocksOf (WriteOptions.opening { lineEnding, addMark } ++ String.join texts)
      = blockTexts := by
    refine blocksOf_document (fun block h ↦ (hblocks block h).toIsBlock) ?_
    rw [String.toList_append, hjoin, normalizeText_document lineEnding addMark hblocks]
  have hfound : (pieces { strict, preserveEmpty }
      (WriteOptions.opening { lineEnding, addMark } ++ String.join texts)).map (·.piece)
      = (subtitles.map Subtitle.reread).map fun subtitle ↦ .ok (.subtitle subtitle) := by
    rw [map_piece_pieces, hblocksOf, hpieces, List.map_map]
    rfl
  rw [read, Reported.silent_bind (collect_subtitles strict hfound),
    Subtitle.named_inOrder_of_isRising "srt" (rising.of_unsigned (by rw [List.map_map]; rfl))]
  rfl

omit rounding in
/-- **Subtitles are read back from the document that is written for them**, in the order of their
starts, numbered from one and named by their numbers, whatever ends the lines and whether or not a
mark opens the document.  The numbers have to be short enough for a reader of whole numbers, which
they are in every list that fits into a memory. -/
theorem read_write_document (lineEnding : LineEnding) (addMark strict preserveEmpty : Bool)
    {entries : List Subtitle} (holds : ∀ entry ∈ entries, @Subtitle.IsSrt .binary64 entry)
    (few : entries.length < 10 ^ digitLimit) :
    ∃ text, @write .binary64 { lineEnding, addMark } entries = .ok text ∧
      @read .binary64 { strict, preserveEmpty } text = ⟨.ok (((entries.mergeSort fun a b ↦
        !b.start.lt a.start).map Subtitle.reread).mapIdx (Subtitle.renumbered "srt")), []⟩ := by
  let _ : Rounding := .binary64
  have defined : ∀ entry ∈ entries, entry.start ≠ .undefined :=
    fun entry h ↦ (holds entry h).start.ne_undefined
  have hperm := Subtitle.sorted_perm entries
  obtain ⟨texts, htexts, hread⟩ := read_of_isRising binary64_keepsSigns lineEnding addMark strict
    preserveEmpty (Subtitle.sorted_isRising defined)
    (fun entry h ↦ holds entry (hperm.mem_iff.mp h)) (by rwa [hperm.length_eq])
  rw [Subtitle.sorted_of_defined defined] at hread
  refine ⟨_, ?_, hread⟩
  rw [write, htexts]
  rfl

/-- A title in color over two lines, and a plain line that starts before it. -/
def lateTitle : List Subtitle := [
  { text := "I > you\n-- and 00:01", start := .finite (3 / 2), stop := .finite 4, style := some {
      fontWeight := some "bold", textDecoration := some "underline", color := some "#ffcc00" } },
  { text := "  Once,", start := .negativeZero, stop := .finite (1 / 4) }]

omit rounding in
theorem lateTitle_read :
    (∀ entry ∈ lateTitle, @Subtitle.IsSrt .binary64 entry) ∧ lateTitle.length < 10 ^ digitLimit ∧
      ∃ text, @write .binary64 { lineEnding := .crlf, addMark := true } lateTitle = .ok text ∧
        @read .binary64 { strict := true, preserveEmpty := false } text = ⟨.ok [
          { id := "srt_1", index := 1, text := "  Once,", start := .finite 0
            stop := .finite (1 / 4) },
          { id := "srt_2", index := 2, text := "I > you\n-- and 00:01", start := .finite (3 / 2)
            stop := .finite 4, style := some { fontWeight := some "bold"
                                               textDecoration := some "underline"
                                               color := some "#ffcc00" } }], []⟩ := by
  let _ : Rounding := .binary64
  have hholds : ∀ entry ∈ lateTitle, entry.IsSrt := by
    rw [lateTitle, List.forall_mem_cons, List.forall_mem_singleton]
    constructor
    · refine ⟨by decide +kernel, by decide +kernel, by decide, by decide, by decide, ?_⟩
      rintro style ⟨⟩
      exact ⟨.inr rfl, .inl rfl, .inr rfl, by decide, rfl, by decide⟩
    · refine ⟨by decide +kernel, by decide +kernel, by decide, by decide, by decide, ?_⟩
      rintro style ⟨⟩
  have few : lateTitle.length < 10 ^ digitLimit :=
    lt_of_lt_of_le (by decide : lateTitle.length < 10 ^ 1)
      (Nat.pow_le_pow_right (by decide) (by decide))
  have hread := read_write_document .crlf true true false hholds few
  have hsort : (lateTitle.mergeSort fun a b ↦ !b.start.lt a.start) = lateTitle.reverse := by
    have hlt : Quantity.lt .negativeZero (.finite (3 / 2)) = true := by decide +kernel
    simp [lateTitle, List.mergeSort, hlt]
  rw [hsort] at hread
  exact ⟨hholds, few, hread⟩

end Srt
end Montage
