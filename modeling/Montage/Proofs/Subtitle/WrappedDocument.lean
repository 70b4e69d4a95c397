import Montage.Proofs.Subtitle.LaidOut

/-!
# Documents of wrapped subtitles

Wrapping moves line breaks and keeps the words, but it may leave a blank line behind: the last word of
a line that ends with a blank is empty, and if it does not fit any more it is a line of its own.  In a
document a blank line ends a block.  So what is written for wrapped subtitles is read as these subtitles
just if no blank line is left in any of their texts (`wrapped_retold_iff`); otherwise something is lost,
however the reader is set.

No blank line is left where none of the lines ends with a blank and words are set apart by single
blanks (`Wrap.isGapless_wrap`), nor where nothing is wrapped.
-/

set_option autoImplicit false

namespace Montage

attribute [local instance] Rounding.binary64

/-! ## Layouts -/

/-- A subtitle as it stands in a document: its text is wrapped, and its style stays if styles are
written. -/
def Subtitle.laidOut (options : WriteOptions) (subtitle : Subtitle) : Subtitle :=
  { subtitle with
    text := String.ofList (Wrap.wrap options.maxLineLength subtitle.text.toList)
    style := if options.includeStyles then subtitle.style else none }

/-- A subtitle as far as WebVTT can write it. -/
def Vtt.plain (subtitle : Subtitle) : Subtitle :=
  { subtitle with style := plainStyle subtitle.style }

theorem Vtt.color_plain (subtitle : Subtitle) : ∀ style ∈ (plain subtitle).style, style.color = none := by
  intro style hstyle
  obtain ⟨other, -, rfl⟩ := Option.map_eq_some_iff.mp hstyle
  rfl

/-- A subtitle whose document is asked for: its times survive in milliseconds, its text has no markup,
no carriage return and no blank line, and its color and settings stay where they are written. -/
structure Subtitle.IsWrappable (subtitle : Subtitle) : Prop where
  start : TimeNotation.srt.Survives subtitle.start
  stop : TimeNotation.srt.Survives subtitle.stop
  unmarked : '<' ∉ subtitle.text.toList
  plain : '\r' ∉ subtitle.text.toList
  gapless : IsGapless subtitle.text.toList
  color : ∀ style ∈ subtitle.style, Markup.IsPlainColor style
  settings : ∀ c ∈ Markup.lineEnds, c ∉ (Vtt.settingsOf subtitle).toList

/-- What is written for a text is the laid out text with line ends. -/
theorem toList_textOf_laidOut (options : WriteOptions) (subtitle : Subtitle) :
    (Srt.textOf options subtitle).toList = replaceChar '\n' options.lineEnding.text.toList
      (markedText (subtitle.laidOut options)) := by
  rw [Srt.textOf, String.toList_ofList, markedText, Subtitle.laidOut]
  cases options.includeStyles <;> rfl

namespace Subtitle

variable {subtitle : Subtitle} (h : subtitle.IsWrappable) (options : WriteOptions)
include h

theorem isLayoutOf_laidOut : (subtitle.laidOut options).IsLayoutOf subtitle where
  unmarked := h.unmarked
  shown := h.gapless.all_isBlank
  words := by
    rw [laidOut, String.toList_ofList, Wrap.wordsIn_wrap]
  color := by
    rw [laidOut]
    split
    · exact h.color
    · rintro _ ⟨⟩

theorem plain_laidOut : '\r' ∉ markedText (subtitle.laidOut options) := by
  have hlaid := isLayoutOf_laidOut h options
  obtain ⟨hfront, hback⟩ := Markup.lineEnd_not_mem_tags hlaid.color (show '\r' ∈ Markup.lineEnds by decide)
  rw [hlaid.markedText_eq, List.mem_append, List.mem_append, not_or, not_or]
  refine ⟨hfront, ?_, hback⟩
  rw [laidOut, String.toList_ofList]
  exact Wrap.not_mem_wrap (by decide) (by decide) h.plain _

omit options in
theorem IsWrappable.vtt : (Vtt.plain subtitle).IsWrappable where
  start := h.start
  stop := h.stop
  unmarked := h.unmarked
  plain := h.plain
  gapless := h.gapless
  color style hstyle name hname := by
    rw [Vtt.color_plain subtitle style hstyle] at hname
    cases hname
  settings := h.settings

/-- **A text that wrapping leaves without a blank line does not fall apart**, whatever tags are put
round it. -/
theorem isGapless_laidOut (gapless : IsGapless (Wrap.wrap options.maxLineLength subtitle.text.toList)) :
    IsGapless (trimBack (markedText (subtitle.laidOut options))) := by
  have hlaid := isLayoutOf_laidOut h options
  obtain ⟨hfront, hback⟩ := Markup.lineEnd_not_mem_tags hlaid.color (show '\n' ∈ Markup.lineEnds by decide)
  refine IsGapless.trimBack ?_
  rw [hlaid.markedText_eq, laidOut, String.toList_ofList]
  refine forall_splitAll_front hfront (forall_splitAll_back hback gapless ?_) ?_
  · intro line hline
    rw [List.all_append, hline, Bool.false_and]
  · intro line hline
    rw [List.all_append, hline, Bool.and_false]

end Subtitle

/-! ## Texts of documents -/

section

variable {options : WriteOptions} {timing : Subtitle → List Char} {laid : Subtitle → Subtitle}

/-- What is written for subtitles one after the other is their blocks with an empty line behind each,
with line ends. -/
theorem exists_numberedTexts (block : Nat → Subtitle → Except Error String)
    (blocks : Nat → List Subtitle → Except Error (List String)) (hnil : ∀ number, blocks number [] = .ok [])
    (hcons : ∀ number subtitle rest, blocks number (subtitle :: rest) = do
      let first ← block number subtitle
      return first :: (← blocks (number + 1) rest))
    {subtitles : List Subtitle} (hblock : ∀ subtitle ∈ subtitles, ∀ number, ∃ text,
      block number subtitle = .ok text ∧ text.toList = replaceChar '\n' options.lineEnding.text.toList
        (numberedBlock number (timing subtitle) (laid subtitle) ++ ['\n', '\n'])) (number : Nat) :
    ∃ texts, blocks number subtitles = .ok texts ∧
      (String.join texts).toList = replaceChar '\n' options.lineEnding.text.toList
        (documentOf (numberedBlocks timing laid number subtitles)) := by
  induction subtitles generalizing number with
  | nil => exact ⟨[], hnil number, rfl⟩
  | cons subtitle subtitles ih =>
    rw [List.forall_mem_cons] at hblock
    obtain ⟨text, htext, hchars⟩ := hblock.1 number
    obtain ⟨texts, htexts, hjoin⟩ := ih hblock.2 (number + 1)
    refine ⟨text :: texts, ?_, ?_⟩
    · rw [hcons]
      exact bind_eq_ok.mpr ⟨text, htext, bind_eq_ok.mpr ⟨texts, htexts, rfl⟩⟩
    · rw [String.join_cons, String.toList_append, hchars, hjoin, numberedBlocks, documentOf_cons,
        ← replaceChar_append]

/-- A written document falls into the paragraphs of its texts. -/
theorem lines_blocksOf_written {content : String} {texts : List (List Char)}
    (h : ∀ text ∈ texts, IsPlainText text) (hcontent : content.toList = options.opening.toList ++
      replaceChar '\n' options.lineEnding.text.toList (documentOf texts)) :
    (blocksOf content).map trimmedLines = texts.flatMap fun text ↦ paragraphs (trimmedLines text) := by
  refine lines_blocksOf (hcontent ▸ normalizeText_documentOf h) fun text htext ↦ ?_
  obtain ⟨c, rest, hcons, hc, -⟩ := (h text htext).opens
  exact ⟨c, rest, hcons, hc⟩

/-- The blocks of subtitles are texts that a document can be put together from. -/
theorem isPlainText_numberedBlocks {subtitles : List Subtitle}
    (hends : ∀ subtitle ∈ subtitles, ∀ c ∈ Markup.lineEnds, c ∉ timing subtitle)
    (hplain : ∀ subtitle ∈ subtitles, '\r' ∉ markedText (laid subtitle)) (number : Nat) :
    ∀ text ∈ numberedBlocks timing laid number subtitles, IsPlainText text := by
  induction subtitles generalizing number with
  | nil => exact List.forall_mem_nil _
  | cons subtitle subtitles ih =>
    rw [List.forall_mem_cons] at hends hplain
    rw [numberedBlocks, List.forall_mem_cons]
    refine ⟨⟨not_mem_numberedBlock number hends.1 hplain.1, ?_⟩, ih hends.2 hplain.2 (number + 1)⟩
    obtain ⟨d, ds, hnumber, hd⟩ := toDigits_eq_cons number
    refine ⟨d, ds ++ '\n' :: (timing subtitle ++ '\n' :: markedText (laid subtitle)), ?_,
      isBlank_of_isDigit hd, ?_⟩
    · rw [numberedBlock, toList_toString_nat, hnumber, List.cons_append]
    · rintro rfl
      exact absurd hd (by decide)

end

section

variable {options : WriteOptions} {subtitle : Subtitle} (h : subtitle.IsWrappable)
include h

theorem Srt.exists_times : ∃ m n, TimeNotation.srt.AreTimes m n subtitle :=
  TimeNotation.exists_areTimes binary64_keepsSigns TimeNotation.srt_isStandard h.start h.stop

theorem Vtt.exists_times : ∃ m n, TimeNotation.vtt.AreTimes m n subtitle :=
  TimeNotation.exists_areTimes binary64_keepsSigns TimeNotation.vtt_isStandard h.start.vtt h.stop.vtt

theorem Vtt.isSettingsLine : IsSettingsLine (settingsOf subtitle).toList := by
  refine ⟨fun c hc ↦ ?_, h.settings⟩
  rw [settingsOf] at hc
  split at hc
  · split at hc
    · rw [String.toList_append] at hc
      cases hc
      decide
    · cases hc
  · cases hc

end

namespace Srt

variable {options : WriteOptions} {subtitles : List Subtitle}

/-- What is written for a block. -/
theorem exists_laidBlock {subtitle : Subtitle} (h : subtitle.IsWrappable) (number : Nat) :
    ∃ text, block options number subtitle = .ok text ∧
      text.toList = replaceChar '\n' options.lineEnding.text.toList
        (numberedBlock number (timingLine .srt (fun _ ↦ "") subtitle) (subtitle.laidOut options)
          ++ ['\n', '\n']) := by
  obtain ⟨m, n, times⟩ := exists_times h
  have hends := @lineEnd_not_mem_timingLine _ m n (fun _ ↦ "") subtitle TimeNotation.srt_isStandard times
    isSettingsLine_nil
  refine ⟨_, bind_eq_ok.mpr ⟨_, times.window_eq, rfl⟩, ?_⟩
  rw [replaceChar_numberedBlock number hends, timingLine_eq times]
  simp only [String.toList_append, toList_textOf_laidOut, List.append_assoc, String.toList_empty,
    List.append_nil]

/-- **A document in this format retells subtitles just if no text falls apart** that is laid out. -/
theorem read_retells_iff (strict preserveEmpty : Bool) (rising : Subtitle.IsRising subtitles)
    (wrappable : ∀ subtitle ∈ subtitles, subtitle.IsWrappable)
    (few : subtitles.length < 10 ^ digitLimit) :
    ∃ texts, blocks options 1 subtitles = .ok texts ∧
      (Retells (read { strict, preserveEmpty } (options.opening ++ String.join texts)) subtitles ↔
        ∀ subtitle ∈ subtitles, IsGapless (trimBack (markedText (subtitle.laidOut options)))) := by
  obtain ⟨texts, htexts, hjoin⟩ := exists_numberedTexts (block options) (blocks options)
    (fun _ ↦ rfl) (fun _ _ _ ↦ rfl)
    (fun subtitle hsubtitle number ↦ exists_laidBlock (wrappable subtitle hsubtitle) number) 1
  have htells : ∀ subtitle ∈ subtitles, (format { strict, preserveEmpty }).Tells
      (timingLine .srt (fun _ ↦ "") subtitle) (subtitle.laidOut options) subtitle := by
    intro subtitle hsubtitle
    obtain ⟨m, n, times⟩ := exists_times (wrappable subtitle hsubtitle)
    exact tells strict preserveEmpty
      (Subtitle.isLayoutOf_laidOut (wrappable subtitle hsubtitle) options) times
  have hplain := isPlainText_numberedBlocks (fun subtitle hsubtitle ↦ (htells subtitle hsubtitle).lineEnds)
    (fun subtitle hsubtitle ↦ Subtitle.plain_laidOut (wrappable subtitle hsubtitle) options) 1
  have hcontent := String.toList_append (s := options.opening) (t := String.join texts)
  rw [hjoin] at hcontent
  have hblocks := lines_blocksOf_written hplain hcontent
  exact ⟨texts, htexts, (format_isFrugal _).retells_iff strict rising htells (by omega) hblocks⟩

end Srt

namespace Vtt

variable {options : WriteOptions} {subtitles : List Subtitle}

section

variable {subtitle : Subtitle} (h : subtitle.IsWrappable) (options : WriteOptions)

theorem color_laidOut_plain (subtitle : Subtitle) :
    ∀ style ∈ ((plain subtitle).laidOut options).style, style.color = none := by
  rw [Subtitle.laidOut]
  split
  · exact color_plain subtitle
  · rintro _ ⟨⟩

include h

/-- What WebVTT cannot write of a subtitle does not matter to its words. -/
theorem isLayoutOf_plain : ((plain subtitle).laidOut options).IsLayoutOf subtitle where
  unmarked := h.unmarked
  shown := h.gapless.all_isBlank
  words := (Subtitle.isLayoutOf_laidOut h.vtt options).words
  color := (Subtitle.isLayoutOf_laidOut h.vtt options).color

end

/-- What is written for a cue. -/
theorem exists_laidCue {subtitle : Subtitle} (h : subtitle.IsWrappable) (number : Nat) :
    ∃ text, cue options number subtitle = .ok text ∧
      text.toList = replaceChar '\n' options.lineEnding.text.toList
        (numberedBlock number (timingLine .vtt settingsOf subtitle) ((plain subtitle).laidOut options)
          ++ ['\n', '\n']) := by
  obtain ⟨m, n, times⟩ := exists_times h
  have hends := lineEnd_not_mem_timingLine TimeNotation.vtt_isStandard times (isSettingsLine h)
  have htext := toList_textOf_laidOut options (plain subtitle)
  refine ⟨_, bind_eq_ok.mpr ⟨_, times.window_eq, rfl⟩, ?_⟩
  rw [replaceChar_numberedBlock number hends, timingLine_eq times, ← htext, plain]
  simp only [String.toList_append, List.append_assoc]

/-- The first block of a document is its header, and the others are those of the cues. -/
theorem exists_header {texts : List String} {cueBlocks : List (List Char)}
    (hjoin : (String.join texts).toList =
      replaceChar '\n' options.lineEnding.text.toList (documentOf cueBlocks))
    (hplain : ∀ text ∈ cueBlocks, IsPlainText text) :
    ∃ first rest, blocksOf (options.opening ++ "WEBVTT" ++ options.lineEnding.text ++
        options.lineEnding.text ++ String.join texts) = first :: rest ∧ isHeader first = true ∧
      rest.map trimmedLines = cueBlocks.flatMap fun text ↦ paragraphs (trimmedLines text) := by
  have hall : ∀ text ∈ headerBlock :: cueBlocks, IsPlainText text :=
    List.forall_mem_cons.mpr ⟨isPlainBlock_headerBlock.isPlainText, hplain⟩
  have hheader : replaceChar '\n' options.lineEnding.text.toList (headerBlock ++ ['\n', '\n']) =
      headerBlock ++ (options.lineEnding.text.toList ++ options.lineEnding.text.toList) := by
    simp only [replaceChar_append, replaceChar_cons_self, replaceChar_nil, List.append_nil,
      replaceChar_of_not_mem (by decide : '\n' ∉ headerBlock)]
  have hcontent : (options.opening ++ "WEBVTT" ++ options.lineEnding.text ++
      options.lineEnding.text ++ String.join texts).toList = options.opening.toList ++
        replaceChar '\n' options.lineEnding.text.toList (documentOf (headerBlock :: cueBlocks)) := by
    rw [documentOf_cons, replaceChar_append, hheader, ← hjoin]
    simp only [String.toList_append, List.append_assoc]
    rfl
  have hblocks := lines_blocksOf_written hall hcontent
  have hone : paragraphs (trimmedLines headerBlock) = [[headerBlock]] := by decide
  rw [List.flatMap_cons, hone, List.singleton_append] at hblocks
  obtain ⟨first, rest, hcons, hfirst, hrest⟩ := List.map_eq_cons_iff.mp hblocks
  refine ⟨first, rest, hcons, ?_, hrest⟩
  obtain ⟨line, hlines, hline⟩ := List.map_eq_singleton_iff.mp hfirst
  have hjoined := joinWith_splitAll '\n' first
  obtain ⟨blanks, -, hblanks⟩ := exists_trimBack_append line
  rw [← linesOf, hlines, joinWith, hblanks, hline] at hjoined
  rw [← hjoined]
  rfl

/-- **A document in this format retells subtitles just if no text falls apart** that is laid out
without a color. -/
theorem read_retells_iff (strict preserveEmpty : Bool) (rising : Subtitle.IsRising subtitles)
    (wrappable : ∀ subtitle ∈ subtitles, subtitle.IsWrappable)
    (few : subtitles.length < 10 ^ digitLimit) :
    ∃ texts, cueTexts options 1 subtitles = .ok texts ∧
      (Retells (read { strict, preserveEmpty } (options.opening ++ "WEBVTT" ++ options.lineEnding.text ++
          options.lineEnding.text ++ String.join texts)) subtitles ↔
        ∀ subtitle ∈ subtitles, IsGapless (trimBack (markedText ((plain subtitle).laidOut options)))) := by
  obtain ⟨texts, htexts, hjoin⟩ := exists_numberedTexts (cue options) (cueTexts options)
    (fun _ ↦ rfl) (fun _ _ _ ↦ rfl)
    (fun subtitle hsubtitle number ↦ exists_laidCue (wrappable subtitle hsubtitle) number) 1
  have htells : ∀ subtitle ∈ subtitles, (format { strict, preserveEmpty }).Tells
      (timingLine .vtt settingsOf subtitle) ((plain subtitle).laidOut options) subtitle := by
    intro subtitle hsubtitle
    have h := wrappable subtitle hsubtitle
    obtain ⟨m, n, times⟩ := exists_times h
    exact tells strict preserveEmpty (isLayoutOf_plain h options) (color_laidOut_plain options subtitle)
      (isSettingsLine h) times
  have hplain := isPlainText_numberedBlocks (fun subtitle hsubtitle ↦ (htells subtitle hsubtitle).lineEnds)
    (fun subtitle hsubtitle ↦ Subtitle.plain_laidOut (wrappable subtitle hsubtitle).vtt options) 1
  refine ⟨texts, htexts, ?_⟩
  obtain ⟨first, rest, hblocks, hfirst, hrest⟩ := exists_header hjoin hplain
  have hread : read { strict, preserveEmpty } (options.opening ++ "WEBVTT" ++ options.lineEnding.text ++
      options.lineEnding.text ++ String.join texts) =
        (format { strict, preserveEmpty }).reading strict rest := by
    rw [read, pieces, hblocks, funext (withName_eq { strict, preserveEmpty })]
    dsimp only
    rw [if_pos hfirst]
    rfl
  rw [hread]
  exact (format_isFrugal _).retells_iff strict rising htells (by omega) hrest

end Vtt

/-! ## Wrapping and retelling -/

/-- **Documents of wrapped subtitles retell them just if no text falls apart**: between its tags and
without the blanks at its end, none has a blank line now.  Then, and only then, each subtitle is read as
one caption with its words, without a warning, however strict the reader is. -/
theorem wrapped_retold_iff (options : WriteOptions) (strict preserveEmpty : Bool)
    {entries : List Subtitle} (wrappable : ∀ entry ∈ entries, entry.IsWrappable)
    (few : entries.length < 10 ^ digitLimit) :
    ∃ srt vtt, Srt.write options entries = .ok srt ∧ Vtt.write options entries = .ok vtt ∧
      (Retells (Srt.read { strict, preserveEmpty } srt)
          (entries.mergeSort fun a b ↦ !b.start.lt a.start) ↔
        ∀ entry ∈ entries, IsGapless (trimBack (markedText (entry.laidOut options)))) ∧
      (Retells (Vtt.read { strict, preserveEmpty } vtt)
          (entries.mergeSort fun a b ↦ !b.start.lt a.start) ↔
        ∀ entry ∈ entries, IsGapless (trimBack (markedText ((Vtt.plain entry).laidOut options)))) := by
  have defined : ∀ entry ∈ entries, entry.start ≠ .undefined :=
    fun entry h ↦ (wrappable entry h).start.ne_undefined
  have hperm := Subtitle.sorted_perm entries
  have hrising := Subtitle.sorted_isRising defined
  have hsorted : ∀ entry ∈ Subtitle.sorted entries, entry.IsWrappable :=
    fun entry h ↦ wrappable entry (hperm.mem_iff.mp h)
  have hfew : (Subtitle.sorted entries).length < 10 ^ digitLimit := by rwa [hperm.length_eq]
  obtain ⟨texts, htexts, hsrt⟩ :=
    @Srt.read_retells_iff options _ strict preserveEmpty hrising hsorted hfew
  obtain ⟨cues, hcues, hvtt⟩ :=
    @Vtt.read_retells_iff options _ strict preserveEmpty hrising hsorted hfew
  simp only [hperm.mem_iff] at hsrt hvtt
  rw [Subtitle.sorted_of_defined defined] at hsrt hvtt
  exact ⟨_, _, bind_eq_ok.mpr ⟨texts, htexts, rfl⟩, bind_eq_ok.mpr ⟨cues, hcues, rfl⟩, hsrt, hvtt⟩

/-- Two words on two lines, of which the first one ends with a blank. -/
def trailingBlank : List Subtitle := [{ text := "a \nb", start := .finite 0, stop := .finite 1 }]

theorem trailingBlank_notRetold :
    (∀ entry ∈ trailingBlank, entry.IsWrappable) ∧ trailingBlank.length < 10 ^ digitLimit ∧
      (∃ srt vtt, Srt.write { maxLineLength := 1 } trailingBlank = .ok srt ∧
        Vtt.write { maxLineLength := 1 } trailingBlank = .ok vtt ∧
        srt = "1\n00:00:00,000 --> 00:00:01,000\na\n\nb\n\n" ∧
        ¬ Retells (Srt.read {} srt) trailingBlank ∧ ¬ Retells (Vtt.read {} vtt) trailingBlank) ∧
      ∃ srt vtt, Srt.write {} trailingBlank = .ok srt ∧ Vtt.write {} trailingBlank = .ok vtt ∧
        Retells (Srt.read {} srt) trailingBlank ∧ Retells (Vtt.read {} vtt) trailingBlank := by
  have hwrappable : ∀ entry ∈ trailingBlank, entry.IsWrappable := by
    rw [trailingBlank, List.forall_mem_singleton]
    exact ⟨by decide +kernel, by decide +kernel, by decide, by decide, by decide, by rintro _ ⟨⟩,
      by decide⟩
  have few : trailingBlank.length < 10 ^ digitLimit :=
    lt_of_lt_of_le (by decide : trailingBlank.length < 10 ^ 1)
      (Nat.pow_le_pow_right (by decide) (by decide))
  have hsort : (trailingBlank.mergeSort fun a b ↦ !b.start.lt a.start) = trailingBlank := by
    simp [trailingBlank]
  have hwritten : Srt.write { maxLineLength := 1 } trailingBlank =
      .ok "1\n00:00:00,000 --> 00:00:01,000\na\n\nb\n\n" := toOption_eq_some.mp (by decide +kernel)
  obtain ⟨srt, vtt, hsrt, hvtt, hreadSrt, hreadVtt⟩ :=
    wrapped_retold_iff { maxLineLength := 1 } false false hwrappable few
  obtain ⟨srt', vtt', hsrt', hvtt', hreadSrt', hreadVtt'⟩ :=
    wrapped_retold_iff {} false false hwrappable few
  rw [hsort] at hreadSrt hreadVtt hreadSrt' hreadVtt'
  refine ⟨hwrappable, few, ⟨srt, vtt, hsrt, hvtt, ?_, fun h ↦ ?_, fun h ↦ ?_⟩,
    srt', vtt', hsrt', hvtt', hreadSrt'.mpr ?_, hreadVtt'.mpr ?_⟩
  · exact Except.ok.inj (hsrt.symm.trans hwritten)
  · have hgapless := hreadSrt.mp h
    revert hgapless
    decide
  · have hgapless := hreadVtt.mp h
    revert hgapless
    decide
  · decide
  · decide

end Montage
