import Montage.Proofs.Subtitle.Numbered
import Montage.Proofs.Subtitle.Order
import Montage.Subtitle.Vtt

/-!
# WebVTT documents are read as they were meant

A document that is written for subtitles and read again gives the same subtitles in the order of
their starts, each under the number of its cue, as far as a WebVTT document can hold them: texts
without markup of their own whose lines all end solid, times that survive the notation, bold, slanted
and underlined text, and settings that stay on the line of the window.

A cue is a numbered block (`isPlainBlock_numbered`) behind the block of the header.  What is new
against an SRT document is what the reader does with the text of a cue before it looks for the tags
of a style: the tags that it takes away, and those that name a voice, begin like none of the tags
that are written (`Vtt.throughout_tags`).
-/

set_option autoImplicit false

namespace Montage

/-! ## What a WebVTT document can hold -/

/-- Settings of a cue, if there are any: a text that is not empty, that stays on one line and has no
blanks at its ends. -/
def IsSettings (metadata : List (String × Json)) : Prop :=
  metadata = [] ∨ ∃ settings : String, metadata = [("settings", .str settings)] ∧ settings ≠ ""
    ∧ trim settings.toList = settings.toList ∧ ∀ c ∈ Markup.lineEnds, c ∉ settings.toList

/-- A subtitle that a WebVTT document can hold: its times survive the notation, its text has no
markup, no carriage return, no blank line and no line with blanks at its end, its look is one that
inline markup can say without a color, and all that is known beside it are settings. -/
structure Subtitle.IsVtt [Rounding] (subtitle : Subtitle) : Prop where
  start : TimeNotation.vtt.Survives subtitle.start
  stop : TimeNotation.vtt.Survives subtitle.stop
  unmarked : '<' ∉ subtitle.text.toList
  plain : '\r' ∉ subtitle.text.toList
  lines : ∀ line ∈ linesOf subtitle.text.toList, line.all Montage.isBlank = false ∧ trimBack line = line
  style : ∀ style ∈ subtitle.style, style.IsInline ∧ style.color = none
  metadata : IsSettings subtitle.metadata

/-- What is read for a subtitle under the number of its cue: its text, its times, its look and its
settings, and nothing else.  A written time has no sign. -/
def Subtitle.cued (subtitle : Subtitle) (number : Nat) : Subtitle where
  id := toString number
  text := subtitle.text
  start := subtitle.start.unsigned
  stop := subtitle.stop.unsigned
  style := subtitle.style
  metadata := subtitle.metadata

namespace TimeNotation

/-- A time that survives with a comma survives with a point. -/
theorem Survives.vtt [Rounding] {x : Quantity} (h : srt.Survives x) : TimeNotation.vtt.Survives x := by
  obtain ⟨text, y, htext, hread, heq⟩ := h
  obtain ⟨n, hunits, hn⟩ := bind_eq_ok.mp htext
  cases pure_eq_ok.mp hn
  rw [read_textOfUnits srt_isStandard] at hread
  refine ⟨TimeNotation.vtt.textOfUnits n, y, bind_eq_ok.mpr ⟨n, hunits, rfl⟩, ?_, heq⟩
  rw [read_textOfUnits vtt_isStandard]
  exact hread

end TimeNotation

namespace Vtt

/-! ## Tags of a style -/

/-- What holds at no tag and at the tags of a style holds throughout the tags round a text. -/
theorem throughout_tags {P : List Char → Prop} (hplain : ∀ c rest, c ≠ '<' → P (c :: rest))
    (hopen : ∀ letter ∈ ['b', 'i', 'u'], ∀ rest, P ('<' :: letter :: '>' :: rest))
    (hclose : ∀ letter ∈ ['b', 'i', 'u'], ∀ rest, P ('<' :: '/' :: letter :: '>' :: rest))
    {style : Style} (hcolor : style.color = none) :
    Throughout P (Markup.tagsBefore style) ∧ Throughout P (Markup.tagsBehind style) := by
  have hletters : ∀ letter ∈ ['b', 'i', 'u'], letter ≠ '<' := by decide
  have hopening : ∀ letter ∈ ['b', 'i', 'u'], ∀ wanted, Throughout P (Markup.opening letter wanted) := by
    intro letter hletter wanted
    cases wanted with
    | false => trivial
    | true =>
      exact ⟨hopen letter hletter, fun _ ↦ hplain _ _ (hletters letter hletter),
        fun _ ↦ hplain _ _ (by decide), trivial⟩
  have hclosing : ∀ letter ∈ ['b', 'i', 'u'], ∀ wanted, Throughout P (Markup.closing letter wanted) := by
    intro letter hletter wanted
    cases wanted with
    | false => trivial
    | true =>
      exact ⟨hclose letter hletter, fun _ ↦ hplain _ _ (by decide),
        fun _ ↦ hplain _ _ (hletters letter hletter), fun _ ↦ hplain _ _ (by decide), trivial⟩
  rw [Markup.tagsBefore, Markup.tagsBehind, hcolor, Markup.fontOpening_none, Markup.fontClosing_none,
    List.nil_append, List.append_nil]
  have hb : 'b' ∈ ['b', 'i', 'u'] := by decide
  have hi : 'i' ∈ ['b', 'i', 'u'] := by decide
  have hu : 'u' ∈ ['b', 'i', 'u'] := by decide
  exact ⟨(hopening _ hu _).append ((hopening _ hi _).append (hopening _ hb _)),
    (hclosing _ hb _).append ((hclosing _ hi _).append (hclosing _ hu _))⟩

theorem cueTag_of_ne {c : Char} (hc : c ≠ '<') (rest : List Char) : cueTag (c :: rest) = 0 := by
  have hopen : ∀ name, afterWord? ('<' :: name) (c :: rest) = none :=
    fun name ↦ Markup.afterWord?_of_ne hc name rest
  simp only [cueTag, List.cons_append, hopen]
  rfl

theorem timeTag_of_ne {c : Char} (hc : c ≠ '<') (rest : List Char) : timeTag (c :: rest) = 0 := by
  rw [timeTag.eq_def]
  split
  · rename_i heq
    exact absurd (List.cons.inj heq).1 hc
  · rfl

theorem voice?_of_ne {c : Char} (hc : c ≠ '<') (rest : List Char) : voice? (c :: rest) = none := by
  rw [voice?, Markup.afterWord?_of_ne hc]
  rfl

/-- Nothing that this format looks for in a text begins here. -/
structure IsNoTag (s : List Char) : Prop where
  cue : cueTag s = 0
  time : timeTag s = 0
  voice : voice? s = none

theorem isNoTag_of_ne {c : Char} (hc : c ≠ '<') (rest : List Char) : IsNoTag (c :: rest) :=
  ⟨cueTag_of_ne hc rest, timeTag_of_ne hc rest, voice?_of_ne hc rest⟩

theorem isNoTag_opening : ∀ letter ∈ ['b', 'i', 'u'], ∀ rest, IsNoTag ('<' :: letter :: '>' :: rest) := by
  simp only [List.forall_mem_cons]
  refine ⟨fun rest ↦ ⟨rfl, rfl, rfl⟩, fun rest ↦ ⟨rfl, rfl, rfl⟩, fun rest ↦ ⟨rfl, rfl, rfl⟩, by simp⟩

theorem isNoTag_closing :
    ∀ letter ∈ ['b', 'i', 'u'], ∀ rest, IsNoTag ('<' :: '/' :: letter :: '>' :: rest) := by
  simp only [List.forall_mem_cons]
  refine ⟨fun rest ↦ ⟨rfl, rfl, rfl⟩, fun rest ↦ ⟨rfl, rfl, rfl⟩, fun rest ↦ ⟨rfl, rfl, rfl⟩, by simp⟩

/-! ## Texts of cues -/

section

variable [Rounding] {subtitle : Subtitle} (holds : subtitle.IsVtt)

include holds

theorem isMarkable : subtitle.IsMarkable :=
  ⟨holds.unmarked, holds.plain, holds.lines, fun style h ↦ (holds.style style h).1⟩

/-- **Nothing that this format looks for in a text begins anywhere in a marked text.** -/
theorem throughout_markedText : Throughout IsNoTag (markedText subtitle) := by
  have htext : Throughout IsNoTag subtitle.text.toList :=
    .of_chars fun c hc rest ↦ isNoTag_of_ne (fun h ↦ holds.unmarked (h ▸ hc)) rest
  cases hstyle : subtitle.style with
  | none => rwa [markedText, hstyle]
  | some style =>
    obtain ⟨inline, hcolor⟩ := holds.style style hstyle
    have htags := throughout_tags (fun _ rest hc ↦ isNoTag_of_ne hc rest) isNoTag_opening
      isNoTag_closing hcolor
    rw [markedText, hstyle, Markup.toList_write fun h ↦ (inline.color "" h).1 rfl]
    exact htags.1.append (htext.append htags.2)

theorem withoutTags_markedText : withoutTags (markedText subtitle) = markedText subtitle := by
  have hnone := throughout_markedText holds
  rw [withoutTags, (hnone.imp fun _ h ↦ h.cue).removeMatches_alone,
    (hnone.imp fun _ h ↦ h.time).removeMatches_alone]

theorem voice?_markedText : firstMatch? voice? (markedText subtitle) = none :=
  ((throughout_markedText holds).imp fun _ h ↦ h.voice).firstMatch?_alone

theorem plainStyle_style : plainStyle subtitle.style = subtitle.style := by
  cases hstyle : subtitle.style with
  | none => rfl
  | some style =>
    have hcolor := (holds.style style hstyle).2
    obtain ⟨⟩ := style
    cases hcolor
    rfl

end

/-! ## Cues -/

/-- The settings of a cue with what sets them apart, as they are written. -/
theorem settingsOf_spec {subtitle : Subtitle} (h : IsSettings subtitle.metadata) :
    (∀ c ∈ (settingsOf subtitle).toList.head?, isDecimal c = false)
      ∧ (∀ c ∈ Markup.lineEnds, c ∉ (settingsOf subtitle).toList)
      ∧ (∀ window, EndsSolid window → EndsSolid (window ++ (settingsOf subtitle).toList))
      ∧ ∀ body, firstMatch? voice? body = none →
        metadataOf (settingsOf subtitle).toList body = subtitle.metadata := by
  rcases h with hmetadata | ⟨settings, hmetadata, hne, htrim, hends⟩
  · have hsettings : (settingsOf subtitle).toList = [] := by rw [settingsOf, hmetadata]; rfl
    rw [hsettings, hmetadata]
    refine ⟨by simp, by simp, fun window h ↦ by rwa [List.append_nil], fun body hbody ↦ ?_⟩
    rw [metadataOf, hbody]
    rfl
  · have hempty : settings.isEmpty = false := by
      rw [← Bool.not_eq_true, String.isEmpty_iff]
      exact hne
    have hsettings : (settingsOf subtitle).toList = ' ' :: settings.toList := by
      rw [settingsOf, hmetadata]
      show (if (!settings.isEmpty) = true then " " ++ settings else "").toList = _
      rw [hempty, Bool.not_false, if_pos rfl, String.toList_append]
      rfl
    have hsolid : EndsSolid settings.toList := by
      refine endsSolid_of_trim (all_isBlank_of_trim ?_ htrim) htrim
      rwa [Ne, String.toList_eq_nil_iff]
    rw [hsettings, hmetadata]
    refine ⟨?_, fun c hc ↦ ?_, fun window _ ↦ (hsolid.cons ' ').append window, fun body hbody ↦ ?_⟩
    · rintro c ⟨⟩
      decide
    · rw [List.mem_cons, not_or]
      exact ⟨fun heq ↦ by rw [heq] at hc; revert hc; decide, hends c hc⟩
    · have htrimmed : trim (' ' :: settings.toList) = settings.toList := by
        rw [trim, trimFront, List.dropWhile_cons_of_pos (by decide), ← trimFront, ← trim, htrim]
      rw [metadataOf, hbody, htrimmed, String.ofList_toList, hempty]
      rfl

variable [rounding : Rounding] {subtitle : Subtitle}

omit rounding in
/-- The line of a cue with its window and its settings, its times being given in milliseconds. -/
def timingOf (start stop : Nat) (subtitle : Subtitle) : List Char :=
  (TimeNotation.vtt.textOfUnits start ++ " --> " ++ TimeNotation.vtt.textOfUnits stop).toList
    ++ (settingsOf subtitle).toList

omit rounding in
/-- A cue with plain line ends. -/
def cueOf (number start stop : Nat) (subtitle : Subtitle) : List Char :=
  numberedBlock number (timingOf start stop subtitle) subtitle

theorem lineEnd_not_mem_timingOf (start stop : Nat) (holds : subtitle.IsVtt) :
    ∀ c ∈ Markup.lineEnds, c ∉ timingOf start stop subtitle := by
  intro c hc
  rw [timingOf, List.mem_append, not_or]
  exact ⟨lineEnd_not_mem_window TimeNotation.vtt_isStandard start stop hc,
    (settingsOf_spec holds.metadata).2.1 c hc⟩

/-- **A written cue is a block of the document.** -/
theorem isPlainBlock_cueOf (number start stop : Nat) (holds : subtitle.IsVtt) :
    IsPlainBlock (cueOf number start stop subtitle) := by
  refine isPlainBlock_numbered number (lineEnd_not_mem_timingOf start stop holds) ?_
    (isMarkable holds)
  refine (settingsOf_spec holds.metadata).2.2.1 _ ?_
  rw [String.toList_append]
  exact (TimeNotation.endsSolid_textOfUnits stop).append _

omit rounding in
theorem isPassedOver_of_isDigit {c : Char} (hc : c.isDigit = true) (rest : List Char) :
    isPassedOver (c :: rest) = false := by
  have hne : ∀ letter : Char, letter.isDigit = false → (letter == c) = false := by
    rintro letter hletter
    rw [beq_eq_false_iff_ne]
    rintro rfl
    rw [hc] at hletter
    cases hletter
  simp [isPassedOver, List.isPrefixOf, hne 'N' rfl, hne 'S' rfl, hne 'R' rfl]

omit rounding in
/-- The name of a written cue is its number. -/
theorem takeName_numeral (number : Nat) (lines : List (List Char)) :
    takeName ((toString number).toList :: lines) = (toString number, lines) := by
  have harrow : occursIn "-->".toList (toString number).toList = false := by
    refine occursIn_of_not_mem (fun hmem ↦ ?_) _
    rw [toList_toString_nat] at hmem
    exact absurd (isDigit_of_mem_toDigits hmem) (by decide)
  rw [takeName, harrow, if_neg Bool.false_ne_true, toList_toString_nat,
    trim_numeral (toDigits_numeral number), ← toList_toString_nat, String.ofList_toList]

/-- **A written cue is read as the subtitle that it was written for.** -/
theorem piece_cueOf (strict preserveEmpty : Bool) (holds : subtitle.IsVtt) {number start stop : Nat}
    (times : TimeNotation.vtt.AreTimes start stop subtitle) :
    piece { strict, preserveEmpty } (cueOf number start stop subtitle)
      = .ok (.subtitle (subtitle.cued number)) := by
  have solid := (isMarkable holds).isSolid_markedText
  obtain ⟨hhead, -, -, hmetadata⟩ := settingsOf_spec holds.metadata
  have hread : Markup.read (markedText subtitle) = (subtitle.text.toList, subtitle.style) :=
    Markup.read_write (fun style h ↦ (holds.style style h).1) holds.unmarked
  have hsubtitle : subtitleOf { strict, preserveEmpty } (toString number)
      ⟨TimeNotation.vtt.stampOf start, TimeNotation.vtt.stampOf stop, (settingsOf subtitle).toList⟩
      (linesOf (markedText subtitle)) = .ok (subtitle.cued number) := by
    rw [subtitleOf, times.start.read, times.stop.read, bodyText_linesOf solid]
    refine bind_eq_ok.mpr ⟨_, rfl, bind_eq_ok.mpr ⟨_, rfl, ?_⟩⟩
    dsimp only
    rw [withoutTags_markedText holds, if_pos rfl, hread, hmetadata _ (voice?_markedText holds),
      String.ofList_toList]
    rfl
  have hblank : (subtitle.cued number).isBlank = false := (isMarkable holds).isBlank_eq_false
  have hpassed : isPassedOver (cueOf number start stop subtitle) = false := by
    obtain ⟨d, ds, hdigits, hd⟩ := toDigits_eq_cons number
    rw [cueOf, numberedBlock, toList_toString_nat, hdigits]
    exact isPassedOver_of_isDigit hd _
  rw [piece, hpassed, if_neg Bool.false_ne_true, cueOf,
    linesOf_numberedBlock number (lineEnd_not_mem_timingOf start stop holds), takeName_numeral]
  dsimp only
  rw [timingOf, TimeRange.ofLine?_append TimeNotation.vtt_isStandard start stop _ hhead]
  dsimp only
  rw [hsubtitle]
  show Except.ok (Piece.ofSubtitle _ _) = _
  rw [Piece.ofSubtitle, hblank]
  rfl

/-- What is written for a cue is the cue and an empty line behind it, with line ends. -/
theorem cue_eq (lineEnding : LineEnding) (addMark : Bool) (number : Nat) (holds : subtitle.IsVtt)
    {start stop : Nat} (times : TimeNotation.vtt.AreTimes start stop subtitle) :
    ∃ text, cue { lineEnding, addMark } number subtitle = .ok text
      ∧ text.toList = replaceChar '\n' lineEnding.text.toList
          (cueOf number start stop subtitle ++ ['\n', '\n']) := by
  refine ⟨_, bind_eq_ok.mpr ⟨_, times.window_eq, rfl⟩, ?_⟩
  rw [cueOf, replaceChar_numberedBlock number (lineEnd_not_mem_timingOf start stop holds), timingOf,
    plainStyle_style holds]
  simp only [String.toList_append, toList_textOf, List.append_assoc]

/-! ## Documents -/

/-- **The cues of a document are read as the subtitles that they were written for.** -/
theorem exists_cues (signs : rounding.KeepsSigns) (lineEnding : LineEnding)
    (addMark strict preserveEmpty : Bool) {subtitles : List Subtitle}
    (holds : ∀ subtitle ∈ subtitles, subtitle.IsVtt) (number : Nat) :
    ∃ texts blockTexts, cueTexts { lineEnding, addMark } number subtitles = .ok texts
      ∧ (String.join texts).toList = replaceChar '\n' lineEnding.text.toList (documentOf blockTexts)
      ∧ (∀ block ∈ blockTexts, IsPlainBlock block)
      ∧ blockTexts.map (piece { strict, preserveEmpty })
          = subtitles.mapIdx fun place subtitle ↦ .ok (.subtitle (subtitle.cued (number + place))) := by
  induction subtitles generalizing number with
  | nil => exact ⟨[], [], rfl, rfl, by simp, rfl⟩
  | cons subtitle subtitles ih =>
    rw [List.forall_mem_cons] at holds
    obtain ⟨texts, blockTexts, htexts, hjoin, hblocks, hpieces⟩ := ih holds.2 (number + 1)
    obtain ⟨start, stop, times⟩ := TimeNotation.exists_areTimes signs TimeNotation.vtt_isStandard
      holds.1.start holds.1.stop
    obtain ⟨text, htext, hchars⟩ := cue_eq lineEnding addMark number holds.1 times
    refine ⟨text :: texts, cueOf number start stop subtitle :: blockTexts, ?_, ?_, ?_, ?_⟩
    · exact bind_eq_ok.mpr ⟨text, htext, bind_eq_ok.mpr ⟨texts, htexts, rfl⟩⟩
    · rw [String.join_cons, String.toList_append, hchars, hjoin, documentOf_cons,
        ← replaceChar_append]
    · rw [List.forall_mem_cons]
      exact ⟨isPlainBlock_cueOf number start stop holds.1, hblocks⟩
    · rw [List.map_cons, List.mapIdx_cons, hpieces, piece_cueOf strict preserveEmpty holds.1 times]
      simp only [Nat.add_zero, Nat.add_right_comm number 1, Nat.add_assoc]

/-- The header of a document. -/
def headerBlock : List Char := "WEBVTT".toList

omit rounding in
theorem isPlainBlock_headerBlock : IsPlainBlock headerBlock := by
  refine ⟨⟨by rintro c ⟨⟩; decide, ?_⟩, by decide, by rintro c ⟨⟩; decide⟩
  rw [IsSolid, show linesOf headerBlock = [headerBlock] by decide, List.forall_mem_singleton]
  exact ⟨'T', by decide, by decide⟩

theorem map_piece_cues (options : ReadOptions) (blocks : List (List Char)) :
    (cues options blocks).map (·.piece) = blocks.map (piece options) :=
  List.ext_getElem (by simp [cues]) (by simp [cues])

omit rounding in
/-- The subtitles that are read for subtitles under the numbers of their cues. -/
theorem inOrder_cued {subtitles : List Subtitle} (rising : Subtitle.IsRising subtitles) :
    (Subtitle.inOrder (subtitles.mapIdx fun place subtitle ↦ subtitle.cued (place + 1))).map withName
      = subtitles.mapIdx fun place subtitle ↦
          { subtitle.cued (place + 1) with index := place + 1 } := by
  have hrising : Subtitle.IsRising
      (subtitles.mapIdx fun place subtitle ↦ subtitle.cued (place + 1)) := by
    refine rising.of_unsigned (List.ext_getElem (by simp) fun place hleft hright ↦ ?_)
    simp [Subtitle.cued]
  rw [Subtitle.inOrder, Subtitle.sorted_of_isRising hrising]
  refine List.ext_getElem (by simp [Subtitle.numbered]) fun place hleft hright ↦ ?_
  simp [Subtitle.numbered, withName, Subtitle.cued]

/-! ## Reading what was written -/

/-- What is written for subtitles whose starts rise is read as these subtitles. -/
theorem read_of_isRising (signs : rounding.KeepsSigns) (lineEnding : LineEnding)
    (addMark strict preserveEmpty : Bool) {subtitles : List Subtitle}
    (rising : Subtitle.IsRising subtitles) (holds : ∀ subtitle ∈ subtitles, subtitle.IsVtt) :
    ∃ texts, cueTexts { lineEnding, addMark } 1 subtitles = .ok texts ∧
      read { strict, preserveEmpty }
          (WriteOptions.opening { lineEnding, addMark } ++ "WEBVTT" ++ lineEnding.text
            ++ lineEnding.text ++ String.join texts)
        = ⟨.ok (subtitles.mapIdx fun place subtitle ↦
            { subtitle.cued (place + 1) with index := place + 1 }), []⟩ := by
  obtain ⟨texts, blockTexts, htexts, hjoin, hblocks, hpieces⟩ :=
    exists_cues signs lineEnding addMark strict preserveEmpty holds 1
  refine ⟨texts, htexts, ?_⟩
  generalize hcontent : WriteOptions.opening { lineEnding, addMark } ++ "WEBVTT" ++ lineEnding.text
    ++ lineEnding.text ++ String.join texts = content
  have hblocksOf : blocksOf content = headerBlock :: blockTexts := by
    have hplain : ∀ block ∈ headerBlock :: blockTexts, IsPlainBlock block := by
      rw [List.forall_mem_cons]
      exact ⟨isPlainBlock_headerBlock, hblocks⟩
    have hheader : replaceChar '\n' lineEnding.text.toList (headerBlock ++ ['\n', '\n'])
        = headerBlock ++ (lineEnding.text.toList ++ lineEnding.text.toList) := by
      simp only [replaceChar_append, replaceChar_cons_self, replaceChar_nil, List.append_nil,
        replaceChar_of_not_mem (by decide : '\n' ∉ headerBlock)]
    refine blocksOf_document (fun block h ↦ (hplain block h).toIsBlock) ?_
    rw [← hcontent, ← normalizeText_document lineEnding addMark hplain, documentOf_cons,
      replaceChar_append, hheader, ← hjoin]
    simp only [String.toList_append, List.append_assoc]
    rfl
  have hfound : (pieces { strict, preserveEmpty } content).map (·.piece)
      = (subtitles.mapIdx fun place subtitle ↦ subtitle.cued (place + 1)).map
          fun subtitle ↦ .ok (.subtitle subtitle) := by
    rw [pieces, hblocksOf]
    dsimp only
    rw [if_pos (by decide), map_piece_cues, hpieces]
    refine List.ext_getElem (by simp) fun place hleft hright ↦ ?_
    simp [Nat.add_comm 1]
  rw [read, Reported.silent_bind (collect_subtitles strict hfound)]
  show Reported.mk (.ok _) [] = _
  rw [inOrder_cued rising]

omit rounding in
/-- **Subtitles are read back from the document that is written for them**, in the order of their
starts, numbered from one, named by their numbers and with their settings, whatever ends the lines
and whether or not a mark opens the document. -/
theorem read_write_cues (lineEnding : LineEnding) (addMark strict preserveEmpty : Bool)
    {entries : List Subtitle} (holds : ∀ entry ∈ entries, @Subtitle.IsVtt .binary64 entry) :
    ∃ text, @write .binary64 { lineEnding, addMark } entries = .ok text ∧
      @read .binary64 { strict, preserveEmpty } text = ⟨.ok ((entries.mergeSort fun a b ↦
        !b.start.lt a.start).mapIdx fun place entry ↦
          { entry.cued (place + 1) with index := place + 1 }), []⟩ := by
  let _ : Rounding := .binary64
  have defined : ∀ entry ∈ entries, entry.start ≠ .undefined :=
    fun entry h ↦ (holds entry h).start.ne_undefined
  have hperm := Subtitle.sorted_perm entries
  obtain ⟨texts, htexts, hread⟩ := read_of_isRising binary64_keepsSigns lineEnding addMark strict
    preserveEmpty (Subtitle.sorted_isRising defined)
    (fun entry h ↦ holds entry (hperm.mem_iff.mp h))
  rw [Subtitle.sorted_of_defined defined] at hread
  exact ⟨_, bind_eq_ok.mpr ⟨texts, htexts, rfl⟩, hread⟩

/-- A slanted line at a place of its own, and a plain one that starts before it. -/
def placedCue : List Subtitle := [
  { text := "NOTE & v>\n1 --> 2", start := .finite (3 / 2), stop := .finite 4
    style := some { fontStyle := some "italic" }
    metadata := [("settings", .str "line:0 -->")] },
  { text := "  Once,", start := .negativeZero, stop := .finite (1 / 4) }]

omit rounding in
theorem placedCue_read :
    (∀ entry ∈ placedCue, @Subtitle.IsVtt .binary64 entry) ∧
      ∃ text, @write .binary64 { lineEnding := .crlf, addMark := true } placedCue = .ok text ∧
        @read .binary64 { strict := true, preserveEmpty := false } text = ⟨.ok [
          { id := "1", index := 1, text := "  Once,", start := .finite 0, stop := .finite (1 / 4) },
          { id := "2", index := 2, text := "NOTE & v>\n1 --> 2", start := .finite (3 / 2)
            stop := .finite 4, style := some { fontStyle := some "italic" }
            metadata := [("settings", .str "line:0 -->")] }], []⟩ := by
  let _ : Rounding := .binary64
  have hholds : ∀ entry ∈ placedCue, entry.IsVtt := by
    rw [placedCue, List.forall_mem_cons, List.forall_mem_singleton]
    constructor
    · refine ⟨by decide +kernel, by decide +kernel, by decide, by decide, by decide, ?_, .inr
        ⟨"line:0 -->", rfl, by decide, by decide, by decide⟩⟩
      rintro style ⟨⟩
      exact ⟨⟨.inl rfl, .inr rfl, .inl rfl, by rintro _ ⟨⟩, rfl, by decide⟩, rfl⟩
    · refine ⟨by decide +kernel, by decide +kernel, by decide, by decide, by decide, ?_, .inl rfl⟩
      rintro style ⟨⟩
  have hread := read_write_cues .crlf true true false hholds
  have hsort : (placedCue.mergeSort fun a b ↦ !b.start.lt a.start) = placedCue.reverse := by
    have hlt : Quantity.lt .negativeZero (.finite (3 / 2)) = true := by decide +kernel
    simp [placedCue, List.mergeSort, hlt]
  rw [hsort] at hread
  exact ⟨hholds, hread⟩

end Vtt
end Montage
