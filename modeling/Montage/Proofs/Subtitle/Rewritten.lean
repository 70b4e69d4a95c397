import Montage.Proofs.Subtitle.Millisecond
import Montage.Proofs.Subtitle.Srt
import Montage.Proofs.Subtitle.Untagged

/-!
# Writing what was read, again

An SRT document is read and written, and what was written is read and written once more.  A
subtitle that is unstyled comes back as it was, and so does every time below `2 ^ 50` milliseconds.
A styled one was read by trimming its lines first and taking its tags out afterwards, each kind of
tag once; what this leaves is not trimmed again, and its tags are not looked for again, until the
next reading.  So a line may end with blanks then, or hold a tag that was not one before.

A subtitle is settled if the next reading finds nothing to change (`Subtitle.IsSettled`).  As long
as no line of a styled text is blank, so that the blocks of the document stay whole, the second
document is the first one just if all subtitles are settled (`Srt.rewrite_eq_iff`).  For the way
back the line feeds are counted: reading and writing never make more of them
(`Markup.count_write_read_le`), so a document that is the same cannot have lost a subtitle, and its
texts begin and end where they did.
-/

set_option autoImplicit false

namespace Montage

attribute [local instance] Rounding.binary64

/-! ## Times -/

/-- A written time that its seconds say again. -/
def Timestamp.IsShort (time : Timestamp) : Prop :=
  ∃ millis, time.millis = .ok millis ∧ Montage.IsShort millis

/-- Seconds of a short number of milliseconds. -/
def Quantity.IsShort (x : Quantity) : Prop :=
  ∃ n, Montage.IsShort n ∧ x = binary64 ((n : Nat) / 1000)

/-- The seconds of a short time are those of its milliseconds. -/
theorem Timestamp.IsShort.exists_seconds? {time : Timestamp} (short : time.IsShort) :
    ∃ x, time.seconds? = .ok x ∧ x.IsShort := by
  obtain ⟨n, hn, hshort⟩ := short
  obtain ⟨x, hx⟩ := exists_seconds hshort
  exact ⟨.finite x, seconds?_eq_ok.mpr ⟨n, hn, hx.symm, rfl⟩, n, hshort, hx.symm⟩

theorem Quantity.IsShort.unsigned_eq {x : Quantity} (short : x.IsShort) : x.unsigned = x := by
  obtain ⟨n, hn, rfl⟩ := short
  obtain ⟨y, hy⟩ := exists_seconds hn
  rw [hy]
  rfl

/-- The times of a subtitle come back from what is written for them. -/
structure Subtitle.HasShortTimes (subtitle : Subtitle) : Prop where
  start : subtitle.start.IsShort
  stop : subtitle.stop.IsShort

theorem Subtitle.HasShortTimes.exists_areTimes {subtitle : Subtitle}
    (short : subtitle.HasShortTimes) : ∃ m n, TimeNotation.srt.AreTimes m n subtitle := by
  obtain ⟨m, hm, hstart⟩ := short.start
  obtain ⟨n, hn, hstop⟩ := short.stop
  refine ⟨m, n, ?_, ?_⟩
  · rw [hstart]
    exact TimeNotation.counts_of_millis hm
  · rw [hstop]
    exact TimeNotation.counts_of_millis hn

/-! ## The next reading -/

namespace Subtitle

/-- What is read for a subtitle from some lines of text in its window. -/
def withBody (subtitle : Subtitle) (body : List (List Char)) : Subtitle where
  text := String.ofList (Markup.read (bodyText body)).1
  start := subtitle.start
  stop := subtitle.stop
  style := (Markup.read (bodyText body)).2

/-- What is read for a subtitle from the text that is written for it. -/
def again (subtitle : Subtitle) : Subtitle := subtitle.withBody (linesOf (markedText subtitle))

/-- Reading what is written for the subtitle finds nothing to change: there is still something to
read, and the same is written for it. -/
structure IsSettled (subtitle : Subtitle) : Prop where
  visible : subtitle.again.isBlank = false
  text : markedText subtitle.again = markedText subtitle

/-- Blanks at the ends of lines are not read. -/
theorem withBody_trimLast (subtitle : Subtitle) (body : List (List Char)) :
    subtitle.withBody (trimLast body) = subtitle.withBody body := by
  have htext : bodyText (trimLast body) = bodyText body := by
    rw [bodyText, bodyText, map_trimLast fun line _ ↦ trimBack_trimBack line]
  rw [withBody, withBody, htext]

end Subtitle

/-! ## Blocks -/

namespace Srt

/-- The line of a block with the window of a subtitle. -/
def windowText (subtitle : Subtitle) : List Char :=
  ((TimeNotation.srt.window subtitle.start subtitle.stop).toOption.getD "").toList

/-- The blocks of subtitles from a number on. -/
def blockTexts : Nat → List Subtitle → List (List Char)
  | _, [] => []
  | number, subtitle :: rest =>
    numberedBlock number (windowText subtitle) subtitle :: blockTexts (number + 1) rest

/-- Blocks show times, texts and looks, and nothing else of the subtitles. -/
theorem blockTexts_congr {some others : List Subtitle}
    (h : some.map (fun subtitle ↦ (windowText subtitle, markedText subtitle))
      = others.map fun subtitle ↦ (windowText subtitle, markedText subtitle)) (number : Nat) :
    blockTexts number some = blockTexts number others := by
  induction some generalizing others number with
  | nil =>
    rw [List.map_nil, eq_comm, List.map_eq_nil_iff] at h
    rw [h]
  | cons subtitle some ih =>
    obtain ⟨other, others, rfl, hfirst, hrest⟩ := List.map_eq_cons_iff.mp h.symm
    obtain ⟨hwindow, htext⟩ := Prod.mk.inj hfirst
    rw [blockTexts, blockTexts, ih hrest.symm, numberedBlock, numberedBlock, hwindow, htext]

section

variable {subtitle : Subtitle} (short : subtitle.HasShortTimes)
include short

theorem windowText_eq : ∃ m n, TimeNotation.srt.AreTimes m n subtitle
    ∧ windowText subtitle = windowOf m n := by
  obtain ⟨m, n, times⟩ := short.exists_areTimes
  refine ⟨m, n, times, ?_⟩
  rw [windowText, times.window_eq]
  rfl

theorem lineEnd_not_mem_windowText : ∀ c ∈ Markup.lineEnds, c ∉ windowText subtitle := by
  obtain ⟨m, n, -, hwindow⟩ := windowText_eq short
  rw [hwindow]
  exact lineEnd_not_mem_windowOf m n

theorem endsSolid_windowText : EndsSolid (windowText subtitle) := by
  obtain ⟨m, n, -, hwindow⟩ := windowText_eq short
  rw [hwindow, windowOf, String.toList_append]
  exact (TimeNotation.endsSolid_textOfUnits n).append _

end

theorem exists_texts {subtitles : List Subtitle}
    (short : ∀ subtitle ∈ subtitles, subtitle.HasShortTimes) (number : Nat) :
    ∃ texts, blocks {} number subtitles = .ok texts
      ∧ (String.join texts).toList = documentOf (blockTexts number subtitles) := by
  induction subtitles generalizing number with
  | nil => exact ⟨[], rfl, rfl⟩
  | cons subtitle subtitles ih =>
    rw [List.forall_mem_cons] at short
    obtain ⟨texts, htexts, hjoin⟩ := ih short.2 (number + 1)
    obtain ⟨m, n, times, hwindow⟩ := windowText_eq short.1
    obtain ⟨text, htext, hchars⟩ := block_eq .lf false number times
    have hfeed : LineEnding.lf.text.toList = ['\n'] := rfl
    rw [hfeed, replaceChar_self, blockOf, ← hwindow] at hchars
    refine ⟨text :: texts, bind_eq_ok.mpr ⟨text, htext, bind_eq_ok.mpr ⟨texts, htexts, rfl⟩⟩, ?_⟩
    rw [String.join_cons, String.toList_append, hchars, hjoin, blockTexts, documentOf_cons]

/-- The document of subtitles whose starts rise is made of their blocks. -/
theorem write_eq {subtitles : List Subtitle} (rising : Subtitle.IsRising subtitles)
    (short : ∀ subtitle ∈ subtitles, subtitle.HasShortTimes) :
    ∃ text, write {} subtitles = .ok text ∧ text.toList = documentOf (blockTexts 1 subtitles) := by
  obtain ⟨texts, htexts, hjoin⟩ := exists_texts short 1
  refine ⟨"" ++ String.join texts, ?_, ?_⟩
  · rw [write, Subtitle.sorted_of_isRising rising, htexts]
    rfl
  · rw [String.toList_append, hjoin]
    rfl

/-! ## Reading what was written -/

section

variable {subtitle : Subtitle} (short : subtitle.HasShortTimes)
include short

/-- A block with the window of a subtitle is read as its lines of text in that window. -/
theorem piece_of_linesOf {number : Nat} (hnumber : number < 10 ^ digitLimit) {block : List Char}
    {body : List (List Char)} (hne : body ≠ [])
    (hlines : linesOf block = (toString number).toList :: windowText subtitle :: body) :
    piece {} block = .ok (Piece.ofSubtitle {} (subtitle.withBody body)) := by
  obtain ⟨m, n, times, hwindow⟩ := windowText_eq short
  have henough : isEnough {} body = true := by
    rw [isEnough, List.isEmpty_eq_false_iff.mpr hne]
    rfl
  have hsubtitle : subtitleOf {}
      ⟨TimeNotation.srt.stampOf m, TimeNotation.srt.stampOf n, []⟩ body
      = .ok (subtitle.withBody body) := by
    rw [subtitleOf, times.start.read, times.stop.read, short.start.unsigned_eq,
      short.stop.unsigned_eq]
    rfl
  rw [piece, hlines]
  dsimp only
  rw [toList_toString_nat, trim_numeral (toDigits_numeral number), readWhole_toDigits hnumber,
    hwindow, windowOf, TimeRange.ofLine?_window TimeNotation.srt_isStandard]
  dsimp only
  rw [if_pos henough, hsubtitle]
  rfl

/-- **A block that was written is read as what its text says now**, with or without the blanks at
its end. -/
theorem piece_blockText {number : Nat} (hnumber : number < 10 ^ digitLimit)
    (gapless : IsGapless (markedText subtitle)) {block : List Char}
    (hblock : block = numberedBlock number (windowText subtitle) subtitle) :
    piece {} block = .ok (Piece.ofSubtitle {} subtitle.again)
      ∧ piece {} (trimBack block) = .ok (Piece.ofSubtitle {} subtitle.again) := by
  have hne : linesOf (markedText subtitle) ≠ [] := splitAll_ne_nil _ _
  have hwindow := lineEnd_not_mem_windowText short
  have hlines : linesOf (numberedBlock number (windowText subtitle) subtitle) = _ :=
    linesOf_numberedBlock number hwindow
  have hloose := isLooseBlock_numbered number hwindow (endsSolid_windowText short) gapless
  rw [← hblock] at hlines hloose
  refine ⟨piece_of_linesOf short hnumber hne hlines, ?_⟩
  have htrimmed := hloose.gapless.linesOf_trimBack
  rw [hlines, trimLast_cons (List.cons_ne_nil _ _), trimLast_cons hne] at htrimmed
  rw [piece_of_linesOf short hnumber (trimLast_ne_nil hne) htrimmed, Subtitle.again,
    Subtitle.withBody_trimLast]

end

/-- A subtitle that is written in a block of its own, and whose line ends are line feeds. -/
structure IsWritable (subtitle : Subtitle) : Prop where
  short : subtitle.HasShortTimes
  plain : '\r' ∉ markedText subtitle
  gapless : IsGapless (markedText subtitle)

theorem exists_of_mem_blockTexts {number : Nat} {subtitles : List Subtitle} {block : List Char}
    (h : block ∈ blockTexts number subtitles) :
    ∃ place, place < subtitles.length ∧ ∃ subtitle ∈ subtitles,
      block = numberedBlock (number + place) (windowText subtitle) subtitle := by
  induction subtitles generalizing number with
  | nil => cases h
  | cons subtitle subtitles ih =>
    rcases List.mem_cons.mp h with rfl | h
    · exact ⟨0, Nat.succ_pos _, subtitle, List.mem_cons_self, rfl⟩
    · obtain ⟨place, hplace, found, hfound, rfl⟩ := ih h
      refine ⟨place + 1, Nat.succ_lt_succ hplace, found, List.mem_cons_of_mem _ hfound, ?_⟩
      rw [Nat.add_assoc, Nat.add_comm 1]

section

variable {subtitles : List Subtitle} (writable : ∀ subtitle ∈ subtitles, IsWritable subtitle)
include writable

/-- A document that was written falls into its blocks. -/
theorem blocksOf_written {text : String}
    (htext : text.toList = documentOf (blockTexts 1 subtitles)) :
    blocksOf text = trimLast (blockTexts 1 subtitles) := by
  have hloose : ∀ block ∈ blockTexts 1 subtitles, IsLooseBlock block := by
    intro block hblock
    obtain ⟨place, -, subtitle, hmem, rfl⟩ := exists_of_mem_blockTexts hblock
    obtain ⟨short, -, gapless⟩ := writable subtitle hmem
    exact isLooseBlock_numbered _ (lineEnd_not_mem_windowText short) (endsSolid_windowText short)
      gapless
  refine blocksOf_looseDocument hloose ?_
  have hplain : '\r' ∉ documentOf (blockTexts 1 subtitles) := by
    intro hmem
    obtain ⟨block, hblock, hmem⟩ := List.mem_flatMap.mp hmem
    obtain ⟨place, -, subtitle, hsubtitle, rfl⟩ := exists_of_mem_blockTexts hblock
    obtain ⟨short, plain, -⟩ := writable subtitle hsubtitle
    rcases List.mem_append.mp hmem with hmem | hmem
    · exact not_mem_numberedBlock _ (lineEnd_not_mem_windowText short) plain hmem
    · exact absurd hmem (by decide)
  have hopen : ∀ c ∈ (documentOf (blockTexts 1 subtitles)).head?, c.isDigit = true := by
    intro c hc
    cases subtitles with
    | nil => cases hc
    | cons subtitle subtitles =>
      obtain ⟨d, rest, hcons, -⟩ := (hloose _ List.mem_cons_self).exists_cons
      have hfirst : ∀ c ∈ (numberedBlock 1 (windowText subtitle) subtitle).head?,
          c.isDigit = true := fun _ ↦ isDigit_of_head?_numberedBlock
      rw [hcons] at hfirst
      rw [blockTexts, documentOf_cons, hcons] at hc
      exact hfirst c hc
  have hnormal := normalizeText_written [] (List.forall_mem_nil _) (.inl rfl) hplain fun c hc ↦ by
    have := hopen c hc
    constructor <;>
    · rintro rfl
      cases this
  rw [htext]
  rwa [List.nil_append, replaceChar_self] at hnormal

/-- The blocks are read as what their texts say now. -/
theorem map_piece_blockTexts (number : Nat) (few : number + subtitles.length ≤ 10 ^ digitLimit) :
    (blockTexts number subtitles).map (piece {})
      = subtitles.map fun subtitle ↦ .ok (Piece.ofSubtitle {} subtitle.again) := by
  induction subtitles generalizing number with
  | nil => rfl
  | cons subtitle subtitles ih =>
    rw [List.forall_mem_cons] at writable
    rw [List.length_cons] at few
    obtain ⟨short, -, gapless⟩ := writable.1
    rw [blockTexts, List.map_cons, List.map_cons, (piece_blockText short (by omega) gapless rfl).1,
      ih writable.2 (number + 1) (by omega)]

end

/-- The subtitles of a document that was written are the subtitles as their texts say now, without
those that say nothing. -/
def kept (subtitles : List Subtitle) : List Subtitle :=
  (subtitles.map Subtitle.again).filter fun subtitle ↦ !subtitle.isBlank

/-- **What was written is read as what the texts say now.** -/
theorem read_written {subtitles : List Subtitle}
    (writable : ∀ subtitle ∈ subtitles, IsWritable subtitle)
    (few : subtitles.length < 10 ^ digitLimit) {text : String}
    (htext : text.toList = documentOf (blockTexts 1 subtitles)) : read {} text
      = ⟨.ok (Subtitle.named "srt" (Subtitle.inOrder (kept subtitles))), []⟩ := by
  have hpieces : (pieces {} text).map (·.piece)
      = (subtitles.map fun subtitle ↦ Piece.ofSubtitle {} subtitle.again).map .ok := by
    rw [map_piece_pieces, blocksOf_written writable htext, map_trimLast, map_piece_blockTexts writable
      1 (by omega), List.map_map]
    · rfl
    · intro block hblock
      obtain ⟨place, hplace, subtitle, hmem, hblock⟩ := exists_of_mem_blockTexts hblock
      obtain ⟨short, -, gapless⟩ := writable subtitle hmem
      obtain ⟨hwhole, htrimmed⟩ := piece_blockText short (by omega) gapless hblock
      rw [hwhole, htrimmed]
  have hkept : (subtitles.map fun subtitle ↦ Piece.ofSubtitle {} subtitle.again).filterMap
      Piece.subtitle? = kept subtitles := by
    rw [kept, List.filter_map, List.filterMap_map, ← List.filterMap_eq_map, List.filterMap_filter]
    refine List.filterMap_congr fun subtitle _ ↦ ?_
    rw [Function.comp_apply, Function.comp_apply, Function.comp_apply, Piece.ofSubtitle]
    cases subtitle.again.isBlank <;> rfl
  have hcollect := collect_of_ok false hpieces (by
    rw [List.forall_mem_map]
    intro subtitle _
    rw [Piece.ofSubtitle]
    split <;> rintro ⟨⟩)
  rw [read, Reported.silent_bind hcollect, hkept]
  rfl

/-! ## Writing what was read -/

theorem kept_cons (subtitle : Subtitle) (subtitles : List Subtitle) : kept (subtitle :: subtitles)
    = if subtitle.again.isBlank then kept subtitles else subtitle.again :: kept subtitles := by
  rw [kept, List.map_cons, List.filter_cons]
  cases subtitle.again.isBlank <;> rfl

/-- What is kept keeps its window. -/
theorem kept_sublist (subtitles : List Subtitle) :
    ((kept subtitles).map fun subtitle ↦ (subtitle.start, subtitle.stop)).Sublist
      (subtitles.map fun subtitle ↦ (subtitle.start, subtitle.stop)) := by
  have hsame : (subtitles.map Subtitle.again).map (fun subtitle ↦ (subtitle.start, subtitle.stop))
      = subtitles.map fun subtitle ↦ (subtitle.start, subtitle.stop) := by
    rw [List.map_map]
    rfl
  rw [← hsame]
  exact (List.filter_sublist).map _

/-- Times are short if the windows are among those of subtitles with short times. -/
theorem hasShortTimes_of_subset {some others : List Subtitle}
    (short : ∀ subtitle ∈ others, subtitle.HasShortTimes)
    (h : some.map (fun subtitle ↦ (subtitle.start, subtitle.stop))
      ⊆ others.map fun subtitle ↦ (subtitle.start, subtitle.stop)) :
    ∀ subtitle ∈ some, subtitle.HasShortTimes := by
  intro subtitle hmem
  obtain ⟨other, hother, heq⟩ := List.mem_map.mp (h (List.mem_map_of_mem hmem))
  obtain ⟨hstart, hstop⟩ := Prod.mk.inj heq
  obtain ⟨hshortStart, hshortStop⟩ := short other hother
  exact ⟨hstart ▸ hshortStart, hstop ▸ hshortStop⟩

/-- The starts of what is kept rise as they did. -/
theorem kept_isRising {subtitles : List Subtitle} (rising : Subtitle.IsRising subtitles) :
    Subtitle.IsRising (kept subtitles) := by
  have hstarts : ((kept subtitles).map Subtitle.start).Sublist (subtitles.map Subtitle.start) := by
    have := (kept_sublist subtitles).map Prod.fst
    rwa [List.map_map, List.map_map] at this
  rw [Subtitle.isRising_iff] at rising ⊢
  exact ⟨fun x hx ↦ rising.1 x (hstarts.subset hx), rising.2.sublist hstarts⟩

/-- **The second document is made of the blocks of what is kept.** -/
theorem write_read_written {subtitles : List Subtitle} (rising : Subtitle.IsRising subtitles)
    (short : ∀ subtitle ∈ subtitles, subtitle.HasShortTimes) :
    ∃ text, write {} (Subtitle.named "srt" (Subtitle.inOrder (kept subtitles))) = .ok text
      ∧ text.toList = documentOf (blockTexts 1 (kept subtitles)) := by
  have hrising := kept_isRising rising
  have hmap {β : Type} (f : Subtitle → β)
      (hf : ∀ (subtitle : Subtitle) (id : String) (index : Int),
        f { subtitle with id, index } = f subtitle) :
      (Subtitle.named "srt" (Subtitle.inOrder (kept subtitles))).map f = (kept subtitles).map f := by
    rw [Subtitle.named_inOrder_of_isRising "srt" hrising]
    refine List.ext_getElem (by simp) fun place hleft hright ↦ ?_
    simp only [List.getElem_map, List.getElem_mapIdx]
    exact hf _ _ _
  have hagain := Subtitle.named_inOrder_isRising "srt" hrising.defined
  have hwindows := hmap (fun subtitle ↦ (subtitle.start, subtitle.stop)) fun _ _ _ ↦ rfl
  obtain ⟨text, hwrite, htext⟩ := write_eq hagain.1
    (hasShortTimes_of_subset short (hwindows ▸ (kept_sublist subtitles).subset))
  refine ⟨text, hwrite, htext.trans (congrArg documentOf (blockTexts_congr ?_ 1))⟩
  exact hmap _ fun _ _ _ ↦ rfl

/-! ## Line feeds -/

/-- Reading and writing a text makes no more line feeds. -/
theorem count_again_le {c : Char} (hc : c ∈ Markup.lineEnds) (subtitle : Subtitle) :
    (markedText subtitle.again).count c ≤ (markedText subtitle).count c := by
  rw [markedText, Subtitle.again, Subtitle.withBody]
  dsimp only
  exact (Markup.count_write_read_le hc _).trans ((bodyText_sublist _).count_le c)

/-- The line feeds of a document: those of its texts, and four for each block. -/
def feeds (subtitles : List Subtitle) : Nat :=
  (subtitles.map fun subtitle ↦ (markedText subtitle).count '\n' + 4).sum

theorem feeds_cons (subtitle : Subtitle) (subtitles : List Subtitle) : feeds (subtitle :: subtitles)
    = (markedText subtitle).count '\n' + 4 + feeds subtitles := by
  rw [feeds, List.map_cons, List.sum_cons, ← feeds]

theorem count_blockTexts {subtitles : List Subtitle}
    (short : ∀ subtitle ∈ subtitles, subtitle.HasShortTimes) (number : Nat) :
    (documentOf (blockTexts number subtitles)).count '\n' = feeds subtitles := by
  induction subtitles generalizing number with
  | nil => rfl
  | cons subtitle subtitles ih =>
    rw [List.forall_mem_cons] at short
    have hnumber := List.count_eq_zero_of_not_mem
      (lineEnd_not_mem_numeral number (by decide : '\n' ∈ Markup.lineEnds))
    have hwindow := List.count_eq_zero_of_not_mem
      (lineEnd_not_mem_windowText short.1 '\n' (by decide))
    rw [blockTexts, documentOf_cons, numberedBlock, feeds_cons]
    simp only [List.count_append, List.count_cons, ih short.2, hnumber, hwindow]
    simp

theorem feeds_kept_le (subtitles : List Subtitle) : feeds (kept subtitles) ≤ feeds subtitles := by
  induction subtitles with
  | nil => exact le_refl _
  | cons subtitle subtitles ih =>
    have hcount := count_again_le (by decide : '\n' ∈ Markup.lineEnds) subtitle
    rw [kept_cons, feeds_cons]
    split
    · omega
    · rw [feeds_cons]
      omega

/-- **The documents are the same just if all subtitles are settled.** -/
theorem documentOf_kept_iff {subtitles : List Subtitle}
    (short : ∀ subtitle ∈ subtitles, subtitle.HasShortTimes) (number : Nat) :
    documentOf (blockTexts number (kept subtitles)) = documentOf (blockTexts number subtitles) ↔
      ∀ subtitle ∈ subtitles, subtitle.IsSettled := by
  induction subtitles generalizing number with
  | nil => exact iff_of_true rfl (List.forall_mem_nil _)
  | cons subtitle subtitles ih =>
    have hshort := hasShortTimes_of_subset short (kept_sublist (subtitle :: subtitles)).subset
    have hfeeds := feeds_kept_le subtitles
    rw [List.forall_mem_cons, ← ih (List.forall_mem_cons.mp short).2 (number + 1)]
    rw [kept_cons] at hshort ⊢
    cases hblank : subtitle.again.isBlank with
    | true =>
      -- a document that has lost a subtitle has fewer line feeds
      rw [hblank, if_pos rfl] at hshort
      rw [if_pos rfl]
      refine iff_of_false (fun h ↦ ?_) fun h ↦ ?_
      · have hcount := congrArg (List.count '\n') h
        rw [count_blockTexts hshort, count_blockTexts short, feeds_cons] at hcount
        omega
      · rw [h.1.visible] at hblank
        cases hblank
    | false =>
      rw [hblank, if_neg Bool.false_ne_true] at hshort
      rw [if_neg Bool.false_ne_true, blockTexts, blockTexts, documentOf_cons, documentOf_cons,
        numberedBlock, numberedBlock, show windowText subtitle.again = windowText subtitle from rfl]
      simp only [List.append_assoc, List.cons_append, List.append_cancel_left_eq, List.cons.injEq,
        true_and, List.nil_append]
      constructor
      · intro h
        have hcount := congrArg (List.count '\n') h
        have hagain := count_again_le (by decide : '\n' ∈ Markup.lineEnds) subtitle
        rw [List.forall_mem_cons] at hshort short
        simp only [List.count_append, List.count_cons_self, count_blockTexts hshort.2,
          count_blockTexts short.2] at hcount
        obtain ⟨htext, hrest⟩ := append_cons_inj_of_count h (by omega)
        exact ⟨⟨hblank, htext⟩, (List.cons.inj hrest).2⟩
      · rintro ⟨settled, hrest⟩
        rw [settled.text, hrest]

/-! ## What a document holds -/

end Srt

/-- A subtitle as it is read from a document: with times that come back, with something to read, and
with the text and the look of some text of trimmed lines, of which none is blank. -/
structure Subtitle.IsFresh (subtitle : Subtitle) : Prop where
  short : subtitle.HasShortTimes
  visible : subtitle.isBlank = false
  source : ∃ text, IsGapless text ∧ '\r' ∉ text ∧ bodyText (linesOf text) = text ∧
    Markup.read text = (subtitle.text.toList, subtitle.style)

namespace Subtitle.IsFresh

variable {subtitle : Subtitle} (fresh : subtitle.IsFresh)
include fresh

theorem not_mem_markedText : '\r' ∉ markedText subtitle := by
  obtain ⟨text, -, hplain, -, hread⟩ := fresh.source
  have hcount := Markup.count_write_read_le (by decide : '\r' ∈ Markup.lineEnds) text
  rw [hread, String.ofList_toList, ← markedText, List.count_eq_zero_of_not_mem hplain] at hcount
  exact List.count_eq_zero.mp (Nat.le_zero.mp hcount)

/-- **An unstyled subtitle is settled.** -/
theorem of_unstyled (unstyled : subtitle.style = none) :
    IsGapless (markedText subtitle) ∧ subtitle.IsSettled := by
  obtain ⟨text, gapless, -, hlines, hread⟩ := fresh.source
  have htext : subtitle.text.toList = text := by
    have hsame := Markup.fst_read_of_none ((congrArg Prod.snd hread).trans unstyled)
    rwa [hread] at hsame
  have hmarked : markedText subtitle = text := by
    rw [markedText, unstyled, Markup.write, htext]
  have hagain : subtitle.again.text = subtitle.text ∧ subtitle.again.style = subtitle.style := by
    rw [Subtitle.again, Subtitle.withBody, hmarked, hlines, hread]
    exact ⟨String.ofList_toList, rfl⟩
  refine ⟨hmarked ▸ gapless, ?_, ?_⟩
  · rw [Subtitle.isBlank, hagain.1]
    exact fresh.visible
  · rw [markedText, hagain.1, hagain.2, markedText]

end Subtitle.IsFresh

namespace Srt

/-- The window that the second line of a block says. -/
def rangeOf? (block : List Char) : Option TimeRange := (linesOf block)[1]?.bind TimeRange.ofLine?

/-- Every window in the document opens and closes before `2 ^ 50` milliseconds. -/
def HasShortWindows (content : String) : Prop := ∀ block ∈ blocksOf content,
  ∀ range ∈ rangeOf? block, range.start.IsShort ∧ range.stop.IsShort

/-- Lines of text below a short window are read as a subtitle, which is as it was read if there is
something to read. -/
theorem exists_subtitleOf {range : TimeRange} (hstart : range.start.IsShort)
    (hstop : range.stop.IsShort) {body : List (List Char)} (hne : body ≠ [])
    (hlines : ∀ line ∈ body, line.all isBlank = false ∧ '\n' ∉ line ∧ '\r' ∉ line) :
    ∃ subtitle, subtitleOf {} range body = .ok subtitle ∧
      (subtitle.isBlank = false → subtitle.IsFresh) := by
  obtain ⟨x, hx, hshort⟩ := hstart.exists_seconds?
  obtain ⟨y, hy, hshort'⟩ := hstop.exists_seconds?
  have hlinesOf := linesOf_bodyText hne fun line hline ↦ (hlines line hline).2.1
  refine ⟨{ text := String.ofList (Markup.read (bodyText body)).1, start := x, stop := y
            style := (Markup.read (bodyText body)).2 },
    bind_eq_ok.mpr ⟨x, hx, bind_eq_ok.mpr ⟨y, hy, rfl⟩⟩,
    fun visible ↦ ⟨⟨hshort, hshort'⟩, visible, bodyText body, ?_, ?_, ?_, ?_⟩⟩
  · rw [IsGapless, hlinesOf, List.forall_mem_map]
    intro line hline
    rw [all_isBlank_trimBack]
    exact (hlines line hline).1
  · intro hmem
    rcases mem_joinWith hmem with hmem | ⟨line, hline, hmem⟩
    · exact absurd hmem (by decide)
    · obtain ⟨source, hsource, rfl⟩ := List.mem_map.mp hline
      exact (hlines source hsource).2.2 (mem_of_mem_trimBack hmem)
  · rw [bodyText, hlinesOf, List.map_map]
    exact congrArg _ (List.map_congr_left fun line _ ↦ trimBack_trimBack line)
  · rw [String.toList_ofList]

/-- **Each block of a document can be read**, and a subtitle that it holds is as a subtitle is that
was read. -/
theorem exists_piece {content : String} (short : HasShortWindows content) {block : List Char}
    (hblock : block ∈ blocksOf content) : ∃ found, piece {} block = .ok found ∧
      ∀ subtitle, found = .subtitle subtitle → subtitle.IsFresh := by
  obtain ⟨gapless, hplain⟩ := isGapless_of_mem_blocksOf hblock
  have hmalformed : ∃ found, (.ok .malformed : Except Error Piece) = .ok found ∧
      ∀ subtitle, found = .subtitle subtitle → subtitle.IsFresh := ⟨.malformed, rfl, by rintro _ ⟨⟩⟩
  rw [piece]
  split
  · rename_i number timing body hlines
    split
    · rename_i n range hnumber hrange
      split
      · rename_i henough
        have hne : body ≠ [] := by
          rintro rfl
          cases henough
        have hrange : range ∈ rangeOf? block := by
          rw [rangeOf?, hlines]
          exact hrange
        obtain ⟨hstart, hstop⟩ := short block hblock range hrange
        obtain ⟨subtitle, hsubtitle, hfresh⟩ := exists_subtitleOf hstart hstop hne fun line hline ↦ by
          have hmem : line ∈ linesOf block := by
            rw [hlines]
            exact List.mem_cons_of_mem _ (List.mem_cons_of_mem _ hline)
          exact ⟨gapless line hmem, not_mem_of_mem_splitAll hmem, fun hreturn ↦
            hplain (mem_of_mem_splitAll hmem hreturn)⟩
        refine ⟨Piece.ofSubtitle {} subtitle, map_eq_ok.mpr ⟨subtitle, hsubtitle, rfl⟩, ?_⟩
        intro found hfound
        rw [Piece.ofSubtitle] at hfound
        split at hfound
        · cases hfound
        · rename_i hvisible
          obtain rfl := Piece.subtitle.inj hfound
          exact hfresh (by simpa using hvisible)
      · exact hmalformed
    · exact hmalformed
  · exact hmalformed

/-- **A document of which the blocks can be read is read**, and its subtitles are in order. -/
theorem exists_read {content : String} (short : HasShortWindows content) :
    ∃ subtitles, (read {} content).result = .ok subtitles ∧ Subtitle.IsRising subtitles ∧
      ∀ subtitle ∈ subtitles, subtitle.IsFresh := by
  have hall : ∀ part ∈ pieces {} content, ∃ found, part.piece = .ok found ∧
      ∀ subtitle, found = .subtitle subtitle → subtitle.IsFresh := by
    intro part hpart
    obtain ⟨place, hplace, rfl⟩ := List.mem_mapIdx.mp hpart
    exact exists_piece short (List.getElem_mem hplace)
  obtain ⟨found, hfound⟩ := exists_mapM.mpr fun part hpart ↦ (hall part hpart).imp fun _ h ↦ h.1
  have hfresh : ∀ subtitle ∈ found.filterMap Piece.subtitle?, subtitle.IsFresh := by
    intro subtitle hmem
    obtain ⟨piece, hpiece, hsubtitle⟩ := List.mem_filterMap.mp hmem
    obtain ⟨part, hpart, hread⟩ := exists_of_mem_mapM hfound hpiece
    obtain ⟨other, hother, hfresh⟩ := hall part hpart
    obtain rfl := Except.ok.inj (hread.symm.trans hother)
    exact hfresh subtitle (Piece.eq_of_subtitle? hsubtitle)
  have hcollect : (collect false (pieces {} content)).result
      = .ok (found.filterMap Piece.subtitle?) := by
    rw [collect_lenient, hfound]
    rfl
  refine ⟨_, Reported.bind_eq_ok.mpr ⟨_, hcollect, rfl⟩,
    (Subtitle.named_inOrder_isRising "srt" fun subtitle hmem ↦ ?_).1, fun subtitle hmem ↦ ?_⟩
  · obtain ⟨n, hn, hstart⟩ := (hfresh subtitle hmem).short.start
    obtain ⟨x, hx⟩ := exists_seconds hn
    rw [hstart, hx]
    rintro ⟨⟩
  · obtain ⟨original, horiginal, id, index, rfl⟩ := Subtitle.exists_of_mem_named_inOrder hmem
    obtain ⟨⟨hstart, hstop⟩, visible, source⟩ := hfresh original horiginal
    exact ⟨⟨hstart, hstop⟩, visible, source⟩

/-- **A document with short windows is read and written, and what was written is written again just
if every styled subtitle is settled**, as long as no line of a styled text is blank and the numbers
of the subtitles can be read. -/
theorem rewrite_eq_iff {content : String} (short : HasShortWindows content) :
    ∃ subtitles once, (read {} content).result = .ok subtitles ∧ write {} subtitles = .ok once ∧
      (subtitles.length < 10 ^ digitLimit →
        (∀ subtitle ∈ subtitles, subtitle.style.isSome = true → IsGapless (markedText subtitle)) →
        ∃ again twice, (read {} once).result = .ok again ∧ write {} again = .ok twice ∧
          (twice = once ↔
            ∀ subtitle ∈ subtitles, subtitle.style.isSome = true → subtitle.IsSettled)) := by
  obtain ⟨subtitles, hread, rising, fresh⟩ := exists_read short
  obtain ⟨once, hwrite, honce⟩ := write_eq rising fun subtitle h ↦ (fresh subtitle h).short
  refine ⟨subtitles, once, hread, hwrite, fun few gapless ↦ ?_⟩
  have writable : ∀ subtitle ∈ subtitles, IsWritable subtitle := by
    intro subtitle hmem
    refine ⟨(fresh subtitle hmem).short, (fresh subtitle hmem).not_mem_markedText, ?_⟩
    cases hstyle : subtitle.style with
    | none => exact ((fresh subtitle hmem).of_unstyled hstyle).1
    | some style => exact gapless subtitle hmem (by rw [hstyle]; rfl)
  obtain ⟨twice, hagain, htwice⟩ := write_read_written rising fun subtitle h ↦ (fresh subtitle h).short
  refine ⟨_, twice, congrArg Reported.result (read_written writable few honce), hagain, ?_⟩
  rw [← String.toList_inj, htwice, honce,
    documentOf_kept_iff fun subtitle h ↦ (fresh subtitle h).short]
  refine forall₂_congr fun subtitle hmem ↦ ⟨fun settled _ ↦ settled, fun settled ↦ ?_⟩
  cases hstyle : subtitle.style with
  | none => exact ((fresh subtitle hmem).of_unstyled hstyle).2
  | some style => exact settled (by rw [hstyle]; rfl)

/-- A slanted word with a blank behind it, which the tag keeps from the end of its line. -/
def spacedTitle : String := "1\n00:00:01,000 --> 00:00:02,000\n<i>Hello </i>\nworld"

/-- The blank is at the end of the line when the document is written, and is gone from the second
one. -/
theorem spacedTitle_rewritten : HasShortWindows spacedTitle ∧
    ∃ subtitles once again twice, (read {} spacedTitle).result = .ok subtitles ∧
      write {} subtitles = .ok once ∧ (read {} once).result = .ok again ∧
      write {} again = .ok twice ∧ twice ≠ once := by
  have short : HasShortWindows spacedTitle := by
    have hblocks : blocksOf spacedTitle = [spacedTitle.toList] := by decide +kernel
    have hrange : rangeOf? spacedTitle.toList = some
        ⟨⟨['0', '0'], ['0', '0'], ['0', '1'], ['0', '0', '0']⟩,
          ⟨['0', '0'], ['0', '0'], ['0', '2'], ['0', '0', '0']⟩, []⟩ := by decide +kernel
    rw [HasShortWindows, hblocks, List.forall_mem_singleton, hrange]
    rintro range ⟨⟩
    exact ⟨⟨1000, rfl, by decide⟩, ⟨2000, rfl, by decide⟩⟩
  obtain ⟨subtitles, once, hread, hwrite, hfixed⟩ := rewrite_eq_iff short
  obtain ⟨subtitle, rfl, htext, hstyle⟩ : ∃ subtitle, subtitles = [subtitle] ∧
      subtitle.text = "Hello \nworld" ∧ subtitle.style = some { fontStyle := some "italic" } := by
    have hdata : (read {} spacedTitle).result.toOption.map
        (List.map fun subtitle ↦ (subtitle.text, subtitle.style))
        = some [("Hello \nworld", some { fontStyle := some "italic" })] := by decide +kernel
    rw [hread] at hdata
    obtain ⟨subtitle, hsubtitle, hpair⟩ := List.map_eq_singleton_iff.mp (Option.some.inj hdata)
    exact ⟨subtitle, hsubtitle, (Prod.mk.inj hpair).1, (Prod.mk.inj hpair).2⟩
  have hmarked : markedText subtitle = "<i>Hello \nworld</i>".toList := by
    rw [markedText, htext, hstyle]
    decide +kernel
  obtain ⟨again, twice, hagain, htwice, hiff⟩ := hfixed
    (lt_of_lt_of_le (by decide : 1 < 10 ^ 1)
      (Nat.pow_le_pow_right (by decide) (by decide)))
    (by
      rw [List.forall_mem_singleton, hmarked]
      intro _
      decide +kernel)
  refine ⟨short, [subtitle], once, again, twice, hread, hwrite, hagain, htwice, ?_⟩
  rw [Ne, hiff, List.forall_mem_singleton, hstyle]
  intro settled
  have hsame := (settled rfl).text
  rw [Subtitle.again, Subtitle.withBody, hmarked, markedText] at hsame
  dsimp only at hsame
  revert hsame
  decide +kernel

end Srt
end Montage
