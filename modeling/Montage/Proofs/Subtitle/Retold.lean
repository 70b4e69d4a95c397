import Montage.Proofs.Subtitle.Lenient
import Montage.Proofs.Subtitle.Numbered
import Montage.Proofs.Subtitle.Seen

/-!
# Documents that are retold

A document *retells* subtitles if it is read as captions with their words, one for each of them and in
their order, without a warning.  If no block of the document has a blank line, each subtitle is one
block, and retelling is a matter of single blocks (`BlockFormat.Tells`).

Conversely every block costs its window of time: something is seen of that line, and it is not told
(`BlockFormat.IsFrugal`).  A subtitle whose text falls apart makes blocks of what was its text, so that
less is told than was to be told (`BlockFormat.sum_told_le`), and some words are missing.  Hence a
document retells subtitles just if none of their texts falls apart (`BlockFormat.retells_iff`).
-/

set_option autoImplicit false

namespace Montage

attribute [local instance] Rounding.binary64

/-- A reading finds captions with the words of the subtitles, one for each, and warns of nothing. -/
def Retells (reading : Reported (List Subtitle)) (subtitles : List Subtitle) : Prop :=
  ∃ captions, reading = ⟨.ok captions, []⟩ ∧
    captions.map (fun caption ↦ wordsOf caption.text) =
      subtitles.map fun subtitle ↦ wordsOf subtitle.text

/-- Of captions with the words of subtitles, as much is seen. -/
theorem sum_seen_of_words {captions subtitles : List Subtitle}
    (unmarked : ∀ subtitle ∈ subtitles, '<' ∉ subtitle.text.toList)
    (h : captions.map (fun caption ↦ wordsOf caption.text) =
      subtitles.map fun subtitle ↦ wordsOf subtitle.text) :
    (captions.map fun caption ↦ seen caption.text.toList).sum =
      (subtitles.map fun subtitle ↦ seen subtitle.text.toList).sum := by
  induction subtitles generalizing captions with
  | nil =>
    rw [List.map_nil, List.map_eq_nil_iff] at h
    rw [h]
  | cons subtitle subtitles ih =>
    rw [List.forall_mem_cons] at unmarked
    obtain ⟨caption, captions, rfl, hfirst, hrest⟩ := List.map_eq_cons_iff.mp h
    have hwords := wordsOf_inj.mp hfirst
    have hmarks : '<' ∉ caption.text.toList :=
      fun hmem ↦ unmarked.1 ((mem_iff_of_wordsIn hwords (by decide)).mp hmem)
    rw [List.map_cons, List.map_cons, List.sum_cons, List.sum_cons, ih unmarked.2 hrest,
      seen_of_wordsIn hmarks unmarked.1 hwords]

/-! ## Blocks of a document -/

/-- The blocks of subtitles from a number on, where each has a line with its window and a text as it is
laid out. -/
def numberedBlocks (timing : Subtitle → List Char) (laid : Subtitle → Subtitle) :
    Nat → List Subtitle → List (List Char)
  | _, [] => []
  | number, subtitle :: rest =>
    numberedBlock number (timing subtitle) (laid subtitle) ::
      numberedBlocks timing laid (number + 1) rest

/-- The lines of the text of a subtitle. -/
abbrev textLines (subtitle : Subtitle) : List (List Char) := trimmedLines (markedText subtitle)

/-- A block goes on up to the first blank line of its text, and the rest of the text is others. -/
theorem paragraphs_numberedBlock (number : Nat) {timing : List Char} {subtitle : Subtitle}
    (hends : ∀ c ∈ Markup.lineEnds, c ∉ timing) (hinked : isInked timing = true) :
    paragraphs (trimmedLines (numberedBlock number timing subtitle)) =
      ((toString number).toList :: trimBack timing :: (textLines subtitle).takeWhile isInked) ::
        paragraphs ((textLines subtitle).dropWhile isInked) := by
  have hnumber := endsSolid_number number
  have htiming : isInked (trimBack timing) = true := by rwa [isInked_trimBack]
  rw [trimmedLines, linesOf_numberedBlock number hends, List.map_cons, List.map_cons,
    hnumber.trimBack_eq, paragraphs_cons (isInked_of_endsSolid hnumber),
    List.takeWhile_cons_of_pos htiming, List.dropWhile_cons_of_pos htiming]
  rfl

namespace BlockFormat

variable (format : BlockFormat)

/-- How much is told by a block: what is seen of the text that is read. -/
def told (block : List Char) : Nat :=
  (format.subtitle? block).elim 0 fun subtitle ↦ seen subtitle.text.toList

/-- Every block that can be read shows more than it tells, and a block with a number tells no more than
what it shows below its second line. -/
structure IsFrugal : Prop where
  told_lt : ∀ block, format.timing block ≠ .missing →
    format.told block < seenIn (trimmedLines block)
  told_le : ∀ (block : List Char) (number : Nat) (timing : List Char) (body : List (List Char)),
    trimmedLines block = (toString number).toList :: timing :: body → format.told block ≤ seenIn body

/-- A subtitle that has something to tell, the line of its window and the text as it is laid out can be
told in one block: such a block holds the words of the subtitle and starts when it does. -/
structure Tells (timing : List Char) (laid subtitle : Subtitle) : Prop where
  unmarked : '<' ∉ subtitle.text.toList
  lineEnds : ∀ c ∈ Markup.lineEnds, c ∉ timing
  inked : isInked timing = true
  shown : (markedText laid).all isBlank = false
  seen : seen (markedText laid) ≤ seen subtitle.text.toList
  read : ∀ number < 10 ^ digitLimit, IsGapless (trimBack (markedText laid)) →
    ∀ block, trimmedLines block = (toString number).toList :: trimBack timing ::
      trimmedLines (trimBack (markedText laid)) →
    ∃ found, format.piece block = .ok (.subtitle found) ∧
      wordsOf found.text = wordsOf subtitle.text ∧ found.start = subtitle.start.unsigned

variable {format} {timing : Subtitle → List Char} {laid : Subtitle → Subtitle}
  {blocks : List (List Char)} {subtitles : List Subtitle} {number : Nat}

variable (format) in
/-- What is read from blocks. -/
def reading (strict : Bool) (blocks : List (List Char)) : Reported (List Subtitle) := do
  return format.arranged (← collect strict (format.pieces blocks))

theorem map_piece_pieces (blocks : List (List Char)) :
    (format.pieces blocks).map (·.piece) = blocks.map format.piece :=
  List.ext_getElem (by simp [pieces]) (by simp [pieces])

/-- Blocks that are read without a warning have no window missing, and what is found is what they
hold. -/
theorem of_collect_pieces {strict : Bool} {found : List Subtitle}
    (h : collect strict (format.pieces blocks) = ⟨.ok found, []⟩) :
    (∀ block ∈ blocks, format.timing block ≠ .missing) ∧
      found = blocks.filterMap format.subtitle? := by
  obtain ⟨pieces, hpieces, hmalformed, hfound⟩ := collect_eq_silent.mp h
  rw [map_piece_pieces] at hpieces
  constructor
  · intro block hblock htiming
    have hmem := List.mem_map_of_mem (f := format.piece) hblock
    rw [hpieces, (format.settles block).malformed_iff.mpr htiming] at hmem
    obtain ⟨piece, hpiece, heq⟩ := List.mem_map.mp hmem
    cases heq
    exact hmalformed _ hpiece rfl
  · have hmap := congrArg (List.filterMap fun piece ↦ piece.toOption.bind Piece.subtitle?) hpieces
    rw [List.filterMap_map, List.filterMap_map] at hmap
    exact hfound.trans hmap.symm

/-- How much blocks tell is what is seen of the subtitles that are read. -/
theorem sum_told (blocks : List (List Char)) : (blocks.map format.told).sum =
    ((blocks.filterMap format.subtitle?).map fun subtitle ↦ Montage.seen subtitle.text.toList).sum := by
  induction blocks with
  | nil => rfl
  | cons block blocks ih =>
    rw [List.map_cons, List.sum_cons, ih, told, List.filterMap_cons]
    cases format.subtitle? block with
    | none => exact Nat.zero_add _
    | some subtitle => rfl

/-! ## What is lost -/

/-- Each of some blocks loses something. -/
theorem IsFrugal.sum_told_add_length_le (frugal : format.IsFrugal)
    (hmissing : ∀ block ∈ blocks, format.timing block ≠ .missing) :
    (blocks.map format.told).sum + blocks.length ≤ seenIn (blocks.map trimmedLines).flatten := by
  induction blocks with
  | nil => exact Nat.zero_le _
  | cons block blocks ih =>
    rw [List.forall_mem_cons] at hmissing
    have hfirst := frugal.told_lt block hmissing.1
    have hrest := ih hmissing.2
    rw [List.map_cons, List.sum_cons, List.length_cons, List.map_cons, List.flatten_cons,
      seenIn_append]
    omega

/-- **Blocks tell what is seen of the texts that they were written for, less one for each block too
many.** -/
theorem IsFrugal.sum_told_le (frugal : format.IsFrugal)
    (tells : ∀ subtitle ∈ subtitles, format.Tells (timing subtitle) (laid subtitle) subtitle)
    (hblocks : blocks.map trimmedLines = (numberedBlocks timing laid number subtitles).flatMap
      fun text ↦ paragraphs (trimmedLines text))
    (hmissing : ∀ block ∈ blocks, format.timing block ≠ .missing) :
    (blocks.map format.told).sum + (subtitles.map fun subtitle ↦
        (paragraphs ((textLines (laid subtitle)).dropWhile isInked)).length).sum ≤
      (subtitles.map fun subtitle ↦ Montage.seen subtitle.text.toList).sum := by
  induction subtitles generalizing blocks number with
  | nil =>
    rw [numberedBlocks, List.flatMap_nil, List.map_eq_nil_iff] at hblocks
    rw [hblocks]
    exact Nat.zero_le _
  | cons subtitle subtitles ih =>
    rw [List.forall_mem_cons] at tells
    have h := tells.1
    rw [numberedBlocks, List.flatMap_cons, paragraphs_numberedBlock number h.lineEnds h.inked,
      List.cons_append] at hblocks
    obtain ⟨first, blocks, rfl, hfirst, hblocks⟩ := List.map_eq_cons_iff.mp hblocks
    obtain ⟨others, blocks, rfl, hothers, hblocks⟩ := List.map_eq_append_iff.mp hblocks
    rw [List.forall_mem_cons, List.forall_mem_append] at hmissing
    have hself := frugal.told_le first number _ _ hfirst
    have hlost := frugal.sum_told_add_length_le hmissing.2.1
    rw [hothers, seenIn_paragraphs, ← List.length_map (f := trimmedLines), hothers] at hlost
    have hrest := ih tells.2 hblocks hmissing.2.2
    have hseen := h.seen
    have hsplit : seenIn ((textLines (laid subtitle)).takeWhile isInked) +
        seenIn ((textLines (laid subtitle)).dropWhile isInked) =
        Montage.seen (markedText (laid subtitle)) := by
      rw [← seenIn_append, List.takeWhile_append_dropWhile, seenIn_trimmedLines]
    simp only [List.map_cons, List.map_append, List.sum_cons, List.sum_append]
    omega

/-! ## What is told -/

/-- **Texts that do not fall apart are told**, one in each block. -/
theorem exists_found
    (tells : ∀ subtitle ∈ subtitles, format.Tells (timing subtitle) (laid subtitle) subtitle)
    (few : number + subtitles.length ≤ 10 ^ digitLimit)
    (hblocks : blocks.map trimmedLines = (numberedBlocks timing laid number subtitles).flatMap
      fun text ↦ paragraphs (trimmedLines text))
    (gapless : ∀ subtitle ∈ subtitles, IsGapless (trimBack (markedText (laid subtitle)))) :
    ∃ found : List Subtitle, blocks.map format.piece = found.map (fun caption ↦ .ok (.subtitle caption)) ∧
      found.map (fun caption ↦ wordsOf caption.text) =
        subtitles.map (fun subtitle ↦ wordsOf subtitle.text) ∧
      found.map (·.start) = subtitles.map (·.start.unsigned) := by
  induction subtitles generalizing blocks number with
  | nil =>
    rw [numberedBlocks, List.flatMap_nil, List.map_eq_nil_iff] at hblocks
    rw [hblocks]
    exact ⟨[], rfl, rfl, rfl⟩
  | cons subtitle subtitles ih =>
    rw [List.forall_mem_cons] at tells gapless
    rw [List.length_cons] at few
    have h := tells.1
    rw [numberedBlocks, List.flatMap_cons, paragraphs_numberedBlock number h.lineEnds h.inked,
      (isGapless_trimBack_iff h.shown).mp gapless.1, takeWhile_trimmedLines gapless.1,
      List.singleton_append] at hblocks
    obtain ⟨first, blocks, rfl, hfirst, hblocks⟩ := List.map_eq_cons_iff.mp hblocks
    obtain ⟨caption, hcaption, hwords, hstart⟩ := h.read number (by omega) gapless.1 first hfirst
    obtain ⟨found, hfound, hmore, hstarts⟩ := ih tells.2 (by omega) hblocks gapless.2
    refine ⟨caption :: found, ?_, ?_, ?_⟩
    · rw [List.map_cons, List.map_cons, hcaption, hfound]
    · rw [List.map_cons, List.map_cons, hwords, hmore]
    · rw [List.map_cons, List.map_cons, hstart, hstarts]

variable (format) in
theorem map_text_arranged (found : List Subtitle) :
    (format.arranged found).map (·.text) = (Subtitle.sorted found).map (·.text) := by
  rw [arranged, List.map_map, Subtitle.inOrder]
  exact Subtitle.map_numbered (fun _ _ ↦ rfl) _

/-- Arranging subtitles shows what was seen of them. -/
theorem sum_seen_arranged (found : List Subtitle) :
    ((format.arranged found).map fun caption ↦ Montage.seen caption.text.toList).sum =
      (found.map fun caption ↦ Montage.seen caption.text.toList).sum := by
  have htexts := congrArg (List.map fun text ↦ Montage.seen text.toList)
    (map_text_arranged format found)
  rw [List.map_map, List.map_map] at htexts
  exact (congrArg List.sum htexts).trans ((Subtitle.sorted_perm found).map _).sum_eq

/-- **A document retells subtitles just if no text falls apart**, but for blank lines at its end. -/
theorem IsFrugal.retells_iff (frugal : format.IsFrugal) (strict : Bool)
    (rising : Subtitle.IsRising subtitles)
    (tells : ∀ subtitle ∈ subtitles, format.Tells (timing subtitle) (laid subtitle) subtitle)
    (few : number + subtitles.length ≤ 10 ^ digitLimit)
    (hblocks : blocks.map trimmedLines = (numberedBlocks timing laid number subtitles).flatMap
      fun text ↦ paragraphs (trimmedLines text)) :
    Retells (format.reading strict blocks) subtitles ↔
      ∀ subtitle ∈ subtitles, IsGapless (trimBack (markedText (laid subtitle))) := by
  constructor
  · rintro ⟨captions, hreading, hwords⟩
    obtain ⟨found, hcollect, hcaptions⟩ := Reported.bind_eq_silent.mp hreading
    cases hcaptions
    obtain ⟨hmissing, hfound⟩ := of_collect_pieces hcollect
    have hlost := frugal.sum_told_le tells hblocks hmissing
    have hsum := sum_seen_of_words (fun subtitle h ↦ (tells subtitle h).unmarked) hwords
    rw [sum_told, ← hfound, ← sum_seen_arranged, hsum] at hlost
    intro subtitle hsubtitle
    have hnone := List.sum_eq_zero_iff_forall_eq_nat.mp (by omega : (subtitles.map fun subtitle ↦
      (paragraphs ((textLines (laid subtitle)).dropWhile isInked)).length).sum = 0) _
      (List.mem_map_of_mem hsubtitle)
    exact (isGapless_trimBack_iff (tells subtitle hsubtitle).shown).mpr (List.length_eq_zero_iff.mp hnone)
  · intro gapless
    obtain ⟨found, hfound, hwords, hstarts⟩ := exists_found tells few hblocks gapless
    refine ⟨format.arranged found, ?_, ?_⟩
    · have hpieces : (format.pieces blocks).map (·.piece) =
          found.map fun caption ↦ .ok (.subtitle caption) := by rw [map_piece_pieces, hfound]
      rw [reading, Reported.silent_bind (collect_subtitles strict hpieces)]
      rfl
    · have htexts := congrArg (List.map wordsOf) (map_text_arranged format found)
      rw [Subtitle.sorted_of_isRising (rising.of_unsigned hstarts), List.map_map, List.map_map] at htexts
      exact htexts.trans hwords

end BlockFormat
end Montage
