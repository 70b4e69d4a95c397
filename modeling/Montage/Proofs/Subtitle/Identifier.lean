import Montage.Proofs.Subtitle.Lenient
import Montage.Proofs.Subtitle.Paragraph
import Montage.Proofs.Subtitle.Renamed

/-!
# The names of cues

A cue may have a line with a name before its window of time.  The name is kept, and it decides nothing
else about the cue; but it decides whether there is one, since a block is passed over for its first
line alone (`Vtt.piece_called`).  A cue under another name stays the same cue unless that name begins
with one of the words for notes, style sheets and regions.  Under such a word it is a note and is left
out, without a warning and also in a strict reading, and the cues behind it move up one place
(`Vtt.cue_renamed`).
-/

set_option autoImplicit false

namespace Montage
namespace Vtt

/-! ## Lines of a cue -/

/-- A line in a document of which the lines above and below are given. -/
def IsLineOf (above : List (List Char)) (line : List Char) (below : List (List Char))
    (content : String) : Prop :=
  linesOf (normalizeText content.toList) = above ++ line :: below

instance (above : List (List Char)) (line : List Char) (below : List (List Char))
    (content : String) : Decidable (IsLineOf above line below content) :=
  inferInstanceAs (Decidable (linesOf _ = _))

/-- A line that a cue may have for its name. -/
structure IsName (name : List Char) : Prop where
  inked : isInked name = true
  noWindow : occursIn "-->".toList name = false

/-- The blocks around the name of a cue. -/
structure Surroundings where
  header : List Char
  front : List (List Char)
  timing : List Char
  body : List (List Char)
  back : List (List Char)

namespace Surroundings

/-- The block of the cue under a name. -/
def block (around : Surroundings) (name : List Char) : List Char :=
  joinWith ['\n'] (name :: around.timing :: around.body)

/-- All blocks of the document. -/
def blocks (around : Surroundings) (name : List Char) : List (List Char) :=
  around.header :: (around.front ++ around.block name :: around.back)

end Surroundings

/-- What a block is for its first line. -/
theorem isHeader_joinWith (line : List Char) (lines : List (List Char)) :
    isHeader (joinWith ['\n'] (line :: lines)) = isHeader line :=
  isPrefixOf_joinWith (by decide) line lines

theorem isPassedOver_joinWith (line : List Char) (lines : List (List Char)) :
    isPassedOver (joinWith ['\n'] (line :: lines)) = isPassedOver line := by
  have hword : ∀ word ∈ ["NOTE", "STYLE", "REGION"], '\n' ∉ word.toList := by decide
  rw [isPassedOver, isPassedOver, Bool.eq_iff_iff, List.any_eq_true, List.any_eq_true]
  exact exists_congr fun word ↦ and_congr_right fun h ↦ by rw [isPrefixOf_joinWith (hword word h)]

/-- The lines below the name of a cue end with one that is not blank, and then blank ones; and blanks at
the end of that one do not matter for the text of the cue. -/
theorem exists_last {below body : List (List Char)} {timing : List Char}
    (hbelow : below.takeWhile isInked = timing :: body) (hbody : body ≠ []) :
    ∃ others last gap, below = timing :: (others ++ last :: gap) ∧ isInked last = true ∧
      (∀ line ∈ gap, isInked line = false) ∧
      ((others ++ [trimBack last]).takeWhile isInked).map trimBack = body.map trimBack := by
  obtain ⟨line, hline⟩ := List.exists_mem_of_ne_nil body hbody
  cases below with
  | nil => cases hbelow
  | cons first rest =>
    have hfirst : isInked first = true := by
      by_contra hblank
      rw [List.takeWhile_cons_of_neg hblank] at hbelow
      cases hbelow
    rw [List.takeWhile_cons_of_pos hfirst] at hbelow
    obtain ⟨rfl, rfl⟩ := List.cons.inj hbelow
    have hmem : line ∈ rest.reverse :=
      List.mem_reverse.mpr ((List.takeWhile_prefix isInked).mem hline)
    obtain ⟨gap, last, others, hrest, hgap, hlast⟩ :=
      exists_gapLines ⟨line, hmem, List.mem_takeWhile_imp hline⟩
    rw [List.reverse_eq_iff] at hrest
    have hsplit : rest = others.reverse ++ last :: gap.reverse := by
      rw [hrest, List.reverse_append, List.reverse_cons, List.append_assoc, List.singleton_append]
    have hgap' : ∀ line ∈ gap.reverse, isInked line = false :=
      fun line hline ↦ hgap line (List.mem_reverse.mp hline)
    refine ⟨others.reverse, last, gap.reverse, by rw [hsplit], hlast, hgap', ?_⟩
    rw [hsplit, List.append_cons _ last, takeWhile_isInked_append hgap', map_takeWhile_isInked,
      map_takeWhile_isInked, List.map_append, List.map_append, List.map_singleton,
      List.map_singleton, trimBack_trimBack]

/-- Behind a blank line a name opens a paragraph of its own. -/
theorem paragraphs_named {first blank name timing : List Char} {middle rest : List (List Char)}
    (hfirst : isInked first = true) (hblank : isInked blank = false) (hname : isInked name = true)
    (htiming : isInked timing = true) :
    paragraphs (first :: (middle ++ blank :: name :: timing :: rest)) =
      (first :: middle.takeWhile isInked) :: (paragraphs (middle.dropWhile isInked)
        ++ (name :: timing :: rest.takeWhile isInked) :: paragraphs (rest.dropWhile isInked)) := by
  rw [← List.cons_append, paragraphs_append_blank (all_isBlank_of_isInked hblank),
    paragraphs_cons hfirst, paragraphs_cons hname, List.takeWhile_cons_of_pos htiming,
    List.dropWhile_cons_of_pos htiming, List.cons_append]

/-- Lines that hold one that is not blank, and a blank one at their end. -/
theorem exists_apart {lines : List (List Char)} {first blank : List Char}
    (hfirst : lines.find? isInked = some first) (hlast : lines.getLast? = some blank)
    (hblank : isInked blank = false) : isInked first = true ∧ ∃ gap middle,
      lines = gap ++ first :: (middle ++ [blank]) ∧ ∀ line ∈ gap, isInked line = false := by
  obtain ⟨hinked, gap, more, rfl, hgap⟩ := List.find?_eq_some_iff_append.mp hfirst
  have hgap : ∀ line ∈ gap, isInked line = false := fun line hline ↦ by simpa using hgap line hline
  rw [List.getLast?_append_of_ne_nil _ (List.cons_ne_nil _ _)] at hlast
  obtain ⟨front, hfront⟩ := List.getLast?_eq_some_iff.mp hlast
  cases front with
  | nil =>
    obtain ⟨rfl, -⟩ := List.cons.inj hfront
    exact absurd (hinked.symm.trans hblank) (by decide)
  | cons _ middle =>
    obtain ⟨rfl, rfl⟩ := List.cons.inj hfront
    exact ⟨hinked, gap, middle, rfl, hgap⟩

/-- **The blocks around the name of a cue are the same ones whatever the name is.** -/
theorem exists_surroundings {above below body : List (List Char)} {timing first blank : List Char}
    (hheader : above.find? isInked = some first) (hopens : isHeader (trimFront first) = true)
    (hapart : above.getLast? = some blank) (hblank : isInked blank = false)
    (hbelow : below.takeWhile isInked = timing :: body) (hbody : body ≠ [])
    (hfeed : ∀ line ∈ below, '\n' ∉ line) :
    ∃ around : Surroundings, isHeader around.header = true ∧ around.timing = timing ∧
      around.body.map trimBack = body.map trimBack ∧
      (∀ line ∈ timing :: around.body, '\n' ∉ line) ∧
      ∀ name content, isInked name = true → IsLineOf above name below content →
        blocksOf content = around.blocks name := by
  obtain ⟨hfirst, gap, middle, rfl, hgap⟩ := exists_apart hheader hapart hblank
  obtain ⟨others, last, gap', rfl, hlast, hgap', hsame⟩ := exists_last hbelow hbody
  set rest := others ++ [trimBack last] with hrest
  have hrestFeed : ∀ line ∈ timing :: rest.takeWhile isInked, '\n' ∉ line := by
    simp only [List.forall_mem_cons, List.forall_mem_append] at hfeed
    obtain ⟨htiming, hothers, hlastFeed, -⟩ := hfeed
    refine List.forall_mem_cons.mpr ⟨htiming, fun line hline ↦ ?_⟩
    rcases List.mem_append.mp ((List.takeWhile_prefix isInked).mem hline) with hline | hline
    · exact hothers line hline
    · rw [List.mem_singleton.mp hline]
      exact fun h ↦ hlastFeed (mem_of_mem_trimBack h)
  have hfirst' : isInked (trimFront first) = true := (isInked_trimFront first).trans hfirst
  have htiming : isInked timing = true :=
    List.mem_takeWhile_imp (hbelow.symm ▸ List.mem_cons_self)
  refine ⟨⟨joinWith ['\n'] (trimFront first :: middle.takeWhile isInked),
    (paragraphs (middle.dropWhile isInked)).map (joinWith ['\n']), timing, rest.takeWhile isInked,
    (paragraphs (rest.dropWhile isInked)).map (joinWith ['\n'])⟩,
    (isHeader_joinWith _ _).trans hopens, rfl, hsame, hrestFeed, fun name content hname hcontent ↦ ?_⟩
  have hlines : linesOf (normalizeText content.toList) = gap ++ first ::
      ((middle ++ blank :: name :: timing :: others) ++ last :: gap') := by
    rw [show linesOf _ = _ from hcontent]
    simp
  have hjoin : middle ++ blank :: name :: timing :: others ++ [trimBack last]
      = middle ++ blank :: name :: timing :: rest := by simp [hrest]
  rw [blocksOf_lines hlines hgap hfirst hlast hgap', hjoin,
    paragraphs_named hfirst' hblank hname htiming, List.map_cons, List.map_append, List.map_cons]
  rfl

/-! ## Names of blocks -/

section

variable [Rounding]

/-- Blanks at the ends of lines do not matter for a cue. -/
theorem subtitleOf_congr {body body' : List (List Char)}
    (h : body'.map trimBack = body.map trimBack) (options : ReadOptions) (name : String)
    (range : TimeRange) :
    subtitleOf options name range body' = subtitleOf options name range body := by
  rw [subtitleOf, subtitleOf, bodyText, bodyText, h]

/-- A cue under another name is the same cue under that name. -/
theorem subtitleOf_called {options : ReadOptions} {name : String} {range : TimeRange}
    {body : List (List Char)} {subtitle : Subtitle}
    (h : subtitleOf options name range body = .ok subtitle) :
    subtitle.id = name ∧ ∀ other, subtitleOf options other range body = .ok (subtitle.called other) := by
  rw [subtitleOf] at h
  obtain ⟨start, hstart, h⟩ := bind_eq_ok.mp h
  obtain ⟨stop, hstop, h⟩ := bind_eq_ok.mp h
  obtain rfl := pure_eq_ok.mp h
  refine ⟨rfl, fun other ↦ ?_⟩
  rw [subtitleOf, hstart, hstop]
  rfl

/-- What a block with a name turns out to be, as far as its name goes. -/
theorem piece_named (options : ReadOptions) {name timing : List Char} {body : List (List Char)}
    (hname : occursIn "-->".toList name = false)
    (hfeed : ∀ line ∈ name :: timing :: body, '\n' ∉ line) :
    piece options (joinWith ['\n'] (name :: timing :: body)) =
      if isPassedOver name then .ok .nothing
      else (TimeRange.ofLine? timing).elim (.ok .malformed) fun range ↦
        (subtitleOf options (String.ofList (trim name)) range body).map (Piece.ofSubtitle options) := by
  rw [piece, isPassedOver_joinWith, linesOf, splitAll_joinWith (List.cons_ne_nil _ _) hfeed,
    takeName, hname, if_neg Bool.false_ne_true]
  dsimp only
  cases TimeRange.ofLine? timing <;> rfl

omit [Rounding] in
/-- A subtitle is kept as it is, unless it is dropped for having no text. -/
theorem ofSubtitle_eq_subtitle {options : ReadOptions} {subtitle found : Subtitle} :
    Piece.ofSubtitle options subtitle = .subtitle found ↔
      subtitle = found ∧ (subtitle.isBlank && !options.preserveEmpty) = false := by
  rw [Piece.ofSubtitle]
  split <;> simp_all

/-- **A block that is a cue under a name is the same cue under every name, or is passed over.** -/
theorem piece_called {options : ReadOptions} {name timing : List Char}
    {body : List (List Char)} {subtitle : Subtitle}
    (hname : occursIn "-->".toList name = false)
    (hfeed : ∀ line ∈ name :: timing :: body, '\n' ∉ line)
    (h : piece options (joinWith ['\n'] (name :: timing :: body)) = .ok (.subtitle subtitle)) :
    isPassedOver name = false ∧ subtitle.id = String.ofList (trim name) ∧
      ∀ other body', body'.map trimBack = body.map trimBack →
        occursIn "-->".toList other = false → (∀ line ∈ other :: timing :: body', '\n' ∉ line) →
        piece options (joinWith ['\n'] (other :: timing :: body')) =
          if isPassedOver other then .ok .nothing
          else .ok (.subtitle (subtitle.called (String.ofList (trim other)))) := by
  rw [piece_named options hname hfeed] at h
  split at h
  · cases h
  case isFalse hpassed =>
    cases hrange : TimeRange.ofLine? timing with
    | none =>
      rw [hrange] at h
      cases h
    | some range =>
      rw [hrange] at h
      obtain ⟨found, hfound, hkept⟩ := map_eq_ok.mp h
      obtain ⟨rfl, hvisible⟩ := ofSubtitle_eq_subtitle.mp hkept
      obtain ⟨hid, hcalled⟩ := subtitleOf_called hfound
      refine ⟨by simpa using hpassed, hid, fun other body' hbody hother hfeed' ↦ ?_⟩
      rw [piece_named options hother hfeed', hrange, Option.elim_some, subtitleOf_congr hbody, hcalled]
      refine ite_congr rfl (fun _ ↦ rfl) fun _ ↦ ?_
      exact congrArg Except.ok (ofSubtitle_eq_subtitle.mpr ⟨rfl, hvisible⟩)

/-! ## Documents -/

/-- Below a header there is a cue with a name and text. -/
structure HasCue (options : ReadOptions) (above : List (List Char)) (name : List Char)
    (below : List (List Char)) (content : String) : Prop where
  line : IsLineOf above name below content
  named : IsName name
  header : ∃ first, above.find? isInked = some first ∧ isHeader (trimFront first) = true
  apart : ∃ blank, above.getLast? = some blank ∧ isInked blank = false
  cue : ∃ timing body subtitle, below.takeWhile isInked = timing :: body ∧ body ≠ [] ∧
    piece options (joinWith ['\n'] (name :: timing :: body)) = .ok (.subtitle subtitle)

/-- The pieces of a document with a header are the same ones around the cue. -/
theorem exists_pieces {around : Surroundings} (hheader : isHeader around.header = true)
    (options : ReadOptions) : ∃ front back label, ∀ name content,
      blocksOf content = around.blocks name → pieces options content = front ++
        ⟨label, around.block name, piece options (around.block name)⟩ :: back := by
  refine ⟨cues options around.front, around.back.mapIdx fun place block ↦
      ⟨.vttCue (place + 1 + around.front.length + 1), block, piece options block⟩,
    .vttCue (0 + around.front.length + 1), fun name content hblocks ↦ ?_⟩
  rw [pieces, hblocks, Surroundings.blocks]
  dsimp only
  rw [if_pos hheader, cues, List.mapIdx_append, List.mapIdx_cons]
  rfl

/-- **The pieces of a document are the same ones around a cue whatever its name is**, and the cue is
the same one, or nothing. -/
theorem HasCue.exists_pieces {options : ReadOptions} {above below : List (List Char)}
    {name : List Char} {content : String} (has : HasCue options above name below content) :
    ∃ front back, ∃ subtitle : Subtitle,
      isPassedOver name = false ∧ subtitle.id = String.ofList (trim name) ∧
      ∀ other text, IsName other → IsLineOf above other below text → ∃ part,
        pieces options text = front ++ part :: back ∧
        part.piece = if isPassedOver other then .ok .nothing
          else .ok (.subtitle (subtitle.called (String.ofList (trim other)))) := by
  obtain ⟨first, hfirst, hopens⟩ := has.header
  obtain ⟨blank, hlast, hblank⟩ := has.apart
  obtain ⟨timing, body, subtitle, hbelow, hbody, hcue⟩ := has.cue
  have hlines {other : List Char} {text : String} (h : IsLineOf above other below text) :
      ∀ line ∈ other :: below, '\n' ∉ line :=
    fun line hline ↦ not_mem_of_mem_splitAll (h ▸ List.mem_append_right above hline)
  obtain ⟨around, hheader, rfl, hsame, hfeed, hblocks⟩ := exists_surroundings hfirst hopens hlast
    hblank hbelow hbody (List.forall_mem_cons.mp (hlines has.line)).2
  have hown : ∀ line ∈ name :: around.timing :: body, '\n' ∉ line := fun line hline ↦ by
    rw [← hbelow] at hline
    exact hlines has.line line (List.cons_subset_cons _ (List.takeWhile_prefix isInked).subset hline)
  obtain ⟨hpassed, hid, hcalled⟩ := piece_called has.named.noWindow hown hcue
  obtain ⟨front, back, label, hpieces⟩ := Vtt.exists_pieces hheader options
  refine ⟨front, back, subtitle, hpassed, hid, fun other text hother htext ↦
    ⟨_, hpieces other text (hblocks other text hother.inked htext), ?_⟩⟩
  exact hcalled other around.body hsame hother.noWindow
    (List.forall_mem_cons.mpr ⟨hlines htext other List.mem_cons_self, hfeed⟩)

theorem read_of_collect {options : ReadOptions} {content : String} {found : List Subtitle}
    {warnings : List Warning}
    (h : collect options.strict (pieces options content) = ⟨.ok found, warnings⟩) :
    read options content = ⟨.ok ((Subtitle.inOrder found).map withName), warnings⟩ := by
  rw [read, h]
  exact congrArg (Reported.mk _) (List.append_nil warnings)

omit [Rounding] in
theorem IsName.ofList_trim_ne_empty {name : List Char} (h : IsName name) :
    String.ofList (trim name) ≠ "" := by
  intro hempty
  have htrim : trim name = [] := by simpa using hempty
  have hinked := h.inked
  rw [← isInked_trimFront, ← isInked_trimBack, ← trim, htrim] at hinked
  cases hinked

omit [Rounding] in
theorem withName_called {id : String} (hid : id ≠ "") (subtitle : Subtitle) :
    withName (subtitle.called id) = subtitle.called id := by
  rw [withName, if_neg (by simpa [Subtitle.called] using hid)]

omit [Rounding] in
/-- The first line of a note, a style sheet or a region: the word for it, alone or with more behind a
blank. -/
def OpensNote (line : List Char) : Prop := ∃ word ∈ ["NOTE", "STYLE", "REGION"],
  line = word.toList ∨ ∃ c rest, isBlank c = true ∧ line = word.toList ++ c :: rest

omit [Rounding] in
theorem OpensNote.isPassedOver {line : List Char} (h : OpensNote line) : isPassedOver line = true := by
  obtain ⟨word, hword, h⟩ := h
  refine List.any_eq_true.mpr ⟨word, hword, List.isPrefixOf_iff_prefix.mpr ?_⟩
  rcases h with rfl | ⟨c, rest, -, rfl⟩
  · exact List.prefix_refl _
  · exact List.prefix_append _ _

end

/-! ## What is read -/

attribute [local instance] Rounding.binary64

/-- What a document falls into is malformed, or is what a block is. -/
theorem piece_of_mem_pieces {options : ReadOptions} {content : String} {part : LabelledPiece}
    (h : part ∈ pieces options content) :
    part.piece = .ok .malformed ∨ ∃ block, part.piece = piece options block := by
  have hcues {blocks : List (List Char)} (h : part ∈ cues options blocks) :
      ∃ block, part.piece = piece options block := by
    obtain ⟨place, hplace, rfl⟩ := List.mem_mapIdx.mp h
    exact ⟨_, rfl⟩
  rw [pieces] at h
  split at h
  · cases h
  split at h
  · exact .inr (hcues h)
  rcases List.mem_cons.mp h with rfl | h
  · exact .inl rfl
  · exact .inr (hcues h)

/-- Every cue that is found has a start. -/
theorem start_ne_undefined {options : ReadOptions} {content : String} {found : List Subtitle}
    (h : (collect options.strict (pieces options content)).result = .ok found) :
    ∀ subtitle ∈ found, subtitle.start ≠ .undefined := by
  intro subtitle hsubtitle
  obtain ⟨part, hpart, hpiece⟩ := mem_of_collect h subtitle hsubtitle
  rcases piece_of_mem_pieces hpart with hmalformed | ⟨block, hblock⟩
  · cases hmalformed.symm.trans hpiece
  · have timely := (settles options block).isTimely subtitle (hblock.symm.trans hpiece)
    exact Quantity.ne_undefined_of_isFinite timely.start.finite

/-- The name that a cue without one is given for its index. -/
def madeName (index : Int) : String := "vtt_" ++ toString index

/-- A cue one place further up: a name that was made for its index is made for the new one, and nothing
else is different. -/
structure IsRaised (before after : Subtitle) : Prop where
  kept : after = { before with index := before.index - 1, id := after.id }
  name : after.id = before.id ∨
    before.id = madeName before.index ∧ after.id = madeName after.index

theorem withName_isRaised (subtitle : Subtitle) :
    IsRaised (withName subtitle) (withName subtitle.raised) := by
  have hraised : subtitle.raised.id = subtitle.id := rfl
  rw [withName, withName, hraised]
  split
  · exact ⟨rfl, .inr ⟨rfl, rfl⟩⟩
  · exact ⟨rfl, .inl rfl⟩

/-- **What is read of a document is the same around a cue whatever its name is**, and without it the
cues behind it move up. -/
theorem HasCue.exists_readings {options : ReadOptions} {above below : List (List Char)}
    {old : List Char} {content : String} {subtitles : List Subtitle}
    (has : HasCue options above old below content)
    (hread : (read options content).result = .ok subtitles) :
    ∃ front entry back raised, subtitles = front ++ entry :: back ∧
      entry.id = String.ofList (trim old) ∧ List.Forall₂ IsRaised back raised ∧
      ∀ name renamed, IsName name → IsLineOf above name below renamed →
        read options renamed = ⟨.ok (if isPassedOver name then front ++ raised
          else front ++ entry.called (String.ofList (trim name)) :: back),
            (read options content).warnings⟩ := by
  obtain ⟨early, late, subtitle, hpassed, hid, hpieces⟩ := has.exists_pieces
  obtain ⟨found, hfound, -⟩ := Reported.bind_eq_ok.mp hread
  obtain ⟨part, hparts, hpart⟩ := hpieces old content has.named has.line
  rw [hpassed, if_neg Bool.false_ne_true] at hpart
  rw [hparts] at hfound
  obtain ⟨earlier, later, warnings, hkept, hdropped⟩ := exists_collect hpart hfound
  obtain ⟨front, back, index, hplaced, hwithout⟩ :=
    Subtitle.exists_inOrder_called earlier later subtitle
  have hself : subtitle.called (String.ofList (trim old)) = subtitle := by
    rw [← hid]
    rfl
  have hfound := hkept part subtitle (hself ▸ hpart)
  have hdefined := start_ne_undefined (congrArg Reported.result (hparts ▸ hfound))
  have hreads {name : List Char} {text : String} (hname : IsName name)
      (htext : IsLineOf above name below text) : read options text = ⟨.ok (
        if isPassedOver name then front.map withName ++ (back.map Subtitle.raised).map withName
        else front.map withName ++ (subtitle.indexed index).called (String.ofList (trim name))
          :: back.map withName), warnings⟩ := by
    obtain ⟨part, hparts, hpart⟩ := hpieces name text hname htext
    split at hpart
    case isTrue hpass =>
      rw [if_pos hpass, read_of_collect (hparts ▸ hdropped part hpart), hwithout hdefined,
        List.map_append]
    case isFalse hpass =>
      rw [if_neg hpass, read_of_collect (hparts ▸ hkept part _ hpart), hplaced, List.map_append,
        List.map_cons, withName_called hname.ofList_trim_ne_empty]
  have hcontent := hreads has.named has.line
  rw [hpassed, if_neg Bool.false_ne_true] at hcontent
  rw [hcontent] at hread ⊢
  refine ⟨_, _, _, _, (Except.ok.inj hread).symm, rfl, ?_, fun name renamed ↦ hreads⟩
  rw [List.map_map, List.forall₂_map_left_iff, List.forall₂_map_right_iff, List.forall₂_same]
  exact fun subtitle _ ↦ withName_isRaised subtitle

/-- **A cue under another name is the same cue**, unless that name begins with a word for what is passed
over.  Under the first line of a note the cue is left out: the cues in front of it stay as they are, and
those behind it move up one place, under the names that they were given. -/
theorem cue_renamed {options : ReadOptions} {above below : List (List Char)} {old : List Char}
    {content : String} {subtitles : List Subtitle} (has : HasCue options above old below content)
    (hread : (read options content).result = .ok subtitles) :
    ∃ front entry back raised, subtitles = front ++ entry :: back ∧
      entry.id = String.ofList (trim old) ∧ List.Forall₂ IsRaised back raised ∧
      ∀ name renamed, IsName name → IsLineOf above name below renamed →
        (isPassedOver name = false → read options renamed =
          ⟨.ok (front ++ entry.called (String.ofList (trim name)) :: back),
            (read options content).warnings⟩) ∧
        (OpensNote name → read options renamed =
          ⟨.ok (front ++ raised), (read options content).warnings⟩) := by
  obtain ⟨front, entry, back, raised, hsubtitles, hid, hraised, hreads⟩ := has.exists_readings hread
  refine ⟨front, entry, back, raised, hsubtitles, hid, hraised, fun name renamed hname hrenamed ↦
    ⟨fun hpass ↦ ?_, fun hopens ↦ ?_⟩⟩
  · rw [hreads name renamed hname hrenamed, hpass, if_neg Bool.false_ne_true]
  · rw [hreads name renamed hname hrenamed, hopens.isPassedOver, if_pos rfl]

/-! ## A cue called like a note -/

/-- Two cues, of which the first one has a name. -/
def twoCues (name : String) : String :=
  "WEBVTT\n\n" ++ name ++ "\n00:00:01.000 --> 00:00:02.000\nHi\n\n00:00:03.000 --> 00:00:04.000\nBye"

/-- The lines below the name. -/
def belowName : List (List Char) :=
  ["00:00:01.000 --> 00:00:02.000".toList, "Hi".toList, [], "00:00:03.000 --> 00:00:04.000".toList,
    "Bye".toList]

theorem isLineOf_twoCues : ∀ name ∈ ["intro", "note", "NOTE", "NOTE to all"],
    IsLineOf ["WEBVTT".toList, []] name.toList belowName (twoCues name) := by
  decide +kernel

theorem hasCue_twoCues :
    HasCue { strict := true } ["WEBVTT".toList, []] "intro".toList belowName (twoCues "intro") := by
  have hcue : ((piece { strict := true } (joinWith ['\n'] ["intro".toList,
      "00:00:01.000 --> 00:00:02.000".toList, "Hi".toList])).toOption.bind
        Piece.subtitle?).isSome = true := by
    decide +kernel
  obtain ⟨subtitle, hsubtitle⟩ := Option.isSome_iff_exists.mp hcue
  obtain ⟨cue, hpiece, hcue⟩ := Option.bind_eq_some_iff.mp hsubtitle
  rw [Piece.eq_of_subtitle? hcue] at hpiece
  exact ⟨isLineOf_twoCues "intro" (by decide), ⟨by decide, by decide⟩, ⟨_, rfl, by decide⟩,
    ⟨_, rfl, by decide⟩, _, _, subtitle, rfl, List.cons_ne_nil _ _, toOption_eq_some.mp hpiece⟩

/-- The names and starts of the cues that are found. -/
def rowsOf (name : String) : List (String × Quantity) :=
  if name = "intro" then [("intro", .finite 1), ("", .finite 3)] else [("", .finite 3)]

theorem collect_twoCues : ∀ name ∈ ["intro", "NOTE", "NOTE to all"],
    (collect true (pieces { strict := true } (twoCues name))).result.toOption.map
        (List.map fun cue ↦ (cue.id, cue.start)) = some (rowsOf name) ∧
      (collect true (pieces { strict := true } (twoCues name))).warnings = [] ∧
      (∀ x ∈ (rowsOf name).map Prod.snd, x ≠ .undefined) ∧
      ((rowsOf name).map Prod.snd).Pairwise fun x y ↦ x.le y = true := by
  decide +kernel

/-- Where cues rise, those without a name are named by their places. -/
theorem map_id_of_isRising {found : List Subtitle} (rising : Subtitle.IsRising found) :
    ((Subtitle.inOrder found).map withName).map Subtitle.id =
      (found.map Subtitle.id).mapIdx fun place id ↦
        if id.isEmpty then madeName (place + 1) else id := by
  rw [Subtitle.inOrder, Subtitle.sorted_of_isRising rising]
  refine List.ext_getElem (by simp [Subtitle.numbered]) fun place hplace hplace' ↦ ?_
  simp only [Subtitle.numbered, List.getElem_map, List.getElem_mapIdx, withName]
  split <;> rfl

theorem exists_read_twoCues (name : String) (hname : name ∈ ["intro", "NOTE", "NOTE to all"]) :
    ∃ subtitles, read { strict := true } (twoCues name) = ⟨.ok subtitles, []⟩ ∧
      subtitles.map Subtitle.id = ((rowsOf name).map Prod.fst).mapIdx fun place id ↦
        if id.isEmpty then madeName (place + 1) else id := by
  obtain ⟨hfound, hsilent, hrising⟩ := collect_twoCues name hname
  obtain ⟨found, hok, hrows⟩ := Option.map_eq_some_iff.mp hfound
  have hread := read_of_collect (show collect (ReadOptions.strict { strict := true })
      (pieces { strict := true } (twoCues name)) = ⟨.ok found, []⟩ by
    rw [← toOption_eq_some.mp hok, ← hsilent])
  rw [← hrows, List.map_map] at hrising ⊢
  exact ⟨_, hread, map_id_of_isRising (Subtitle.isRising_iff.mpr hrising)⟩

/-- A strict reader finds the same cues under a small word.  If the name opens a note, the first cue is
left out, and the second one, which has no name of its own, is named by its new place. -/
theorem intro_renamed : ∃ subtitles,
    HasCue { strict := true } ["WEBVTT".toList, []] "intro".toList belowName (twoCues "intro") ∧
      (read { strict := true } (twoCues "intro")).result = .ok subtitles ∧
      subtitles.map Subtitle.id = ["intro", "vtt_2"] ∧
      ∃ front entry back raised, subtitles = front ++ entry :: back ∧ entry.id = "intro" ∧
        read { strict := true } (twoCues "note") =
          ⟨.ok (front ++ entry.called "note" :: back), []⟩ ∧
        List.Forall₂ IsRaised back raised ∧
        read { strict := true } (twoCues "NOTE to all") = ⟨.ok (front ++ raised), []⟩ ∧
        (front ++ raised).map Subtitle.id = ["vtt_1"] := by
  obtain ⟨subtitles, hread, hids⟩ := exists_read_twoCues "intro" (by decide)
  obtain ⟨front, entry, back, raised, hsubtitles, hid, hraised, hreads⟩ :=
    cue_renamed hasCue_twoCues (congrArg Reported.result hread)
  rw [hread] at hreads
  have hkept := (hreads "note".toList (twoCues "note") ⟨by decide, by decide⟩
    (isLineOf_twoCues "note" (by decide))).1 (by decide)
  have hdropped := (hreads "NOTE to all".toList (twoCues "NOTE to all") ⟨by decide, by decide⟩
    (isLineOf_twoCues "NOTE to all" (by decide))).2
      ⟨"NOTE", List.mem_cons_self, .inr ⟨' ', "to all".toList, by decide, rfl⟩⟩
  obtain ⟨others, hothers, hname⟩ := exists_read_twoCues "NOTE to all" (by decide)
  obtain rfl := Except.ok.inj (congrArg Reported.result (hothers.symm.trans hdropped))
  exact ⟨subtitles, hasCue_twoCues, congrArg Reported.result hread, hids, front, entry, back, raised,
    hsubtitles, hid, hkept, hraised, hdropped, hname⟩

/-- A cue cannot have the word for notes as its name: a strict reader leaves it out. -/
theorem note_leftOut :
    HasCue { strict := true } ["WEBVTT".toList, []] "intro".toList belowName (twoCues "intro") ∧
      IsName "NOTE".toList ∧ trim "NOTE".toList = "NOTE".toList ∧
      IsLineOf ["WEBVTT".toList, []] "NOTE".toList belowName (twoCues "NOTE") ∧
      ∃ subtitles, (read { strict := true } (twoCues "intro")).result = .ok subtitles ∧
        ∀ front entry back warnings, subtitles = front ++ entry :: back →
          read { strict := true } (twoCues "NOTE") ≠
            ⟨.ok (front ++ entry.called "NOTE" :: back), warnings⟩ := by
  obtain ⟨subtitles, hread, hids⟩ := exists_read_twoCues "intro" (by decide)
  obtain ⟨others, hothers, hname⟩ := exists_read_twoCues "NOTE" (by decide)
  refine ⟨hasCue_twoCues, ⟨by decide, by decide⟩, by decide, isLineOf_twoCues "NOTE" (by decide),
    subtitles, congrArg Reported.result hread, fun front entry back warnings hsubtitles heq ↦ ?_⟩
  obtain rfl := Except.ok.inj (congrArg Reported.result (hothers.symm.trans heq))
  have hlength := congrArg List.length (show _ = ["intro", "vtt_2"] from hids)
  have hfewer := congrArg List.length (show _ = ["vtt_1"] from hname)
  rw [hsubtitles] at hlength
  simp only [List.length_map, List.length_append, List.length_cons, List.length_nil]
    at hlength hfewer
  omega

end Vtt
end Montage
