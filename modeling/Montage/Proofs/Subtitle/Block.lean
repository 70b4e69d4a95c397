import Mathlib.Data.List.TakeWhile
import Montage.Proofs.Outcome
import Montage.Proofs.Text.Lines
import Montage.Subtitle.Piece

/-!
# Blocks of a document

A document that is put together from blocks with an empty line behind each falls into the same
blocks, as long as no line of a block is blank: then the gaps between the blocks are the only line
feeds with nothing but blanks up to a further one.  That is the invariant of the reader, line by line
inside a block (`IsGapless.blocksFrom_append`) and block by block in the document
(`blocksOf_document`).  Blanks at the end of the last block go; where every line ends solid there are
none.

Conversely no line of a block that is read from a document is blank (`isGapless_of_mem_blocksOf`).
-/

set_option autoImplicit false

namespace Montage

/-- No line of the text is blank. -/
def IsGapless (s : List Char) : Prop := ∀ line ∈ linesOf s, line.all isBlank = false

instance (s : List Char) : Decidable (IsGapless s) :=
  inferInstanceAs (Decidable (∀ line ∈ linesOf s, line.all isBlank = false))

/-- Every line of the text ends solid. -/
def IsSolid (s : List Char) : Prop := ∀ line ∈ linesOf s, EndsSolid line

theorem endsSolid_joinWith (sep : List Char) {parts : List (List Char)} (hne : parts ≠ [])
    (h : ∀ part ∈ parts, EndsSolid part) : EndsSolid (joinWith sep parts) := by
  induction parts with
  | nil => exact absurd rfl hne
  | cons part parts ih =>
    cases parts with
    | nil => exact h part List.mem_cons_self
    | cons next parts =>
      rw [joinWith_cons_cons]
      exact (ih (by simp) fun p hp ↦ h p (List.mem_cons_of_mem _ hp)).append _

theorem IsSolid.endsSolid {s : List Char} (h : IsSolid s) : EndsSolid s := by
  rw [← joinWith_splitAll '\n' s]
  exact endsSolid_joinWith _ (splitAll_ne_nil '\n' s) h

theorem IsSolid.isGapless {s : List Char} (h : IsSolid s) : IsGapless s :=
  fun line hline ↦ (h line hline).all_isBlank

/-! ## Gaps -/

/-- A gap ends with the last line feed among the blanks in front. -/
theorem exists_gap (s : List Char) : ∃ gap rest, s = gap ++ rest ∧ gap.length = gapLength s ∧
    (∀ c ∈ gap, isBlank c = true) ∧ '\n' ∉ rest.takeWhile isBlank := by
  set blanks := s.takeWhile isBlank with hblanks
  set gap := (blanks.reverse.dropWhile (· ≠ '\n')).reverse with hgap
  set left := (blanks.reverse.takeWhile (· ≠ '\n')).reverse with hleft
  have hsplit : blanks = gap ++ left := by
    rw [hgap, hleft, ← List.reverse_append, List.takeWhile_append_dropWhile, List.reverse_reverse]
  have hall : ∀ c ∈ gap ++ left, isBlank c = true :=
    fun c hc ↦ List.mem_takeWhile_imp (hblanks ▸ hsplit ▸ hc)
  rw [List.forall_mem_append] at hall
  refine ⟨gap, left ++ s.dropWhile isBlank, ?_, ?_, hall.1, ?_⟩
  · rw [← List.append_assoc, ← hsplit, hblanks, List.takeWhile_append_dropWhile]
  · rw [hgap, List.length_reverse, gapLength]
  · have hend : (s.dropWhile isBlank).takeWhile isBlank = [] := by
      have hhead := List.head?_dropWhile_not isBlank s
      cases hrest : s.dropWhile isBlank with
      | nil => rfl
      | cons c rest =>
        rw [hrest] at hhead
        exact List.takeWhile_cons_of_neg (by simpa using hhead)
    rw [List.takeWhile_append_of_pos hall.2, hend, List.append_nil, hleft, List.mem_reverse]
    intro hmem
    simpa using List.mem_takeWhile_imp hmem

theorem gapLength_eq_zero {s : List Char} : gapLength s = 0 ↔ '\n' ∉ s.takeWhile isBlank := by
  rw [gapLength, List.length_eq_zero_iff, List.dropWhile_eq_nil_iff]
  constructor
  · intro h hmem
    simpa using h '\n' (List.mem_reverse.mpr hmem)
  · intro h c hc
    rw [decide_eq_true_iff]
    rintro rfl
    exact h (List.mem_reverse.mp hc)

/-- There is no gap in front of a line that is not blank. -/
theorem gapLength_line {line : List Char} (hline : '\n' ∉ line) (hsolid : line.all isBlank = false)
    (rest : List Char) : gapLength (line ++ rest) = 0 := by
  have htake : (line ++ rest).takeWhile isBlank = line.takeWhile isBlank := by
    rw [List.takeWhile_append, if_neg]
    intro hlength
    have hall := (List.takeWhile_prefix isBlank (l := line)).eq_of_length hlength
    rw [List.takeWhile_eq_self_iff, ← List.all_eq_true, hsolid] at hall
    cases hall
  rw [gapLength_eq_zero, htake]
  exact fun hmem ↦ hline ((List.takeWhile_prefix isBlank).mem hmem)

theorem gapLength_emptyLine {c : Char} (hc : isBlank c = false) (rest : List Char) :
    gapLength ('\n' :: c :: rest) = 1 := by
  have hfeed : isBlank '\n' = true := by decide
  rw [gapLength, List.takeWhile_cons_of_pos hfeed, List.takeWhile_cons_of_neg (by simp [hc])]
  rfl

/-! ## Reading blocks -/

theorem blocksFrom_cons {c : Char} (hc : c ≠ '\n') {s block : List Char}
    {blocks : List (List Char)} (h : blocksFrom 0 s = block :: blocks) :
    blocksFrom 0 (c :: s) = (c :: block) :: blocks := by
  rw [blocksFrom, if_neg hc, if_neg (Nat.lt_irrefl 0), h]

theorem blocksFrom_lineFeed {s block : List Char} {blocks : List (List Char)}
    (hgap : gapLength s = 0) (h : blocksFrom 0 s = block :: blocks) :
    blocksFrom 0 ('\n' :: s) = ('\n' :: block) :: blocks := by
  rw [blocksFrom, if_pos rfl, hgap, if_neg (Nat.lt_irrefl 0), h]

/-- An empty line ends a block. -/
theorem blocksFrom_emptyLine {c : Char} (hc : isBlank c = false) (s : List Char) :
    blocksFrom 0 ('\n' :: '\n' :: c :: s) = [] :: blocksFrom 0 (c :: s) := by
  rw [blocksFrom, if_pos rfl, gapLength_emptyLine hc, if_pos Nat.one_pos, blocksFrom]

theorem blocksFrom_line {line : List Char} (hline : '\n' ∉ line) {s block : List Char}
    {blocks : List (List Char)} (h : blocksFrom 0 s = block :: blocks) :
    blocksFrom 0 (line ++ s) = (line ++ block) :: blocks := by
  induction line with
  | nil => exact h
  | cons c line ih =>
    rw [List.mem_cons, not_or] at hline
    exact blocksFrom_cons (Ne.symm hline.1) (ih hline.2)

/-- **A block without a blank line is read as a whole.** -/
theorem IsGapless.blocksFrom_append {block : List Char} (gapless : IsGapless block) {rest : List Char}
    {blocks : List (List Char)} (h : blocksFrom 0 rest = [] :: blocks) :
    blocksFrom 0 (block ++ rest) = block :: blocks := by
  have hlines : ∀ line ∈ linesOf block, '\n' ∉ line ∧ line.all isBlank = false :=
    fun line hline ↦ ⟨not_mem_of_mem_splitAll hline, gapless line hline⟩
  have hne := splitAll_ne_nil '\n' block
  rw [← joinWith_splitAll '\n' block, ← linesOf]
  rw [← linesOf] at hne
  generalize linesOf block = lines at hlines hne
  induction lines with
  | nil => exact absurd rfl hne
  | cons line lines ih =>
    rw [List.forall_mem_cons] at hlines
    obtain ⟨⟨hline, -⟩, hlines⟩ := hlines
    cases lines with
    | nil =>
      rw [joinWith, blocksFrom_line hline h, List.append_nil]
    | cons next lines =>
      obtain ⟨tail, htail⟩ : ∃ tail, joinWith ['\n'] (next :: lines) ++ rest = next ++ tail := by
        cases lines with
        | nil => exact ⟨rest, rfl⟩
        | cons third lines =>
          rw [joinWith_cons_cons, List.append_assoc, List.append_assoc]
          exact ⟨_, rfl⟩
      have hgap : gapLength (joinWith ['\n'] (next :: lines) ++ rest) = 0 := by
        obtain ⟨hnext, hsolid⟩ := hlines next List.mem_cons_self
        rw [htail]
        exact gapLength_line hnext hsolid tail
      rw [joinWith_cons_cons, List.append_assoc, List.append_assoc,
        List.singleton_append,
        blocksFrom_line hline (blocksFrom_lineFeed hgap (ih hlines (by simp))), List.append_assoc,
        List.singleton_append]

/-! ## Blanks at the end -/

/-- The texts, with blanks dropped at the end of the last one. -/
def trimLast : List (List Char) → List (List Char)
  | [] => []
  | [part] => [trimBack part]
  | part :: parts => part :: trimLast parts

theorem trimLast_ne_nil {parts : List (List Char)} (hne : parts ≠ []) : trimLast parts ≠ [] := by
  cases parts with
  | nil => exact absurd rfl hne
  | cons part parts => cases parts <;> exact List.cons_ne_nil _ _

theorem trimLast_cons {parts : List (List Char)} (hne : parts ≠ []) (part : List Char) :
    trimLast (part :: parts) = part :: trimLast parts := by
  obtain ⟨next, parts, rfl⟩ := List.exists_cons_of_ne_nil hne
  rfl

/-- What is said of all texts, and of their trimmed forms, is said of the texts with the last one
trimmed. -/
theorem forall_mem_trimLast {P : List Char → Prop} {parts : List (List Char)}
    (h : ∀ part ∈ parts, P part) (htrim : ∀ part ∈ parts, P (trimBack part)) :
    ∀ part ∈ trimLast parts, P part := by
  induction parts with
  | nil => exact List.forall_mem_nil _
  | cons part parts ih =>
    rw [List.forall_mem_cons] at h htrim
    by_cases hnil : parts = []
    · rw [hnil]
      exact List.forall_mem_singleton.mpr htrim.1
    · rw [trimLast_cons hnil, List.forall_mem_cons]
      exact ⟨h.1, ih h.2 htrim.2⟩

/-- What does not look at blanks at the end takes the texts for the same. -/
theorem map_trimLast {β : Type} {f : List Char → β} {parts : List (List Char)}
    (h : ∀ part ∈ parts, f (trimBack part) = f part) : (trimLast parts).map f = parts.map f := by
  induction parts with
  | nil => rfl
  | cons part parts ih =>
    rw [List.forall_mem_cons] at h
    by_cases hnil : parts = []
    · rw [hnil]
      exact congrArg (fun b ↦ [b]) h.1
    · rw [trimLast_cons hnil, List.map_cons, List.map_cons, ih h.2]

/-- Trimming texts that are joined trims the last one. -/
theorem trimBack_joinWith (sep : List Char) {parts : List (List Char)}
    (h : ∀ part ∈ parts, part.all isBlank = false) :
    trimBack (joinWith sep parts) = joinWith sep (trimLast parts) ∧
      (parts ≠ [] → (joinWith sep parts).all isBlank = false) := by
  induction parts with
  | nil => exact ⟨rfl, absurd rfl⟩
  | cons part parts ih =>
    rw [List.forall_mem_cons] at h
    cases parts with
    | nil => exact ⟨rfl, fun _ ↦ h.1⟩
    | cons next parts =>
      obtain ⟨htrim, hsolid⟩ := ih h.2
      have hsolid := hsolid (List.cons_ne_nil _ _)
      refine ⟨?_, fun _ ↦ ?_⟩
      · obtain ⟨first, rest, htrimmed⟩ := List.exists_cons_of_ne_nil
          (trimLast_ne_nil (List.cons_ne_nil next parts))
        rw [joinWith_cons_cons, trimBack_append hsolid, htrim, trimLast_cons (List.cons_ne_nil _ _),
          htrimmed, joinWith_cons_cons]
      · rw [joinWith_cons_cons, List.all_append, hsolid, Bool.and_false]

theorem IsGapless.all_isBlank {s : List Char} (gapless : IsGapless s) : s.all isBlank = false := by
  have hjoin := (trimBack_joinWith ['\n'] gapless).2 (splitAll_ne_nil '\n' s)
  rwa [linesOf, joinWith_splitAll] at hjoin

/-- The lines of a text without blanks at its end. -/
theorem IsGapless.linesOf_trimBack {s : List Char} (gapless : IsGapless s) :
    linesOf (trimBack s) = trimLast (linesOf s) := by
  have hfeed : ∀ line ∈ trimLast (linesOf s), '\n' ∉ line :=
    forall_mem_trimLast (fun line hline ↦ not_mem_of_mem_splitAll hline)
      fun line hline hmem ↦ not_mem_of_mem_splitAll hline (mem_of_mem_trimBack hmem)
  conv_lhs => rw [← joinWith_splitAll '\n' s, ← linesOf, (trimBack_joinWith _ gapless).1]
  exact splitAll_joinWith (trimLast_ne_nil (splitAll_ne_nil _ _)) hfeed

theorem IsGapless.trimBack {s : List Char} (gapless : IsGapless s) : IsGapless (trimBack s) := by
  rw [IsGapless, gapless.linesOf_trimBack]
  refine forall_mem_trimLast gapless fun line hline ↦ ?_
  rw [all_isBlank_trimBack]
  exact gapless line hline

/-! ## Documents -/

/-- A block that a document can hold, with blanks at the ends of its lines or not: its first character
is not blank, and neither is one of its lines. -/
structure IsLooseBlock (block : List Char) : Prop where
  opens : ∀ c ∈ block.head?, isBlank c = false
  gapless : IsGapless block

/-- A block that can stand in a document: its first character is not blank, and all its lines end
solid. -/
structure IsBlock (block : List Char) : Prop where
  opens : ∀ c ∈ block.head?, isBlank c = false
  solid : IsSolid block

theorem IsBlock.isLoose {block : List Char} (h : IsBlock block) : IsLooseBlock block :=
  ⟨h.opens, h.solid.isGapless⟩

/-- Blocks with an empty line behind each. -/
def documentOf (blocks : List (List Char)) : List Char := blocks.flatMap (· ++ ['\n', '\n'])

theorem documentOf_cons (block : List Char) (blocks : List (List Char)) :
    documentOf (block :: blocks) = block ++ ['\n', '\n'] ++ documentOf blocks := rfl

theorem documentOf_eq {blocks : List (List Char)} (hne : blocks ≠ []) :
    documentOf blocks = joinWith ['\n', '\n'] blocks ++ ['\n', '\n'] := by
  induction blocks with
  | nil => exact absurd rfl hne
  | cons block blocks ih =>
    rw [documentOf_cons]
    cases blocks with
    | nil => rw [documentOf, List.flatMap_nil, List.append_nil, joinWith]
    | cons next blocks =>
      have := ih (List.cons_ne_nil _ _)
      rw [this, joinWith_cons_cons, ← List.append_assoc]

/-- A block has a first character, and it is not blank. -/
theorem IsLooseBlock.exists_cons {block : List Char} (h : IsLooseBlock block) :
    ∃ c rest, block = c :: rest ∧ isBlank c = false := by
  cases block with
  | nil => cases h.gapless [] List.mem_cons_self
  | cons c rest => exact ⟨c, rest, rfl, h.opens c rfl⟩

theorem IsLooseBlock.all_isBlank {block : List Char} (h : IsLooseBlock block) :
    block.all isBlank = false := by
  obtain ⟨c, rest, rfl, hc⟩ := h.exists_cons
  exact List.all_eq_false.mpr ⟨c, List.mem_cons_self, by simp [hc]⟩

theorem IsLooseBlock.trimBack {block : List Char} (h : IsLooseBlock block) :
    IsLooseBlock (trimBack block) := by
  refine ⟨fun c hc ↦ h.opens c ?_, h.gapless.trimBack⟩
  obtain ⟨blanks, -, hblock⟩ := exists_trimBack_append block
  rw [hblock, List.head?_append, Option.mem_def.mp hc]
  rfl

/-- Blocks with empty lines between them open with what the first one opens with. -/
theorem joinWith_eq_cons {blocks : List (List Char)} (hne : blocks ≠ [])
    (h : ∀ block ∈ blocks, IsLooseBlock block) :
    ∃ c rest, joinWith ['\n', '\n'] blocks = c :: rest ∧ isBlank c = false := by
  obtain ⟨block, blocks, rfl⟩ := List.exists_cons_of_ne_nil hne
  obtain ⟨c, rest, rfl, hc⟩ := (h block List.mem_cons_self).exists_cons
  cases blocks with
  | nil => exact ⟨c, rest, rfl, hc⟩
  | cons next blocks => exact ⟨c, _, rfl, hc⟩

theorem blocksFrom_joinWith {blocks : List (List Char)} (hne : blocks ≠ [])
    (h : ∀ block ∈ blocks, IsLooseBlock block) :
    blocksFrom 0 (joinWith ['\n', '\n'] blocks) = blocks := by
  induction blocks with
  | nil => exact absurd rfl hne
  | cons block blocks ih =>
    rw [List.forall_mem_cons] at h
    cases blocks with
    | nil =>
      have := h.1.gapless.blocksFrom_append (show blocksFrom 0 [] = [[]] from rfl)
      rwa [List.append_nil] at this
    | cons next blocks =>
      obtain ⟨c, rest, hopen, hc⟩ := joinWith_eq_cons (by simp) h.2
      have hrest := blocksFrom_emptyLine hc rest
      rw [← hopen, ih (by simp) h.2] at hrest
      rw [joinWith_cons_cons, List.append_assoc]
      exact h.1.gapless.blocksFrom_append hrest

/-- **A document falls into the blocks that it was put together from**, but for blanks at its end. -/
theorem blocksOf_looseDocument {content : String} {blocks : List (List Char)}
    (h : ∀ block ∈ blocks, IsLooseBlock block)
    (hcontent : normalizeText content.toList = documentOf blocks) :
    blocksOf content = trimLast blocks := by
  by_cases hne : blocks = []
  · rw [blocksOf, hcontent, hne]
    rfl
  · obtain ⟨c, rest, hopen, hc⟩ := joinWith_eq_cons hne h
    have hloose := forall_mem_trimLast h fun block hblock ↦ (h block hblock).trimBack
    have htrim : trim (documentOf blocks) = joinWith ['\n', '\n'] (trimLast blocks) := by
      rw [trim, documentOf_eq hne, hopen, List.cons_append, trimFront_cons hc, ← List.cons_append,
        ← hopen, trimBack_append_blank (by decide)]
      exact (trimBack_joinWith _ fun block hblock ↦ (h block hblock).all_isBlank).1
    obtain ⟨d, more, hfirst, -⟩ := joinWith_eq_cons (trimLast_ne_nil hne) hloose
    rw [blocksOf, hcontent, htrim]
    split
    · rename_i heq
      rw [hfirst] at heq
      cases heq
    · exact blocksFrom_joinWith (trimLast_ne_nil hne) hloose

/-- **A document of blocks whose lines all end solid falls into these blocks.** -/
theorem blocksOf_document {content : String} {blocks : List (List Char)}
    (h : ∀ block ∈ blocks, IsBlock block)
    (hcontent : normalizeText content.toList = documentOf blocks) : blocksOf content = blocks := by
  have hsame := map_trimLast (f := id) fun block hblock ↦ (h block hblock).solid.endsSolid.trimBack_eq
  rw [List.map_id, List.map_id] at hsame
  rw [blocksOf_looseDocument (fun block hblock ↦ (h block hblock).isLoose) hcontent, hsame]

/-! ## Blocks that are read -/

theorem blocksFrom_eq_drop (skip : Nat) (s : List Char) :
    blocksFrom skip s = blocksFrom 0 (s.drop skip) := by
  induction s generalizing skip with
  | nil => rw [List.drop_nil, blocksFrom, blocksFrom]
  | cons c s ih =>
    cases skip with
    | zero => rfl
    | succ skip => rw [blocksFrom, ih, List.drop_succ_cons]

/-- A text in which only the first line may be blank, and is not if no line feed stands among the
blanks in front of `s`. -/
def OpensLike (s block : List Char) : Prop :=
  ∃ first rest, linesOf block = first :: rest ∧
    ('\n' ∉ s.takeWhile isBlank → first.all isBlank = false) ∧
    ∀ line ∈ rest, line.all isBlank = false

theorem OpensLike.isGapless {s block : List Char} (h : OpensLike s block)
    (hs : '\n' ∉ s.takeWhile isBlank) : IsGapless block := by
  obtain ⟨first, rest, hlines, hfirst, hrest⟩ := h
  rw [IsGapless, hlines, List.forall_mem_cons]
  exact ⟨hfirst hs, hrest⟩

theorem OpensLike.single {c : Char} (hc : isBlank c = false) : OpensLike [c] [c] := by
  have hline : linesOf [c] = [[c]] := by
    refine splitAll_of_not_mem ?_
    rw [List.mem_singleton]
    rintro rfl
    cases hc
  refine ⟨[c], [], hline, fun _ ↦ ?_, List.forall_mem_nil _⟩
  rw [List.all_cons, hc, Bool.false_and]

theorem mem_takeWhile_lineFeed (s : List Char) : '\n' ∈ ('\n' :: s).takeWhile isBlank := by
  rw [List.takeWhile_cons_of_pos (by decide)]
  exact List.mem_cons_self

theorem OpensLike.nil (s : List Char) : OpensLike ('\n' :: s) [] :=
  ⟨[], [], rfl, fun hmem ↦ absurd (mem_takeWhile_lineFeed s) hmem, List.forall_mem_nil _⟩

theorem OpensLike.lineFeed {s block : List Char} (h : IsGapless block) :
    OpensLike ('\n' :: s) ('\n' :: block) :=
  ⟨[], linesOf block, splitAll_cons_sep block, fun hmem ↦ absurd (mem_takeWhile_lineFeed s) hmem, h⟩

theorem OpensLike.cons {c : Char} (hc : c ≠ '\n') {s block : List Char} (h : OpensLike s block) :
    OpensLike (c :: s) (c :: block) := by
  obtain ⟨first, rest, hlines, hfirst, hrest⟩ := h
  refine ⟨c :: first, rest, splitAll_cons hc hlines, fun hmem ↦ ?_, hrest⟩
  rw [List.all_cons]
  cases hblank : isBlank c with
  | false => rfl
  | true =>
    rw [List.takeWhile_cons_of_pos hblank, List.mem_cons, not_or] at hmem
    rw [hfirst hmem.2, Bool.and_false]

/-- The blocks of a text that ends solid have no blank line; but what stands in front of the text may
be in the same line as its beginning. -/
theorem exists_blocksFrom {s : List Char} (solid : EndsSolid s) : ∃ block blocks,
    blocksFrom 0 s = block :: blocks ∧ OpensLike s block ∧ ∀ block ∈ blocks, IsGapless block := by
  induction hlength : s.length using Nat.strong_induction_on generalizing s with
  | _ n ih =>
    subst hlength
    cases s with
    | nil => cases solid.all_isBlank
    | cons c s =>
      by_cases hnil : s = []
      · have hc : isBlank c = false := by simpa [hnil] using solid.all_isBlank
        have hfeed : c ≠ '\n' := by
          rintro rfl
          cases hc
        rw [hnil]
        exact ⟨[c], [], blocksFrom_cons hfeed rfl, .single hc, List.forall_mem_nil _⟩
      have hends : EndsSolid s := EndsSolid.of_append (s := [c]) solid hnil
      by_cases hc : c = '\n'
      · subst hc
        obtain ⟨gap, rest, rfl, hlength, hblank, hrest⟩ := exists_gap s
        obtain hzero | hpos := Nat.eq_zero_or_pos (gapLength (gap ++ rest))
        · obtain ⟨block, blocks, hblocks, hopens, hgapless⟩ := ih _ (by simp) hends rfl
          refine ⟨'\n' :: block, blocks, blocksFrom_lineFeed hzero hblocks, ?_, hgapless⟩
          exact .lineFeed (hopens.isGapless (gapLength_eq_zero.mp hzero))
        · have hne : rest ≠ [] := by
            rintro rfl
            rw [List.append_nil] at hends
            have hsolid := hends.all_isBlank
            rw [List.all_eq_true.mpr hblank] at hsolid
            cases hsolid
          have hless : rest.length < ('\n' :: (gap ++ rest)).length := by
            rw [List.length_cons, List.length_append]
            omega
          obtain ⟨block, blocks, hblocks, hopens, hgapless⟩ :=
            ih rest.length hless (hends.of_append hne) rfl
          refine ⟨[], block :: blocks, ?_, .nil _, ?_⟩
          · rw [blocksFrom, if_pos rfl, if_pos hpos, blocksFrom_eq_drop, ← hlength, List.drop_left,
              hblocks]
          · exact List.forall_mem_cons.mpr ⟨hopens.isGapless hrest, hgapless⟩
      · obtain ⟨block, blocks, hblocks, hopens, hgapless⟩ := ih s.length (by simp) hends rfl
        exact ⟨c :: block, blocks, blocksFrom_cons hc hblocks, hopens.cons hc, hgapless⟩

theorem mem_of_mem_blocksFrom {skip : Nat} {s block : List Char} (h : block ∈ blocksFrom skip s)
    {c : Char} (hc : c ∈ block) : c ∈ s := by
  induction s generalizing skip block with
  | nil =>
    rw [blocksFrom, List.mem_singleton] at h
    rwa [h] at hc
  | cons d s ih =>
    cases skip with
    | succ skip => exact List.mem_cons_of_mem _ (ih h hc)
    | zero =>
      rw [blocksFrom] at h
      generalize (if d = '\n' then gapLength s else 0) = gap at h
      split at h
      · rcases List.mem_cons.mp h with rfl | h
        · cases hc
        · exact List.mem_cons_of_mem _ (ih h hc)
      · split at h
        · rename_i hnil
          rw [List.mem_singleton] at h
          rw [h, List.mem_singleton] at hc
          rw [hc]
          exact List.mem_cons_self
        · rename_i first blocks hblocks
          rcases List.mem_cons.mp h with rfl | h
          · rcases List.mem_cons.mp hc with rfl | hc
            · exact List.mem_cons_self
            · exact List.mem_cons_of_mem _ (ih (hblocks ▸ List.mem_cons_self) hc)
          · exact List.mem_cons_of_mem _ (ih (hblocks ▸ List.mem_cons_of_mem _ h) hc)

/-- **No line of a block of a document is blank**, and none holds a carriage return. -/
theorem isGapless_of_mem_blocksOf {content : String} {block : List Char}
    (h : block ∈ blocksOf content) : IsGapless block ∧ '\r' ∉ block := by
  rw [blocksOf] at h
  split at h
  · cases h
  · rename_i hne
    set body := trim (normalizeText content.toList) with hbody
    obtain ⟨blanks, -, hfront⟩ := exists_trimBack_append (trimFront (normalizeText content.toList))
    rw [← trim, ← hbody] at hfront
    constructor
    · obtain ⟨first, blocks, hblocks, hopens, hgapless⟩ :=
        exists_blocksFrom (endsSolid_trimBack (s := trimFront (normalizeText content.toList)) hne)
      rw [← trim, ← hbody] at hblocks hopens
      have hopen : '\n' ∉ body.takeWhile isBlank := by
        have hhead := List.head?_dropWhile_not isBlank (normalizeText content.toList)
        rw [← trimFront, hfront] at hhead
        obtain ⟨c, rest, hcons⟩ := List.exists_cons_of_ne_nil hne
        rw [hcons] at hhead
        rw [hcons, List.takeWhile_cons_of_neg (by simpa using hhead)]
        exact List.not_mem_nil
      rw [hblocks, List.mem_cons] at h
      rcases h with rfl | h
      · exact hopens.isGapless hopen
      · exact hgapless block h
    · intro hmem
      have hmem := mem_of_mem_blocksFrom h hmem
      have hnormal : '\r' ∈ normalizeText content.toList := by
        refine (List.dropWhile_suffix isBlank).mem ?_
        rw [← trimFront, hfront]
        exact List.mem_append_left _ hmem
      exact not_mem_unifyLineEnds _ hnormal

/-- The lines below the first ones are joined to the text that they are lines of. -/
theorem bodyText_linesOf {s : List Char} (solid : IsSolid s) : bodyText (linesOf s) = s := by
  have hmap : (linesOf s).map trimBack = linesOf s :=
    (List.map_congr_left fun line hline ↦ (solid line hline).trimBack_eq).trans (List.map_id' _)
  rw [bodyText, hmap]
  exact joinWith_splitAll _ s

/-- The text below the first lines of a block has these lines, without the blanks at their ends. -/
theorem linesOf_bodyText {lines : List (List Char)} (hne : lines ≠ [])
    (hfeed : ∀ line ∈ lines, '\n' ∉ line) : linesOf (bodyText lines) = lines.map trimBack := by
  refine splitAll_joinWith (by simpa using hne) ?_
  rw [List.forall_mem_map]
  exact fun line hline hmem ↦ hfeed line hline (mem_of_mem_trimBack hmem)

/-- What is joined is what was cut, without the blanks at the ends of lines. -/
theorem bodyText_sublist (s : List Char) : (bodyText (linesOf s)).Sublist s := by
  have hjoin (lines : List (List Char)) :
      (joinWith ['\n'] (lines.map trimBack)).Sublist (joinWith ['\n'] lines) := by
    induction lines with
    | nil => exact .refl _
    | cons line lines ih =>
      obtain ⟨blanks, -, hline⟩ := exists_trimBack_append line
      have hfirst : (trimBack line).Sublist line := by
        conv_rhs => rw [hline]
        exact List.sublist_append_left _ _
      cases lines with
      | nil => exact hfirst
      | cons next lines => exact (hfirst.append (.refl _)).append ih
  have := hjoin (linesOf s)
  rwa [linesOf, joinWith_splitAll] at this

/-! ## Pieces -/

/-- The subtitle that a piece is, if it is one. -/
def Piece.subtitle? : Piece → Option Subtitle
  | .subtitle found => some found
  | _ => none

theorem Piece.eq_of_subtitle? {piece : Piece} {found : Subtitle} (h : piece.subtitle? = some found) :
    piece = .subtitle found := by
  cases piece with
  | subtitle other => exact congrArg Piece.subtitle (Option.some.inj h)
  | malformed | nothing => cases h

section

variable (strict : Bool) {label : Unreadable} {source : List Char} (rest : List LabelledPiece)

/-- A lenient reader passes over a malformed piece with a warning. -/
theorem collect_malformed : collect false (⟨label, source, .ok .malformed⟩ :: rest)
    = ⟨(collect false rest).result, .skipped label :: (collect false rest).warnings⟩ := by
  have hnext : collect false (⟨label, source, .ok .malformed⟩ :: rest)
      = Reported.warn (.skipped label) >>= fun _ ↦ collect false rest := Reported.lift_bind rfl _
  rw [hnext]
  rfl

theorem collect_nothing : collect strict (⟨label, source, .ok .nothing⟩ :: rest)
    = collect strict rest := Reported.lift_bind rfl _

theorem collect_subtitle {subtitle : Subtitle} :
    collect strict (⟨label, source, .ok (.subtitle subtitle)⟩ :: rest)
      = collect strict rest >>= fun found ↦ pure (subtitle :: found) := Reported.lift_bind rfl _

end

/-- **A lenient reader collects the subtitles among the pieces**, if all of them can be read, and fails
otherwise. -/
theorem collect_lenient (parts : List LabelledPiece) : (collect false parts).result
    = (parts.mapM LabelledPiece.piece).map (List.filterMap Piece.subtitle?) := by
  induction parts with
  | nil => rfl
  | cons part rest ih =>
    rw [List.mapM_cons]
    obtain ⟨label, source, piece⟩ := part
    cases piece with
    | error e => rfl
    | ok piece =>
      cases piece with
      | malformed =>
        rw [collect_malformed, ih]
        cases rest.mapM LabelledPiece.piece <;> rfl
      | nothing =>
        rw [collect_nothing, ih]
        cases rest.mapM LabelledPiece.piece <;> rfl
      | subtitle subtitle =>
        rw [collect_subtitle, Reported.result_bind, ih]
        cases rest.mapM LabelledPiece.piece <;> rfl

theorem collect_subtitle_of_ok {strict : Bool} {label : Unreadable} {source : List Char}
    {subtitle : Subtitle} {rest : List LabelledPiece} {found : List Subtitle} {warnings : List Warning}
    (h : collect strict rest = ⟨.ok found, warnings⟩) :
    collect strict (⟨label, source, .ok (.subtitle subtitle)⟩ :: rest)
      = ⟨.ok (subtitle :: found), warnings⟩ := by
  rw [collect_subtitle, h]
  exact congrArg (Reported.mk _) (List.append_nil warnings)

/-- **What is found among other pieces stands among what is found in them**, whichever subtitle it is;
and without it, what is found in them stays, and so do the warnings. -/
theorem exists_collect {strict : Bool} {front back : List LabelledPiece} {part : LabelledPiece}
    {subtitle : Subtitle} (hpart : part.piece = .ok (.subtitle subtitle)) {found : List Subtitle}
    (h : (collect strict (front ++ part :: back)).result = .ok found) : ∃ before after warnings,
    (∀ other s, other.piece = .ok (.subtitle s) →
      collect strict (front ++ other :: back) = ⟨.ok (before ++ s :: after), warnings⟩) ∧
    ∀ other, other.piece = .ok .nothing →
      collect strict (front ++ other :: back) = ⟨.ok (before ++ after), warnings⟩ := by
  induction front generalizing found with
  | nil =>
    obtain ⟨label, source, piece⟩ := part
    cases hpart
    rw [List.nil_append, collect_subtitle] at h
    obtain ⟨after, hafter, -⟩ := Reported.bind_eq_ok.mp h
    have hback : collect strict back = ⟨.ok after, (collect strict back).warnings⟩ := by
      rw [← hafter]
    refine ⟨[], after, (collect strict back).warnings, ?_, ?_⟩
    · rintro ⟨_, _, piece⟩ s ⟨⟩
      exact collect_subtitle_of_ok hback
    · rintro ⟨_, _, piece⟩ ⟨⟩
      exact (collect_nothing strict back).trans hback
  | cons first front ih =>
    obtain ⟨label, source, piece⟩ := first
    rw [List.cons_append] at h
    simp only [List.cons_append]
    cases piece with
    | error e => cases h
    | ok piece =>
      cases piece with
      | malformed =>
        cases strict with
        | true => cases h
        | false =>
          rw [collect_malformed] at h
          obtain ⟨before, after, warnings, hfound, hnothing⟩ := ih h
          refine ⟨before, after, .skipped label :: warnings, fun other s hother ↦ ?_,
            fun other hother ↦ ?_⟩
          · rw [collect_malformed, hfound other s hother]
          · rw [collect_malformed, hnothing other hother]
      | nothing =>
        rw [collect_nothing] at h
        simp only [collect_nothing]
        exact ih h
      | subtitle s =>
        rw [collect_subtitle] at h
        obtain ⟨rest, hrest, -⟩ := Reported.bind_eq_ok.mp h
        obtain ⟨before, after, warnings, hfound, hnothing⟩ := ih hrest
        exact ⟨s :: before, after, warnings,
          fun other t hother ↦ collect_subtitle_of_ok (hfound other t hother),
          fun other hother ↦ collect_subtitle_of_ok (hnothing other hother)⟩

/-- What is collected is among the pieces. -/
theorem mem_of_collect {strict : Bool} {parts : List LabelledPiece} {found : List Subtitle}
    (h : (collect strict parts).result = .ok found) :
    ∀ subtitle ∈ found, ∃ part ∈ parts, part.piece = .ok (.subtitle subtitle) := by
  induction parts generalizing found with
  | nil =>
    cases h
    exact List.forall_mem_nil _
  | cons part rest ih =>
    have hrest {others : List Subtitle} (h : (collect strict rest).result = .ok others) :
        ∀ subtitle ∈ others, ∃ other ∈ part :: rest, other.piece = .ok (.subtitle subtitle) := by
      intro subtitle hsubtitle
      obtain ⟨other, hother, hpiece⟩ := ih h subtitle hsubtitle
      exact ⟨other, List.mem_cons_of_mem part hother, hpiece⟩
    obtain ⟨label, source, piece⟩ := part
    cases piece with
    | error e => cases h
    | ok piece =>
      cases piece with
      | malformed =>
        cases strict with
        | true => cases h
        | false =>
          rw [collect_malformed] at h
          exact hrest h
      | nothing =>
        rw [collect_nothing] at h
        exact hrest h
      | subtitle first =>
        rw [collect_subtitle] at h
        obtain ⟨others, hothers, h⟩ := Reported.bind_eq_ok.mp h
        cases h
        exact List.forall_mem_cons.mpr ⟨⟨_, List.mem_cons_self, rfl⟩, hrest hothers⟩

/-- A piece without the text that it is read from. -/
def LabelledPiece.unsourced (part : LabelledPiece) : LabelledPiece := { part with source := [] }

/-- **A lenient reader does not look at what the pieces are read from.** -/
theorem collect_unsourced (parts : List LabelledPiece) :
    collect false (parts.map LabelledPiece.unsourced) = collect false parts := by
  induction parts with
  | nil => rfl
  | cons part rest ih =>
    obtain ⟨label, source, piece⟩ := part
    rw [List.map_cons, LabelledPiece.unsourced]
    cases piece with
    | error e => rfl
    | ok piece =>
      cases piece with
      | malformed => rw [collect_malformed, collect_malformed, ih]
      | nothing => rw [collect_nothing, collect_nothing, ih]
      | subtitle subtitle => rw [collect_subtitle, collect_subtitle, ih]

/-- The piece is malformed. -/
def LabelledPiece.isMalformed (part : LabelledPiece) : Bool :=
  match part.piece with
  | .ok .malformed => true
  | _ => false

/-- **A lenient reader that comes to an end has warned of the malformed pieces**, in their order, and
of nothing else. -/
theorem warnings_collect_lenient {parts : List LabelledPiece} {subtitles : List Subtitle}
    (h : (collect false parts).result = .ok subtitles) : (collect false parts).warnings
      = (parts.filter (·.isMalformed)).map fun part ↦ .skipped part.label := by
  induction parts generalizing subtitles with
  | nil => rfl
  | cons part rest ih =>
    obtain ⟨label, source, piece⟩ := part
    cases piece with
    | error e => cases h
    | ok piece =>
      cases piece with
      | malformed =>
        rw [collect_malformed] at h ⊢
        exact congrArg (Warning.skipped label :: ·) (ih h)
      | nothing =>
        rw [collect_nothing] at h ⊢
        exact ih h
      | subtitle subtitle =>
        rw [collect_subtitle] at h ⊢
        obtain ⟨found, hfound, -⟩ := Reported.bind_eq_ok.mp h
        have hmap := congrArg Reported.warnings (Reported.map_ok hfound (subtitle :: ·))
        exact hmap.trans (ih hfound)

/-- The subtitles among the pieces that a row of calls gave are those that the calls gave. -/
theorem filterMap_subtitle?_of_mapM {α : Type} {f : α → Except Error Piece} {xs : List α}
    {found : List Piece} (h : xs.mapM f = .ok found) :
    found.filterMap Piece.subtitle? = xs.filterMap fun x ↦ (f x).toOption.bind Piece.subtitle? := by
  have hcalls := forall₂_of_mapM h
  clear h
  induction hcalls with
  | nil => rfl
  | @cons x piece xs found hpiece _ ih =>
    have hfirst : (f x).toOption.bind Piece.subtitle? = piece.subtitle? := by
      rw [hpiece]
      rfl
    rw [List.filterMap_cons, List.filterMap_cons, hfirst, ih]

/-- **The subtitles among pieces of which none is malformed are collected** without a warning,
however strict the reader is. -/
theorem collect_of_ok (strict : Bool) {parts : List LabelledPiece} {found : List Piece}
    (h : parts.map (·.piece) = found.map .ok) (hfound : ∀ piece ∈ found, piece ≠ .malformed) :
    collect strict parts = ⟨.ok (found.filterMap Piece.subtitle?), []⟩ := by
  induction parts generalizing found with
  | nil =>
    rw [List.map_nil, eq_comm, List.map_eq_nil_iff] at h
    rw [h]
    rfl
  | cons part parts ih =>
    obtain ⟨piece, more, rfl, hpart, hmore⟩ := List.map_eq_cons_iff.mp h.symm
    have hpart : part.piece = .ok piece := hpart.symm
    rw [List.forall_mem_cons] at hfound
    have hrest := ih hmore.symm hfound.2
    obtain ⟨label, source, _⟩ := part
    cases hpart
    cases piece with
    | malformed => exact absurd rfl hfound.1
    | nothing => rwa [collect_nothing]
    | subtitle subtitle =>
      rw [collect_subtitle, hrest]
      rfl

/-- **Subtitles are collected without a warning just if no piece is malformed.** -/
theorem collect_eq_silent {strict : Bool} {parts : List LabelledPiece} {subtitles : List Subtitle} :
    collect strict parts = ⟨.ok subtitles, []⟩ ↔ ∃ found : List Piece,
      parts.map (·.piece) = found.map .ok ∧ (∀ piece ∈ found, piece ≠ .malformed) ∧
        subtitles = found.filterMap Piece.subtitle? := by
  constructor
  · intro h
    induction parts generalizing subtitles with
    | nil =>
      cases h
      exact ⟨[], rfl, List.forall_mem_nil _, rfl⟩
    | cons part rest ih =>
      obtain ⟨label, source, piece⟩ := part
      cases piece with
      | error e => cases h
      | ok piece =>
        cases piece with
        | malformed =>
          cases strict with
          | true => cases h
          | false =>
            rw [collect_malformed] at h
            cases congrArg Reported.warnings h
        | nothing =>
          rw [collect_nothing] at h
          obtain ⟨found, hfound, hmalformed, rfl⟩ := ih h
          refine ⟨.nothing :: found, ?_, List.forall_mem_cons.mpr ⟨by rintro ⟨⟩, hmalformed⟩, rfl⟩
          rw [List.map_cons, List.map_cons, hfound]
        | subtitle subtitle =>
          rw [collect_subtitle] at h
          obtain ⟨others, hothers, h⟩ := Reported.bind_eq_silent.mp h
          cases h
          obtain ⟨found, hfound, hmalformed, rfl⟩ := ih hothers
          refine ⟨.subtitle subtitle :: found, ?_,
            List.forall_mem_cons.mpr ⟨by rintro ⟨⟩, hmalformed⟩, rfl⟩
          rw [List.map_cons, List.map_cons, hfound]
  · rintro ⟨found, hfound, hmalformed, rfl⟩
    exact collect_of_ok strict hfound hmalformed

end Montage
