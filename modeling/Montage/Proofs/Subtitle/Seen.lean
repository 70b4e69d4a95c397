import Montage.Proofs.Number.Row
import Montage.Proofs.Subtitle.Untagged
import Montage.Proofs.Subtitle.Paragraph
import Montage.Subtitle.Vtt

/-!
# What is seen of a text

Of a text between tags, the characters are seen that are not blank and stand in no tag.  Their
number is what every reader can only lose (`EndsTags.seen_removeMatches_le`): tags that are taken
out were not seen, and lines that are not read as text are gone.  A line with a window of time
always is such a loss (`one_le_seen_of_ofLine?`).

So a text of which everything is seen again, wherever it stands now, was not cut anew.
-/

set_option autoImplicit false

namespace Montage

/-- The number of characters that are seen, where `inTag` says whether the text goes on inside a tag.
No tag goes on behind its line. -/
def seenFrom : Bool → List Char → Nat
  | _, [] => 0
  | inTag, c :: rest =>
    if c = '\n' then seenFrom false rest
    else if inTag then seenFrom (c != '>') rest
    else if c = '<' then seenFrom true rest
    else (if isBlank c then 0 else 1) + seenFrom false rest

/-- The number of characters that are seen of a text. -/
def seen (s : List Char) : Nat := seenFrom false s

section

variable {inTag : Bool} {s t : List Char}

theorem seenFrom_lineFeed (inTag : Bool) (s : List Char) : seenFrom inTag ('\n' :: s) = seen s := by
  rw [seenFrom, if_pos rfl, seen]

theorem seenFrom_inTag {c : Char} (hc : c ≠ '\n') (s : List Char) :
    seenFrom true (c :: s) = seenFrom (c != '>') s := by
  rw [seenFrom, if_neg hc, if_pos rfl]

theorem seen_cons {c : Char} (hc : c ≠ '<') (s : List Char) :
    seen (c :: s) = (if isBlank c then 0 else 1) + seen s := by
  rw [seen, seenFrom]
  by_cases hfeed : c = '\n'
  · rw [hfeed, if_pos rfl, if_pos (by decide), Nat.zero_add, seen]
  · rw [if_neg hfeed, if_neg Bool.false_ne_true, if_neg hc, seen]

theorem seen_bracket (s : List Char) : seen ('<' :: s) = seenFrom true s := by
  rw [seen, seenFrom, if_neg (by decide), if_neg Bool.false_ne_true, if_pos rfl]

/-- Inside a tag, less is seen. -/
theorem seenFrom_le (inTag : Bool) (s : List Char) : seenFrom inTag s ≤ seen s := by
  induction s generalizing inTag with
  | nil => rw [seenFrom, seen, seenFrom]
  | cons c s ih =>
    cases inTag with
    | false => exact le_rfl
    | true =>
      by_cases hfeed : c = '\n'
      · rw [hfeed, seen, seenFrom_lineFeed, seenFrom_lineFeed]
      rw [seenFrom_inTag hfeed]
      by_cases hc : c = '<'
      · rw [hc, seen_bracket]
        exact le_rfl
      · rw [seen_cons hc]
        exact (ih _).trans (Nat.le_add_left _ _)

/-- A longer text is seen at least as far as what it ends with, once a tag is over. -/
theorem seen_le_seenFrom_append (inTag : Bool) (s t : List Char) :
    seen t ≤ seenFrom inTag (s ++ '>' :: t) := by
  induction s generalizing inTag with
  | nil =>
    rw [List.nil_append]
    cases inTag with
    | true =>
      rw [seenFrom_inTag (by decide)]
      rfl
    | false =>
      rw [← seen, seen_cons (by decide)]
      exact Nat.le_add_left _ _
  | cons c s ih =>
    rw [List.cons_append, seenFrom]
    split
    · exact ih false
    split
    · exact ih _
    split
    · exact ih true
    · exact (ih false).trans (Nat.le_add_left _ _)

/-- Without tags, everything is seen that is not blank. -/
theorem seen_append (hs : '<' ∉ s) (t : List Char) :
    seen (s ++ t) = (s.filter (!isBlank ·)).length + seen t := by
  induction s with
  | nil => rw [List.nil_append, List.filter_nil, List.length_nil, Nat.zero_add]
  | cons c s ih =>
    rw [List.mem_cons, not_or] at hs
    rw [List.cons_append, seen_cons (Ne.symm hs.1), ih hs.2, List.filter_cons]
    cases isBlank c with
    | true => simp
    | false =>
      simp
      omega

theorem seen_of_not_mem (hs : '<' ∉ s) : seen s = (s.filter (!isBlank ·)).length := by
  have := seen_append hs []
  rwa [List.append_nil] at this

/-- Texts of the same words are seen alike, if they have no tags. -/
theorem seen_of_wordsIn (hs : '<' ∉ s) (ht : '<' ∉ t) (h : wordsIn s = wordsIn t) :
    seen s = seen t := by
  have hwords := congrArg List.flatten h
  rw [flatten_wordsIn, flatten_wordsIn] at hwords
  rw [seen_of_not_mem hs, seen_of_not_mem ht, hwords]

/-- Nothing is seen of a tag. -/
theorem seen_tag {inside : List Char} (hbracket : '>' ∉ inside) (hfeed : '\n' ∉ inside)
    (s : List Char) : seen ('<' :: (inside ++ '>' :: s)) = seen s := by
  rw [seen_bracket]
  induction inside with
  | nil => exact seenFrom_inTag (by decide) s
  | cons c inside ih =>
    rw [List.mem_cons, not_or] at hbracket hfeed
    have hc : (c != '>') = true := by simpa using Ne.symm hbracket.1
    rw [List.cons_append, seenFrom_inTag (Ne.symm hfeed.1), hc, ih hbracket.2 hfeed.2]

/-! ## Lines -/

theorem seenFrom_append_lineFeed (inTag : Bool) (s t : List Char) :
    seenFrom inTag (s ++ '\n' :: t) = seenFrom inTag s + seen t := by
  induction s generalizing inTag with
  | nil => rw [List.nil_append, seenFrom_lineFeed, seenFrom, Nat.zero_add]
  | cons c s ih =>
    rw [List.cons_append, seenFrom.eq_2, seenFrom.eq_2]
    split
    · exact ih false
    split
    · exact ih _
    split
    · exact ih true
    · rw [ih, Nat.add_assoc]

theorem seenFrom_append_blanks {blanks : List Char} (h : ∀ c ∈ blanks, isBlank c = true)
    (inTag : Bool) (s : List Char) : seenFrom inTag (s ++ blanks) = seenFrom inTag s := by
  induction s generalizing inTag with
  | nil =>
    have hnone : seen blanks = 0 := by
      have hbracket : '<' ∉ blanks := fun hmem ↦ absurd (h _ hmem) (by decide)
      rw [seen_of_not_mem hbracket, List.length_eq_zero_iff, List.filter_eq_nil_iff]
      exact fun c hc ↦ by simp [h c hc]
    have := seenFrom_le inTag blanks
    rw [List.nil_append, seenFrom]
    omega
  | cons c s ih =>
    rw [List.cons_append, seenFrom.eq_2, seenFrom.eq_2]
    simp only [ih]

theorem seen_trimBack (s : List Char) : seen (trimBack s) = seen s := by
  obtain ⟨blanks, hblanks, hs⟩ := exists_trimBack_append s
  conv_rhs => rw [hs, seen, seenFrom_append_blanks hblanks, ← seen]

/-- The number of characters that are seen of some lines. -/
def seenIn (lines : List (List Char)) : Nat := (lines.map seen).sum

theorem seenIn_cons (line : List Char) (lines : List (List Char)) :
    seenIn (line :: lines) = seen line + seenIn lines := by
  rw [seenIn, List.map_cons, List.sum_cons, seenIn]

theorem seenIn_append (front back : List (List Char)) :
    seenIn (front ++ back) = seenIn front + seenIn back := by
  rw [seenIn, List.map_append, List.sum_append, seenIn, seenIn]

theorem seenIn_map_trimBack (lines : List (List Char)) : seenIn (lines.map trimBack) = seenIn lines := by
  rw [seenIn, List.map_map, seenIn]
  exact congrArg List.sum (List.map_congr_left fun line _ ↦ seen_trimBack line)

/-- What is seen of a text is what is seen of its lines. -/
theorem seen_joinWith (lines : List (List Char)) : seen (joinWith ['\n'] lines) = seenIn lines := by
  induction lines with
  | nil => rfl
  | cons line lines ih =>
    cases lines with
    | nil => rw [joinWith, seenIn_cons]; rfl
    | cons next lines =>
      rw [joinWith_cons_cons, List.append_assoc, List.singleton_append, seen,
        seenFrom_append_lineFeed, ih, seenIn_cons line]
      rfl

theorem seenIn_trimmedLines (s : List Char) : seenIn (trimmedLines s) = seen s := by
  conv_rhs => rw [← joinWith_splitAll '\n' s, seen_joinWith]
  exact seenIn_map_trimBack _

theorem seen_bodyText (lines : List (List Char)) : seen (bodyText lines) = seenIn lines := by
  rw [bodyText, seen_joinWith, seenIn_map_trimBack]

/-- The paragraphs of lines show what the lines show. -/
theorem seenIn_paragraphs (lines : List (List Char)) :
    seenIn (paragraphs lines).flatten = seenIn lines := by
  induction lines using paragraphs_induction with
  | nil => rfl
  | blank line lines h ih =>
    have hnone : seen line = 0 := seenFrom_append_blanks
      (List.all_eq_true.mp (all_isBlank_of_isInked h)) false []
    rw [paragraphs_blank (all_isBlank_of_isInked h), ih, seenIn_cons, hnone, Nat.zero_add]
  | inked line lines h ih =>
    rw [paragraphs_cons h, List.flatten_cons, seenIn_append, ih, ← seenIn_append, List.cons_append,
      List.takeWhile_append_dropWhile]

end

/-! ## Tags that go -/

/-- Every match of the pattern ends with a bracket that closes a tag. -/
def EndsTags (length : List Char → Nat) : Prop :=
  ∀ s, length s ≠ 0 → ∃ inside rest, s = inside ++ '>' :: rest ∧ length s = inside.length + 1

theorem EndsTags.seenFrom_removeFrom_le {length : List Char → Nat} (h : EndsTags length) (inTag : Bool)
    (s : List Char) : seenFrom inTag (removeFrom length 0 s) ≤ seenFrom inTag s := by
  induction hlength : s.length using Nat.strong_induction_on generalizing inTag s with
  | _ n ih =>
    subst hlength
    cases s with
    | nil => rw [removeFrom]
    | cons c s =>
      by_cases hzero : length (c :: s) = 0
      · have hrest (inTag : Bool) := ih s.length (Nat.lt_succ_self _) inTag s rfl
        rw [removeFrom, hzero]
        dsimp only
        rw [seenFrom.eq_2, seenFrom.eq_2]
        split
        · exact hrest false
        split
        · exact hrest _
        split
        · exact hrest true
        · exact Nat.add_le_add_left (hrest false) _
      · obtain ⟨inside, rest, hs, hlength⟩ := h _ hzero
        have hgone : removeFrom length (inside ++ ['>']).length (inside ++ ['>'] ++ rest)
            = removeFrom length 0 rest := removeFrom_skip _ _
        rw [List.length_append, List.length_singleton, List.append_assoc, List.singleton_append,
          ← hlength, ← hs, ← removeFrom_match hzero] at hgone
        have hless : rest.length < (c :: s).length := by
          rw [hs, List.length_append, List.length_cons]
          omega
        calc seenFrom inTag (removeFrom length 0 (c :: s))
          _ = seenFrom inTag (removeFrom length 0 rest) := by rw [hgone]
          _ ≤ seenFrom inTag rest := ih _ hless inTag rest rfl
          _ ≤ seen rest := seenFrom_le inTag rest
          _ ≤ seenFrom inTag (c :: s) := by
            rw [hs]
            exact seen_le_seenFrom_append inTag inside rest

/-- **Taking out tags shows nothing that was not seen.** -/
theorem EndsTags.seen_removeMatches_le {length : List Char → Nat} (h : EndsTags length)
    (s : List Char) : seen (removeMatches length s) ≤ seen s :=
  h.seenFrom_removeFrom_le false s

namespace Markup

theorem tagLength_endsTags (letter : Char) : EndsTags (tagLength letter) := by
  intro s hs
  rw [tagLength] at hs ⊢
  split at hs
  · rename_i hopen
    rw [if_pos hopen]
    rw [closeTag.eq_def] at hs ⊢
    split at hs
    · rename_i c rest
      split at hs
      · rename_i hc
        exact ⟨['<', '/', c], rest, rfl, if_pos hc⟩
      · exact absurd rfl hs
    · exact absurd rfl hs
  · rename_i hopen
    rw [if_neg hopen]
    rw [openTag.eq_def] at hs ⊢
    split at hs
    · rename_i c rest
      split at hs
      · rename_i hc
        exact ⟨['<', c], rest, rfl, if_pos hc⟩
      · exact absurd rfl hs
    · exact absurd rfl hs

theorem fontTag_endsTags : EndsTags fontTag := by
  intro s hs
  have hlength := fontTag_eq hs
  rcases lengthThrough_cases '>' s with ⟨hzero, -⟩ | ⟨inside, rest, hrest, -, hthrough⟩
  · exact absurd (hlength.trans hzero) hs
  · exact ⟨inside, rest, hrest, hlength.trans hthrough⟩

theorem seen_takeLetter_le (letter : Char) (s : List Char) : seen (takeLetter letter s).2 ≤ seen s := by
  rw [takeLetter]
  split
  · exact (tagLength_endsTags letter).seen_removeMatches_le s
  · exact le_rfl

theorem seen_takeFont_le (s : List Char) : seen (takeFont s).2 ≤ seen s := by
  rw [takeFont]
  split
  · exact fontTag_endsTags.seen_removeMatches_le s
  · exact le_rfl

/-- **Reading markup shows nothing that was not seen.** -/
theorem seen_read_le (s : List Char) : seen (read s).1 ≤ seen s :=
  (seen_takeFont_le _).trans <| (seen_takeLetter_le 'u' _).trans <|
    (seen_takeLetter_le 'i' _).trans (seen_takeLetter_le 'b' s)

end Markup

namespace Vtt

theorem tagEnd_endsTags : EndsTags tagEnd := by
  intro s hs
  rw [tagEnd.eq_def] at hs ⊢
  split at hs
  · exact absurd rfl hs
  · rename_i c rest
    split at hs
    · rename_i hc
      exact ⟨[], rest, by rw [hc, List.nil_append], if_pos hc⟩
    · rename_i hc
      rw [if_neg hc]
      split at hs
      · rename_i hblank
        rw [if_pos hblank]
        rcases lengthThrough_cases '>' rest with ⟨hzero, -⟩ | ⟨inside, behind, hrest, -, hlength⟩
        · rw [hzero] at hs
          exact absurd rfl hs
        · rw [hlength]
          exact ⟨c :: inside, behind, by rw [hrest, List.cons_append], rfl⟩
      · exact absurd rfl hs

/-- The length of a tag that opens in a way and has a name, in front of a text. -/
def namedTag? (s opening : List Char) (name : String) : Option Nat := do
  let rest ← afterWord? (opening ++ name.toList) s
  match tagEnd rest with
  | 0 => none
  | n + 1 => some (consumed s rest + (n + 1))

theorem cueTag_eq (s : List Char) : cueTag s = ((cueTags.findSome? (namedTag? s ['<', '/'])).or
    (cueTags.findSome? (namedTag? s ['<']))).getD 0 := rfl

theorem exists_of_namedTag? {s opening : List Char} {name : String} {n : Nat}
    (hword : ∀ letter ∈ opening ++ name.toList, isLetter letter '>' = false)
    (h : namedTag? s opening name = some n) :
    ∃ inside rest, s = inside ++ '>' :: rest ∧ n = inside.length + 1 := by
  obtain ⟨rest, hrest, h⟩ := Option.bind_eq_some_iff.mp h
  obtain ⟨front, rfl, -⟩ := Markup.Behind.of_afterWord? hword hrest
  split at h
  · cases h
  · rename_i m hm
    obtain ⟨inside, behind, hbehind, hlength⟩ := tagEnd_endsTags rest (by rw [hm]; exact m.succ_ne_zero)
    obtain rfl := Option.some.inj h
    have hm : m = inside.length := Nat.succ.inj (hm.symm.trans hlength)
    refine ⟨front ++ inside, behind, by rw [hbehind, List.append_assoc], ?_⟩
    rw [consumed, hm, List.length_append, List.length_append]
    omega

theorem cueTag_endsTags : EndsTags cueTag := by
  intro s hs
  have hletters : ∀ opening ∈ [['<', '/'], ['<']], ∀ name ∈ cueTags,
      ∀ letter ∈ opening ++ name.toList, isLetter letter '>' = false := by decide
  have hnamed {opening : List Char} (hopening : opening ∈ [['<', '/'], ['<']]) {n : Nat}
      (h : cueTags.findSome? (namedTag? s opening) = some n) :
      ∃ inside rest, s = inside ++ '>' :: rest ∧ n = inside.length + 1 := by
    obtain ⟨name, hname, h⟩ := List.exists_of_findSome?_eq_some h
    exact exists_of_namedTag? (hletters opening hopening name hname) h
  rw [cueTag_eq] at hs ⊢
  cases hfound : (cueTags.findSome? (namedTag? s ['<', '/'])).or
      (cueTags.findSome? (namedTag? s ['<'])) with
  | none =>
    rw [hfound] at hs
    exact absurd rfl hs
  | some n =>
    rcases Option.or_eq_some_iff.mp hfound with h | ⟨-, h⟩
    · exact hnamed (by simp) h
    · exact hnamed (by simp) h

theorem timeTag_endsTags : EndsTags timeTag := by
  intro s hs
  rw [timeTag.eq_def] at hs ⊢
  split at hs
  · rename_i t
    dsimp only at hs ⊢
    have hfirst : t.takeWhile isDecimal ++ t.drop (t.takeWhile isDecimal).length = t :=
      List.prefix_iff_eq_append.mp (List.takeWhile_prefix isDecimal)
    generalize t.takeWhile isDecimal = first at hs hfirst ⊢
    split at hs
    · rename_i a b mark more hmore
      rw [hmore] at hfirst
      have hlast : more.takeWhile isTimeChar ++ more.drop (more.takeWhile isTimeChar).length = more :=
        List.prefix_iff_eq_append.mp (List.takeWhile_prefix isTimeChar)
      generalize more.takeWhile isTimeChar = last at hs hlast ⊢
      split at hs
      · rename_i rest hrest
        rw [hrest] at hlast
        split at hs
        · rename_i htime
          rw [if_pos htime]
          refine ⟨'<' :: (first ++ ':' :: a :: b :: mark :: last), rest, ?_, ?_⟩
          · rw [← hfirst, ← hlast]
            simp
          · simp only [List.length_cons, List.length_append]
            omega
        · exact absurd rfl hs
      · exact absurd rfl hs
    · exact absurd rfl hs
  · exact absurd rfl hs

/-- **Taking out the tags of this format shows nothing that was not seen.** -/
theorem seen_withoutTags_le (s : List Char) : seen (withoutTags s) ≤ seen s :=
  (timeTag_endsTags.seen_removeMatches_le _).trans (cueTag_endsTags.seen_removeMatches_le s)

end Vtt

/-! ## Windows of time -/

/-- A time begins with a digit. -/
theorem Timestamp.exists_of_take? {s rest : List Char} {time : Timestamp}
    (h : take? s = some (time, rest)) : ∃ c more, s = c :: more ∧ isDecimal c = true := by
  have hfirst : s.takeWhile isDecimal ≠ [] := by
    intro hnone
    rw [take?, spanDigits, List.span_eq_takeWhile_dropWhile, hnone] at h
    split at h
    · rename_i heq
      obtain ⟨rfl, -⟩ := Prod.mk.inj heq
      split at h
      · cases h
      · cases h
    · cases h
  obtain ⟨c, digits, hcons⟩ := List.exists_cons_of_ne_nil hfirst
  have hc : isDecimal c = true := List.mem_takeWhile_imp (hcons ▸ List.mem_cons_self)
  refine ⟨c, digits ++ s.dropWhile isDecimal, ?_, hc⟩
  rw [← List.cons_append, ← hcons, List.takeWhile_append_dropWhile]

/-- **Something is seen of a line with a window of time.** -/
theorem one_le_seen_of_ofLine? {line : List Char} {range : TimeRange}
    (h : TimeRange.ofLine? line = some range) : 1 ≤ seen line := by
  obtain ⟨⟨start, rest⟩, hstart, -⟩ := Option.bind_eq_some_iff.mp h
  obtain ⟨c, more, hline, hc⟩ := Timestamp.exists_of_take? hstart
  obtain ⟨hblank, -⟩ := isDecimal_plain hc
  have hbracket : c ≠ '<' := by
    rintro rfl
    exact absurd hc (by decide)
  have hfront : '<' ∉ line.takeWhile isBlank :=
    fun hmem ↦ absurd (List.mem_takeWhile_imp hmem) (by decide)
  rw [← List.takeWhile_append_dropWhile (p := isBlank) (l := line), ← trimFront, hline,
    seen_append hfront, seen_cons hbracket, hblank, if_neg Bool.false_ne_true]
  omega

end Montage
