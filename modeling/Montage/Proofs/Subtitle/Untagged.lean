import Montage.Proofs.Subtitle.Markup

/-!
# What is left of a text without its tags

Reading takes the tags out of a text and keeps the color that one of them names.  The color and what
is left stand in the text beside each other, since the tag that names the color goes as a whole
(`Markup.count_takeFont_le`).  So the tags of what was read, round the text that was read, end no more
lines than the text did (`Markup.count_write_read_le`).
-/

set_option autoImplicit false

namespace Montage
namespace Markup

/-! ## Inside a tag -/

/-- What stands behind a part of a text in which no tag ends. -/
def Behind (s rest : List Char) : Prop := ∃ front, s = front ++ rest ∧ '>' ∉ front

namespace Behind

variable {s t u : List Char}

theorem trans (hst : Behind s t) (htu : Behind t u) : Behind s u := by
  obtain ⟨front, rfl, hfront⟩ := hst
  obtain ⟨middle, rfl, hmiddle⟩ := htu
  refine ⟨front ++ middle, (List.append_assoc _ _ _).symm, ?_⟩
  rw [List.mem_append, not_or]
  exact ⟨hfront, hmiddle⟩

theorem of_afterWord? {word : List Char} (hword : ∀ letter ∈ word, isLetter letter '>' = false)
    (h : afterWord? word s = some t) : Behind s t := by
  induction word generalizing s with
  | nil =>
    rw [afterWord?, Option.some.injEq] at h
    exact ⟨[], h, List.not_mem_nil⟩
  | cons letter word ih =>
    rw [List.forall_mem_cons] at hword
    cases s with
    | nil => cases h
    | cons c s =>
      rw [afterWord?] at h
      split at h
      · rename_i hletter
        obtain ⟨front, rfl, hfront⟩ := ih hword.2 h
        refine ⟨c :: front, rfl, List.not_mem_cons_of_ne_of_not_mem ?_ hfront⟩
        rintro rfl
        rw [hword.1] at hletter
        cases hletter
      · cases h

theorem trimFront (s : List Char) : Behind s (trimFront s) := by
  refine ⟨s.takeWhile isBlank, List.takeWhile_append_dropWhile.symm, fun hmem ↦ ?_⟩
  exact absurd (List.mem_takeWhile_imp hmem) (by decide)

theorem dropQuote (s : List Char) : Behind s (dropQuote s) := by
  cases s with
  | nil => exact ⟨[], rfl, List.not_mem_nil⟩
  | cons c s =>
    rw [Markup.dropQuote]
    split
    · rename_i hc
      refine ⟨[c], rfl, ?_⟩
      rw [List.mem_singleton]
      rintro rfl
      exact absurd hc (by decide)
    · exact ⟨[], rfl, List.not_mem_nil⟩

end Behind

/-! ## Colors -/

/-- A font element names its color inside of its opening tag. -/
theorem exists_of_fontColor? {s : List Char} {name : String} (h : fontColor? s = some name) :
    name ≠ "" ∧ ∃ front behind rest, s = front ++ (name.toList ++ (behind ++ '>' :: rest)) ∧
      '>' ∉ front ∧ '>' ∉ name.toList ∧ '>' ∉ behind := by
  obtain ⟨rest, hword, h⟩ := Option.bind_eq_some_iff.mp h
  dsimp only at h
  split at h
  · cases h
  obtain ⟨quoted, hattribute, h⟩ := Option.bind_eq_some_iff.mp h
  have hvalue : Behind s (dropQuote quoted) :=
    ((Behind.of_afterWord? (by decide) hword).trans (.trimFront rest)).trans
      ((Behind.of_afterWord? (by decide) hattribute).trans (.dropQuote quoted))
  generalize dropQuote quoted = value at h hvalue
  set inName := fun c ↦ c != '"' && c != '\'' && c != '>' with hinName
  have hcolor : '>' ∉ value.takeWhile inName := fun hmem ↦
    absurd (List.mem_takeWhile_imp hmem) (by rw [hinName]; decide)
  have hsplit : value.takeWhile inName ++ value.drop (value.takeWhile inName).length = value :=
    List.prefix_iff_eq_append.mp (List.takeWhile_prefix inName)
  generalize value.takeWhile inName = color at h hcolor hsplit
  split at h
  · cases h
  rename_i hsome
  have hbehind := (Behind.dropQuote (value.drop color.length)).trans (.trimFront _)
  split at h
  · rename_i tail hends
    obtain rfl := Option.some.inj h
    rw [hends] at hbehind
    obtain ⟨front, rfl, hfront⟩ := hvalue
    obtain ⟨behind, hdrop, hbehind⟩ := hbehind
    rw [hdrop] at hsplit
    refine ⟨?_, front, behind, tail, ?_, hfront, ?_, hbehind⟩
    · rintro hnil
      rw [← String.toList_inj, String.toList_ofList] at hnil
      rw [hnil] at hsome
      exact hsome rfl
    · rw [String.toList_ofList, hsplit]
    · rwa [String.toList_ofList]
  · cases h

/-- A bracket that closes a tag closes it from wherever in the tag it is looked at. -/
theorem Behind.lengthThrough_eq {s t : List Char} (h : Behind s t) (ht : '>' ∈ t) :
    lengthThrough '>' s = consumed s t + lengthThrough '>' t := by
  obtain ⟨front, rfl, hfront⟩ := h
  obtain ⟨inside, rest, rfl, hinside⟩ := List.eq_append_cons_of_mem ht
  have hnone : '>' ∉ front ++ inside := by
    rw [List.mem_append, not_or]
    exact ⟨hfront, hinside⟩
  rw [lengthThrough_append hinside, ← List.append_assoc, lengthThrough_append hnone, consumed]
  simp only [List.length_append, List.length_cons]
  omega

/-- A font tag ends where its first bracket closes. -/
theorem fontTag_eq {s : List Char} (h : fontTag s ≠ 0) : fontTag s = lengthThrough '>' s := by
  rw [fontTag] at h ⊢
  cases hword : (afterWord? "<font".toList s).or (afterWord? "</font".toList s) with
  | none =>
    rw [hword] at h
    exact absurd rfl h
  | some rest =>
    have hbehind : Behind s rest := by
      rcases Option.or_eq_some_iff.mp hword with hword | ⟨-, hword⟩
      · exact .of_afterWord? (by decide) hword
      · exact .of_afterWord? (by decide) hword
    rw [hword] at h
    dsimp only at h ⊢
    rcases lengthThrough_cases '>' rest with ⟨hzero, -⟩ | ⟨front, behind, hrest, -, hlength⟩
    · rw [hzero] at h
      exact absurd rfl h
    · rw [hbehind.lengthThrough_eq (by rw [hrest]; simp), hlength]

/-- What names a color is a font tag. -/
theorem fontTag_ne_zero {s : List Char} {name : String} (h : fontColor? s = some name) :
    fontTag s ≠ 0 := by
  obtain ⟨rest, hword, -⟩ := Option.bind_eq_some_iff.mp h
  obtain ⟨-, front, behind, tail, hs, -⟩ := exists_of_fontColor? h
  have hmem : '>' ∈ rest := by
    obtain ⟨opening, hopening, hnone⟩ := Behind.of_afterWord? (by decide) hword
    have hmem : '>' ∈ opening ++ rest := by
      rw [← hopening, hs]
      simp
    exact (List.mem_append.mp hmem).resolve_left hnone
  rw [fontTag, hword, Option.some_or]
  rcases lengthThrough_cases '>' rest with ⟨-, hnone⟩ | ⟨inside, _, -, -, hlength⟩
  · exact absurd hmem hnone
  · dsimp only
    rw [hlength]
    exact Nat.succ_ne_zero _

/-! ## Counting -/

variable {c : Char}

section

variable {inside : List Char} (hinside : '>' ∉ inside) (tail : List Char)
include hinside

/-- The first bracket that closes is the one behind `inside`, if none closes in front of it. -/
theorem lengthThrough_inside {front : List Char} (hfront : '>' ∉ front) :
    lengthThrough '>' (front ++ (inside ++ '>' :: tail)) = front.length + inside.length + 1 := by
  have hnone : '>' ∉ front ++ inside := by
    rw [List.mem_append, not_or]
    exact ⟨hfront, hinside⟩
  rw [← List.append_assoc, lengthThrough_append hnone, List.length_append]

/-- A font tag is removed at once, or is skipped as a whole. -/
theorem removeFrom_fontTag (htag : fontTag (inside ++ '>' :: tail) ≠ 0) {skip : Nat}
    (hskip : skip = 0 ∨ skip = inside.length + 1) :
    removeFrom fontTag skip (inside ++ '>' :: tail) = removeFrom fontTag 0 tail := by
  have hlength : fontTag (inside ++ '>' :: tail) = inside.length + 1 := by
    have hnone : '>' ∉ ([] : List Char) := List.not_mem_nil
    have hfirst := lengthThrough_inside hinside tail hnone
    rw [List.nil_append, List.length_nil, Nat.zero_add] at hfirst
    rw [fontTag_eq htag, hfirst]
  have hrest : removeFrom fontTag (inside ++ ['>']).length (inside ++ ['>'] ++ tail)
      = removeFrom fontTag 0 tail := removeFrom_skip _ _
  rw [List.length_append, List.length_singleton, List.append_assoc, List.singleton_append] at hrest
  rcases hskip with rfl | rfl
  · rw [removeFrom_match htag, hlength, hrest]
  · exact hrest

/-- A font tag that begins in front of `inside` ends there, too, or at the end of `inside`. -/
theorem fontTag_le_or_eq (front : List Char)
    (htag : fontTag (front ++ (inside ++ '>' :: tail)) ≠ 0) :
    fontTag (front ++ (inside ++ '>' :: tail)) ≤ front.length ∨
      fontTag (front ++ (inside ++ '>' :: tail)) = front.length + inside.length + 1 := by
  rw [fontTag_eq htag]
  by_cases hmem : '>' ∈ front
  · obtain ⟨before, after, rfl, hbefore⟩ := List.eq_append_cons_of_mem hmem
    rw [List.append_assoc, List.cons_append, lengthThrough_append hbefore, List.length_append,
      List.length_cons]
    exact .inl (by omega)
  · exact .inr (lengthThrough_inside hinside tail hmem)

/-- **A font element is removed as a whole**: behind any text in front of it, what is left does not
count what stands in its opening tag. -/
theorem count_removeFrom_le (htag : fontTag (inside ++ '>' :: tail) ≠ 0) (front : List Char)
    (skip : Nat) (hskip : skip ≤ front.length ∨ skip = front.length + inside.length + 1) :
    (removeFrom fontTag skip (front ++ (inside ++ '>' :: tail))).count c + inside.count c
      ≤ (front ++ (inside ++ '>' :: tail)).count c := by
  induction front generalizing skip with
  | nil =>
    have hskip : skip = 0 ∨ skip = inside.length + 1 := by
      rw [List.length_nil] at hskip
      omega
    rw [List.nil_append, removeFrom_fontTag hinside tail htag hskip, List.count_append]
    have hsublist : (removeFrom fontTag 0 tail).Sublist ('>' :: tail) :=
      (removeFrom_sublist 0 tail).cons '>'
    have hcount := hsublist.count_le c
    omega
  | cons d front ih =>
    have hends := fontTag_le_or_eq hinside tail (d :: front)
    rw [List.length_cons] at hskip hends
    rw [List.cons_append] at hends ⊢
    have hcons := (List.sublist_cons_self d (front ++ (inside ++ '>' :: tail))).count_le c
    cases skip with
    | succ skip =>
      have hrest := ih skip (by omega)
      rw [removeFrom]
      omega
    | zero =>
      rw [removeFrom]
      split
      · have hrest := ih 0 (.inl (Nat.zero_le _))
        rw [List.count_cons, List.count_cons]
        omega
      · rename_i n hn
        have hrest := ih n (by omega)
        omega

end

/-- **The color and what is left stand in the text beside each other.** -/
theorem count_takeFont_le (s : List Char) :
    (takeFont s).2.count c + ((takeFont s).1.elim [] String.toList).count c ≤ s.count c := by
  rw [takeFont]
  cases hfirst : firstMatch? fontColor? s with
  | none => exact le_refl _
  | some name =>
    obtain ⟨front, element, rfl, hname⟩ := exists_of_firstMatch? hfirst
    have htag := fontTag_ne_zero hname
    obtain ⟨-, before, behind, tail, rfl, hbefore, hnone, hbehind⟩ := exists_of_fontColor? hname
    have hsplit : before ++ (name.toList ++ (behind ++ '>' :: tail))
        = (before ++ (name.toList ++ behind)) ++ '>' :: tail := by simp
    rw [hsplit] at htag ⊢
    have hinside : '>' ∉ before ++ (name.toList ++ behind) := by
      simp only [List.mem_append, not_or]
      exact ⟨hbefore, hnone, hbehind⟩
    have hgone := count_removeFrom_le (c := c) hinside tail htag front 0 (.inl (Nat.zero_le _))
    have hmore : name.toList.count c ≤ (before ++ (name.toList ++ behind)).count c := by
      rw [List.count_append, List.count_append]
      omega
    exact le_trans (Nat.add_le_add_left hmore _) hgone

theorem takeLetter_sublist (letter : Char) (s : List Char) : (takeLetter letter s).2.Sublist s := by
  rw [takeLetter]
  split
  · exact removeMatches_sublist s
  · exact .refl s

/-! ## Reading and writing -/

/-- The text without the tags of letters. -/
def withoutLetters (s : List Char) : List Char :=
  (takeLetter 'u' (takeLetter 'i' (takeLetter 'b' s).2).2).2

theorem withoutLetters_sublist (s : List Char) : (withoutLetters s).Sublist s :=
  (takeLetter_sublist _ _).trans ((takeLetter_sublist _ _).trans (takeLetter_sublist _ _))

theorem fst_read (s : List Char) : (read s).1 = (takeFont (withoutLetters s)).2 := rfl

/-- The style that is read, if any tag says one. -/
theorem snd_read (s : List Char) : (read s).2 =
    let bold := (takeLetter 'b' s).1
    let slanted := (takeLetter 'i' (takeLetter 'b' s).2).1
    let underlined := (takeLetter 'u' (takeLetter 'i' (takeLetter 'b' s).2).2).1
    let color := (takeFont (withoutLetters s)).1
    if bold || slanted || underlined || color.isSome then some {
      fontWeight := if bold then some "bold" else none
      fontStyle := if slanted then some "italic" else none
      textDecoration := if underlined then some "underline" else none
      color } else none := rfl

/-- The color of the style that is read is the one that a font element names. -/
theorem bind_snd_read (s : List Char) :
    (read s).2.bind Style.color = (takeFont (withoutLetters s)).1 := by
  rw [snd_read]
  dsimp only
  split
  · rfl
  · rename_i hsilent
    simp only [Bool.or_eq_true, not_or, Option.not_isSome_iff_eq_none] at hsilent
    exact hsilent.2.symm

/-- A text without a style has no tags that are read. -/
theorem fst_read_of_none {s : List Char} (h : (read s).2 = none) : (read s).1 = s := by
  have hletter (letter : Char) (t : List Char) (hnone : ¬ (takeLetter letter t).1 = true) :
      (takeLetter letter t).2 = t := by
    rw [takeLetter] at hnone ⊢
    split at hnone
    · exact absurd rfl hnone
    · rename_i hpair
      rw [if_neg hpair]
  have hfont (t : List Char) (hnone : (takeFont t).1 = none) : (takeFont t).2 = t := by
    rw [takeFont] at hnone ⊢
    split at hnone
    · cases hnone
    · rfl
  rw [snd_read] at h
  dsimp only at h
  split at h
  · cases h
  · rename_i hsilent
    simp only [Bool.or_eq_true, not_or, Option.not_isSome_iff_eq_none] at hsilent
    obtain ⟨⟨⟨hbold, hslanted⟩, hunderlined⟩, hcolor⟩ := hsilent
    rw [fst_read, hfont _ hcolor, withoutLetters, hletter 'u' _ hunderlined,
      hletter 'i' _ hslanted, hletter 'b' _ hbold]

/-- A color that is read has a name. -/
theorem color_ne_empty {s : List Char} {style : Style} (h : (read s).2 = some style) :
    style.color ≠ some "" := by
  intro hempty
  have hfont := bind_snd_read s
  rw [h, Option.bind_some, hempty, takeFont] at hfont
  split at hfont
  · rename_i name hfirst
    obtain ⟨front, element, -, hname⟩ := exists_of_firstMatch? hfirst
    exact (exists_of_fontColor? hname).1 (Option.some.inj hfont).symm
  · cases hfont

/-- The tags before a text end the lines that the color ends. -/
theorem count_tagsBefore (hc : c ∈ lineEnds) (style : Style) :
    (tagsBefore style).count c = (style.color.elim [] String.toList).count c := by
  have hletters (letter : Char) (hletter : letter ∉ lineEnds) (wanted : Bool) :
      (opening letter wanted).count c = 0 :=
    List.count_eq_zero_of_not_mem (lineEnd_not_mem_opening hc hletter wanted)
  rw [tagsBefore, List.count_append, List.count_append, List.count_append, hletters 'u' (by decide),
    hletters 'i' (by decide), hletters 'b' (by decide)]
  cases style.color with
  | none => rfl
  | some name =>
    have hliterals : ∀ c ∈ lineEnds, c ∉ "<font color=\"".toList ∧ c ∉ "\">".toList := by decide
    rw [fontOpening_some, List.count_append, List.count_append,
      List.count_eq_zero_of_not_mem (hliterals c hc).1,
      List.count_eq_zero_of_not_mem (hliterals c hc).2, Nat.zero_add]
    rfl

/-- **What is written for what was read ends no more lines** than what it was read from. -/
theorem count_write_read_le (hc : c ∈ lineEnds) (s : List Char) :
    (write (read s).2 (String.ofList (read s).1)).toList.count c ≤ s.count c := by
  have hcount := (count_takeFont_le (c := c) (withoutLetters s)).trans
    ((withoutLetters_sublist s).count_le c)
  rw [← fst_read, ← bind_snd_read] at hcount
  cases hstyle : (read s).2 with
  | none =>
    rw [write, String.toList_ofList]
    omega
  | some style =>
    rw [hstyle, Option.bind_some] at hcount
    have hbehind : (tagsBehind style).count c = 0 :=
      List.count_eq_zero_of_not_mem (lineEnd_not_mem_tagsBehind hc)
    rw [toList_write (color_ne_empty hstyle), String.toList_ofList, List.count_append,
      List.count_append, count_tagsBefore hc, hbehind]
    omega

end Markup
end Montage
