import Montage.Proofs.Subtitle.Retold
import Montage.Proofs.Subtitle.Tagged
import Montage.Proofs.Subtitle.Vtt
import Montage.Proofs.Subtitle.Wrap

/-!
# Blocks of laid out subtitles

A subtitle stands in a document as it is laid out: its text is broken into other lines, and its tags
stand round it.  The words are those of the subtitle, and that is all that matters here
(`Subtitle.IsLayoutOf`).

Both formats show a window of time in every block that they can read, and tell nothing of it
(`Srt.format_isFrugal`, `Vtt.format_isFrugal`).  And both tell the words of a subtitle if its lines
stand in one block below its number and its window, whatever blanks the lines end with (`Srt.tells`,
`Vtt.tells`).
-/

set_option autoImplicit false

namespace Montage

attribute [local instance] Rounding.binary64

/-! ## Lines that were written -/

section

variable {number : Nat} {line : List Char} (h : trimBack line = (toString number).toList)
include h

/-- Blanks behind a number are not read. -/
theorem trim_of_trimBack : trim line = (toString number).toList := by
  obtain ⟨d, ds, hdigits, hd⟩ := toDigits_eq_cons number
  obtain ⟨blanks, -, hline⟩ := exists_trimBack_append line
  have hopens : trimFront line = line := by
    rw [hline, h, toList_toString_nat, hdigits, List.cons_append, trimFront_cons (isBlank_of_isDigit hd)]
  rw [trim, hopens, h]

/-- The line of a number holds digits and blanks. -/
theorem dash_not_mem_of_trimBack : '-' ∉ line := by
  obtain ⟨blanks, hblanks, hline⟩ := exists_trimBack_append line
  rw [hline, h, toList_toString_nat, List.mem_append, not_or]
  exact ⟨fun hmem ↦ absurd (isDigit_of_mem_toDigits hmem) (by decide),
    fun hmem ↦ absurd (hblanks _ hmem) (by decide)⟩

end

/-- A written window with settings is read from its line, whatever blanks stand behind it. -/
theorem exists_ofLine? {style : TimeNotation} (standard : style.IsStandard) {m n : Nat}
    {settings line : List Char} (hsettings : ∀ c ∈ settings.head?, isDecimal c = false)
    (h : trimBack line =
      trimBack ((style.textOfUnits m ++ " --> " ++ style.textOfUnits n).toList ++ settings)) :
    ∃ rest, TimeRange.ofLine? line = some ⟨style.stampOf m, style.stampOf n, rest⟩ := by
  have hsolid : EndsSolid (style.textOfUnits m ++ " --> " ++ style.textOfUnits n).toList := by
    rw [String.toList_append]
    exact (TimeNotation.endsSolid_textOfUnits n).append _
  obtain ⟨blanks, hblanks, hline⟩ := exists_trimBack_append line
  rw [h, Markup.trimBack_solid_append (.inr hsolid), List.append_assoc] at hline
  refine ⟨trimBack settings ++ blanks, ?_⟩
  rw [hline]
  refine TimeRange.ofLine?_append standard m n _ fun c hc ↦ ?_
  rw [List.head?_append, Option.mem_def, Option.or_eq_some_iff] at hc
  rcases hc with hc | ⟨-, hc⟩
  · obtain ⟨more, -, hmore⟩ := exists_trimBack_append settings
    exact hsettings c (by rw [hmore, List.head?_append, hc]; rfl)
  · have hblank := hblanks c (List.mem_of_mem_head? hc)
    rw [← Bool.not_eq_true]
    intro hdecimal
    rw [(isDecimal_plain hdecimal).1] at hblank
    cases hblank

/-! ## What a block costs -/

section

variable {options : ReadOptions} {range : TimeRange} {subtitle found : Subtitle}

/-- What is found in a window is what was put there. -/
theorem text_of_holding (h : (range.holding subtitle).map (Piece.ofSubtitle options) =
    .ok (.subtitle found)) : found.text = subtitle.text := by
  obtain ⟨held, hheld, hpiece⟩ := map_eq_ok.mp h
  obtain ⟨start, -, hheld⟩ := bind_eq_ok.mp hheld
  obtain ⟨stop, -, hheld⟩ := bind_eq_ok.mp hheld
  cases pure_eq_ok.mp hheld
  rw [Piece.ofSubtitle] at hpiece
  split at hpiece
  · cases hpiece
  · cases hpiece
    rfl

end

/-- A block tells no more than the text that may be found in it. -/
theorem BlockFormat.told_le_of_text {format : BlockFormat} {block : List Char} {n : Nat}
    (h : ∀ found, format.piece block = .ok (.subtitle found) → seen found.text.toList ≤ n) :
    format.told block ≤ n := by
  rw [told]
  cases hfound : format.subtitle? block with
  | none => exact Nat.zero_le n
  | some found =>
    obtain ⟨piece, hpiece, hsubtitle⟩ := Option.bind_eq_some_iff.mp hfound
    refine h found ?_
    rw [toOption_eq_some.mp hpiece, Piece.eq_of_subtitle? hsubtitle]

theorem seenIn_of_lines {block number timing : List Char} {body : List (List Char)}
    (h : linesOf block = number :: timing :: body) :
    seenIn (trimmedLines block) = seen number + (seen timing + seenIn body) := by
  rw [trimmedLines, h, seenIn_map_trimBack, seenIn_cons, seenIn_cons]

namespace Srt

theorem seen_textOnly_le (options : ReadOptions) (body : List (List Char)) :
    seen (textOnly options body).text.toList ≤ seenIn body := by
  rw [textOnly, String.toList_ofList, ← seen_bodyText]
  split
  · exact Markup.seen_read_le _
  · exact le_rfl

theorem told_le (options : ReadOptions) {block number timing : List Char} {body : List (List Char)}
    (h : linesOf block = number :: timing :: body) : (format options).told block ≤ seenIn body := by
  refine BlockFormat.told_le_of_text fun found hfound ↦ ?_
  have hfound : piece options block = .ok (.subtitle found) := hfound
  rw [piece, h] at hfound
  dsimp only at hfound
  split at hfound
  · split at hfound
    · rw [subtitleOf_eq] at hfound
      rw [text_of_holding hfound]
      exact seen_textOnly_le options body
    · cases hfound
  · cases hfound

/-- A block with a window has lines above its text, and the second one holds the window. -/
theorem exists_lines {options : ReadOptions} {block : List Char} (h : timing options block ≠ .missing) :
    ∃ number line body range, linesOf block = number :: line :: body ∧
      TimeRange.ofLine? line = some range := by
  rw [timing] at h
  split at h
  · rename_i number line body hlines
    split at h
    · rename_i hrange
      exact ⟨number, line, body, _, hlines, hrange⟩
    · exact absurd rfl h
  · exact absurd rfl h

theorem format_isFrugal (options : ReadOptions) : (format options).IsFrugal where
  told_lt block h := by
    obtain ⟨number, line, body, range, hlines, hrange⟩ := exists_lines h
    have htold := told_le options hlines
    have hseen := one_le_seen_of_ofLine? hrange
    rw [seenIn_of_lines hlines]
    omega
  told_le block number line body h := by
    obtain ⟨first, others, hlines, -, hothers⟩ := List.map_eq_cons_iff.mp h
    obtain ⟨second, rest, rfl, -, rfl⟩ := List.map_eq_cons_iff.mp hothers
    rw [seenIn_map_trimBack]
    exact told_le options hlines

end Srt

namespace Vtt

theorem seen_textOnly_le (options : ReadOptions) (name : String) (settings : List Char)
    (body : List (List Char)) : seen (textOnly options name settings body).text.toList ≤ seenIn body := by
  rw [textOnly, String.toList_ofList, ← seen_bodyText]
  refine le_trans ?_ (seen_withoutTags_le _)
  split
  · exact Markup.seen_read_le _
  · exact le_rfl

theorem told_le (options : ReadOptions) {block timing : List Char} {body : List (List Char)}
    (h : (takeName (linesOf block)).2 = timing :: body) :
    (format options).told block ≤ seenIn body := by
  refine BlockFormat.told_le_of_text fun found hfound ↦ ?_
  have hfound : piece options block = .ok (.subtitle found) := hfound
  rw [piece] at hfound
  split at hfound
  · cases hfound
  · generalize takeName (linesOf block) = parts at h hfound
    obtain ⟨name, lines⟩ := parts
    obtain rfl : lines = timing :: body := h
    dsimp only at hfound
    split at hfound
    · rw [subtitleOf_eq] at hfound
      rw [text_of_holding hfound]
      exact seen_textOnly_le options _ _ body
    · cases hfound

/-- Below the name of a cue stand the other lines. -/
theorem seenIn_takeName_le (lines : List (List Char)) : seenIn (takeName lines).2 ≤ seenIn lines := by
  cases lines with
  | nil => exact le_rfl
  | cons line lines =>
    rw [takeName]
    split
    · exact le_rfl
    · rw [seenIn_cons]
      exact Nat.le_add_left _ _

/-- The word that a block is passed over for is seen. -/
theorem one_le_seen_of_isPassedOver {block : List Char} (h : isPassedOver block = true) :
    1 ≤ seen block := by
  have hopens : ∀ word ∈ ["NOTE", "STYLE", "REGION"], ∃ c letters,
      word.toList = c :: letters ∧ c ≠ '<' ∧ isBlank c = false := by
    simp only [List.forall_mem_cons]
    exact ⟨⟨'N', _, rfl, by decide, by decide⟩, ⟨'S', _, rfl, by decide, by decide⟩,
      ⟨'R', _, rfl, by decide, by decide⟩, List.forall_mem_nil _⟩
  obtain ⟨word, hword, hprefix⟩ := List.any_eq_true.mp h
  obtain ⟨rest, rfl⟩ := List.isPrefixOf_iff_prefix.mp hprefix
  obtain ⟨c, letters, hcons, hbracket, hblank⟩ := hopens word hword
  rw [hcons, List.cons_append, seen_cons hbracket, hblank, if_neg Bool.false_ne_true]
  exact Nat.le_add_right _ _

/-- The number of a cue is its name, whatever blanks stand behind it. -/
theorem takeName_of_trimBack {number : Nat} {first : List Char}
    (h : trimBack first = (toString number).toList) (lines : List (List Char)) :
    takeName (first :: lines) = (toString number, lines) := by
  have harrow : occursIn "-->".toList first = false :=
    occursIn_of_not_mem (dash_not_mem_of_trimBack h) _
  rw [takeName, harrow, if_neg Bool.false_ne_true, trim_of_trimBack h, String.ofList_toList]

/-- A block with a number in front is not passed over. -/
theorem isPassedOver_of_trimBack {number : Nat} {block first : List Char} {lines : List (List Char)}
    (hblock : linesOf block = first :: lines) (h : trimBack first = (toString number).toList) :
    isPassedOver block = false := by
  obtain ⟨d, ds, hdigits, hd⟩ := toDigits_eq_cons number
  obtain ⟨blanks, -, hfirst⟩ := exists_trimBack_append first
  have hjoin := joinWith_splitAll '\n' block
  rw [← linesOf, hblock, joinWith_cons, hfirst, h, toList_toString_nat, hdigits] at hjoin
  rw [← hjoin]
  exact isPassedOver_of_isDigit hd _

theorem format_isFrugal (options : ReadOptions) : (format options).IsFrugal where
  told_lt block h := by
    have h : timing block ≠ .missing := h
    rw [seenIn_trimmedLines]
    rw [timing] at h
    split at h
    · rename_i hpassed
      have hnone : (format options).told block ≤ 0 := by
        refine BlockFormat.told_le_of_text fun found hfound ↦ ?_
        have hfound : piece options block = .ok (.subtitle found) := hfound
        rw [piece, if_pos hpassed] at hfound
        cases hfound
      have hseen := one_le_seen_of_isPassedOver hpassed
      omega
    · split at h
      · rename_i line body hlines
        cases hrange : TimeRange.ofLine? line with
        | none =>
          rw [hrange] at h
          exact absurd rfl h
        | some range =>
          have htold := told_le options hlines
          have hseen := one_le_seen_of_ofLine? hrange
          have hless := seenIn_takeName_le (linesOf block)
          rw [hlines, seenIn_cons, ← seenIn_map_trimBack (linesOf block), ← trimmedLines,
            seenIn_trimmedLines] at hless
          omega
      · exact absurd rfl h
  told_le block number line body h := by
    obtain ⟨first, others, hlines, hfirst, hothers⟩ := List.map_eq_cons_iff.mp h
    obtain ⟨second, rest, rfl, -, rfl⟩ := List.map_eq_cons_iff.mp hothers
    rw [seenIn_map_trimBack]
    exact told_le options (by rw [hlines, takeName_of_trimBack hfirst])

end Vtt

/-! ## What a block tells -/

/-- A subtitle stands laid out for another one that has something to say, and no markup of its own: it
has the same words, and a style whose tags can be read. -/
structure Subtitle.IsLayoutOf (laid subtitle : Subtitle) : Prop where
  unmarked : '<' ∉ subtitle.text.toList
  shown : subtitle.text.toList.all Montage.isBlank = false
  words : wordsIn laid.text.toList = wordsIn subtitle.text.toList
  color : ∀ style ∈ laid.style, Markup.IsPlainColor style

namespace Subtitle.IsLayoutOf

variable {laid subtitle : Subtitle} (h : laid.IsLayoutOf subtitle)
include h

theorem markedText_eq : markedText laid =
    Markup.tagsInFront laid.style ++ (laid.text.toList ++ Markup.tagsAtEnd laid.style) :=
  Markup.toList_write_tags h.color laid.text

theorem unmarked_laid : '<' ∉ laid.text.toList :=
  fun hmem ↦ h.unmarked ((mem_iff_of_wordsIn h.words (by decide)).mp hmem)

theorem shown_markedText : (markedText laid).all Montage.isBlank = false := by
  have htext := h.shown
  rw [← all_isBlank_of_wordsIn h.words] at htext
  rw [h.markedText_eq, List.all_append, List.all_append, htext, Bool.false_and, Bool.and_false]

theorem seen_markedText : seen (markedText laid) = seen subtitle.text.toList := by
  rw [h.markedText_eq, Markup.seen_tags h.color h.unmarked_laid]
  exact seen_of_wordsIn h.unmarked_laid h.unmarked h.words

/-- Lines of the text, blanks at their ends dropped, are a text of the same words between the tags. -/
theorem exists_bodyText {body : List (List Char)}
    (hbody : body.map trimBack = trimmedLines (trimBack (markedText laid))) :
    ∃ t, bodyText body = Markup.tagsInFront laid.style ++ (t ++ Markup.tagsAtEnd laid.style) ∧
      '<' ∉ t ∧ wordsIn t = wordsIn subtitle.text.toList := by
  obtain ⟨t, ht, hwords⟩ := Markup.exists_retold h.color laid.text.toList
  have hsame := hwords.trans h.words
  refine ⟨t, ?_, fun hmem ↦ h.unmarked ((mem_iff_of_wordsIn hsame (by decide)).mp hmem), hsame⟩
  rw [bodyText, hbody, h.markedText_eq, ht]

/-- What has the words of the subtitle is found in its window. -/
theorem exists_found {style : TimeNotation} {m n : Nat} (times : style.AreTimes m n subtitle)
    (options : ReadOptions) (rest : List Char) {textOnly : Subtitle}
    (hwords : wordsIn textOnly.text.toList = wordsIn subtitle.text.toList) :
    ∃ found, (TimeRange.holding ⟨style.stampOf m, style.stampOf n, rest⟩ textOnly).map
        (Piece.ofSubtitle options) = .ok (.subtitle found) ∧
      wordsOf found.text = wordsOf subtitle.text ∧ found.start = subtitle.start.unsigned := by
  let found := { textOnly with start := subtitle.start.unsigned, stop := subtitle.stop.unsigned }
  have hheld : TimeRange.holding ⟨style.stampOf m, style.stampOf n, rest⟩ textOnly = .ok found :=
    bind_eq_ok.mpr ⟨_, times.start.read, bind_eq_ok.mpr ⟨_, times.stop.read, rfl⟩⟩
  have hblank : found.isBlank = false := (all_isBlank_of_wordsIn hwords).trans h.shown
  refine ⟨found, map_eq_ok.mpr ⟨found, hheld, ?_⟩, wordsOf_inj.mpr hwords, rfl⟩
  rw [Piece.ofSubtitle, hblank]
  rfl

end Subtitle.IsLayoutOf

/-- The line of a window, with what follows on it. -/
def timingLine (style : TimeNotation) (settings : Subtitle → String) (subtitle : Subtitle) : List Char :=
  ((style.window subtitle.start subtitle.stop).toOption.getD "").toList ++ (settings subtitle).toList

/-- What may follow on the line of a window: nothing that ends the line, and no digit right behind the
window. -/
structure IsSettingsLine (settings : List Char) : Prop where
  opens : ∀ c ∈ settings.head?, isDecimal c = false
  lineEnds : ∀ c ∈ Markup.lineEnds, c ∉ settings

theorem isSettingsLine_nil : IsSettingsLine [] := ⟨by simp, fun _ _ ↦ List.not_mem_nil⟩

section

variable {style : TimeNotation} {m n : Nat} {settings : Subtitle → String} {laid subtitle : Subtitle}

theorem timingLine_eq (times : style.AreTimes m n subtitle) : timingLine style settings subtitle =
    (style.textOfUnits m ++ " --> " ++ style.textOfUnits n).toList ++ (settings subtitle).toList := by
  rw [timingLine, times.window_eq]
  rfl

theorem lineEnd_not_mem_timingLine (standard : style.IsStandard) (times : style.AreTimes m n subtitle)
    (hsettings : IsSettingsLine (settings subtitle).toList) :
    ∀ c ∈ Markup.lineEnds, c ∉ timingLine style settings subtitle := by
  intro c hc
  rw [timingLine_eq times, List.mem_append, not_or]
  exact ⟨lineEnd_not_mem_window standard m n hc, hsettings.lineEnds c hc⟩

/-- **A subtitle that is laid out can be told in one block**, if a format reads the block from a number,
a window and some text between tags. -/
theorem Subtitle.IsLayoutOf.tells (h : laid.IsLayoutOf subtitle) {format : BlockFormat}
    (standard : style.IsStandard) (times : style.AreTimes m n subtitle)
    (hsettings : IsSettingsLine (settings subtitle).toList)
    (hread : ∀ number < 10 ^ digitLimit, ∀ (block first line : List Char) (body : List (List Char))
      (rest t : List Char), linesOf block = first :: line :: body → body ≠ [] →
      trimBack first = (toString number).toList →
      TimeRange.ofLine? line = some ⟨style.stampOf m, style.stampOf n, rest⟩ →
      bodyText body = Markup.tagsInFront laid.style ++ (t ++ Markup.tagsAtEnd laid.style) → '<' ∉ t →
      wordsIn t = wordsIn subtitle.text.toList →
      ∃ found, format.piece block = .ok (.subtitle found) ∧
        wordsOf found.text = wordsOf subtitle.text ∧ found.start = subtitle.start.unsigned) :
    format.Tells (timingLine style settings subtitle) laid subtitle where
  unmarked := h.unmarked
  lineEnds := lineEnd_not_mem_timingLine standard times hsettings
  inked := by
    have hstop : EndsSolid (style.textOfUnits n).toList := TimeNotation.endsSolid_textOfUnits n
    have hwindow := hstop.append (style.textOfUnits m ++ " --> ").toList
    rw [← String.toList_append] at hwindow
    rw [timingLine_eq times, isInked, List.all_append, hwindow.all_isBlank]
    rfl
  shown := h.shown_markedText
  seen := h.seen_markedText.le
  read number hnumber _ block hlines := by
    obtain ⟨first, others, hblock, hfirst, hothers⟩ := List.map_eq_cons_iff.mp hlines
    obtain ⟨line, body, rfl, hline, hbody⟩ := List.map_eq_cons_iff.mp hothers
    obtain ⟨t, htext, hmarks, hwords⟩ := h.exists_bodyText hbody
    rw [timingLine_eq times] at hline
    obtain ⟨rest, hrange⟩ := exists_ofLine? standard hsettings.opens hline
    have hne : body ≠ [] := by
      rintro rfl
      rw [List.map_nil, eq_comm, trimmedLines, List.map_eq_nil_iff] at hbody
      exact splitAll_ne_nil _ _ hbody
    exact hread number hnumber block first line body rest t hblock hne hfirst hrange htext hmarks hwords

end

namespace Srt

variable {laid subtitle : Subtitle}

theorem tells (strict preserveEmpty : Bool) (h : laid.IsLayoutOf subtitle) {m n : Nat}
    (times : TimeNotation.srt.AreTimes m n subtitle) :
    (format { strict, preserveEmpty }).Tells (timingLine .srt (fun _ ↦ "") subtitle) laid subtitle := by
  refine h.tells TimeNotation.srt_isStandard times isSettingsLine_nil ?_
  intro number hnumber block first line body rest t hblock hne hfirst hrange htext hmarks hwords
  have henough : isEnough { strict, preserveEmpty } body = true := by
    rw [isEnough, Bool.or_eq_true, Bool.not_eq_true', List.isEmpty_eq_false_iff]
    exact .inr hne
  have hread : wordsIn (textOnly { strict, preserveEmpty } body).text.toList =
      wordsIn subtitle.text.toList := by
    show wordsIn (String.ofList (Markup.read (bodyText body)).1).toList = _
    rw [htext, Markup.read_tags h.color hmarks, String.toList_ofList, hwords]
  obtain ⟨found, hfound, hsame⟩ := h.exists_found times { strict, preserveEmpty } rest hread
  refine ⟨found, ?_, hsame⟩
  show piece { strict, preserveEmpty } block = _
  rw [piece, hblock]
  dsimp only
  rw [trim_of_trimBack hfirst, toList_toString_nat, readWhole_toDigits hnumber, hrange]
  dsimp only
  rw [if_pos henough, subtitleOf_eq, hfound]

end Srt

namespace Vtt

variable {laid subtitle : Subtitle}

/-- The tags of a style without a color are none of this format. -/
theorem withoutTags_tags (hcolor : ∀ style ∈ laid.style, style.color = none) {t : List Char}
    (ht : '<' ∉ t) :
    withoutTags (Markup.tagsInFront laid.style ++ (t ++ Markup.tagsAtEnd laid.style)) =
      Markup.tagsInFront laid.style ++ (t ++ Markup.tagsAtEnd laid.style) := by
  have htext : Throughout IsNoTag t := .of_chars fun c hc rest ↦ isNoTag_of_ne (fun h ↦ ht (h ▸ hc)) rest
  have htags : Throughout IsNoTag (Markup.tagsInFront laid.style) ∧
      Throughout IsNoTag (Markup.tagsAtEnd laid.style) := by
    rw [Markup.tagsInFront, Markup.tagsAtEnd]
    cases hpart : laid.style.bind Markup.inlinePart with
    | none => exact ⟨trivial, trivial⟩
    | some part =>
      obtain ⟨style, hstyle, hpart⟩ := Option.bind_eq_some_iff.mp hpart
      refine throughout_tags (fun _ rest hc ↦ isNoTag_of_ne hc rest) isNoTag_opening isNoTag_closing ?_
      rw [Markup.inlinePart] at hpart
      split at hpart
      · cases hpart
      · cases hpart
        rw [Markup.color_inlineStyle, hcolor style hstyle]
        rfl
  have hnone := htags.1.append (htext.append htags.2)
  rw [withoutTags, (hnone.imp fun _ h ↦ h.cue).removeMatches_alone,
    (hnone.imp fun _ h ↦ h.time).removeMatches_alone]

theorem tells (strict preserveEmpty : Bool) (h : laid.IsLayoutOf subtitle)
    (hcolor : ∀ style ∈ laid.style, style.color = none)
    (hsettings : IsSettingsLine (settingsOf subtitle).toList) {m n : Nat}
    (times : TimeNotation.vtt.AreTimes m n subtitle) :
    (format { strict, preserveEmpty }).Tells (timingLine .vtt settingsOf subtitle) laid subtitle := by
  refine h.tells TimeNotation.vtt_isStandard times hsettings ?_
  intro number hnumber block first line body rest t hblock hne hfirst hrange htext hmarks hwords
  have hread : wordsIn (textOnly { strict, preserveEmpty } (toString number) rest body).text.toList =
      wordsIn subtitle.text.toList := by
    show wordsIn (String.ofList (Markup.read (withoutTags (bodyText body))).1).toList = _
    rw [htext, withoutTags_tags hcolor hmarks, Markup.read_tags h.color hmarks, String.toList_ofList,
      hwords]
  obtain ⟨found, hfound, hsame⟩ := h.exists_found times { strict, preserveEmpty } rest hread
  refine ⟨found, ?_, hsame⟩
  have hpassed := isPassedOver_of_trimBack hblock hfirst
  show piece { strict, preserveEmpty } block = _
  rw [piece, hpassed, if_neg Bool.false_ne_true, hblock, takeName_of_trimBack hfirst]
  dsimp only
  rw [hrange]
  dsimp only
  rw [subtitleOf_eq, hfound]

end Vtt
end Montage
