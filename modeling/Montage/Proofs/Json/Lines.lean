import Montage.Proofs.Json.RoundTrip

/-!
# Lines of documents

The text of a document ends its lines with line feeds alone: a carriage return in a string is
escaped.  Bringing line ends to line feeds leaves such a text as it is.
-/

set_option autoImplicit false

namespace Montage
namespace Json

variable {format : Format}

/-! ## Strings and numbers -/

theorem unitEscape_lineFeeds {n : Nat} (hn : n < 0x10000) : '\r' ∉ unitEscape n := by
  have hdigit : ∀ d < 16, '\r' ≠ d.digitChar := by decide
  rw [unitEscape, hexDigits_four hn]
  simp [hdigit (n / 4096) (by omega), hdigit (n / 256 % 16) (by omega),
    hdigit (n / 16 % 16) (by omega), hdigit (n % 16) (by omega)]

theorem escapedChar_lineFeeds (asciiOnly : Bool) (c : Char) : '\r' ∉ escapedChar asciiOnly c := by
  have hescape := isEscape_escapedChar asciiOnly c
  generalize escapedChar asciiOnly c = text at hescape
  cases hescape with
  | @letter e he hread =>
    have hletter : e ≠ '\r' := by
      rintro rfl
      cases hread
    simp [hletter.symm]
  | same hquote hmark hcontrol =>
    rw [List.mem_singleton]
    rintro rfl
    exact hcontrol (by decide)
  | unit hn => exact unitEscape_lineFeeds hn
  | halves hhigh hlow hvalue =>
    rw [List.mem_append, not_or]
    exact ⟨unitEscape_lineFeeds (by have := hhigh.2; omega),
      unitEscape_lineFeeds (by have := hlow.2; omega)⟩

theorem codesText_lineFeeds (asciiOnly : Bool) {codes : List Nat} (h : AreCodes codes) :
    '\r' ∉ (codesText asciiOnly codes).toList := by
  have hcodes : ∀ n ∈ codes, '\r' ∉ escapedCode asciiOnly n := by
    intro n hn
    rw [escapedCode]
    split
    · exact escapedChar_lineFeeds asciiOnly _
    · rename_i hvalid
      refine unitEscape_lineFeeds ?_
      rcases (h.known n hn).resolve_left hvalid with hhalf | hhalf <;> have := hhalf.2 <;> omega
  rw [codesText, String.toList_ofList]
  simpa using hcodes

theorem numberText_lineFeeds (format : Format) (n : Number) :
    '\r' ∉ (numberText format n).toList := by
  have hnumeral : ∀ {s : List Char}, (∀ c ∈ s, isNumeralChar c = true) → '\r' ∉ s := by
    intro s hs hmem
    exact absurd (hs _ hmem) (by decide)
  unfold numberText
  split
  · split <;> decide
  · split
    · split <;> decide
    · decide
  · cases n with
    | whole n => exact hnumeral (toString_int_numeral n)
    | real x => exact hnumeral (display_numeral _ x)

/-! ## Documents -/

section

variable (hbreak : ∀ indent ∈ format.indent, '\r' ∉ indent.toList)
include hbreak

theorem lineBreak_lineFeeds (depth : Nat) : '\r' ∉ (format.lineBreak depth).toList := by
  rw [Format.lineBreak]
  cases hindent : format.indent with
  | none => simp
  | some indent =>
    have hblank := hbreak indent hindent
    have hlevels : '\r' ∉ (String.join (List.replicate depth indent)).toList := by
      induction depth with
      | zero => simp
      | succ depth ih =>
        rw [List.replicate_succ, String.join_cons, String.toList_append, List.mem_append, not_or]
        exact ⟨hblank, ih⟩
    dsimp only
    rw [String.toList_append, List.mem_append, not_or]
    exact ⟨by decide, hlevels⟩

theorem separator_lineFeeds (depth : Nat) : '\r' ∉ (format.separator depth).toList := by
  rw [Format.separator]
  split
  · decide
  · rw [String.toList_append, List.mem_append, not_or]
    exact ⟨by decide, lineBreak_lineFeeds hbreak depth⟩

theorem itemsText_lineFeeds (depth : Nat) {items : List Json}
    (inner : ∀ item ∈ items, ∀ depth, '\r' ∉ (textAt format depth item).toList) :
    '\r' ∉ (itemsText format depth items).toList := by
  induction items with
  | nil => simp [itemsText]
  | cons item more ih =>
    rw [List.forall_mem_cons] at inner
    cases more with
    | nil => exact inner.1 depth
    | cons next more =>
      rw [itemsText]
      · simp [inner.1 depth, separator_lineFeeds hbreak depth, ih inner.2]
      · rintro ⟨⟩

theorem membersText_lineFeeds (depth : Nat) {members : List (String × Json)}
    (inner : ∀ member ∈ members, ∀ depth, '\r' ∉ (textAt format depth member.2).toList) :
    '\r' ∉ (membersText format depth members).toList := by
  have hmember : ∀ member ∈ members, '\r' ∉ (memberText format depth member).toList := by
    intro member h
    have hkey := codesText_lineFeeds format.asciiOnly (areCodes_toNat member.1.toList)
    rw [codesText_toNat] at hkey
    simp [memberText, hkey, inner member h depth]
  induction members with
  | nil => simp [membersText]
  | cons member more ih =>
    rw [List.forall_mem_cons] at inner hmember
    cases more with
    | nil => exact hmember.1
    | cons next more =>
      rw [membersText_cons]
      simp [hmember.1, separator_lineFeeds hbreak depth, ih inner.2 hmember.2]

theorem IsReadable.lineFeeds {v : Json} (h : v.IsReadable) (depth : Nat) :
    '\r' ∉ (textAt format depth v).toList := by
  induction h generalizing depth with
  | null =>
    rw [textAt]
    decide
  | bool b =>
    rw [textAt]
    cases b <;> decide
  | whole short =>
    rw [textAt]
    exact numberText_lineFeeds format _
  | quantity grid =>
    rw [textAt]
    exact numberText_lineFeeds format _
  | str s =>
    rw [textAt, ← codesText_toNat]
    exact codesText_lineFeeds _ (areCodes_toNat _)
  | garbled known half =>
    rw [textAt]
    exact codesText_lineFeeds _ known
  | @arr items inner ih =>
    cases items with
    | nil =>
      rw [textAt]
      decide
    | cons item more =>
      have hitems := itemsText_lineFeeds hbreak (depth + 1) ih
      rw [textAt]
      · simp [hitems, lineBreak_lineFeeds hbreak]
      · rintro ⟨⟩
  | @obj members distinct inner ih =>
    cases members with
    | nil =>
      rw [textAt]
      decide
    | cons member more =>
      have hmembers := membersText_lineFeeds hbreak (depth + 1) ih
      rw [textAt]
      · simp [hmembers, lineBreak_lineFeeds hbreak]
      · rintro ⟨⟩

end

end Json
end Montage
