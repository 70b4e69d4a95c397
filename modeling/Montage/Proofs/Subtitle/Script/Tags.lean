import Montage.Proofs.Number.Text
import Montage.Proofs.Style.Color
import Montage.Proofs.Text.Match
import Montage.Subtitle.Script.Override

/-!
# Override tags are read back

A tag that is written before the next tag or at the end of its block is taken off the front of the
block (`Script.takeTag_written`): the name that is found first is its own, since no name that is
tried before is a prefix of what stands there, and its value ends where the next tag begins.  So the
tags of a block are the tags that it was written for (`Script.tagsOf_written`), and the text behind
the block is what is seen of the line.
-/

set_option autoImplicit false

namespace Montage
namespace Script

/-! ## Values -/

/-- The characters that end a block or a line. -/
def ends : List Char := ['\x7d', '\n', '\r']

/-- A value that is taken off the front of a text that goes on with the next tag, that trimming
takes nothing from, and that neither its block nor its line ends in. -/
structure IsTagValue (value : List Char) : Prop where
  taken : ∀ rest, endsTag rest = true → takeTagValue (value ++ rest) = (value, rest)
  trimmed : trim value = value
  inside : ∀ c ∈ ends, c ∉ value

theorem takeTagValue_of_ne {s : List Char} (h : ∀ c ∈ s.head?, c ≠ '(' ∧ c ≠ '&') :
    takeTagValue s = s.span fun c ↦ isDecimal c || c == '.' := by
  rw [takeTagValue.eq_def]
  split
  · exact absurd rfl (h '(' rfl).1
  · exact absurd rfl (h '&' rfl).2
  · rfl

theorem isTagValue_plain {value : List Char} (h : ∀ c ∈ value, c.isDigit = true ∨ c = '.') :
    IsTagValue value := by
  have hplain : ∀ c ∈ value, (isDecimal c || c == '.') = true := by
    intro c hc
    rw [Bool.or_eq_true, beq_iff_eq]
    exact (h c hc).imp_left isDecimal_of_isDigit
  refine ⟨fun rest hrest ↦ ?_, trim_numeral fun c hc ↦ ?_, fun c hc hmem ↦ ?_⟩
  · have hstop : ∀ c ∈ rest.head?, (isDecimal c || c == '.') = false ∧ c ≠ '(' ∧ c ≠ '&' := by
      intro c hc
      cases rest with
      | nil => cases hc
      | cons d rest =>
        cases hc
        rw [beq_iff_eq.mp hrest]
        decide
    have hopen : ∀ c ∈ (value ++ rest).head?, c ≠ '(' ∧ c ≠ '&' := by
      intro c hc
      cases value with
      | nil => exact (hstop c hc).2
      | cons d value =>
        cases hc
        constructor <;> rintro rfl <;> exact absurd (hplain _ List.mem_cons_self) (by decide)
    rw [takeTagValue_of_ne hopen]
    exact span_append hplain fun c hc ↦ (hstop c hc).1
  · rcases h c hc with hdigit | rfl
    · exact isNumeralChar_of_digit hdigit
    · rfl
  · have hplain : ∀ c ∈ ends, ¬ (c.isDigit = true ∨ c = '.') := by decide
    exact hplain c hc (h c hmem)

theorem isTagValue_brackets {inner : List Char} (h : ')' ∉ inner)
    (hinside : ∀ c ∈ ends, c ∉ inner) : IsTagValue ('(' :: (inner ++ [')'])) := by
  refine ⟨fun rest _ ↦ ?_, stripBy_between (p := isBlank) (by decide) (by decide) inner, ?_⟩
  · have htext : '(' :: (inner ++ [')']) ++ rest = '(' :: (inner ++ ')' :: rest) := by
      rw [List.cons_append, List.append_assoc, List.singleton_append]
    rw [htext, takeTagValue, lengthThrough_append h, ← htext]
    dsimp only
    rw [List.take_left' (by simp), List.drop_left' (by simp)]
  · intro c hc
    have hmarks : ∀ c ∈ ends, c ≠ '(' ∧ c ≠ ')' := by decide
    simp [hmarks c hc, hinside c hc]

theorem isTagValue_color {digits : List Char} (hne : digits ≠ [])
    (h : ∀ c ∈ digits, c ∈ Color.capitals) : IsTagValue ('&' :: 'H' :: (digits ++ ['&'])) := by
  refine ⟨fun rest _ ↦ ?_, stripBy_between (p := isBlank) (by decide) (by decide) ('H' :: digits), ?_⟩
  · have hvalue : ∀ c ∈ digits, (hexValue? c).isSome = true := fun c hc ↦ by
      rw [Color.hexValue?_of_capital (h c hc), Option.isSome_some]
    have hspan : (digits ++ '&' :: rest).takeWhile (fun c ↦ (hexValue? c).isSome) = digits := by
      rw [List.takeWhile_append_of_pos hvalue, List.takeWhile_cons_of_neg (by decide),
        List.append_nil]
    have hsome : digits.isEmpty = false := by rwa [List.isEmpty_eq_false_iff]
    have htext : '&' :: 'H' :: (digits ++ ['&']) ++ rest = '&' :: 'H' :: (digits ++ '&' :: rest) := by
      rw [List.cons_append, List.cons_append, List.append_assoc, List.singleton_append]
    rw [htext, takeTagValue, hspan, hsome, List.drop_left, List.head?_cons, if_pos rfl, ← htext,
      if_neg Bool.false_ne_true, List.take_left' (by simp), List.drop_left' (by simp)]
  · intro c hc
    have hmarks : ∀ c ∈ ends, c ≠ '&' ∧ c ≠ 'H' ∧ c ∉ Color.capitals := by decide
    obtain ⟨hmark, hletter, hcapital⟩ := hmarks c hc
    have hdigits : c ∉ digits := fun hmem ↦ hcapital (h c hmem)
    simp [hmark, hletter, hdigits]

/-! ## Tags -/

/-- The name under which a tag is written. -/
def Tag.word : Tag → List Char
  | .align => "an".toList
  | .place => "pos".toList
  | .fade => "fad".toList
  | .size => "fs".toList
  | .outline => "bord".toList
  | .color => "c".toList
  | .outlineColor => "3c".toList
  | .bold => "b".toList
  | .slanted => "i".toList
  | .underlined => "u".toList

/-- A tag with its value, as it is written. -/
def written (tag : Tag × List Char) : List Char := '\\' :: (tag.1.word ++ tag.2)

/-- A tag that can be written.  The name of the tag for bold letters begins a longer name, which
must not go on with its value. -/
structure IsWritten (tag : Tag × List Char) : Prop where
  value : IsTagValue tag.2
  bold : tag.1 = .bold → tag.2 = ['1']

theorem takeTag_of_names (front : List (String × Tag)) {back : List (String × Tag)}
    {name : String} {tag : Tag} (hnames : tagNames = front ++ (name, tag) :: back) {value rest : List Char}
    (hfront : ∀ entry ∈ front, entry.1.toList.isPrefixOf (name.toList ++ (value ++ rest)) = false)
    (hvalue : takeTagValue (value ++ rest) = (value, rest)) (hrest : endsTag rest = true) :
    takeTag ('\\' :: (name.toList ++ (value ++ rest)))
      = some ((tag, trim value), ('\\' :: (name.toList ++ value)).length) := by
  have hnone : ∀ (β : Type) (f : String × Tag → Option β), (∀ entry ∈ front, f entry = none) →
      front.findSome? f = none := fun β f h ↦ List.findSome?_eq_none_iff.mpr h
  have hprefix : name.toList.isPrefixOf (name.toList ++ (value ++ rest)) = true := by
    rw [List.isPrefixOf_iff_prefix]
    exact List.prefix_append _ _
  rw [takeTag, hnames, List.findSome?_append, hnone, Option.none_or, List.findSome?_cons]
  · dsimp only
    rw [if_pos hprefix, ← String.length_toList, List.drop_left, hvalue]
    dsimp only
    have hlength : consumed ('\\' :: (name.toList ++ (value ++ rest))) rest
        = ('\\' :: (name.toList ++ value)).length := by
      simp only [consumed, List.length_cons, List.length_append]
      omega
    rw [if_pos hrest, hlength]
  · rintro ⟨other, _⟩ hentry
    dsimp only
    rw [hfront _ hentry]
    rfl

/-- **A written tag is taken off the front of what it stands before.** -/
theorem takeTag_written {tag : Tag × List Char} (h : IsWritten tag) {rest : List Char}
    (hrest : endsTag rest = true) :
    takeTag (written tag ++ rest) = some (tag, (written tag).length) := by
  obtain ⟨tag, value⟩ := tag
  have htext : written (tag, value) ++ rest = '\\' :: (tag.word ++ (value ++ rest)) := by
    rw [written, List.cons_append, List.append_assoc]
  have hvalue := h.value.taken rest hrest
  have htrim := h.value.trimmed
  have hbold := h.bold
  dsimp only at hvalue htrim hbold
  have htake : takeTag ('\\' :: (tag.word ++ (value ++ rest)))
      = some ((tag, trim value), (written (tag, value)).length) := by
    -- no name that is tried before begins what stands there
    cases tag with
    | align => exact takeTag_of_names [] rfl (by simp) hvalue hrest
    | place =>
      refine takeTag_of_names (tagNames.take 1) rfl ?_ hvalue hrest
      simp [tagNames, List.isPrefixOf]
    | fade =>
      refine takeTag_of_names (tagNames.take 2) rfl ?_ hvalue hrest
      simp [tagNames, List.isPrefixOf]
    | size =>
      refine takeTag_of_names (tagNames.take 3) rfl ?_ hvalue hrest
      simp [tagNames, List.isPrefixOf]
    | outline =>
      refine takeTag_of_names (tagNames.take 4) rfl ?_ hvalue hrest
      simp [tagNames, List.isPrefixOf]
    | outlineColor =>
      refine takeTag_of_names (tagNames.take 6) rfl ?_ hvalue hrest
      simp [tagNames, List.isPrefixOf]
    | color =>
      refine takeTag_of_names (tagNames.take 7) rfl ?_ hvalue hrest
      simp [tagNames, List.isPrefixOf]
    | bold =>
      refine takeTag_of_names (tagNames.take 8) rfl ?_ hvalue hrest
      simp [tagNames, List.isPrefixOf, hbold]
    | slanted =>
      refine takeTag_of_names (tagNames.take 9) rfl ?_ hvalue hrest
      simp [tagNames, List.isPrefixOf]
    | underlined =>
      refine takeTag_of_names (tagNames.take 10) rfl ?_ hvalue hrest
      simp [tagNames, List.isPrefixOf]
  rw [htext, htake, htrim]

/-! ## Blocks -/

section

variable {tags : List (Tag × List Char)} (h : ∀ tag ∈ tags, IsWritten tag)
include h

/-- **The tags of a block are the tags that it was written for.** -/
theorem tagsOf_written : tagsOf (tags.flatMap written) = tags := by
  induction tags with
  | nil => rfl
  | cons tag tags ih =>
    rw [List.forall_mem_cons] at h
    have hends : endsTag (tags.flatMap written) = true := by
      cases tags <;> rfl
    rw [List.flatMap_cons, tagsOf,
      allMatches_hit (s := written tag) (List.cons_ne_nil _ _) (takeTag_written h.1 hends)]
    exact congrArg (tag :: ·) (ih h.2)

theorem not_mem_written {c : Char} (hc : c ∈ ends) : c ∉ tags.flatMap written := by
  have hwords : ∀ c ∈ ends, c ≠ '\\' ∧ ∀ tag : Tag, c ∉ tag.word := by
    have hmark : ∀ c ∈ ends, c ≠ '\\' := by decide
    exact fun c hc ↦ ⟨hmark c hc, fun tag ↦ by revert c; cases tag <;> decide⟩
  obtain ⟨hmark, hword⟩ := hwords c hc
  rw [List.mem_flatMap]
  rintro ⟨tag, htag, hmem⟩
  rw [written, List.mem_cons, List.mem_append] at hmem
  rcases hmem with hmem | hmem | hmem
  · exact hmark hmem
  · exact hword tag.1 hmem
  · exact (h tag htag).value.inside c hc hmem

end

/-- The block of some tags; without tags there is none. -/
def blockOf (tags : List (Tag × List Char)) : List Char :=
  if tags.isEmpty then [] else '\x7b' :: (tags.flatMap written ++ ['\x7d'])

theorem takeBlock_block {inner : List Char} (h : '\x7d' ∉ inner) (rest : List Char) :
    takeBlock ('\x7b' :: (inner ++ ['\x7d']) ++ rest)
      = some (inner, ('\x7b' :: (inner ++ ['\x7d'])).length) := by
  rw [List.cons_append, List.append_assoc, List.singleton_append, takeBlock, lengthThrough_append h]
  dsimp only
  rw [List.take_left, List.length_cons, List.length_append, List.length_singleton]

/-- There is no block in a text without braces. -/
theorem takeBlock_free {text : List Char} (h : '\x7b' ∉ text) :
    Throughout (fun s ↦ takeBlock s = none) text := by
  refine .of_chars fun c hc rest ↦ ?_
  rw [takeBlock.eq_def]
  split
  · rename_i heq
    rw [(List.cons.inj heq).1] at hc
    exact absurd hc h
  · rfl

section

variable {tags : List (Tag × List Char)} {text : List Char} (h : ∀ tag ∈ tags, IsWritten tag)
  (htext : '\x7b' ∉ text)
include h htext

/-- **The overrides of a line are those of the tags of its block.** -/
theorem overridesOf_block [Rounding] :
    overridesOf (blockOf tags ++ text) = ({} : Overrides).addAll tags := by
  have hnone := (takeBlock_free htext).allMatches_alone
  rw [overridesOf, blockOf]
  split
  · rename_i hempty
    rw [List.isEmpty_iff.mp hempty, List.nil_append, hnone]
    rfl
  · rw [allMatches_hit (List.cons_ne_nil _ _) (takeBlock_block (not_mem_written h (by decide)) text), hnone,
      List.flatMap_singleton, tagsOf_written h]

/-- **The block of a line is not seen.** -/
theorem removeMatches_block : removeMatches blockLength (blockOf tags ++ text) = text := by
  have hfree : Throughout (fun s ↦ blockLength s = 0) text :=
    (takeBlock_free htext).imp fun s hs ↦ by rw [blockLength, hs]; rfl
  have hnone := hfree.removeMatches_alone
  rw [blockOf]
  split
  · exact hnone
  · refine (removeMatches_hit (List.cons_ne_nil _ _) ?_).trans hnone
    rw [blockLength, takeBlock_block (not_mem_written h (by decide)) text]
    rfl

end

/-- **The text of a line is seen as it was.** -/
theorem visibleText_line {tags : List (Tag × List Char)} (h : ∀ tag ∈ tags, IsWritten tag)
    {text : List Char} (hbrace : '\x7b' ∉ text) (hmark : '\\' ∉ text) :
    visibleText (blockOf tags ++ replaceChar '\n' ['\\', 'N'] text) = text := by
  have hfree : '\x7b' ∉ replaceChar '\n' ['\\', 'N'] text := not_mem_replaceChar _ hbrace (by decide)
  rw [visibleText, removeMatches_block h hfree, replaceAll_replaceChar hmark,
    replaceAll_of_not_mem hmark, replaceAll_of_not_mem hmark]

end Script
end Montage
