import Mathlib.Data.List.Basic
import Mathlib.Data.List.TakeDrop
import Mathlib.Data.List.TakeWhile
import Montage.Proofs.Outcome
import Montage.Proofs.Style.Notation

/-!
# Colors of subtitle scripts

A script writes the channels of a color in the opposite order and in capitals.  What a tag says for
an opaque color that is itself written in six capital digits is read as the same text
(`Color.ofScript?_turned`): each channel keeps its two digits (`Color.hexText_hexPair`), and turning
the order round twice brings it back.
-/

set_option autoImplicit false

namespace Montage
namespace Color

/-! ## Digits -/

/-- The hexadecimal digits in capitals. -/
def capitals : List Char := "0123456789ABCDEF".toList

theorem hexValue?_of_capital {c : Char} (hc : c ∈ capitals) :
    hexValue? c = some (capitals.idxOf c) := by
  have hall : ∀ c ∈ capitals, hexValue? c = some (capitals.idxOf c) := by decide
  exact hall c hc

theorem toUpper_of_capital {c : Char} (hc : c ∈ capitals) : c.toUpper = c := by
  have hall : ∀ c ∈ capitals, c.toUpper = c := by decide
  exact hall c hc

/-- No mark of a color is one of its digits. -/
theorem ne_of_capital {c : Char} (hc : c ∈ capitals) : c ≠ 'H' ∧ c ≠ 'h' ∧ c ≠ '&' := by
  have hall : ∀ c ∈ capitals, c ≠ 'H' ∧ c ≠ 'h' ∧ c ≠ '&' := by decide
  exact hall c hc

theorem isBlank_of_capital {c : Char} (hc : c ∈ capitals) : isBlank c = false := by
  have hall : ∀ c ∈ capitals, isBlank c = false := by decide
  exact hall c hc

/-- A channel is written with the two digits that it was read from. -/
theorem hexText_hexPair {a b : Char} (ha : a ∈ capitals) (hb : b ∈ capitals) :
    (hexText (hexPair (capitals.idxOf a) (capitals.idxOf b))).toList = [a, b] := by
  have hall : ∀ a ∈ capitals, ∀ b ∈ capitals,
      (hexText (hexPair (capitals.idxOf a) (capitals.idxOf b))).toList = [a, b] := by
    decide +kernel
  exact hall a ha b hb

/-- A byte is written with two digits in capitals, and they stand for it. -/
theorem exists_hexText {n : Nat} (hn : n ≤ 255) : ∃ a ∈ capitals, ∃ b ∈ capitals,
    (hexText n).toList = [a, b] ∧ hexPair (capitals.idxOf a) (capitals.idxOf b) = n := by
  have hhigh : n / 16 < capitals.length := show n / 16 < 16 by omega
  have hlow : n % 16 < capitals.length := Nat.mod_lt n (by decide)
  have hnodup : capitals.Nodup := by decide
  have hpair : hexPair (capitals.idxOf capitals[n / 16]) (capitals.idxOf capitals[n % 16]) = n := by
    rw [hnodup.idxOf_getElem _ hhigh, hnodup.idxOf_getElem _ hlow, hexPair]
    omega
  have hwritten := hexText_hexPair (List.getElem_mem hhigh) (List.getElem_mem hlow)
  rw [hpair] at hwritten
  exact ⟨_, List.getElem_mem hhigh, _, List.getElem_mem hlow, hwritten, hpair⟩

/-! ## Colors -/

/-- A mark and six hexadecimal digits in capitals. -/
def IsNotation (name : String) : Prop :=
  ∃ digits, name.toList = '#' :: digits ∧ digits.length = 6 ∧ ∀ c ∈ digits, c ∈ capitals

/-- The digits of a color with the channels in the opposite order. -/
def turned (name : String) : List Char :=
  match name.toList with
  | [_, r, r', g, g', b, b'] => [b, b', g, g', r, r']
  | _ => []

/-- A color in capitals, digit by digit. -/
theorem IsNotation.exists_digits {name : String} (h : IsNotation name) : ∃ r r' g g' b b',
    name.toList = ['#', r, r', g, g', b, b'] ∧ ∀ c ∈ [r, r', g, g', b, b'], c ∈ capitals := by
  obtain ⟨digits, hname, hlength, hall⟩ := h
  match digits, hlength with
  | [r, r', g, g', b, b'], _ => exact ⟨r, r', g, g', b, b', hname, hall⟩

theorem turned_of_digits {name : String} {c r r' g g' b b' : Char}
    (hname : name.toList = [c, r, r', g, g', b, b']) : turned name = [b, b', g, g', r, r'] := by
  rw [turned, hname]

theorem IsNotation.turned {name : String} (h : IsNotation name) :
    Color.turned name ≠ [] ∧ ∀ c ∈ Color.turned name, c ∈ capitals := by
  obtain ⟨r, r', g, g', b, b', hname, hall⟩ := h.exists_digits
  rw [turned_of_digits hname]
  refine ⟨List.cons_ne_nil _ _, fun c hc ↦ hall c ?_⟩
  simp only [List.mem_cons, List.not_mem_nil, or_false] at hc ⊢
  tauto

section

attribute [local instance] Rounding.binary64

/-- Six digits are the three channels of a color, which is opaque unless an alpha is behind them. -/
theorem ofHex?_of_marked {mark : List Char} (hmark : mark ∈ hexMarks) {r r' g g' b b' : Char}
    (hall : ∀ c ∈ [r, r', g, g', b, b'], c ∈ capitals) {alpha : Option (List Char)}
    (halpha : ∀ a ∈ alpha, IsAlpha a) :
    ofHex? (mark ++ ([r, r', g, g', b, b'] ++ alphaPart alpha))
      = some (withAlpha ⟨hexPair (capitals.idxOf r) (capitals.idxOf r'),
          hexPair (capitals.idxOf g) (capitals.idxOf g'),
          hexPair (capitals.idxOf b) (capitals.idxOf b'), .finite 1⟩ alpha) := by
  have hvalues : [r, r', g, g', b, b'].filterMap hexValue?
      = [r, r', g, g', b, b'].map capitals.idxOf := by
    rw [← List.filterMap_eq_map]
    exact List.filterMap_congr fun c hc ↦ hexValue?_of_capital (hall c hc)
  have hex : IsHex (mark ++ ([r, r', g, g', b, b'] ++ alphaPart alpha)) [r, r', g, g', b, b'] alpha := by
    refine ⟨⟨mark, hmark, rfl⟩, by simp, fun c hc ↦ ?_, halpha⟩
    rw [hexValue?_of_capital (hall c hc), Option.isSome_some]
  exact ofHex?_eq_some.mpr ⟨_, alpha, _, hex, congrArg ofValues? hvalues, rfl⟩

theorem ofHex?_of_capitals {r r' g g' b b' : Char}
    (hall : ∀ c ∈ [r, r', g, g', b, b'], c ∈ capitals) :
    ofHex? ['#', r, r', g, g', b, b'] = some (.ok ⟨hexPair (capitals.idxOf r) (capitals.idxOf r'),
      hexPair (capitals.idxOf g) (capitals.idxOf g'),
      hexPair (capitals.idxOf b) (capitals.idxOf b'), .finite 1⟩) := by
  have hnone : ∀ a ∈ (none : Option (List Char)), IsAlpha a := by rintro a ⟨⟩
  exact ofHex?_of_marked (show ['#'] ∈ hexMarks by decide) hall hnone

/-- An opaque color has nothing in the digits of its alpha. -/
theorem script_opaque (red green blue : Nat) :
    script ⟨red, green, blue, .finite 1⟩
      = .ok ("&H" ++ "00" ++ hexText blue ++ hexText green ++ hexText red) := by
  have hscaled : (Number.real (.finite 1)).mul 255 = .ok (.real (.finite 255)) :=
    toOption_eq_some.mp (by decide +kernel)
  have hsolid : (Number.real (.finite 255)).roundWhole = .ok 255 :=
    toOption_eq_some.mp (by decide +kernel)
  exact bind_eq_ok.mpr ⟨_, hscaled, bind_eq_ok.mpr ⟨_, hsolid, rfl⟩⟩

/-- A text that is a color is not missing. -/
theorem scriptText_of_parse {text : String} {color : Color} (hparse : parse text = .ok (some color))
    (default : String) : scriptText (some text) default = color.script := by
  have hsome : (some text).filter (fun s ↦ !s.isEmpty) = some text := by
    have hne : text.isEmpty = false := by
      rw [← Bool.not_eq_true, String.isEmpty_iff]
      rintro rfl
      cases hparse
    rw [Option.filter_some, hne]
    rfl
  rw [scriptText, hsome, Option.mapM_some, hparse]
  rfl

/-- **A color in capitals is written with its channels turned round.** -/
theorem exists_scriptText {name : String} (h : IsNotation name) :
    ∃ text, scriptText (some name) scriptWhite = .ok text
      ∧ text.toList = '&' :: 'H' :: '0' :: '0' :: turned name := by
  obtain ⟨r, r', g, g', b, b', hname, hall⟩ := h.exists_digits
  have htrim : trim name.toList = name.toList := by
    rw [hname]
    refine stripBy_of_ends (by rintro c ⟨⟩; decide) ?_
    rintro c ⟨⟩
    exact isBlank_of_capital (hall _ (by simp))
  have hparse : parse name = .ok (some ⟨hexPair (capitals.idxOf r) (capitals.idxOf r'),
      hexPair (capitals.idxOf g) (capitals.idxOf g'),
      hexPair (capitals.idxOf b) (capitals.idxOf b'), .finite 1⟩) := by
    rw [parse, htrim, hname, ofHex?_of_capitals hall]
    rfl
  have hscript := script_opaque (hexPair (capitals.idxOf r) (capitals.idxOf r'))
    (hexPair (capitals.idxOf g) (capitals.idxOf g')) (hexPair (capitals.idxOf b) (capitals.idxOf b'))
  refine ⟨_, (scriptText_of_parse hparse scriptWhite).trans hscript, ?_⟩
  simp only [List.forall_mem_cons] at hall
  obtain ⟨hr, hr', hg, hg', hb, hb', -⟩ := hall
  simp only [String.toList_append, hexText_hexPair, hr, hr', hg, hg', hb, hb',
    turned_of_digits hname]
  rfl

end

/-- The last six digits of a script's color are read, in the opposite order. -/
theorem ofScript?_of_digits {s front : List Char} {r r' g g' b b' : Char}
    (hfront : front.length = 0 ∨ front.length = 2)
    (hall : ∀ c ∈ front ++ [b, b', g, g', r, r'], c ∈ capitals)
    (hdigits : (stripBy (· == '&') (trim s)).dropWhile (fun c ↦ c == 'H' || c == 'h')
      = front ++ [b, b', g, g', r, r']) :
    ofScript? s = some (String.ofList ['#', r, r', g, g', b, b']) := by
  have hlength : (front ++ [b, b', g, g', r, r']).length = front.length + 6 := List.length_append
  have hsix : (front.length + 6 == 6 || front.length + 6 == 8) = true := by
    obtain h | h := hfront <;> rw [h] <;> rfl
  have hread : (front ++ [b, b', g, g', r, r']).all (fun c ↦ (hexValue? c).isSome) = true :=
    List.all_eq_true.mpr fun c hc ↦ by rw [hexValue?_of_capital (hall c hc), Option.isSome_some]
  have hdrop : (front ++ [b, b', g, g', r, r']).drop front.length = [b, b', g, g', r, r'] :=
    List.drop_left
  rw [ofScript?, hdigits, hlength, hread, hsix, Nat.add_sub_cancel, hdrop]
  simp only [List.forall_mem_append, List.forall_mem_cons] at hall
  obtain ⟨-, hb, hb', hg, hg', hr, hr', -⟩ := hall
  simp [toUpper_of_capital, hr, hr', hg, hg', hb, hb']

/-- The marks of a script's color go from in front of its digits. -/
theorem dropWhile_marks {digits : List Char} (hall : ∀ c ∈ digits, c ∈ capitals) :
    ('H' :: digits).dropWhile (fun c ↦ c == 'H' || c == 'h') = digits := by
  rw [List.dropWhile_cons_of_pos (by decide)]
  refine dropWhile_of_head fun c hc ↦ ?_
  obtain ⟨hupper, hlower, -⟩ := ne_of_capital (hall c (List.mem_of_head? hc))
  simp [hupper, hlower]

/-- **A color in capitals is read back from its turned digits.** -/
theorem ofScript?_turned {name : String} (h : IsNotation name) :
    ofScript? ('&' :: 'H' :: (turned name ++ ['&'])) = some name := by
  obtain ⟨r, r', g, g', b, b', hname, hall⟩ := h.exists_digits
  have hturned : ∀ c ∈ [b, b', g, g', r, r'], c ∈ capitals := by
    intro c hc
    refine hall c ?_
    simp only [List.mem_cons, List.not_mem_nil, or_false] at hc ⊢
    tauto
  have htrim : ∀ s : List Char, trim ('&' :: (s ++ ['&'])) = '&' :: (s ++ ['&']) :=
    stripBy_between (p := isBlank) (by decide) (by decide)
  have hstrip : stripBy (· == '&') ('&' :: (['H', b, b', g, g', r, r'] ++ ['&']))
      = ['H', b, b', g, g', r, r'] := by
    refine stripBy_within rfl rfl (List.cons_ne_nil _ _) ?_
    rw [List.forall_mem_cons]
    exact ⟨rfl, fun c hc ↦ beq_false_of_ne (ne_of_capital (hturned c hc)).2.2⟩
  rw [turned_of_digits hname, ← List.cons_append]
  rw [ofScript?_of_digits (show [].length = 0 ∨ _ from .inl rfl) hturned, ← hname, String.ofList_toList]
  rw [htrim, hstrip]
  exact dropWhile_marks hturned

/-- The two digits of an alpha are read over. -/
theorem ofScript?_of_eight {front : List Char} {r r' g g' b b' : Char} (hfront : front.length = 2)
    (hall : ∀ c ∈ front ++ [b, b', g, g', r, r'], c ∈ capitals) :
    ofScript? ('&' :: 'H' :: (front ++ [b, b', g, g', r, r']))
      = some (String.ofList ['#', r, r', g, g', b, b']) := by
  have hlast : r' ∈ capitals := hall r' (by simp)
  have hend : ('H' :: (front ++ [b, b', g, g', r, r'])).getLast? = some r' := by
    rw [← List.cons_append, List.getLast?_append]
    rfl
  have htrim : trim ('&' :: 'H' :: (front ++ [b, b', g, g', r, r']))
      = '&' :: 'H' :: (front ++ [b, b', g, g', r, r']) := by
    refine stripBy_of_ends (by rintro c ⟨⟩; decide) fun c hc ↦ ?_
    rw [List.getLast?_cons, hend] at hc
    cases hc
    exact isBlank_of_capital hlast
  have hstrip : stripBy (· == '&') ('H' :: (front ++ [b, b', g, g', r, r']))
      = 'H' :: (front ++ [b, b', g, g', r, r']) := by
    refine stripBy_of_ends (by rintro c ⟨⟩; decide) fun c hc ↦ ?_
    rw [hend] at hc
    cases hc
    exact beq_false_of_ne (ne_of_capital hlast).2.2
  refine ofScript?_of_digits (.inr hfront) hall ?_
  rw [htrim]
  -- the mark in front goes, and what is left has none
  show (stripBy (· == '&') ('H' :: _)).dropWhile _ = _
  rw [hstrip]
  exact dropWhile_marks hall

end Color
end Montage
