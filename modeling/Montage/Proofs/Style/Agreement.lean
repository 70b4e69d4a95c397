import Montage.Proofs.Style.Range

/-!
# Colors in the notations of filters and scripts

A color is read in many notations and written in two.  Both writers and both readers agree on what
the channels are: the color that is written for a filter is read with the channels that the text has,
and so is the color `#RRGGBB` that a script's color is turned back into (`Color.notations_agree`).

The alpha is another matter.  A script counts it with a byte, and turning the color back drops it.  A
filter writes it with three places, so that it is read as the rounded one; the text of that number
never has an exponent, which no alpha may have.
-/

set_option autoImplicit false

namespace Montage
namespace Color

section

attribute [local instance] Rounding.binary64

/-! ## Alphas -/

theorem isOpacity_of_value? {x : Quantity} {q : Rat} (hx : x.value? = some q) (hlow : 0 ≤ q)
    (hhigh : q ≤ 1) : IsOpacity x :=
  ⟨(Quantity.le_iff_value? rfl hx).mpr hlow, (Quantity.le_iff_value? hx rfl).mpr hhigh⟩

/-- An alpha made more transparent is an alpha: rounding the product does not lead beyond one. -/
theorem IsOpacity.mul {x y : Quantity} (hx : IsOpacity x) (hy : IsOpacity y) :
    IsOpacity (x.mul y) := by
  obtain ⟨p, hp, hpzero, hpone⟩ := hx.exists_value?
  obtain ⟨q, hq, hqzero, hqone⟩ := hy.exists_value?
  rw [Quantity.mul, hp, hq]
  dsimp only
  split
  · exact isOpacity_of_value? (Quantity.value?_zero _) le_rfl zero_le_one
  · obtain ⟨v, hv, -, hlow, hhigh⟩ := exists_binary64_between isOnGrid_zero isOnGrid_one le_rfl
      (mul_nonneg hpzero hqzero) (mul_le_one₀ hpone hqzero hqone)
    rw [show Rounding.round (p * q) = .finite v from hv]
    exact isOpacity_of_value? rfl hlow hhigh

/-- An opacity of either kind of number makes an alpha more transparent. -/
theorem IsOpacity.exists_product {x : Quantity} (hx : IsOpacity x) {opacity : Number}
    (ho : IsOpacity opacity.exactly) :
    ∃ product, (Number.real x).mul opacity = .ok (.real product) ∧ IsOpacity product := by
  cases opacity with
  | real y => exact ⟨x.mul y, rfl, hx.mul ho⟩
  | whole n =>
    obtain ⟨q, hq, hzero, hone⟩ := ho.exists_value?
    obtain rfl : (n : Rat) = q := Option.some.inj hq
    have hlow : 0 ≤ n := by exact_mod_cast hzero
    have hhigh : n ≤ 1 := by exact_mod_cast hone
    obtain ⟨n, rfl⟩ := Int.eq_ofNat_of_zero_le hlow
    have hwhole : (Number.whole n).toQuantity = .ok (.finite n) :=
      binary64_isGrid.toQuantity_natCast (by omega)
    exact ⟨_, Number.mul_whole hwhole x, hx.mul ho⟩

/-- An alpha with three places is zero, or neither small nor above one. -/
theorem IsOpacity.roundPlaces_cases {x : Quantity} (hx : IsOpacity x) :
    (x.roundPlaces 3).value? = some 0 ∨
      ∃ v, x.roundPlaces 3 = .finite v ∧ IsOnGrid v ∧ 1 / 1024 ≤ v ∧ v ≤ 1 := by
  obtain ⟨q, hq, hzero, hone⟩ := hx.exists_value?
  obtain ⟨m, hplace, -⟩ := exists_nearestPlace hzero 3
  have htop := nearestPlace_le (n := 1000) 3 (by norm_num) hone hzero
  rw [Quantity.roundPlaces, hq]
  dsimp only
  split
  · exact .inl (Quantity.value?_zero _)
  · rename_i hne
    have hm : (1 : Rat) ≤ m := by
      refine Nat.one_le_cast.mpr (Nat.one_le_iff_ne_zero.mpr fun hm ↦ hne ?_)
      rw [hplace, hm, Nat.cast_zero, zero_div]
    have hbottom : 1 / 1024 ≤ nearestPlace q (3 : Nat) := by
      rw [hplace]
      linarith
    exact .inr (exists_binary64_between (by decide +kernel) isOnGrid_one (by norm_num) hbottom htop)

/-- **The text of an alpha with three places is an alpha again**, and it is read as that number. -/
theorem IsOpacity.exists_read {x : Quantity} (hx : IsOpacity x) :
    IsAlpha (Number.real (x.roundPlaces 3)).text.toList ∧
      ∃ y, readQuantity (Number.real (x.roundPlaces 3)).text.toList = .ok y ∧
        y.eq (x.roundPlaces 3) = true := by
  obtain hzero | ⟨v, hv, hgrid, hlow, hhigh⟩ := hx.roundPlaces_cases
  · have htext : (Number.real (x.roundPlaces 3)).text = (Number.real (.finite 0)).text := by
      rw [Number.text, hzero]
      rfl
    rw [htext]
    refine ⟨⟨by decide, ?_⟩, .finite 0, isOnGrid_zero.readQuantity_text,
      (Quantity.eq_iff_value? rfl hzero).mpr rfl⟩
    exact List.forall_mem_singleton.mpr (.inl (by decide))
  · rw [hv]
    refine ⟨⟨text_ne_nil _, fun c hc ↦ ?_⟩, .finite v, hgrid.readQuantity_text,
      (Quantity.eq_iff_value? rfl rfl).mpr rfl⟩
    exact (hgrid.text_positional hlow (by linarith) c hc).imp_left isDecimal_of_isDigit

/-! ## Colors that are read -/

/-- The channels of a color that is read are bytes. -/
theorem channels_of_parse {text : String} {color : Color} (h : parse text = .ok (some color)) :
    color.red ≤ 255 ∧ color.green ≤ 255 ∧ color.blue ≤ 255 := by
  obtain ⟨digits, alpha, hex⟩ | ⟨red, green, blue, alpha, call⟩ | hname := shape_cases text
  · obtain ⟨base, hbase, hparse⟩ := parse_of_hex hex
    rw [h] at hparse
    obtain ⟨found, hfound, heq⟩ := map_eq_ok.mp hparse.symm
    obtain rfl := Option.some.inj heq
    cases alpha with
    | none =>
      cases hfound
      exact ⟨hbase.red, hbase.green, hbase.blue⟩
    | some alpha =>
      obtain ⟨x, -, rfl⟩ := map_eq_ok.mp hfound
      exact ⟨hbase.red, hbase.green, hbase.blue⟩
  · rw [parse_of_call call] at h
    obtain ⟨found, hfound, heq⟩ := map_eq_ok.mp h
    obtain rfl := Option.some.inj heq
    obtain ⟨r, hr, hfound⟩ := bind_eq_ok.mp hfound
    obtain ⟨g, hg, hfound⟩ := bind_eq_ok.mp hfound
    obtain ⟨b, hb, hfound⟩ := bind_eq_ok.mp hfound
    obtain ⟨x, -, hfound⟩ := bind_eq_ok.mp hfound
    cases hfound
    rw [call.red.channel_eq_ok] at hr
    rw [call.green.channel_eq_ok] at hg
    rw [call.blue.channel_eq_ok] at hb
    rw [hr.2, hg.2, hb.2]
    exact ⟨min_le_left _ _, min_le_left _ _, min_le_left _ _⟩
  · rw [h] at hname
    have hrange := isInRange_ofName? (Except.ok.inj hname).symm
    exact ⟨hrange.red, hrange.green, hrange.blue⟩

theorem isBlank_of_mark {mark : List Char} (hmark : mark ∈ hexMarks) :
    ∀ c ∈ mark, isBlank c = false := by
  have hall : ∀ mark ∈ hexMarks, ∀ c ∈ mark, isBlank c = false := by decide
  exact hall mark hmark

theorem isBlank_of_alphaPart {alpha : Option (List Char)} (halpha : ∀ a ∈ alpha, IsAlpha a) :
    ∀ c ∈ alphaPart alpha, isBlank c = false := by
  cases alpha with
  | none => exact List.forall_mem_nil _
  | some a =>
    rw [alphaPart, List.forall_mem_cons]
    exact ⟨by decide, fun c hc ↦ ((halpha a rfl).chars c hc).isBlank_eq⟩

/-- **Channels in capitals are read behind every mark**, with the alpha that is behind them. -/
theorem IsInRange.parse_written {color : Color} (h : color.IsInRange) {mark : List Char}
    (hmark : mark ∈ hexMarks) {alpha : Option (List Char)} (halpha : ∀ a ∈ alpha, IsAlpha a)
    {text : String} (htext : text.toList = mark ++ ((hexText color.red).toList
      ++ (hexText color.green).toList ++ (hexText color.blue).toList ++ alphaPart alpha)) :
    parse text = (withAlpha { color with alpha := .finite 1 } alpha).map some := by
  obtain ⟨r, hr, r', hr', hred, hpairR⟩ := exists_hexText h.red
  obtain ⟨g, hg, g', hg', hgreen, hpairG⟩ := exists_hexText h.green
  obtain ⟨b, hb, b', hb', hblue, hpairB⟩ := exists_hexText h.blue
  have hall : ∀ c ∈ [r, r', g, g', b, b'], c ∈ capitals := by
    simp only [List.forall_mem_cons]
    exact ⟨hr, hr', hg, hg', hb, hb', List.forall_mem_nil _⟩
  rw [hred, hgreen, hblue] at htext
  have hsolid : ∀ c ∈ text.toList, isBlank c = false := by
    rw [htext, List.forall_mem_append, List.forall_mem_append]
    exact ⟨isBlank_of_mark hmark, fun c hc ↦ isBlank_of_capital (hall c hc),
      isBlank_of_alphaPart halpha⟩
  have htrim : trim text.toList = text.toList :=
    stripBy_of_ends (fun c hc ↦ hsolid c (List.mem_of_head? hc))
      fun c hc ↦ hsolid c (List.mem_of_getLast? hc)
  have hread : ofHex? (mark ++ ([r, r'] ++ [g, g'] ++ [b, b'] ++ alphaPart alpha)) = _ :=
    ofHex?_of_marked hmark hall halpha
  rw [hpairR, hpairG, hpairB] at hread
  rw [parse, htrim, htext]
  rw [hread]
  rfl

/-! ## Notations -/

/-- A color in the notation of filters without an alpha. -/
def solidText (color : Color) : String :=
  "0x" ++ hexText color.red ++ hexText color.green ++ hexText color.blue

/-- A color in the notation of filters, with an alpha if it is not opaque. -/
def filterNotation (color : Color) (alpha : Number) : String :=
  if alpha.lt 1 then color.solidText ++ alphaSuffix alpha else color.solidText

/-- The channels of a color, with an alpha of the given value. -/
structure IsWithAlpha (found color : Color) (alpha : Quantity) : Prop where
  red : found.red = color.red
  green : found.green = color.green
  blue : found.blue = color.blue
  alpha : found.alpha.eq alpha = true

theorem roundPlaces_one : (Quantity.finite 1).roundPlaces 3 = .finite 1 := by decide +kernel

/-- **What is written for a filter is read with the same channels and the rounded alpha.** -/
theorem IsInRange.parse_filterNotation {color : Color} (h : color.IsInRange) {alpha : Quantity}
    (halpha : IsOpacity alpha) :
    ∃ found, parse (color.filterNotation (.real alpha)) = .ok (some found) ∧
      found.IsWithAlpha color (alpha.roundPlaces 3) := by
  obtain ⟨q, hq, hzero, hone⟩ := halpha.exists_value?
  rw [filterNotation]
  split
  · obtain ⟨hchars, y, hread, hvalue⟩ := halpha.exists_read
    have htext : (color.solidText ++ alphaSuffix (.real alpha)).toList
        = ['0', 'x'] ++ ((hexText color.red).toList ++ (hexText color.green).toList
          ++ (hexText color.blue).toList
          ++ alphaPart (some (Number.real (alpha.roundPlaces 3)).text.toList)) := by
      simp only [solidText, alphaSuffix, String.toList_append, List.append_assoc]
      rfl
    refine ⟨{ color with alpha := y }, ?_, rfl, rfl, rfl, hvalue⟩
    rw [h.parse_written (by decide) (by rintro a ⟨⟩; exact hchars) htext, withAlpha, hread]
    rfl
  · rename_i hlt
    -- what is in range and not below one is one
    have hwhole : alpha = .finite 1 := by
      refine Quantity.eq_of_pos ((Quantity.eq_iff_value? hq rfl).mpr ?_) (by decide)
      refine le_antisymm hone (not_lt.mp fun hbelow ↦ hlt ?_)
      exact (Quantity.lt_iff_value? hq rfl).mpr (by exact_mod_cast hbelow)
    have htext : color.solidText.toList = ['0', 'x'] ++ ((hexText color.red).toList
        ++ (hexText color.green).toList ++ (hexText color.blue).toList ++ alphaPart none) := by
      simp only [solidText, String.toList_append, List.append_assoc, alphaPart, List.append_nil]
      rfl
    refine ⟨{ color with alpha := .finite 1 }, ?_, rfl, rfl, rfl, ?_⟩
    · exact h.parse_written (by decide) (by rintro a ⟨⟩) htext
    · rw [hwhole]
      show (Quantity.finite 1).eq ((Quantity.finite 1).roundPlaces 3) = true
      rw [roundPlaces_one]
      decide

theorem filterText_of_parse {text : String} {color : Color} (hparse : parse text = .ok (some color))
    {opacity : Option Number} {alpha : Number}
    (halpha : opacity.elim (.ok (.real color.alpha)) (Number.real color.alpha).mul = .ok alpha) :
    filterText text opacity = .ok (color.filterNotation alpha) := by
  refine bind_eq_ok.mpr ⟨some color, hparse, ?_⟩
  cases opacity with
  | none =>
    cases halpha
    rfl
  | some o => exact bind_eq_ok.mpr ⟨alpha, halpha, rfl⟩

/-- **What a script writes is turned back into the six digits of the channels**, and they are read as
the opaque color. -/
theorem IsInRange.ofScript_script {color : Color} (h : color.IsInRange) : ∃ written name,
    color.script = .ok written ∧ ofScript? written.toList = some name ∧
      name = "#" ++ hexText color.red ++ hexText color.green ++ hexText color.blue ∧
      IsNotation name ∧ parse name = .ok (some { color with alpha := .finite 1 }) := by
  obtain ⟨n, hn, hscript⟩ := h.script_eq
  obtain ⟨a, ha, a', ha', halpha, -⟩ := exists_hexText hn
  obtain ⟨r, hr, r', hr', hred, -⟩ := exists_hexText h.red
  obtain ⟨g, hg, g', hg', hgreen, -⟩ := exists_hexText h.green
  obtain ⟨b, hb, b', hb', hblue, -⟩ := exists_hexText h.blue
  have hname : ("#" ++ hexText color.red ++ hexText color.green ++ hexText color.blue).toList
      = ['#', r, r', g, g', b, b'] := by
    simp only [String.toList_append, hred, hgreen, hblue]
    rfl
  refine ⟨_, _, hscript, ?_, rfl, ?_, ?_⟩
  · have hwritten : ("&H" ++ hexText n ++ hexText color.blue ++ hexText color.green
        ++ hexText color.red).toList = '&' :: 'H' :: ([a, a'] ++ [b, b', g, g', r, r']) := by
      simp only [String.toList_append, halpha, hred, hgreen, hblue]
      rfl
    rw [hwritten, ofScript?_of_eight rfl, ← hname, String.ofList_toList]
    simp only [List.cons_append, List.nil_append, List.forall_mem_cons]
    exact ⟨ha, ha', hb, hb', hg, hg', hr, hr', List.forall_mem_nil _⟩
  · refine ⟨_, hname, rfl, ?_⟩
    simp only [List.forall_mem_cons]
    exact ⟨hr, hr', hg, hg', hb, hb', List.forall_mem_nil _⟩
  · have hnone : ∀ a ∈ (none : Option (List Char)), IsAlpha a := by rintro a ⟨⟩
    refine h.parse_written (show ['#'] ∈ hexMarks by decide) hnone ?_
    simp only [String.toList_append, List.append_assoc, alphaPart, List.append_nil]
    rfl

/-- **The notations of colors agree.**  A color that is read with an alpha from zero to one is written
for a filter so that it is read with the same channels and its alpha rounded to three places, and also
with an opacity, by which the alpha is multiplied; the script's color is turned back into `#RRGGBB`,
and that is read as the same color without its alpha. -/
theorem notations_agree {text : String} {color : Color} (hparse : parse text = .ok (some color))
    (halpha : IsOpacity color.alpha) :
    (∃ written found, filterText text none = .ok written ∧ parse written = .ok (some found) ∧
      found.IsWithAlpha color (color.alpha.roundPlaces 3) ∧
      (color.alpha.eq (.finite 1) = true → found.alpha = .finite 1)) ∧
    (∀ default, ∃ written name, scriptText (some text) default = .ok written ∧
      ofScript? written.toList = some name ∧
      name = "#" ++ hexText color.red ++ hexText color.green ++ hexText color.blue ∧
      IsNotation name ∧ parse name = .ok (some { color with alpha := .finite 1 })) ∧
    ∀ opacity : Number, IsOpacity opacity.exactly → ∃ product written found,
      (Number.real color.alpha).mul opacity = .ok (.real product) ∧
      filterText text (some opacity) = .ok written ∧ parse written = .ok (some found) ∧
      found.IsWithAlpha color (product.roundPlaces 3) := by
  obtain ⟨hred, hgreen, hblue⟩ := channels_of_parse hparse
  have hrange : color.IsInRange := ⟨hred, hgreen, hblue, halpha⟩
  refine ⟨?_, fun default ↦ ?_, fun opacity ho ↦ ?_⟩
  · obtain ⟨found, hfound, hwith⟩ := hrange.parse_filterNotation halpha
    refine ⟨_, found, filterText_of_parse hparse rfl, hfound, hwith, fun hone ↦ ?_⟩
    have hsame := hwith.alpha
    rw [Quantity.eq_of_pos hone (by decide), roundPlaces_one] at hsame
    exact Quantity.eq_of_pos hsame (by decide)
  · obtain ⟨written, name, hscript, hname⟩ := hrange.ofScript_script
    exact ⟨written, name, (scriptText_of_parse hparse default).trans hscript, hname⟩
  · obtain ⟨product, hproduct, hopacity⟩ := halpha.exists_product ho
    obtain ⟨found, hfound, hwith⟩ := hrange.parse_filterNotation hopacity
    exact ⟨product, _, found, hproduct, filterText_of_parse hparse hproduct, hfound, hwith⟩

/-- Half an orange with a quarter of opacity is an eighth of it. -/
theorem orange_agrees : parse "rgba(255, 128, 0, .5)" = .ok (some ⟨255, 128, 0, .finite (1 / 2)⟩) ∧
    IsOpacity (.finite (1 / 2)) ∧ IsOpacity (Number.real (.finite (1 / 4))).exactly ∧
    filterText "rgba(255, 128, 0, .5)" (some (.real (.finite (1 / 4)))) = .ok "0xFF8000@0.125" ∧
    (∃ found, parse "0xFF8000@0.125" = .ok (some found) ∧
      found.IsWithAlpha ⟨255, 128, 0, .finite (1 / 2)⟩ (.finite (1 / 8))) ∧
    ∃ written, scriptText (some "rgba(255, 128, 0, .5)") scriptWhite = .ok written ∧
      ofScript? written.toList = some "#FF8000" := by
  have hparse : parse "rgba(255, 128, 0, .5)" = .ok (some ⟨255, 128, 0, .finite (1 / 2)⟩) :=
    toOption_eq_some.mp (by decide +kernel)
  have hhalf : IsOpacity (.finite (1 / 2)) := by decide +kernel
  have hquarter : IsOpacity (Number.real (.finite (1 / 4))).exactly := by decide +kernel
  have hwritten : filterText "rgba(255, 128, 0, .5)" (some (.real (.finite (1 / 4))))
      = .ok "0xFF8000@0.125" := toOption_eq_some.mp (by decide +kernel)
  obtain ⟨-, hscript, hfilter⟩ := notations_agree hparse hhalf
  refine ⟨hparse, hhalf, hquarter, hwritten, ?_, ?_⟩
  · obtain ⟨product, written, found, hproduct, htext, hfound, hwith⟩ := hfilter _ hquarter
    have heighth : (Number.real (.finite (1 / 2))).mul (.real (.finite (1 / 4)))
        = .ok (.real (.finite (1 / 8))) := toOption_eq_some.mp (by decide +kernel)
    cases heighth.symm.trans hproduct
    cases hwritten.symm.trans htext
    have hplaces : (Quantity.finite (1 / 8)).roundPlaces 3 = .finite (1 / 8) := by decide +kernel
    exact ⟨found, hfound, hplaces ▸ hwith⟩
  · obtain ⟨written, name, htext, hname, rfl, -⟩ := hscript scriptWhite
    exact ⟨written, htext, hname.trans (congrArg some (by decide +kernel))⟩

end

end Color
end Montage
