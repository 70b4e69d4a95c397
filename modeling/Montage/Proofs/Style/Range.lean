import Montage.Proofs.Number.Exact
import Montage.Proofs.Number.Landing
import Montage.Proofs.Number.Shortest
import Montage.Proofs.Style.Color

/-!
# Colors in range

The channels of every color are bytes, and its alpha is one that a script can count with two digits.
Where the alpha comes from decides whether that holds.  The digits of a channel, the two digits of
an alpha and the names are in range by their form, and the numbers of a call are cut at the end of
their range.  An alpha that stands behind hexadecimal digits is taken as it is written, so that it
may be larger than one; it may also be no number at all, as the alpha of a call may, and a channel
of a call may have more digits than are read.

`IsSound` says of a text that none of this happens.  Just the sound texts are read, and then as a
color in range or as none (`parse_inRange_iff`), and the color of a sound text is written for a
script with eight hexadecimal digits.
-/

set_option autoImplicit false

namespace Montage
namespace Color

/-! ## Colors in range -/

/-- From zero to one. -/
def IsOpacity (x : Quantity) : Prop := Quantity.le (.finite 0) x = true ∧ x.le (.finite 1) = true

instance (x : Quantity) : Decidable (IsOpacity x) := inferInstanceAs (Decidable (_ ∧ _))

/-- Channels that are bytes, and an alpha from zero to one. -/
structure IsInRange (color : Color) : Prop where
  red : color.red ≤ 255
  green : color.green ≤ 255
  blue : color.blue ≤ 255
  alpha : IsOpacity color.alpha

theorem isOpacity_one : IsOpacity (.finite 1) := by decide

/-- The names stand for colors in range. -/
theorem isInRange_ofName? {s : List Char} {color : Color} (h : ofName? s = some color) :
    color.IsInRange := by
  have hnamed : ∀ entry ∈ named, entry.2.1 ≤ 255 ∧ entry.2.2.1 ≤ 255 ∧ entry.2.2.2 ≤ 255 := by
    decide
  rw [ofName?] at h
  split at h
  · rename_i hfind
    obtain ⟨hr, hg, hb⟩ := hnamed _ (List.mem_of_find?_eq_some hfind)
    cases h
    exact ⟨hr, hg, hb, isOpacity_one⟩
  · split at h
    · cases h
      exact ⟨by decide, by decide, by decide, by decide⟩
    · cases h

theorem hexPair_le {a b : Nat} (ha : a ≤ 15) (hb : b ≤ 15) : hexPair a b ≤ 255 := by
  rw [hexPair]
  omega

theorem hexValue?_le {c : Char} {v : Nat} (h : hexValue? c = some v) : v ≤ 15 := by
  rw [hexValue?] at h
  split at h
  · rename_i hc
    have hle : c.toNat ≤ 57 := hc.2
    have hvalue : c.toNat - 48 = v := Option.some.inj h
    omega
  split at h
  · rename_i hc
    have hle : c.toNat ≤ 102 := hc.2
    have hvalue : c.toNat - 97 + 10 = v := Option.some.inj h
    omega
  split at h
  · rename_i hc
    have hle : c.toNat ≤ 70 := hc.2
    have hvalue : c.toNat - 65 + 10 = v := Option.some.inj h
    omega
  · cases h

section

attribute [local instance] Rounding.binary64

/-- A byte is a share of the largest one that is in the range of an alpha. -/
theorem isOpacity_share {n : Nat} (hn : n ≤ 255) :
    IsOpacity (Quantity.div (.finite n) (.finite 255)) := by
  have hall : ∀ n < 256, IsOpacity (Quantity.div (.finite (n : Nat)) (.finite 255)) := by
    decide +kernel
  exact hall n (by omega)

theorem isInRange_ofValues? {values : List Nat} (hvalues : ∀ v ∈ values, v ≤ 15) {color : Color}
    (h : ofValues? values = some color) : color.IsInRange := by
  rw [ofValues?.eq_def] at h
  split at h
  · cases h
    simp only [List.forall_mem_cons] at hvalues
    obtain ⟨hr, hg, hb, -⟩ := hvalues
    exact ⟨hexPair_le hr hr, hexPair_le hg hg, hexPair_le hb hb, isOpacity_one⟩
  · cases h
    simp only [List.forall_mem_cons] at hvalues
    obtain ⟨hr, hr', hg, hg', hb, hb', -⟩ := hvalues
    exact ⟨hexPair_le hr hr', hexPair_le hg hg', hexPair_le hb hb', isOpacity_one⟩
  · cases h
    simp only [List.forall_mem_cons] at hvalues
    obtain ⟨hr, hr', hg, hg', hb, hb', ha, ha', -⟩ := hvalues
    exact ⟨hexPair_le hr hr', hexPair_le hg hg', hexPair_le hb hb',
      isOpacity_share (hexPair_le ha ha')⟩
  · cases h

/-- A text of hexadecimal digits is a color in range with the alpha that is written behind it. -/
theorem IsHex.ofHex?_eq {s digits : List Char} {alpha : Option (List Char)}
    (h : IsHex s digits alpha) :
    ∃ color, IsInRange color ∧ ofHex? s = some (color.withAlpha alpha) := by
  have hlength : (digits.filterMap hexValue?).length = digits.length :=
    List.filterMap_length_eq_length.mpr h.digits
  obtain ⟨color, hcolor⟩ := Option.isSome_iff_exists.mp (isSome_ofValues?.mpr (hlength ▸ h.length))
  refine ⟨color, isInRange_ofValues? ?_ hcolor, ofHex?_eq_some.mpr ⟨_, _, _, h, hcolor, rfl⟩⟩
  exact List.forall_mem_filterMap.mpr fun _ _ _ hv ↦ hexValue?_le hv

/-! ## Numbers of a color -/

/-- An alpha that is read is a row of digits. -/
theorem IsAlpha.exists_isRow {s : List Char} (h : IsAlpha s) {x : Quantity}
    (hread : readQuantity s = .ok x) :
    ∃ whole fraction, IsRow s whole fraction ∧ x = binary64 (rowValue whole fraction) := by
  obtain ⟨whole, fraction, hrow⟩ :=
    exists_isRow_of_read h.chars ((readQuantity_of_chars h.chars).mp hread)
  rw [hrow.readQuantity_eq] at hread
  exact ⟨whole, fraction, hrow, (Except.ok.inj hread).symm⟩

/-- What a row writes is not below zero. -/
theorem rowValue_le (whole fraction : List Char) :
    Quantity.le (.finite 0) (binary64 (rowValue whole fraction)) = true := by
  rw [Quantity.le_zero_iff]
  exact (binary64_keepsSigns.nonnegative _ (rowValue_nonneg whole fraction)).imp_right .inr

/-- A channel number is read if it has no more digits than a whole number may have, and it is cut at
the largest byte. -/
theorem IsChannel.channel_eq_ok {part : List Char} (h : IsChannel part) {n : Nat} :
    channel part = .ok n ↔ part.length ≤ digitLimit ∧ n = min 255 (natOfDigits part) := by
  rw [channel, readWhole_decimal h.some h.digits]
  split
  · rename_i hlong
    exact iff_of_false (by rintro ⟨⟩) fun h ↦ absurd h.1 (by omega)
  · rename_i hshort
    exact ⟨fun heq ↦ ⟨by omega, (Except.ok.inj heq).symm⟩, fun h ↦ congrArg Except.ok h.2.symm⟩

/-- The smaller one of an alpha and one is in range. -/
theorem isOpacity_min {x : Quantity} (hx : Quantity.le (.finite 0) x = true) :
    IsOpacity (Quantity.min (.finite 1) x) := by
  rw [Quantity.min]
  split
  · rename_i hlt
    exact ⟨hx, Quantity.le_of_lt hlt⟩
  · exact isOpacity_one

/-! ## Sound texts -/

/-- What a text of hexadecimal digits or a call needs to be a color: an alpha behind the digits is a
row of digits and not above one, and the numbers of a call are rows and no longer than whole numbers
may be. -/
structure IsSound (s : List Char) : Prop where
  hex : ∀ digits alpha, IsHex s digits (some alpha) → ∃ whole fraction,
    IsRow alpha whole fraction ∧ (binary64 (rowValue whole fraction)).le (.finite 1) = true
  call : ∀ red green blue alpha, IsCall s red green blue alpha →
    (∀ part ∈ [red, green, blue], part.length ≤ digitLimit) ∧
      ∀ a ∈ alpha, ∃ whole fraction, IsRow a whole fraction

/-- The alpha behind hexadecimal digits has to be in range. -/
theorem withAlpha_inRange {color : Color} (hcolor : color.IsInRange) {alpha : Option (List Char)}
    (halpha : ∀ a ∈ alpha, IsAlpha a) :
    (∃ found, color.withAlpha alpha = .ok found ∧ found.IsInRange) ↔ ∀ a ∈ alpha,
      ∃ whole fraction, IsRow a whole fraction ∧
        (binary64 (rowValue whole fraction)).le (.finite 1) = true := by
  cases alpha with
  | none => exact iff_of_true ⟨color, rfl, hcolor⟩ (by rintro a ⟨⟩)
  | some alpha =>
    constructor
    · rintro ⟨found, hfound, hrange⟩ a ⟨⟩
      obtain ⟨x, hx, rfl⟩ := map_eq_ok.mp hfound
      obtain ⟨whole, fraction, hrow, rfl⟩ := (halpha alpha rfl).exists_isRow hx
      exact ⟨whole, fraction, hrow, hrange.alpha.2⟩
    · intro h
      obtain ⟨whole, fraction, hrow, hle⟩ := h alpha rfl
      exact ⟨_, map_eq_ok.mpr ⟨_, hrow.readQuantity_eq, rfl⟩, hcolor.red, hcolor.green, hcolor.blue,
        rowValue_le whole fraction, hle⟩

/-- The numbers of a call are in range if they are read. -/
theorem IsCall.ofParts_inRange {s red green blue : List Char} {alpha : Option (List Char)}
    (h : IsCall s red green blue alpha) :
    (∃ found, ofParts red green blue alpha = .ok found ∧ found.IsInRange) ↔
      (∀ part ∈ [red, green, blue], part.length ≤ digitLimit) ∧
        ∀ a ∈ alpha, ∃ whole fraction, IsRow a whole fraction := by
  constructor
  · rintro ⟨found, hfound, -⟩
    obtain ⟨r, hr, hfound⟩ := bind_eq_ok.mp hfound
    obtain ⟨g, hg, hfound⟩ := bind_eq_ok.mp hfound
    obtain ⟨b, hb, hfound⟩ := bind_eq_ok.mp hfound
    obtain ⟨x, hx, -⟩ := bind_eq_ok.mp hfound
    refine ⟨?_, ?_⟩
    · simp only [List.forall_mem_cons]
      exact ⟨(h.red.channel_eq_ok.mp hr).1, (h.green.channel_eq_ok.mp hg).1,
        (h.blue.channel_eq_ok.mp hb).1, List.forall_mem_nil _⟩
    · rintro a rfl
      obtain ⟨whole, fraction, hrow, -⟩ := (h.alpha a rfl).exists_isRow hx
      exact ⟨whole, fraction, hrow⟩
  · rintro ⟨hlengths, hrows⟩
    simp only [List.forall_mem_cons] at hlengths
    obtain ⟨hr, hg, hb, -⟩ := hlengths
    obtain ⟨x, hx, hrange⟩ : ∃ x, alpha.elim (.ok (.finite 1)) readQuantity = .ok x
        ∧ Quantity.le (.finite 0) x = true := by
      cases alpha with
      | none => exact ⟨_, rfl, isOpacity_one.1⟩
      | some a =>
        obtain ⟨whole, fraction, hrow⟩ := hrows a rfl
        exact ⟨_, hrow.readQuantity_eq, rowValue_le whole fraction⟩
    refine ⟨⟨_, _, _, _⟩, bind_eq_ok.mpr ⟨_, h.red.channel_eq_ok.mpr ⟨hr, rfl⟩, bind_eq_ok.mpr
      ⟨_, h.green.channel_eq_ok.mpr ⟨hg, rfl⟩, bind_eq_ok.mpr ⟨_, h.blue.channel_eq_ok.mpr ⟨hb, rfl⟩,
        bind_eq_ok.mpr ⟨x, hx, rfl⟩⟩⟩⟩, ?_⟩
    exact ⟨min_le_left _ _, min_le_left _ _, min_le_left _ _, isOpacity_min hrange⟩

theorem parse_of_hex {text : String} {digits : List Char} {alpha : Option (List Char)}
    (h : IsHex (trim text.toList) digits alpha) :
    ∃ color, IsInRange color ∧ parse text = (color.withAlpha alpha).map some := by
  obtain ⟨color, hcolor, hread⟩ := h.ofHex?_eq
  refine ⟨color, hcolor, ?_⟩
  rw [parse, hread]
  rfl

/-- **Just the sound texts are read without a failure, and as a color in range or as none.** -/
theorem parse_inRange_iff (text : String) :
    (∃ found, parse text = .ok found ∧ ∀ color ∈ found, IsInRange color) ↔
      IsSound (trim text.toList) := by
  have hsome {action : Except Error Color} :
      (∃ found, action.map some = .ok found ∧ ∀ color ∈ found, IsInRange color) ↔
        ∃ color, action = .ok color ∧ color.IsInRange := by
    simp only [map_eq_ok]
    constructor
    · rintro ⟨_, ⟨color, haction, rfl⟩, hrange⟩
      exact ⟨color, haction, hrange color rfl⟩
    · rintro ⟨color, haction, hrange⟩
      exact ⟨_, ⟨color, haction, rfl⟩, by rintro _ ⟨⟩; exact hrange⟩
  constructor
  · intro h
    constructor
    case hex =>
      intro digits alpha hex
      obtain ⟨color, hcolor, hparse⟩ := parse_of_hex hex
      rw [hparse, hsome] at h
      exact (withAlpha_inRange hcolor hex.alpha).mp h alpha rfl
    case call =>
      intro red green blue alpha call
      rw [parse_of_call call, hsome] at h
      exact call.ofParts_inRange.mp h
  · intro sound
    obtain ⟨digits, alpha, hex⟩ | ⟨red, green, blue, alpha, call⟩ | hname := shape_cases text
    · obtain ⟨color, hcolor, hparse⟩ := parse_of_hex hex
      rw [hparse, hsome, withAlpha_inRange hcolor hex.alpha]
      rintro a rfl
      exact sound.hex digits a hex
    · rw [parse_of_call call, hsome]
      exact call.ofParts_inRange.mpr (sound.call red green blue alpha call)
    · exact ⟨_, hname, fun color hcolor ↦ isInRange_ofName? hcolor⟩

/-! ## Colors of scripts -/

/-- The notation of scripts: two letters and eight hexadecimal digits. -/
def IsScript (s : String) : Prop :=
  ∃ digits, s.toList = '&' :: 'H' :: digits ∧ digits.length = 8 ∧ ∀ c ∈ digits, c ∈ capitals

/-- A byte is written with two digits. -/
theorem hexText_byte {n : Nat} (hn : n ≤ 255) :
    (hexText n).toList.length = 2 ∧ ∀ c ∈ (hexText n).toList, c ∈ capitals := by
  obtain ⟨a, ha, b, hb, htext, -⟩ := exists_hexText hn
  rw [htext]
  exact ⟨rfl, by simp only [List.forall_mem_cons]; exact ⟨ha, hb, List.forall_mem_nil _⟩⟩

/-- A quantity from zero to one has a value there. -/
theorem IsOpacity.exists_value? {x : Quantity} (hx : IsOpacity x) :
    ∃ q, x.value? = some q ∧ 0 ≤ q ∧ q ≤ 1 := by
  obtain ⟨hzero, hone⟩ := hx
  obtain ⟨q, hq, rfl⟩ | rfl | rfl := Quantity.le_zero_iff.mp hzero
  · exact ⟨q, rfl, hq, (Quantity.le_iff_value? rfl rfl).mp hone⟩
  · exact ⟨0, rfl, le_rfl, zero_le_one⟩
  · cases hone

/-- An alpha in range is counted with a byte: rounding the product leads less than half beyond
it. -/
theorem IsOpacity.exists_solid {x : Quantity} (hx : IsOpacity x) :
    ∃ y, (Number.real x).mul 255 = .ok y ∧ ∃ n : Nat, n ≤ 255 ∧ y.roundWhole = .ok (n : Int) := by
  obtain ⟨q, hq, hzero, hone⟩ := hx.exists_value?
  have hproduct : (Number.real x).mul 255 = .ok (.real (x.mul (.finite 255))) := by
    have hbyte : (Number.whole 255).toQuantity = .ok (.finite 255) :=
      binary64_isGrid.toQuantity_natCast (n := 255) (by omega)
    exact Number.mul_whole hbyte x
  obtain ⟨v, hv, hnonneg, hle⟩ :
      ∃ v, (x.mul (.finite 255)).value? = some v ∧ 0 ≤ v ∧ v ≤ 255 + 1 / 4 := by
    have hbyte : (Quantity.finite 255).value? = some 255 := rfl
    rw [Quantity.mul, hq, hbyte]
    dsimp only
    by_cases hnone : q * 255 = 0
    · exact ⟨0, by rw [if_pos hnone, Quantity.value?_zero], le_rfl, by norm_num⟩
    obtain ⟨v, hv, hnonneg, hnear⟩ := exists_near_binary64_of_nonneg (q := q * 255) (by linarith)
      (lt_binaryLimit (by linarith))
    refine ⟨v, ?_, hnonneg, ?_⟩
    · rw [if_neg hnone]
      exact congrArg Quantity.value? hv
    · have hmax : max (q * 255) 1 ≤ 255 := max_le (by linarith) (by norm_num)
      linarith [(abs_le.mp hnear).2]
  obtain ⟨n, hn, hnear⟩ := exists_nearestInt hnonneg
  refine ⟨_, hproduct, n, ?_, ?_⟩
  · have : (n : Rat) < 256 := by linarith [(abs_le.mp hnear).1]
    have : n < 256 := by exact_mod_cast this
    omega
  · rw [Number.roundWhole, hv, ← hn]

/-- A color in range is written for a script with a byte for its alpha. -/
theorem IsInRange.script_eq {color : Color} (h : color.IsInRange) :
    ∃ n : Nat, n ≤ 255 ∧ color.script
      = .ok ("&H" ++ hexText n ++ hexText color.blue ++ hexText color.green ++ hexText color.red) := by
  obtain ⟨y, hproduct, n, hn, hround⟩ := h.alpha.exists_solid
  refine ⟨255 - n, Nat.sub_le 255 n, bind_eq_ok.mpr ⟨y, hproduct, bind_eq_ok.mpr ⟨n, hround, ?_⟩⟩⟩
  rw [show (255 - n : Int) = (255 - n : Nat) by omega]
  rfl

/-- **A color in range is written for a script with eight digits.** -/
theorem IsInRange.exists_script {color : Color} (h : color.IsInRange) :
    ∃ s, color.script = .ok s ∧ IsScript s := by
  obtain ⟨n, hn, hscript⟩ := h.script_eq
  refine ⟨_, hscript, ?_⟩
  obtain ⟨hlengthA, hdigitsA⟩ := hexText_byte hn
  obtain ⟨hlengthB, hdigitsB⟩ := hexText_byte h.blue
  obtain ⟨hlengthG, hdigitsG⟩ := hexText_byte h.green
  obtain ⟨hlengthR, hdigitsR⟩ := hexText_byte h.red
  refine ⟨(hexText n).toList ++ (hexText color.blue).toList
    ++ (hexText color.green).toList ++ (hexText color.red).toList, ?_, ?_, ?_⟩
  · simp only [String.toList_append, List.append_assoc]
    rfl
  · simp only [List.length_append]
    omega
  · simp only [List.forall_mem_append]
    exact ⟨⟨⟨hdigitsA, hdigitsB⟩, hdigitsG⟩, hdigitsR⟩

/-- **A text is read as a color in range or as none just if it is sound, and a value that is missing
or sound is written for a script with eight digits.** -/
theorem inRange_and_script (value : Option String) :
    (∀ text ∈ value, (∃ found, parse text = .ok found ∧ ∀ color ∈ found, IsInRange color) ↔
      IsSound (trim text.toList)) ∧
    ((∀ text ∈ value, IsSound (trim text.toList)) →
      ∃ s, scriptText value scriptWhite = .ok s ∧ IsScript s) := by
  refine ⟨fun text _ ↦ parse_inRange_iff text, fun sound ↦ ?_⟩
  have hwhite : IsScript scriptWhite := ⟨"00FFFFFF".toList, rfl, rfl, by decide⟩
  cases hvalue : value.filter fun s ↦ !s.isEmpty with
  | none =>
    refine ⟨scriptWhite, ?_, hwhite⟩
    rw [scriptText, hvalue]
    rfl
  | some text =>
    have htext : text ∈ value := (Option.filter_eq_some_iff.mp hvalue).1
    obtain ⟨found, hparse, hrange⟩ := (parse_inRange_iff text).mpr (sound text htext)
    rw [scriptText, hvalue, Option.mapM_some, hparse]
    cases found with
    | none => exact ⟨scriptWhite, rfl, hwhite⟩
    | some color => exact (hrange color rfl).exists_script

/-- A call with an alpha that begins with its point is sound; behind hexadecimal digits an alpha of
two is not, and leads to a script's color with a sign in it. -/
theorem callWithPoint_and_doubleAlpha :
    IsSound (trim "rgba(255, 128, 0, .5)".toList)
      ∧ (∃ s, scriptText (some "rgba(255, 128, 0, .5)") scriptWhite = .ok s ∧ IsScript s)
      ∧ ¬ IsSound (trim "#fff@2".toList)
      ∧ scriptText (some "#fff@2") scriptWhite = .ok "&H-FFFFFFFF" := by
  have hcall : parse "rgba(255, 128, 0, .5)" = .ok (some ⟨255, 128, 0, .finite (1 / 2)⟩) :=
    toOption_eq_some.mp (by decide +kernel)
  have hdouble : parse "#fff@2" = .ok (some ⟨255, 255, 255, .finite 2⟩) :=
    toOption_eq_some.mp (by decide +kernel)
  have hsound : IsSound (trim "rgba(255, 128, 0, .5)".toList) := by
    refine ((inRange_and_script (some _)).1 _ rfl).mp ⟨_, hcall, ?_⟩
    rintro _ ⟨⟩
    exact ⟨by decide, by decide, by decide, by decide +kernel⟩
  refine ⟨hsound, (inRange_and_script _).2 (by rintro _ ⟨⟩; exact hsound), fun sound ↦ ?_,
    toOption_eq_some.mp (by decide +kernel)⟩
  obtain ⟨found, hfound, hrange⟩ := ((inRange_and_script (some _)).1 _ rfl).mpr sound
  rw [hdouble] at hfound
  cases hfound
  exact absurd (hrange _ rfl).alpha.2 (by decide)

end

end Color
end Montage
