import Mathlib.Tactic.Ring
import Montage.Number.Reader
import Montage.Proofs.Number.Shortest
import Montage.Proofs.Text.Lines

/-!
# Numerals read back

The text of a decimal, in any layout, is read as a quantity again: digits in front of the point,
digits behind it and an exponent give the value of the decimal, however they are laid out
(`readUnsigned_text`), and the value of the shortest decimal is rounded to the quantity that was
written (`IsOnGrid.readUnsigned_shortest`).

The readers differ in what else they take for a digit.  What is said here needs of them only that
they know the Latin digits and take no mark for one (`Numerals.IsStandard`).
-/

set_option autoImplicit false

namespace Montage

/-! ## Digits -/

/-- The value of a Latin digit. -/
def digitOf (c : Char) : Nat := c.toNat - '0'.toNat

/-- The marks of numerals. -/
def numeralMarks : List Char := ['.', 'e', 'E', '+', '-', '_']

/-- The Latin digits have their values, and no mark is a digit. -/
structure Numerals.IsStandard (numerals : Numerals) : Prop where
  digit : ∀ c : Char, c.isDigit = true → numerals.value? c = some (digitOf c)
  mark : ∀ c ∈ numeralMarks, numerals.value? c = none

theorem isDigit_iff {c : Char} : c.isDigit = true ↔ '0' ≤ c ∧ c ≤ '9' := by
  simp only [Char.isDigit, ge_iff_le, Bool.and_eq_true, decide_eq_true_eq]
  rfl

theorem isStandard_latin : Numerals.latin.IsStandard where
  digit c h := by
    show latinDigit? c = _
    rw [latinDigit?, if_pos (isDigit_iff.mp h), digitOf]
  mark := by decide

theorem digitValue?_of_isDigit {c : Char} (h : c.isDigit = true) :
    digitValue? c = some (digitOf c) := by
  obtain ⟨hlow, hhigh⟩ := isDigit_iff.mp h
  have hlow : 0x30 ≤ c.toNat := hlow
  have hhigh : c.toNat ≤ 0x39 := hhigh
  rw [digitValue?, zeroDigits, List.find?_cons_of_pos (by simp; omega)]
  rfl

theorem isDecimal_of_isDigit {c : Char} (h : c.isDigit = true) : isDecimal c = true := by
  rw [isDecimal, digitValue?_of_isDigit h, Option.isSome_some]

theorem isStandard_free : Numerals.free.IsStandard where
  digit _ h := digitValue?_of_isDigit h
  mark := by decide

variable {numerals : Numerals}

/-- Whether the digits of a numeral end in front of a text. -/
def Numerals.EndsAt (numerals : Numerals) (rest : List Char) : Prop :=
  ∀ c ∈ rest.head?, numerals.value? c = none ∧ c ≠ '_'

theorem Numerals.endsAt_nil : numerals.EndsAt [] := by rintro c ⟨⟩

theorem Numerals.IsStandard.endsAt_cons (standard : numerals.IsStandard) {c : Char}
    (hc : c ∈ numeralMarks) (hne : c ≠ '_') (rest : List Char) : numerals.EndsAt (c :: rest) := by
  rintro d ⟨⟩
  exact ⟨standard.mark c hc, hne⟩

section

variable {value : Char → Nat} {s rest : List Char}

theorem moreDigits_of_values (hs : ∀ c ∈ s, numerals.value? c = some (value c) ∧ c ≠ '_')
    (hrest : numerals.EndsAt rest) : numerals.moreDigits (s ++ rest) = (s.map value, rest) := by
  induction s with
  | nil =>
    rw [List.nil_append, Numerals.moreDigits.eq_def]
    split
    · rfl
    · exact absurd rfl (hrest '_' rfl).2
    · rename_i c rest _
      rw [(hrest c rfl).1]
      rfl
  | cons c s ih =>
    rw [List.forall_mem_cons] at hs
    rw [List.cons_append, Numerals.moreDigits.eq_def]
    split
    · rename_i heq
      cases heq
    · rename_i heq
      exact absurd (List.cons.inj heq).1 hs.1.2
    · rename_i heq
      obtain ⟨rfl, rfl⟩ := List.cons.inj heq
      rw [hs.1.1, ih hs.2]
      rfl

/-- Digits are taken as far as they go. -/
theorem takeDigits_of_values (hs : ∀ c ∈ s, numerals.value? c = some (value c) ∧ c ≠ '_')
    (hrest : numerals.EndsAt rest) : numerals.takeDigits (s ++ rest) = (s.map value, rest) := by
  cases s with
  | nil =>
    cases rest with
    | nil => rfl
    | cons c rest =>
      rw [List.nil_append, Numerals.takeDigits, (hrest c rfl).1]
      rfl
  | cons c s =>
    rw [List.forall_mem_cons] at hs
    rw [List.cons_append, Numerals.takeDigits, hs.1.1, moreDigits_of_values hs.2 hrest]
    rfl

end

theorem takeDigits_append (standard : numerals.IsStandard) {s rest : List Char}
    (hs : ∀ c ∈ s, c.isDigit = true) (hrest : numerals.EndsAt rest) :
    numerals.takeDigits (s ++ rest) = (s.map digitOf, rest) := by
  refine takeDigits_of_values (fun c hc ↦ ⟨standard.digit c (hs c hc), ?_⟩) hrest
  rintro rfl
  exact absurd (hs _ hc) (by decide)

theorem takeDigits_digits (standard : numerals.IsStandard) {s : List Char}
    (hs : ∀ c ∈ s, c.isDigit = true) : numerals.takeDigits s = (s.map digitOf, []) := by
  have := takeDigits_append standard hs Numerals.endsAt_nil
  rwa [List.append_nil] at this

theorem natOfValues_map_digitOf (s : List Char) :
    natOfValues (s.map digitOf) = Nat.ofDigitChars 10 s 0 := by
  rw [natOfValues, List.foldl_map]
  rfl

theorem natOfValues_toDigits (n : Nat) :
    natOfValues ((Nat.toDigits 10 n).map digitOf) = n := by
  rw [natOfValues_map_digitOf, Nat.ofDigitChars_toDigits (by decide) (by decide)]

/-- A row of digits makes the same number for every reader. -/
theorem natOfDigits_eq {s : List Char} (h : ∀ c ∈ s, c.isDigit = true) :
    natOfDigits s = natOfValues (s.map digitOf) := by
  have hfold : ∀ start, s.foldl (fun n c ↦ 10 * n + (digitValue? c).getD 0) start =
      (s.map digitOf).foldl (fun n d ↦ 10 * n + d) start := by
    induction s with
    | nil => exact fun _ ↦ rfl
    | cons c s ih =>
      intro start
      rw [List.forall_mem_cons] at h
      rw [List.foldl_cons, List.map_cons, List.foldl_cons, digitValue?_of_isDigit h.1,
        Option.getD_some, ih h.2]
  exact hfold 0

theorem natOfDigits_toDigits (n : Nat) : natOfDigits (Nat.toDigits 10 n) = n := by
  rw [natOfDigits_eq fun c hc ↦ isDigit_of_mem_toDigits hc, natOfValues_toDigits]

theorem natOfValues_append (s t : List Nat) :
    natOfValues (s ++ t) = t.foldl (fun n d ↦ 10 * n + d) (natOfValues s) := by
  rw [natOfValues, natOfValues, List.foldl_append]

theorem natOfValues_zeros_append (n : Nat) (s : List Nat) :
    natOfValues (List.replicate n 0 ++ s) = natOfValues s := by
  induction n with
  | zero => rfl
  | succ n ih =>
    rw [List.replicate_succ, List.cons_append, natOfValues, List.foldl_cons]
    exact ih

theorem isDigit_of_mem_padZeros {width n : Nat} {c : Char}
    (h : c ∈ padZeros width (Nat.toDigits 10 n)) : c.isDigit = true := by
  rcases List.mem_append.mp h with h | h
  · rw [List.eq_of_mem_replicate h]
    rfl
  · exact isDigit_of_mem_toDigits h

theorem padZeros_ne_nil (width n : Nat) : padZeros width (Nat.toDigits 10 n) ≠ [] := by
  rw [padZeros, Ne, List.append_eq_nil_iff, not_and]
  exact fun _ ↦ Nat.toDigits_ne_nil

/-- Zeros in front do not count. -/
theorem natOfValues_padZeros (width n : Nat) :
    natOfValues ((padZeros width (Nat.toDigits 10 n)).map digitOf) = n := by
  rw [padZeros, List.map_append, List.map_replicate, show digitOf '0' = 0 by rfl,
    natOfValues_zeros_append, natOfValues_toDigits]

theorem natOfDigits_padZeros (width n : Nat) :
    natOfDigits (padZeros width (Nat.toDigits 10 n)) = n := by
  rw [natOfDigits_eq fun c hc ↦ isDigit_of_mem_padZeros hc, natOfValues_padZeros]

theorem natOfValues_append_zeros (s : List Nat) (n : Nat) :
    natOfValues (s ++ List.replicate n 0) = natOfValues s * 10 ^ n := by
  induction n with
  | zero => rw [List.replicate_zero, List.append_nil, pow_zero, mul_one]
  | succ n ih =>
    rw [List.replicate_succ', ← List.append_assoc, natOfValues_append, ih, List.foldl_cons,
      List.foldl_nil, pow_succ]
    ring

/-! ## From a decimal to its quantity -/

/-- **A decimal is read as the quantity nearest to it.**  The shortcuts for exponents that are out of
every range come to what rounding would. -/
theorem quantityOfDecimal_eq (negative : Bool) (s : Nat) (e : Int) :
    quantityOfDecimal negative s e =
      if negative then (binary64 (s * 10 ^ e)).neg else binary64 (s * 10 ^ e) := by
  obtain rfl | hs := Nat.eq_zero_or_pos s
  · rw [quantityOfDecimal, if_pos (.inl rfl), Nat.cast_zero, zero_mul, isOnGrid_zero]
    cases negative <;> rfl
  have hx : (0 : Rat) < s * 10 ^ e := mul_pos (Nat.cast_pos.mpr hs) (ten_zpow_pos e)
  obtain ⟨hfirst, hlast⟩ := length_toDigits_bounds hs
  have hbase : (1 : Rat) ≤ 10 := by norm_num
  rw [quantityOfDecimal]
  generalize ((Nat.toDigits 10 s).length : Int) = len at hfirst hlast ⊢
  split
  · rename_i hsmall
    have hlt := hsmall.resolve_left hs.ne'
    have hbelow : (s * 10 ^ e : Rat) < 10 ^ (len + e) := by
      rw [zpow_add₀ (by norm_num)]
      exact mul_lt_mul_of_pos_right hlast (ten_zpow_pos e)
    have hpower : (10 : Rat) ^ (len + e) ≤ 10 ^ (-400 : Int) := zpow_le_zpow_right₀ hbase hlt.le
    have hleast : (10 : Rat) ^ (-400 : Int) ≤ 2 ^ (-1074 : Int) / 2 := by
      have hhalf : (2 : Rat) ^ (-1074 : Int) / 2 = 2 ^ (-1075 : Int) := by
        rw [show (-1075 : Int) = -1074 - 1 by rfl, zpow_sub_one₀ two_ne_zero, div_eq_mul_inv]
      rw [hhalf, zpow_neg, zpow_neg]
      refine inv_anti₀ (two_zpow_pos _) ?_
      have : (2 : Nat) ^ 1075 ≤ 10 ^ 400 := by decide +kernel
      exact_mod_cast this
    rw [binary64_of_small hx (hbelow.trans_le (hpower.trans hleast))]
    cases negative <;> rfl
  split
  · rename_i hlt
    have habove : (10 : Rat) ^ (len + e - 1) ≤ s * 10 ^ e := by
      rw [show len + e - 1 = len - 1 + e by ring, zpow_add₀ (by norm_num)]
      exact mul_le_mul_of_nonneg_right hfirst (ten_zpow_pos e).le
    have hpower : (10 : Rat) ^ (400 : Int) ≤ 10 ^ (len + e - 1) :=
      zpow_le_zpow_right₀ hbase (by omega)
    have hlimit : (2 * binaryLimit : Rat) ≤ 10 ^ (400 : Int) := by
      have : 2 * binaryLimit ≤ 10 ^ 400 := by decide +kernel
      exact_mod_cast this
    rw [binary64_of_large (hlimit.trans (hpower.trans habove))]
    cases negative <;> rfl
  · cases negative
    · rfl
    · exact binary64_neg hx

theorem quantityOfDecimal_of_binary64 {s : Nat} {e : Int} {v : Rat} (negative : Bool)
    (h : binary64 (s * 10 ^ e) = .finite v) (hv : 0 < v) :
    quantityOfDecimal negative s e = .finite (if negative then -v else v) := by
  rw [quantityOfDecimal_eq, h]
  cases negative with
  | false => rfl
  | true =>
    show Quantity.neg (.finite v) = .finite (-v)
    rw [Quantity.neg, if_neg (Rat.num_pos.mpr hv).ne']

/-! ## Layouts -/

/-- The values of the digits behind a point, if there is one, and the rest. -/
def Numerals.takeFraction (numerals : Numerals) (s : List Char) : List Nat × List Char :=
  match s with
  | '.' :: more => numerals.takeDigits more
  | _ => ([], s)

/-- A numeral is read part by part. -/
theorem readUnsigned_eq (numerals : Numerals) (negative : Bool) (s : List Char) :
    readUnsigned numerals negative s =
      let (whole, rest) := numerals.takeDigits s
      let (fraction, left) := numerals.takeFraction rest
      if whole.isEmpty && fraction.isEmpty then none
      else (readExponent numerals left).map fun e ↦
        quantityOfDecimal negative (natOfValues (whole ++ fraction)) (e - fraction.length) := by
  rw [readUnsigned]
  generalize numerals.takeDigits s = cut
  obtain ⟨whole, rest⟩ := cut
  dsimp only
  split
  · rfl
  · rename_i hno
    have hnone : numerals.takeFraction rest = ([], rest) := by
      unfold Numerals.takeFraction
      split
      · exact (hno _ rfl).elim
      · rfl
    rw [hnone]

theorem readUnsigned_of_parts {s rest left : List Char} {whole : List Nat} (fraction : List Nat)
    {e : Int} (negative : Bool) (hwhole : numerals.takeDigits s = (whole, rest))
    (hfraction : numerals.takeFraction rest = (fraction, left))
    (hsome : whole ≠ [] ∨ fraction ≠ []) (hexponent : readExponent numerals left = some e) :
    readUnsigned numerals negative s =
      some (quantityOfDecimal negative (natOfValues (whole ++ fraction)) (e - fraction.length)) := by
  have hempty : ¬ (whole.isEmpty && fraction.isEmpty) = true := by
    simpa [List.isEmpty_iff, -not_and, not_and_or] using hsome
  rw [readUnsigned_eq, hwhole]
  dsimp only
  rw [hfraction]
  dsimp only
  rw [if_neg hempty, hexponent]
  rfl

theorem takeSign_exponent (e : Int) (s : List Char) :
    takeSign ((if e < 0 then '-' else '+') :: s) = (decide (e < 0), s) := by
  by_cases h : e < 0
  · rw [if_pos h, decide_eq_true h]
    rfl
  · rw [if_neg h, decide_eq_false h]
    rfl

theorem readExponent_text (standard : numerals.IsStandard) (layout : Layout) (e : Int) :
    readExponent numerals (layout.exponent e) = some e := by
  have hdigits : ∀ c ∈ padZeros layout.exponentWidth (Nat.toDigits 10 e.natAbs),
      c.isDigit = true := fun c hc ↦ isDigit_of_mem_padZeros hc
  have hvalue := natOfValues_padZeros layout.exponentWidth e.natAbs
  rw [Layout.exponent, readExponent, if_pos (.inl rfl), takeSign_exponent]
  dsimp only
  rw [takeDigits_digits standard hdigits]
  split
  · rename_i heq
    rw [Prod.mk.injEq, List.map_eq_nil_iff, padZeros, List.append_eq_nil_iff] at heq
    exact absurd heq.1.2 Nat.toDigits_ne_nil
  · rename_i heq
    rw [← (Prod.mk.inj heq).1, hvalue]
    congr 1
    split
    · rename_i h
      have := of_decide_eq_true h
      omega
    · rename_i h
      have := mt decide_eq_true h
      omega
  · rename_i h
    exact absurd rfl (h _)

theorem natOfValues_digits (d : Decimal) : natOfValues (d.digits.map digitOf) = d.significand :=
  natOfValues_toDigits d.significand

/-- A numeral part by part: its digits, the digits behind its point and its exponent.  Without digits
behind it there is no point. -/
structure Numeral where
  whole : List Char
  fraction : List Char := []
  exponent : Option Int := none

namespace Numeral

/-- The point and the digits behind it. -/
def pointed (n : Numeral) : List Char := if n.fraction = [] then [] else '.' :: n.fraction

/-- The exponent with its letter. -/
def scale (layout : Layout) (n : Numeral) : List Char := n.exponent.elim [] layout.exponent

def text (layout : Layout) (n : Numeral) : List Char := n.whole ++ (n.pointed ++ n.scale layout)

/-- The number that the digits make, and the power of ten that it is meant to be multiplied by. -/
def significand (n : Numeral) : Nat := natOfValues ((n.whole ++ n.fraction).map digitOf)

def power (n : Numeral) : Int := n.exponent.getD 0 - n.fraction.length

/-- Digits stand where they should, and at least one in front. -/
structure IsNumeral (n : Numeral) : Prop where
  whole : ∀ c ∈ n.whole, c.isDigit = true
  fraction : ∀ c ∈ n.fraction, c.isDigit = true
  opens : n.whole ≠ []

variable {n : Numeral} {layout : Layout}

theorem scale_eq (layout : Layout) (n : Numeral) :
    n.scale layout = [] ∨ ∃ rest, n.scale layout = 'e' :: rest := by
  rw [scale]
  cases n.exponent with
  | none => exact .inl rfl
  | some e => exact .inr ⟨_, rfl⟩

theorem readExponent_scale (standard : numerals.IsStandard) :
    readExponent numerals (n.scale layout) = some (n.exponent.getD 0) := by
  rw [scale]
  cases n.exponent with
  | none => rfl
  | some e => exact readExponent_text standard layout e

/-- **A numeral is read part by part.** -/
theorem readUnsigned_text (standard : numerals.IsStandard) (negative : Bool) (h : n.IsNumeral) :
    readUnsigned numerals negative (n.text layout)
      = some (quantityOfDecimal negative n.significand n.power) := by
  have hscale : numerals.EndsAt (n.scale layout) := by
    obtain hempty | ⟨rest, hrest⟩ := n.scale_eq layout
    · rw [hempty]
      exact Numerals.endsAt_nil
    · rw [hrest]
      exact standard.endsAt_cons (by decide) (by decide) _
  have hends : numerals.EndsAt (n.pointed ++ n.scale layout) := by
    rw [pointed]
    split
    · exact hscale
    · exact standard.endsAt_cons (by decide) (by decide) _
  have hfraction : numerals.takeFraction (n.pointed ++ n.scale layout)
      = (n.fraction.map digitOf, n.scale layout) := by
    rw [pointed]
    split
    · rename_i hnone
      rw [hnone]
      obtain hempty | ⟨rest, hrest⟩ := n.scale_eq layout
      · rw [hempty]
        rfl
      · rw [hrest]
        rfl
    · exact takeDigits_append standard h.fraction hscale
  have hread := readUnsigned_of_parts _ negative (takeDigits_append standard h.whole hends) hfraction
    (.inl fun hnil ↦ h.opens (List.map_eq_nil_iff.mp hnil)) (readExponent_scale standard)
  rwa [List.length_map, ← List.map_append] at hread

end Numeral

/-- A numeral of a decimal: it tells the value of the decimal, no superfluous zero opens it, and a
point or an exponent sets it apart from a whole number. -/
structure Decimal.IsWrittenAs (d : Decimal) (n : Numeral) : Prop extends n.IsNumeral where
  value : (n.significand * 10 ^ n.power : Rat) = d.value
  lead : 0 < d.significand → n.whole.head? = some '0' → n.whole = ['0']
  marked : n.fraction ≠ [] ∨ n.exponent ≠ none

/-- **The text of a decimal is that of a numeral**, whatever the layout. -/
theorem exists_numeral (layout : Layout) (d : Decimal) :
    ∃ n : Numeral, d.IsWrittenAs n ∧ layout.text d = n.text layout := by
  have hdigits : ∀ c ∈ d.digits, c.isDigit = true := fun c hc ↦ isDigit_of_mem_toDigits hc
  have hzeros : ∀ n, ∀ c ∈ List.replicate n '0', c.isDigit = true := by
    intro n c hc
    rw [List.eq_of_mem_replicate hc]
    rfl
  have hmap : ∀ n, (List.replicate n '0').map digitOf = List.replicate n 0 := fun n ↦
    List.map_replicate
  have hne : d.digits ≠ [] := Nat.toDigits_ne_nil
  have hlead : ∀ {whole : List Char}, whole.head? = d.digits.head? → 0 < d.significand →
      whole.head? = some '0' → whole = ['0'] := fun hhead hpos hzero ↦
    absurd (hhead.symm.trans hzero) (head?_toDigits_ne hpos)
  have hpoint : d.point = d.digits.length + d.exponent := rfl
  rw [Layout.text]
  dsimp only
  split
  · split
    · rename_i hfront
      -- zeros stand between the point and the first digit
      refine ⟨⟨['0'], List.replicate (-d.point).toNat '0' ++ d.digits, none⟩, ⟨⟨hzeros 1,
        List.forall_mem_append.mpr ⟨hzeros _, hdigits⟩, by simp⟩, ?_, fun _ _ ↦ rfl,
        .inl (by simp [hne])⟩, ?_⟩
      · have hsignificand : natOfValues ((['0'] ++ (List.replicate (-d.point).toNat '0'
            ++ d.digits)).map digitOf) = d.significand := by
          rw [← List.append_assoc, List.map_append, List.map_append, hmap, ← natOfValues_digits d]
          exact natOfValues_zeros_append ((-d.point).toNat + 1) _
        rw [Numeral.significand, hsignificand, Numeral.power, Decimal.value,
          show d.exponent = 0 - (((-d.point).toNat + d.digits.length : Nat) : Int) by omega]
        simp
      · simp [Numeral.text, Numeral.pointed, Numeral.scale, hne]
    split
    · rename_i hback
      -- zeros stand between the last digit and the point
      refine ⟨⟨d.digits ++ List.replicate (d.point.toNat - d.digits.length) '0', ['0'], none⟩,
        ⟨⟨List.forall_mem_append.mpr ⟨hdigits, hzeros _⟩, hzeros 1, by simp [hne]⟩, ?_,
        hlead (by rw [List.head?_append, List.head?_eq_some_head hne, Option.some_or]), .inl (by simp)⟩, ?_⟩
      · have hsignificand : natOfValues ((d.digits
            ++ List.replicate (d.point.toNat - d.digits.length) '0' ++ ['0']).map digitOf)
            = d.significand * 10 ^ (d.exponent.toNat + 1) := by
          rw [List.append_assoc, List.map_append,
            show List.replicate (d.point.toNat - d.digits.length) '0' ++ ['0']
              = List.replicate (d.exponent.toNat + 1) '0' by
              rw [List.replicate_succ',
                show d.point.toNat - d.digits.length = d.exponent.toNat by omega],
            hmap, natOfValues_append_zeros, natOfValues_digits]
        obtain ⟨k, hk⟩ := Int.eq_ofNat_of_zero_le (show 0 ≤ d.exponent by omega)
        rw [Numeral.significand, hsignificand, Decimal.value, hk, Int.toNat_natCast, zpow_natCast]
        show ((d.significand * 10 ^ (k + 1) : Nat) : Rat) * 10 ^ (-1 : Int) = _
        push_cast
        rw [zpow_neg_one, pow_succ]
        ring
      · simp [Numeral.text, Numeral.pointed, Numeral.scale]
    · -- the point stands among the digits
      rename_i hpositive hfew
      have htake : d.point.toNat ≠ 0 := by omega
      have hdrop : d.digits.drop d.point.toNat ≠ [] := by
        rw [Ne, List.drop_eq_nil_iff, not_le]
        omega
      refine ⟨⟨d.digits.take d.point.toNat, d.digits.drop d.point.toNat, none⟩,
        ⟨⟨fun c hc ↦ hdigits c (List.mem_of_mem_take hc), fun c hc ↦ hdigits c (List.mem_of_mem_drop hc),
        ?_⟩, ?_, hlead ?_, .inl hdrop⟩, ?_⟩
      · rw [Ne, List.take_eq_nil_iff, not_or]
        exact ⟨htake, hne⟩
      · rw [Numeral.significand, Numeral.power, List.take_append_drop, natOfValues_digits,
          List.length_drop, Decimal.value,
          show d.exponent = 0 - ((d.digits.length - d.point.toNat : Nat) : Int) by omega]
        rfl
      · rw [List.head?_take, if_neg htake]
      · simp [Numeral.text, Numeral.pointed, Numeral.scale, hdrop]
  · split
    · rename_i digit heq
      refine ⟨⟨d.digits, [], some (d.point - 1)⟩, ⟨⟨hdigits, by simp, hne⟩, ?_, hlead rfl,
        .inr (by simp)⟩, ?_⟩
      · rw [Numeral.significand, List.append_nil, natOfValues_digits, Numeral.power, Decimal.value,
          show d.exponent = d.point - 1 - (([] : List Char).length : Int) by
            rw [hpoint, heq]; simp]
        rfl
      · simp [Numeral.text, Numeral.pointed, Numeral.scale, heq]
    · rename_i digit rest hrest heq
      refine ⟨⟨[digit], rest, some (d.point - 1)⟩, ⟨⟨fun c hc ↦ hdigits c ?_, fun c hc ↦ hdigits c ?_,
        by simp⟩, ?_, hlead (by rw [heq]; rfl), .inr (by simp)⟩, ?_⟩
      · rw [heq, List.mem_singleton.mp hc]
        exact List.mem_cons_self
      · rw [heq]
        exact List.mem_cons_of_mem _ hc
      · rw [Numeral.significand, show [digit] ++ rest = d.digits from heq.symm, natOfValues_digits,
          Numeral.power, Decimal.value, show d.exponent = d.point - 1 - (rest.length : Int) by
            rw [hpoint, heq, List.length_cons]; omega]
        rfl
      · have hsome : rest ≠ [] := hrest
        simp [Numeral.text, Numeral.pointed, Numeral.scale, hsome]
    · rename_i heq
      exact absurd heq hne

/-- **A decimal is read back from its text**, whatever the layout. -/
theorem readUnsigned_text (standard : numerals.IsStandard) (negative : Bool) (layout : Layout)
    (d : Decimal) :
    ∃ (s : Nat) (e : Int), (s * 10 ^ e : Rat) = d.value
      ∧ readUnsigned numerals negative (layout.text d) = some (quantityOfDecimal negative s e) := by
  obtain ⟨n, hn, htext⟩ := exists_numeral layout d
  exact ⟨n.significand, n.power, hn.value, by
    rw [htext, Numeral.readUnsigned_text standard negative hn.toIsNumeral]⟩

/-- **The shortest decimal of a point of the grid is read as that point.** -/
theorem IsOnGrid.readUnsigned_shortest {q : Rat} (h : IsOnGrid q) (hq : 0 < q)
    (standard : numerals.IsStandard) (negative : Bool) (layout : Layout) :
    readUnsigned numerals negative (layout.text (shortest q)) =
      some (.finite (if negative then -q else q)) := by
  obtain ⟨s, e, hvalue, hread⟩ := readUnsigned_text standard negative layout (shortest q)
  have hback := h.binary64_shortest hq
  rw [← hvalue] at hback
  rw [hread, quantityOfDecimal_of_binary64 negative hback hq]

/-! ## Where a numeral ends -/

theorem latinDigit?_eq (c : Char) :
    latinDigit? c = if c.isDigit then some (digitOf c) else none := by
  rw [latinDigit?]
  simp only [isDigit_iff]
  rfl

theorem moreDigits_latin (s : List Char) : Numerals.latin.moreDigits s =
    ((s.takeWhile Char.isDigit).map digitOf, s.dropWhile Char.isDigit) := by
  induction s with
  | nil => rfl
  | cons c s ih =>
    rw [Numerals.moreDigits.eq_def]
    split
    · rename_i heq
      cases heq
    · rename_i heq
      obtain ⟨rfl, rfl⟩ := List.cons.inj heq
      rfl
    · rename_i heq
      obtain ⟨rfl, rfl⟩ := List.cons.inj heq
      rw [ih, show Numerals.latin.value? c = latinDigit? c from rfl, latinDigit?_eq,
        List.takeWhile_cons, List.dropWhile_cons]
      cases c.isDigit <;> rfl

/-- Latin digits are taken as far as they go. -/
theorem takeDigits_latin (s : List Char) : Numerals.latin.takeDigits s =
    ((s.takeWhile Char.isDigit).map digitOf, s.dropWhile Char.isDigit) := by
  cases s with
  | nil => rfl
  | cons c s =>
    rw [Numerals.takeDigits, moreDigits_latin, show Numerals.latin.value? c = latinDigit? c from rfl,
      latinDigit?_eq, List.takeWhile_cons, List.dropWhile_cons]
    cases c.isDigit <;> rfl

section

variable {c : Char} (hc : c.isDigit = false)
include hc

/-- A character that is no digit ends the digits, whatever stands in front of it. -/
theorem takeDigits_append_mark (s rest : List Char) : Numerals.latin.takeDigits (s ++ c :: rest) =
    ((Numerals.latin.takeDigits s).1, (Numerals.latin.takeDigits s).2 ++ c :: rest) := by
  rw [takeDigits_latin, takeDigits_latin]
  induction s with
  | nil => simp [hc]
  | cons d s ih =>
    rw [List.cons_append, List.takeWhile_cons, List.takeWhile_cons, List.dropWhile_cons,
      List.dropWhile_cons]
    cases d.isDigit with
    | false => rfl
    | true =>
      rw [Prod.mk.injEq] at ih
      simp only [if_true, List.map_cons, ih.1, ih.2]

theorem takeFraction_append_mark (hpoint : c ≠ '.') (s rest : List Char) :
    Numerals.latin.takeFraction (s ++ c :: rest) =
      ((Numerals.latin.takeFraction s).1, (Numerals.latin.takeFraction s).2 ++ c :: rest) := by
  rw [Numerals.takeFraction.eq_def, Numerals.takeFraction.eq_def]
  cases s with
  | nil =>
    rw [List.nil_append]
    split
    · rename_i heq
      exact absurd (List.cons.inj heq).1 hpoint
    · rfl
  | cons d s =>
    rw [List.cons_append]
    split
    · rename_i heq
      obtain ⟨rfl, rfl⟩ := List.cons.inj heq
      exact takeDigits_append_mark hc s rest
    · rename_i hd
      split
      · rename_i heq
        obtain ⟨rfl, rfl⟩ := List.cons.inj heq
        exact absurd rfl (hd _)
      · rfl

omit hc in
theorem takeSign_append {s : List Char} (hs : s ≠ []) (t : List Char) :
    takeSign (s ++ t) = ((takeSign s).1, (takeSign s).2 ++ t) := by
  obtain ⟨d, s, rfl⟩ := List.exists_cons_of_ne_nil hs
  rw [List.cons_append, takeSign.eq_def, takeSign.eq_def]
  split
  · rename_i heq
    obtain ⟨rfl, rfl⟩ := List.cons.inj heq
    rfl
  · rename_i heq
    obtain ⟨rfl, rfl⟩ := List.cons.inj heq
    rfl
  · rename_i hminus hplus
    split
    · rename_i heq
      obtain ⟨rfl, rfl⟩ := List.cons.inj heq
      exact absurd rfl (hminus _)
    · rename_i heq
      obtain ⟨rfl, rfl⟩ := List.cons.inj heq
      exact absurd rfl (hplus _)
    · rfl

theorem readExponent_append_mark {s : List Char} {e : Int}
    (h : readExponent Numerals.latin s = some e) (hletter : c ≠ 'e' ∧ c ≠ 'E') (rest : List Char) :
    readExponent Numerals.latin (s ++ c :: rest) = none := by
  cases s with
  | nil => rw [List.nil_append, readExponent, if_neg (not_or.mpr hletter)]
  | cons d s =>
    rw [readExponent] at h
    rw [List.cons_append, readExponent]
    split at h
    · rename_i hd
      have hs : s ≠ [] := by
        rintro rfl
        cases h
      rw [if_pos hd, takeSign_append hs]
      dsimp only
      rw [takeDigits_append_mark hc]
      generalize Numerals.latin.takeDigits (takeSign s).2 = cut at h
      obtain ⟨ds, left⟩ := cut
      cases ds with
      | nil => rfl
      | cons d ds => cases left <;> rfl
    · cases h

/-- What is no digit, no point and no letter of an exponent does not go on with a numeral. -/
theorem readUnsigned_append_mark {negative : Bool} {s : List Char} {x : Quantity}
    (h : readUnsigned Numerals.latin negative s = some x) (hpoint : c ≠ '.')
    (hletter : c ≠ 'e' ∧ c ≠ 'E') (rest : List Char) :
    readUnsigned Numerals.latin negative (s ++ c :: rest) = none := by
  rw [readUnsigned_eq] at h ⊢
  rw [takeDigits_append_mark hc]
  dsimp only at h ⊢
  rw [takeFraction_append_mark hc hpoint]
  dsimp only
  split at h
  · cases h
  · rename_i hempty
    obtain ⟨e, he, -⟩ := Option.map_eq_some_iff.mp h
    rw [if_neg hempty, readExponent_append_mark hc he hletter]
    rfl

end

end Montage
