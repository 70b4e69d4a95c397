import Montage.Json.Printer
import Montage.Json.Reader
import Montage.Proofs.Number.Text
import Montage.Proofs.Text.Lines

/-!
# Numbers of a document read back

The number in front of a text is taken part by part: digits, a fraction and an exponent, as far as
they go.  A whole number has digits alone; a quantity is written as a numeral with a point or an
exponent (`exists_numeral`), and is never taken for a whole number.
-/

set_option autoImplicit false

namespace Montage
namespace Json

/-! ## The parts of a number -/

/-- The digits in front of a text: a zero stands alone. -/
def takeWhole (s : List Char) : List Char × List Char :=
  match s with
  | '0' :: more => (['0'], more)
  | _ => s.span Char.isDigit

/-- The digits behind a point. -/
def takeFraction (s : List Char) : List Char × List Char :=
  match s with
  | '.' :: more =>
    if (more.takeWhile Char.isDigit).isEmpty then ([], s) else more.span Char.isDigit
  | _ => ([], s)

/-- The exponent in front of a text, if there is one. -/
def takeScale (s : List Char) : Option Int × List Char :=
  match s with
  | e :: more =>
    if e = 'e' ∨ e = 'E' then
      let (minus, digits) := takeSign more
      let (ds, after) := digits.span Char.isDigit
      if ds.isEmpty then (none, s)
      else (some (if minus then -(natOfDigits ds : Int) else natOfDigits ds), after)
    else (none, s)
  | [] => (none, s)

/-- The minus sign in front of a number. -/
def takeMinus (s : List Char) : Bool × List Char :=
  match s with
  | '-' :: rest => (true, rest)
  | _ => (false, s)

/-- A number is taken part by part. -/
theorem takeNumber_eq (s : List Char) : takeNumber s =
    let (negative, body) := takeMinus s
    let (whole, rest) := takeWhole body
    if whole.isEmpty then .error .notJson else
    let (fraction, afterFraction) := takeFraction rest
    let (exponent, left) := takeScale afterFraction
    if fraction.isEmpty && exponent.isNone then
      if digitLimit < whole.length then .error .badValue
      else
        let n := natOfDigits whole
        .ok (.whole (if negative then -(n : Int) else n), left)
    else
      let significand := natOfDigits (whole ++ fraction)
      .ok (.real (quantityOfDecimal negative significand (exponent.getD 0 - fraction.length)), left) :=
  rfl

/-- Nothing that could go on with a number opens a text. -/
def EndsNumber (rest : List Char) : Prop :=
  ∀ c ∈ rest.head?, c.isDigit = false ∧ c ≠ '.' ∧ c ≠ 'e' ∧ c ≠ 'E'

section

variable {rest : List Char}

theorem takeMinus_sign (negative : Bool) {c : Char} (hc : c ≠ '-') (s : List Char) :
    takeMinus ((if negative then ['-'] else []) ++ c :: s) = (negative, c :: s) := by
  cases negative with
  | false =>
    rw [takeMinus.eq_def]
    split
    · rename_i heq
      exact absurd (List.cons.inj heq).1 hc
    · rfl
  | true => rfl

theorem takeWhole_append {whole : List Char} (hdigits : ∀ c ∈ whole, c.isDigit = true)
    (hne : whole ≠ []) (hlead : whole.head? = some '0' → whole = ['0'])
    (hrest : ∀ c ∈ rest.head?, c.isDigit = false) : takeWhole (whole ++ rest) = (whole, rest) := by
  obtain ⟨c, digits, rfl⟩ := List.exists_cons_of_ne_nil hne
  rw [List.cons_append, takeWhole.eq_def]
  split
  · rename_i heq
    obtain ⟨rfl, rfl⟩ := List.cons.inj heq
    cases hlead rfl
    rfl
  · exact span_append hdigits hrest

theorem takeFraction_pointed {n : Numeral} (h : n.IsNumeral)
    (hrest : ∀ c ∈ rest.head?, c.isDigit = false ∧ c ≠ '.') :
    takeFraction (n.pointed ++ rest) = (n.fraction, rest) := by
  have hspan := span_append h.fraction fun c hc ↦ (hrest c hc).1
  rw [Numeral.pointed]
  split
  · rename_i hnone
    rw [List.nil_append, takeFraction.eq_def]
    split
    · exact absurd rfl (hrest '.' rfl).2
    · rw [hnone]
  · rename_i hsome
    rw [List.span_eq_takeWhile_dropWhile, Prod.mk.injEq] at hspan
    rw [List.cons_append, takeFraction, hspan.1, if_neg (by simpa using hsome),
      List.span_eq_takeWhile_dropWhile, hspan.1, hspan.2]

/-- A whole number is its amount with its sign. -/
theorem signed_natAbs (n : Int) :
    (if decide (n < 0) = true then -(n.natAbs : Int) else n.natAbs) = n := by
  split
  · rename_i h
    have := of_decide_eq_true h
    omega
  · rename_i h
    have := mt decide_eq_true h
    omega

theorem takeScale_scale (layout : Layout) (n : Numeral)
    (hrest : ∀ c ∈ rest.head?, c.isDigit = false ∧ c ≠ 'e' ∧ c ≠ 'E') :
    takeScale (n.scale layout ++ rest) = (n.exponent, rest) := by
  rw [Numeral.scale]
  cases hexponent : n.exponent with
  | none =>
    rw [Option.elim_none, List.nil_append, takeScale.eq_def]
    split
    · rw [if_neg (not_or.mpr (hrest _ rfl).2)]
    · rfl
  | some e =>
    have hdigits : ∀ c ∈ padZeros layout.exponentWidth (Nat.toDigits 10 e.natAbs),
        c.isDigit = true := fun c hc ↦ isDigit_of_mem_padZeros hc
    rw [Option.elim_some, Layout.exponent, List.cons_append, List.cons_append, takeScale,
      if_pos (.inl rfl), takeSign_exponent]
    dsimp only
    rw [span_append hdigits fun c hc ↦ (hrest c hc).1]
    dsimp only
    rw [if_neg (by simp [padZeros_ne_nil]), natOfDigits_padZeros, signed_natAbs]

/-! ## Numbers -/

/-- **A numeral with a point or an exponent is taken as a quantity**, with the sign in front of it,
unless a superfluous zero opens it. -/
theorem takeNumber_numeral {n : Numeral} (h : n.IsNumeral)
    (hlead : n.whole.head? = some '0' → n.whole = ['0'])
    (hmarked : n.fraction ≠ [] ∨ n.exponent ≠ none) (layout : Layout) (negative : Bool)
    (hends : EndsNumber rest) :
    takeNumber ((if negative then ['-'] else []) ++ (n.text layout ++ rest)) =
      .ok (.real (quantityOfDecimal negative n.significand n.power), rest) := by
  have hscale : ∀ c ∈ (n.scale layout ++ rest).head?, c.isDigit = false ∧ c ≠ '.' := by
    obtain hempty | ⟨more, hmore⟩ := n.scale_eq layout
    · rw [hempty]
      exact fun c hc ↦ ⟨(hends c hc).1, (hends c hc).2.1⟩
    · rw [hmore]
      rintro c ⟨⟩
      decide
  have hpointed : ∀ c ∈ (n.pointed ++ (n.scale layout ++ rest)).head?, c.isDigit = false := by
    rw [Numeral.pointed]
    split
    · exact fun c hc ↦ (hscale c hc).1
    · rintro c ⟨⟩
      rfl
  have hwhole := takeWhole_append h.whole h.opens hlead hpointed
  have hbody : takeMinus ((if negative then ['-'] else []) ++ (n.whole ++ (n.pointed
      ++ (n.scale layout ++ rest)))) = (negative, n.whole ++ (n.pointed
      ++ (n.scale layout ++ rest))) := by
    obtain ⟨c, digits, hcons⟩ := List.exists_cons_of_ne_nil h.opens
    have hc : c.isDigit = true := h.whole c (hcons ▸ List.mem_cons_self)
    rw [hcons]
    refine takeMinus_sign negative ?_ _
    rintro rfl
    exact absurd hc (by decide)
  have hfraction := takeFraction_pointed h hscale
  have hexponent := takeScale_scale layout n fun c hc ↦ ⟨(hends c hc).1, (hends c hc).2.2⟩
  have hmarked : ¬ (n.fraction.isEmpty && n.exponent.isNone) = true := by
    simpa [-not_and, not_and_or] using hmarked
  have hvalue : natOfDigits (n.whole ++ n.fraction) = n.significand :=
    natOfDigits_eq (List.forall_mem_append.mpr ⟨h.whole, h.fraction⟩)
  rw [takeNumber_eq, Numeral.text, List.append_assoc, List.append_assoc, hbody]
  dsimp only
  rw [hwhole]
  dsimp only
  rw [if_neg (by simpa using h.opens), hfraction]
  dsimp only
  rw [hexponent]
  dsimp only
  rw [if_neg hmarked, hvalue]
  rfl

/-- A whole number is taken as such, as long as it is not too long for the reader. -/
theorem takeNumber_whole {n : Int} (hfew : n.natAbs < 10 ^ digitLimit) (hends : EndsNumber rest) :
    takeNumber ((toString n).toList ++ rest) = .ok (.whole n, rest) := by
  have hdigits : ∀ c ∈ Nat.toDigits 10 n.natAbs, c.isDigit = true :=
    fun c hc ↦ isDigit_of_mem_toDigits hc
  have hlength : ¬ digitLimit < (Nat.toDigits 10 n.natAbs).length := by
    rw [not_lt, Nat.length_toDigits_le_iff (by decide) (by decide)]
    exact hfew
  have hlead : (Nat.toDigits 10 n.natAbs).head? = some '0' → Nat.toDigits 10 n.natAbs = ['0'] := by
    intro hhead
    rcases Nat.eq_zero_or_pos n.natAbs with hzero | hpos
    · rw [hzero]
      rfl
    · exact absurd hhead (head?_toDigits_ne hpos)
  have hwhole := takeWhole_append hdigits Nat.toDigits_ne_nil hlead fun c hc ↦ (hends c hc).1
  let numeral : Numeral := { whole := Nat.toDigits 10 n.natAbs }
  have hfraction : takeFraction rest = ([], rest) :=
    takeFraction_pointed (n := numeral) ⟨hdigits, by simp [numeral], Nat.toDigits_ne_nil⟩
      fun c hc ↦ ⟨(hends c hc).1, (hends c hc).2.1⟩
  have hscale : takeScale rest = (none, rest) :=
    takeScale_scale .plain numeral fun c hc ↦ ⟨(hends c hc).1, (hends c hc).2.2⟩
  have hminus : takeMinus ((if n < 0 then ['-'] else []) ++ (Nat.toDigits 10 n.natAbs ++ rest))
      = (decide (n < 0), Nat.toDigits 10 n.natAbs ++ rest) := by
    obtain ⟨c, digits, hcons, hc⟩ := toDigits_eq_cons n.natAbs
    have hsign := takeMinus_sign (decide (n < 0)) (c := c) (by rintro rfl; cases hc) (digits ++ rest)
    simpa [hcons] using hsign
  rw [takeNumber_eq, toList_toString_int, List.append_assoc, hminus]
  dsimp only
  rw [hwhole]
  dsimp only
  rw [if_neg (by simp [Nat.toDigits_ne_nil]), hfraction]
  dsimp only
  rw [hscale]
  dsimp only
  rw [if_pos (by rfl), if_neg hlength, natOfDigits_toDigits, signed_natAbs]

/-- **A quantity of the grid is taken back from its text**, whatever the layout. -/
theorem takeNumber_quantity {x : Quantity} (hgrid : x.IsOnGrid) (hfinite : x.isFinite = true)
    (layout : Layout) (hends : EndsNumber rest) :
    takeNumber ((x.display layout).toList ++ rest) = .ok (.real x, rest) := by
  have hzero : ∀ negative : Bool,
      takeNumber ((if negative then ['-'] else []) ++ ("0.0".toList ++ rest))
        = .ok (.real (.zero negative), rest) := by
    intro negative
    exact takeNumber_numeral (n := ⟨['0'], ['0'], none⟩) ⟨by simp, by simp, by simp⟩ (fun _ ↦ rfl)
      (.inl (by simp)) layout negative hends
  have hpositive : ∀ q, IsOnGrid q → 0 < q → ∀ negative : Bool,
      takeNumber ((if negative then ['-'] else []) ++ (layout.text (shortest q) ++ rest))
        = .ok (.real (.finite (if negative then -q else q)), rest) := by
    intro q hq hpos negative
    obtain ⟨n, hn, htext⟩ := exists_numeral layout (shortest q)
    have hback := hq.binary64_shortest hpos
    have hsignificand : 0 < (shortest q).significand := by
      refine Nat.pos_of_ne_zero fun hzero ↦ hpos.ne ?_
      rw [Decimal.value, hzero, Nat.cast_zero, zero_mul, isOnGrid_zero] at hback
      exact Quantity.finite.inj hback
    rw [← hn.value] at hback
    rw [htext, takeNumber_numeral hn.toIsNumeral (hn.lead hsignificand) hn.marked layout negative hends,
      quantityOfDecimal_of_binary64 negative hback hpos]
  cases x with
  | finite q =>
    rw [Quantity.display]
    split
    · rename_i hnum
      cases Rat.num_eq_zero.mp hnum
      exact hzero false
    split
    · rename_i hne hnegative
      have hq := isOnGrid_neg (hgrid q rfl)
      have hread := hpositive (-q) hq (neg_pos.mpr (Rat.num_neg.mp hnegative)) true
      rw [if_pos rfl, if_pos rfl, neg_neg] at hread
      rwa [String.toList_ofList]
    · rename_i hne hnegative
      have hpos : 0 < q := lt_of_le_of_ne (Rat.num_nonneg.mp (not_lt.mp hnegative))
        fun heq ↦ hne (Rat.num_eq_zero.mpr heq.symm)
      rw [String.toList_ofList]
      exact hpositive q (hgrid q rfl) hpos false
  | negativeZero =>
    rw [Quantity.display, show "-0.0".toList = ['-'] ++ "0.0".toList from rfl, List.append_assoc]
    exact hzero true
  | infinite negative => cases hfinite
  | undefined => cases hfinite

end

end Json
end Montage
