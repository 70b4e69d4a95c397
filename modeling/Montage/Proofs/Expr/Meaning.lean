import Montage.Proofs.Expr.Alike
import Montage.Proofs.Expr.Parentheses

/-!
# Expressions mean what they are built from

An expression is built from operands by folding constants and dropping neutral operands, and it is
written with as few parentheses as seemed necessary.  The text is read, by the usual grammar, as a
formula of the same value as the operands have together.

What is carried through the building is `Expr.Means`: the text of the expression is read as an
operand of the strength that the expression claims, and that operand has the value.  The strength is
what lets an operation decide on parentheses.
-/

set_option autoImplicit false

namespace Montage

variable {K : Type} [Field K] [DecidableEq K] {I : Interpretation K}

namespace Formula

/-! ## Numbers -/

theorem numeral?_toDigits (n : Nat) : numeral? (Nat.toDigits 10 n) = some (.whole n) := by
  rw [numeral?, if_pos (List.all_eq_true.mpr fun c hc ↦ isDigit_of_mem_toDigits hc),
    if_neg Nat.toDigits_ne_nil, natOfDigits_toDigits]

/-- The text of a decimal does not consist of digits alone: it has a point or an exponent. -/
theorem layout_not_all_digits (layout : Layout) (d : Decimal) :
    (layout.text d).all Char.isDigit = false := by
  have hpoint : Char.isDigit '.' = false := rfl
  have hletter : Char.isDigit 'e' = false := rfl
  rw [Layout.text]
  dsimp only
  split
  · split
    · simp [hpoint]
    split <;> simp [hpoint]
  · split <;> simp [Layout.exponent, hletter]

theorem numeral?_layout {q : Rat} (h : IsOnGrid q) (hq : 0 < q) (layout : Layout) :
    numeral? (layout.text (shortest q)) = some (.real (.finite q)) := by
  rw [numeral?, if_neg (by rw [layout_not_all_digits]; exact Bool.false_ne_true),
    h.readUnsigned_shortest hq isStandard_latin false layout]
  rfl

/-- The text of a whole number. -/
theorem reads_toString (n : Int) :
    ∃ a, Derives (.operand 3) (toString n).toList a ∧ a.value I = some (n : K) := by
  cases n with
  | ofNat n =>
    refine ⟨.num (.whole n), ?_, ?_⟩
    · show Derives (.operand 3) n.repr.toList _
      rw [Nat.toList_repr]
      exact .unsigned (.numeral (numeral?_toDigits n))
    · rw [Formula.value]
      exact Number.valueIn_eq_some.mpr ⟨n, rfl, ratIn_intCast n⟩
  | negSucc n =>
    refine ⟨.neg (.num (.whole (n + 1 : Nat))), ?_, ?_⟩
    · show Derives (.operand 3) ("-" ++ (n + 1).repr).toList _
      rw [String.toList_append, Nat.toList_repr]
      exact .negative (.numeral (numeral?_toDigits (n + 1)))
    · have hvalue : (Number.whole (n + 1 : Nat)).valueIn K = some (((n + 1 : Nat) : Int) : K) :=
        Number.valueIn_eq_some.mpr ⟨(n + 1 : Nat), rfl, ratIn_intCast _⟩
      rw [Formula.value, Formula.value, hvalue, Int.cast_negSucc]
      push_cast
      rfl

/-- **A number is read back from its text.** -/
theorem reads_number {n : Number} (hgrid : n.IsOnGrid) {v : K} (hv : n.valueIn K = some v) :
    ∃ a, Derives (.operand 3) n.text.toList a ∧ a.value I = some v := by
  obtain ⟨q, hq, hvq⟩ := Number.valueIn_eq_some.mp hv
  cases n with
  | whole n =>
    cases hq
    rw [ratIn_intCast] at hvq
    cases hvq
    exact reads_toString n
  | real x =>
    have hx : x.value? = some q := hq
    rw [Number.text, hx]
    dsimp only
    split
    · rename_i hden
      have hwhole : (q.num : Rat) = q := (Rat.den_eq_one_iff q).mp hden
      rw [← hwhole, ratIn_intCast] at hvq
      cases hvq
      exact reads_toString q.num
    · rename_i hden
      obtain rfl : x = .finite q := by
        cases x with
        | finite p =>
          cases hx
          rfl
        | negativeZero =>
          cases hx
          exact absurd rfl hden
        | _ => cases hx
      have hne : q ≠ 0 := by
        rintro rfl
        exact hden rfl
      have hon : IsOnGrid q := hgrid q rfl
      rw [Quantity.display, if_neg (fun h ↦ hne (Rat.num_eq_zero.mp h))]
      split
      · rename_i hnegative
        have hpos : 0 < -q := neg_pos.mpr (Rat.num_neg.mp hnegative)
        refine ⟨.neg (.num (.real (.finite (-q)))), ?_, ?_⟩
        · rw [String.toList_ofList]
          exact .negative (.numeral (numeral?_layout (isOnGrid_neg hon) hpos _))
        · have hvalue : (Number.real (.finite (-q))).valueIn K = some (-v) :=
            Number.valueIn_eq_some.mpr ⟨-q, rfl, ratIn_neg hvq⟩
          rw [Formula.value, Formula.value, hvalue]
          exact congrArg some (neg_neg v)
      · rename_i hnegative
        have hpos : 0 < q :=
          lt_of_le_of_ne (Rat.num_nonneg.mp (not_lt.mp hnegative)) hne.symm
        refine ⟨.num (.real (.finite q)), ?_, ?_⟩
        · rw [String.toList_ofList]
          exact .unsigned (.numeral (numeral?_layout hon hpos _))
        · rw [Formula.value]
          exact Number.valueIn_eq_some.mpr ⟨q, rfl, hvq⟩

end Formula

namespace Expr

open Formula

/-! ## What an expression means -/

/-- The text of an expression is read as an operand of the strength that the expression claims, and
the operand has the value; so has the constant, if the expression is one. -/
structure Means (I : Interpretation K) (e : Expr) (v : K) : Prop where
  constant : ∀ n, e = .num n → n.IsOnGrid ∧ n.valueIn K = some v
  reading : ∃ a, Derives (.operand (max 1 e.precedence)) (condensed e.text) a ∧
    a.value I = some v

theorem precedence_le (e : Expr) : e.precedence ≤ 3 := by
  cases e with
  | raw text =>
    rw [precedence]
    split <;> decide
  | binary operation a b =>
    rw [precedence]
    cases operation <;> decide
  | _ => exact le_rfl

theorem Means.of_isOpen {e : Expr} {v : K} (hopen : e.IsOpen) {a : Formula}
    (h : Derives (.operand (max 1 e.precedence)) (condensed e.text) a)
    (hv : a.value I = some v) : e.Means I v where
  constant n hn := absurd hn (hopen n)
  reading := ⟨a, h, hv⟩

theorem means_num {n : Number} (hgrid : n.IsOnGrid) {v : K} (hv : n.valueIn K = some v) :
    (num n).Means I v where
  constant := by
    rintro _ ⟨⟩
    exact ⟨hgrid, hv⟩
  reading := by
    rw [text, condensed_number]
    exact reads_number hgrid hv

theorem means_var {x : String} (hx : IsIdentifier x) : (var x).Means I (I.name x) := by
  have hread : Derives (.operand 4) x.toList (.var x) := by
    rw [← List.append_nil x.toList]
    exact .word hx .name
  refine .of_isOpen (isOpen_var x) (a := .var x) ?_ (by rw [Formula.value])
  rw [text, condensed_identifier hx]
  exact .unsigned hread

/-- The text of a caller is passed on, and passes for one operand only if it is. -/
theorem means_raw {s : String} {a : Formula} (h : Reads s a) {v : K} (hv : a.value I = some v) :
    (raw s).Means I v := by
  refine .of_isOpen (by rintro _ ⟨⟩) ?_ hv
  rw [text, precedence]
  split
  · exact Derives.factor_of_isSimple ‹_› h
  · exact h

variable {a b : Expr} {x y v : K}

/-! ## Operations -/

/-- An operand in parentheses is as strong as wanted. -/
theorem Means.parenthesized (wanted : Bool) (h : a.Means I x) {p : Nat} (hp : 1 ≤ p) (hfour : p ≤ 4)
    (hstrong : wanted = false → p ≤ a.precedence) :
    ∃ f, Derives (.operand p) (condensed (Expr.parenthesized wanted a.text)) f ∧
      f.value I = some x := by
  obtain ⟨f, hf, hvalue⟩ := h.reading
  have hle := a.precedence_le
  refine ⟨f, ?_, hvalue⟩
  cases wanted with
  | true =>
    rw [Expr.parenthesized, if_pos rfl, List.cons_append, condensed_cons (by decide),
      condensed_append, condensed_eq_self (s := [')']) (by decide)]
    exact hf.parentheses hp hfour (by omega) (by omega)
  | false => exact hf.weaken hp (by have := hstrong rfl; omega) (by omega)

/-- **An operation means the operation.**  Where parentheses are left out, the operand is strong
enough, or it is on the right of a sum or of a product and may be regrouped. -/
theorem Means.binary {operation : Operation} (ha : a.Means I x) (hb : b.Means I y)
    (hv : operation.apply x y = some v) : (binary operation a b).Means I v := by
  obtain ⟨p, hp⟩ : ∃ p, operation.precedence = p := ⟨_, rfl⟩
  have hrange : p = 1 ∨ p = 2 := by cases operation <;> cases hp <;> decide
  obtain ⟨f, hf, hfvalue⟩ := ha.parenthesized (a.precedence < p) (p := p) (by omega)
    (by omega) (by simp)
  suffices ∃ c, Derives (.operand p) (condensed (Expr.binary operation a b).text) c ∧
      c.value I = some v by
    obtain ⟨c, hc, hcvalue⟩ := this
    refine .of_isOpen (isOpen_binary _ _ _) ?_ hcvalue
    rw [precedence, hp, max_eq_right (by omega)]
    exact hc
  rw [text, hp, condensed_append, condensed_cons (isBlank_sign operation)]
  generalize hwanted : (decide (b.precedence < p)
    || (b.precedence == p && operation.separatesRight) || b.isNegativeConstant) = wanted
  by_cases hstrong : wanted = false → p + 1 ≤ b.precedence
  · obtain ⟨g, hg, hgvalue⟩ := hb.parenthesized _ (by omega) (by omega) hstrong
    exact ⟨_, hf.operation hp hg, value_binary_eq_some.mpr ⟨x, y, hfvalue, hgvalue, hv⟩⟩
  · obtain ⟨rfl, hweak⟩ := Classical.not_imp.mp hstrong
    simp only [Bool.or_eq_false_iff, decide_eq_false_iff_not, not_lt, Bool.and_eq_false_iff,
      beq_eq_false_iff_ne] at hwanted
    obtain ⟨⟨hle, hside⟩, -⟩ := hwanted
    have hseparates : operation.separatesRight = false := hside.resolve_left (by omega)
    obtain ⟨g, hg, hgvalue⟩ := hb.parenthesized false (by omega) (by omega)
      fun _ ↦ hle
    obtain ⟨c, hc, hcvalue⟩ := hf.regroup hp hseparates hfvalue hg hgvalue
    exact ⟨c, hc, hcvalue.trans hv⟩

/-! ## Neutral operands -/

theorem isConstant_iff {e : Expr} {n : Number} :
    e.isConstant n = true ↔ ∃ m, e = num m ∧ m.eq n = true := by
  cases e <;> simp [isConstant]

/-- A constant that is equal to a whole number has its value. -/
theorem Means.eq_of_isConstant (h : a.Means I x) {k : Int}
    (hk : a.isConstant (.whole k) = true) : x = k := by
  obtain ⟨n, rfl, hn⟩ := isConstant_iff.mp hk
  have hvalue := (h.constant n rfl).2
  rw [Number.valueIn_of_eq hn] at hvalue
  exact (Option.some.inj hvalue).symm

theorem means_whole (k : Int) : (num (.whole k)).Means I (k : K) :=
  means_num (by rw [Number.IsOnGrid]; trivial)
    (Number.valueIn_eq_some.mpr ⟨k, rfl, ratIn_intCast k⟩)

theorem means_zero : (num 0).Means I (0 : K) := by
  have h := means_whole (K := K) (I := I) 0
  rwa [Int.cast_zero] at h

/-- The opposite of a constant. -/
theorem Means.neg {n : Number} (h : (num n).Means I x) : (num n.neg).Means I (-x) :=
  means_num (h.constant n rfl).1.neg (Number.valueIn_neg (h.constant n rfl).2)

/-- **Neutral operands may be dropped**, and a negative constant that is added may be subtracted. -/
theorem Means.simplified {operation : Operation} (ha : a.Means I x) (hb : b.Means I y)
    (hv : operation.apply x y = some v) : (simplified operation a b).Means I v := by
  have hzero : ∀ {e : Expr} {z : K}, e.Means I z → e.isConstant 0 = true → z = 0 :=
    fun h hk ↦ (h.eq_of_isConstant (k := 0) hk).trans Int.cast_zero
  have hone : ∀ {e : Expr} {z : K}, e.Means I z → e.isConstant 1 = true → z = 1 :=
    fun h hk ↦ (h.eq_of_isConstant (k := 1) hk).trans Int.cast_one
  cases operation with
  | plus =>
    obtain rfl : x + y = v := Option.some.inj hv
    rw [Expr.simplified.eq_def]
    dsimp only
    split
    · rw [hzero ha ‹_›, zero_add]
      exact hb
    split
    · rw [hzero hb ‹_›, add_zero]
      exact ha
    split
    · split
      · exact ha.binary hb.neg (congrArg some (sub_neg_eq_add x y))
      · exact ha.binary hb rfl
    · exact ha.binary hb rfl
  | minus =>
    obtain rfl : x - y = v := Option.some.inj hv
    rw [Expr.simplified.eq_def]
    dsimp only
    split
    · rw [hzero hb ‹_›, sub_zero]
      exact ha
    split
    · split
      · exact ha.binary hb.neg (congrArg some (sub_eq_add_neg x y).symm)
      · exact ha.binary hb rfl
    · exact ha.binary hb rfl
  | times =>
    obtain rfl : x * y = v := Option.some.inj hv
    rw [Expr.simplified.eq_def]
    dsimp only
    split
    · rename_i hk
      obtain hk | hk := Bool.or_eq_true_iff.mp hk
      · rw [hzero ha hk, zero_mul]
        exact means_zero
      · rw [hzero hb hk, mul_zero]
        exact means_zero
    split
    · rw [hone ha ‹_›, one_mul]
      exact hb
    split
    · rw [hone hb ‹_›, mul_one]
      exact ha
    · exact ha.binary hb rfl
  | dividedBy =>
    have hquotient : x / y = v := by
      rw [Operation.apply] at hv
      split at hv
      · cases hv
      · exact Option.some.inj hv
    rw [Expr.simplified.eq_def]
    dsimp only
    split
    · rw [← hquotient, hone hb ‹_›, div_one]
      exact ha
    split
    · rw [← hquotient, hzero ha ‹_›, zero_div]
      exact means_zero
    · exact ha.binary hb hv

/-! ## Constants -/

section

variable [rounding : Rounding] (grid : rounding.IsGrid)
include grid

/-- **What is built from two operands means the operation**, if constants are folded exactly. -/
theorem Means.combine {operation : Operation} (ha : a.Means I x) (hb : b.Means I y)
    (hv : operation.apply x y = some v)
    (hexact : ∀ m n, a = num m → b = num n → operation.IsExactOn m n) :
    ∃ e, Expr.combine operation a b = .ok e ∧ e.Means I v := by
  by_cases hopen : a.IsOpen ∨ b.IsOpen
  · exact ⟨_, combine_of_isOpen hopen, ha.simplified hb hv⟩
  · obtain ⟨⟨m, rfl⟩, n, rfl⟩ : (∃ m, a = num m) ∧ ∃ n, b = num n := by
      simpa [IsOpen] using hopen
    obtain ⟨hmgrid, hm⟩ := ha.constant m rfl
    obtain ⟨hngrid, hn⟩ := hb.constant n rfl
    obtain ⟨r, hfolded, hr⟩ := folded_value (hexact m n rfl rfl) hm hn hv
    refine ⟨num r, ?_, means_num (Number.IsOnGrid.folded grid hmgrid hngrid hfolded) hr⟩
    rw [Expr.combine, hfolded]
    rfl

/-- The opposite is built exactly. -/
theorem Means.negated (ha : a.Means I x) : ∃ e, Expr.neg a = .ok e ∧ e.Means I (-x) := by
  have hone : (num (.whole (-1))).Means I (-1 : K) := by
    simpa using means_whole (K := K) (-1)
  refine hone.combine grid ha (congrArg some (neg_one_mul x)) ?_
  rintro m n ⟨⟩ rfl
  exact Operation.isExactOn_neg grid (ha.constant n rfl).1

end

/-! ## Calls -/

theorem condensed_argsText (e : Expr) (es : List Expr) : condensed (argsText (e :: es)) =
    condensed e.text ++ es.flatMap fun e ↦ ',' :: condensed e.text := by
  induction es generalizing e with
  | nil => rw [argsText, List.flatMap_nil, List.append_nil]
  | cons e' es ih =>
    rw [argsText, condensed_append, condensed_cons (by decide), ih, List.flatMap_cons,
      List.cons_append]
    exact List.cons_ne_nil e' es

/-- What follows an argument of a call is read as the other arguments. -/
theorem reads_args {es : List Expr} {vs : List K} (h : List.Forall₂ (Means I) es vs)
    (function : String) : ∃ args, Formula.values I args = some vs ∧ ∀ before,
      Derives (.args function before) (es.flatMap (fun e ↦ ',' :: condensed e.text) ++ [')'])
        (.call function (before ++ args)) := by
  induction h with
  | nil =>
    refine ⟨[], by rw [Formula.values], fun before ↦ ?_⟩
    rw [List.flatMap_nil, List.append_nil]
    exact .close
  | @cons e v es vs he _ ih =>
    obtain ⟨a, ha, hvalue⟩ := he.reading
    obtain ⟨args, hvalues, hargs⟩ := ih
    refine ⟨a :: args, by rw [Formula.values, hvalue, hvalues]; rfl, fun before ↦ ?_⟩
    have hrest := hargs (before ++ [a])
    rw [List.append_assoc] at hrest
    rw [List.flatMap_cons, List.cons_append, List.cons_append, List.append_assoc]
    exact .arg (ha.weaken le_rfl (by omega) (by have := e.precedence_le; omega)) hrest

theorem means_call {function : String} (hf : IsIdentifier function) {args : List Expr}
    {vs : List K} (h : List.Forall₂ (Means I) args vs) :
    (call function args).Means I (I.function function vs) := by
  suffices ∃ as, Derives (.after function) ('(' :: condensed (argsText args) ++ [')'])
      (.call function as) ∧ Formula.values I as = some vs by
    obtain ⟨as, has, hvalues⟩ := this
    refine .of_isOpen (isOpen_call _ _) (a := .call function as) ?_ (by
      rw [Formula.value, hvalues]
      rfl)
    rw [text, condensed_append, condensed_append, condensed_cons (by decide),
      condensed_identifier hf, condensed_eq_self (s := [')']) (by decide), List.append_assoc]
    exact .unsigned (.word hf has)
  cases h with
  | nil => exact ⟨[], .bare, by rw [Formula.values]⟩
  | @cons e v es vs he hes =>
    obtain ⟨a, ha, hvalue⟩ := he.reading
    obtain ⟨as, hvalues, has⟩ := reads_args hes function
    refine ⟨a :: as, ?_, by rw [Formula.values, hvalue, hvalues]; rfl⟩
    rw [condensed_argsText, List.cons_append, List.append_assoc]
    exact .call (ha.weaken le_rfl (by omega) (by have := e.precedence_le; omega)) (has [a])

end Expr

namespace Formula

/-! ## Building -/

section

variable [rounding : Rounding]

mutual

/-- The expression that is built from operands. -/
def build : Formula → Except Error Expr
  | .num n => .ok (.num n)
  | .var name => .ok (.var name)
  | .given text _ => .ok (.raw text)
  | .call function args => do return .call function (← buildAll args)
  | .binary operation a b => do Expr.combine operation (← build a) (← build b)
  | .neg a => do Expr.neg (← build a)

/-- The expressions that are built as the arguments of a call. -/
def buildAll : List Formula → Except Error (List Expr)
  | [] => .ok []
  | arg :: rest => do return (← build arg) :: (← buildAll rest)

end

mutual

/-- Operands that can be put together: names are names, the text of a caller says what it is said to
mean, quantities are on the grid, and no two constants are combined but exactly. -/
def IsSound : Formula → Prop
  | .num n => n.IsOnGrid
  | .var name => IsIdentifier name
  | .given text meaning => Reads text meaning
  | .call function args => IsIdentifier function ∧ AreSound args
  | .binary operation a b => IsSound a ∧ IsSound b ∧
      ∀ m n, build a = .ok (.num m) → build b = .ok (.num n) → operation.IsExactOn m n
  | .neg a => IsSound a

/-- Operands that can be put together as the arguments of a call. -/
def AreSound : List Formula → Prop
  | [] => True
  | arg :: rest => IsSound arg ∧ AreSound rest

end

mutual

/-- **What is built means what it is built from.** -/
theorem build_means (grid : rounding.IsGrid) : ∀ {a : Formula} {v : K}, a.IsSound → a.value I = some v →
    ∃ e, a.build = .ok e ∧ e.Means I v
  | .num n, v, ha, hv => by
    rw [IsSound] at ha
    rw [value] at hv
    exact ⟨_, rfl, Expr.means_num ha hv⟩
  | .var name, v, ha, hv => by
    rw [IsSound] at ha
    rw [value] at hv
    cases hv
    exact ⟨_, rfl, Expr.means_var ha⟩
  | .given text meaning, v, ha, hv => by
    rw [IsSound] at ha
    rw [value] at hv
    exact ⟨_, rfl, Expr.means_raw ha hv⟩
  | .call function args, v, ha, hv => by
    rw [IsSound] at ha
    rw [value] at hv
    obtain ⟨vs, hvs, rfl⟩ := Option.map_eq_some_iff.mp hv
    obtain ⟨es, hes, hmeans⟩ := buildAll_means grid ha.2 hvs
    refine ⟨.call function es, ?_, Expr.means_call ha.1 hmeans⟩
    rw [build, hes]
    rfl
  | .binary operation a b, v, ha, hv => by
    rw [IsSound] at ha
    obtain ⟨x, y, hx, hy, happly⟩ := value_binary_eq_some.mp hv
    obtain ⟨e, he, hex⟩ := build_means grid ha.1 hx
    obtain ⟨f, hf, hfy⟩ := build_means grid ha.2.1 hy
    obtain ⟨g, hg, hgv⟩ := hex.combine grid hfy happly fun m n hm hn ↦
      ha.2.2 m n (by rw [he, hm]) (by rw [hf, hn])
    refine ⟨g, ?_, hgv⟩
    rw [build, he, hf]
    exact hg
  | .neg a, v, ha, hv => by
    rw [IsSound] at ha
    rw [value] at hv
    obtain ⟨x, hx, rfl⟩ := Option.map_eq_some_iff.mp hv
    obtain ⟨e, he, hex⟩ := build_means grid ha hx
    obtain ⟨g, hg, hgv⟩ := hex.negated grid
    refine ⟨g, ?_, hgv⟩
    rw [build, he]
    exact hg

theorem buildAll_means (grid : rounding.IsGrid) : ∀ {args : List Formula} {vs : List K}, AreSound args →
    values I args = some vs → ∃ es, buildAll args = .ok es ∧ List.Forall₂ (Expr.Means I) es vs
  | [], vs, _, hvs => by
    rw [values] at hvs
    cases hvs
    exact ⟨[], by rw [buildAll], .nil⟩
  | arg :: rest, vs, h, hvs => by
    rw [AreSound] at h
    rw [values] at hvs
    obtain ⟨x, hx, hvs⟩ := Option.bind_eq_some_iff.mp hvs
    obtain ⟨xs, hxs, rfl⟩ := Option.map_eq_some_iff.mp hvs
    obtain ⟨e, he, hex⟩ := build_means grid h.1 hx
    obtain ⟨es, hes, hmeans⟩ := buildAll_means grid h.2 hxs
    exact ⟨e :: es, by rw [buildAll, he, hes]; rfl, .cons hex hmeans⟩

end

end

/-- **Building and writing an expression keeps its meaning.**  Operands that can be put together
are built into an expression.  Its text is read, by the usual grammar, as exactly one formula, and
in every field, whatever names and functions stand for, that formula has the value of the operands,
unless something is divided by zero in them. -/
theorem built_text_value {a : Formula} (ha : @IsSound .binary64 a) (I : Interpretation K) {v : K}
    (hv : a.value I = some v) :
    ∃ e, @build .binary64 a = .ok e ∧ (e.isWritable = true → e.write = .ok e.render) ∧
      ∃ b, Reads e.render b ∧ (∀ c, Reads e.render c → c = b) ∧ b.value I = some v := by
  obtain ⟨e, he, hmeans⟩ := @build_means K _ _ I .binary64 binary64_isGrid a v ha hv
  obtain ⟨b, hb, hvalue⟩ := hmeans.reading
  have hread : Reads e.render b := by
    rw [Reads, Expr.render, String.toList_ofList]
    exact hb.weaken le_rfl (by omega) (by have := e.precedence_le; omega)
  refine ⟨e, he, fun hwritable ↦ by rw [Expr.write, if_pos hwritable], b, hread, fun c hc ↦ ?_,
    hvalue⟩
  have hends : (Part.operand 1).Follows [] := by rintro _ ⟨⟩
  exact (Derives.unique hc hread hends hends rfl).2

/-- A name and a text of a caller, with constants that are folded, added and subtracted:
`x+((w - t)-2*-0.25)` is written `x+(w - t)+0.5`. -/
theorem built_text_value_slide :
    let a : Formula := .binary .plus (.var "x") (.binary .minus
      (.given "w - t" (.binary .minus (.var "w") (.var "t")))
      (.binary .times (.num 2) (.num (.real (.finite (-1 / 4))))))
    let I : Interpretation Rat := ⟨fun name ↦ if name = "x" then 3 else 5, fun _ _ ↦ 0⟩
    @IsSound .binary64 a ∧ a.value I = some (7 / 2) ∧
      ∃ e, @build .binary64 a = .ok e ∧ (e.isWritable = true → e.write = .ok e.render) ∧
        ∃ b, Reads e.render b ∧ (∀ c, Reads e.render c → c = b) ∧ b.value I = some (7 / 2) := by
  intro a I
  have hname : ∀ s : String, IsIdentifier s → Derives (.operand 2) s.toList (.var s) :=
    fun s hs ↦ by
      have h : Derives (.operand 4) (s.toList ++ []) (.var s) := .word hs .name
      rw [List.append_nil] at h
      exact h.weaken (by decide) (by decide) le_rfl
  have hraw : Reads "w - t" (.binary .minus (.var "w") (.var "t")) :=
    ((hname "w" (by decide)).alone (.inl rfl)).operation (show Operation.minus.precedence = 1 from rfl)
      (hname "t" (by decide))
  have hsound : @IsSound .binary64 a := by
    simp only [a, IsSound, build]
    refine ⟨by decide, ⟨hraw, ⟨by rw [Number.IsOnGrid.eq_def]; trivial, ?_, ?_⟩, by rintro m n ⟨⟩⟩,
      by rintro m n ⟨⟩⟩
    · rintro q ⟨⟩
      decide +kernel
    · rintro m n ⟨⟩ ⟨⟩ x y z ⟨⟩ ⟨⟩ ⟨⟩
      let _ : Rounding := .binary64
      have htwo := binary64_isGrid.toQuantity_natCast (n := 2) (by omega)
      have hmul : (Quantity.finite 2).mul (.finite (-1 / 4)) = .finite (-1 / 2) := by
        decide +kernel
      refine ⟨.real (.finite (-1 / 2)), ?_, by decide +kernel⟩
      rw [← hmul]
      exact congrArg some (Number.combine_of_toQuantity htwo _)
  have hvalue : a.value I = some (7 / 2) := by
    decide +kernel
  exact ⟨hsound, hvalue, built_text_value hsound I hvalue⟩

end Formula
end Montage
