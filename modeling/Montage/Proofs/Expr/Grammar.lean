import Montage.Expr.Basic
import Montage.Proofs.Filter.Plain
import Montage.Proofs.Number.Numeral

/-!
# Reading formulas

The usual grammar of arithmetic: sums and differences of products and quotients, both taken from
the left, of factors with at most one sign, which are numerals, names, calls and formulas between
parentheses.  A numeral without a point and without an exponent is a whole number, any other the
quantity nearest to its value.  Blanks do not count.

* `Formula` — what a formula says, as a tree.
* `Formula.Derives` — the grammar, as rules; `Formula.Reads` — what a text is read as.
* `Derives.unique` — the grammar is unambiguous: a text is read as at most one tree.

The rules for sums and products go from the left to the right, with the tree of what was read
before, so that a rule is known by the first character it reads.  This is what the proof that there
is one tree needs: it compares two derivations rule by rule, and what follows a part of a text never
continues it (`Part.Follows`).
-/

set_option autoImplicit false

namespace Montage

/-- What a formula says.  `given` is text of a caller's own, together with what it says. -/
inductive Formula where
  | num (value : Number)
  | var (name : String)
  | given (text : String) (meaning : Formula)
  | call (function : String) (args : List Formula)
  | binary (operation : Operation) (left right : Formula)
  | neg (operand : Formula)

namespace Formula

/-! ## Words -/

/-- The number for which a numeral stands. -/
def numeral? (s : List Char) : Option Number :=
  if s.all Char.isDigit then if s = [] then none else some (.whole (natOfDigits s))
  else (readUnsigned .latin false s).map .real

/-- A letter or an underscore. -/
def isLetterOrBar (c : Char) : Bool := c.isAlpha || c == '_'

/-- A character of which words consist: those of names and of numerals. -/
def isWordChar (c : Char) : Bool := isNameChar c || c == '.'

/-- A name: a letter or an underscore, and then letters, digits and underscores. -/
structure IsIdentifier (s : String) : Prop where
  head : ∃ c rest, s.toList = c :: rest ∧ isLetterOrBar c = true
  chars : ∀ c ∈ s.toList, isNameChar c = true

instance (s : String) : Decidable (IsIdentifier s) :=
  decidable_of_iff ((match s.toList with
      | [] => false
      | c :: _ => isLetterOrBar c) = true ∧ ∀ c ∈ s.toList, isNameChar c = true) <| by
    constructor
    · rintro ⟨hhead, hchars⟩
      refine ⟨?_, hchars⟩
      split at hhead
      · cases hhead
      · exact ⟨_, _, ‹_›, hhead⟩
    · rintro ⟨⟨c, rest, hs, hc⟩, hchars⟩
      refine ⟨?_, hchars⟩
      rw [hs]
      exact hc

/-! ## Rules -/

/-- The parts of a formula.  An operand of strength one is a sum, of strength two a product, of
strength three a factor with a sign, of strength four a factor without one; `more` is what follows
an operand that says `before` in a sum or a product; `after` is what follows a name, and `args` the
rest of a call. -/
inductive Part where
  | operand (strength : Nat)
  | more (strength : Nat) (before : Formula)
  | after (name : String)
  | args (function : String) (before : List Formula)

/-- The rules of the grammar. -/
inductive Derives : Part → List Char → Formula → Prop where
  | chain {p : Nat} {s r : List Char} {a b : Formula} (hp : p = 1 ∨ p = 2)
      (first : Derives (.operand (p + 1)) s a) (rest : Derives (.more p a) r b) :
      Derives (.operand p) (s ++ r) b
  | done {p : Nat} {a : Formula} : Derives (.more p a) [] a
  | next {p : Nat} {s r : List Char} {a b c : Formula} {operation : Operation}
      (hp : operation.precedence = p) (operand : Derives (.operand (p + 1)) s b)
      (rest : Derives (.more p (.binary operation a b)) r c) :
      Derives (.more p a) (operation.sign :: (s ++ r)) c
  | unsigned {s : List Char} {a : Formula} (operand : Derives (.operand 4) s a) :
      Derives (.operand 3) s a
  | positive {s : List Char} {a : Formula} (operand : Derives (.operand 4) s a) :
      Derives (.operand 3) ('+' :: s) a
  | negative {s : List Char} {a : Formula} (operand : Derives (.operand 4) s a) :
      Derives (.operand 3) ('-' :: s) (.neg a)
  | numeral {s : List Char} {n : Number} (h : numeral? s = some n) :
      Derives (.operand 4) s (.num n)
  | group {s : List Char} {a : Formula} (inner : Derives (.operand 1) s a) :
      Derives (.operand 4) ('(' :: (s ++ [')'])) a
  | word {f : String} {s : List Char} {a : Formula} (h : IsIdentifier f)
      (rest : Derives (.after f) s a) : Derives (.operand 4) (f.toList ++ s) a
  | name {f : String} : Derives (.after f) [] (.var f)
  | bare {f : String} : Derives (.after f) ['(', ')'] (.call f [])
  | call {f : String} {s r : List Char} {a b : Formula} (first : Derives (.operand 1) s a)
      (rest : Derives (.args f [a]) r b) : Derives (.after f) ('(' :: (s ++ r)) b
  | close {f : String} {args : List Formula} : Derives (.args f args) [')'] (.call f args)
  | arg {f : String} {args : List Formula} {s r : List Char} {a b : Formula}
      (operand : Derives (.operand 1) s a) (rest : Derives (.args f (args ++ [a])) r b) :
      Derives (.args f args) (',' :: (s ++ r)) b

/-- The text without its blanks. -/
def condensed (s : List Char) : List Char := s.filter fun c ↦ !isBlank c

/-- What a text is read as. -/
def Reads (text : String) (formula : Formula) : Prop :=
  Derives (.operand 1) (condensed text.toList) formula

/-! ## Signs and words -/

theorem isWordChar_of_name {c : Char} (h : isNameChar c = true) : isWordChar c = true := by
  rw [isWordChar, h, Bool.true_or]

theorem isWordChar_of_digit {c : Char} (h : c.isDigit = true) : isWordChar c = true :=
  isWordChar_of_name (by rw [isNameChar, Char.isAlphanum, h, Bool.or_true, Bool.true_or])

theorem isWordChar_of_letter {c : Char} (h : isLetterOrBar c = true) : isWordChar c = true := by
  rw [isLetterOrBar, Bool.or_eq_true] at h
  refine isWordChar_of_name ?_
  rw [isNameChar, Char.isAlphanum, Bool.or_eq_true, Bool.or_eq_true]
  exact h.imp_left .inl

theorem isWordChar_sign (operation : Operation) : isWordChar operation.sign = false := by
  cases operation <;> decide

theorem sign_injective {a b : Operation} (h : a.sign = b.sign) : a = b := by
  cases a <;> cases b <;> first | rfl | exact absurd h (by decide)

theorem not_isDigit_of_letter {c : Char} (h : isLetterOrBar c = true) :
    c.isDigit = false ∧ c ≠ '.' := by
  constructor
  · by_contra hdigit
    rw [Bool.not_eq_false] at hdigit
    rw [isLetterOrBar, Bool.or_eq_true, beq_iff_eq] at h
    rcases h with h | rfl
    · have hhigh : c.toNat ≤ 0x39 := (isDigit_iff.mp hdigit).2
      have := toNat_of_isAlpha h
      omega
    · exact absurd hdigit (by decide)
  · rintro rfl
    exact absurd h (by decide)

/-- A numeral opens with a digit or a point. -/
theorem numeral?_head {s : List Char} {n : Number} (h : numeral? s = some n) :
    ∃ c rest, s = c :: rest ∧ (c.isDigit = true ∨ c = '.') := by
  cases s with
  | nil => cases h
  | cons c rest =>
    refine ⟨c, rest, rfl, ?_⟩
    by_contra hno
    obtain ⟨hdigit, hpoint⟩ := not_or.mp hno
    rw [Bool.not_eq_true] at hdigit
    have hfraction : Numerals.latin.takeFraction (c :: rest) = ([], c :: rest) := by
      rw [Numerals.takeFraction.eq_def]
      split
      · rename_i heq
        exact absurd (List.cons.inj heq).1 hpoint
      · rfl
    rw [numeral?, if_neg (by simp [hdigit]), readUnsigned_eq, takeDigits_latin,
      List.takeWhile_cons_of_neg (by simp [hdigit]),
      List.dropWhile_cons_of_neg (by simp [hdigit])] at h
    dsimp only at h
    rw [hfraction] at h
    cases h

/-- What no word goes on with ends a numeral. -/
theorem numeral?_append {s : List Char} {n : Number} (h : numeral? s = some n) {c : Char}
    (hc : isWordChar c = false) (rest : List Char) : numeral? (s ++ c :: rest) = none := by
  have hdigit : c.isDigit = false := by
    by_contra hdigit
    rw [Bool.not_eq_false] at hdigit
    rw [isWordChar_of_digit hdigit] at hc
    cases hc
  have hpoint : c ≠ '.' := by
    rintro rfl
    exact absurd hc (by decide)
  have hletter : c ≠ 'e' ∧ c ≠ 'E' := by
    constructor <;> rintro rfl <;> exact absurd hc (by decide)
  obtain ⟨x, hx⟩ : ∃ x, readUnsigned .latin false s = some x := by
    rw [numeral?] at h
    split at h
    · rename_i hall
      split at h
      · cases h
      · rename_i hs
        have hdigits := takeDigits_digits isStandard_latin (List.all_eq_true.mp hall)
        exact ⟨_, readUnsigned_of_parts _ false hdigits rfl
          (.inl (by rwa [ne_eq, List.map_eq_nil_iff])) rfl⟩
    · obtain ⟨x, hx, -⟩ := Option.map_eq_some_iff.mp h
      exact ⟨x, hx⟩
  rw [numeral?, if_neg (by simp [hdigit]),
    readUnsigned_append_mark hdigit hx hpoint hletter rest]
  rfl

/-- Two runs of characters of a kind at the front of one text are equal where none goes on. -/
theorem run_unique {P : Char → Prop} {s s' r r' : List Char} (hs : ∀ c ∈ s, P c)
    (hs' : ∀ c ∈ s', P c) (hr : ∀ c ∈ r.head?, ¬ P c) (hr' : ∀ c ∈ r'.head?, ¬ P c)
    (h : s ++ r = s' ++ r') : s = s' := by
  induction s generalizing s' with
  | nil =>
    cases s' with
    | nil => rfl
    | cons c s' =>
      rw [List.nil_append] at h
      rw [h] at hr
      exact absurd (hs' c List.mem_cons_self) (hr c rfl)
  | cons c s ih =>
    cases s' with
    | nil =>
      rw [List.nil_append] at h
      rw [← h] at hr'
      exact absurd (hs c List.mem_cons_self) (hr' c rfl)
    | cons d s' =>
      rw [List.forall_mem_cons] at hs hs'
      obtain ⟨rfl, htail⟩ := List.cons.inj h
      rw [ih hs.2 hs'.2 htail]

/-! ## One tree -/

/-- What may follow a part of a text without going on with it. -/
def Part.Follows : Part → List Char → Prop
  | .operand p, r | .more p _, r => ∀ c ∈ r.head?, isWordChar c = false ∧ c ≠ '(' ∧
      ∀ operation : Operation, p ≤ operation.precedence → c ≠ operation.sign
  | .after _, r => ∀ c ∈ r.head?, isWordChar c = false ∧ c ≠ '('
  | .args _ _, _ => True

theorem Part.Follows.mono {p q : Nat} {r : List Char} (h : (Part.operand p).Follows r)
    (hpq : p ≤ q) : (Part.operand q).Follows r :=
  fun c hc ↦ ⟨(h c hc).1, (h c hc).2.1, fun operation hq ↦ (h c hc).2.2 operation (hpq.trans hq)⟩

theorem Part.Follows.after {p : Nat} {r : List Char} (h : (Part.operand p).Follows r)
    {f : String} : (Part.after f).Follows r :=
  fun c hc ↦ ⟨(h c hc).1, (h c hc).2.1⟩

theorem Part.follows_operand_cons {p : Nat} {c : Char} (hword : isWordChar c = false)
    (hgroup : c ≠ '(') (hsign : ∀ operation : Operation, p ≤ operation.precedence →
      c ≠ operation.sign) (r : List Char) : (Part.operand p).Follows (c :: r) := by
  rintro d ⟨⟩
  exact ⟨hword, hgroup, hsign⟩

theorem Part.follows_close {p : Nat} {r : List Char} : (Part.operand p).Follows (')' :: r) :=
  follows_operand_cons (by decide) (by decide) (fun operation _ ↦ by cases operation <;> decide) r

namespace Derives

variable {p : Nat} {s r : List Char} {a b : Formula}

/-- An operand opens with a character of a word, a parenthesis or, where it may have one, a sign. -/
theorem head (h : Derives (.operand p) s a) : ∃ c rest, s = c :: rest ∧
    (isWordChar c = true ∨ c = '(' ∨ p ≤ 3 ∧ (c = '+' ∨ c = '-')) := by
  generalize hπ : Part.operand p = π at h
  induction h generalizing p with
  | chain hp first rest ihFirst =>
    cases hπ
    obtain ⟨c, s, rfl, hc⟩ := ihFirst rfl
    exact ⟨c, _, rfl, hc.imp_right (.imp_right fun ⟨_, hsign⟩ ↦ ⟨by omega, hsign⟩)⟩
  | unsigned operand ih =>
    cases hπ
    obtain ⟨c, s, rfl, hc⟩ := ih rfl
    exact ⟨c, s, rfl, hc.imp_right (.imp_right fun ⟨hp, _⟩ ↦ absurd hp (by omega))⟩
  | positive =>
    cases hπ
    exact ⟨'+', _, rfl, .inr (.inr ⟨le_rfl, .inl rfl⟩)⟩
  | negative =>
    cases hπ
    exact ⟨'-', _, rfl, .inr (.inr ⟨le_rfl, .inr rfl⟩)⟩
  | numeral h =>
    obtain ⟨c, rest, rfl, hc | rfl⟩ := numeral?_head h
    · exact ⟨c, rest, rfl, .inl (isWordChar_of_digit hc)⟩
    · exact ⟨'.', rest, rfl, .inl rfl⟩
  | group => exact ⟨'(', _, rfl, .inr (.inl rfl)⟩
  | word h =>
    obtain ⟨c, rest, hs, hc⟩ := h.head
    exact ⟨c, _, by rw [hs]; rfl, .inl (isWordChar_of_letter hc)⟩
  | _ => cases hπ

theorem append_ne_close (h : Derives (.operand p) s a) (t : List Char) : s ++ r ≠ ')' :: t := by
  obtain ⟨c, rest, rfl, hc⟩ := h.head
  rintro ⟨⟩
  obtain hc | hc | ⟨-, hc | hc⟩ := hc <;> exact absurd hc (by decide)

/-- A factor without a sign does not open with one. -/
theorem append_ne_sign (h : Derives (.operand 4) s a) {c : Char} (hsign : c = '+' ∨ c = '-')
    (t : List Char) : s ++ r ≠ c :: t := by
  obtain ⟨d, rest, rfl, hd⟩ := h.head
  rintro ⟨⟩
  obtain hd | hd | ⟨hp, -⟩ := hd
  · obtain rfl | rfl := hsign <;> exact absurd hd (by decide)
  · obtain rfl | rfl := hsign <;> exact absurd hd (by decide)
  · omega

/-- What goes on with an operand does not go on with a stronger one. -/
theorem follows_more (h : Derives (.more p a) s b) (hr : (Part.operand p).Follows r) :
    (Part.operand (p + 1)).Follows (s ++ r) := by
  cases h with
  | done => exact hr.mono (Nat.le_succ p)
  | @next _ _ _ _ _ _ operation hp =>
    refine Part.follows_operand_cons (isWordChar_sign operation)
      (by cases operation <;> decide) (fun other hother hsign ↦ ?_) _
    rw [← sign_injective hsign] at hother
    omega

/-- What goes on with the arguments of a call does not go on with an argument. -/
theorem follows_args {f : String} {args : List Formula} (h : Derives (.args f args) s b) :
    (Part.operand 1).Follows (s ++ r) := by
  cases h with
  | close => exact Part.follows_close
  | arg =>
    exact Part.follows_operand_cons (by decide) (by decide)
      (fun operation _ ↦ by cases operation <;> decide) _

/-- What follows a name does not go on with it. -/
theorem head_after {f : String} (h : Derives (.after f) s a) (hr : (Part.after f).Follows r) :
    ∀ c ∈ (s ++ r).head?, isWordChar c = false := by
  cases h with
  | name => exact fun c hc ↦ (hr c hc).1
  | _ =>
    rintro c ⟨⟩
    rfl

theorem numeral_unique {s s' r r' : List Char} {m n : Number} (hs : numeral? s = some m)
    (hs' : numeral? s' = some n) (hr : (Part.operand 4).Follows r)
    (hr' : (Part.operand 4).Follows r') (h : s ++ r = s' ++ r') : s = s' := by
  obtain ⟨t, rfl, rfl⟩ | ⟨t, rfl, rfl⟩ := List.append_eq_append_iff.mp h
  · cases t with
    | nil => rw [List.append_nil]
    | cons c t =>
      rw [numeral?_append hs (hr c rfl).1] at hs'
      cases hs'
  · cases t with
    | nil => rw [List.append_nil]
    | cons c t =>
      rw [numeral?_append hs' (hr' c rfl).1] at hs
      cases hs

/-- Two names at the front of one text are equal where neither goes on. -/
theorem name_unique {f g : String} {r r' : List Char} (hf : IsIdentifier f) (hg : IsIdentifier g)
    (hr : ∀ c ∈ r.head?, isWordChar c = false) (hr' : ∀ c ∈ r'.head?, isWordChar c = false)
    (h : f.toList ++ r = g.toList ++ r') : f = g := by
  refine String.toList_inj.mp (run_unique hf.chars hg.chars (fun c hc hname ↦ ?_)
    (fun c hc hname ↦ ?_) h)
  · exact Bool.false_ne_true ((hr c hc).symm.trans (isWordChar_of_name hname))
  · exact Bool.false_ne_true ((hr' c hc).symm.trans (isWordChar_of_name hname))

/-- A numeral does not open like a name. -/
theorem numeral_ne_name {s r r' : List Char} {n : Number} {f : String} (hs : numeral? s = some n)
    (hf : IsIdentifier f) : s ++ r ≠ f.toList ++ r' := by
  obtain ⟨c, t, rfl, hc⟩ := numeral?_head hs
  obtain ⟨d, u, hd, hletter⟩ := hf.head
  rw [hd]
  intro heq
  obtain rfl := (List.cons.inj heq).1
  obtain ⟨hdigit, hpoint⟩ := not_isDigit_of_letter hletter
  rw [hdigit] at hc
  exact hc.elim Bool.false_ne_true hpoint

theorem numeral_ne_group {s r r' : List Char} {n : Number} (hs : numeral? s = some n) :
    s ++ r ≠ '(' :: r' := by
  obtain ⟨c, t, rfl, hc⟩ := numeral?_head hs
  rintro ⟨⟩
  exact hc.elim (by decide) (by decide)

theorem name_ne_group {f : String} {r r' : List Char} (hf : IsIdentifier f) :
    f.toList ++ r ≠ '(' :: r' := by
  obtain ⟨d, u, hd, hletter⟩ := hf.head
  rw [hd]
  rintro ⟨⟩
  exact absurd hletter (by decide)

/-- **The grammar is unambiguous.**  Two parts of a kind at the front of one text are the same part,
and say the same, where what follows goes on with neither. -/
theorem unique {π : Part} {s : List Char} {a : Formula} (h : Derives π s a) :
    ∀ {s' r r' : List Char} {a' : Formula}, Derives π s' a' → π.Follows r → π.Follows r' →
      s ++ r = s' ++ r' → s = s' ∧ a = a' := by
  induction h with
  | @chain p s t a b hp first rest ihFirst ihRest =>
    intro s' r r' a' h' hr hr' heq
    cases h' with
    | chain hp' first' rest' =>
      rw [List.append_assoc, List.append_assoc] at heq
      obtain ⟨rfl, rfl⟩ := ihFirst first' (rest.follows_more hr) (rest'.follows_more hr') heq
      obtain ⟨rfl, rfl⟩ := ihRest rest' hr hr' (List.append_cancel_left heq)
      exact ⟨rfl, rfl⟩
    | _ => omega
  | done =>
    intro s' r r' a' h' hr hr' heq
    cases h' with
    | done => exact ⟨rfl, rfl⟩
    | next hp operand rest =>
      rw [List.nil_append, List.cons_append] at heq
      rw [heq] at hr
      exact absurd rfl ((hr _ rfl).2.2 _ hp.ge)
  | next hp operand rest ihOperand ihRest =>
    intro s' r r' a' h' hr hr' heq
    cases h' with
    | done =>
      rw [List.nil_append, List.cons_append] at heq
      rw [← heq] at hr'
      exact absurd rfl ((hr' _ rfl).2.2 _ hp.ge)
    | next hp' operand' rest' =>
      rw [List.cons_append, List.cons_append, List.append_assoc, List.append_assoc] at heq
      obtain ⟨hsign, htail⟩ := List.cons.inj heq
      obtain rfl := sign_injective hsign
      obtain ⟨rfl, rfl⟩ := ihOperand operand' (rest.follows_more hr) (rest'.follows_more hr') htail
      obtain ⟨rfl, rfl⟩ := ihRest rest' hr hr' (List.append_cancel_left htail)
      exact ⟨rfl, rfl⟩
  | unsigned operand ih =>
    intro s' r r' a' h' hr hr' heq
    cases h' with
    | chain hp => omega
    | unsigned operand' => exact ih operand' (hr.mono (by decide)) (hr'.mono (by decide)) heq
    | positive => exact absurd heq (operand.append_ne_sign (.inl rfl) _)
    | negative => exact absurd heq (operand.append_ne_sign (.inr rfl) _)
  | positive operand ih =>
    intro s' r r' a' h' hr hr' heq
    cases h' with
    | chain hp => omega
    | unsigned operand' => exact absurd heq.symm (operand'.append_ne_sign (.inl rfl) _)
    | positive operand' =>
      obtain ⟨rfl, rfl⟩ := ih operand' (hr.mono (by decide)) (hr'.mono (by decide))
        (List.cons.inj heq).2
      exact ⟨rfl, rfl⟩
    | negative => exact absurd (List.cons.inj heq).1 (by decide)
  | negative operand ih =>
    intro s' r r' a' h' hr hr' heq
    cases h' with
    | chain hp => omega
    | unsigned operand' => exact absurd heq.symm (operand'.append_ne_sign (.inr rfl) _)
    | positive => exact absurd (List.cons.inj heq).1 (by decide)
    | negative operand' =>
      obtain ⟨rfl, rfl⟩ := ih operand' (hr.mono (by decide)) (hr'.mono (by decide))
        (List.cons.inj heq).2
      exact ⟨rfl, rfl⟩
  | numeral hn =>
    intro s' r r' a' h' hr hr' heq
    cases h' with
    | chain hp => omega
    | numeral hn' =>
      obtain rfl := numeral_unique hn hn' hr hr' heq
      rw [hn] at hn'
      cases hn'
      exact ⟨rfl, rfl⟩
    | group => exact absurd heq (numeral_ne_group hn)
    | word hf =>
      rw [List.append_assoc] at heq
      exact absurd heq (numeral_ne_name hn hf)
  | group inner ih =>
    intro s' r r' a' h' hr hr' heq
    cases h' with
    | chain hp => omega
    | numeral hn => exact absurd heq.symm (numeral_ne_group hn)
    | group inner' =>
      rw [List.cons_append, List.cons_append, List.append_assoc, List.append_assoc] at heq
      obtain ⟨rfl, rfl⟩ := ih inner' Part.follows_close Part.follows_close (List.cons.inj heq).2
      exact ⟨rfl, rfl⟩
    | word hf =>
      rw [List.append_assoc] at heq
      exact absurd heq.symm (name_ne_group hf)
  | word hf rest ih =>
    intro s' r r' a' h' hr hr' heq
    rw [List.append_assoc] at heq
    cases h' with
    | chain hp => omega
    | numeral hn => exact absurd heq.symm (numeral_ne_name hn hf)
    | group => exact absurd heq (name_ne_group hf)
    | word hf' rest' =>
      rw [List.append_assoc] at heq
      obtain rfl := name_unique hf hf' (rest.head_after hr.after) (rest'.head_after hr'.after) heq
      obtain ⟨rfl, rfl⟩ := ih rest' hr.after hr'.after (List.append_cancel_left heq)
      exact ⟨rfl, rfl⟩
  | name =>
    intro s' r r' a' h' hr hr' heq
    cases h' with
    | name => exact ⟨rfl, rfl⟩
    | _ =>
      rw [List.nil_append, List.cons_append] at heq
      rw [heq] at hr
      exact absurd rfl (hr _ rfl).2
  | bare =>
    intro s' r r' a' h' hr hr' heq
    cases h' with
    | name =>
      rw [List.nil_append, List.cons_append] at heq
      rw [← heq] at hr'
      exact absurd rfl (hr' _ rfl).2
    | bare => exact ⟨rfl, rfl⟩
    | call first' =>
      rw [List.cons_append, List.cons_append, List.cons_append, List.append_assoc] at heq
      exact absurd (List.cons.inj heq).2.symm (first'.append_ne_close _)
  | call first rest ihFirst ihRest =>
    intro s' r r' a' h' hr hr' heq
    cases h' with
    | name =>
      rw [List.nil_append, List.cons_append] at heq
      rw [← heq] at hr'
      exact absurd rfl (hr' _ rfl).2
    | bare =>
      rw [List.cons_append, List.cons_append, List.append_assoc] at heq
      exact absurd (List.cons.inj heq).2 (first.append_ne_close _)
    | call first' rest' =>
      rw [List.cons_append, List.cons_append, List.append_assoc, List.append_assoc] at heq
      have htail := (List.cons.inj heq).2
      obtain ⟨rfl, rfl⟩ := ihFirst first' rest.follows_args rest'.follows_args htail
      obtain ⟨rfl, rfl⟩ := ihRest rest' trivial trivial (List.append_cancel_left htail)
      exact ⟨rfl, rfl⟩
  | close =>
    intro s' r r' a' h' hr hr' heq
    cases h' with
    | close => exact ⟨rfl, rfl⟩
    | arg => exact absurd (List.cons.inj heq).1 (by decide)
  | arg operand rest ihOperand ihRest =>
    intro s' r r' a' h' hr hr' heq
    cases h' with
    | close => exact absurd (List.cons.inj heq).1 (by decide)
    | arg operand' rest' =>
      rw [List.cons_append, List.cons_append, List.append_assoc, List.append_assoc] at heq
      have htail := (List.cons.inj heq).2
      obtain ⟨rfl, rfl⟩ := ihOperand operand' rest.follows_args rest'.follows_args htail
      obtain ⟨rfl, rfl⟩ := ihRest rest' trivial trivial (List.append_cancel_left htail)
      exact ⟨rfl, rfl⟩

end Derives

end Formula
end Montage
