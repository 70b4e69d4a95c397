import Mathlib.Algebra.BigOperators.Group.List.Basic
import Mathlib.Algebra.Order.Archimedean.Basic
import Mathlib.Data.Rat.Floor
import Mathlib.Logic.Function.Iterate
import Mathlib.Tactic.Ring
import Montage.Command.Sound
import Montage.Proofs.Layer.Valid
import Montage.Proofs.Number.Monotone
import Montage.Proofs.Number.Shortest

/-!
# The steps of a tempo

A tempo beyond the range of its filter is halved or doubled until it is in the range.  A rounding
that is binary leaves both as they are, so that nothing is lost on the way: the steps that were taken
and what is left multiply to the tempo, and each of them is in the range, also what is left after it
was rounded to six places.

A finite tempo gets into the range after finitely many steps, however large or small it is.  An
infinite one stays infinite.  A layer takes it all the same, as any tempo above zero, and the steps
of such a layer never come to an end (`tempoChain_iff`).
-/

set_option autoImplicit false

namespace Montage
namespace Command

/-! ## Loops -/

namespace Loop

variable {α : Type} {loop : Loop α} {x : α}

theorem run_of_eq_false (h : loop.goesOn x = false) (count : Nat) :
    loop.run count x = some (count, x) := by
  rw [run, h]
  rfl

theorem run_of_eq_true (h : loop.goesOn x = true) (count : Nat) :
    loop.run count x = loop.run (count + 1) (loop.next x) := by
  rw [run, if_pos h]

/-- **A loop comes to an end just if some number of rounds leads to where it does not go on.** -/
theorem exists_run_iff {count : Nat} :
    (∃ found, loop.run count x = some found) ↔ ∃ n, loop.goesOn (loop.next^[n] x) = false := by
  constructor
  · rintro ⟨found, h⟩
    refine run.partial_correctness loop
      (fun _ x _ ↦ ∃ n, loop.goesOn (loop.next^[n] x) = false) ?_ count x found h
    intro go ih count x found h
    split at h
    · obtain ⟨n, hn⟩ := ih (count + 1) (loop.next x) found h
      exact ⟨n + 1, hn⟩
    · rename_i hends
      exact ⟨0, Bool.eq_false_of_not_eq_true hends⟩
  · rintro ⟨n, hn⟩
    induction n generalizing x count with
    | zero => exact ⟨_, run_of_eq_false hn count⟩
    | succ n ih =>
      cases h : loop.goesOn x with
      | false => exact ⟨_, run_of_eq_false h count⟩
      | true =>
        rw [run_of_eq_true h]
        exact ih hn

end Loop

/-! ## Halving and doubling -/

section Steps

variable [Rounding] {isBeyond : Quantity → Bool} {step : Rat} {P : Rat → Prop}

theorem exists_run_of_eq_false {q : Rat} (hq : P q) (h : isBeyond (.finite q) = false)
    (count : Nat) : ∃ m, (stepLoop isBeyond (.finite step)).run count (.finite q)
        = some (count + m, .finite (q / step ^ m)) ∧
      P (q / step ^ m) ∧ isBeyond (.finite (q / step ^ m)) = false := by
  refine ⟨0, ?_⟩
  rw [Loop.run_of_eq_false h, pow_zero, div_one]
  exact ⟨rfl, hq, h⟩

variable (exact : ∀ q, P q → isBeyond (.finite q) = true →
  (Quantity.finite q).div (.finite step) = .finite (q / step) ∧ P (q / step))

include exact

/-- Exact divisions that would lead into the range after `n` of them do so after some number of
them, and keep what each division keeps. -/
theorem exists_run {n : Nat} {q : Rat} (hq : P q)
    (hn : isBeyond (.finite (q / step ^ n)) = false) (count : Nat) :
    ∃ m, (stepLoop isBeyond (.finite step)).run count (.finite q)
        = some (count + m, .finite (q / step ^ m)) ∧
      P (q / step ^ m) ∧ isBeyond (.finite (q / step ^ m)) = false := by
  induction n generalizing q count with
  | zero =>
    rw [pow_zero, div_one] at hn
    exact exists_run_of_eq_false hq hn count
  | succ n ih =>
    cases hbeyond : isBeyond (.finite q) with
    | false => exact exists_run_of_eq_false hq hbeyond count
    | true =>
      obtain ⟨hdiv, hkept⟩ := exact q hq hbeyond
      have hnext : (stepLoop isBeyond (.finite step)).next (.finite q) = .finite (q / step) := hdiv
      have hpow (k : Nat) : q / step ^ (k + 1) = q / step / step ^ k := by
        rw [pow_succ', div_div]
      obtain ⟨m, hm, hend⟩ := ih hkept (by rwa [← hpow]) (count + 1)
      refine ⟨m + 1, ?_, ?_⟩
      · rw [Loop.run_of_eq_true hbeyond, hnext, hm, hpow, Nat.add_right_comm]
        rfl
      · rwa [hpow]

theorem exists_takeSteps {n : Nat} {q : Rat} (hq : P q)
    (hn : isBeyond (.finite (q / step ^ n)) = false) :
    ∃ m, takeSteps isBeyond (.finite step) (.finite q) = some (m, .finite (q / step ^ m)) ∧
      P (q / step ^ m) ∧ isBeyond (.finite (q / step ^ m)) = false := by
  obtain ⟨m, hm, hend⟩ := exists_run exact hq hn 0
  rw [Nat.zero_add] at hm
  exact ⟨m, hm, hend⟩

end Steps

theorem isFast_finite {q : Rat} : isFast (.finite q) = true ↔ 2 < q := decide_eq_true_iff

theorem isSlow_finite {q : Rat} : isSlow (.finite q) = true ↔ q < 1 / 2 := decide_eq_true_iff

section Binary

variable [rounding : Rounding]

/-- What a division by a whole step amounts to where the quotient is left as it is. -/
theorem div_finite {q step : Rat} (hq : 0 < q)
    (hfixed : rounding.round (q / step) = .finite (q / step)) :
    (Quantity.finite q).div (.finite step) = .finite (q / step) :=
  (Quantity.finite_div hq.ne' step).trans hfixed

variable (binary : rounding.IsBinary)
include binary

/-- **A tempo is halved** until it is at most two, and not at all if it is. -/
theorem exists_halved {q : Rat} (hfixed : rounding.round q = .finite q) (hq : 0 < q) :
    ∃ n, takeSteps isFast (.finite 2) (.finite q) = some (n, .finite (q / 2 ^ n)) ∧
      (rounding.round (q / 2 ^ n) = .finite (q / 2 ^ n) ∧ 0 < q / 2 ^ n ∧
        (2 < q → 1 < q / 2 ^ n) ∧ (q ≤ 2 → q / 2 ^ n = q)) ∧ q / 2 ^ n ≤ 2 := by
  have exact (r : Rat) (h : rounding.round r = .finite r ∧ 0 < r ∧ (2 < q → 1 < r) ∧ (q ≤ 2 → r = q))
      (hfast : isFast (.finite r) = true) :
      (Quantity.finite r).div (.finite 2) = .finite (r / 2) ∧
        rounding.round (r / 2) = .finite (r / 2) ∧ 0 < r / 2 ∧ (2 < q → 1 < r / 2) ∧
          (q ≤ 2 → r / 2 = q) := by
    have htwo := isFast_finite.mp hfast
    have hhalf := binary.half r (by linarith) h.1
    refine ⟨div_finite h.2.1 hhalf, hhalf, half_pos h.2.1, fun _ ↦ by linarith, fun hle ↦ ?_⟩
    linarith [h.2.2.2 hle]
  obtain ⟨n, hn⟩ := pow_unbounded_of_one_lt q one_lt_two
  have hends : isFast (.finite (q / 2 ^ n)) = false := by
    rw [← Bool.not_eq_true, isFast_finite, not_lt, div_le_iff₀ (by positivity)]
    linarith
  obtain ⟨m, hm, hkept, hend⟩ :=
    exists_takeSteps exact ⟨hfixed, hq, fun h ↦ by linarith, fun _ ↦ rfl⟩ hends
  rw [← Bool.not_eq_true, isFast_finite, not_lt] at hend
  exact ⟨m, hm, hkept, hend⟩

/-- **A tempo is doubled** until it is at least a half, and not at all if it is. -/
theorem exists_doubled {q : Rat} (hfixed : rounding.round q = .finite q) (hq : 0 < q)
    (hhigh : q ≤ 2) :
    ∃ n, takeSteps isSlow (.finite (1 / 2)) (.finite q)
        = some (n, .finite (q / (1 / 2) ^ n)) ∧
      ((1 / 2 ≤ q / (1 / 2) ^ n ∧ q / (1 / 2) ^ n ≤ 2) ∧ (q < 1 / 2 → q / (1 / 2) ^ n < 1) ∧
        (1 / 2 ≤ q → q / (1 / 2) ^ n = q)) := by
  have exact (r : Rat) (h : rounding.round r = .finite r ∧ 0 < r ∧ r ≤ 2 ∧ (q < 1 / 2 → r < 1) ∧
        (1 / 2 ≤ q → r = q)) (hslow : isSlow (.finite r) = true) :
      (Quantity.finite r).div (.finite (1 / 2)) = .finite (r / (1 / 2)) ∧
        rounding.round (r / (1 / 2)) = .finite (r / (1 / 2)) ∧ 0 < r / (1 / 2) ∧ r / (1 / 2) ≤ 2 ∧
          (q < 1 / 2 → r / (1 / 2) < 1) ∧ (1 / 2 ≤ q → r / (1 / 2) = q) := by
    obtain ⟨hrfixed, hr, -, -, hsame⟩ := h
    have hhalf := isSlow_finite.mp hslow
    have htwice : r / (1 / 2) = 2 * r := by ring
    have hdouble := binary.double r hr (by linarith) hrfixed
    rw [← htwice] at hdouble
    refine ⟨div_finite hr hdouble, hdouble, by positivity, by linarith, fun _ ↦ by linarith,
      fun hle ↦ ?_⟩
    linarith [hsame hle]
  obtain ⟨n, hn⟩ := pow_unbounded_of_one_lt (1 / 2 / q) one_lt_two
  have hends : isSlow (.finite (q / (1 / 2) ^ n)) = false := by
    rw [← Bool.not_eq_true, isSlow_finite, not_lt, one_div, inv_pow, div_inv_eq_mul, ← one_div]
    rw [div_lt_iff₀ hq] at hn
    linarith
  obtain ⟨m, hm, ⟨-, -, hle, hslow, hsame⟩, hend⟩ :=
    exists_takeSteps exact ⟨hfixed, hq, hhigh, fun h ↦ by linarith, fun _ ↦ rfl⟩ hends
  rw [← Bool.not_eq_true, isSlow_finite, not_lt] at hend
  exact ⟨m, hm, ⟨hend, hle⟩, hslow, hsame⟩

end Binary

/-! ## The steps of a tempo -/

/-- A tempo that the filter takes. -/
structure IsTempoStep (step : Quantity) : Prop where
  low : Quantity.le (.finite (1 / 2)) step = true
  high : step.le (.finite 2) = true

instance (step : Quantity) : Decidable (IsTempoStep step) :=
  decidable_of_iff (Quantity.le (.finite (1 / 2)) step = true ∧ step.le (.finite 2) = true)
    ⟨fun ⟨hlow, hhigh⟩ ↦ ⟨hlow, hhigh⟩, fun ⟨hlow, hhigh⟩ ↦ ⟨hlow, hhigh⟩⟩

theorem isTempoStep_finite {q : Rat} : IsTempoStep (.finite q) ↔ 1 / 2 ≤ q ∧ q ≤ 2 := by
  constructor
  · rintro ⟨hlow, hhigh⟩
    exact ⟨(Quantity.le_iff_value? rfl rfl).mp hlow, (Quantity.le_iff_value? rfl rfl).mp hhigh⟩
  · rintro ⟨hlow, hhigh⟩
    exact ⟨(Quantity.le_iff_value? rfl rfl).mpr hlow, (Quantity.le_iff_value? rfl rfl).mpr hhigh⟩

theorem IsTempoStep.eq_finite {step : Quantity} (h : IsTempoStep step) :
    step = .finite step.value := by
  have hpos : Quantity.lt (.finite 0) step = true :=
    Quantity.lt_of_lt_of_le ((Quantity.lt_iff_value? rfl rfl).mpr (by norm_num)) h.low
  obtain ⟨q, -, rfl⟩ | rfl := Quantity.lt_zero_iff.mp hpos
  · rfl
  · cases h.high

/-- An infinite tempo stays infinite however often it is halved. -/
theorem tempoParts_infinite [Rounding] : tempoParts (.infinite false) = none := by
  have hnone : takeSteps isFast (.finite 2) (.infinite false) = none := by
    rw [Option.eq_none_iff_forall_not_mem]
    intro found hfound
    obtain ⟨n, hn⟩ := Loop.exists_run_iff.mp ⟨found, hfound⟩
    rw [Function.iterate_fixed rfl] at hn
    cases hn
  rw [tempoParts]
  dsimp only
  rw [hnone]
  rfl

section Binary

variable [rounding : Rounding] (binary : rounding.IsBinary)
include binary

/-- **Rounding to six places stays in the range**: both ends have fewer places than that, and so has
the middle. -/
theorem exists_roundPlaces {q : Rat} (hlow : 1 / 2 ≤ q) (hhigh : q ≤ 2) :
    ∃ x, (Quantity.finite q).roundPlaces 6 = .finite x ∧ (1 / 2 ≤ x ∧ x ≤ 2) ∧
      (1 ≤ q → 1 ≤ x) ∧ (q ≤ 1 → x ≤ 1) := by
  have hq : 0 < q := by linarith
  have hhalf := le_nearestPlace (n := 500000) 6 (by norm_num) hlow hq.le
  have htwo := nearestPlace_le (n := 2000000) 6 (by norm_num) hhigh hq.le
  have hone := fun h : 1 ≤ q ↦ le_nearestPlace (n := 1000000) 6 (by norm_num) h hq.le
  have hone' := fun h : q ≤ 1 ↦ nearestPlace_le (n := 1000000) 6 (by norm_num) h hq.le
  have hround : (Quantity.finite q).roundPlaces 6 = rounding.round (nearestPlace q (6 : Nat)) := by
    have hpos : 0 < nearestPlace q (6 : Nat) := one_half_pos.trans_le hhalf
    rw [Quantity.roundPlaces]
    exact if_neg hpos.ne'
  generalize nearestPlace q (6 : Nat) = p at hhalf htwo hone hone' hround
  rw [hround]
  -- the ends and the middle are left as they are, so that what lies between them stays there
  have hfixedTwo : rounding.round 2 = .finite 2 := by
    simpa using binary.double 1 one_pos le_rfl binary.one
  have hbelow := binary.le p 2 (by linarith) htwo
  have habove := binary.le (1 / 2) p (by norm_num) hhalf
  rw [hfixedTwo] at hbelow
  rw [binary.half 1 le_rfl binary.one] at habove
  obtain ⟨x, hx, hxtwo, hvalue⟩ :=
    Quantity.exists_finite_of_le
      (Quantity.le_trans ((Quantity.le_iff_value? rfl rfl).mpr (by norm_num)) habove) hbelow
  have hxhalf := (Quantity.le_iff_value? rfl hvalue).mp habove
  have heq : rounding.round p = .finite x := by
    obtain ⟨y, -, hy⟩ | hy := binary.nonnegative p (by linarith)
    · rw [hy] at hvalue ⊢
      rw [Option.some.inj hvalue]
    · rw [hy] at hvalue
      cases hvalue
  refine ⟨x, heq, ⟨hxhalf, hxtwo⟩, fun h ↦ ?_, fun h ↦ ?_⟩
  · have hle := binary.le 1 p one_pos.le (hone h)
    rw [binary.one, heq] at hle
    exact (Quantity.le_iff_value? rfl rfl).mp hle
  · have hle := binary.le p 1 (by linarith) (hone' h)
    rw [binary.one, heq] at hle
    exact (Quantity.le_iff_value? rfl rfl).mp hle

theorem isTempoStep_roundPlaces {q : Rat} (hlow : 1 / 2 ≤ q) (hhigh : q ≤ 2) :
    IsTempoStep ((Quantity.finite q).roundPlaces 6) := by
  obtain ⟨x, hx, hrange, -⟩ := exists_roundPlaces binary hlow hhigh
  rwa [hx, isTempoStep_finite]

/-- **A finite tempo has finitely many steps**, which are in the range and multiply to it.  The last
one is the whole tempo if that is in the range, and else on the side of one that the tempo is on. -/
theorem exists_tempoParts {q : Rat} (hfixed : rounding.round q = .finite q) (hq : 0 < q) :
    ∃ whole last, tempoParts (.finite q) = some (whole, .finite last) ∧
      (∀ step ∈ whole, IsTempoStep step) ∧ (1 / 2 ≤ last ∧ last ≤ 2) ∧
        (whole.map Quantity.value).prod * last = q ∧
          (2 < q → 1 ≤ last) ∧ (q < 1 / 2 → last ≤ 1) ∧ (1 / 2 ≤ q → q ≤ 2 → last = q) := by
  obtain ⟨twos, htwos, ⟨hleft, hpos, hfast, hsame⟩, hhigh⟩ := exists_halved binary hfixed hq
  obtain ⟨halves, hhalves, hrange, hslow, hsame'⟩ := exists_doubled binary hleft hpos hhigh
  refine ⟨List.replicate twos (.finite 2) ++ List.replicate halves (.finite (1 / 2)), _, ?_, ?_,
    hrange, ?_, ?_, ?_, ?_⟩
  · rw [tempoParts]
    dsimp only
    rw [htwos]
    exact congrArg (Option.bind · _) hhalves
  · intro step hstep
    obtain hstep | hstep := List.mem_append.mp hstep
    · rw [List.eq_of_mem_replicate hstep, isTempoStep_finite]
      norm_num
    · rw [List.eq_of_mem_replicate hstep, isTempoStep_finite]
      norm_num
  · have htwo : (Quantity.finite 2).value = 2 := rfl
    have hhalf : (Quantity.finite (1 / 2)).value = 1 / 2 := rfl
    rw [List.map_append, List.map_replicate, List.map_replicate, List.prod_append,
      List.prod_replicate, List.prod_replicate, htwo, hhalf]
    field_simp
  · intro hgt
    have hone := hfast hgt
    rw [hsame' (by linarith)]
    exact hone.le
  · intro hlt
    rw [hsame (by linarith)] at hslow ⊢
    exact (hslow hlt).le
  · intro hge hle
    rw [hsame hle] at hsame' ⊢
    exact hsame' hge

end Binary

attribute [local instance] Rounding.binary64

/-- **The steps of a tempo come to an end just if it is finite**, and then each of them is in the
range of the filter.  The whole steps and what they leave multiply to the tempo; what they leave is
the last step, but that this one is rounded to six places. -/
theorem tempoChain_iff {audio : Audio} (valid : audio.IsValid) {tempo : Quantity}
    (htempo : tempo ∈ audio.tempo) (hgrid : tempo.IsOnGrid) :
    ((∃ steps, tempoChain tempo = some steps) ↔ tempo.isFinite = true) ∧
      ∀ steps, tempoChain tempo = some steps →
        (∀ step ∈ steps, IsTempoStep step) ∧
          ∃ whole last, tempoParts tempo = some (whole, last) ∧
            steps = whole ++ [last.roundPlaces 6] ∧
              ((whole ++ [last]).map Quantity.value).prod = tempo.value := by
  obtain ⟨q, hq, rfl⟩ | rfl := Quantity.lt_zero_iff.mp (valid.tempo tempo htempo)
  · obtain ⟨whole, last, hparts, hwhole, hlast, hproduct, -⟩ :=
      exists_tempoParts binary64_isBinary (hgrid q rfl) hq
    have hchain :
        tempoChain (.finite q) = some (whole ++ [(Quantity.finite last).roundPlaces 6]) := by
      rw [tempoChain, hparts]
      rfl
    refine ⟨iff_of_true ⟨_, hchain⟩ rfl, fun steps hsteps ↦ ?_⟩
    obtain rfl := Option.some.inj (hchain.symm.trans hsteps)
    refine ⟨fun step hstep ↦ ?_, whole, .finite last, hparts, rfl, ?_⟩
    · obtain hstep | hstep := List.mem_append.mp hstep
      · exact hwhole step hstep
      · rw [List.mem_singleton.mp hstep]
        exact isTempoStep_roundPlaces binary64_isBinary hlast.1 hlast.2
    · rw [List.map_append, List.prod_append, List.map_singleton, List.prod_singleton]
      exact hproduct
  · have hchain : tempoChain (.infinite false) = none := by
      rw [tempoChain, tempoParts_infinite]
      rfl
    rw [hchain]
    exact ⟨iff_of_false (by rintro ⟨_, ⟨⟩⟩) (by rintro ⟨⟩), by rintro _ ⟨⟩⟩

/-- A tune at some tempo. -/
def hastened (tempo : Quantity) : Audio := { source := { path := "tune.mp3" }, tempo := some tempo }

theorem hastened_isValid (tempo : Quantity) (h : Style.isPositive tempo = true) :
    (hastened tempo).IsValid where
  source := by
    refine ⟨?_, by rintro _ ⟨⟩, by rintro _ ⟨⟩⟩
    show isAllBlank "tune.mp3" = false
    decide
  volume := by
    show Style.isNonnegative (.finite 1) = true
    decide
  fadeIn := by rintro _ ⟨⟩
  fadeOut := by rintro _ ⟨⟩
  tempo := by
    rintro _ ⟨⟩
    exact h
  lowpass := by rintro _ ⟨⟩
  highpass := by rintro _ ⟨⟩
  echoDelay := by rintro _ ⟨⟩
  echoDecay := by rintro _ ⟨⟩

/-- A tune at five times its tempo takes some steps.  At an infinite tempo it is as valid, and its
steps never come to an end. -/
theorem hastened_steps : (∃ steps, tempoChain (.finite 5) = some steps ∧
      ∀ step ∈ steps, IsTempoStep step) ∧
    (hastened (.infinite false)).IsValid ∧
      ¬ ∃ steps, tempoChain (.infinite false) = some steps := by
  have hfive := tempoChain_iff (hastened_isValid (.finite 5) (by decide)) rfl
    (by decide +kernel)
  have hinfinite := hastened_isValid (.infinite false) (by decide)
  refine ⟨?_, hinfinite, ?_⟩
  · obtain ⟨steps, hsteps⟩ := hfive.1.mpr rfl
    exact ⟨steps, hsteps, (hfive.2 steps hsteps).1⟩
  · rw [(tempoChain_iff hinfinite rfl (by decide)).1]
    rintro ⟨⟩

end Command
end Montage
