import Mathlib.Data.List.Forall2
import Montage.Report

/-!
# Calls that succeed

A call that may fail is a chain of calls that may fail.  That it succeeded says of every link that
it succeeded, and with which value; the lemmas here take such a chain apart.

Two chains whose links agree one by one agree as a whole (`Agree`): they fail with the same cause,
or succeed with values that stand in a relation.
-/

set_option autoImplicit false

namespace Montage

variable {ε α β : Type}

theorem bind_eq_ok {x : Except ε α} {next : α → Except ε β} {b : β} :
    (x >>= next) = .ok b ↔ ∃ a, x = .ok a ∧ next a = .ok b := by
  cases x with
  | error e => simp [Bind.bind, Except.bind]
  | ok a => simp [Bind.bind, Except.bind]

theorem bind_of_ok {x : Except ε α} {a : α} (h : x = .ok a) (next : α → Except ε β) :
    (x >>= next) = next a := by
  rw [h]
  rfl

theorem pure_eq_ok {a b : α} : (pure a : Except ε α) = .ok b ↔ a = b := by
  simp [Pure.pure, Except.pure]

theorem map_eq_ok {f : α → β} {x : Except ε α} {b : β} :
    x.map f = .ok b ↔ ∃ a, x = .ok a ∧ f a = b := by
  cases x <;> simp [Except.map]

theorem map_eq_error {f : α → β} {x : Except ε α} {e : ε} :
    x.map f = .error e ↔ x = .error e := by
  cases x <;> simp [Except.map]

/-- A chain of calls succeeds if its links do, one after the other. -/
theorem exists_bind_eq_ok {x : Except ε α} {next : α → Except ε β} :
    (∃ b, (x >>= next) = .ok b) ↔ ∃ a, x = .ok a ∧ ∃ b, next a = .ok b := by
  simp only [bind_eq_ok]
  exact ⟨fun ⟨b, a, ha, hb⟩ ↦ ⟨a, ha, b, hb⟩, fun ⟨a, ha, b, hb⟩ ↦ ⟨b, a, ha, hb⟩⟩

theorem exists_pure_eq_ok {a : α} : (∃ b, (pure a : Except ε α) = .ok b) ↔ True :=
  iff_of_true ⟨a, rfl⟩ trivial

theorem throw_ne_ok {e : ε} {a : α} : (throw e : Except ε α) ≠ .ok a := by
  rintro ⟨⟩

theorem toOption_eq_some {x : Except ε α} {a : α} : x.toOption = some a ↔ x = .ok a := by
  cases x <;> simp [Except.toOption]

theorem isNone_toOption {x : Except ε α} : x.toOption.isNone = true ↔ ∃ e, x = .error e := by
  cases x <;> simp [Except.toOption]

/-- Each call of a row gave one of the values, in their order. -/
theorem forall₂_of_mapM {f : α → Except ε β} {xs : List α} {ys : List β}
    (h : xs.mapM f = .ok ys) : List.Forall₂ (fun x y ↦ f x = .ok y) xs ys := by
  induction xs generalizing ys with
  | nil =>
    cases h
    exact .nil
  | cons x xs ih =>
    rw [List.mapM_cons] at h
    obtain ⟨first, hfirst, h⟩ := bind_eq_ok.mp h
    obtain ⟨rest, hrest, h⟩ := bind_eq_ok.mp h
    cases pure_eq_ok.mp h
    exact .cons hfirst (ih hrest)

/-- A row of calls succeeds just if each of them does. -/
theorem exists_mapM {f : α → Except ε β} {xs : List α} :
    (∃ ys, xs.mapM f = .ok ys) ↔ ∀ x ∈ xs, ∃ y, f x = .ok y := by
  induction xs with
  | nil => exact iff_of_true ⟨[], rfl⟩ (List.forall_mem_nil _)
  | cons x xs ih =>
    simp only [List.mapM_cons, exists_bind_eq_ok, exists_pure_eq_ok, and_true, List.forall_mem_cons,
      ← ih, exists_and_right]

/-- What stands in a row has its counterpart in a related row. -/
theorem exists_of_mem_forall₂ {r : α → β → Prop} {xs : List α} {ys : List β}
    (h : List.Forall₂ r xs ys) {x : α} (hx : x ∈ xs) : ∃ y ∈ ys, r x y := by
  induction h with
  | nil => cases hx
  | @cons _ y _ ys hfirst _ ih =>
    rcases List.mem_cons.mp hx with rfl | hx
    · exact ⟨y, List.mem_cons_self, hfirst⟩
    · obtain ⟨z, hz, hxz⟩ := ih hx
      exact ⟨z, List.mem_cons_of_mem _ hz, hxz⟩

/-- What a row of calls gave, one of the calls gave. -/
theorem exists_of_mem_mapM {f : α → Except ε β} {xs : List α} {ys : List β}
    (h : xs.mapM f = .ok ys) {y : β} (hy : y ∈ ys) : ∃ x ∈ xs, f x = .ok y :=
  exists_of_mem_forall₂ (forall₂_of_mapM h).flip hy

theorem constructing_eq_ok {subject : Construction} {catches : Error → Bool}
    {action : Except Error α} {a : α} :
    constructing subject catches action = .ok a ↔ action = .ok a := by
  cases action <;> simp [constructing]

theorem Reported.bind_eq_ok {x : Reported α} {next : α → Reported β} {b : β} :
    (x >>= next).result = .ok b ↔ ∃ a, x.result = .ok a ∧ (next a).result = .ok b := by
  obtain ⟨result, warnings⟩ := x
  cases result with
  | error e => simp [Bind.bind, Reported.bind]
  | ok a => simp [Bind.bind, Reported.bind]

theorem Reported.bind_eq_silent {x : Reported α} {next : α → Reported β} {b : β} :
    x >>= next = ⟨.ok b, []⟩ ↔ ∃ a, x = ⟨.ok a, []⟩ ∧ next a = ⟨.ok b, []⟩ := by
  constructor
  · intro h
    obtain ⟨a, ha, -⟩ := Reported.bind_eq_ok.mp (congrArg Reported.result h)
    obtain ⟨result, warnings⟩ := x
    cases ha
    have hwarnings := congrArg Reported.warnings h
    obtain ⟨rfl, hnext⟩ := List.append_eq_nil_iff.mp hwarnings
    exact ⟨a, rfl, h⟩
  · rintro ⟨a, rfl, hnext⟩
    exact hnext

theorem Reported.result_bind (x : Reported α) (next : α → Reported β) :
    (x >>= next).result = x.result >>= fun a ↦ (next a).result := by
  obtain ⟨result, warnings⟩ := x
  cases result <;> rfl

theorem Reported.warnings_bind {x : Reported α} {a : α} (h : x.result = .ok a)
    (next : α → Reported β) : (x >>= next).warnings = x.warnings ++ (next a).warnings := by
  obtain ⟨result, warnings⟩ := x
  cases h
  rfl

theorem Reported.map_ok {x : Reported α} {a : α} (h : x.result = .ok a) (f : α → β) :
    f <$> x = ⟨.ok (f a), x.warnings⟩ := by
  obtain ⟨result, warnings⟩ := x
  cases h
  exact congrArg (Reported.mk _) (List.append_nil warnings)

theorem Reported.map_error {x : Reported α} {e : Error} (h : x.result = .error e) (f : α → β) :
    f <$> x = ⟨.error e, x.warnings⟩ := by
  obtain ⟨result, warnings⟩ := x
  cases h
  rfl

/-- A result without a warning adds none to those of what follows. -/
theorem Reported.silent_bind {x : Reported α} {a : α} (h : x = ⟨.ok a, []⟩)
    (next : α → Reported β) : x >>= next = next a := by
  rw [h]
  rfl

theorem Reported.lift_bind {x : Except Error α} {a : α} (h : x = .ok a) (next : α → Reported β) :
    (liftM x >>= next : Reported β) = next a :=
  silent_bind (congrArg ofExcept h) next

/-! ## Calls that agree -/

/-- Two calls fail with the same cause, or succeed with related values. -/
inductive Agree (r : α → β → Prop) : Except ε α → Except ε β → Prop where
  | ok {a : α} {b : β} (h : r a b) : Agree r (.ok a) (.ok b)
  | error (e : ε) : Agree r (.error e) (.error e)

namespace Agree

variable {γ δ : Type} {r : α → β → Prop} {s : γ → δ → Prop}

theorem refl {r : α → α → Prop} (h : ∀ a, r a a) (x : Except ε α) : Agree r x x := by
  cases x with
  | ok a => exact .ok (h a)
  | error e => exact .error e

theorem bind {x : Except ε α} {y : Except ε β} (h : Agree r x y) {f : α → Except ε γ}
    {g : β → Except ε δ} (hnext : ∀ a b, r a b → Agree s (f a) (g b)) :
    Agree s (x >>= f) (y >>= g) := by
  cases h with
  | ok h => exact hnext _ _ h
  | error e => exact .error e

/-- Calls that begin alike agree if what follows does. -/
theorem after (x : Except ε α) {f : α → Except ε γ} {g : α → Except ε δ}
    (hnext : ∀ a, x = .ok a → Agree s (f a) (g a)) : Agree s (x >>= f) (x >>= g) := by
  cases x with
  | ok a => exact hnext a rfl
  | error e => exact .error e

theorem map {x : Except ε α} {y : Except ε β} (h : Agree r x y) {f : α → γ} {g : β → δ}
    (hmap : ∀ a b, r a b → s (f a) (g b)) : Agree s (x.map f) (y.map g) := by
  cases h with
  | ok h => exact .ok (hmap _ _ h)
  | error e => exact .error e

theorem of_map (f : α → β) (x : Except ε α) : Agree (fun a b ↦ b = f a) x (x.map f) := by
  cases x with
  | ok a => exact .ok rfl
  | error e => exact .error e

theorem mapM {f : γ → Except ε α} {g : γ → Except ε β} {xs : List γ}
    (h : ∀ x ∈ xs, Agree r (f x) (g x)) : Agree (List.Forall₂ r) (xs.mapM f) (xs.mapM g) := by
  induction xs with
  | nil => exact .ok .nil
  | cons x xs ih =>
    rw [List.forall_mem_cons] at h
    rw [List.mapM_cons, List.mapM_cons]
    exact h.1.bind fun a b hab ↦ (ih h.2).bind fun as bs hrest ↦ .ok (.cons hab hrest)

theorem eq {x y : Except ε α} (h : Agree (· = ·) x y) : x = y := by
  cases h with
  | ok h => rw [h]
  | error e => rfl

end Agree

end Montage
