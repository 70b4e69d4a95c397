import Mathlib.Data.List.Forall2
import Montage.Animation.Motion
import Montage.Proofs.Expr.Alike

/-!
# Graphs that are written alike

Option values, filters, stages and graphs are alike if they have the same text and the same
numbers that cannot be written.  Each is alike to another one if its parts are; so a difference
that an expression does not show is not shown by a graph.
-/

set_option autoImplicit false

namespace Montage

/-! ## Lists of related values -/

section Forall

variable {α β γ : Type} {r : α → β → Prop} {as : List α} {bs : List β}

theorem map_eq_map_of_forall₂ {f : α → γ} {g : β → γ} (h : List.Forall₂ r as bs)
    (heq : ∀ a b, r a b → f a = g b) : as.map f = bs.map g := by
  induction h with
  | nil => rfl
  | cons h _ ih => rw [List.map_cons, List.map_cons, heq _ _ h, ih]

theorem all_eq_all_of_forall₂ {p : α → Bool} {q : β → Bool} (h : List.Forall₂ r as bs)
    (heq : ∀ a b, r a b → p a = q b) : as.all p = bs.all q := by
  induction h with
  | nil => rfl
  | cons h _ ih => rw [List.all_cons, List.all_cons, heq _ _ h, ih]

end Forall

/-! ## Options -/

/-- The values have the same text, and both or none can be written. -/
structure OptionValue.Alike (a b : OptionValue) : Prop where
  text : a.text = b.text
  isWritable : a.isWritable = b.isWritable

theorem OptionValue.Alike.refl (value : OptionValue) : Alike value value := ⟨rfl, rfl⟩

theorem OptionValue.Alike.expr {a b : Expr} (h : Expr.Alike a b) :
    Alike (.expr a) (.expr b) := by
  refine ⟨?_, h.isWritable_eq⟩
  rw [OptionValue.text, OptionValue.text, h.readsAlone_eq, h.text_eq]

/-- Options with the same keys, in the same order, and with values that are alike. -/
def OptionsAlike {κ : Type} : List (κ × OptionValue) → List (κ × OptionValue) → Prop :=
  List.Forall₂ fun a b ↦ a.1 = b.1 ∧ a.2.Alike b.2

namespace OptionsAlike

variable {κ : Type} {as bs cs ds : List (κ × OptionValue)}

theorem refl (options : List (κ × OptionValue)) : OptionsAlike options options := by
  induction options with
  | nil => exact .nil
  | cons option rest ih => exact .cons ⟨rfl, .refl _⟩ ih

theorem append (h : OptionsAlike as bs) (hrest : OptionsAlike cs ds) :
    OptionsAlike (as ++ cs) (bs ++ ds) :=
  List.rel_append h hrest

theorem single (key : κ) {a b : OptionValue} (h : a.Alike b) :
    OptionsAlike [(key, a)] [(key, b)] :=
  .cons ⟨rfl, h⟩ .nil

/-- Under each key, what is alike has values that are alike, or none. -/
theorem lookup? {as bs : List (String × OptionValue)} (h : OptionsAlike as bs) (key : String) :
    Option.Rel OptionValue.Alike (Json.lookup? key as) (Json.lookup? key bs) := by
  induction h with
  | nil => exact .none
  | cons h _ ih =>
    rw [Json.lookup?_cons, Json.lookup?_cons, h.1]
    split
    · exact .some h.2
    · exact ih

end OptionsAlike

/-! ## Filters -/

/-- The filters have the same text, and both or none can be written. -/
structure Filter.Alike (a b : Filter) : Prop where
  text : a.text = b.text
  isWritable : a.isWritable = b.isWritable

namespace Filter

theorem Alike.refl (filter : Filter) : Alike filter filter := ⟨rfl, rfl⟩

/-- Filters of one name with options that are alike. -/
theorem Alike.of_options (name : String) {as bs : List (Option String × OptionValue)}
    (h : OptionsAlike as bs) : Alike ⟨name, as⟩ ⟨name, bs⟩ := by
  have htext (a b : Option String × OptionValue) (h : a.1 = b.1 ∧ a.2.Alike b.2) :
      optionText a = optionText b := by
    obtain ⟨key, value⟩ := a
    obtain ⟨rfl, h⟩ := h
    rcases b with ⟨- | key, other⟩ <;> simp [optionText, h.text]
  have hempty : as.isEmpty = bs.isEmpty := by
    rw [Bool.eq_iff_iff, List.isEmpty_iff_length_eq_zero, List.isEmpty_iff_length_eq_zero,
      h.length_eq]
  refine ⟨?_, all_eq_all_of_forall₂ h fun _ _ h ↦ h.2.isWritable⟩
  rw [Filter.text, Filter.text]
  dsimp only
  rw [hempty, map_eq_map_of_forall₂ h htext]

theorem Alike.named (name : String) {as bs : List (String × OptionValue)}
    (h : OptionsAlike as bs) : Alike (named name as) (named name bs) := by
  refine .of_options name ?_
  induction h with
  | nil => exact .nil
  | cons h _ ih => exact .cons ⟨congrArg some h.1, h.2⟩ ih

end Filter

/-! ## Stages and graphs -/

/-- The stages read and write the same links and have filters that are alike. -/
structure Stage.Alike (a b : Stage) : Prop where
  inputs : a.inputs = b.inputs
  filters : List.Forall₂ Filter.Alike a.filters b.filters
  outputs : a.outputs = b.outputs

namespace Stage

theorem Alike.refl (stage : Stage) : Alike stage stage :=
  ⟨rfl, List.forall₂_same.mpr fun filter _ ↦ .refl filter, rfl⟩

theorem Alike.text_eq {a b : Stage} (h : Alike a b) : a.text = b.text := by
  rw [text, text, h.inputs, h.outputs,
    map_eq_map_of_forall₂ h.filters fun _ _ h ↦ h.text]

end Stage

/-- **Graphs are written alike** if their stages are. -/
theorem FilterGraph.write_eq {a b : FilterGraph} (h : List.Forall₂ Stage.Alike a.stages b.stages) :
    a.write = b.write := by
  have htext : a.text = b.text := by
    rw [text, text, map_eq_map_of_forall₂ h fun _ _ h ↦ h.text_eq]
  have hwritable : a.isWritable = b.isWritable :=
    all_eq_all_of_forall₂ h fun _ _ h ↦ all_eq_all_of_forall₂ h.filters fun _ _ h ↦ h.isWritable
  rw [write, write, hwritable, render, render, htext]

/-! ## Moving what is placed alike

An animation adds to the place at which a text rests, or takes away from it, and what it adds is
no constant, or zero.  So a text that rests at places that are alike is moved alike. -/

namespace Animation

variable [Rounding]

/-- What is alike stays alike when a motion is added to it or taken away. -/
theorem moved_alike (hzero : Rounding.round 0 = .finite 0) {operation : Operation}
    (hsum : operation = .plus ∨ operation = .minus) {a b motion : Expr} (h : Expr.Alike a b)
    (hmotion : motion.IsVariable) (key : String) (rest : List (String × OptionValue)) :
    Agree OptionsAlike
      (do return (key, OptionValue.expr (← Expr.combine operation a motion)) :: rest)
      (do return (key, OptionValue.expr (← Expr.combine operation b motion)) :: rest) := by
  refine .bind (h.combine hzero hsum hmotion) fun _ _ h ↦ .ok ?_
  exact List.Forall₂.cons ⟨rfl, .expr h⟩ (OptionsAlike.refl rest)

theorem progress_isOpen {start duration : Number} {e : Expr}
    (h : progress start duration = .ok e) : e.IsOpen := by
  obtain ⟨elapsed, -, h⟩ := bind_eq_ok.mp h
  obtain ⟨share, -, h⟩ := bind_eq_ok.mp h
  cases pure_eq_ok.mp h
  exact Expr.isOpen_call _ _

theorem during_isOpen {start duration : Number} {e : Expr}
    (h : during start duration = .ok e) : e.IsOpen := by
  obtain ⟨stop, -, h⟩ := bind_eq_ok.mp h
  cases pure_eq_ok.mp h
  exact Expr.isOpen_call _ _

/-- **A text that rests at places that are alike is moved alike.** -/
theorem textOptionsFrom_alike (hzero : Rounding.round 0 = .finite 0) (animation : Animation)
    (begins : Number) (stop : Option Expr) {x x' y y' : Expr} (hx : Expr.Alike x x')
    (hy : Expr.Alike y y') (fontSize : Expr) :
    Agree OptionsAlike (animation.textOptionsFrom begins stop x y fontSize)
      (animation.textOptionsFrom begins stop x' y' fontSize) := by
  rw [textOptionsFrom, textOptionsFrom]
  dsimp only
  refine .after _ fun arrived harrived ↦ .after _ fun leaving _ ↦ ?_
  cases animation.motion <;> dsimp only
  case slideIn =>
    refine .after _ fun left hleft ↦ .after _ fun ahead hahead ↦ ?_
    have hmotion : ahead.IsVariable :=
      Expr.mul_isVariable (.inr (Expr.sub_isOpen (progress_isOpen harrived) hleft)) hahead
    cases animation.direction.getD .left <;> dsimp only
    · exact moved_alike hzero (.inr rfl) hx hmotion "x" _
    · exact moved_alike hzero (.inl rfl) hx hmotion "x" _
    · exact moved_alike hzero (.inl rfl) hy hmotion "y" _
    · exact moved_alike hzero (.inr rfl) hy hmotion "y" _
  case bounce =>
    refine .after _ fun turned _ ↦ .after _ fun angle _ ↦ .after _ fun height _ ↦ ?_
    refine .after _ fun lasting hlasting ↦ .after _ fun lift hlift ↦ ?_
    exact moved_alike hzero (.inr rfl) hy
      (Expr.mul_isVariable (.inr (during_isOpen hlasting)) hlift) "y" []
  case shake =>
    refine .after _ fun elapsed _ ↦ .after _ fun angle _ ↦ .after _ fun wave _ ↦ ?_
    refine .after _ fun lasting hlasting ↦ .after _ fun jitter hjitter ↦ ?_
    exact moved_alike hzero (.inl rfl) hx
      (Expr.mul_isVariable (.inr (during_isOpen hlasting)) hjitter) "x" []
  all_goals exact .refl OptionsAlike.refl _

theorem textOptions_alike (hzero : Rounding.round 0 = .finite 0) (animation : Animation)
    (start : Number) (stop : Option Expr) {x x' y y' : Expr} (hx : Expr.Alike x x')
    (hy : Expr.Alike y y') (fontSize : Expr) :
    Agree OptionsAlike (animation.textOptions start stop x y fontSize)
      (animation.textOptions start stop x' y' fontSize) := by
  rw [textOptions, textOptions]
  split
  · exact .refl OptionsAlike.refl _
  · exact .after _ fun begins _ ↦ textOptionsFrom_alike hzero animation begins stop hx hy fontSize

end Animation
end Montage
