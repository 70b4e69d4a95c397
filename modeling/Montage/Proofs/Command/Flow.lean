import Mathlib.Algebra.Order.Group.Multiset
import Mathlib.Data.Multiset.UnionInter
import Montage.Filter.Graph

/-!
# Streams that flow through stages

A filter graph is read stage by stage.  At every point some streams are open: they were opened by
a stage, or came from outside, and nobody has read them yet.  A stage takes its inputs out of the
open streams and opens its outputs.  `Stage.Flow a stages b` says that this goes through from the
open streams `a` to the open streams `b`, so that a stream that two stages want, or that nobody
opened, makes the flow impossible.

What a well linked graph has to satisfy follows from such a flow alone, whatever the stages do:

* `Flow.balance`: what comes in and what is written is what is read and what is left open;
* `Flow.source`: an input of a stage came in, or an earlier stage wrote it;
* `Flow.reader`: what is written and not left open is read by a later stage, and by nobody else
  (`Flow.count_reads`).

Flows are put one behind the other by `Flow.append`, and streams that a part of the graph has
nothing to do with are carried along by `Flow.frame`.
-/

set_option autoImplicit false

namespace Montage
namespace Stage

/-- All labels that stages write, in order. -/
def written (stages : List Stage) : List String := stages.flatMap Stage.outputs

/-- All streams that stages read, in order. -/
def reads (stages : List Stage) : List String := stages.flatMap Stage.inputs

@[simp] theorem written_nil : written [] = [] := rfl

@[simp] theorem written_cons (stage : Stage) (stages : List Stage) :
    written (stage :: stages) = stage.outputs ++ written stages := rfl

@[simp] theorem written_append (s t : List Stage) : written (s ++ t) = written s ++ written t :=
  List.flatMap_append

@[simp] theorem reads_nil : reads [] = [] := rfl

@[simp] theorem reads_cons (stage : Stage) (stages : List Stage) :
    reads (stage :: stages) = stage.inputs ++ reads stages := rfl

@[simp] theorem reads_append (s t : List Stage) : reads (s ++ t) = reads s ++ reads t :=
  List.flatMap_append

/-- The stages lead from the open streams `a` to the open streams `b`. -/
inductive Flow : Multiset String → List Stage → Multiset String → Prop
  | nil (a : Multiset String) : Flow a [] a
  | cons {a b : Multiset String} {stage : Stage} {stages : List Stage} (kept : Multiset String)
      (takes : a = ↑stage.inputs + kept) (later : Flow (↑stage.outputs + kept) stages b) :
      Flow a (stage :: stages) b

namespace Flow

variable {a b c : Multiset String} {s t : List Stage}

theorem append (h : Flow a s b) (k : Flow b t c) : Flow a (s ++ t) c := by
  induction h with
  | nil => exact k
  | cons kept takes _ ih => exact .cons kept takes (ih k)

theorem of_append (h : Flow a (s ++ t) c) : ∃ b, Flow a s b ∧ Flow b t c := by
  induction s generalizing a with
  | nil => exact ⟨a, .nil _, h⟩
  | cons stage s ih =>
    cases h with
    | cons kept takes later =>
      obtain ⟨b, hs, ht⟩ := ih later
      exact ⟨b, .cons kept takes hs, ht⟩

/-- A stage leads from its inputs to its outputs. -/
theorem single (stage : Stage) : Flow ↑stage.inputs [stage] ↑stage.outputs :=
  .cons 0 (by rw [add_zero]) (by rw [add_zero]; exact .nil _)

/-- Streams that no stage touches stay open. -/
theorem frame (h : Flow a s b) (r : Multiset String) : Flow (a + r) s (b + r) := by
  induction h with
  | nil => exact .nil _
  | cons kept takes _ ih =>
    rw [takes, add_assoc]
    refine .cons _ rfl ?_
    rw [← add_assoc]
    exact ih

/-- Two parts that touch different streams, one behind the other. -/
theorem beside {a' b' : Multiset String} (h : Flow a s b) (k : Flow a' t b') :
    Flow (a + a') (s ++ t) (b + b') := by
  have k' := k.frame b
  rw [add_comm a', add_comm b'] at k'
  exact (h.frame a').append k'

theorem of_single {stage : Stage} (h : Flow a [stage] b) :
    ∃ kept, a = ↑stage.inputs + kept ∧ b = ↑stage.outputs + kept := by
  cases h with
  | cons kept takes later =>
    cases later
    exact ⟨kept, takes, rfl⟩

/-- Where only the output of the last stage is open, that stage may name it anew. -/
theorem relabel {stage : Stage} {x : String} (y : String) (h : Flow a (s ++ [stage]) {x})
    (hx : stage.outputs = [x]) : Flow a (s ++ [{ stage with outputs := [y] }]) {y} := by
  obtain ⟨b, hs, hlast⟩ := h.of_append
  obtain ⟨kept, rfl, hopen⟩ := hlast.of_single
  have hkept : kept = 0 := by
    rw [hx, Multiset.coe_singleton] at hopen
    exact left_eq_add.mp hopen
  rw [hkept, add_zero] at hs
  exact hs.append (.single { stage with outputs := [y] })

/-- **Nothing is lost and nothing appears from nowhere.** -/
theorem balance (h : Flow a s b) : a + ↑(written s) = ↑(reads s) + b := by
  induction h with
  | nil => simp
  | cons kept takes _ ih =>
    rw [written_cons, reads_cons, takes, ← Multiset.coe_add, ← Multiset.coe_add, add_assoc,
      add_assoc, ← ih]
    congr 1
    rw [← add_assoc, add_comm kept]

/-- What a stage reads came in from outside, or an earlier stage wrote it. -/
theorem source {pre post : List Stage} {stage : Stage} (h : Flow a (pre ++ stage :: post) b)
    {x : String} (hx : x ∈ stage.inputs) : x ∈ a ∨ x ∈ written pre := by
  induction pre generalizing a with
  | nil =>
    cases h with
    | cons kept takes _ => exact .inl (takes ▸ Multiset.mem_add.mpr (.inl hx))
  | cons first pre ih =>
    cases h with
    | cons kept takes later =>
      rcases ih later with hx | hx
      · rcases Multiset.mem_add.mp hx with hx | hx
        · exact .inr (List.mem_append_left _ hx)
        · exact .inl (takes ▸ Multiset.mem_add.mpr (.inr hx))
      · exact .inr (List.mem_append_right _ hx)

/-! ## Flows in which every stream has one name -/

/-- Where all names differ, a stream is read at most once. -/
theorem count_reads_le (h : Flow a s b) (hd : (a + ↑(written s)).Nodup) (x : String) :
    (reads s).count x ≤ 1 := by
  rw [h.balance] at hd
  have hx := Multiset.nodup_iff_count_le_one.mp hd x
  rw [Multiset.count_add, Multiset.coe_count] at hx
  omega

/-- Where all names differ, a stream that is not left open is read exactly once. -/
theorem count_reads (h : Flow a s b) (hd : (a + ↑(written s)).Nodup) {x : String}
    (hx : x ∈ a ∨ x ∈ written s) (hb : x ∉ b) : (reads s).count x = 1 := by
  have hmem : x ∈ a + ↑(written s) := Multiset.mem_add.mpr hx
  have hone : (a + ↑(written s)).count x = 1 := Multiset.count_eq_one_of_mem hd hmem
  rw [h.balance, Multiset.count_add, Multiset.coe_count,
    Multiset.count_eq_zero_of_notMem hb] at hone
  exact hone

/-- Where all names differ, a label that is not left open is read by a stage behind the one that
writes it. -/
theorem reader {pre post : List Stage} {stage : Stage} (h : Flow a (pre ++ stage :: post) b)
    (hd : (a + ↑(written (pre ++ stage :: post))).Nodup) {x : String} (hx : x ∈ stage.outputs)
    (hb : x ∉ b) : x ∈ reads post := by
  have hw : x ∈ written (pre ++ stage :: post) := by simp [hx]
  have hr : x ∈ reads (pre ++ stage :: post) := by
    rw [← List.one_le_count_iff, h.count_reads hd (.inr hw) hb]
  -- the reader is not in front of the writer, nor the writer itself: what they read was open
  -- or written before, and the name would be taken twice
  have hnot : ∀ (front back : List Stage) {other : Stage},
      pre ++ stage :: post = front ++ other :: back → x ∈ written (other :: back) →
        x ∉ other.inputs := by
    intro front back other heq hlate hin
    rw [heq] at h hd
    rw [written_append, ← Multiset.coe_add, ← add_assoc] at hd
    have hearly : x ∈ a + ↑(written front) := Multiset.mem_add.mpr (h.source hin)
    exact Multiset.disjoint_left.mp (Multiset.nodup_add.mp hd).2.2 hearly hlate
  rw [reads_append, reads_cons, List.mem_append, List.mem_append] at hr
  rcases hr with hr | hr | hr
  · obtain ⟨other, hother, hin⟩ := List.mem_flatMap.mp hr
    obtain ⟨front, back, rfl⟩ := List.append_of_mem hother
    refine absurd hin (hnot front (back ++ stage :: post) (by simp) ?_)
    simp [hx]
  · exact absurd hr (hnot pre post rfl (by simp [hx]))
  · exact hr

end Flow
end Stage
end Montage
