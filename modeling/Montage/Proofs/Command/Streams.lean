import Montage.Proofs.Command.Flow
import Montage.Proofs.Command.Label

/-!
# Streams and their copies

A stream that is used more than once is copied first, and its copies are handed out one by one
while the layers are compiled, first to the pictures and then to the sounds.  That the copies are
as many as the uses was counted beforehand, in the order of the layers.

`drawn` is the handing out alone, for a list of uses.  `drawn_perm` says what it comes to: every
copy goes to one use, and a use of a stream without copies gets the stream itself.  From this,
`streams_flow` links the splits to whatever reads the streams that were drawn.
-/

set_option autoImplicit false

namespace Montage
namespace Command

/-- The streams from which uses are read in turn, and the copies that are left. -/
def drawn : List Pad → List Split → List String × List Split
  | [], splits => ([], splits)
  | pad :: rest, splits =>
    let (stream, left) := takeStream pad splits
    let (streams, last) := drawn rest left
    (stream :: streams, last)

theorem drawn_cons (pad : Pad) (rest : List Pad) (splits : List Split) :
    drawn (pad :: rest) splits
      = ((takeStream pad splits).1 :: (drawn rest (takeStream pad splits).2).1,
        (drawn rest (takeStream pad splits).2).2) := rfl

theorem drawn_append (first rest : List Pad) (splits : List Split) :
    drawn (first ++ rest) splits
      = ((drawn first splits).1 ++ (drawn rest (drawn first splits).2).1,
        (drawn rest (drawn first splits).2).2) := by
  induction first generalizing splits with
  | nil => rfl
  | cons pad first ih => rw [List.cons_append, drawn_cons, drawn_cons, ih, List.cons_append]

/-! ## Taking one stream -/

theorem takeStream_of_notMem {pad : Pad} {splits : List Split}
    (h : pad ∉ splits.map Split.pad) : takeStream pad splits = (pad.name, splits) := by
  induction splits with
  | nil => rfl
  | cons split rest ih =>
    rw [List.map_cons, List.mem_cons, not_or] at h
    rw [takeStream, if_neg (Ne.symm h.1), ih h.2]

theorem takeStream_of_append {pad : Pad} {front back : List Split} {label : String}
    {labels : List String} (h : pad ∉ front.map Split.pad) :
    takeStream pad (front ++ ⟨pad, label :: labels⟩ :: back)
      = (label, front ++ ⟨pad, labels⟩ :: back) := by
  induction front with
  | nil => simp [takeStream]
  | cons split rest ih =>
    rw [List.map_cons, List.mem_cons, not_or] at h
    rw [List.cons_append, takeStream, if_neg (Ne.symm h.1), ih h.2, List.cons_append]

/-! ## Where a stream comes from -/

/-- The stream is the pad itself or one of its copies. -/
def ComesFrom (splits : List Split) (pad : Pad) (stream : String) : Prop :=
  stream = pad.name ∨ ∃ split ∈ splits, split.pad = pad ∧ stream ∈ split.labels

/-- What is left of copies after some were taken. -/
def LeftOf (splits left : List Split) : Prop :=
  ∀ split ∈ left, ∃ whole ∈ splits, whole.pad = split.pad ∧ split.labels ⊆ whole.labels

theorem LeftOf.refl (splits : List Split) : LeftOf splits splits :=
  fun split h ↦ ⟨split, h, rfl, fun _ hx ↦ hx⟩

theorem LeftOf.trans {a b c : List Split} (h : LeftOf a b) (k : LeftOf b c) : LeftOf a c := by
  intro split hsplit
  obtain ⟨middle, hmiddle, hpad, hsub⟩ := k split hsplit
  obtain ⟨whole, hwhole, hpad', hsub'⟩ := h middle hmiddle
  exact ⟨whole, hwhole, hpad'.trans hpad, fun _ hx ↦ hsub' (hsub hx)⟩

theorem ComesFrom.of_left {splits left : List Split} {pad : Pad} {stream : String}
    (h : LeftOf splits left) (k : ComesFrom left pad stream) : ComesFrom splits pad stream := by
  rcases k with rfl | ⟨split, hsplit, rfl, hx⟩
  · exact .inl rfl
  · obtain ⟨whole, hwhole, hpad, hsub⟩ := h split hsplit
    exact .inr ⟨whole, hwhole, hpad, hsub hx⟩

theorem LeftOf.cons {splits left : List Split} (split : Split) (h : LeftOf splits left) :
    LeftOf (split :: splits) (split :: left) := by
  intro other hother
  rcases List.mem_cons.mp hother with rfl | hother
  · exact ⟨other, List.mem_cons_self, rfl, fun _ hx ↦ hx⟩
  · obtain ⟨whole, hwhole, hrest⟩ := h other hother
    exact ⟨whole, List.mem_cons_of_mem _ hwhole, hrest⟩

theorem takeStream_spec (pad : Pad) (splits : List Split) :
    ComesFrom splits pad (takeStream pad splits).1 ∧ LeftOf splits (takeStream pad splits).2 := by
  induction splits with
  | nil => exact ⟨.inl rfl, .refl _⟩
  | cons split rest ih =>
    rw [takeStream]
    split
    · rename_i hpad
      obtain ⟨p, labels⟩ := split
      cases labels with
      | nil => exact ⟨.inl rfl, .refl _⟩
      | cons label labels =>
        refine ⟨.inr ⟨_, List.mem_cons_self, hpad, List.mem_cons_self⟩, ?_⟩
        intro other hother
        rcases List.mem_cons.mp hother with rfl | hother
        · exact ⟨_, List.mem_cons_self, rfl, fun _ hx ↦ List.mem_cons_of_mem _ hx⟩
        · exact ⟨other, List.mem_cons_of_mem _ hother, rfl, fun _ hx ↦ hx⟩
    · refine ⟨?_, ih.2.cons split⟩
      rcases ih.1 with h | ⟨whole, hwhole, hrest⟩
      · exact .inl h
      · exact .inr ⟨whole, List.mem_cons_of_mem _ hwhole, hrest⟩

theorem drawn_left (pads : List Pad) (splits : List Split) :
    LeftOf splits (drawn pads splits).2 := by
  induction pads generalizing splits with
  | nil => exact .refl _
  | cons pad rest ih => exact (takeStream_spec pad splits).2.trans (ih _)

/-- The stage prepares a stream of the pad by the filters that were made for it. -/
structure Prepares (splits : List Split) (pad : Pad) (made : Except Error (List Filter))
    (label : String) (stage : Stage) : Prop where
  filters : made = .ok stage.filters
  output : stage.outputs = [label]
  input : ∃ stream, stage.inputs = [stream] ∧ ComesFrom splits pad stream

theorem Prepares.of_left {splits left : List Split} {pad : Pad}
    {made : Except Error (List Filter)} {label : String} {stage : Stage}
    (h : LeftOf splits left) (k : Prepares left pad made label stage) :
    Prepares splits pad made label stage := by
  obtain ⟨stream, hinputs, hfrom⟩ := k.input
  exact ⟨k.filters, k.output, stream, hinputs, hfrom.of_left h⟩

/-! ## Handing out all copies -/

/-- The copies of every stream are as many as its uses. -/
structure Serves (splits : List Split) (pads : List Pad) : Prop where
  nodup : (splits.map Split.pad).Nodup
  enough : ∀ split ∈ splits, split.labels.length = pads.count split.pad

theorem Serves.perm {splits : List Split} {pads more : List Pad} (h : Serves splits pads)
    (hp : pads.Perm more) : Serves splits more :=
  ⟨h.nodup, fun split hs ↦ (h.enough split hs).trans (hp.count_eq _)⟩

section Uses

variable {splits front back : List Split} {pad : Pad} {label : String} {labels : List String}
  {pads rest : List Pad}

theorem Serves.notMem (h : Serves (front ++ ⟨pad, labels⟩ :: back) pads) :
    pad ∉ front.map Split.pad ∧ pad ∉ back.map Split.pad := by
  have hnodup := h.nodup
  rw [List.map_append, List.map_cons, List.nodup_append, List.nodup_cons] at hnodup
  obtain ⟨-, ⟨hback, -⟩, hfront⟩ := hnodup
  exact ⟨fun hin ↦ hfront _ hin _ List.mem_cons_self rfl, hback⟩

/-- A use of a stream without copies takes none away. -/
theorem Serves.skip (h : Serves splits (pad :: rest)) (hpad : pad ∉ splits.map Split.pad) :
    Serves splits rest := by
  refine ⟨h.nodup, fun split hs ↦ ?_⟩
  have hne : pad ≠ split.pad := fun heq ↦ hpad (List.mem_map.mpr ⟨split, hs, heq.symm⟩)
  rw [h.enough split hs, List.count_cons_of_ne hne]

/-- A use of a stream that has copies takes one away. -/
theorem Serves.take (h : Serves (front ++ ⟨pad, label :: labels⟩ :: back) (pad :: rest)) :
    Serves (front ++ ⟨pad, labels⟩ :: back) rest := by
  obtain ⟨hfront, hback⟩ := h.notMem
  refine ⟨by simpa using h.nodup, fun split hs ↦ ?_⟩
  rw [List.mem_append, List.mem_cons] at hs
  rcases hs with hs | rfl | hs
  · have hne : pad ≠ split.pad := fun heq ↦ hfront (List.mem_map.mpr ⟨split, hs, heq.symm⟩)
    rw [h.enough split (List.mem_append_left _ hs), List.count_cons_of_ne hne]
  · have hlength := h.enough ⟨pad, label :: labels⟩ (by simp)
    rw [List.count_cons_self] at hlength
    exact Nat.succ.inj hlength
  · have hne : pad ≠ split.pad := fun heq ↦ hback (List.mem_map.mpr ⟨split, hs, heq.symm⟩)
    have hin := List.mem_append_right front (List.mem_cons_of_mem ⟨pad, label :: labels⟩ hs)
    rw [h.enough split hin, List.count_cons_of_ne hne]

/-- A stream that is split and still used has a copy left. -/
theorem Serves.exists_label (h : Serves splits (pad :: rest)) (hpad : pad ∈ splits.map Split.pad) :
    ∃ front label labels back, splits = front ++ ⟨pad, label :: labels⟩ :: back := by
  obtain ⟨⟨pad, labels⟩, hmem, rfl⟩ := List.mem_map.mp hpad
  have hlength := h.enough _ hmem
  rw [List.count_cons_self] at hlength
  obtain ⟨label, labels, rfl⟩ := List.exists_cons_of_length_eq_add_one hlength
  obtain ⟨front, back, rfl⟩ := List.append_of_mem hmem
  exact ⟨front, label, labels, back, rfl⟩

/-- **Every copy goes to one use**, and a use of a stream without copies gets the stream. -/
theorem drawn_perm (h : Serves splits pads) :
    (drawn pads splits).1.Perm (splits.flatMap Split.labels
      ++ (pads.filter fun pad ↦ pad ∉ splits.map Split.pad).map Pad.name) := by
  induction pads generalizing splits with
  | nil =>
    have hempty : splits.flatMap Split.labels = [] := by
      rw [List.flatMap_eq_nil_iff]
      exact fun split hs ↦ List.length_eq_zero_iff.mp (h.enough split hs)
    rw [hempty]
    exact .nil
  | cons pad rest ih =>
    rw [drawn_cons]
    by_cases hpad : pad ∈ splits.map Split.pad
    · obtain ⟨front, label, labels, back, rfl⟩ := h.exists_label hpad
      have ih := (ih h.take).cons label
      rw [takeStream_of_append h.notMem.1, List.filter_cons_of_neg (by simp)]
      rw [List.flatMap_append, List.flatMap_cons, List.append_assoc, List.append_assoc,
        List.map_append, List.map_cons] at ih ⊢
      exact ih.trans List.perm_middle.symm
    · rw [takeStream_of_notMem hpad]
      rw [List.filter_cons_of_pos (by simpa using hpad), List.map_cons]
      exact ((ih (h.skip hpad)).cons _).trans List.perm_middle.symm

end Uses

/-! ## The splits of a timeline -/

theorem map_pad_splitsFrom (uses pads : List Pad) (next : Nat) :
    (splitsFrom uses next pads).map Split.pad = pads.filter fun pad ↦ 1 < uses.count pad := by
  induction pads generalizing next with
  | nil => rfl
  | cons pad rest ih =>
    rw [splitsFrom]
    split
    · rename_i hcount
      rw [List.map_cons, ih, List.filter_cons_of_pos (by simpa using hcount)]
    · rename_i hcount
      rw [ih, List.filter_cons_of_neg (by simpa using hcount)]

theorem length_labels_splitsFrom {uses pads : List Pad} {next : Nat} {split : Split}
    (h : split ∈ splitsFrom uses next pads) : split.labels.length = uses.count split.pad := by
  induction pads generalizing next with
  | nil => cases h
  | cons pad rest ih =>
    rw [splitsFrom] at h
    split at h
    · rcases List.mem_cons.mp h with rfl | h
      · rw [List.length_map, List.length_range]
      · exact ih h
    · exact ih h

/-- The copies are numbered through. -/
theorem labels_splitsFrom (uses pads : List Pad) (next : Nat) :
    ∃ n, (splitsFrom uses next pads).flatMap Split.labels
      = (List.range' next n).map (numbered "s") := by
  induction pads generalizing next with
  | nil => exact ⟨0, rfl⟩
  | cons pad rest ih =>
    rw [splitsFrom]
    split
    · obtain ⟨n, hn⟩ := ih (next + uses.count pad)
      refine ⟨uses.count pad + n, ?_⟩
      have hcopies : (List.range' next (uses.count pad)).map (numbered "s")
          = (List.range (uses.count pad)).map fun i ↦ numbered "s" (next + i) := by
        rw [List.range'_eq_map_range, List.map_map]
        rfl
      rw [List.flatMap_cons, hn, ← List.range'_append_1, List.map_append, hcopies]
    · exact ih next

/-- The splits turn streams into their copies. -/
theorem splitsFrom_flow (uses pads : List Pad) (next : Nat) :
    Stage.Flow ↑(pads.map Pad.name) ((splitsFrom uses next pads).map Split.stage)
      (↑((splitsFrom uses next pads).flatMap Split.labels)
        + ↑((pads.filter fun pad ↦ ¬ 1 < uses.count pad).map Pad.name)) := by
  induction pads generalizing next with
  | nil => exact .nil _
  | cons pad rest ih =>
    rw [splitsFrom]
    split
    · rename_i hcount
      rw [List.filter_cons_of_neg (by simpa using hcount), List.flatMap_cons, ← Multiset.coe_add,
        add_assoc, add_comm (Multiset.ofList _)]
      refine .cons ↑(rest.map Pad.name) rfl ?_
      rw [add_comm (Multiset.ofList _)]
      exact (ih _).frame _
    · rename_i hcount
      rw [List.filter_cons_of_pos (by simpa using hcount), List.map_cons, List.map_cons,
        ← Multiset.cons_coe, ← Multiset.cons_coe, Multiset.add_cons, ← Multiset.singleton_add,
        ← Multiset.singleton_add, add_comm {_}, add_comm {_}]
      exact (ih next).frame _

theorem serves_splitsFrom (uses : List Pad) : Serves (splitsFrom uses 0 (distinct uses)) uses where
  nodup := by
    rw [map_pad_splitsFrom]
    exact (nodup_distinct uses).filter _
  enough _ h := length_labels_splitsFrom h

/-- The streams that are used once are among the uses what they are among the streams. -/
theorem filter_unsplit_perm {uses pads : List Pad} (h : pads.Perm uses) :
    ((distinct uses).filter fun pad ↦ ¬ 1 < uses.count pad).Perm
      (pads.filter fun pad ↦ ¬ 1 < uses.count pad) := by
  refine (List.perm_ext_iff_of_nodup ((nodup_distinct uses).filter _) ?_).mpr fun pad ↦ ?_
  · rw [List.nodup_iff_count_le_one]
    intro pad
    by_cases hpad : 1 < uses.count pad
    · rw [List.count_eq_zero_of_not_mem (by simp [hpad])]
      exact Nat.zero_le 1
    · rw [List.count_filter (by simpa using hpad), h.count_eq]
      exact Nat.le_of_not_lt hpad
  · rw [List.mem_filter, List.mem_filter, mem_distinct, h.mem_iff]

/-- **The splits lead from the streams of the inputs to the streams that are drawn**, in whatever
order the uses are served. -/
theorem streams_flow {uses pads : List Pad} (h : pads.Perm uses) :
    Stage.Flow ↑((distinct uses).map Pad.name)
      ((splitsFrom uses 0 (distinct uses)).map Split.stage)
      ↑(drawn pads (splitsFrom uses 0 (distinct uses))).1 := by
  have hsplit : (pads.filter fun pad ↦
        pad ∉ (splitsFrom uses 0 (distinct uses)).map Split.pad)
      = pads.filter fun pad ↦ ¬ 1 < uses.count pad := by
    refine List.filter_congr fun pad hpad ↦ ?_
    have hin : pad ∈ distinct uses := mem_distinct.mpr (h.mem_iff.mp hpad)
    rw [map_pad_splitsFrom]
    simp [hin]
  have hdrawn := drawn_perm ((serves_splitsFrom uses).perm h.symm)
  rw [hsplit] at hdrawn
  have hopen := (hdrawn.trans (((filter_unsplit_perm h).map Pad.name).symm.append_left _))
  rw [Multiset.coe_eq_coe.mpr hopen, ← Multiset.coe_add]
  exact splitsFrom_flow uses (distinct uses) 0

end Command
end Montage
