import Mathlib.Data.List.Nodup
import Montage.Json.Basic

/-!
# Members by their keys

Writing a key of a table changes what is found under that key and under no other, and leaves the
keys without repetition if they were so.
-/

set_option autoImplicit false

namespace Montage
namespace Json

variable {α : Type} {key other : String} {value : α} {members : List (String × α)}

/-! ## Looking up -/

theorem lookup?_cons (member : String × α) (rest : List (String × α)) :
    lookup? key (member :: rest) = if member.1 = key then some member.2 else lookup? key rest := by
  by_cases h : member.1 = key <;> simp [lookup?, h]

theorem mem_of_lookup? (h : lookup? key members = some value) : (key, value) ∈ members := by
  obtain ⟨member, hfound, rfl⟩ := Option.map_eq_some_iff.mp h
  have hkey : member.1 = key := by simpa using List.find?_some hfound
  rw [← hkey]
  exact List.mem_of_find?_eq_some hfound

/-! ## Writing -/

theorem put_of_notMem (h : key ∉ members.map Prod.fst) :
    put key value members = members ++ [(key, value)] := by
  induction members with
  | nil => rfl
  | cons first rest ih =>
    rw [List.map_cons, List.mem_cons, not_or] at h
    rw [put, if_neg (Ne.symm h.1), ih h.2, List.cons_append]

theorem mem_put {member : String × α} (h : member ∈ put key value members) :
    member = (key, value) ∨ member ∈ members := by
  induction members with
  | nil => exact .inl (List.mem_singleton.mp h)
  | cons first rest ih =>
    rw [put] at h
    split at h
    · rename_i hkey
      rcases List.mem_cons.mp h with h | h
      · rw [hkey] at h
        exact .inl h
      · exact .inr (List.mem_cons_of_mem _ h)
    · rcases List.mem_cons.mp h with h | h
      · exact .inr (List.mem_cons.mpr (.inl h))
      · exact (ih h).imp_right (List.mem_cons_of_mem _)

theorem keys_put_nodup (h : (members.map Prod.fst).Nodup) :
    ((put key value members).map Prod.fst).Nodup := by
  induction members with
  | nil => simp [put]
  | cons first rest ih =>
    obtain ⟨hfirst, hrest⟩ := List.nodup_cons.mp h
    rw [put]
    split
    · exact h
    · rename_i hne
      refine List.nodup_cons.mpr ⟨fun hmem ↦ ?_, ih hrest⟩
      obtain ⟨member, hmember, heq⟩ := List.mem_map.mp hmem
      rcases mem_put hmember with rfl | hmember
      · exact hne heq.symm
      · exact hfirst (heq ▸ List.mem_map_of_mem hmember)

theorem lookup?_put : lookup? other (put key value members) =
    if key = other then some value else lookup? other members := by
  induction members with
  | nil => simp [put, lookup?]
  | cons first rest ih =>
    rw [put]
    split
    · rename_i hkey
      simp only [lookup?_cons, hkey]
      split <;> rfl
    · rename_i hne
      rw [lookup?_cons, lookup?_cons, ih]
      split
      · rename_i hother
        rw [if_neg fun h ↦ hne (hother.trans h.symm)]
      · rfl

theorem put_of_lookup? (h : lookup? key members = some value) : put key value members = members := by
  induction members with
  | nil => cases h
  | cons first rest ih =>
    rw [lookup?_cons] at h
    rw [put]
    split at h
    · rename_i hkey
      cases h
      rw [if_pos hkey]
    · rename_i hne
      rw [if_neg hne, ih h]

/-! ## Changing all values -/

section

variable {β : Type} (change : String → α → β)

theorem lookup?_map : lookup? key (members.map fun member ↦ (member.1, change member.1 member.2)) =
    (lookup? key members).map (change key) := by
  induction members with
  | nil => rfl
  | cons first rest ih =>
    rw [List.map_cons, lookup?_cons, lookup?_cons, ih]
    by_cases hkey : first.1 = key <;> simp [hkey]

theorem put_map :
    put key (change key value) (members.map fun member ↦ (member.1, change member.1 member.2)) =
      (put key value members).map fun member ↦ (member.1, change member.1 member.2) := by
  induction members with
  | nil => rfl
  | cons first rest ih =>
    rw [List.map_cons, put, put, ih]
    split
    · rename_i hkey
      rw [List.map_cons, hkey]
    · rfl

end

/-- What is written takes the place of a value, so that it does not matter what that was changed to
before. -/
theorem put_map_of_fixed {change : String → α → α} (hkeys : (members.map Prod.fst).Nodup)
    (fixed : ∀ member ∈ members, member.1 ≠ key → change member.1 member.2 = member.2) :
    put key value (members.map fun member ↦ (member.1, change member.1 member.2)) =
      put key value members := by
  induction members with
  | nil => rfl
  | cons first rest ih =>
    rw [List.map_cons, List.nodup_cons] at hkeys
    rw [List.map_cons, put, put]
    split
    · rename_i hkey
      refine congrArg _ ((List.map_congr_left fun member hmember ↦ ?_).trans (List.map_id' rest))
      refine Prod.ext rfl (fixed member (List.mem_cons_of_mem _ hmember) fun heq ↦ hkeys.1 ?_)
      rw [hkey.trans heq.symm]
      exact List.mem_map_of_mem hmember
    · rename_i hne
      rw [ih hkeys.2 fun member hmember ↦ fixed member (List.mem_cons_of_mem _ hmember),
        fixed first List.mem_cons_self hne]

/-! ## What is under the other keys -/

theorem filter_ne_put : (put key value members).filter (fun member ↦ member.1 ≠ key) =
    members.filter fun member ↦ member.1 ≠ key := by
  induction members with
  | nil => simp [put]
  | cons first rest ih =>
    rw [put]
    split
    · rename_i hkey
      simp [hkey]
    · rw [List.filter_cons, List.filter_cons, ih]

theorem filter_ne_map (change : α → α) :
    (members.map fun member ↦ if member.1 = key then (member.1, change member.2) else member).filter
      (fun member ↦ member.1 ≠ key) = members.filter fun member ↦ member.1 ≠ key := by
  induction members with
  | nil => rfl
  | cons first rest ih =>
    rw [List.map_cons, List.filter_cons, List.filter_cons, ih]
    by_cases hkey : first.1 = key <;> simp [hkey]

theorem lookup?_filter_ne : lookup? other (members.filter fun member ↦ member.1 ≠ key) =
    if other = key then none else lookup? other members := by
  induction members with
  | nil => simp [lookup?]
  | cons first rest ih =>
    rw [List.filter_cons]
    split
    · rename_i hne
      rw [lookup?_cons, lookup?_cons, ih]
      split
      · rename_i hfirst
        rw [if_neg fun h ↦ of_decide_eq_true hne (hfirst.trans h)]
      · rfl
    · rename_i hkey
      have hkey : first.1 = key := by simpa using hkey
      rw [lookup?_cons, ih, hkey]
      split
      · rfl
      · rename_i hne
        rw [if_neg (Ne.symm hne)]

end Json
end Montage
