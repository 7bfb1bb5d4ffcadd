import Mathlib

namespace EspOwl.Rings

variable {α : Type*} {start capacity count : Nat}

-- What a ring holds: count cells from start on, wrapping at the capacity.
def contents (cells : Nat → α) (start capacity count : Nat) : List α :=
  (List.range count).map fun i => cells ((start + i) % capacity)

-- The cell behind the last one is none of those in use.
theorem slot_free {i : Nat} (inside : i < count) (room : count < capacity) :
    (start + i) % capacity ≠ (start + count) % capacity := by
  intro same
  have divides : capacity ∣ start + count - (start + i) :=
    (Nat.modEq_iff_dvd' (by omega)).mp same
  have little := Nat.le_of_dvd (by omega) divides
  omega

-- Only a whole lap leads back to the start.
theorem lap_iff (inside : start < capacity) (fits : count ≤ capacity) :
    (start + count) % capacity = start ↔ count = 0 ∨ count = capacity := by
  constructor
  · intro same
    by_contra neither
    rw [not_or] at neither
    have apart : (start + 0) % capacity ≠ (start + count) % capacity :=
      slot_free (Nat.pos_of_ne_zero neither.1) (lt_of_le_of_ne fits neither.2)
    rw [Nat.add_zero,Nat.mod_eq_of_lt inside] at apart
    exact apart same.symm
  · rintro (rfl | rfl)
    · exact Nat.mod_eq_of_lt inside
    · rw [Nat.add_mod_right,Nat.mod_eq_of_lt inside]

theorem contents_untouched (cells : Nat → α) {cell : Nat} (unused : ∀ i < count, (start + i) % capacity ≠ cell) (value : α) :
    contents (Function.update cells cell value) start capacity count = contents cells start capacity count := by
  apply List.map_congr_left
  intro i inside
  exact Function.update_of_ne (unused i (List.mem_range.mp inside)) _ _

theorem contents_put (cells : Nat → α) (room : count < capacity) (value : α) :
    contents (Function.update cells ((start + count) % capacity) value) start capacity (count + 1) =
      contents cells start capacity count ++ [value] := by
  rw [contents,List.range_succ,List.map_append,List.map_singleton,Function.update_self]
  congr 1
  exact contents_untouched cells (fun i inside => slot_free inside room) value

theorem contents_get (cells : Nat → α) (inside : start < capacity) (count : Nat) :
    contents cells start capacity (count + 1) =
      cells start :: contents cells ((start + 1) % capacity) capacity count := by
  rw [contents,List.range_succ_eq_map,List.map_cons,List.map_map,Nat.add_zero,Nat.mod_eq_of_lt inside]
  congr 1
  apply List.map_congr_left
  intro i _
  rw [Function.comp_apply,Nat.mod_add_mod,Nat.add_assoc,Nat.add_comm 1 i]

-- A cell put before the first one.
theorem contents_prepend (cells : Nat → α) (inside : start < capacity) (room : count < capacity) (value : α) :
    contents (Function.update cells start value) start capacity (count + 1) =
      value :: contents cells ((start + 1) % capacity) capacity count := by
  rw [contents_get _ inside,Function.update_self]
  congr 1
  refine contents_untouched cells (fun i used => ?_) value
  have apart : (start + 0) % capacity ≠ (start + (i + 1)) % capacity := slot_free (Nat.succ_pos i) (by omega)
  rw [Nat.add_zero,Nat.mod_eq_of_lt inside] at apart
  rw [Nat.mod_add_mod,Nat.add_assoc,Nat.add_comm 1 i]
  exact apart.symm

theorem contents_set (cells : Nat → α) {k : Nat} (used : k < count) (fits : count ≤ capacity) (value : α) :
    contents (Function.update cells ((start + k) % capacity) value) start capacity count =
      (contents cells start capacity count).set k value := by
  apply List.ext_getElem (by simp [contents])
  intro i inside _
  rw [contents,List.length_map,List.length_range] at inside
  simp only [contents,List.getElem_map,List.getElem_range,List.getElem_set]
  rcases Nat.lt_trichotomy i k with before | rfl | behind
  · rw [if_neg (by omega),Function.update_of_ne (slot_free before (by omega))]
  · rw [if_pos rfl,Function.update_self]
  · rw [if_neg (by omega),Function.update_of_ne (slot_free behind (by omega)).symm]

theorem contents_getElem (cells : Nat → α) (start capacity : Nat) {k : Nat} (used : k < count) :
    (contents cells start capacity count)[k]? = some (cells ((start + k) % capacity)) := by
  rw [contents,List.getElem?_map,List.getElem?_range used]
  rfl

end EspOwl.Rings
