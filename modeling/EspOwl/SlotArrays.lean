import Mathlib

namespace EspOwl.SlotArrays

variable {α : Type*}

-- An array of slots, each free (`none`) or holding one entry. The entries in
-- slot order are what an iterator over the array meets.
def entries (slots : List (Option α)) : List α := slots.reduceOption

@[simp] theorem entries_nil : entries ([] : List (Option α)) = [] := rfl
@[simp] theorem entries_free (rest : List (Option α)) : entries (none :: rest) = entries rest := rfl
@[simp] theorem entries_used (a : α) (rest : List (Option α)) :
    entries (some a :: rest) = a :: entries rest := rfl

theorem entries_append (left right : List (Option α)) :
    entries (left ++ right) = entries left ++ entries right := List.reduceOption_append _ _

theorem entries_empty (n : Nat) : entries (List.replicate n (none : Option α)) = [] := by
  induction n with
  | zero => rfl
  | succ n ih => simpa [List.replicate_succ] using ih

theorem mem_entries {slots : List (Option α)} {a : α} :
    a ∈ entries slots ↔ ∃ i : Nat, slots[i]? = some (some a) := by
  rw [entries,List.reduceOption_mem_iff,List.mem_iff_getElem?]

-- Writing one slot leaves the slots around it alone.
theorem set_parts {slots : List (Option α)} {i : Nat} {old : Option α} (at_i : slots[i]? = some old) :
    ∃ left right, slots = left ++ old :: right ∧ left.length = i ∧
      ∀ new, slots.set i new = left ++ new :: right := by
  obtain ⟨inside,rfl⟩ := List.getElem?_eq_some_iff.mp at_i
  refine ⟨slots.take i,slots.drop (i+1),?_,?_,?_⟩
  · simp
  · simpa using Nat.le_of_lt inside
  · intro new
    rw [List.set_eq_take_append_cons_drop,if_pos inside]

theorem entries_fill {slots : List (Option α)} {i : Nat} (free : slots[i]? = some none) (a : α) :
    (entries (slots.set i (some a))).Perm (a :: entries slots) := by
  obtain ⟨left,right,rfl,_,write⟩ := set_parts free
  rw [write,entries_append,entries_append]
  exact List.perm_middle

theorem entries_clear {slots : List (Option α)} {i : Nat} {a : α} (used : slots[i]? = some (some a)) :
    (entries slots).Perm (a :: entries (slots.set i none)) := by
  obtain ⟨left,right,rfl,_,write⟩ := set_parts used
  rw [write,entries_append,entries_append]
  exact List.perm_middle

theorem entries_replace {slots : List (Option α)} {i : Nat} {a : α}
    (used : slots[i]? = some (some a)) (b : α) :
    ∃ left right, entries slots = left ++ a :: right ∧
      entries (slots.set i (some b)) = left ++ b :: right := by
  obtain ⟨left,right,rfl,_,write⟩ := set_parts used
  refine ⟨entries left,entries right,?_,?_⟩
  · rw [entries_append]; rfl
  · rw [write,entries_append]; rfl

-- The positions a circular probe of the given width meets from its base.
def InWindow (width base size i : Nat) : Prop := ∃ j < width, i = (base + j) % size

-- First slot that satisfies `hit` among `width` slots from `position`, wrapping
-- round the end of the array.
def probe (hit : Option α → Bool) (slots : List (Option α)) : Nat → Nat → Option Nat
  | 0,_ => none
  | width+1,position =>
    match slots[position]? with
    | none => none
    | some slot => if hit slot then some position else probe hit slots width ((position+1) % slots.length)

theorem window_step {size base j : Nat} : ((base + 1) % size + j) % size = (base + (j+1)) % size := by
  rw [Nat.mod_add_mod]; ring_nf

theorem probe_sound {hit : Option α → Bool} {slots : List (Option α)}
    (inside : position < slots.length) (found : probe hit slots width position = some i) :
    InWindow width position slots.length i ∧ ∃ slot, slots[i]? = some slot ∧ hit slot = true := by
  induction width generalizing position with
  | zero => simp [probe] at found
  | succ width ih =>
    rw [probe,List.getElem?_eq_getElem inside] at found
    dsimp only at found
    split at found
    · rename_i yes
      cases found
      exact ⟨⟨0,Nat.succ_pos _,by simp [Nat.mod_eq_of_lt inside]⟩,_,List.getElem?_eq_getElem inside,yes⟩
    · obtain ⟨⟨j,small,rfl⟩,rest⟩ := ih (Nat.mod_lt _ (by omega)) found
      refine ⟨⟨j+1,by omega,window_step⟩,rest⟩

theorem probe_complete {hit : Option α → Bool} {slots : List (Option α)}
    (inside : position < slots.length) (missed : probe hit slots width position = none)
    (window : InWindow width position slots.length i) (at_i : slots[i]? = some slot) : hit slot = false := by
  induction width generalizing position with
  | zero => obtain ⟨j,small,_⟩ := window; omega
  | succ width ih =>
    rw [probe,List.getElem?_eq_getElem inside] at missed
    dsimp only at missed
    split at missed
    · cases missed
    · rename_i no
      obtain ⟨j,small,rfl⟩ := window
      cases j with
      | zero =>
        have here : (position + 0) % slots.length = position := by simp [Nat.mod_eq_of_lt inside]
        rw [here,List.getElem?_eq_getElem inside] at at_i
        cases at_i
        simpa using no
      | succ j =>
        exact ih (Nat.mod_lt _ (by omega)) missed ⟨j,by omega,window_step.symm⟩

theorem probe_hit {hit : Option α → Bool} {slots : List (Option α)}
    (found : probe hit slots width position = some i) : ∃ slot, slots[i]? = some slot ∧ hit slot = true := by
  induction width generalizing position with
  | zero => simp [probe] at found
  | succ width ih =>
    rw [probe] at found
    split at found
    · cases found
    · rename_i slot here
      split at found
      · rename_i yes
        cases found
        exact ⟨slot,here,yes⟩
      · exact ih found

-- Only the answers of `hit` matter to a probe.
theorem probe_congr {hit : Option α → Bool} {left right : List (Option α)} (size : left.length = right.length)
    (alike : ∀ i : Nat, left[i]?.map hit = right[i]?.map hit) :
    probe hit left width position = probe hit right width position := by
  induction width generalizing position with
  | zero => rfl
  | succ width ih =>
    have here := alike position
    rw [probe,probe,size]
    cases first : left[position]? with
    | none =>
      rw [first,Option.map_none] at here
      rw [Option.map_eq_none_iff.mp here.symm]
    | some slot =>
      rw [first,Option.map_some] at here
      obtain ⟨other,second,same⟩ := Option.map_eq_some_iff.mp here.symm
      simp only [second,same,ih]

-- A narrower question stops at the same slot once that slot answers it.
theorem probe_set {hit wanted : Option α → Bool} {slots : List (Option α)}
    (found : probe hit slots width position = some i) (narrower : ∀ slot, wanted slot = true → hit slot = true)
    (answers : wanted slot = true) : probe wanted (slots.set i slot) width position = some i := by
  induction width generalizing position with
  | zero => simp [probe] at found
  | succ width ih =>
    rw [probe] at found ⊢
    rw [List.length_set]
    split at found
    · cases found
    · rename_i held here
      have inside : position < slots.length := (List.getElem?_eq_some_iff.mp here).1
      split at found
      · cases found
        rw [List.getElem?_set_self inside]
        simp [answers]
      · rename_i no
        obtain ⟨last,at_i,yes⟩ := probe_hit found
        have other : i ≠ position := by
          rintro rfl
          rw [here] at at_i
          cases at_i
          exact no yes
        have unwanted : ¬ wanted held = true := fun want => no (narrower held want)
        rw [List.getElem?_set_ne other,here]
        simp only [if_neg unwanted]
        exact ih found

-- Position and content of the first used slot at or after `position`, given the
-- slots from there on.
def nextUsed : List (Option α) → Nat → Option (Nat × α)
  | [],_ => none
  | some a :: _,position => some (position,a)
  | none :: rest,position => nextUsed rest (position+1)

theorem nextUsed_none {slots : List (Option α)} (missed : nextUsed slots position = none) :
    entries slots = [] := by
  induction slots generalizing position with
  | nil => rfl
  | cons slot rest ih =>
    cases slot with
    | none => exact ih missed
    | some a => simp [nextUsed] at missed

theorem free_slots {slots : List (Option α)} (empty : entries slots = []) :
    slots = List.replicate slots.length none := by
  rw [List.eq_replicate_iff]
  refine ⟨rfl,?_⟩
  intro slot member
  cases slot with
  | none => rfl
  | some a =>
    have held : a ∈ entries slots := List.reduceOption_mem_iff.mpr member
    rw [empty] at held
    cases held

theorem nextUsed_some {slots : List (Option α)} (found : nextUsed slots position = some (i,a)) :
    ∃ skipped, slots = List.replicate skipped none ++ some a :: slots.drop (skipped+1) ∧
      i = position + skipped := by
  induction slots generalizing position with
  | nil => simp [nextUsed] at found
  | cons slot rest ih =>
    cases slot with
    | some b =>
      simp only [nextUsed,Option.some.injEq,Prod.mk.injEq] at found
      obtain ⟨rfl,rfl⟩ := found
      exact ⟨0,by simp,rfl⟩
    | none =>
      obtain ⟨skipped,shape,place⟩ := ih found
      refine ⟨skipped+1,?_,by omega⟩
      rw [List.replicate_succ,List.cons_append,List.drop_succ_cons,← shape]

-- One pass over the slots that may free the slot it stands on. `judge` sees what
-- the pass has accumulated and says whether to free the entry.
def sweep (judge : σ → α → Bool × σ) : σ → List (Option α) → List (Option α) × σ
  | s,[] => ([],s)
  | s,none :: rest => (none :: (sweep judge s rest).1,(sweep judge s rest).2)
  | s,some a :: rest =>
    ((if (judge s a).1 then none else some a) :: (sweep judge (judge s a).2 rest).1,
      (sweep judge (judge s a).2 rest).2)

-- The same pass over a list of entries: the entries kept, and the accumulator.
def sweepEntries (judge : σ → α → Bool × σ) : σ → List α → List α × σ
  | s,[] => ([],s)
  | s,a :: rest =>
    (if (judge s a).1 then (sweepEntries judge (judge s a).2 rest).1
      else a :: (sweepEntries judge (judge s a).2 rest).1,(sweepEntries judge (judge s a).2 rest).2)

theorem sweep_entries (judge : σ → α → Bool × σ) (s : σ) (slots : List (Option α)) :
    entries (sweep judge s slots).1 = (sweepEntries judge s (entries slots)).1 ∧
      (sweep judge s slots).2 = (sweepEntries judge s (entries slots)).2 := by
  induction slots generalizing s with
  | nil => exact ⟨rfl,rfl⟩
  | cons slot rest ih =>
    cases slot with
    | none => exact ih s
    | some a =>
      obtain ⟨kept,state⟩ := ih (judge s a).2
      cases freed : (judge s a).1 <;> simp [sweep,sweepEntries,freed,kept,state]

theorem sweep_replicate (judge : σ → α → Bool × σ) (s : σ) (n : Nat) (rest : List (Option α)) :
    sweep judge s (List.replicate n none ++ rest) =
      (List.replicate n none ++ (sweep judge s rest).1,(sweep judge s rest).2) := by
  induction n with
  | zero => rfl
  | succ n ih => simp [List.replicate_succ,sweep,ih]

theorem sweepEntries_keep (step : σ → α → σ) (s : σ) (items : List α) :
    sweepEntries (fun s a => (false,step s a)) s items = (items,items.foldl step s) := by
  induction items generalizing s with
  | nil => rfl
  | cons a rest ih => simp [sweepEntries,ih]

end EspOwl.SlotArrays
