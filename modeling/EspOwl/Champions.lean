import Mathlib

namespace EspOwl.Champions

variable {α β : Type*} [LinearOrder β] (rank : α → β)

-- One pass that keeps the best so far. Of equals the first one stays.
def challenge (holder challenger : α) : α := if rank holder < rank challenger then challenger else holder

def champion (start : α) (field : List α) : α := field.foldl (challenge rank) start

theorem champion_argmax (start : α) (field : List α) :
    (start :: field).argmax rank = some (champion rank start field) := by
  have pass : ∀ (rest : List α) holder,
      rest.foldl (List.argAux fun b c => rank c < rank b) (some holder) = some (champion rank holder rest) := by
    intro rest
    induction rest with
    | nil => intro holder; rfl
    | cons a rest ih =>
      intro holder
      rw [List.foldl_cons,List.argAux,champion,List.foldl_cons,challenge]
      dsimp only
      split <;> exact ih _
  exact pass field start

variable {start : α} {field : List α}

theorem champion_mem (start : α) (field : List α) : champion rank start field ∈ start :: field :=
  List.argmax_mem (champion_argmax rank start field)

theorem champion_rank (contends : a ∈ start :: field) : rank a ≤ rank (champion rank start field) :=
  List.le_of_mem_argmax contends (champion_argmax rank start field)

-- The start gives way only to somebody strictly better.
theorem champion_strict (replaced : champion rank start field ≠ start) :
    rank start < rank (champion rank start field) := by
  classical
  by_contra notBetter
  have first := List.index_of_argmax (champion_argmax rank start field) List.mem_cons_self
    (not_lt.mp notBetter)
  rw [List.idxOf_cons_self,Nat.le_zero,List.idxOf_cons_ne _ replaced.symm] at first
  omega

end EspOwl.Champions
