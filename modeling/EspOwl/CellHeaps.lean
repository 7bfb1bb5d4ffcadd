import Mathlib

namespace EspOwl.CellHeaps

variable {α : Type*}

-- Cells of one type, each allocated or not. Addresses are given out in order and never
-- a second time.
structure Cells (α : Type*) where
  live : Nat → Option α
  next : Nat

-- A use of memory that is not allocated, or no longer.
inductive Fault where
  | read (address : Nat)
  | write (address : Nat)
  | free (address : Nat)
deriving DecidableEq, Repr

@[simp] theorem ok_bind {A B : Type} (a : A) (next : A → Except Fault B) : (Except.ok a >>= next) = next a := rfl

@[simp] theorem ok_pure {A : Type} (a : A) : (pure a : Except Fault A) = .ok a := rfl

namespace Cells

def empty : Cells α := ⟨fun _ => none,0⟩

def alloc (cells : Cells α) (a : α) : Cells α :=
  ⟨Function.update cells.live cells.next (some a),cells.next + 1⟩

def read (cells : Cells α) (address : Nat) : Except Fault α :=
  match cells.live address with
  | none => .error (.read address)
  | some a => .ok a

def put (cells : Cells α) (address : Nat) (content : Option α) : Cells α :=
  {cells with live := Function.update cells.live address content}

def write (cells : Cells α) (address : Nat) (a : α) : Except Fault (Cells α) :=
  match cells.live address with
  | none => .error (.write address)
  | some _ => .ok (cells.put address (some a))

def free (cells : Cells α) (address : Nat) : Except Fault (Cells α) :=
  match cells.live address with
  | none => .error (.free address)
  | some _ => .ok (cells.put address none)

def Bounded (cells : Cells α) : Prop := ∀ address, cells.next ≤ address → cells.live address = none

variable {cells : Cells α} {address : Nat} {a : α}

theorem read_live (held : cells.live address = some a) : cells.read address = .ok a := by
  rw [read,held]

theorem write_live (held : cells.live address = some a) (b : α) :
    cells.write address b = .ok (cells.put address (some b)) := by
  rw [write,held]

theorem free_live (held : cells.live address = some a) : cells.free address = .ok (cells.put address none) := by
  rw [free,held]

@[simp] theorem put_self (cells : Cells α) (address : Nat) (content : Option α) :
    (cells.put address content).live address = content := Function.update_self ..

theorem put_other (cells : Cells α) (content : Option α) (other : q ≠ address) :
    (cells.put address content).live q = cells.live q := Function.update_of_ne other ..

@[simp] theorem alloc_self (cells : Cells α) (a : α) : (cells.alloc a).live cells.next = some a :=
  Function.update_self ..

theorem alloc_other (cells : Cells α) (a : α) (other : q ≠ cells.next) : (cells.alloc a).live q = cells.live q :=
  Function.update_of_ne other ..

theorem empty_bounded : (empty : Cells α).Bounded := fun _ _ => rfl

theorem Bounded.below (bounded : cells.Bounded) (held : cells.live address = some a) : address < cells.next := by
  by_contra beyond
  rw [bounded address (not_lt.mp beyond)] at held
  cases held

-- A cell that was allocated before is not the new one.
theorem Bounded.alloc_keeps (bounded : cells.Bounded) (held : cells.live address = some a) (b : α) :
    (cells.alloc b).live address = some a := by
  rw [alloc_other _ _ (bounded.below held).ne,held]

theorem Bounded.alloc (bounded : cells.Bounded) (a : α) : (cells.alloc a).Bounded := by
  intro q beyond
  have above : cells.next < q := beyond
  rw [alloc_other _ _ above.ne']
  exact bounded q above.le

theorem Bounded.put (bounded : cells.Bounded) (held : cells.live address = some a) (content : Option α) :
    (cells.put address content).Bounded := by
  intro q beyond
  have above : cells.next ≤ q := beyond
  rw [put_other _ _ (lt_of_lt_of_le (bounded.below held) above).ne']
  exact bounded q above

theorem put_put (cells : Cells α) (address : Nat) (first second : Option α) :
    (cells.put address first).put address second = cells.put address second := by
  rw [put,put,put,Function.update_idem]

theorem put_same (held : cells.live address = content) : cells.put address content = cells := by
  rw [put,← held,Function.update_eq_self]

theorem alloc_put (cells : Cells α) (a b : α) : (cells.alloc a).put cells.next (some b) = cells.alloc b := by
  rw [put,alloc,alloc,Function.update_idem]

-- The new cell is the only one that an allocation adds.
theorem alloc_cases (held : (cells.alloc a).live q = some b) : q = cells.next ∧ b = a ∨ cells.live q = some b := by
  by_cases here : q = cells.next
  · subst here
    rw [alloc_self] at held
    cases held
    exact .inl ⟨rfl,rfl⟩
  · rw [alloc_other _ _ here] at held
    exact .inr held

end Cells

end EspOwl.CellHeaps
