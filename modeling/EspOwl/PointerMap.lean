import EspOwl.CellHeaps
import EspOwl.HashmapInvariant

namespace EspOwl.PointerMap
open CellHeaps SlotArrays
open Hashmap (HashmapMap PutRun MapStatus HashmapIt calloc maxChainLength hashmapItNext hashmapItRemove sameKey blank)

variable {K : Type} {α : Type}

-- hashmap.c once more, with the pointers that a slot holds: the key is compared and
-- hashed where it lies, in a cell that somebody else allocates and frees.
abbrev Pointers := HashmapMap Nat Nat

section Code
variable [DecidableEq K] (hash : K → UInt64) (keyOf : α → K) (cells : Cells α)

-- Whether the probing loop stops at a slot. Only a slot in use has its key read.
def stopsAt (stop : Option K → Bool) : Option (Nat × Nat) → Except Fault Bool
  | none => .ok (stop none)
  | some (key,_) => (cells.read key).map fun held => stop (some (keyOf held))

def probeKeys (stop : Option K → Bool) (slots : List (Option (Nat × Nat))) : Nat → Nat → Except Fault (Option Nat)
  | 0,_ => .ok none
  | width+1,position =>
    match slots[position]? with
    | none => .ok none
    | some slot =>
      match stopsAt keyOf cells stop slot with
      | .error fault => .error fault
      | .ok true => .ok (some position)
      | .ok false => probeKeys stop slots width ((position+1) % slots.length)

def hashmapHash (m : Pointers) (key : Nat) : Except Fault (Option Nat) :=
  if m.size ≥ m.tableSize / 2 then .ok none
  else
    match cells.read key with
    | .error fault => .error fault
    | .ok held => probeKeys keyOf cells (fun slot => slot.isNone || slot == some (keyOf held)) m.data maxChainLength
        ((hash (keyOf held)).toNat % m.tableSize)

def hashmapReinsert (put : Pointers → List Bool → Nat → Nat → Except Fault (Option (PutRun Nat Nat))) :
    List (Option (Nat × Nat)) → Pointers → List Bool → Except Fault (Option (PutRun Nat Nat))
  | [],m,callocs => .ok (some ⟨.ok,m,callocs⟩)
  | none :: rest,m,callocs => hashmapReinsert put rest m callocs
  | some (key,data) :: rest,m,callocs =>
    match put m callocs key data with
    | .error fault => .error fault
    | .ok none => .ok none
    | .ok (some run) =>
      if run.status = .ok then hashmapReinsert put rest run.map run.callocs else .ok (some run)

def hashmapRehash (put : Pointers → List Bool → Nat → Nat → Except Fault (Option (PutRun Nat Nat))) (m : Pointers)
    (callocs : List Bool) : Except Fault (Option (PutRun Nat Nat)) :=
  match calloc callocs with
  | (false,later) => .ok (some ⟨.omem,m,later⟩)
  | (true,later) => hashmapReinsert put m.data (blank m) later

-- As in the table of values, `none` means that the rehashes nest deeper than the fuel.
def hashmapPut : Nat → Pointers → List Bool → Nat → Nat → Except Fault (Option (PutRun Nat Nat))
  | 0,_,_,_,_ => .ok none
  | fuel+1,m,callocs,key,data =>
    match hashmapHash hash keyOf cells m key with
    | .error fault => .error fault
    | .ok (some index) => .ok (some ⟨.ok,m.store index key data,callocs⟩)
    | .ok none =>
      match hashmapRehash (hashmapPut fuel) m callocs with
      | .error fault => .error fault
      | .ok none => .ok none
      | .ok (some run) =>
        if run.status = .omem then .ok (some run) else hashmapPut fuel run.map run.callocs key data

-- The key of a lookup is the caller's.
def hashmapGet (m : Pointers) (key : K) (remove : Bool) : Except Fault (MapStatus × Option Nat × Pointers) :=
  match probeKeys keyOf cells (fun slot => slot == some key) m.data maxChainLength
      ((hash key).toNat % m.tableSize) with
  | .error fault => .error fault
  | .ok none => .ok (.missing,none,m)
  | .ok (some index) =>
    match m.data[index]? with
    | some (some (_,data)) => .ok (.ok,some data,if remove then m.clear index else m)
    | _ => .ok (.missing,none,m)

end Code

section Mirroring
variable {hash : K → UInt64} {keyOf : α → K} {cells : Cells α}

-- A slot of pointers, and the slot that has them as the value of the key they point to.
-- The key can be read.
inductive SlotMirrors (keyOf : α → K) (cells : Cells α) : Option (Nat × Nat) → Option (K × Nat × Nat) → Prop where
  | free : SlotMirrors keyOf cells none none
  | used (held : cells.live key = some a) : SlotMirrors keyOf cells (some (key,data)) (some (keyOf a,key,data))

structure Mirrors (keyOf : α → K) (cells : Cells α) (p : Pointers) (m : HashmapMap K (Nat × Nat)) : Prop where
  size : p.size = m.size
  slots : List.Forall₂ (SlotMirrors keyOf cells) p.data m.data

theorem Mirrors.table (mirrors : Mirrors keyOf cells p m) : p.tableSize = m.tableSize := mirrors.slots.length_eq

theorem forall₂_get (slots : List.Forall₂ (SlotMirrors keyOf cells) left right) (i : Nat) :
    left[i]? = none ∧ right[i]? = none ∨
      ∃ a b, left[i]? = some a ∧ right[i]? = some b ∧ SlotMirrors keyOf cells a b := by
  induction slots generalizing i with
  | nil => exact .inl ⟨rfl,rfl⟩
  | cons here _ ih =>
    cases i with
    | zero => exact .inr ⟨_,_,rfl,rfl,here⟩
    | succ i => exact ih i

theorem forall₂_set (slots : List.Forall₂ (SlotMirrors keyOf cells) left right) (i : Nat)
    (slot : SlotMirrors keyOf cells a b) : List.Forall₂ (SlotMirrors keyOf cells) (left.set i a) (right.set i b) := by
  induction slots generalizing i with
  | nil => exact .nil
  | cons here rest ih =>
    cases i with
    | zero => exact .cons slot rest
    | succ i => exact .cons here (ih i)

theorem forall₂_blank (n : Nat) :
    List.Forall₂ (SlotMirrors keyOf cells) (List.replicate n none) (List.replicate n none) := by
  induction n with
  | zero => exact .nil
  | succ n ih => exact .cons .free ih

theorem blank_mirrors (mirrors : Mirrors keyOf cells p m) : Mirrors keyOf cells (blank p) (blank m) := by
  refine ⟨rfl,?_⟩
  unfold blank
  rw [mirrors.table]
  exact forall₂_blank _

theorem Mirrors.store (mirrors : Mirrors keyOf cells p m) (held : cells.live key = some a) (i data : Nat) :
    Mirrors keyOf cells (p.store i key data) (m.store i (keyOf a) (key,data)) :=
  ⟨congrArg (· + 1) mirrors.size,forall₂_set mirrors.slots i (.used held)⟩

theorem Mirrors.clear (mirrors : Mirrors keyOf cells p m) (i : Nat) : Mirrors keyOf cells (p.clear i) (m.clear i) :=
  ⟨congrArg (· - 1) mirrors.size,forall₂_set mirrors.slots i .free⟩

-- A probe reads keys, and all of them can be read.
theorem probe_mirrors (slots : List.Forall₂ (SlotMirrors keyOf cells) left right) (stop : Option K → Bool)
    (width position : Nat) : probeKeys keyOf cells stop left width position =
      .ok (probe (fun slot => stop (slot.map Prod.fst)) right width position) := by
  induction width generalizing position with
  | zero => rfl
  | succ width ih =>
    rw [probeKeys,probe]
    rcases forall₂_get slots position with ⟨first,second⟩ | ⟨a,b,first,second,slot⟩
    · rw [first,second]
    · have answer : stopsAt keyOf cells stop a = .ok (stop (b.map Prod.fst)) := by
        cases slot with
        | free => rfl
        | used held =>
          rw [stopsAt,Cells.read_live held]
          rfl
      rw [first,second]
      dsimp only
      rw [answer,← slots.length_eq]
      cases stop (b.map Prod.fst) with
      | true => rfl
      | false => exact ih _

theorem hash_mirrors [DecidableEq K] (mirrors : Mirrors keyOf cells p m) (held : cells.live key = some a) :
    hashmapHash hash keyOf cells p key = .ok (Hashmap.hashmapHash hash m (keyOf a)) := by
  unfold hashmapHash Hashmap.hashmapHash
  rw [mirrors.size,mirrors.table,Cells.read_live held]
  split
  · rfl
  · have stops : (fun slot : Option (K × Nat × Nat) => (slot.map Prod.fst).isNone || slot.map Prod.fst == some (keyOf a)) =
        fun slot => slot.isNone || sameKey (keyOf a) slot := by
      funext slot
      cases slot <;> simp [sameKey,beq_eq_decide]
    dsimp only
    rw [probe_mirrors mirrors.slots,stops]
    rfl

-- What a call on pointers comes to, and the same call on the map that it mirrors.
inductive Answered (keyOf : α → K) (cells : Cells α) :
    Except Fault (Option (PutRun Nat Nat)) → Option (PutRun K (Nat × Nat)) → Prop where
  | endless : Answered keyOf cells (.ok none) none
  | ran (mirrors : Mirrors keyOf cells p m) :
      Answered keyOf cells (.ok (some ⟨status,p,callocs⟩)) (some ⟨status,m,callocs⟩)

def PutMirrors (keyOf : α → K) (cells : Cells α)
    (put : Pointers → List Bool → Nat → Nat → Except Fault (Option (PutRun Nat Nat)))
    (model : HashmapMap K (Nat × Nat) → List Bool → K → Nat × Nat → Option (PutRun K (Nat × Nat))) : Prop :=
  ∀ p m callocs key a data, Mirrors keyOf cells p m → cells.live key = some a →
    Answered keyOf cells (put p callocs key data) (model m callocs (keyOf a) (key,data))

theorem reinsert_mirrors {put : Pointers → List Bool → Nat → Nat → Except Fault (Option (PutRun Nat Nat))}
    {model : HashmapMap K (Nat × Nat) → List Bool → K → Nat × Nat → Option (PutRun K (Nat × Nat))} (each : PutMirrors keyOf cells put model)
    (slots : List.Forall₂ (SlotMirrors keyOf cells) left right) (mirrors : Mirrors keyOf cells p m)
    (callocs : List Bool) :
    Answered keyOf cells (hashmapReinsert put left p callocs) (Hashmap.hashmapReinsert model right m callocs) := by
  induction slots generalizing p m callocs with
  | nil => exact .ran mirrors
  | cons slot _ ih =>
    cases slot with
    | free => exact ih mirrors callocs
    | used held =>
      rename_i key a data
      have one := each p m callocs key a data mirrors held
      rw [hashmapReinsert,Hashmap.hashmapReinsert]
      revert one
      generalize put p callocs key data = first
      generalize model m callocs (keyOf a) (key,data) = second
      intro one
      cases one with
      | endless => exact .endless
      | ran after =>
        dsimp only
        split
        · exact ih after _
        · exact .ran after

theorem put_mirrors [DecidableEq K] (fuel : Nat) :
    PutMirrors keyOf cells (hashmapPut hash keyOf cells fuel) (Hashmap.hashmapPut hash fuel) := by
  induction fuel with
  | zero => exact fun _ _ _ _ _ _ _ _ => .endless
  | succ fuel ih =>
    intro p m callocs key a data mirrors held
    rw [hashmapPut,Hashmap.hashmapPut,hash_mirrors mirrors held]
    cases Hashmap.hashmapHash hash m (keyOf a) with
    | some index => exact .ran (mirrors.store held index data)
    | none =>
      dsimp only
      have moved : Answered keyOf cells (hashmapRehash (hashmapPut hash keyOf cells fuel) p callocs)
          (Hashmap.hashmapRehash (Hashmap.hashmapPut hash fuel) m callocs) := by
        unfold hashmapRehash Hashmap.hashmapRehash
        rcases calloc callocs with ⟨_ | _,later⟩
        · exact .ran mirrors
        · exact reinsert_mirrors ih mirrors.slots (blank_mirrors mirrors) later
      revert moved
      generalize hashmapRehash (hashmapPut hash keyOf cells fuel) p callocs = first
      generalize Hashmap.hashmapRehash (Hashmap.hashmapPut hash fuel) m callocs = second
      intro moved
      cases moved with
      | endless => exact .endless
      | ran after =>
        dsimp only
        split
        · exact .ran after
        · exact ih _ _ _ _ _ _ after held

-- A lookup hands out the data pointer of the mirrored map.
theorem get_mirrors [DecidableEq K] (mirrors : Mirrors keyOf cells p m) (key : K) (remove : Bool) :
    ∃ after, hashmapGet hash keyOf cells p key remove =
        .ok ((Hashmap.hashmapGet hash m key remove).1,(Hashmap.hashmapGet hash m key remove).2.1.map Prod.snd,after) ∧
      Mirrors keyOf cells after (Hashmap.hashmapGet hash m key remove).2.2 := by
  have found : probeKeys keyOf cells (fun slot => slot == some key) p.data maxChainLength
      ((hash key).toNat % p.tableSize) = .ok (Hashmap.hashmapFind hash m key) := by
    have stops : (fun slot : Option (K × Nat × Nat) => slot.map Prod.fst == some key) = sameKey key := by
      funext slot
      cases slot <;> simp [sameKey,beq_eq_decide]
    rw [probe_mirrors mirrors.slots,mirrors.table,stops]
    rfl
  unfold hashmapGet Hashmap.hashmapGet
  rw [found]
  cases Hashmap.hashmapFind hash m key with
  | none => exact ⟨p,rfl,mirrors⟩
  | some index =>
    dsimp only
    rcases forall₂_get mirrors.slots index with ⟨first,second⟩ | ⟨_,_,first,second,slot⟩
    · rw [first,second]
      exact ⟨p,rfl,mirrors⟩
    · rw [first,second]
      cases slot with
      | free => exact ⟨p,rfl,mirrors⟩
      | used held =>
        refine ⟨_,rfl,?_⟩
        cases remove with
        | false => exact mirrors
        | true => exact mirrors.clear index

-- The iterator reads no key.
theorem nextUsed_mirrors (slots : List.Forall₂ (SlotMirrors keyOf cells) left right) (position : Nat) :
    nextUsed left position = none ∧ nextUsed right position = none ∨
      ∃ i key data a, nextUsed left position = some (i,(key,data)) ∧ nextUsed right position = some (i,(keyOf a,key,data)) ∧
        cells.live key = some a := by
  induction slots generalizing position with
  | nil => exact .inl ⟨rfl,rfl⟩
  | cons slot _ ih =>
    cases slot with
    | free => exact ih _
    | used held => exact .inr ⟨_,_,_,_,rfl,rfl,held⟩

theorem itNext_mirrors (mirrors : Mirrors keyOf cells p m) (it : HashmapIt) :
    (∃ next, hashmapItNext p it = (.missing,next,none) ∧ hashmapItNext m it = (.missing,next,none)) ∨
      ∃ next key data a, hashmapItNext p it = (.ok,next,some (key,data)) ∧
        hashmapItNext m it = (.ok,next,some (keyOf a,key,data)) ∧ cells.live key = some a := by
  unfold hashmapItNext
  dsimp only
  rw [mirrors.table]
  rcases nextUsed_mirrors (List.forall₂_drop (it.i + 1).toNat mirrors.slots) (it.i + 1).toNat with
    ⟨first,second⟩ | ⟨i,key,data,a,first,second,held⟩
  · rw [first,second]
    exact .inl ⟨_,rfl,rfl⟩
  · rw [first,second]
    exact .inr ⟨_,_,_,_,rfl,rfl,held⟩

theorem itRemove_mirrors (mirrors : Mirrors keyOf cells p m) (it : HashmapIt) :
    (hashmapItRemove p it).1 = (hashmapItRemove m it).1 ∧
      Mirrors keyOf cells (hashmapItRemove p it).2 (hashmapItRemove m it).2 := by
  unfold hashmapItRemove
  rw [mirrors.table]
  split
  · exact ⟨rfl,mirrors⟩
  · rcases forall₂_get mirrors.slots it.i.toNat with ⟨first,second⟩ | ⟨_,_,first,second,slot⟩
    · rw [first,second]
      exact ⟨rfl,mirrors⟩
    · rw [first,second]
      cases slot with
      | free => exact ⟨rfl,mirrors⟩
      | used held => exact ⟨rfl,mirrors.clear _⟩

-- An entry of the table names its key.
theorem forall₂_entry (slots : List.Forall₂ (SlotMirrors keyOf cells) left right)
    (member : (name,key,data) ∈ entries right) : ∃ a, cells.live key = some a ∧ keyOf a = name := by
  induction slots with
  | nil => cases member
  | cons slot _ ih =>
    cases slot with
    | free => exact ih member
    | used held =>
      rw [entries_used] at member
      rcases List.mem_cons.mp member with here | later
      · cases here
        exact ⟨_,held,rfl⟩
      · exact ih later

theorem Mirrors.entry (mirrors : Mirrors keyOf cells p m) (member : (name,key,data) ∈ m.entries) :
    ∃ a, cells.live key = some a ∧ keyOf a = name := forall₂_entry mirrors.slots member

theorem forall₂_count (slots : List.Forall₂ (SlotMirrors keyOf cells) left right) :
    (entries left).length = (entries right).length := by
  induction slots with
  | nil => rfl
  | cons slot _ ih =>
    cases slot with
    | free => exact ih
    | used held => exact congrArg (· + 1) ih

theorem Mirrors.count (mirrors : Mirrors keyOf cells p m) : p.entries.length = m.entries.length :=
  forall₂_count mirrors.slots

theorem forall₂_frame (slots : List.Forall₂ (SlotMirrors keyOf cells) left right)
    (kept : ∀ name key data a, (name,key,data) ∈ entries right → cells.live key = some a →
      ∃ b, after.live key = some b ∧ keyOf b = keyOf a) : List.Forall₂ (SlotMirrors keyOf after) left right := by
  induction slots with
  | nil => exact .nil
  | cons slot _ ih =>
    cases slot with
    | free => exact .cons .free (ih kept)
    | used held =>
      rw [entries_used] at kept
      obtain ⟨b,still,same⟩ := kept _ _ _ _ List.mem_cons_self held
      rw [← same]
      exact .cons (.used still) (ih fun name key data a member => kept name key data a (List.mem_cons_of_mem _ member))

-- Cells may change as long as the keys in the table stay readable and the same.
theorem Mirrors.frame (mirrors : Mirrors keyOf cells p m)
    (kept : ∀ name key data a, (name,key,data) ∈ m.entries → cells.live key = some a →
      ∃ b, after.live key = some b ∧ keyOf b = keyOf a) : Mirrors keyOf after p m :=
  ⟨mirrors.size,forall₂_frame mirrors.slots kept⟩

end Mirroring

end EspOwl.PointerMap
