import EspOwl.SlotArrays

namespace EspOwl.Hashmap
open SlotArrays

inductive MapStatus where
  | ok
  | omem
  | full
  | missing
deriving DecidableEq, Repr

-- hashmap_map. A slot with in_use = 0 has NULL key and data, so it is `none`.
-- table_size is the length of the calloc'ed array. calloc fails long before
-- 2 * table_size overflows an int, so sizes are unbounded here.
structure HashmapMap (K V : Type) where
  size : Nat
  data : List (Option (K × V))
deriving DecidableEq, Repr, Inhabited

def initialSize : Nat := 256
def maxChainLength : Nat := 8

def calloc : List Bool → Bool × List Bool
  | [] => (true,[])
  | outcome :: later => (outcome,later)

structure PutRun (K V : Type) where
  status : MapStatus
  map : HashmapMap K V
  callocs : List Bool

variable {K V : Type} {σ : Type*}

namespace HashmapMap

def tableSize (m : HashmapMap K V) : Nat := m.data.length

def entries (m : HashmapMap K V) : List (K × V) := SlotArrays.entries m.data

def keys (m : HashmapMap K V) : List K := m.entries.map Prod.fst

def store (m : HashmapMap K V) (index : Nat) (key : K) (value : V) : HashmapMap K V :=
  ⟨m.size + 1,m.data.set index (some (key,value))⟩

def clear (m : HashmapMap K V) (index : Nat) : HashmapMap K V :=
  ⟨m.size - 1,m.data.set index none⟩

def assign (m : HashmapMap K V) (index : Nat) (key : K) (value : V) : HashmapMap K V :=
  ⟨m.size,m.data.set index (some (key,value))⟩

end HashmapMap

def hashmapNew : HashmapMap K V := ⟨0,List.replicate initialSize none⟩

def hashmapLength (m : HashmapMap K V) : Nat := m.size

variable [DecidableEq K] (hash : K → UInt64)

def hashmapHashInt (m : HashmapMap K V) (key : K) : Nat := (hash key).toNat % m.tableSize

def sameKey (key : K) : Option (K × V) → Bool
  | none => false
  | some (held,_) => held = key

def hashmapHash (m : HashmapMap K V) (key : K) : Option Nat :=
  if m.size ≥ m.tableSize / 2 then none
  else probe (fun slot => slot.isNone || sameKey key slot) m.data maxChainLength (hashmapHashInt hash m key)

def hashmapReinsert (put : HashmapMap K V → List Bool → K → V → Option (PutRun K V)) :
    List (Option (K × V)) → HashmapMap K V → List Bool → Option (PutRun K V)
  | [],m,callocs => some ⟨.ok,m,callocs⟩
  | none :: rest,m,callocs => hashmapReinsert put rest m callocs
  | some (key,value) :: rest,m,callocs =>
    match put m callocs key value with
    | none => none
    | some run =>
      if run.status = .ok then hashmapReinsert put rest run.map run.callocs
      else some run

def hashmapRehash (put : HashmapMap K V → List Bool → K → V → Option (PutRun K V))
    (m : HashmapMap K V) (callocs : List Bool) : Option (PutRun K V) :=
  match calloc callocs with
  | (false,later) => some ⟨.omem,m,later⟩
  | (true,later) => hashmapReinsert put m.data ⟨0,List.replicate (2 * m.tableSize) none⟩ later

-- The while loop of hashmap_put re-enters with the rehashed map. It need not end
-- (nine keys of one hash value), so the nesting is bounded by fuel; `none` means
-- that the bound was reached.
def hashmapPut : Nat → HashmapMap K V → List Bool → K → V → Option (PutRun K V)
  | 0,_,_,_,_ => none
  | fuel+1,m,callocs,key,value =>
    match hashmapHash hash m key with
    | some index => some ⟨.ok,m.store index key value,callocs⟩
    | none =>
      match hashmapRehash (hashmapPut fuel) m callocs with
      | none => none
      | some run =>
        if run.status = .omem then some run
        else hashmapPut fuel run.map run.callocs key value

def hashmapFind (m : HashmapMap K V) (key : K) : Option Nat :=
  probe (sameKey key) m.data maxChainLength (hashmapHashInt hash m key)

def hashmapGet (m : HashmapMap K V) (key : K) (remove : Bool) : MapStatus × Option V × HashmapMap K V :=
  match hashmapFind hash m key with
  | none => (.missing,none,m)
  | some index =>
    match m.data[index]? with
    | some (some (_,value)) => (.ok,some value,if remove then m.clear index else m)
    | _ => (.missing,none,m)

structure HashmapIt where
  i : Int
deriving DecidableEq, Repr

def hashmapItNew : HashmapIt := ⟨-1⟩

def hashmapItNext (m : HashmapMap K V) (it : HashmapIt) : MapStatus × HashmapIt × Option (K × V) :=
  let start := (it.i + 1).toNat
  match nextUsed (m.data.drop start) start with
  | some (index,entry) => (.ok,⟨index⟩,some entry)
  | none => (.missing,⟨max start m.tableSize⟩,none)

def hashmapItRemove (m : HashmapMap K V) (it : HashmapIt) : MapStatus × HashmapMap K V :=
  if it.i < 0 ∨ it.i ≥ m.tableSize then (.missing,m)
  else
    match m.data[it.i.toNat]? with
    | some (some _) => (.ok,m.clear it.i.toNat)
    | _ => (.missing,m)

-- while (hashmap_it_next(it, ..) == MAP_OK) body. No body in the program changes
-- the table size, so one more round than there are slots reaches the end.
def hashmapWalk (body : HashmapIt → HashmapMap K V → K × V → σ → HashmapMap K V × σ) :
    Nat → HashmapIt → HashmapMap K V → σ → HashmapMap K V × σ
  | 0,_,m,s => (m,s)
  | rounds+1,it,m,s =>
    match hashmapItNext m it with
    | (.ok,at_entry,some entry) =>
      hashmapWalk body rounds at_entry (body at_entry m entry s).1 (body at_entry m entry s).2
    | _ => (m,s)

def hashmapIterate (body : HashmapIt → HashmapMap K V → K × V → σ → HashmapMap K V × σ)
    (m : HashmapMap K V) (s : σ) : HashmapMap K V × σ :=
  hashmapWalk body (m.tableSize + 1) hashmapItNew m s

end EspOwl.Hashmap
