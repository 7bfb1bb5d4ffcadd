import EspOwl.HashmapInvariant

namespace EspOwl.Hashmap
open SlotArrays

variable {K V W : Type} {hash : K → UInt64}

-- No operation of the table looks at a value. With every value replaced, all of them
-- answer the same, with the values replaced.
namespace HashmapMap

def mapValues (f : V → W) (m : HashmapMap K V) : HashmapMap K W := ⟨m.size,m.data.map (Option.map (Prod.map id f))⟩

variable (f : V → W) (m : HashmapMap K V)

@[simp] theorem mapValues_size : (m.mapValues f).size = m.size := rfl

@[simp] theorem mapValues_tableSize : (m.mapValues f).tableSize = m.tableSize := List.length_map _

theorem mapValues_get (i : Nat) : (m.mapValues f).data[i]? = m.data[i]?.map (Option.map (Prod.map id f)) :=
  List.getElem?_map ..

theorem mapValues_store (i : Nat) (key : K) (value : V) :
    (m.store i key value).mapValues f = (m.mapValues f).store i key (f value) := by
  unfold mapValues store
  rw [List.map_set]
  rfl

theorem mapValues_clear (i : Nat) : (m.clear i).mapValues f = (m.mapValues f).clear i := by
  unfold mapValues clear
  rw [List.map_set]
  rfl

theorem mapValues_blank : blank (m.mapValues f) = (blank m).mapValues f := by
  unfold blank
  rw [mapValues_tableSize,mapValues,List.map_replicate]
  rfl

theorem mapValues_entries : (m.mapValues f).entries = m.entries.map (Prod.map id f) := by
  unfold entries mapValues SlotArrays.entries
  induction m.data with
  | nil => rfl
  | cons slot rest ih =>
    cases slot with
    | none => exact ih
    | some entry => exact congrArg (List.cons _) ih

theorem mapValues_congr {f g : V → W} {m : HashmapMap K V} (same : ∀ key value, (key,value) ∈ m.entries → f value = g value) :
    m.mapValues f = m.mapValues g := by
  unfold mapValues
  congr 1
  refine List.map_congr_left fun slot member => ?_
  cases slot with
  | none => rfl
  | some entry =>
    have held := same entry.1 entry.2 (List.reduceOption_mem_iff.mpr member)
    simp [Prod.map,held]

-- A change at one slot is a write through its pointer.
theorem mapValues_assign {f g : V → W} {m : HashmapMap K V} (used : m.data[i]? = some (some (key,value)))
    (others : ∀ (j : Nat) name v, j ≠ i → m.data[j]? = some (some (name,v)) → g v = f v) :
    (m.mapValues f).assign i key (g value) = m.mapValues g := by
  unfold mapValues assign
  congr 1
  refine List.ext_getElem? fun j => ?_
  have inside : i < (m.data.map (Option.map (Prod.map id f))).length := by
    rw [List.length_map]
    exact (List.getElem?_eq_some_iff.mp used).1
  by_cases here : i = j
  · subst here
    rw [List.getElem?_set_self inside,List.getElem?_map,used]
    rfl
  · rw [List.getElem?_set_ne here,List.getElem?_map,List.getElem?_map]
    rcases found : m.data[j]? with _ | _ | ⟨name,v⟩
    · rfl
    · rfl
    · simp [Prod.map,others j name v (Ne.symm here) found]

end HashmapMap
open HashmapMap

def PutRun.mapValues (f : V → W) (run : PutRun K V) : PutRun K W := ⟨run.status,run.map.mapValues f,run.callocs⟩

theorem sameKey_mapped [DecidableEq K] (f : V → W) (key : K) (slot : Option (K × V)) :
    sameKey key (slot.map (Prod.map id f)) = sameKey key slot := by
  cases slot <;> rfl

theorem probe_mapValues (f : V → W) (m : HashmapMap K V) {first : Option (K × W) → Bool} {second : Option (K × V) → Bool}
    (alike : ∀ slot, first (slot.map (Prod.map id f)) = second slot) (width position : Nat) :
    probe first (m.mapValues f).data width position = probe second m.data width position := by
  induction width generalizing position with
  | zero => rfl
  | succ width ih =>
    have size : (m.mapValues f).data.length = m.data.length := mapValues_tableSize f m
    rw [probe,probe,mapValues_get,size]
    cases m.data[position]? with
    | none => rfl
    | some slot =>
      dsimp only [Option.map_some]
      rw [alike,ih]

theorem reinsert_mapValues (f : V → W) {put : HashmapMap K V → List Bool → K → V → Option (PutRun K V)}
    {mapped : HashmapMap K W → List Bool → K → W → Option (PutRun K W)}
    (each : ∀ m callocs key value, mapped (m.mapValues f) callocs key (f value) =
      (put m callocs key value).map (PutRun.mapValues f))
    (old : List (Option (K × V))) (m : HashmapMap K V) (callocs : List Bool) :
    hashmapReinsert mapped (old.map (Option.map (Prod.map id f))) (m.mapValues f) callocs =
      (hashmapReinsert put old m callocs).map (PutRun.mapValues f) := by
  induction old generalizing m callocs with
  | nil => rfl
  | cons slot rest ih =>
    cases slot with
    | none => exact ih m callocs
    | some entry =>
      obtain ⟨key,value⟩ := entry
      simp only [List.map_cons,Option.map_some,Prod.map_apply,id_eq,hashmapReinsert,each]
      cases put m callocs key value with
      | none => rfl
      | some run =>
        simp only [Option.map_some]
        change (if run.status = .ok then _ else _) = _
        split
        · exact ih run.map run.callocs
        · rfl

section Calls
variable [DecidableEq K] (f : V → W)

theorem hash_mapValues (m : HashmapMap K V) (key : K) : hashmapHash hash (m.mapValues f) key = hashmapHash hash m key := by
  unfold hashmapHash hashmapHashInt
  rw [mapValues_size,mapValues_tableSize,probe_mapValues]
  intro slot
  rw [sameKey_mapped]
  cases slot <;> rfl

theorem find_mapValues (m : HashmapMap K V) (key : K) : hashmapFind hash (m.mapValues f) key = hashmapFind hash m key := by
  unfold hashmapFind hashmapHashInt
  rw [mapValues_tableSize,probe_mapValues]
  exact sameKey_mapped f key

theorem get_mapValues (m : HashmapMap K V) (key : K) (remove : Bool) :
    hashmapGet hash (m.mapValues f) key remove = ((hashmapGet hash m key remove).1,
      (hashmapGet hash m key remove).2.1.map f,(hashmapGet hash m key remove).2.2.mapValues f) := by
  unfold hashmapGet
  rw [find_mapValues]
  cases hashmapFind hash m key with
  | none => rfl
  | some index =>
    dsimp only
    rw [mapValues_get]
    rcases m.data[index]? with _ | _ | ⟨name,value⟩
    · rfl
    · rfl
    · cases remove with
      | false => rfl
      | true => simp [mapValues_clear]

theorem put_mapValues (fuel : Nat) (m : HashmapMap K V) (callocs : List Bool) (key : K) (value : V) :
    hashmapPut hash fuel (m.mapValues f) callocs key (f value) =
      (hashmapPut hash fuel m callocs key value).map (PutRun.mapValues f) := by
  induction fuel generalizing m callocs key value with
  | zero => rfl
  | succ fuel ih =>
    rw [hashmapPut,hashmapPut,hash_mapValues]
    cases hashmapHash hash m key with
    | some index =>
      dsimp only [Option.map_some,PutRun.mapValues]
      rw [mapValues_store]
    | none =>
      dsimp only
      have moved : hashmapRehash (hashmapPut hash fuel) (m.mapValues f) callocs =
          (hashmapRehash (hashmapPut hash fuel) m callocs).map (PutRun.mapValues f) := by
        unfold hashmapRehash
        rcases calloc callocs with ⟨_ | _,later⟩
        · rfl
        · have again := reinsert_mapValues f ih m.data (blank m) later
          rw [← mapValues_blank] at again
          exact again
      rw [moved]
      cases hashmapRehash (hashmapPut hash fuel) m callocs with
      | none => rfl
      | some run =>
        dsimp only [Option.map_some]
        change (if run.status = .omem then _ else _) = _
        split
        · rfl
        · exact ih run.map run.callocs key value

end Calls

section Iterators
variable (f : V → W)

theorem nextUsed_mapped (slots : List (Option (K × V))) (position : Nat) :
    nextUsed (slots.map (Option.map (Prod.map id f))) position =
      (nextUsed slots position).map fun found => (found.1,Prod.map id f found.2) := by
  induction slots generalizing position with
  | nil => rfl
  | cons slot rest ih =>
    cases slot with
    | none => exact ih _
    | some entry => rfl

theorem itNext_mapValues (m : HashmapMap K V) (it : HashmapIt) :
    hashmapItNext (m.mapValues f) it = ((hashmapItNext m it).1,(hashmapItNext m it).2.1,
      (hashmapItNext m it).2.2.map (Prod.map id f)) := by
  unfold hashmapItNext
  dsimp only
  have rest : (m.mapValues f).data.drop (it.i + 1).toNat =
      (m.data.drop (it.i + 1).toNat).map (Option.map (Prod.map id f)) := List.map_drop.symm
  rw [rest,nextUsed_mapped,mapValues_tableSize]
  cases nextUsed (m.data.drop (it.i + 1).toNat) (it.i + 1).toNat with
  | none => rfl
  | some found => rfl

end Iterators

end EspOwl.Hashmap
