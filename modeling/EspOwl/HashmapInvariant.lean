import EspOwl.Hashmap

namespace EspOwl.Hashmap
open SlotArrays

variable {K V : Type} {σ : Type*} {hash : K → UInt64}

-- What every map in the program satisfies between operations. `placed` is the
-- reason why a lookup may stop after eight slots although removal leaves no mark.
structure Sound (hash : K → UInt64) (m : HashmapMap K V) : Prop where
  room : 0 < m.data.length
  placed : ∀ i key value, m.data[i]? = some (some (key,value)) →
    InWindow maxChainLength (hashmapHashInt hash m key) m.data.length i
  distinct : m.keys.Nodup
  counted : m.size = m.entries.length

theorem mem_keys {m : HashmapMap K V} : key ∈ m.keys ↔ ∃ value, (key,value) ∈ m.entries := by
  simp [HashmapMap.keys]

theorem mem_entries {m : HashmapMap K V} :
    entry ∈ m.entries ↔ ∃ i : Nat, m.data[i]? = some (some entry) := SlotArrays.mem_entries

theorem value_unique {m : HashmapMap K V} (distinct : m.keys.Nodup) (left : (key,v) ∈ m.entries)
    (right : (key,w) ∈ m.entries) : v = w := by
  have same := List.inj_on_of_nodup_map distinct left right rfl
  exact (Prod.mk.inj same).2

theorem blank_sound (n : Nat) (room : 0 < n) :
    Sound hash (⟨0,List.replicate n none⟩ : HashmapMap K V) := by
  have empty : (⟨0,List.replicate n none⟩ : HashmapMap K V).entries = [] := entries_empty _
  refine ⟨by simpa using room,?_,?_,?_⟩
  · intro i key value held
    have member := mem_entries.mpr ⟨i,held⟩
    rw [empty] at member
    cases member
  · rw [HashmapMap.keys,empty]; exact List.nodup_nil
  · rw [empty]; rfl

theorem new_sound : Sound hash (hashmapNew : HashmapMap K V) := blank_sound initialSize (by decide)

-- A write into one slot keeps every key in its window if it keeps the written key.
theorem placed_write {m : HashmapMap K V} (sound : Sound hash m) (inside : i < m.data.length)
    (slot : Option (K × V)) (allowed : ∀ key value, slot = some (key,value) →
      InWindow maxChainLength (hashmapHashInt hash m key) m.data.length i)
    (j : Nat) (key : K) (value : V) (held : (m.data.set i slot)[j]? = some (some (key,value))) :
    InWindow maxChainLength ((hash key).toNat % (m.data.set i slot).length) (m.data.set i slot).length j := by
  rw [List.length_set]
  by_cases here : i = j
  · subst here
    rw [List.getElem?_set_self inside] at held
    exact allowed key value (Option.some.inj held)
  · rw [List.getElem?_set_ne here] at held
    exact sound.placed j key value held

theorem store_entries {m : HashmapMap K V} (free : m.data[i]? = some none) (key : K) (value : V) :
    (m.store i key value).entries.Perm ((key,value) :: m.entries) := entries_fill free _

theorem store_sound {m : HashmapMap K V} (sound : Sound hash m) (free : m.data[i]? = some none)
    (window : InWindow maxChainLength (hashmapHashInt hash m key) m.data.length i)
    (fresh : key ∉ m.keys) : Sound hash (m.store i key value) := by
  have permuted := store_entries free key value
  have inside : i < m.data.length := (List.getElem?_eq_some_iff.mp free).1
  refine ⟨?_,placed_write sound inside _ ?_,?_,?_⟩
  · exact Nat.lt_of_lt_of_eq sound.room List.length_set.symm
  · intro held v same
    cases same
    exact window
  · have keys : (m.store i key value).keys.Perm (key :: m.keys) := permuted.map Prod.fst
    rw [keys.nodup_iff,List.nodup_cons]
    exact ⟨fresh,sound.distinct⟩
  · rw [permuted.length_eq,List.length_cons,← sound.counted]; rfl

theorem clear_entries {m : HashmapMap K V} (used : m.data[i]? = some (some entry)) :
    m.entries.Perm (entry :: (m.clear i).entries) := entries_clear used

theorem clear_sound {m : HashmapMap K V} (sound : Sound hash m)
    (used : m.data[i]? = some (some entry)) : Sound hash (m.clear i) := by
  have permuted := clear_entries used
  have inside : i < m.data.length := (List.getElem?_eq_some_iff.mp used).1
  refine ⟨?_,placed_write sound inside _ (fun _ _ free => by cases free),?_,?_⟩
  · exact Nat.lt_of_lt_of_eq sound.room List.length_set.symm
  · have keys : m.keys.Perm (entry.1 :: (m.clear i).keys) := permuted.map Prod.fst
    have distinct := sound.distinct
    rw [keys.nodup_iff,List.nodup_cons] at distinct
    exact distinct.2
  · have count := sound.counted
    rw [permuted.length_eq,List.length_cons] at count
    simp only [HashmapMap.clear] at count ⊢
    omega

-- Distinct keys also mean that a key has one slot only.
theorem slot_unique {m : HashmapMap K V} {i j : Nat} (distinct : m.keys.Nodup) (first : m.data[i]? = some (some (key,v)))
    (second : m.data[j]? = some (some (key,w))) : i = j := by
  apply Classical.byContradiction
  intro apart
  have keys : m.keys.Perm (key :: (m.clear i).keys) := (clear_entries first).map Prod.fst
  have held : (m.clear i).data[j]? = some (some (key,w)) := by
    rw [HashmapMap.clear,List.getElem?_set_ne apart,second]
  rw [keys.nodup_iff,List.nodup_cons] at distinct
  exact distinct.1 (mem_keys.mpr ⟨w,mem_entries.mpr ⟨j,held⟩⟩)

theorem assign_entries {m : HashmapMap K V} (used : m.data[i]? = some (some (key,old))) (value : V) :
    ∃ left right, m.entries = left ++ (key,old) :: right ∧
      (m.assign i key value).entries = left ++ (key,value) :: right := entries_replace used _

theorem assign_sound {m : HashmapMap K V} (sound : Sound hash m)
    (used : m.data[i]? = some (some (key,old))) (value : V) : Sound hash (m.assign i key value) := by
  obtain ⟨left,right,before,after⟩ := assign_entries used value
  have inside : i < m.data.length := (List.getElem?_eq_some_iff.mp used).1
  refine ⟨?_,placed_write sound inside _ ?_,?_,?_⟩
  · exact Nat.lt_of_lt_of_eq sound.room List.length_set.symm
  · intro held v same
    cases same
    exact sound.placed i key old used
  · have distinct := sound.distinct
    simpa [HashmapMap.keys,before,after] using distinct
  · have count := sound.counted
    rw [before] at count
    rw [after]
    simpa [HashmapMap.assign] using count

theorem hashInt_inside {m : HashmapMap K V} (sound : Sound hash m) (key : K) :
    hashmapHashInt hash m key < m.data.length := Nat.mod_lt _ sound.room

-- The loop of hashmap_rehash.
section Reinsertion

def blank (m : HashmapMap K V) : HashmapMap K V := ⟨0,List.replicate (2 * m.tableSize) none⟩

theorem blank_room {m : HashmapMap K V} (sound : Sound hash m) : Sound hash (blank m) :=
  blank_sound _ (Nat.mul_pos (by decide) sound.room)

theorem blank_entries (m : HashmapMap K V) : (blank m).entries = [] := entries_empty _

-- The loop passes over free slots.
theorem reinsert_entries (put : HashmapMap K V → List Bool → K → V → Option (PutRun K V)) (old : List (Option (K × V)))
    (m : HashmapMap K V) (callocs : List Bool) :
    hashmapReinsert put ((SlotArrays.entries old).map some) m callocs = hashmapReinsert put old m callocs := by
  induction old generalizing m callocs with
  | nil => rfl
  | cons slot rest ih =>
    cases slot with
    | none => exact ih m callocs
    | some entry =>
      obtain ⟨key,value⟩ := entry
      simp only [entries_used,List.map_cons,hashmapReinsert,ih]

theorem rehash_granted (put : HashmapMap K V → List Bool → K → V → Option (PutRun K V)) (m : HashmapMap K V)
    (granted : calloc callocs = (true,later)) :
    hashmapRehash put m callocs = hashmapReinsert put (m.entries.map some) (blank m) later := by
  rw [hashmapRehash,granted,HashmapMap.entries,reinsert_entries]
  rfl

theorem reinsert_next {put : HashmapMap K V → List Bool → K → V → Option (PutRun K V)}
    (ran : hashmapReinsert put (some (key,value) :: rest) m callocs = some run) :
    ∃ first, put m callocs key value = some first ∧
      (first.status = .ok ∧ hashmapReinsert put rest first.map first.callocs = some run ∨
        first.status ≠ .ok ∧ run = first) := by
  rw [hashmapReinsert] at ran
  cases one : put m callocs key value with
  | none => simp [one] at ran
  | some first =>
    refine ⟨first,rfl,?_⟩
    simp only [one] at ran
    split at ran
    · rename_i ok
      exact .inl ⟨ok,ran⟩
    · rename_i failed
      exact .inr ⟨failed,(Option.some.inj ran).symm⟩

theorem reinsert_again {put : HashmapMap K V → List Bool → K → V → Option (PutRun K V)}
    (one : put m callocs key value = some first)
    (outcome : first.status = .ok ∧ hashmapReinsert put rest first.map first.callocs = some run ∨
      first.status ≠ .ok ∧ run = first) :
    hashmapReinsert put (some (key,value) :: rest) m callocs = some run := by
  rw [hashmapReinsert,one]
  dsimp only
  rcases outcome with ⟨ok,later⟩ | ⟨failed,rfl⟩
  · rw [if_pos ok,later]
  · rw [if_neg failed]

-- An error of the loop is the error of one of its insertions.
theorem reinsert_status {put : HashmapMap K V → List Bool → K → V → Option (PutRun K V)}
    (each : ∀ m callocs key value run, put m callocs key value = some run → run.status = .ok ∨ run.status = .omem)
    (elements : List (K × V)) (m : HashmapMap K V) (callocs : List Bool) (run : PutRun K V)
    (ran : hashmapReinsert put (elements.map some) m callocs = some run) : run.status = .ok ∨ run.status = .omem := by
  induction elements generalizing m callocs with
  | nil =>
    cases ran
    exact .inl rfl
  | cons entry rest ih =>
    obtain ⟨key,value⟩ := entry
    obtain ⟨first,put_first,⟨_,later⟩ | ⟨_,rfl⟩⟩ := reinsert_next ran
    · exact ih _ _ later
    · exact each _ _ _ _ _ put_first

end Reinsertion

section Lookup
variable [DecidableEq K]

-- A lookup ends at the only slot of its key, or the key is nowhere in the table.
theorem find_some {m : HashmapMap K V} (found : hashmapFind hash m key = some i) :
    ∃ value, m.data[i]? = some (some (key,value)) := by
  obtain ⟨slot,at_i,hit⟩ := probe_hit found
  cases slot with
  | none => simp [sameKey] at hit
  | some entry =>
    obtain ⟨held,value⟩ := entry
    have same : held = key := by simpa [sameKey] using hit
    exact ⟨value,same ▸ at_i⟩

theorem find_none {m : HashmapMap K V} (sound : Sound hash m) (missed : hashmapFind hash m key = none) :
    key ∉ m.keys := by
  intro present
  obtain ⟨value,member⟩ := mem_keys.mp present
  obtain ⟨i,at_i⟩ := mem_entries.mp member
  have miss := probe_complete (hashInt_inside sound key) missed (sound.placed i key value at_i) at_i
  simp [sameKey] at miss

theorem find_complete {m : HashmapMap K V} (sound : Sound hash m) (present : (key,value) ∈ m.entries) :
    ∃ i, hashmapFind hash m key = some i ∧ m.data[i]? = some (some (key,value)) := by
  cases found : hashmapFind hash m key with
  | none => exact absurd (mem_keys.mpr ⟨value,present⟩) (find_none sound found)
  | some i =>
    obtain ⟨other,at_i⟩ := find_some found
    have same := value_unique sound.distinct (mem_entries.mpr ⟨i,at_i⟩) present
    exact ⟨i,rfl,same ▸ at_i⟩

theorem get_present {m : HashmapMap K V} (sound : Sound hash m) (present : (key,value) ∈ m.entries)
    (remove : Bool) : ∃ i, m.data[i]? = some (some (key,value)) ∧
      hashmapGet hash m key remove = (.ok,some value,if remove then m.clear i else m) := by
  obtain ⟨i,found,at_i⟩ := find_complete sound present
  exact ⟨i,at_i,by simp [hashmapGet,found,at_i]⟩

theorem get_absent {m : HashmapMap K V} (absent : key ∉ m.keys) (remove : Bool) :
    hashmapGet hash m key remove = (.missing,none,m) := by
  cases found : hashmapFind hash m key with
  | none => simp [hashmapGet,found]
  | some i =>
    obtain ⟨value,at_i⟩ := find_some found
    exact absurd (mem_keys.mpr ⟨value,mem_entries.mpr ⟨i,at_i⟩⟩) absent

theorem get_sound {m : HashmapMap K V} (sound : Sound hash m) (key : K) (remove : Bool) :
    Sound hash (hashmapGet hash m key remove).2.2 := by
  by_cases present : key ∈ m.keys
  · obtain ⟨value,member⟩ := mem_keys.mp present
    obtain ⟨i,used,got⟩ := get_present sound member remove
    rw [got]
    cases remove with
    | false => exact sound
    | true => exact clear_sound sound used
  · rw [get_absent present]
    exact sound

theorem get_missing {m : HashmapMap K V} (sound : Sound hash m)
    (missing : (hashmapGet hash m key false).1 = .missing) : key ∉ m.keys := by
  intro present
  obtain ⟨value,member⟩ := mem_keys.mp present
  obtain ⟨_,_,got⟩ := get_present sound member false
  rw [got] at missing
  cases missing

-- A write through the pointer of a lookup is what the next lookup sees.
theorem find_assign {m : HashmapMap K V} (found : hashmapFind hash m key = some i) (value : V) :
    hashmapFind hash (m.assign i key value) key = some i ∧
      (m.assign i key value).data[i]? = some (some (key,value)) := by
  obtain ⟨old,at_i⟩ := find_some found
  have inside : i < m.data.length := (List.getElem?_eq_some_iff.mp at_i).1
  refine ⟨?_,by simp [HashmapMap.assign,inside]⟩
  have size : (m.assign i key value).data.length = m.data.length := List.length_set
  rw [← found,hashmapFind,hashmapFind,hashmapHashInt,hashmapHashInt,HashmapMap.tableSize,HashmapMap.tableSize,size]
  refine probe_congr size ?_
  intro j
  rw [HashmapMap.assign,List.getElem?_set]
  split
  · rename_i same
    subst same
    rw [at_i]
    simp [sameKey]
  · rfl

theorem find_store {m : HashmapMap K V} (found : hashmapHash hash m key = some i) (value : V) :
    hashmapFind hash (m.store i key value) key = some i ∧
      (m.store i key value).data[i]? = some (some (key,value)) := by
  unfold hashmapHash at found
  split at found
  · cases found
  · obtain ⟨slot,at_i,_⟩ := probe_hit found
    have inside : i < m.data.length := (List.getElem?_eq_some_iff.mp at_i).1
    refine ⟨?_,by simp [HashmapMap.store,inside]⟩
    have size : (m.store i key value).tableSize = m.tableSize := List.length_set
    rw [hashmapFind,hashmapHashInt,size]
    refine probe_set found ?_ (by simp [sameKey])
    intro slot same
    rw [same,Bool.or_true]

-- One round of the loop of hashmap_put.
theorem put_turn (ran : hashmapPut hash (fuel + 1) m callocs key value = some run) :
    (∃ i, hashmapHash hash m key = some i ∧ run = ⟨.ok,m.store i key value,callocs⟩) ∨
      hashmapHash hash m key = none ∧
      ((∃ later, calloc callocs = (false,later) ∧ run = ⟨.omem,m,later⟩) ∨
        ∃ later first, calloc callocs = (true,later) ∧
          hashmapReinsert (hashmapPut hash fuel) (m.entries.map some) (blank m) later = some first ∧
          (first.status = .omem ∧ run = first ∨
            first.status ≠ .omem ∧ hashmapPut hash fuel first.map first.callocs key value = some run)) := by
  rw [hashmapPut] at ran
  cases place : hashmapHash hash m key with
  | some i =>
    simp only [place] at ran
    exact .inl ⟨i,rfl,(Option.some.inj ran).symm⟩
  | none =>
    simp only [place] at ran
    refine .inr ⟨rfl,?_⟩
    cases supply : calloc callocs with
    | mk outcome later =>
      cases outcome with
      | false =>
        simp only [hashmapRehash,supply,if_true] at ran
        exact .inl ⟨later,rfl,(Option.some.inj ran).symm⟩
      | true =>
        rw [rehash_granted _ m supply] at ran
        cases moved : hashmapReinsert (hashmapPut hash fuel) (m.entries.map some) (blank m) later with
        | none => simp [moved] at ran
        | some first =>
          simp only [moved] at ran
          refine .inr ⟨later,first,rfl,moved,?_⟩
          split at ran
          · rename_i failed
            exact .inl ⟨failed,(Option.some.inj ran).symm⟩
          · rename_i went
            exact .inr ⟨went,ran⟩

theorem put_status (fuel : Nat) (m : HashmapMap K V) (callocs : List Bool) (key : K) (value : V) (run : PutRun K V)
    (ran : hashmapPut hash fuel m callocs key value = some run) : run.status = .ok ∨ run.status = .omem := by
  induction fuel generalizing m callocs with
  | zero => simp [hashmapPut] at ran
  | succ fuel ih =>
    rcases put_turn ran with ⟨_,_,rfl⟩ | ⟨_,⟨_,_,rfl⟩ | ⟨_,first,_,_,⟨failed,rfl⟩ | ⟨_,again⟩⟩⟩
    · exact .inl rfl
    · exact .inr rfl
    · exact .inr failed
    · exact ih _ _ again

-- Whatever the table was, an insertion that succeeds can be looked up.
theorem put_found (fuel : Nat) (m : HashmapMap K V) (callocs : List Bool) (key : K) (value : V) (run : PutRun K V)
    (ran : hashmapPut hash fuel m callocs key value = some run) (succeeded : run.status = .ok) :
    ∃ i, hashmapFind hash run.map key = some i ∧ run.map.data[i]? = some (some (key,value)) := by
  induction fuel generalizing m callocs with
  | zero => simp [hashmapPut] at ran
  | succ fuel ih =>
    rcases put_turn ran with ⟨i,found,rfl⟩ | ⟨_,⟨_,_,rfl⟩ | ⟨_,_,_,_,⟨failed,rfl⟩ | ⟨_,again⟩⟩⟩
    · exact ⟨i,find_store found value⟩
    · cases succeeded
    · rw [failed] at succeeded
      cases succeeded
    · exact ih _ _ again

-- A place for a fresh key is a free slot inside the key's window.
theorem hashmapHash_free {m : HashmapMap K V} (sound : Sound hash m) (fresh : key ∉ m.keys)
    (found : hashmapHash hash m key = some i) : m.data[i]? = some none ∧
      InWindow maxChainLength (hashmapHashInt hash m key) m.data.length i := by
  unfold hashmapHash at found
  split at found
  · cases found
  · obtain ⟨window,slot,at_i,hit⟩ := probe_sound (hashInt_inside sound key) found
    refine ⟨?_,window⟩
    cases slot with
    | none => exact at_i
    | some entry =>
      obtain ⟨held,value⟩ := entry
      have same : held = key := by simpa [sameKey] using hit
      exact absurd (mem_keys.mpr ⟨value,mem_entries.mpr ⟨i,same ▸ at_i⟩⟩) fresh

end Lookup

-- What an insertion of a fresh key may do. Out of memory it keeps a part of the
-- old entries; with every calloc successful it never runs out of memory.
structure Inserted (hash : K → UInt64) (m : HashmapMap K V) (callocs : List Bool)
    (added : List (K × V)) (run : PutRun K V) : Prop where
  sound : Sound hash run.map
  outcome : (run.status = .ok ∧ run.map.entries.Perm (added ++ m.entries)) ∨
    (run.status = .omem ∧ run.map.entries.Subperm (added ++ m.entries))
  supplied : callocs = [] → run.status = .ok ∧ run.callocs = []

theorem Inserted.permuted {run : PutRun K V} (inserted : Inserted hash m callocs added run) (ok : run.status = .ok) :
    run.map.entries.Perm (added ++ m.entries) := by
  rcases inserted.outcome with ⟨_,perm⟩ | ⟨omem,_⟩
  · exact perm
  · rw [ok] at omem
    cases omem

def PutSpec (hash : K → UInt64) (put : HashmapMap K V → List Bool → K → V → Option (PutRun K V)) : Prop :=
  ∀ m callocs key value run, Sound hash m → key ∉ m.keys → put m callocs key value = some run →
    Inserted hash m callocs [(key,value)] run

theorem reinsert_spec {put : HashmapMap K V → List Bool → K → V → Option (PutRun K V)}
    (spec : PutSpec hash put) {old : List (Option (K × V))} {m : HashmapMap K V}
    (sound : Sound hash m) (distinct : ((SlotArrays.entries old ++ m.entries).map Prod.fst).Nodup)
    (ran : hashmapReinsert put old m callocs = some run) :
    Inserted hash m callocs (SlotArrays.entries old) run := by
  induction old generalizing m callocs with
  | nil =>
    cases ran
    exact ⟨sound,.inl ⟨rfl,List.Perm.refl _⟩,fun supply => ⟨rfl,supply⟩⟩
  | cons slot rest ih =>
    cases slot with
    | none => exact ih sound distinct ran
    | some entry =>
      obtain ⟨key,value⟩ := entry
      simp only [entries_used,List.cons_append,List.map_cons,List.nodup_cons] at distinct
      obtain ⟨fresh,others⟩ := distinct
      have absent : key ∉ m.keys := by
        intro present
        exact fresh (by rw [List.map_append]; exact List.mem_append_right _ present)
      obtain ⟨first,one,⟨status,later⟩ | ⟨notOk,rfl⟩⟩ := reinsert_next ran
      · have inserted := spec _ _ _ _ _ sound absent one
        have swapped : (SlotArrays.entries rest ++ first.map.entries).Perm
            ((key,value) :: (SlotArrays.entries rest ++ m.entries)) :=
          (List.Perm.append_left _ (inserted.permuted status)).trans List.perm_middle
        have distinctNext : ((SlotArrays.entries rest ++ first.map.entries).map Prod.fst).Nodup := by
          rw [(swapped.map Prod.fst).nodup_iff,List.map_cons,List.nodup_cons]
          exact ⟨fresh,others⟩
        have tail := ih inserted.sound distinctNext later
        refine ⟨tail.sound,?_,fun supply => tail.supplied (inserted.supplied supply).2⟩
        exact tail.outcome.imp (fun ⟨ok,perm⟩ => ⟨ok,perm.trans swapped⟩)
          (fun ⟨omem,sub⟩ => ⟨omem,sub.trans swapped.subperm⟩)
      · have inserted := spec _ _ _ _ _ sound absent one
        have part := inserted.outcome.resolve_left fun done => notOk done.1
        refine ⟨inserted.sound,.inr ⟨part.1,part.2.trans ?_⟩,?_⟩
        · exact (List.subperm_cons _).mpr (List.sublist_append_right _ _).subperm
        · intro supply
          exact absurd (inserted.supplied supply).1 notOk

theorem rehash_spec {put : HashmapMap K V → List Bool → K → V → Option (PutRun K V)}
    (spec : PutSpec hash put) {m : HashmapMap K V} (sound : Sound hash m) (granted : calloc callocs = (true,later))
    (moved : hashmapReinsert put (m.entries.map some) (blank m) later = some run) : Inserted hash m callocs [] run := by
  rw [HashmapMap.entries,reinsert_entries] at moved
  have inserted := reinsert_spec spec (blank_room sound)
    (by rw [blank_entries,List.append_nil]; exact sound.distinct) moved
  refine ⟨inserted.sound,?_,?_⟩
  · have outcome := inserted.outcome
    rw [blank_entries,List.append_nil] at outcome
    exact outcome
  · rintro rfl
    cases granted
    exact inserted.supplied rfl

-- A move that goes through keeps every entry.
theorem rehash_kept {put : HashmapMap K V → List Bool → K → V → Option (PutRun K V)}
    (spec : PutSpec hash put) {m : HashmapMap K V} (sound : Sound hash m) (granted : calloc callocs = (true,later))
    (moved : hashmapReinsert put (m.entries.map some) (blank m) later = some run) (went : run.status ≠ .omem) :
    Sound hash run.map ∧ run.map.entries.Perm m.entries := by
  have inserted := rehash_spec spec sound granted moved
  refine ⟨inserted.sound,?_⟩
  rcases inserted.outcome with ⟨_,perm⟩ | ⟨omem,_⟩
  · exact perm
  · exact absurd omem went

-- The induction is on the nesting of rehashes; the loop that re-enters after a
-- rehash sees the same entries in a larger table, so the key is still fresh.
theorem put_spec [DecidableEq K] (fuel : Nat) : PutSpec (V := V) hash (hashmapPut hash fuel) := by
  induction fuel with
  | zero => intro m callocs key value run sound fresh ran; simp [hashmapPut] at ran
  | succ fuel ih =>
    intro m callocs key value run sound fresh ran
    have part : m.entries.Subperm ([(key,value)] ++ m.entries) := (List.sublist_append_right _ _).subperm
    rcases put_turn ran with ⟨i,found,rfl⟩ | ⟨_,⟨_,refused,rfl⟩ | ⟨_,first,granted,moved,⟨failed,rfl⟩ | ⟨went,again⟩⟩⟩
    · obtain ⟨free,window⟩ := hashmapHash_free sound fresh found
      exact ⟨store_sound sound free window fresh,.inl ⟨rfl,store_entries free key value⟩,fun supply => ⟨rfl,supply⟩⟩
    · refine ⟨sound,.inr ⟨rfl,part⟩,?_⟩
      rintro rfl
      cases refused
    · have inserted := rehash_spec ih sound granted moved
      refine ⟨inserted.sound,.inr ⟨failed,?_⟩,?_⟩
      · rcases inserted.outcome with ⟨ok,_⟩ | ⟨_,sub⟩
        · rw [failed] at ok; cases ok
        · exact sub.trans part
      · intro supply
        have ok := (inserted.supplied supply).1
        rw [failed] at ok; cases ok
    · obtain ⟨larger,permuted⟩ := rehash_kept ih sound granted moved went
      have freshNext : key ∉ first.map.keys := by
        intro present
        exact fresh ((permuted.map Prod.fst).mem_iff.mp present)
      have last := ih _ _ _ _ _ larger freshNext again
      have supplied := (rehash_spec ih sound granted moved).supplied
      refine ⟨last.sound,?_,fun supply => last.supplied (supplied supply).2⟩
      exact last.outcome.imp (fun ⟨ok,perm⟩ => ⟨ok,perm.trans (List.Perm.append_left _ permuted)⟩)
        (fun ⟨omem,sub⟩ => ⟨omem,sub.trans (List.Perm.append_left _ permuted).subperm⟩)

-- Out of memory, the new key is not in what is left.
theorem put_rest [DecidableEq K] (fuel : Nat) {m : HashmapMap K V} (sound : Sound hash m) (fresh : key ∉ m.keys)
    (ran : hashmapPut hash fuel m callocs key value = some run) (failed : run.status = .omem) :
    run.map.entries.Subperm m.entries := by
  induction fuel generalizing m callocs with
  | zero => simp [hashmapPut] at ran
  | succ fuel ih =>
    rcases put_turn ran with ⟨i,found,rfl⟩ | ⟨_,⟨_,refused,rfl⟩ | ⟨_,first,granted,moved,⟨_,rfl⟩ | ⟨went,again⟩⟩⟩
    · cases failed
    · exact List.Subperm.refl _
    · rcases (rehash_spec (put_spec fuel) sound granted moved).outcome with ⟨ok,_⟩ | ⟨_,sub⟩
      · rw [failed] at ok
        cases ok
      · exact sub
    · obtain ⟨larger,permuted⟩ := rehash_kept (put_spec fuel) sound granted moved went
      have freshNext : key ∉ first.map.keys := fun present => fresh ((permuted.map Prod.fst).mem_iff.mp present)
      exact (ih larger freshNext again).trans permuted.subperm

-- More fuel never changes an answer, so the bound only decides whether there is one.
theorem reinsert_mono {less more : HashmapMap K V → List Bool → K → V → Option (PutRun K V)}
    (grows : ∀ m callocs key value run, less m callocs key value = some run →
      more m callocs key value = some run)
    (ran : hashmapReinsert less old m callocs = some run) :
    hashmapReinsert more old m callocs = some run := by
  induction old generalizing m callocs with
  | nil => exact ran
  | cons slot rest ih =>
    cases slot with
    | none => exact ih ran
    | some entry =>
      obtain ⟨key,value⟩ := entry
      simp only [hashmapReinsert] at ran ⊢
      cases one : less m callocs key value with
      | none => simp [one] at ran
      | some first =>
        simp only [one] at ran
        simp only [grows _ _ _ _ _ one]
        split at ran
        · rename_i ok; rw [if_pos ok]; exact ih ran
        · rename_i bad; rw [if_neg bad]; exact ran

theorem put_mono [DecidableEq K] (fuel : Nat) (m : HashmapMap K V) (callocs : List Bool) (key : K) (value : V)
    (run : PutRun K V) (ran : hashmapPut hash fuel m callocs key value = some run) :
    hashmapPut hash (fuel+1) m callocs key value = some run := by
  induction fuel generalizing m callocs key value run with
  | zero => simp [hashmapPut] at ran
  | succ fuel ih =>
    rw [hashmapPut] at ran ⊢
    split at ran
    · rename_i index found; simp only [ran]
    · split at ran
      · cases ran
      · rename_i first rehashed
        have again : hashmapRehash (hashmapPut hash (fuel+1)) m callocs = some first := by
          unfold hashmapRehash at rehashed ⊢
          split at rehashed
          · exact rehashed
          · exact reinsert_mono ih rehashed
        simp only [again]
        split at ran
        · rename_i failed; rw [if_pos failed]; exact ran
        · rename_i succeeded; rw [if_neg succeeded]; exact ih _ _ _ _ _ ran

theorem itNext_used {m : HashmapMap K V} (found : hashmapItNext m it = (.ok,next,some entry)) :
    ∃ i : Nat, next = ⟨i⟩ ∧ m.data[i]? = some (some entry) := by
  unfold hashmapItNext at found
  dsimp only at found
  generalize (it.i + 1).toNat = start at found
  cases scan : nextUsed (m.data.drop start) start with
  | none => rw [scan] at found; cases found
  | some pair =>
    obtain ⟨i,used⟩ := pair
    rw [scan] at found
    cases found
    obtain ⟨skipped,shape,rfl⟩ := nextUsed_some scan
    refine ⟨start + skipped,rfl,?_⟩
    rw [← List.getElem?_drop,shape,List.getElem?_append_right (by simp)]
    simp

theorem itRemove_used {m : HashmapMap K V} {i : Nat} (used : m.data[i]? = some (some entry)) :
    hashmapItRemove m ⟨i⟩ = (.ok,m.clear i) := by
  have inside : i < m.data.length := (List.getElem?_eq_some_iff.mp used).1
  have valid : ¬ ((i : Int) < 0 ∨ (i : Int) ≥ m.tableSize) := by
    simp only [HashmapMap.tableSize]
    omega
  rw [hashmapItRemove,if_neg valid]
  simp [used]

theorem itRemove_sound {m : HashmapMap K V} (sound : Sound hash m) (it : HashmapIt) :
    Sound hash (hashmapItRemove m it).2 := by
  unfold hashmapItRemove
  split
  · exact sound
  · split
    · rename_i used
      exact clear_sound sound used
    · exact sound

-- The iterator loop is one pass over the slots. The body may free the slot the
-- iterator stands on; `keeps` is what it may assume of the map meanwhile.
theorem walk_sweep {body : HashmapIt → HashmapMap K V → K × V → σ → HashmapMap K V × σ}
    {judge : σ → K × V → Bool × σ} {keeps : HashmapMap K V → Prop}
    (agrees : ∀ (i : Nat) m entry s, keeps m → m.data[i]? = some (some entry) →
      body ⟨i⟩ m entry s = (if (judge s entry).1 then m.clear i else m,(judge s entry).2))
    (kept : ∀ (i : Nat) m entry s, keeps m → m.data[i]? = some (some entry) → (judge s entry).1 = true →
      keeps (m.clear i))
    (it : HashmapIt) (done : List (Option (K × V))) (start : keeps m) (parts : m.data = done ++ rest)
    (position : it.i + 1 = done.length) (enough : rest.length < rounds) :
    ∃ final, hashmapWalk body rounds it m s = (final,(sweep judge s rest).2) ∧ keeps final ∧
      final.data = done ++ (sweep judge s rest).1 := by
  induction rounds generalizing it m s done rest with
  | zero => omega
  | succ rounds ih =>
    have from_here : (it.i + 1).toNat = done.length := by omega
    have remaining : m.data.drop done.length = rest := by rw [parts,List.drop_left]
    rw [hashmapWalk]
    unfold hashmapItNext
    simp only [from_here,remaining]
    cases scan : nextUsed rest done.length with
    | none =>
      have blank := free_slots (nextUsed_none scan)
      have idle := sweep_replicate judge s rest.length []
      rw [List.append_nil,← blank] at idle
      refine ⟨m,?_,start,?_⟩
      · rw [idle]; rfl
      · rw [idle]; simpa [sweep,← blank] using parts
    | some pair =>
      obtain ⟨i,entry⟩ := pair
      obtain ⟨skipped,shape,rfl⟩ := nextUsed_some scan
      generalize rest.drop (skipped+1) = tail at shape
      subst shape
      have used : m.data[done.length + skipped]? = some (some entry) := by
        rw [parts,List.getElem?_append_right (Nat.le_add_right _ _)]
        simp
      dsimp only
      rw [agrees _ _ _ _ start used,sweep_replicate,sweep]
      have clean : ∀ slot, m.data.set (done.length + skipped) slot =
          (done ++ List.replicate skipped none ++ [slot]) ++ tail := by
        intro slot
        rw [parts,List.set_append_right _ _ (Nat.le_add_right _ _)]
        simp [List.set_append_right]
      have shorter : tail.length < rounds := by simp at enough; omega
      cases freed : (judge s entry).1 with
      | true =>
        obtain ⟨final,ran,holds,data⟩ := ih (s := (judge s entry).2)
          ⟨(done.length + skipped : Nat)⟩ (done ++ List.replicate skipped none ++ [none]) (kept _ _ _ _ start used freed) (clean none) (by simp; omega) shorter
        refine ⟨final,ran,holds,?_⟩
        simpa using data
      | false =>
        obtain ⟨final,ran,holds,data⟩ := ih (s := (judge s entry).2)
          ⟨(done.length + skipped : Nat)⟩ (done ++ List.replicate skipped none ++ [some entry]) start (by rw [parts]; simp) (by simp; omega) shorter
        refine ⟨final,ran,holds,?_⟩
        simpa using data

theorem iterate_sweep (body : HashmapIt → HashmapMap K V → K × V → σ → HashmapMap K V × σ)
    (judge : σ → K × V → Bool × σ) (keeps : HashmapMap K V → Prop)
    (agrees : ∀ (i : Nat) m entry s, keeps m → m.data[i]? = some (some entry) →
      body ⟨i⟩ m entry s = (if (judge s entry).1 then m.clear i else m,(judge s entry).2))
    (kept : ∀ (i : Nat) m entry s, keeps m → m.data[i]? = some (some entry) → (judge s entry).1 = true →
      keeps (m.clear i))
    (start : keeps m) : ∃ final, hashmapIterate body m s = (final,(sweepEntries judge s m.entries).2) ∧
      keeps final ∧ final.entries = (sweepEntries judge s m.entries).1 := by
  obtain ⟨final,ran,holds,data⟩ := walk_sweep (s := s) agrees kept hashmapItNew [] start rfl rfl
    (Nat.lt_succ_self m.tableSize)
  obtain ⟨kept_entries,state⟩ := sweep_entries judge s m.data
  refine ⟨final,ran.trans (by rw [state]; rfl),holds,?_⟩
  rw [HashmapMap.entries,data,List.nil_append,kept_entries]
  rfl

-- A loop that only reads is a fold over the entries.
theorem iterate_fold (body : HashmapIt → HashmapMap K V → K × V → σ → HashmapMap K V × σ)
    (step : σ → K × V → σ) (reads : ∀ it m entry s, body it m entry s = (m,step s entry)) :
    hashmapIterate body m s = (m,m.entries.foldl step s) := by
  obtain ⟨final,ran,same,_⟩ := iterate_sweep (s := s) (m := m) body
    (fun s a => (false,step s a)) (fun other => other = m)
    (by intro i other entry s _ _; simp [reads]) (by intro i other entry s _ _ freed; cases freed) rfl
  rw [ran,same,sweepEntries_keep]

end EspOwl.Hashmap
