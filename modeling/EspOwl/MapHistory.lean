import EspOwl.HashmapInvariant
import EspOwl.PartialMaps

namespace EspOwl.MapHistory
open Hashmap PartialMaps SlotArrays

variable {K V : Type} {hash : K → UInt64}

-- The table as a finite map.
structure Holds (hash : K → UInt64) (m : HashmapMap K V) (f : K → Option V) : Prop where
  sound : Sound hash m
  listed : Enumerates f m.entries

theorem holds_new : Holds hash (hashmapNew : HashmapMap K V) fun _ => none :=
  ⟨new_sound,by rw [hashmapNew,HashmapMap.entries,entries_empty]; exact enumerates_nil⟩

variable [DecidableEq K]

inductive Call (K V : Type) where
  | put (key : K) (value : V)
  | get (key : K)
  | remove (key : K)

-- What a history of calls leaves behind, by the last call that says something of a key.
def Call.apply (f : K → Option V) : Call K V → K → Option V
  | .put key value => PartialMaps.put f key value
  | .get _ => f
  | .remove key => erase f key

def contents (calls : List (Call K V)) : K → Option V := calls.foldl Call.apply fun _ => none

-- The maps that such histories lead to, every calloc successful.
inductive Reach (hash : K → UInt64) : List (Call K V) → HashmapMap K V → Prop where
  | new : Reach hash [] hashmapNew
  | put (before : Reach hash calls m) (ran : hashmapPut hash fuel m [] key value = some run) :
      Reach hash (calls ++ [.put key value]) run.map
  | get (before : Reach hash calls m) : Reach hash (calls ++ [.get key]) (hashmapGet hash m key false).2.2
  | remove (before : Reach hash calls m) : Reach hash (calls ++ [.remove key]) (hashmapGet hash m key true).2.2

-- Lookups and the length are those of a finite map.
structure Faithful (hash : K → UInt64) (m : HashmapMap K V) (f : K → Option V) : Prop where
  status : ∀ key remove, (hashmapGet hash m key remove).1 = if (f key).isSome then .ok else .missing
  value : ∀ key remove, (hashmapGet hash m key remove).2.1 = f key
  length : hashmapLength m = (present f).ncard

-- No key is put while it is in the table.
def FreshPuts (calls : List (Call K V)) : Prop :=
  ∀ before key value after, calls = before ++ .put key value :: after → contents before key = none

section Histories

theorem contents_snoc (calls : List (Call K V)) (call : Call K V) :
    contents (calls ++ [call]) = call.apply (contents calls) := by
  rw [contents,List.foldl_append]
  rfl

theorem freshPuts_front {calls : List (Call K V)} (fresh : FreshPuts (calls ++ later)) : FreshPuts calls := by
  intro before key value after same
  exact fresh before key value (after ++ later) (by rw [same,List.append_assoc]; rfl)

theorem freshPuts_put {calls : List (Call K V)} (fresh : FreshPuts (calls ++ [.put key value])) :
    contents calls key = none := fresh calls key value [] rfl

-- A call behind a good history is a good one, a put if its key is absent.
theorem freshPuts_snoc {calls : List (Call K V)} (fresh : FreshPuts calls)
    (allowed : ∀ key value, call = .put key value → contents calls key = none) : FreshPuts (calls ++ [call]) := by
  intro before key value after same
  rcases List.eq_nil_or_concat after with rfl | ⟨front,last,rfl⟩
  · obtain ⟨rfl,last⟩ := List.append_inj' same rfl
    exact allowed key value (List.singleton_injective last)
  · have split : calls ++ [call] = (before ++ .put key value :: front) ++ [last] := by simpa using same
    exact fresh before key value front (List.append_inj' split rfl).1

end Histories

section Steps
variable {m : HashmapMap K V} {f : K → Option V}

theorem holds_faithful (holds : Holds hash m f) : Faithful hash m f := by
  have lookup : ∀ key remove, (hashmapGet hash m key remove).1 = (if (f key).isSome then .ok else .missing) ∧
      (hashmapGet hash m key remove).2.1 = f key := by
    intro key remove
    cases bound : f key with
    | none =>
      rw [get_absent (holds.listed.absent.mp bound)]
      exact ⟨rfl,rfl⟩
    | some value =>
      obtain ⟨_,_,got⟩ := get_present holds.sound ((holds.listed.exact key value).mpr bound) remove
      rw [got]
      exact ⟨rfl,rfl⟩
  exact ⟨fun key remove => (lookup key remove).1,fun key remove => (lookup key remove).2,
    holds.sound.counted.trans holds.listed.count.symm⟩

theorem holds_put (holds : Holds hash m f) (absent : f key = none)
    (ran : hashmapPut hash fuel m [] key value = some run) : Holds hash run.map (PartialMaps.put f key value) := by
  have inserted := put_spec fuel _ _ _ _ _ holds.sound (holds.listed.absent.mp absent) ran
  have permuted := inserted.permuted (inserted.supplied rfl).1
  exact ⟨inserted.sound,(holds.listed.put_fresh absent value).perm permuted.symm⟩

theorem holds_get (holds : Holds hash m f) (key : K) : Holds hash (hashmapGet hash m key false).2.2 f := by
  cases bound : f key with
  | none =>
    rw [get_absent (holds.listed.absent.mp bound)]
    exact holds
  | some value =>
    obtain ⟨_,_,got⟩ := get_present holds.sound ((holds.listed.exact key value).mpr bound) false
    rw [got]
    exact holds

theorem holds_remove (holds : Holds hash m f) (key : K) :
    Holds hash (hashmapGet hash m key true).2.2 (erase f key) := by
  cases bound : f key with
  | none =>
    rw [get_absent (holds.listed.absent.mp bound),erase_absent bound]
    exact holds
  | some value =>
    obtain ⟨i,used,got⟩ := get_present holds.sound ((holds.listed.exact key value).mpr bound) true
    rw [got]
    exact ⟨clear_sound holds.sound used,(holds.listed.perm (clear_entries used)).erased⟩

-- Every insertion that returns counts one element more, also one of a key that is there.
theorem put_counts (fuel : Nat) (m : HashmapMap K V) (callocs : List Bool) (run : PutRun K V) (sound : Sound hash m)
    (supply : callocs = []) (ran : hashmapPut hash fuel m callocs key value = some run) :
    run.map.size = m.size + 1 := by
  induction fuel generalizing m callocs with
  | zero => simp [hashmapPut] at ran
  | succ fuel ih =>
    subst supply
    rcases put_turn ran with ⟨_,_,rfl⟩ | ⟨_,⟨_,refused,_⟩ | ⟨later,first,granted,moved,rest⟩⟩
    · rfl
    · cases refused
    · have inserted := rehash_spec (put_spec fuel) sound granted moved
      obtain ⟨ok,left⟩ := inserted.supplied rfl
      rcases rest with ⟨failed,_⟩ | ⟨_,again⟩
      · rw [ok] at failed
        cases failed
      · have counted := ih first.map first.callocs inserted.sound left again
        rw [counted,inserted.sound.counted,(inserted.permuted ok).length_eq,sound.counted]
        rfl

theorem present_put (known : f key = some old) (value : V) : present (PartialMaps.put f key value) = present f := by
  ext k
  rw [present,present,Set.mem_ofPred_eq,Set.mem_ofPred_eq]
  by_cases same : k = key
  · subst same
    rw [put_self,known]
    rfl
  · rw [put_other f value same]

-- So that one leaves a length that is no count of keys.
theorem put_present_unfaithful (holds : Holds hash m f) (known : f key = some old)
    (ran : hashmapPut hash fuel m [] key value = some run) :
    ¬ Faithful hash run.map (PartialMaps.put f key value) := by
  intro faithful
  have after := faithful.length
  rw [hashmapLength,put_counts fuel m [] run holds.sound rfl ran,present_put known] at after
  have before := (holds_faithful holds).length
  rw [hashmapLength] at before
  omega

end Steps

theorem reach_holds {m : HashmapMap K V} (reached : Reach hash calls m) (fresh : FreshPuts calls) :
    Holds hash m (contents calls) := by
  induction reached with
  | new => exact holds_new
  | put before ran ih =>
    rw [contents_snoc]
    exact holds_put (ih (freshPuts_front fresh)) (freshPuts_put fresh) ran
  | get before ih =>
    rw [contents_snoc]
    exact holds_get (ih (freshPuts_front fresh)) _
  | remove before ih =>
    rw [contents_snoc]
    exact holds_remove (ih (freshPuts_front fresh)) _

-- In every state of a run the map is one, or a key was put that was there.
theorem map_history_iff {m : HashmapMap K V} (reached : Reach hash calls m) :
    (∀ before middle, before <+: calls → Reach hash before middle → Faithful hash middle (contents before)) ↔
      FreshPuts calls := by
  constructor
  · intro faithful
    induction reached with
    | new =>
      intro before key value after same
      cases before <;> cases same
    | @put calls m fuel key value run before ran ih =>
      have fresh := ih fun front middle part at_front => faithful front middle (part.trans (List.prefix_append _ _)) at_front
      refine freshPuts_snoc fresh ?_
      rintro k v same
      cases same
      by_contra there
      obtain ⟨old,known⟩ := Option.ne_none_iff_exists'.mp there
      have after := faithful _ _ (List.prefix_refl _) (.put before ran)
      rw [contents_snoc] at after
      exact put_present_unfaithful (reach_holds before fresh) known ran after
    | get before ih =>
      refine freshPuts_snoc (ih fun front middle part at_front =>
        faithful front middle (part.trans (List.prefix_append _ _)) at_front) ?_
      rintro k v same
      cases same
    | remove before ih =>
      refine freshPuts_snoc (ih fun front middle part at_front =>
        faithful front middle (part.trans (List.prefix_append _ _)) at_front) ?_
      rintro k v same
      cases same
  · rintro fresh before middle ⟨later,rfl⟩ at_before
    exact holds_faithful (reach_holds at_before (freshPuts_front fresh))

def oneHash (_ : Nat) : UInt64 := 0

def replay : List (Call Nat Nat) → HashmapMap Nat Nat → Option (HashmapMap Nat Nat)
  | [],m => some m
  | .put key value :: rest,m => (hashmapPut oneHash 1 m [] key value).bind fun run => replay rest run.map
  | .get key :: rest,m => replay rest (hashmapGet oneHash m key false).2.2
  | .remove key :: rest,m => replay rest (hashmapGet oneHash m key true).2.2

theorem replay_reach (reached : Reach oneHash calls m) (replayed : replay rest m = some after) :
    Reach oneHash (calls ++ rest) after := by
  induction rest generalizing calls m with
  | nil =>
    cases replayed
    rwa [List.append_nil]
  | cons call rest ih =>
    rw [List.append_cons]
    cases call with
    | put key value =>
      obtain ⟨run,ran,replayed⟩ := Option.bind_eq_some_iff.mp replayed
      exact ih (.put reached ran) replayed
    | get key => exact ih (.get reached) replayed
    | remove key => exact ih (.remove reached) replayed

theorem map_history_iff_pair : (∀ before middle, before <+: [.put 1 10,.remove 1] → Reach oneHash before middle →
    Faithful oneHash middle (contents before)) ↔ FreshPuts [.put 1 10,.remove 1] := by
  have returns : (replay [.put 1 10,.remove 1] hashmapNew).isSome := by decide +kernel
  obtain ⟨m,replayed⟩ := Option.isSome_iff_exists.mp returns
  exact map_history_iff (replay_reach .new replayed)

-- The second value goes into the hole that the other key has left, and the first comes
-- to light again when it is removed.
def stale : List (Call Nat Nat) := [.put 1 10,.put 2 20,.remove 1,.put 2 21,.remove 2]

theorem removed_key_found : ¬ ∀ (calls : List (Call Nat Nat)) (m : HashmapMap Nat Nat), Reach oneHash calls m →
    Faithful oneHash m (contents calls) := by
  intro always
  have found : (replay stale hashmapNew).map (fun m => (hashmapGet oneHash m 2 false).1) = some .ok := by
    decide +kernel
  obtain ⟨m,replayed,held⟩ := Option.map_eq_some_iff.mp found
  have status := (always _ m (replay_reach .new replayed)).status 2 false
  rw [held] at status
  exact absurd status (by decide +kernel)

end EspOwl.MapHistory
