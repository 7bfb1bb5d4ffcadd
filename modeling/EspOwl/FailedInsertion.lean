import EspOwl.PeerMap

namespace EspOwl.FailedInsertion
open Hashmap SlotArrays

variable {K V : Type} {hash : K → UInt64}

-- Without memory in the middle of a move the element that is just being put has no
-- place any more.
theorem reinsert_less {put : HashmapMap K V → List Bool → K → V → Option (PutRun K V)} (spec : PutSpec hash put)
    (each : ∀ m callocs key value run, Sound hash m → key ∉ m.keys → put m callocs key value = some run →
      run.status = .omem → run.map.size ≤ m.size)
    (elements : List (K × V)) (m : HashmapMap K V) (callocs : List Bool) (run : PutRun K V) (sound : Sound hash m)
    (distinct : ((elements ++ m.entries).map Prod.fst).Nodup)
    (ran : hashmapReinsert put (elements.map some) m callocs = some run) (failed : run.status = .omem) :
    run.map.size < elements.length + m.size := by
  induction elements generalizing m callocs with
  | nil =>
    cases ran
    cases failed
  | cons entry rest ih =>
    obtain ⟨key,value⟩ := entry
    have alone : key ∉ (rest ++ m.entries).map Prod.fst := (List.nodup_cons.mp distinct).1
    have absent : key ∉ m.keys := by
      intro present
      exact alone (by rw [List.map_append]; exact List.mem_append_right _ present)
    obtain ⟨first,put_first,⟨ok,later⟩ | ⟨_,rfl⟩⟩ := reinsert_next ran
    · have inserted := spec _ _ _ _ _ sound absent put_first
      have permuted : first.map.entries.Perm ((key,value) :: m.entries) := inserted.permuted ok
      have grown : first.map.size = m.size + 1 := by
        rw [inserted.sound.counted,permuted.length_eq,sound.counted]
        rfl
      have swapped : (rest ++ first.map.entries).Perm ((key,value) :: (rest ++ m.entries)) :=
        (List.Perm.append_left _ permuted).trans List.perm_middle
      have less := ih _ _ inserted.sound ((swapped.map Prod.fst).nodup_iff.mpr distinct) later
      rw [List.length_cons]
      omega
    · have less := each _ _ _ _ _ sound absent put_first failed
      rw [List.length_cons]
      omega

variable [DecidableEq K]

-- The maps of the program. A key is put after a lookup has missed it, as
-- awdl_peer_add does.
inductive Reachable (hash : K → UInt64) : HashmapMap K V → Prop where
  | new : Reachable hash hashmapNew
  | put (before : Reachable hash m) (missing : (hashmapGet hash m key false).1 = .missing)
      (ran : hashmapPut hash fuel m callocs key value = some run) : Reachable hash run.map
  | get (before : Reachable hash m) : Reachable hash (hashmapGet hash m key remove).2.2
  | itRemove (before : Reachable hash m) : Reachable hash (hashmapItRemove m it).2
  | write (before : Reachable hash m) (found : hashmapFind hash m key = some i) : Reachable hash (m.assign i key value)

-- All of these elements find a place, and every calloc on the way is granted.
inductive Moved (hash : K → UInt64) :
    List (K × V) → HashmapMap K V → List Bool → HashmapMap K V → List Bool → Prop where
  | done : Moved hash [] m callocs m callocs
  | place (found : hashmapHash hash m key = some i)
      (rest : Moved hash elements (m.store i key value) callocs after left) :
      Moved hash ((key,value) :: elements) m callocs after left
  | grow (full : hashmapHash hash m key = none) (granted : calloc callocs = (true,later))
      (moved : Moved hash m.entries (blank m) later larger between)
      (rest : Moved hash ((key,value) :: elements) larger between after left) :
      Moved hash ((key,value) :: elements) m callocs after left

-- The only calloc that may fail is one asked for on behalf of the new key itself.
inductive Kept (hash : K → UInt64) (key : K) : HashmapMap K V → List Bool → Prop where
  | room (found : hashmapHash hash m key = some i) : Kept hash key m callocs
  | refused (full : hashmapHash hash m key = none) (failed : calloc callocs = (false,later)) : Kept hash key m callocs
  | moved (full : hashmapHash hash m key = none) (granted : calloc callocs = (true,later))
      (moved : Moved hash m.entries (blank m) later larger between) (rest : Kept hash key larger between) :
      Kept hash key m callocs

theorem reachable_sound {m : HashmapMap K V} (reached : Reachable hash m) : Sound hash m := by
  induction reached with
  | new => exact new_sound
  | put _ missing ran before => exact (put_spec _ _ _ _ _ _ before (get_missing before missing) ran).sound
  | get _ before => exact get_sound before _ _
  | itRemove _ before => exact itRemove_sound before _
  | write _ found before =>
    obtain ⟨old,used⟩ := find_some found
    exact assign_sound before used _

section Moving

theorem Moved.append {m : HashmapMap K V} (first : Moved hash left m callocs middle between)
    (second : Moved hash right middle between after rest) : Moved hash (left ++ right) m callocs after rest := by
  induction first with
  | done => exact second
  | place found _ ih => exact .place found (ih second)
  | grow full granted moved _ _ ih => exact .grow full granted moved (ih second)

-- What the code puts without an error has been moved.
theorem reinsert_moved {put : HashmapMap K V → List Bool → K → V → Option (PutRun K V)}
    (each : ∀ m callocs key value run, put m callocs key value = some run → run.status = .ok →
      Moved hash [(key,value)] m callocs run.map run.callocs)
    (elements : List (K × V)) (m : HashmapMap K V) (callocs : List Bool) (run : PutRun K V)
    (ran : hashmapReinsert put (elements.map some) m callocs = some run) (ok : run.status = .ok) :
    Moved hash elements m callocs run.map run.callocs := by
  induction elements generalizing m callocs with
  | nil =>
    cases ran
    exact .done
  | cons entry rest ih =>
    obtain ⟨key,value⟩ := entry
    obtain ⟨first,put_first,⟨placed,later⟩ | ⟨failed,rfl⟩⟩ := reinsert_next ran
    · exact (each _ _ _ _ _ put_first placed).append (ih _ _ later)
    · exact absurd ok failed

theorem put_moved (fuel : Nat) (m : HashmapMap K V) (callocs : List Bool) (key : K) (value : V) (run : PutRun K V)
    (ran : hashmapPut hash fuel m callocs key value = some run) (ok : run.status = .ok) :
    Moved hash [(key,value)] m callocs run.map run.callocs := by
  induction fuel generalizing m callocs key value run with
  | zero => simp [hashmapPut] at ran
  | succ fuel ih =>
    rcases put_turn ran with ⟨i,found,rfl⟩ | ⟨full,⟨_,_,rfl⟩ | ⟨later,first,granted,moved,⟨failed,rfl⟩ | ⟨went,again⟩⟩⟩
    · exact .place found .done
    · cases ok
    · rw [failed] at ok
      cases ok
    · have succeeded := (reinsert_status (put_status fuel) _ _ _ _ moved).resolve_right went
      exact .grow full granted (reinsert_moved ih _ _ _ _ moved succeeded) (ih _ _ _ _ _ again ok)

-- And what has been moved is what the code makes of it.
theorem put_place {m : HashmapMap K V} (found : hashmapHash hash m key = some i)
    (ran : hashmapPut hash fuel m callocs key value = some run) : run = ⟨.ok,m.store i key value,callocs⟩ := by
  cases fuel with
  | zero => simp [hashmapPut] at ran
  | succ fuel =>
    rw [hashmapPut,found] at ran
    exact (Option.some.inj ran).symm

theorem moved_reinsert {m : HashmapMap K V} (moved : Moved hash elements m callocs after left) (fuel : Nat)
    (run : PutRun K V) (ran : hashmapReinsert (hashmapPut hash fuel) (elements.map some) m callocs = some run) :
    run = ⟨.ok,after,left⟩ := by
  induction moved generalizing fuel run with
  | done =>
    cases ran
    rfl
  | place found rest ih =>
    obtain ⟨first,put_first,outcome⟩ := reinsert_next ran
    obtain rfl := put_place found put_first
    rcases outcome with ⟨_,later⟩ | ⟨failed,_⟩
    · exact ih fuel run later
    · exact absurd rfl failed
  | grow full granted moved rest inner ih =>
    obtain ⟨first,put_first,outcome⟩ := reinsert_next ran
    cases fuel with
    | zero => simp [hashmapPut] at put_first
    | succ fuel =>
      rcases put_turn put_first with ⟨_,found,_⟩ | ⟨_,⟨_,refused,_⟩ | ⟨later,larger,supply,swapped,ends⟩⟩
      · rw [full] at found
        cases found
      · rw [granted] at refused
        cases refused
      · rw [granted] at supply
        cases supply
        obtain rfl := inner fuel _ swapped
        rcases ends with ⟨failed,_⟩ | ⟨_,again⟩
        · cases failed
        -- The element that made the table grow is put with less fuel than the rest.
        · exact ih (fuel + 1) run (reinsert_again (put_mono _ _ _ _ _ _ again) outcome)

end Moving

section Losing

theorem put_less (fuel : Nat) (m : HashmapMap K V) (callocs : List Bool) (key : K) (value : V) (run : PutRun K V)
    (sound : Sound hash m) (absent : key ∉ m.keys) (ran : hashmapPut hash fuel m callocs key value = some run)
    (failed : run.status = .omem) : run.map.size ≤ m.size := by
  induction fuel generalizing m callocs key value run with
  | zero => simp [hashmapPut] at ran
  | succ fuel ih =>
    rcases put_turn ran with ⟨_,_,rfl⟩ | ⟨_,⟨_,_,rfl⟩ | ⟨later,first,granted,moved,⟨_,rfl⟩ | ⟨went,again⟩⟩⟩
    · cases failed
    · exact Nat.le_refl _
    · have less := reinsert_less (put_spec fuel) ih m.entries (blank m) later _ (blank_room sound)
        (by rw [blank_entries,List.append_nil]; exact sound.distinct) moved failed
      rw [sound.counted]
      exact Nat.le_of_lt less
    · obtain ⟨larger,permuted⟩ := rehash_kept (put_spec fuel) sound granted moved went
      have less := ih _ _ _ _ _ larger (fun present => absent ((permuted.map Prod.fst).mem_iff.mp present)) again failed
      rwa [larger.counted,permuted.length_eq,← sound.counted] at less

end Losing

-- What a failed call owes to its caller.
structure Unharmed (hash : K → UInt64) (before after : HashmapMap K V) : Prop where
  get : ∀ key, (hashmapGet hash after key false).1 = (hashmapGet hash before key false).1 ∧
    (hashmapGet hash after key false).2.1 = (hashmapGet hash before key false).2.1
  length : hashmapLength after = hashmapLength before

theorem Unharmed.refl (m : HashmapMap K V) : Unharmed hash m m := ⟨fun _ => ⟨rfl,rfl⟩,rfl⟩

theorem Unharmed.trans {first second third : HashmapMap K V} (left : Unharmed hash first second)
    (right : Unharmed hash second third) : Unharmed hash first third :=
  ⟨fun key => ⟨(right.get key).1.trans (left.get key).1,(right.get key).2.trans (left.get key).2⟩,
    right.length.trans left.length⟩

theorem moved_unharmed {before after : HashmapMap K V} (sound : Sound hash before) (larger : Sound hash after)
    (permuted : after.entries.Perm before.entries) : Unharmed hash before after := by
  refine ⟨fun key => ?_,?_⟩
  · by_cases present : key ∈ before.keys
    · obtain ⟨value,member⟩ := mem_keys.mp present
      obtain ⟨_,_,old⟩ := get_present sound member false
      obtain ⟨_,_,new⟩ := get_present larger (permuted.mem_iff.mpr member) false
      rw [old,new]
      exact ⟨rfl,rfl⟩
    · have absent : key ∉ after.keys := fun held => present ((permuted.map Prod.fst).mem_iff.mp held)
      rw [get_absent present,get_absent absent]
      exact ⟨rfl,rfl⟩
  · exact larger.counted.trans (permuted.length_eq.trans sound.counted.symm)

theorem kept_unharmed {m : HashmapMap K V} (kept : Kept hash key m callocs) (sound : Sound hash m) (fuel : Nat)
    (run : PutRun K V) (ran : hashmapPut hash fuel m callocs key value = some run) (failed : run.status = .omem) :
    Unharmed hash m run.map := by
  induction kept generalizing fuel run with
  | room found =>
    obtain rfl := put_place found ran
    cases failed
  | refused full supply =>
    cases fuel with
    | zero => simp [hashmapPut] at ran
    | succ fuel =>
      rcases put_turn ran with ⟨_,found,_⟩ | ⟨_,⟨_,_,rfl⟩ | ⟨_,_,granted,_⟩⟩
      · rw [full] at found
        cases found
      · exact .refl _
      · rw [supply] at granted
        cases granted
  | moved full granted moved rest ih =>
    cases fuel with
    | zero => simp [hashmapPut] at ran
    | succ fuel =>
      rcases put_turn ran with ⟨_,found,_⟩ | ⟨_,⟨_,refused,_⟩ | ⟨_,_,supply,swapped,ends⟩⟩
      · rw [full] at found
        cases found
      · rw [granted] at refused
        cases refused
      · rw [granted] at supply
        cases supply
        obtain rfl := moved_reinsert moved fuel _ swapped
        obtain ⟨larger,permuted⟩ := rehash_kept (put_spec fuel) sound granted swapped (by decide : MapStatus.ok ≠ .omem)
        rcases ends with ⟨stopped,_⟩ | ⟨_,again⟩
        · cases stopped
        · exact (moved_unharmed sound larger permuted).trans (ih larger fuel run again failed)

-- A call that fails with as many elements as before has moved them all.
theorem counted_kept (fuel : Nat) (m : HashmapMap K V) (callocs : List Bool) (run : PutRun K V) (sound : Sound hash m)
    (ran : hashmapPut hash fuel m callocs key value = some run)
    (safe : run.status = .omem → m.size ≤ run.map.size) : Kept hash key m callocs := by
  induction fuel generalizing m callocs run with
  | zero => simp [hashmapPut] at ran
  | succ fuel ih =>
    rcases put_turn ran with ⟨_,found,_⟩ | ⟨full,⟨_,refused,_⟩ | ⟨later,first,granted,moved,⟨failed,rfl⟩ | ⟨went,again⟩⟩⟩
    · exact .room found
    · exact .refused full refused
    · have less := reinsert_less (put_spec fuel) (put_less fuel) m.entries (blank m) later _ (blank_room sound)
        (by rw [blank_entries,List.append_nil]; exact sound.distinct) moved failed
      have same := safe failed
      rw [sound.counted] at same
      exact absurd less (Nat.not_lt.mpr same)
    · obtain ⟨larger,permuted⟩ := rehash_kept (put_spec fuel) sound granted moved went
      have ok := (reinsert_status (put_status fuel) _ _ _ _ moved).resolve_right went
      refine .moved full granted (reinsert_moved (put_moved fuel) _ _ _ _ moved ok) (ih _ _ _ larger again fun failed => ?_)
      rw [larger.counted,permuted.length_eq,← sound.counted]
      exact safe failed

section Peers
variable {hash : EtherAddr → UInt64} {peers : AwdlPeers}

def KeepsPeers (hash : EtherAddr → UInt64) (before after : AwdlPeers) : Prop :=
  ∀ addr peer, awdlPeerGet hash before addr = (.ok,some peer) → awdlPeerGet hash after addr = (.ok,some peer)

theorem peerGet_entries (sound : Sound hash peers) :
    awdlPeerGet hash peers addr = (.ok,some peer) ↔ (addr,peer) ∈ peers.entries := by
  rw [PeerMap.get_found]
  constructor
  · rintro ⟨i,_,held⟩
    exact Hashmap.mem_entries.mpr ⟨i,held⟩
  · exact find_complete sound

theorem peerGet_parts (peers : AwdlPeers) (addr : EtherAddr) : awdlPeerGet hash peers addr =
    (if (hashmapGet hash peers addr false).1 = .missing then .missing else .ok,(hashmapGet hash peers addr false).2.1) := by
  unfold awdlPeerGet
  rcases hashmapGet hash peers addr false with ⟨status,value,left⟩
  cases status <;> rfl

theorem unharmed_keeps (same : Unharmed hash before after) : KeepsPeers hash before after := by
  intro addr peer known
  obtain ⟨status,value⟩ := same.get addr
  rw [peerGet_parts,status,value,← peerGet_parts,known]

theorem keeps_count (sound : Sound hash before) (after_sound : Sound hash after) (keeps : KeepsPeers hash before after) :
    before.size ≤ after.size := by
  rw [sound.counted,after_sound.counted]
  have distinct : before.entries.Nodup := List.Nodup.of_map _ sound.distinct
  refine (List.subperm_of_subset distinct ?_).length_le
  rintro ⟨addr,peer⟩ member
  exact (peerGet_entries after_sound).mp (keeps addr peer ((peerGet_entries sound).mpr member))

theorem add_known (sound : Sound hash peers) (present : addr ∈ peers.keys)
    (ran : awdlPeerAdd hash fuel callocs mem peers addr now = some run) :
    (awdlPeerGet hash peers addr).1 = .ok ∧ run.status = .update := by
  obtain ⟨peer,member⟩ := mem_keys.mp present
  have found := (peerGet_entries sound).mpr member
  rw [PeerMap.add_found found] at ran
  cases ran
  exact ⟨by rw [found],PeerMap.addOut_status⟩

theorem add_unknown (absent : addr ∉ peers.keys)
    (ran : awdlPeerAdd hash fuel callocs mem peers addr now = some run) :
    ∃ inserted, hashmapPut hash fuel peers callocs addr {awdlPeerNew addr mem with lastUpdate := now} = some inserted ∧
      (inserted.status = .ok ∧ run.status = .ok ∨
        inserted.status = .omem ∧ run.status = .internal ∧ run.peers = inserted.map) := by
  obtain ⟨inserted,stored,⟨ok,rfl⟩ | ⟨notOk,rfl⟩⟩ := PeerMap.add_absent absent ran
  · exact ⟨inserted,stored,.inl ⟨ok,PeerMap.addOut_status⟩⟩
  · exact ⟨inserted,stored,.inr ⟨(put_status _ _ _ _ _ _ stored).resolve_left notOk,rfl,rfl⟩⟩

theorem failed_add (sound : Sound hash peers)
    (ran : awdlPeerAdd hash fuel callocs mem peers addr now = some run) :
    (run.status = .internal → KeepsPeers hash peers run.peers) ↔
      (awdlPeerGet hash peers addr).1 = .ok ∨ Kept hash addr peers callocs := by
  by_cases present : addr ∈ peers.keys
  · obtain ⟨known,updated⟩ := add_known sound present ran
    refine iff_of_true ?_ (.inl known)
    intro failed
    rw [updated] at failed
    cases failed
  · have missing : (awdlPeerGet hash peers addr).1 ≠ .ok := by
      rw [awdlPeerGet,get_absent present]
      exact (by decide : PeersStatus.missing ≠ .ok)
    rw [or_iff_right missing]
    obtain ⟨inserted,stored,outcome⟩ := add_unknown present ran
    have spec := put_spec fuel _ _ _ _ _ sound present stored
    constructor
    · intro safe
      refine counted_kept fuel peers callocs inserted sound stored fun omem => ?_
      rcases outcome with ⟨ok,_⟩ | ⟨_,failed,left⟩
      · rw [ok] at omem
        cases omem
      · have keeps := safe failed
        rw [left] at keeps
        exact keeps_count sound spec.sound keeps
    · intro kept failed
      rcases outcome with ⟨_,ok⟩ | ⟨omem,_,left⟩
      · rw [ok] at failed
        cases failed
      · rw [left]
        exact unharmed_keeps (kept_unharmed kept sound fuel inserted stored omem)

end Peers

theorem failed_insertion_iff {m : HashmapMap K V} (reached : Reachable hash m) :
    (∀ fuel callocs key value run, hashmapPut hash fuel m callocs key value = some run →
      ((run.status = .omem → Unharmed hash m run.map) ↔ Kept hash key m callocs)) ∧
    ∀ (hash : EtherAddr → UInt64) (peers : AwdlPeers) fuel callocs mem addr now run, Reachable hash peers →
      awdlPeerAdd hash fuel callocs mem peers addr now = some run →
        ((run.status = .internal → KeepsPeers hash peers run.peers) ↔
          (awdlPeerGet hash peers addr).1 = .ok ∨ Kept hash addr peers callocs) := by
  have sound := reachable_sound reached
  refine ⟨fun fuel callocs key value run ran => ?_,fun hash peers fuel callocs mem addr now run held ran => ?_⟩
  · constructor
    · intro safe
      exact counted_kept fuel m callocs run sound ran fun failed => (safe failed).length.ge
    · intro kept failed
      exact kept_unharmed kept sound fuel run ran failed
  · exact failed_add (reachable_sound held) ran

def plainHash (key : Nat) : UInt64 := UInt64.ofNat key

-- Insertions of new keys, memory permitting.
def fill : List Nat → HashmapMap Nat Nat → Option (HashmapMap Nat Nat)
  | [],m => some m
  | key :: rest,m =>
    if (hashmapGet plainHash m key false).1 = .missing then
      (hashmapPut plainHash 1 m [] key key).bind fun run => fill rest run.map
    else none

theorem fill_reachable (reached : Reachable plainHash m) (filled : fill keys m = some after) :
    Reachable plainHash after := by
  induction keys generalizing m with
  | nil =>
    cases filled
    exact reached
  | cons key rest ih =>
    rw [fill] at filled
    split at filled
    · rename_i missing
      obtain ⟨run,ran,filled⟩ := Option.bind_eq_some_iff.mp filled
      exact ih (.put reached missing ran) filled
    · cases filled

-- Eight keys fill the window from slot 248 on, and the key of slot 255 goes to slot 0. In
-- the larger array that one comes first, takes slot 255, and the eighth finds no place.
def crowd : List Nat := ((List.range 8).map fun i => 248 + 512 * i) ++ [255]

theorem crowd_refused : ((fill crowd hashmapNew).bind fun m => (hashmapPut plainHash 2 m [false] 4344 0).map fun run =>
    (hashmapHash plainHash m 4344,run.status)) = some (none,.omem) := by decide +kernel

theorem crowd_lost : ((fill crowd hashmapNew).bind fun m => (hashmapPut plainHash 2 m [true,false] 4344 0).map fun run =>
    (run.status,(hashmapGet plainHash m 3832 false).1,(hashmapGet plainHash run.map 3832 false).1)) =
      some (.omem,.ok,.missing) := by decide +kernel

-- The first calloc refused, all is well; the second, and the last of the eight is gone.
theorem failed_insertion_iff_crowd : ∃ m refused lost, fill crowd hashmapNew = some m ∧
    hashmapPut plainHash 2 m [false] 4344 0 = some refused ∧ refused.status = .omem ∧
    Unharmed plainHash m refused.map ∧
    hashmapPut plainHash 2 m [true,false] 4344 0 = some lost ∧ lost.status = .omem ∧
    ¬ Kept plainHash 4344 m [true,false] := by
  obtain ⟨m,filled,rest⟩ := Option.bind_eq_some_iff.mp crowd_refused
  obtain ⟨refused,ran,same⟩ := Option.map_eq_some_iff.mp rest
  obtain ⟨full,failed⟩ := Prod.mk.inj same
  obtain ⟨also,filledAlso,rest⟩ := Option.bind_eq_some_iff.mp crowd_lost
  obtain rfl : m = also := Option.some.inj (filled.symm.trans filledAlso)
  obtain ⟨lost,ranAlso,same⟩ := Option.map_eq_some_iff.mp rest
  obtain ⟨failedAlso,before,after⟩ := Prod.mk.inj same |>.imp_right Prod.mk.inj
  have reached := fill_reachable .new filled
  refine ⟨m,refused,lost,filled,ran,failed,?_,ranAlso,failedAlso,fun kept => ?_⟩
  · exact ((failed_insertion_iff reached).1 _ _ _ _ _ ran).mpr (.refused full rfl) failed
  · have gone := ((((failed_insertion_iff reached).1 _ _ _ _ _ ranAlso).mpr kept failedAlso).get 3832).1
    rw [before,after] at gone
    cases gone

theorem element_lost : ¬ ∀ (m : HashmapMap Nat Nat), Reachable plainHash m → ∀ fuel callocs key value run,
    hashmapPut plainHash fuel m callocs key value = some run → run.status = .omem → Unharmed plainHash m run.map := by
  intro always
  obtain ⟨m,filled,rest⟩ := Option.bind_eq_some_iff.mp crowd_lost
  obtain ⟨run,ran,same⟩ := Option.map_eq_some_iff.mp rest
  obtain ⟨failed,before,after⟩ := Prod.mk.inj same |>.imp_right Prod.mk.inj
  have unharmed := always m (fill_reachable .new filled) _ _ _ _ run ran failed
  have kept := (unharmed.get 3832).1
  rw [before,after] at kept
  cases kept

end EspOwl.FailedInsertion
