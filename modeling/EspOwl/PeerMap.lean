import EspOwl.Histories
import EspOwl.PartialMaps
import EspOwl.Peers

namespace EspOwl.PeerMap
open Hashmap PartialMaps Histories SlotArrays

-- The peer table seen as a finite map from addresses to records.
abbrev Peers := EtherAddr → Option AwdlPeer

-- What an addition does to a record: the time stamp, and validity once earned.
def touch (now : UInt64) (peer : AwdlPeer) : AwdlPeer :=
  let peer := {peer with lastUpdate := now}
  if !peer.isValid && awdlPeerIsValid peer then {peer with isValid := true} else peer

theorem touch_isValid (now : UInt64) (peer : AwdlPeer) :
    (touch now peer).isValid = (peer.isValid || awdlPeerIsValid peer) := by
  have stamped : awdlPeerIsValid {peer with lastUpdate := now} = awdlPeerIsValid peer := rfl
  unfold touch
  dsimp only
  rw [stamped]
  split
  · rename_i turns
    rw [Bool.and_eq_true] at turns
    rw [turns.2,Bool.or_true]
  · rename_i stays
    cases valid : peer.isValid <;> simp_all

theorem touch_election (now : UInt64) (peer : AwdlPeer) : (touch now peer).election = peer.election := by
  unfold touch
  dsimp only
  split <;> rfl

theorem touch_sentMif (now : UInt64) (peer : AwdlPeer) : (touch now peer).sentMif = peer.sentMif := by
  unfold touch
  dsimp only
  split <;> rfl

variable {hash : EtherAddr → UInt64}

structure Refines (hash : EtherAddr → UInt64) (peers : AwdlPeers) (f : Peers) : Prop where
  sound : Sound hash peers
  listed : Enumerates f peers.entries
  keyed : ∀ addr peer, f addr = some peer → peer.addr = addr

theorem init_refines : Refines hash awdlPeersInit (fun _ => none) :=
  ⟨new_sound,by rw [awdlPeersInit,hashmapNew,HashmapMap.entries,entries_empty]; exact enumerates_nil,by simp⟩

theorem Refines.mem_keys (refines : Refines hash peers f) : addr ∈ peers.keys ↔ addr ∈ present f :=
  refines.listed.present_iff.symm

theorem Refines.get_some (refines : Refines hash peers f) (found : f addr = some peer) :
    awdlPeerGet hash peers addr = (.ok,some peer) := by
  obtain ⟨_,_,got⟩ := get_present refines.sound ((refines.listed.exact _ _).mpr found) false
  simp [awdlPeerGet,got]

theorem Refines.get_none (refines : Refines hash peers f) (missing : f addr = none) :
    awdlPeerGet hash peers addr = (.missing,none) := by
  have absent := refines.listed.absent.mp missing
  simp [awdlPeerGet,get_absent absent]

theorem Refines.get_snd (refines : Refines hash peers f) : (awdlPeerGet hash peers addr).2 = f addr := by
  cases bound : f addr with
  | none => rw [refines.get_none bound]
  | some peer => rw [refines.get_some bound]

theorem Refines.bound (refines : Refines hash peers f) (found : awdlPeerGet hash peers addr = (.ok,some peer)) :
    f addr = some peer := by
  rw [← refines.get_snd,found]

-- The next three hold of any table, sound or not.
theorem get_found : awdlPeerGet hash peers addr = (.ok,some peer) ↔
    ∃ i, hashmapFind hash peers addr = some i ∧ peers.data[i]? = some (some (addr,peer)) := by
  rw [awdlPeerGet,hashmapGet]
  cases found : hashmapFind hash peers addr with
  | none => simp
  | some i =>
    obtain ⟨value,at_i⟩ := find_some found
    simp [at_i]

theorem get_store (found : awdlPeerGet hash peers addr = (.ok,some old)) (peer : AwdlPeer) :
    awdlPeerGet hash (awdlPeerStore hash peers addr peer) addr = (.ok,some peer) := by
  obtain ⟨i,at_slot,_⟩ := get_found.mp found
  have stored : awdlPeerStore hash peers addr peer = peers.assign i addr peer := by
    simp [awdlPeerStore,at_slot]
  rw [stored]
  exact get_found.mpr ⟨i,find_assign at_slot peer⟩

theorem add_found (found : awdlPeerGet hash peers addr = (.ok,some peer)) (fuel : Nat) (callocs : List Bool)
    (mem : AwdlPeer) (now : UInt64) : awdlPeerAdd hash fuel callocs mem peers addr now =
      some (awdlPeerAddOut hash .update (awdlPeerStore hash peers addr {peer with lastUpdate := now}) addr
        {peer with lastUpdate := now} callocs) := by
  obtain ⟨i,at_slot,held⟩ := get_found.mp found
  have got : hashmapGet hash peers addr false = (.ok,some peer,peers) := by simp [hashmapGet,at_slot,held]
  simp [awdlPeerAdd,got]

theorem addOut_get (found : awdlPeerGet hash peers addr = (.ok,some peer)) (status : PeersStatus)
    (callocs : List Bool) : awdlPeerGet hash (awdlPeerAddOut hash status peers addr peer callocs).peers addr =
      (.ok,some (if !peer.isValid && awdlPeerIsValid peer then {peer with isValid := true} else peer)) := by
  unfold awdlPeerAddOut
  dsimp only
  split
  · exact get_store found _
  · exact found

-- An addition that reports no error leaves a record to be looked up.
theorem added_get (ran : awdlPeerAdd hash fuel callocs mem peers addr now = some run)
    (accepted : ¬ run.status.code < 0) : ∃ peer, awdlPeerGet hash run.peers addr = (.ok,some peer) := by
  unfold awdlPeerAdd at ran
  split at ran
  · rename_i old left got
    cases ran
    have found : awdlPeerGet hash peers addr = (.ok,some old) := by rw [awdlPeerGet,got]
    exact ⟨_,addOut_get (get_store found _) _ _⟩
  · dsimp only at ran
    split at ran
    · cases ran
    · rename_i inserted stored
      split at ran
      · rename_i succeeded
        cases ran
        exact ⟨_,addOut_get (get_found.mpr (put_found _ _ _ _ _ _ stored succeeded)) _ _⟩
      · cases ran
        exact absurd (by decide : PeersStatus.internal.code < 0) accepted

theorem Refines.keyed_put (refines : Refines hash peers f) (own : peer.addr = addr) :
    ∀ a p, put f addr peer a = some p → p.addr = a := by
  intro a p bound
  rcases put_some bound with ⟨rfl,rfl⟩ | ⟨_,held⟩
  · exact own
  · exact refines.keyed a p held

theorem Refines.store (refines : Refines hash peers f) (found : f addr = some old) (peer : AwdlPeer)
    (own : peer.addr = addr) : Refines hash (awdlPeerStore hash peers addr peer) (put f addr peer) := by
  obtain ⟨i,at_slot,used⟩ := find_complete refines.sound ((refines.listed.exact _ _).mpr found)
  have stored : awdlPeerStore hash peers addr peer = peers.assign i addr peer := by
    simp [awdlPeerStore,at_slot]
  obtain ⟨left,right,before,after⟩ := assign_entries used peer
  rw [stored]
  refine ⟨assign_sound refines.sound used peer,?_,refines.keyed_put own⟩
  have listed := refines.listed
  rw [before] at listed
  rw [after]
  exact listed.put_over peer

theorem put_twice (f : Peers) (addr : EtherAddr) (first second : AwdlPeer) :
    put (put f addr first) addr second = put f addr second := Function.update_idem _ _ _

-- Behind the label `out` the record already has its new time stamp.
theorem Refines.addOut (refines : Refines hash peers (put f addr {peer with lastUpdate := now}))
    (own : peer.addr = addr) :
    Refines hash (awdlPeerAddOut hash status peers addr {peer with lastUpdate := now} callocs).peers
      (put f addr (touch now peer)) := by
  unfold awdlPeerAddOut touch
  dsimp only
  split
  · have stored := refines.store (put_self ..) {peer with lastUpdate := now,isValid := true} own
    rwa [put_twice] at stored
  · exact refines

theorem addOut_status : (awdlPeerAddOut hash status peers addr peer callocs).status = status := by
  unfold awdlPeerAddOut; split <;> rfl

theorem addOut_callocs : (awdlPeerAddOut hash status peers addr peer callocs).callocs = callocs := by
  unfold awdlPeerAddOut; split <;> rfl

-- Everything awdl_peer_add can do. Without memory for a rehash it may lose
-- peers, but what remains is still a map with bindings of the old one.
inductive Added (hash : EtherAddr → UInt64) (f : Peers) (callocs : List Bool) (mem : AwdlPeer)
    (addr : EtherAddr) (now : UInt64) (run : AddRun) : Prop where
  | fresh (absent : f addr = none) (status : run.status = .ok)
      (refines : Refines hash run.peers (put f addr (touch now (awdlPeerNew addr mem))))
  | known (found : f addr = some peer) (status : run.status = .update) (kept : run.callocs = callocs)
      (refines : Refines hash run.peers (put f addr (touch now peer)))
  | lost (absent : f addr = none) (status : run.status = .internal) (scarce : callocs ≠ [])
      (refines : Refines hash run.peers g) (part : ∀ a p, g a = some p → f a = some p ∨ a = addr)

-- A table is that of one map only.
theorem Refines.unique (left : Refines hash peers f) (right : Refines hash peers g) : f = g := by
  funext addr
  refine Option.ext fun peer => ?_
  rw [← left.listed.exact,right.listed.exact]

-- Even without memory for a rehash nothing but the new record is new.
theorem Refines.put_origin (refines : Refines hash peers f) (absent : f addr = none)
    (stored : hashmapPut hash fuel peers callocs addr peer = some inserted)
    (member : (a,p) ∈ inserted.map.entries) : f a = some p ∨ a = addr ∧ p = peer := by
  have spec := put_spec fuel _ _ _ _ _ refines.sound (refines.listed.absent.mp absent) stored
  have part : inserted.map.entries.Subperm ((addr,peer) :: peers.entries) := by
    rcases spec.outcome with ⟨_,permuted⟩ | ⟨_,sub⟩
    · exact permuted.subperm
    · exact sub
  rcases List.mem_cons.mp (part.subset member) with new | old
  · cases new
    exact .inr ⟨rfl,rfl⟩
  · exact .inl ((refines.listed.exact a p).mp old)

-- The addition of an unknown address is an insertion.
theorem add_absent (absent : addr ∉ peers.keys)
    (ran : awdlPeerAdd hash fuel callocs mem peers addr now = some run) :
    ∃ inserted, hashmapPut hash fuel peers callocs addr {awdlPeerNew addr mem with lastUpdate := now} = some inserted ∧
      (inserted.status = .ok ∧ run = awdlPeerAddOut hash .ok inserted.map addr
          {awdlPeerNew addr mem with lastUpdate := now} inserted.callocs ∨
        inserted.status ≠ .ok ∧ run = ⟨.internal,inserted.map,none,inserted.callocs⟩) := by
  have got : hashmapGet hash peers addr false = (.missing,none,peers) := get_absent absent false
  simp only [awdlPeerAdd,got] at ran
  cases stored : hashmapPut hash fuel peers callocs addr {awdlPeerNew addr mem with lastUpdate := now} with
  | none => rw [stored] at ran; cases ran
  | some inserted =>
    simp only [stored] at ran
    refine ⟨inserted,rfl,?_⟩
    by_cases succeeded : inserted.status = .ok
    · rw [if_pos succeeded] at ran
      exact .inl ⟨succeeded,(Option.some.inj ran).symm⟩
    · rw [if_neg succeeded] at ran
      exact .inr ⟨succeeded,(Option.some.inj ran).symm⟩

theorem Refines.added (refines : Refines hash peers f)
    (ran : awdlPeerAdd hash fuel callocs mem peers addr now = some run) :
    Added hash f callocs mem addr now run := by
  cases bound : f addr with
  | some peer =>
    obtain ⟨_,_,got⟩ := get_present refines.sound ((refines.listed.exact _ _).mpr bound) false
    simp only [awdlPeerAdd,got] at ran
    cases ran
    have own := refines.keyed addr peer bound
    have stored := refines.store bound {peer with lastUpdate := now} own
    exact .known bound addOut_status addOut_callocs (stored.addOut own)
  | none =>
    obtain ⟨inserted,stored,⟨ok,rfl⟩ | ⟨failed,rfl⟩⟩ := add_absent (refines.listed.absent.mp bound) ran
    · have spec := put_spec fuel _ _ _ _ _ refines.sound (refines.listed.absent.mp bound) stored
      have listed := (refines.listed.put_fresh bound _).perm (spec.permuted ok).symm
      have base : Refines hash inserted.map (put f addr {awdlPeerNew addr mem with lastUpdate := now}) :=
        ⟨spec.sound,listed,refines.keyed_put rfl⟩
      exact .fresh bound addOut_status (base.addOut rfl)
    · have spec := put_spec fuel _ _ _ _ _ refines.sound (refines.listed.absent.mp bound) stored
      obtain ⟨g,listed⟩ := enumerates_exists spec.sound.distinct
      have origin := fun a p held => refines.put_origin bound stored (listed.exact a p |>.mpr held)
      refine .lost bound rfl ?_ ⟨spec.sound,listed,?_⟩ (fun a p held => (origin a p held).imp_right And.left)
      · intro supply
        exact failed (spec.supplied supply).1
      · intro a p held
        rcases origin a p held with old | ⟨rfl,rfl⟩
        · exact refines.keyed a p old
        · rfl

theorem touch_new (now : UInt64) (addr : EtherAddr) (mem : AwdlPeer) :
    touch now (awdlPeerNew addr mem) = {awdlPeerNew addr mem with lastUpdate := now} := rfl

-- Where every record of a table comes from after an addition.
theorem Refines.added_record (refines : Refines hash peers f)
    (ran : awdlPeerAdd hash fuel callocs mem peers addr now = some run) (after : Refines hash run.peers g)
    (held : g a = some p) :
    a ≠ addr ∧ f a = some p ∨ a = addr ∧ p = touch now ((f addr).getD (awdlPeerNew addr mem)) := by
  have written : ∀ q, g = put f addr q → a ≠ addr ∧ f a = some p ∨ a = addr ∧ p = q := by
    rintro q rfl
    exact (put_some held).symm
  cases refines.added ran with
  | fresh absent status made =>
    rw [absent]
    exact written _ (after.unique made)
  | known found status kept made =>
    rw [found]
    exact written _ (after.unique made)
  | lost absent status scarce made part =>
    rw [absent]
    obtain ⟨inserted,stored,⟨ok,rfl⟩ | ⟨failed,rfl⟩⟩ := add_absent (refines.listed.absent.mp absent) ran
    · rw [addOut_status] at status
      cases status
    · rcases refines.put_origin absent stored ((after.listed.exact a p).mpr held) with old | ⟨rfl,rfl⟩
      · refine .inl ⟨?_,old⟩
        rintro rfl
        rw [absent] at old
        cases old
      · exact .inr ⟨rfl,(touch_new now a mem).symm⟩

theorem Refines.added_supplied (refines : Refines hash peers f)
    (ran : awdlPeerAdd hash fuel [] mem peers addr now = some run) : run.callocs = [] := by
  cases bound : f addr with
  | some peer =>
    cases refines.added ran with
    | fresh absent status after => rw [absent] at bound; cases bound
    | known found status kept after => exact kept
    | lost absent status scarce after part => exact absurd rfl scarce
  | none =>
    obtain ⟨inserted,stored,outcome⟩ := add_absent (refines.listed.absent.mp bound) ran
    obtain ⟨ok,left⟩ :=
      (put_spec fuel _ _ _ _ _ refines.sound (refines.listed.absent.mp bound) stored).supplied rfl
    rcases outcome with ⟨_,rfl⟩ | ⟨failed,_⟩
    · rw [addOut_callocs,left]
    · exact absurd ok failed

theorem Refines.remove (refines : Refines hash peers f) (addr : EtherAddr) :
    (awdlPeerRemove hash peers addr).1 = (if (f addr).isSome then .ok else .missing) ∧
      Refines hash (awdlPeerRemove hash peers addr).2 (erase f addr) := by
  cases bound : f addr with
  | none =>
    have absent := refines.listed.absent.mp bound
    simp [awdlPeerRemove,get_absent absent,erase_absent bound,refines]
  | some peer =>
    obtain ⟨i,used,got⟩ := get_present refines.sound ((refines.listed.exact _ _).mpr bound) true
    simp only [awdlPeerRemove,got,Option.isSome_some,if_true,true_and]
    refine ⟨clear_sound refines.sound used,(refines.listed.perm (clear_entries used)).erased,?_⟩
    intro a p held
    exact refines.keyed a p (erase_some held).2

end EspOwl.PeerMap
