import EspOwl.HashmapValues
import EspOwl.PeerHistory
import EspOwl.PointerMap

namespace EspOwl.PeerHeap
open CellHeaps Histories PeerMap PeerHistory PointerMap
open Hashmap (HashmapMap HashmapIt PutRun Sound hashmapItNew hashmapItNext hashmapItRemove)
open Hashmap.HashmapMap (mapValues mapValues_clear mapValues_congr mapValues_assign)

-- peers.c with its records where malloc put them. The key of a slot points into the
-- record that the slot's data points to.
structure PeerTable where
  cells : Cells AwdlPeer
  map : Pointers

structure AddRun where
  status : PeersStatus
  table : PeerTable
  called : Option AwdlPeer
  callocs : List Bool

section Code
variable (hash : EtherAddr → UInt64)

def awdlPeersInit : PeerTable := ⟨Cells.empty,Hashmap.hashmapNew⟩

def awdlPeersLength (t : PeerTable) : Nat := Hashmap.hashmapLength t.map

def awdlPeerGet (t : PeerTable) (addr : EtherAddr) : Except Fault (PeersStatus × Option Nat) := do
  match ← hashmapGet hash AwdlPeer.addr t.cells t.map addr false with
  | (.missing,peer,_) => return (.missing,peer)
  | (_,peer,_) => return (.ok,peer)

-- The part of awdl_peer_add behind its label `out`.
def awdlPeerAddOut (status : PeersStatus) (t : PeerTable) (peer : Nat) (callocs : List Bool) : Except Fault AddRun := do
  let held ← t.cells.read peer
  if !held.isValid && awdlPeerIsValid held then
    let turned := {held with isValid := true}
    let cells ← t.cells.write peer turned
    return ⟨status,{t with cells := cells},some turned,callocs⟩
  else return ⟨status,t,none,callocs⟩

-- awdl_peer_new does not check its malloc, which succeeds here. `none` means that
-- hashmap_put does not return.
def awdlPeerAdd (fuel : Nat) (callocs : List Bool) (mem : AwdlPeer) (t : PeerTable) (addr : EtherAddr)
    (now : UInt64) : Except Fault (Option AddRun) := do
  match ← hashmapGet hash AwdlPeer.addr t.cells t.map addr false with
  | (.ok,some peer,_) =>
    let held ← t.cells.read peer
    let cells ← t.cells.write peer {held with lastUpdate := now}
    let run ← awdlPeerAddOut .update {t with cells := cells} peer callocs
    return some run
  | _ =>
    let peer := t.cells.next
    let cells := t.cells.alloc (awdlPeerNew addr mem)
    let made ← cells.read peer
    let cells ← cells.write peer {made with lastUpdate := now}
    match ← hashmapPut hash AwdlPeer.addr cells fuel t.map callocs peer peer with
    | none => return none
    | some run =>
      if run.status = .ok then
        let run ← awdlPeerAddOut .ok ⟨cells,run.map⟩ peer run.callocs
        return some run
      else
        let cells ← cells.free peer
        return some ⟨.internal,⟨cells,run.map⟩,none,run.callocs⟩

-- The record is read once more before it is freed.
def awdlPeerRemove (t : PeerTable) (addr : EtherAddr) : Except Fault (PeersStatus × PeerTable) := do
  match ← hashmapGet hash AwdlPeer.addr t.cells t.map addr true with
  | (.ok,some peer,left) =>
    let _ ← t.cells.read peer
    let cells ← t.cells.free peer
    return (.ok,⟨cells,left⟩)
  | _ => return (.missing,t)

-- while (awdl_peers_it_next(it, &peer) == PEERS_OK) body.
def peersWalk {σ : Type*} (body : HashmapIt → PeerTable → Nat → σ → Except Fault (PeerTable × σ)) :
    Nat → HashmapIt → PeerTable → σ → Except Fault (PeerTable × σ)
  | 0,_,t,s => .ok (t,s)
  | rounds+1,it,t,s =>
    match hashmapItNext t.map it with
    | (.ok,at_peer,some (_,peer)) =>
      match body at_peer t peer s with
      | .error fault => .error fault
      | .ok (t,s) => peersWalk body rounds at_peer t s
    | _ => .ok (t,s)

def peersIterate {σ : Type*} (body : HashmapIt → PeerTable → Nat → σ → Except Fault (PeerTable × σ)) (t : PeerTable)
    (s : σ) : Except Fault (PeerTable × σ) := peersWalk body (t.map.tableSize + 1) hashmapItNew t s

-- The body of the loop of awdl_peers_remove.
def removeOld (before : UInt64) (it : HashmapIt) (t : PeerTable) (peer : Nat) : Except Fault PeerTable := do
  let held ← t.cells.read peer
  if held.lastUpdate < before then
    let left := (hashmapItRemove t.map it).2
    let cells ← t.cells.free peer
    return ⟨cells,left⟩
  else return t

def awdlPeersRemove (t : PeerTable) (before : UInt64) : Except Fault PeerTable := do
  let (left,_) ← peersIterate (fun it t peer _ => do return (← removeOld before it t peer,())) t ()
  return left

def awdlPeersFree (t : PeerTable) : Except Fault PeerTable := do
  let (left,_) ← peersIterate (fun it t peer _ => do
    let left := (hashmapItRemove t.map it).2
    let cells ← t.cells.free peer
    return (⟨cells,left⟩,())) t ()
  return left

-- A client's loop, as in PeerHistory. awdl_peers_it_remove does not free the record.
def visitBody (choose : List AwdlPeer → AwdlPeer → Visit) (it : HashmapIt) (t : PeerTable) (peer : Nat)
    (seen : List AwdlPeer) : Except Fault (PeerTable × List AwdlPeer) := do
  let held ← t.cells.read peer
  match choose seen held with
  | .keep => return (t,seen ++ [held])
  | .itRemove => return ({t with map := (hashmapItRemove t.map it).2},seen ++ [held])
  | .peerRemove =>
    let (_,left) ← awdlPeerRemove hash t held.addr
    return (left,seen ++ [held])

end Code

section Housing
variable {hash : EtherAddr → UInt64} {m : HashmapMap EtherAddr (Nat × Nat)} {t : PeerTable} {peers : AwdlPeers}
variable {i j p : Nat}

def recordAt (cells : Cells AwdlPeer) (pointers : Nat × Nat) : AwdlPeer := (cells.live pointers.2).getD default

-- The invariant, and the table of records that the heap stands for. A key lies in the
-- record of its slot, so a record and its key are freed together.
structure Houses (hash : EtherAddr → UInt64) (m : HashmapMap EtherAddr (Nat × Nat)) (t : PeerTable)
    (peers : AwdlPeers) : Prop where
  mirrors : Mirrors AwdlPeer.addr t.cells t.map m
  sound : Sound hash m
  own : ∀ addr key data, (addr,key,data) ∈ m.entries → key = data
  bounded : t.cells.Bounded
  values : m.mapValues (recordAt t.cells) = peers

-- Nothing is allocated but what the table holds.
def Owned (m : HashmapMap EtherAddr (Nat × Nat)) (t : PeerTable) : Prop :=
  ∀ p peer, t.cells.live p = some peer → ∃ addr, (addr,p,p) ∈ m.entries

-- Who is in the table before a call and behind it has his record where it was.
def Retains (m next : HashmapMap EtherAddr (Nat × Nat)) : Prop :=
  ∀ entry ∈ next.entries, entry ∈ m.entries ∨ entry.1 ∉ m.keys

theorem Retains.of_subset (within : next.entries ⊆ m.entries) : Retains m next := fun _ member => .inl (within member)

theorem Retains.refl (m : HashmapMap EtherAddr (Nat × Nat)) : Retains m m := .of_subset (List.Subset.refl _)

theorem clear_subset (used : m.data[i]? = some (some entry)) : (m.clear i).entries ⊆ m.entries :=
  fun _ member => (Hashmap.clear_entries used).symm.subset (List.mem_cons_of_mem _ member)

theorem Houses.record (houses : Houses hash m t peers) (member : (addr,key,data) ∈ m.entries) :
    key = data ∧ ∃ peer, t.cells.live data = some peer ∧ peer.addr = addr := by
  obtain rfl := houses.own addr key data member
  exact ⟨rfl,houses.mirrors.entry member⟩

-- No two slots share a record.
theorem Houses.apart (houses : Houses hash m t peers) (used : m.data[i]? = some (some (addr,p,p)))
    (other : m.data[j]? = some (some (name,key,data))) (ne : j ≠ i) : data ≠ p := by
  rintro rfl
  obtain ⟨_,first,live,named⟩ := houses.record (Hashmap.mem_entries.mpr ⟨i,used⟩)
  obtain ⟨rfl,second,again,called⟩ := houses.record (Hashmap.mem_entries.mpr ⟨j,other⟩)
  rw [live] at again
  cases again
  subst named
  subst called
  exact ne (Hashmap.slot_unique houses.sound.distinct other used)

-- Cells outside the table may change.
theorem Houses.frame (houses : Houses hash m t peers) (bounded : after.Bounded)
    (kept : ∀ addr p peer, (addr,p,p) ∈ m.entries → t.cells.live p = some peer → after.live p = some peer) :
    Houses hash m ⟨after,t.map⟩ peers := by
  refine ⟨houses.mirrors.frame ?_,houses.sound,houses.own,bounded,?_⟩
  · intro addr key data peer member held
    obtain ⟨rfl,_⟩ := houses.record member
    exact ⟨peer,kept addr key peer member held,rfl⟩
  · rw [← houses.values]
    refine mapValues_congr fun addr v member => ?_
    obtain ⟨key,data⟩ := v
    obtain ⟨rfl,peer,held,_⟩ := houses.record member
    rw [recordAt,recordAt,held,kept addr key peer member held]

theorem Houses.write (houses : Houses hash m t peers) (used : m.data[i]? = some (some (addr,p,p)))
    (held : t.cells.live p = some old) (same : peer.addr = old.addr) :
    Houses hash m ⟨t.cells.put p (some peer),t.map⟩ (peers.assign i addr peer) := by
  refine ⟨houses.mirrors.frame ?_,houses.sound,houses.own,houses.bounded.put held _,?_⟩
  · intro name key data record member live
    by_cases here : key = p
    · subst here
      rw [held] at live
      cases live
      exact ⟨peer,Cells.put_self ..,same⟩
    · exact ⟨record,(Cells.put_other _ _ here).trans live,rfl⟩
  · have written : recordAt (t.cells.put p (some peer)) (p,p) = peer := by rw [recordAt,Cells.put_self]; rfl
    have assigned : (m.mapValues (recordAt t.cells)).assign i addr (recordAt (t.cells.put p (some peer)) (p,p)) = _ :=
      mapValues_assign used fun j name v ne other => by
        rw [recordAt,recordAt,Cells.put_other _ _ (houses.apart used other ne)]
    rw [written,houses.values] at assigned
    exact assigned.symm

-- What is left when a slot is blanked.
theorem Houses.clear (houses : Houses hash m t peers) (used : m.data[i]? = some (some (addr,p,p)))
    (left : Mirrors AwdlPeer.addr t.cells map (m.clear i)) : Houses hash (m.clear i) ⟨t.cells,map⟩ (peers.clear i) := by
  refine ⟨left,Hashmap.clear_sound houses.sound used,?_,houses.bounded,?_⟩
  · intro name key data member
    exact houses.own name key data (clear_subset used member)
  · rw [mapValues_clear,houses.values]

-- The record of a blanked slot may be freed: nothing points to it any more.
theorem Houses.release (houses : Houses hash m t peers) (used : m.data[i]? = some (some (addr,p,p)))
    (held : t.cells.live p = some peer) (left : Mirrors AwdlPeer.addr t.cells map (m.clear i)) :
    Houses hash (m.clear i) ⟨t.cells.put p none,map⟩ (peers.clear i) := by
  refine (houses.clear used left).frame (houses.bounded.put held _) fun name q record member live => ?_
  rw [Cells.put_other _ _ ?_,live]
  obtain ⟨j,other⟩ := Hashmap.mem_entries.mp member
  have ne : j ≠ i := by
    rintro rfl
    rw [HashmapMap.clear,List.getElem?_set_self (List.getElem?_eq_some_iff.mp used).1] at other
    cases other
  rw [HashmapMap.clear,List.getElem?_set_ne (Ne.symm ne)] at other
  exact houses.apart used other ne

theorem init_houses : Houses hash Hashmap.hashmapNew awdlPeersInit EspOwl.awdlPeersInit := by
  have empty : (Hashmap.hashmapNew : HashmapMap EtherAddr (Nat × Nat)).entries = [] := SlotArrays.entries_empty _
  refine ⟨⟨rfl,forall₂_blank _⟩,Hashmap.new_sound,?_,Cells.empty_bounded,?_⟩
  · rw [empty]
    exact fun _ _ _ member => by cases member
  · unfold mapValues Hashmap.hashmapNew EspOwl.awdlPeersInit
    rw [List.map_replicate]
    rfl

-- A lookup ends at a record that is allocated, or the address is nowhere.
inductive Looked (hash : EtherAddr → UInt64) (m : HashmapMap EtherAddr (Nat × Nat)) (t : PeerTable) (peers : AwdlPeers)
    (addr : EtherAddr) (remove : Bool) : Prop where
  | missing (absent : addr ∉ m.keys)
      (heap : hashmapGet hash AwdlPeer.addr t.cells t.map addr remove = .ok (.missing,none,left))
      (model : Hashmap.hashmapGet hash peers addr remove = (.missing,none,peers))
  | found {i p : Nat} (used : m.data[i]? = some (some (addr,p,p))) (held : t.cells.live p = some peer)
      (named : peer.addr = addr)
      (heap : hashmapGet hash AwdlPeer.addr t.cells t.map addr remove = .ok (.ok,some p,left))
      (mirrors : Mirrors AwdlPeer.addr t.cells left (if remove then m.clear i else m))
      (find : Hashmap.hashmapFind hash peers addr = some i)
      (model : Hashmap.hashmapGet hash peers addr remove = (.ok,some peer,if remove then peers.clear i else peers))

theorem Houses.look (houses : Houses hash m t peers) (addr : EtherAddr) (remove : Bool) :
    Looked hash m t peers addr remove := by
  obtain ⟨left,heap,mirrors⟩ := @get_mirrors _ _ hash _ _ _ _ _ houses.mirrors addr remove
  have model := @Hashmap.get_mapValues _ _ _ hash _ (recordAt t.cells) m addr remove
  have find := @Hashmap.find_mapValues _ _ _ hash _ (recordAt t.cells) m addr
  rw [houses.values] at model find
  by_cases present : addr ∈ m.keys
  · obtain ⟨⟨key,p⟩,member⟩ := Hashmap.mem_keys.mp present
    obtain ⟨rfl,peer,held,named⟩ := houses.record member
    obtain ⟨i,at_i,used⟩ := Hashmap.find_complete houses.sound member
    have got : Hashmap.hashmapGet hash m addr remove = (.ok,some (key,key),if remove then m.clear i else m) := by
      simp [Hashmap.hashmapGet,at_i,used]
    rw [got] at heap mirrors model
    refine .found used held named heap mirrors (find.trans at_i) (model.trans ?_)
    have value : recordAt t.cells (key,key) = peer := by rw [recordAt,held]; rfl
    cases remove with
    | false => simp [value,houses.values]
    | true => simp [value,mapValues_clear,houses.values]
  · have got := @Hashmap.get_absent _ _ hash _ _ _ present remove
    rw [got] at heap model
    rw [houses.values] at model
    exact .missing present heap model

section Calls

theorem get_cases (houses : Houses hash m t peers) (addr : EtherAddr) :
    (addr ∉ m.keys ∧ awdlPeerGet hash t addr = .ok (.missing,none) ∧
      EspOwl.awdlPeerGet hash peers addr = (.missing,none)) ∨
    ∃ i p peer, m.data[i]? = some (some (addr,p,p)) ∧ t.cells.live p = some peer ∧
      Hashmap.hashmapFind hash peers addr = some i ∧ awdlPeerGet hash t addr = .ok (.ok,some p) ∧
      EspOwl.awdlPeerGet hash peers addr = (.ok,some peer) := by
  unfold awdlPeerGet EspOwl.awdlPeerGet
  cases houses.look addr false with
  | missing absent heap model =>
    rw [heap,model]
    exact .inl ⟨absent,rfl,rfl⟩
  | found used held named heap mirrors find model =>
    rw [heap,model]
    exact .inr ⟨_,_,_,used,held,find,rfl,rfl⟩

theorem owned_put (owned : Owned m t) (member : (addr,p,p) ∈ m.entries) (peer : AwdlPeer) :
    Owned m ⟨t.cells.put p (some peer),t.map⟩ := by
  intro q record live
  by_cases here : q = p
  · rw [here]
    exact ⟨addr,member⟩
  · exact owned q record ((Cells.put_other _ _ here).symm.trans live)

-- What a call comes to on the heap and in the table of records. With `supplied`, it loses
-- track of no record.
structure Agrees (hash : EtherAddr → UInt64) (supplied : Prop) (m : HashmapMap EtherAddr (Nat × Nat)) (t : PeerTable)
    (run : AddRun) (model : EspOwl.AddRun) : Prop where
  status : run.status = model.status
  called : run.called = model.called
  callocs : run.callocs = model.callocs
  houses : ∃ next, Houses hash next run.table model.peers ∧ (supplied → Owned m t → Owned next run.table) ∧ Retains m next

inductive Added (hash : EtherAddr → UInt64) (supplied : Prop) (m : HashmapMap EtherAddr (Nat × Nat)) (t : PeerTable) :
    Except Fault (Option AddRun) → Option EspOwl.AddRun → Prop where
  | endless : Added hash supplied m t (.ok none) none
  | ran (agrees : Agrees hash supplied m t run model) : Added hash supplied m t (.ok (some run)) (some model)

theorem addOut_agrees (houses : Houses hash m t peers) (used : m.data[i]? = some (some (addr,p,p)))
    (held : t.cells.live p = some peer) (find : Hashmap.hashmapFind hash peers addr = some i) (status : PeersStatus)
    (callocs : List Bool) :
    ∃ run, awdlPeerAddOut status t p callocs = .ok run ∧
      Agrees hash True m t run (EspOwl.awdlPeerAddOut hash status peers addr peer callocs) := by
  unfold awdlPeerAddOut EspOwl.awdlPeerAddOut EspOwl.awdlPeerStore
  simp only [ok_bind,ok_pure,Cells.read_live held,Cells.write_live held,find]
  split
  · refine ⟨_,rfl,rfl,rfl,rfl,m,houses.write used held rfl,fun _ owned => ?_,.refl m⟩
    exact owned_put owned (Hashmap.mem_entries.mpr ⟨_,used⟩) _
  · exact ⟨_,rfl,rfl,rfl,rfl,m,houses,fun _ => id,.refl m⟩

-- A write in front of a call, to a record of the table.
theorem Agrees.after_put (agrees : Agrees hash supplied m ⟨t.cells.put p (some peer),t.map⟩ run model)
    (member : (addr,p,p) ∈ m.entries) : Agrees hash supplied m t run model := by
  obtain ⟨status,called,callocs,next,houses,owned,retains⟩ := agrees
  exact ⟨status,called,callocs,next,houses,fun supply before => owned supply (owned_put before member peer),retains⟩

theorem known_agrees (houses : Houses hash m t peers) (used : m.data[i]? = some (some (addr,p,p)))
    (held : t.cells.live p = some peer) (find : Hashmap.hashmapFind hash peers addr = some i) (same : stamped.addr = peer.addr)
    (callocs : List Bool) :
    ∃ run, awdlPeerAddOut .update ⟨t.cells.put p (some stamped),t.map⟩ p callocs = .ok run ∧
      Agrees hash True m t run (EspOwl.awdlPeerAddOut hash .update (EspOwl.awdlPeerStore hash peers addr stamped) addr
        stamped callocs) := by
  have stored : EspOwl.awdlPeerStore hash peers addr stamped = peers.assign i addr stamped := by
    rw [EspOwl.awdlPeerStore,find]
  have again := (Hashmap.find_assign find stamped).1
  obtain ⟨run,out,agrees⟩ := addOut_agrees (houses.write used held same) used (Cells.put_self ..) again .update callocs
  rw [stored]
  exact ⟨run,out,agrees.after_put (Hashmap.mem_entries.mpr ⟨i,used⟩)⟩

-- An insertion that goes through: the new record has its slot.
theorem inserted_agrees (houses : Houses hash m t peers) (absent : addr ∉ m.keys)
    (mirrors : Mirrors AwdlPeer.addr (t.cells.alloc made) map after)
    (inserted : Hashmap.Inserted hash m callocs [(addr,t.cells.next,t.cells.next)] ⟨.ok,after,later⟩) :
    ∃ run, awdlPeerAddOut .ok ⟨t.cells.alloc made,map⟩ t.cells.next later = .ok run ∧
      Agrees hash (callocs = []) m t run (EspOwl.awdlPeerAddOut hash .ok (after.mapValues (recordAt (t.cells.alloc made)))
        addr made later) := by
  have permuted := inserted.permuted rfl
  have member : (addr,t.cells.next,t.cells.next) ∈ after.entries := permuted.symm.subset List.mem_cons_self
  have housed : Houses hash after ⟨t.cells.alloc made,map⟩ (after.mapValues (recordAt (t.cells.alloc made))) := by
    refine ⟨mirrors,inserted.sound,?_,houses.bounded.alloc made,rfl⟩
    intro name key data held
    rcases List.mem_cons.mp (permuted.subset held) with new | old
    · cases new
      rfl
    · exact houses.own name key data old
  obtain ⟨i,found,used⟩ := Hashmap.find_complete inserted.sound member
  have find := (Hashmap.find_mapValues (recordAt (t.cells.alloc made)) after addr).trans found
  obtain ⟨run,out,status,called,callocs,next,last,owned,retains⟩ :=
    addOut_agrees housed used (Cells.alloc_self ..) find .ok later
  refine ⟨run,out,status,called,callocs,next,last,fun _ before => owned trivial ?_,?_⟩
  · intro p peer live
    rcases Cells.alloc_cases live with ⟨rfl,_⟩ | old
    · exact ⟨addr,member⟩
    · obtain ⟨name,held⟩ := before p peer old
      exact ⟨name,permuted.symm.subset (List.mem_cons_of_mem _ held)⟩
  · intro entry listed
    rcases retains entry listed with held | gone
    · rcases List.mem_cons.mp (permuted.subset held) with rfl | old
      · exact .inr absent
      · exact .inl old
    · exact .inr fun old => gone ((permuted.map Prod.fst).symm.subset (List.mem_cons_of_mem _ old))

-- One that runs out of memory: the new record is in no slot, and is freed.
theorem refused_agrees (houses : Houses hash m t peers) (mirrors : Mirrors AwdlPeer.addr (t.cells.alloc made) map after)
    (sound : Sound hash after) (rest : after.entries.Subperm m.entries) (scarce : callocs ≠ []) :
    Agrees hash (callocs = []) m t ⟨.internal,⟨(t.cells.alloc made).put t.cells.next none,map⟩,none,later⟩
      ⟨.internal,after.mapValues (recordAt (t.cells.alloc made)),none,later⟩ := by
  refine ⟨rfl,rfl,rfl,after,?_,fun supply => absurd supply scarce,.of_subset rest.subset⟩
  have housed : Houses hash after ⟨t.cells.alloc made,map⟩ (after.mapValues (recordAt (t.cells.alloc made))) :=
    ⟨mirrors,sound,fun name key data member => houses.own name key data (rest.subset member),houses.bounded.alloc made,rfl⟩
  refine housed.frame ((houses.bounded.alloc made).put (Cells.alloc_self ..) none) fun name p peer member live => ?_
  obtain ⟨_,old,held,_⟩ := houses.record (rest.subset member)
  rw [Cells.put_other _ _ (houses.bounded.below held).ne,live]

theorem fresh_agrees (houses : Houses hash m t peers) (absent : addr ∉ m.keys) (named : made.addr = addr) (fuel : Nat)
    (callocs : List Bool) :
    Added hash (callocs = []) m t
      (do
        match ← hashmapPut hash AwdlPeer.addr (t.cells.alloc made) fuel t.map callocs t.cells.next t.cells.next with
        | none => return none
        | some run =>
          if run.status = .ok then
            let run ← awdlPeerAddOut .ok ⟨t.cells.alloc made,run.map⟩ t.cells.next run.callocs
            return some run
          else
            let cells ← (t.cells.alloc made).free t.cells.next
            return some ⟨.internal,⟨cells,run.map⟩,none,run.callocs⟩)
      (match Hashmap.hashmapPut hash fuel peers callocs addr made with
        | none => none
        | some run =>
          if run.status = .ok then some (EspOwl.awdlPeerAddOut hash .ok run.map addr made run.callocs)
          else some ⟨.internal,run.map,none,run.callocs⟩) := by
  have framed : Houses hash m ⟨t.cells.alloc made,t.map⟩ peers :=
    houses.frame (houses.bounded.alloc made) fun _ _ _ _ held => houses.bounded.alloc_keeps held made
  have answered : Answered AwdlPeer.addr (t.cells.alloc made)
      (hashmapPut hash AwdlPeer.addr (t.cells.alloc made) fuel t.map callocs t.cells.next t.cells.next)
      (Hashmap.hashmapPut hash fuel m callocs made.addr (t.cells.next,t.cells.next)) :=
    put_mirrors fuel _ _ _ _ _ _ framed.mirrors (Cells.alloc_self ..)
  have model := @Hashmap.put_mapValues _ _ _ hash _ (recordAt (t.cells.alloc made)) fuel m callocs addr
    (t.cells.next,t.cells.next)
  have value : recordAt (t.cells.alloc made) (t.cells.next,t.cells.next) = made := by
    rw [recordAt,Cells.alloc_self]
    rfl
  rw [framed.values,value] at model
  rw [model]
  rw [named] at answered
  revert answered
  generalize hashmapPut hash AwdlPeer.addr (t.cells.alloc made) fuel t.map callocs t.cells.next t.cells.next = heap
  generalize stored : Hashmap.hashmapPut hash fuel m callocs addr (t.cells.next,t.cells.next) = table
  intro answered
  cases answered with
  | endless => exact .endless
  | @ran _ after status later mirrors =>
    have inserted := Hashmap.put_spec fuel _ _ _ _ _ houses.sound absent stored
    by_cases done : status = .ok
    · subst done
      obtain ⟨run,out,agrees⟩ := inserted_agrees houses absent mirrors inserted
      simp only [ok_bind,ok_pure,Option.map_some,Hashmap.PutRun.mapValues,if_true,out]
      exact .ran agrees
    · have omem : status = .omem := (inserted.outcome.resolve_left fun ok => done ok.1).1
      have scarce : callocs ≠ [] := fun supply => done (inserted.supplied supply).1
      have rest := Hashmap.put_rest fuel houses.sound absent stored omem
      simp only [ok_bind,ok_pure,Option.map_some,Hashmap.PutRun.mapValues,if_neg done,Cells.free_live (Cells.alloc_self ..)]
      exact .ran (refused_agrees houses mirrors inserted.sound rest scarce)

theorem Added.weaken (added : Added hash supplied m t heap model) (given : granted → supplied) :
    Added hash granted m t heap model := by
  cases added with
  | endless => exact .endless
  | ran agrees =>
    obtain ⟨status,called,callocs,next,houses,owned,retains⟩ := agrees
    exact .ran ⟨status,called,callocs,next,houses,fun grant => owned (given grant),retains⟩

-- Nothing is allocated for who is in the table.
theorem add_known (houses : Houses hash m t peers) (present : addr ∈ m.keys) (fuel : Nat) (callocs : List Bool)
    (mem : AwdlPeer) (now : UInt64) : Added hash True m t (awdlPeerAdd hash fuel callocs mem t addr now)
      (EspOwl.awdlPeerAdd hash fuel callocs mem peers addr now) := by
  unfold awdlPeerAdd EspOwl.awdlPeerAdd
  cases houses.look addr false with
  | missing absent => exact absurd present absent
  | @found peer left i p used held named heap mirrors find model =>
    have same : ({peer with lastUpdate := now} : AwdlPeer).addr = peer.addr := rfl
    obtain ⟨run,out,agrees⟩ := known_agrees houses used held find same callocs
    rw [heap,model]
    simp only [ok_bind,ok_pure,Cells.read_live held,Cells.write_live held]
    rw [out]
    exact .ran agrees

theorem add_agrees (houses : Houses hash m t peers) (fuel : Nat) (callocs : List Bool) (mem : AwdlPeer) (addr : EtherAddr)
    (now : UInt64) : Added hash (callocs = []) m t (awdlPeerAdd hash fuel callocs mem t addr now)
      (EspOwl.awdlPeerAdd hash fuel callocs mem peers addr now) := by
  by_cases present : addr ∈ m.keys
  · exact (add_known houses present fuel callocs mem now).weaken fun _ => trivial
  · unfold awdlPeerAdd EspOwl.awdlPeerAdd
    cases houses.look addr false with
    | missing absent heap model =>
      rw [heap,model]
      simp only [ok_bind,Cells.read_live (Cells.alloc_self ..),Cells.write_live (Cells.alloc_self ..),Cells.alloc_put]
      exact fresh_agrees houses absent rfl fuel callocs
    | found used =>
      exact absurd (Hashmap.mem_keys.mpr ⟨_,Hashmap.mem_entries.mpr ⟨_,used⟩⟩) present

-- A slot and its record go together.
theorem owned_release (owned : Owned m t) (used : m.data[i]? = some (some (addr,p,p))) (map : Pointers) :
    Owned (m.clear i) ⟨t.cells.put p none,map⟩ := by
  intro q record live
  have other : q ≠ p := by
    rintro rfl
    rw [Cells.put_self] at live
    cases live
  rw [Cells.put_other _ _ other] at live
  obtain ⟨name,member⟩ := owned q record live
  refine ⟨name,?_⟩
  rcases List.mem_cons.mp ((Hashmap.clear_entries used).subset member) with here | left
  · cases here
    exact absurd rfl other
  · exact left

theorem remove_housed (houses : Houses hash m t peers) (addr : EtherAddr) :
    ∃ next table, awdlPeerRemove hash t addr = .ok ((EspOwl.awdlPeerRemove hash peers addr).1,table) ∧
      Houses hash next table (EspOwl.awdlPeerRemove hash peers addr).2 ∧ (Owned m t → Owned next table) ∧
      next.entries ⊆ m.entries := by
  unfold awdlPeerRemove EspOwl.awdlPeerRemove
  cases houses.look addr true with
  | missing absent heap model =>
    rw [heap,model]
    exact ⟨m,t,rfl,houses,id,List.Subset.refl _⟩
  | found used held named heap mirrors find model =>
    rw [heap,model]
    simp only [ok_bind,ok_pure,Cells.read_live held,Cells.free_live held]
    exact ⟨_,_,rfl,houses.release used held mirrors,fun owned => owned_release owned used _,clear_subset used⟩

end Calls

section Loops

theorem Houses.slot (houses : Houses hash m t peers) (used : m.data[i]? = some (some (addr,key,data))) :
    key = data ∧ ∃ peer, t.cells.live data = some peer ∧ peer.addr = addr ∧
      peers.data[i]? = some (some (addr,peer)) := by
  obtain ⟨rfl,peer,held,named⟩ := houses.record (Hashmap.mem_entries.mpr ⟨i,used⟩)
  refine ⟨rfl,peer,held,named,?_⟩
  rw [← houses.values,Hashmap.HashmapMap.mapValues_get,used]
  simp [recordAt,held]

theorem Houses.table (houses : Houses hash m t peers) : t.map.tableSize = peers.tableSize := by
  rw [houses.mirrors.table,← houses.values,Hashmap.HashmapMap.mapValues_tableSize]

theorem Houses.length (houses : Houses hash m t peers) : awdlPeersLength t = EspOwl.awdlPeersLength peers := by
  rw [awdlPeersLength,EspOwl.awdlPeersLength,Hashmap.hashmapLength,Hashmap.hashmapLength,houses.mirrors.size,
    ← houses.values,Hashmap.HashmapMap.mapValues_size]

-- The iterator stops at the same slots, and hands out a record that is allocated.
theorem Houses.next (houses : Houses hash m t peers) (it : HashmapIt) :
    (∃ last, hashmapItNext t.map it = (.missing,last,none) ∧ hashmapItNext peers it = (.missing,last,none)) ∨
      ∃ (i : Nat) (addr : EtherAddr) (p : Nat) (peer : AwdlPeer), hashmapItNext t.map it = (.ok,⟨i⟩,some (p,p)) ∧
        hashmapItNext peers it = (.ok,⟨i⟩,some (addr,peer)) ∧ m.data[i]? = some (some (addr,p,p)) ∧
        t.cells.live p = some peer := by
  have mapped := Hashmap.itNext_mapValues (recordAt t.cells) m it
  rw [houses.values] at mapped
  rcases itNext_mirrors houses.mirrors it with ⟨last,heap,model⟩ | ⟨next,key,data,a,heap,model,live⟩
  · rw [model] at mapped
    exact .inl ⟨last,heap,mapped⟩
  · obtain ⟨i,rfl,used⟩ := Hashmap.itNext_used model
    obtain ⟨rfl,peer,held,named,_⟩ := houses.slot used
    rw [model] at mapped
    refine .inr ⟨i,_,key,peer,heap,mapped.trans ?_,used,held⟩
    simp [recordAt,held]

-- The rule for loops: what the body does on the heap and to the records, the loop does.
-- What the loop carries may point into the heap.
theorem walk_related {σ τ : Type} {body : HashmapIt → AwdlPeers → EtherAddr × AwdlPeer → τ → AwdlPeers × τ}
    {heapBody : HashmapIt → PeerTable → Nat → σ → Except Fault (PeerTable × σ)} {tidy : Prop}
    {s : σ} {a : τ} (same : PeerTable → σ → τ → Prop)
    (each : ∀ (m : HashmapMap EtherAddr (Nat × Nat)) t peers (i : Nat) addr p peer s a, Houses hash m t peers →
      same t s a → m.data[i]? = some (some (addr,p,p)) → t.cells.live p = some peer →
      ∃ next table after, heapBody ⟨i⟩ t p s = .ok (table,after) ∧ same table after (body ⟨i⟩ peers (addr,peer) a).2 ∧
        Houses hash next table (body ⟨i⟩ peers (addr,peer) a).1 ∧ (tidy → Owned m t → Owned next table) ∧
        next.entries ⊆ m.entries)
    (rounds : Nat) (it : HashmapIt) (houses : Houses hash m t peers) (start : same t s a) :
    ∃ next table after, peersWalk heapBody rounds it t s = .ok (table,after) ∧
      same table after (Hashmap.hashmapWalk body rounds it peers a).2 ∧
      Houses hash next table (Hashmap.hashmapWalk body rounds it peers a).1 ∧ (tidy → Owned m t → Owned next table) ∧
      next.entries ⊆ m.entries := by
  induction rounds generalizing it m t peers s a with
  | zero => exact ⟨m,t,s,rfl,start,houses,fun _ => id,List.Subset.refl _⟩
  | succ rounds ih =>
    rw [peersWalk,Hashmap.hashmapWalk]
    rcases houses.next it with ⟨last,heap,model⟩ | ⟨i,addr,p,peer,heap,model,used,held⟩
    · rw [heap,model]
      exact ⟨m,t,s,rfl,start,houses,fun _ => id,List.Subset.refl _⟩
    · obtain ⟨middle,table,after,one,kept,housed,owned,within⟩ := each m t peers i addr p peer s a houses start used held
      rw [heap,model]
      dsimp only
      rw [one]
      obtain ⟨next,last,final,later,same_final,housed_final,owned_final,deeper⟩ := ih ⟨i⟩ housed kept
      exact ⟨next,last,final,later,same_final,housed_final,fun tidy before => owned_final tidy (owned tidy before),
        fun _ member => within (deeper member)⟩

theorem iterate_related {σ τ : Type} {body : HashmapIt → AwdlPeers → EtherAddr × AwdlPeer → τ → AwdlPeers × τ}
    {heapBody : HashmapIt → PeerTable → Nat → σ → Except Fault (PeerTable × σ)} {tidy : Prop}
    {s : σ} {a : τ} (same : PeerTable → σ → τ → Prop)
    (each : ∀ (m : HashmapMap EtherAddr (Nat × Nat)) t peers (i : Nat) addr p peer s a, Houses hash m t peers →
      same t s a → m.data[i]? = some (some (addr,p,p)) → t.cells.live p = some peer →
      ∃ next table after, heapBody ⟨i⟩ t p s = .ok (table,after) ∧ same table after (body ⟨i⟩ peers (addr,peer) a).2 ∧
        Houses hash next table (body ⟨i⟩ peers (addr,peer) a).1 ∧ (tidy → Owned m t → Owned next table) ∧
        next.entries ⊆ m.entries)
    (houses : Houses hash m t peers) (start : same t s a) :
    ∃ next table after, peersIterate heapBody t s = .ok (table,after) ∧
      same table after (Hashmap.hashmapIterate body peers a).2 ∧
      Houses hash next table (Hashmap.hashmapIterate body peers a).1 ∧ (tidy → Owned m t → Owned next table) ∧
      next.entries ⊆ m.entries := by
  rw [peersIterate,houses.table]
  exact walk_related same each _ _ houses start

theorem iterate_housed {σ : Type} {body : HashmapIt → AwdlPeers → EtherAddr × AwdlPeer → σ → AwdlPeers × σ}
    {heapBody : HashmapIt → PeerTable → Nat → σ → Except Fault (PeerTable × σ)} {tidy : Prop}
    (each : ∀ (m : HashmapMap EtherAddr (Nat × Nat)) t peers (i : Nat) addr p peer s, Houses hash m t peers →
      m.data[i]? = some (some (addr,p,p)) → t.cells.live p = some peer →
      ∃ next table, heapBody ⟨i⟩ t p s = .ok (table,(body ⟨i⟩ peers (addr,peer) s).2) ∧
        Houses hash next table (body ⟨i⟩ peers (addr,peer) s).1 ∧ (tidy → Owned m t → Owned next table) ∧
        next.entries ⊆ m.entries)
    (houses : Houses hash m t peers) (s : σ) :
    ∃ next table, peersIterate heapBody t s = .ok (table,(Hashmap.hashmapIterate body peers s).2) ∧
      Houses hash next table (Hashmap.hashmapIterate body peers s).1 ∧ (tidy → Owned m t → Owned next table) ∧
      next.entries ⊆ m.entries := by
  obtain ⟨next,table,_,ran,rfl,housed,owned⟩ := iterate_related (fun _ s a => s = a) (by
    rintro m t peers i addr p peer s _ housed rfl used held
    obtain ⟨next,table,ran,after,owned⟩ := each m t peers i addr p peer s housed used held
    exact ⟨next,table,_,ran,rfl,after,owned⟩) houses rfl
  exact ⟨next,table,ran,housed,owned⟩

-- Blanking the slot that the iterator stands on.
theorem Houses.itRemove (houses : Houses hash m t peers) (used : m.data[i]? = some (some (addr,p,p))) :
    Mirrors AwdlPeer.addr t.cells (hashmapItRemove t.map ⟨i⟩).2 (m.clear i) ∧
      hashmapItRemove peers ⟨i⟩ = (.ok,peers.clear i) := by
  obtain ⟨_,peer,_,_,there⟩ := houses.slot used
  have left := (itRemove_mirrors houses.mirrors ⟨i⟩).2
  rw [Hashmap.itRemove_used used] at left
  exact ⟨left,Hashmap.itRemove_used there⟩

theorem removeBefore_housed (houses : Houses hash m t peers) (before : UInt64) :
    ∃ next table, awdlPeersRemove t before = .ok table ∧
      Houses hash next table (EspOwl.awdlPeersRemove peers before) ∧ (Owned m t → Owned next table) ∧
      next.entries ⊆ m.entries := by
  have each : ∀ (m : HashmapMap EtherAddr (Nat × Nat)) t peers (i : Nat) addr p peer (s : Unit), Houses hash m t peers →
      m.data[i]? = some (some (addr,p,p)) → t.cells.live p = some peer →
      ∃ next table, (do return (← removeOld before ⟨i⟩ t p,()) : Except Fault (PeerTable × Unit)) = .ok (table,()) ∧
        Houses hash next table (if peer.lastUpdate < before then (hashmapItRemove peers ⟨i⟩).2 else peers) ∧
        (True → Owned m t → Owned next table) ∧ next.entries ⊆ m.entries := by
    intro m t peers i addr p peer _ houses used held
    obtain ⟨left,model⟩ := houses.itRemove used
    unfold removeOld
    simp only [ok_bind,ok_pure,Cells.read_live held,Cells.free_live held,model]
    split
    · exact ⟨_,_,rfl,houses.release used held left,fun _ owned => owned_release owned used _,clear_subset used⟩
    · exact ⟨m,t,rfl,houses,fun _ => id,List.Subset.refl _⟩
  have iterated : ∃ next table, peersIterate (fun it t peer _ => do return (← removeOld before it t peer,())) t () =
      .ok (table,()) ∧ Houses hash next table (EspOwl.awdlPeersRemove peers before) ∧
        (True → Owned m t → Owned next table) ∧ next.entries ⊆ m.entries := iterate_housed each houses ()
  obtain ⟨next,table,ran,housed,owned,within⟩ := iterated
  unfold awdlPeersRemove
  rw [ran]
  exact ⟨next,table,rfl,housed,owned trivial,within⟩

-- awdl_peers_free frees every record that the table holds.
theorem free_housed (houses : Houses hash m t peers) :
    ∃ table, awdlPeersFree t = .ok table ∧ table.map.entries = [] ∧
      (Owned m t → ∀ p, table.cells.live p = none) := by
  have each : ∀ (m : HashmapMap EtherAddr (Nat × Nat)) t peers (i : Nat) addr p peer (s : Unit), Houses hash m t peers →
      m.data[i]? = some (some (addr,p,p)) → t.cells.live p = some peer →
      ∃ next table, (do
          let left := (hashmapItRemove t.map ⟨i⟩).2
          let cells ← t.cells.free p
          return (⟨cells,left⟩,()) : Except Fault (PeerTable × Unit)) = .ok (table,()) ∧
        Houses hash next table (hashmapItRemove peers ⟨i⟩).2 ∧ (True → Owned m t → Owned next table) ∧
        next.entries ⊆ m.entries := by
    intro m t peers i addr p peer _ houses used held
    obtain ⟨left,model⟩ := houses.itRemove used
    simp only [ok_bind,ok_pure,Cells.free_live held,model]
    exact ⟨_,_,rfl,houses.release used held left,fun _ owned => owned_release owned used _,clear_subset used⟩
  have iterated : ∃ next table, peersIterate (fun it t peer _ => do
        let left := (hashmapItRemove t.map it).2
        let cells ← t.cells.free peer
        return (⟨cells,left⟩,())) t () = .ok (table,()) ∧
      Houses hash next table (Hashmap.hashmapIterate (fun it peers _ _ => ((hashmapItRemove peers it).2,())) peers ()).1 ∧
        (True → Owned m t → Owned next table) ∧ next.entries ⊆ m.entries := iterate_housed each houses ()
  obtain ⟨next,table,ran,housed,owned,_⟩ := iterated
  have emptied : (Hashmap.hashmapIterate (fun it peers _ _ => ((hashmapItRemove peers it).2,())) peers ()).1.entries = [] := by
    obtain ⟨final,swept,_,left⟩ := Hashmap.iterate_sweep (s := ()) (m := peers)
      (fun it peers _ _ => ((hashmapItRemove peers it).2,())) (fun _ _ => (true,())) (fun _ => True)
      (fun i _ _ _ _ used => by rw [Hashmap.itRemove_used used]; rfl) (fun _ _ _ _ _ _ _ => trivial) trivial
    rw [swept,left]
    generalize peers.entries = items
    induction items with
    | nil => rfl
    | cons entry rest ih => exact ih
  have none_left : next.entries = [] := by
    rw [← housed.values,Hashmap.HashmapMap.mapValues_entries,List.map_eq_nil_iff] at emptied
    exact emptied
  refine ⟨table,?_,?_,fun before p => ?_⟩
  · unfold awdlPeersFree
    rw [ran]
    rfl
  · exact List.length_eq_zero_iff.mp (housed.mirrors.count.trans (by rw [none_left]; rfl))
  · rw [Option.eq_none_iff_forall_ne_some]
    intro peer live
    obtain ⟨addr,member⟩ := owned trivial before p peer live
    rw [none_left] at member
    cases member

-- A client's loop that frees what it takes out of the table.
def Tidy (choose : List AwdlPeer → AwdlPeer → Visit) : Prop := ∀ seen peer, choose seen peer ≠ .itRemove

theorem visit_housed (choose : List AwdlPeer → AwdlPeer → Visit) (houses : Houses hash m t peers) (seen : List AwdlPeer) :
    ∃ next table, peersIterate (visitBody hash choose) t seen =
        .ok (table,(EspOwl.awdlPeersIterate (PeerHistory.visitBody hash choose) peers seen).2) ∧
      Houses hash next table (EspOwl.awdlPeersIterate (PeerHistory.visitBody hash choose) peers seen).1 ∧
      (Tidy choose → Owned m t → Owned next table) ∧ next.entries ⊆ m.entries := by
  rw [awdlPeersIterate_hashmap]
  refine iterate_housed ?_ houses seen
  intro m t peers i addr p peer seen houses used held
  unfold visitBody PeerHistory.visitBody
  rw [Cells.read_live held]
  dsimp only
  cases chosen : choose seen peer with
  | keep => exact ⟨m,t,by simp [chosen],houses,fun _ => id,List.Subset.refl _⟩
  | itRemove =>
    obtain ⟨left,model⟩ := houses.itRemove used
    refine ⟨m.clear i,⟨t.cells,(hashmapItRemove t.map ⟨i⟩).2⟩,by simp [chosen],?_,
      fun tidy => absurd chosen (tidy seen peer),clear_subset used⟩
    rw [awdlPeersItRemove,model]
    exact houses.clear used left
  | peerRemove =>
    obtain ⟨next,table,ran,housed,owned,within⟩ := remove_housed houses peer.addr
    exact ⟨next,table,by simp [chosen,ran],housed,fun _ => owned,within⟩

end Loops

end Housing

end EspOwl.PeerHeap
