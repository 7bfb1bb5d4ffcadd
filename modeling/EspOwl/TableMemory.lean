import EspOwl.PeerHeap

namespace EspOwl.PeerHeap
open CellHeaps PeerHistory
open Hashmap (HashmapMap)

-- A call of a client, with all that it depends on. It reads and writes records through
-- pointers that lookups have returned, by their place among them.
inductive Call where
  | add (fuel : Nat) (callocs : List Bool) (mem : AwdlPeer) (addr : EtherAddr) (now : UInt64)
  | get (addr : EtherAddr)
  | read (place : Nat)
  | write (place : Nat) (change : AwdlPeer → AwdlPeer)
  | remove (addr : EtherAddr)
  | removeBefore (cutoff : UInt64)
  | length
  | iterate (choose : List AwdlPeer → AwdlPeer → Visit)

inductive Answer where
  | added (status : PeersStatus) (called : Option AwdlPeer)
  | found (status : PeersStatus)
  | held (peer : AwdlPeer)
  | removed (status : PeersStatus)
  | count (n : Nat)
  | visited (peers : List AwdlPeer)
  | done

structure HeapClient where
  table : PeerTable
  pointers : List Nat

-- In place of a pointer its station, for as long as that does not leave the table.
structure RecordClient where
  peers : AwdlPeers
  lent : List (Option EtherAddr)

def RecordClient.onto (c : RecordClient) (peers : AwdlPeers) : RecordClient :=
  ⟨peers,c.lent.map (Option.filter fun addr => decide (addr ∈ peers.keys))⟩

-- Nobody uses a pointer to a record that has left the table since.
def counts (c : RecordClient) : Call → Bool
  | .read place => c.lent[place]?.join.isSome
  | .write place _ => c.lent[place]?.join.isSome
  | _ => true

-- A key lies in the record that it is the key of, so clients leave the address alone.
def Regular : Call → Prop
  | .write _ change => ∀ peer, (change peer).addr = peer.addr
  | _ => True

-- No calloc fails, and who takes a peer out of the table frees it.
def Careful : Call → Prop
  | .add _ callocs _ _ _ => callocs = []
  | .iterate choose => Tidy choose
  | _ => True

section Calls
variable (hash : EtherAddr → UInt64)

-- `none`: the call does not return.
def recordCall (c : RecordClient) : Call → Option (Answer × RecordClient)
  | .add fuel callocs mem addr now =>
    (EspOwl.awdlPeerAdd hash fuel callocs mem c.peers addr now).map fun run =>
      (.added run.status run.called,c.onto run.peers)
  | .get addr =>
    match EspOwl.awdlPeerGet hash c.peers addr with
    | (status,none) => some (.found status,c)
    | (status,some _) => some (.found status,{c with lent := c.lent ++ [some addr]})
  | .read place =>
    match c.lent[place]? with
    | some (some addr) =>
      match EspOwl.awdlPeerGet hash c.peers addr with
      | (_,some peer) => some (.held peer,c)
      | _ => some (.done,c)
    | _ => some (.done,c)
  | .write place change =>
    match c.lent[place]? with
    | some (some addr) =>
      match EspOwl.awdlPeerGet hash c.peers addr with
      | (_,some peer) => some (.done,{c with peers := EspOwl.awdlPeerStore hash c.peers addr (change peer)})
      | _ => some (.done,c)
    | _ => some (.done,c)
  | .remove addr =>
    some (.removed (EspOwl.awdlPeerRemove hash c.peers addr).1,c.onto (EspOwl.awdlPeerRemove hash c.peers addr).2)
  | .removeBefore cutoff => some (.done,c.onto (EspOwl.awdlPeersRemove c.peers cutoff))
  | .length => some (.count (EspOwl.awdlPeersLength c.peers),c)
  | .iterate choose =>
    some (.visited (EspOwl.awdlPeersIterate (PeerHistory.visitBody hash choose) c.peers []).2,
      c.onto (EspOwl.awdlPeersIterate (PeerHistory.visitBody hash choose) c.peers []).1)

def heapCall (c : HeapClient) : Call → Except Fault (Option (Answer × HeapClient))
  | .add fuel callocs mem addr now => do
    match ← awdlPeerAdd hash fuel callocs mem c.table addr now with
    | none => return none
    | some run => return some (.added run.status run.called,{c with table := run.table})
  | .get addr => do
    match ← awdlPeerGet hash c.table addr with
    | (status,none) => return some (.found status,c)
    | (status,some peer) => return some (.found status,{c with pointers := c.pointers ++ [peer]})
  | .read place =>
    match c.pointers[place]? with
    | none => .ok (some (.done,c))
    | some peer => do
      let held ← c.table.cells.read peer
      return some (.held held,c)
  | .write place change =>
    match c.pointers[place]? with
    | none => .ok (some (.done,c))
    | some peer => do
      let held ← c.table.cells.read peer
      let cells ← c.table.cells.write peer (change held)
      return some (.done,{c with table.cells := cells})
  | .remove addr => do
    let (status,left) ← awdlPeerRemove hash c.table addr
    return some (.removed status,{c with table := left})
  | .removeBefore cutoff => do return some (.done,{c with table := ← awdlPeersRemove c.table cutoff})
  | .length => return some (.count (awdlPeersLength c.table),c)
  | .iterate choose => do
    let (left,seen) ← peersIterate (visitBody hash choose) c.table []
    return some (.visited seen,{c with table := left})

def recordCalls (c : RecordClient) : List Call → Option (List Answer × RecordClient)
  | [] => some ([],c)
  | call :: later => do
    let (answer,c) ← recordCall hash c call
    let (answers,c) ← recordCalls c later
    return (answer :: answers,c)

def heapCalls (c : HeapClient) : List Call → Except Fault (Option (List Answer × HeapClient))
  | [] => .ok (some ([],c))
  | call :: later => do
    match ← heapCall hash c call with
    | none => return none
    | some (answer,c) =>
      match ← heapCalls c later with
      | none => return none
      | some (answers,c) => return some (answer :: answers,c)

def allCount (c : RecordClient) : List Call → Bool
  | [] => true
  | call :: later => counts c call &&
    match recordCall hash c call with
    | none => true
    | some (_,next) => allCount next later

end Calls

def noHeap : HeapClient := ⟨awdlPeersInit,[]⟩
def noRecords : RecordClient := ⟨EspOwl.awdlPeersInit,[]⟩

variable {hash : EtherAddr → UInt64} {m next : HashmapMap EtherAddr (Nat × Nat)} {t : PeerTable} {peers : AwdlPeers}
variable {c : HeapClient} {record : RecordClient} {pointers : List Nat} {lent : List (Option EtherAddr)} {n p : Nat}

-- A pointer that still counts is that of its station's slot.
def Lends (m : HashmapMap EtherAddr (Nat × Nat)) (pointers : List Nat) (lent : List (Option EtherAddr)) : Prop :=
  List.Forall₂ (fun p hand => ∀ addr, hand = some addr → (addr,p,p) ∈ m.entries) pointers lent

-- The invariant of the two clients.
structure Served (hash : EtherAddr → UInt64) (m : HashmapMap EtherAddr (Nat × Nat)) (heap : HeapClient)
    (record : RecordClient) : Prop where
  houses : Houses hash m heap.table record.peers
  lends : Lends m heap.pointers record.lent

-- The heap does what the table of records does, and touches no record that is gone.
inductive Serves (hash : EtherAddr → UInt64) (careful : Prop) (m : HashmapMap EtherAddr (Nat × Nat)) (c : HeapClient)
    {A : Type} : Except Fault (Option (A × HeapClient)) → Option (A × RecordClient) → Prop where
  | endless : Serves hash careful m c (.ok none) none
  | ran {after : HeapClient} {record : RecordClient} {next : HashmapMap EtherAddr (Nat × Nat)} {answer : A}
      (served : Served hash next after record)
      (owned : careful → Owned m c.table → Owned next after.table) :
      Serves hash careful m c (.ok (some (answer,after))) (some (answer,record))

theorem Houses.keys (houses : Houses hash m t peers) : peers.keys = m.keys := by
  rw [← houses.values,Hashmap.HashmapMap.keys,Hashmap.HashmapMap.mapValues_entries,List.map_map]
  rfl

theorem lends_after (lends : Lends m pointers record.lent) (sound : Hashmap.Sound hash m) (retains : Retains m next)
    (housed : Houses hash next t peers) : Lends next pointers (record.onto peers).lent := by
  unfold Lends RecordClient.onto
  rw [List.forall₂_map_right_iff]
  refine lends.imp fun p hand counts addr still => ?_
  obtain ⟨rfl,listed⟩ := Option.filter_eq_some_iff.mp still
  have before := counts addr rfl
  rw [decide_eq_true_eq,housed.keys] at listed
  obtain ⟨value,member⟩ := Hashmap.mem_keys.mp listed
  rcases retains _ member with old | left
  · cases Hashmap.value_unique sound.distinct old before
    exact member
  · exact absurd (Hashmap.mem_keys.mpr ⟨_,before⟩) left

-- Behind a pointer that counts lies the record that a lookup would find.
theorem lent_found (houses : Houses hash m t peers) (member : (addr,p,p) ∈ m.entries) :
    ∃ (i : Nat) (peer : AwdlPeer), m.data[i]? = some (some (addr,p,p)) ∧ t.cells.live p = some peer ∧
      Hashmap.hashmapFind hash peers addr = some i ∧ EspOwl.awdlPeerGet hash peers addr = (.ok,some peer) := by
  rcases get_cases houses addr with ⟨absent,_,_⟩ | ⟨i,q,peer,used,held,find,_,model⟩
  · exact absurd (Hashmap.mem_keys.mpr ⟨_,member⟩) absent
  · cases Hashmap.value_unique houses.sound.distinct (Hashmap.mem_entries.mpr ⟨i,used⟩) member
    exact ⟨i,peer,used,held,find,model⟩

theorem lends_hand (lends : Lends m pointers lent) (hand : lent[n]?.join.isSome = true) :
    ∃ addr p, lent[n]? = some (some addr) ∧ pointers[n]? = some p ∧ (addr,p,p) ∈ m.entries := by
  obtain ⟨addr,joined⟩ := Option.isSome_iff_exists.mp hand
  have place := Option.join_eq_some_iff.mp joined
  obtain ⟨inside,here⟩ := List.getElem?_eq_some_iff.mp place
  have bound : n < pointers.length := by
    rw [lends.length_eq]
    exact inside
  exact ⟨addr,_,place,List.getElem?_eq_getElem bound,lends.get bound inside addr here⟩

theorem call_serves (served : Served hash m c record) (regular : Regular call) (used : counts record call = true) :
    Serves hash (Careful call) m c (heapCall hash c call) (recordCall hash record call) := by
  obtain ⟨houses,lends⟩ := served
  cases call with
  | add fuel callocs mem addr now =>
    rw [heapCall,recordCall]
    have added := add_agrees houses fuel callocs mem addr now
    revert added
    generalize awdlPeerAdd hash fuel callocs mem c.table addr now = heap
    generalize EspOwl.awdlPeerAdd hash fuel callocs mem record.peers addr now = model
    rintro (_ | ⟨status,called,callocs,next,housed,owned,retains⟩)
    · exact .endless
    · simp only [ok_bind,ok_pure,Option.map_some,status,called]
      exact .ran ⟨housed,lends_after lends houses.sound retains housed⟩ owned
  | get addr =>
    rw [heapCall,recordCall]
    rcases get_cases houses addr with ⟨_,heap,model⟩ | ⟨i,p,peer,used,held,_,heap,model⟩
    · rw [heap,model]
      exact .ran ⟨houses,lends⟩ fun _ => id
    · rw [heap,model]
      refine .ran ⟨houses,List.rel_append lends (.cons ?_ .nil)⟩ fun _ => id
      rintro _ ⟨⟩
      exact Hashmap.mem_entries.mpr ⟨i,used⟩
  | read place =>
    obtain ⟨addr,p,hand,pointer,member⟩ := lends_hand lends used
    obtain ⟨i,peer,_,held,_,model⟩ := lent_found houses member
    rw [heapCall,recordCall,pointer,hand]
    simp only [model,ok_bind,ok_pure,Cells.read_live held]
    exact .ran ⟨houses,lends⟩ fun _ => id
  | write place change =>
    obtain ⟨addr,p,hand,pointer,member⟩ := lends_hand lends used
    obtain ⟨i,peer,there,held,find,model⟩ := lent_found houses member
    rw [heapCall,recordCall,pointer,hand]
    simp only [model,ok_bind,ok_pure,Cells.read_live held,Cells.write_live held,EspOwl.awdlPeerStore,find]
    exact .ran ⟨houses.write there held (regular peer),lends⟩ fun _ owned => owned_put owned member _
  | remove addr =>
    obtain ⟨next,table,heap,housed,owned,within⟩ := remove_housed houses addr
    rw [heapCall,recordCall]
    rw [heap]
    exact .ran ⟨housed,lends_after lends houses.sound (.of_subset within) housed⟩ fun _ => owned
  | removeBefore cutoff =>
    obtain ⟨next,table,heap,housed,owned,within⟩ := removeBefore_housed houses cutoff
    rw [heapCall,recordCall]
    rw [heap]
    exact .ran ⟨housed,lends_after lends houses.sound (.of_subset within) housed⟩ fun _ => owned
  | length =>
    rw [heapCall,recordCall]
    rw [houses.length]
    exact .ran ⟨houses,lends⟩ fun _ => id
  | iterate choose =>
    obtain ⟨next,table,heap,housed,owned,within⟩ := visit_housed choose houses []
    rw [heapCall,recordCall]
    rw [heap]
    exact .ran ⟨housed,lends_after lends houses.sound (.of_subset within) housed⟩ owned

theorem calls_serve (calls : List Call) (served : Served hash m c record) (regular : ∀ call ∈ calls, Regular call)
    (used : allCount hash record calls = true) :
    Serves hash (∀ call ∈ calls, Careful call) m c (heapCalls hash c calls) (recordCalls hash record calls) := by
  induction calls generalizing m c record with
  | nil => exact .ran served fun _ => id
  | cons call later ih =>
    rw [List.forall_mem_cons] at regular
    rw [allCount,Bool.and_eq_true] at used
    obtain ⟨first,others⟩ := used
    have one := call_serves served regular.1 first
    rw [heapCalls,recordCalls]
    revert one others
    generalize heapCall hash c call = heap
    generalize recordCall hash record call = model
    intro others one
    cases one with
    | endless => exact .endless
    | @ran after left next answer kept owned =>
      have rest := ih kept regular.2 others
      simp only [ok_bind,Option.bind_eq_bind,Option.bind_some]
      revert rest
      generalize heapCalls hash after later = heap
      generalize recordCalls hash left later = model
      intro rest
      cases rest with
      | endless => exact .endless
      | @ran last peers final answers ends keeps =>
        refine .ran ends fun careful before => ?_
        rw [List.forall_mem_cons] at careful
        exact keeps careful.2 (owned careful.1 before)

-- What is allocated, a lookup finds.
theorem live_found (houses : Houses hash m t peers) (owned : Owned m t) (live : t.cells.live p = some peer) :
    awdlPeerGet hash t peer.addr = .ok (.ok,some p) ∧ EspOwl.awdlPeerGet hash peers peer.addr = (.ok,some peer) := by
  obtain ⟨addr,member⟩ := owned p peer live
  obtain ⟨_,record,held,named⟩ := houses.record member
  rw [live] at held
  cases held
  subst named
  rcases get_cases houses peer.addr with ⟨absent,_,_⟩ | ⟨i,q,record,used,held,_,heap,model⟩
  · exact absurd (Hashmap.mem_keys.mpr ⟨_,member⟩) absent
  · obtain ⟨j,there⟩ := Hashmap.mem_entries.mp member
    obtain rfl := Hashmap.slot_unique houses.sound.distinct used there
    rw [used] at there
    cases there
    rw [live] at held
    cases held
    exact ⟨heap,model⟩

-- Whatever is called in whatever order, and through whichever pointers that still count: no
-- call uses a record that is gone, and the answers are those of a table of records. When the
-- calls are careful, what is allocated is what the table holds, and awdl_peers_free leaves
-- nothing.
theorem table_memory (calls : List Call) (regular : ∀ call ∈ calls, Regular call)
    (used : allCount hash noRecords calls = true) :
    (heapCalls hash noHeap calls = .ok none ∧ recordCalls hash noRecords calls = none) ∨
    ∃ answers heap record freed, heapCalls hash noHeap calls = .ok (some (answers,heap)) ∧
      recordCalls hash noRecords calls = some (answers,record) ∧ awdlPeersFree heap.table = .ok freed ∧
      ((∀ call ∈ calls, Careful call) →
        (∀ p peer, heap.table.cells.live p = some peer → awdlPeerGet hash heap.table peer.addr = .ok (.ok,some p) ∧
          EspOwl.awdlPeerGet hash record.peers peer.addr = (.ok,some peer)) ∧
        ∀ p, freed.cells.live p = none) := by
  have boots : Served hash Hashmap.hashmapNew noHeap noRecords := ⟨init_houses,.nil⟩
  have serves := calls_serve calls boots regular used
  revert serves
  generalize heapCalls hash noHeap calls = heap
  generalize recordCalls hash noRecords calls = model
  intro serves
  cases serves with
  | endless => exact .inl ⟨rfl,rfl⟩
  | @ran heap record next answers served owned =>
    obtain ⟨freed,ran,_,nothing⟩ := free_housed served.houses
    refine .inr ⟨answers,heap,record,freed,rfl,rfl,ran,fun careful => ?_⟩
    have all : Owned next heap.table := owned careful fun p peer live => by cases live
    exact ⟨fun p peer live => live_found served.houses all live,nothing all⟩

-- Two stations in one chain of slots, and pointers to both. One of them is removed, and the
-- pointer to the other still counts.
def visitors : List Call :=
  [.add 1 [] default ⟨2,0,0,0,0,1⟩ 7,.get ⟨2,0,0,0,0,1⟩,.add 1 [] default ⟨2,0,0,0,0,2⟩ 9,.get ⟨2,0,0,0,0,2⟩,
    .write 0 (fun peer => {peer with sentMif := true}),.remove ⟨2,0,0,0,0,1⟩,
    .write 1 (fun peer => {peer with sentMif := true}),.read 1,.removeBefore 10,.length]

theorem table_memory_visitors : ∃ answers heap freed peer,
    heapCalls (fun _ => 255) noHeap visitors = .ok (some (answers,heap)) ∧ answers[7]? = some (.held peer) ∧
      peer.addr = ⟨2,0,0,0,0,2⟩ ∧ peer.sentMif = true ∧
      awdlPeersFree heap.table = .ok freed ∧ freed.cells.live 0 = none := by
  have regular : ∀ call ∈ visitors, Regular call := by simp [visitors,Regular]
  have careful : ∀ call ∈ visitors, Careful call := by simp [visitors,Careful]
  have used : allCount (fun _ => 255) noRecords visitors = true := by decide +kernel
  have seen : ((recordCalls (fun _ => 255) noRecords visitors).bind fun ends => ends.1[7]?).map
      (fun | .held peer => (peer.addr,peer.sentMif) | _ => (default,false)) = some (⟨2,0,0,0,0,2⟩,true) := by
    decide +kernel
  obtain ⟨answer,read,shown⟩ := Option.map_eq_some_iff.mp seen
  obtain ⟨ends,returns,at_seven⟩ := Option.bind_eq_some_iff.mp read
  rcases table_memory visitors regular used with ⟨_,endless⟩ | ⟨answers,heap,record,freed,ran,same,free,kept⟩
  · cases endless.symm.trans returns
  · cases same.symm.trans returns
    cases answer with
    | held peer =>
      obtain ⟨addr,marked⟩ := Prod.mk.inj shown
      exact ⟨answers,heap,freed,peer,ran,at_seven,addr,marked,free,(kept careful).2 0⟩
    | _ => cases (Prod.mk.inj shown).2

-- Through a pointer to a removed record it would be a use of freed memory.
example : (match heapCalls (fun _ => 255) noHeap
    [.add 1 [] default ⟨2,0,0,0,0,1⟩ 7,.get ⟨2,0,0,0,0,1⟩,.remove ⟨2,0,0,0,0,1⟩,.read 0] with
      | .error fault => some fault
      | .ok _ => none) = some (.read 0) := by decide +kernel

end EspOwl.PeerHeap
