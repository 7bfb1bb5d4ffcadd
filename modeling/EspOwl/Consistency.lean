import EspOwl.ActionRoundTrip
import EspOwl.Addressing
import EspOwl.ElectionOutcome

namespace EspOwl.Consistency
open Hashmap Histories ActionFrames PartialMaps PeerMap PeerHistory TlvLoop Dispatch Delivery NodeHistory
  SenderRecords ElectionOrder ElectionOutcome ActionRoundTrip Addressing

variable {hash : EtherAddr → UInt64}

-- The allocations of an event succeed.
def Supplied : Event → Prop
  | .receive env _ _ => env.callocs = []
  | _ => True

-- A node that is not its own peer, with records that name their own stations.
structure Named (hash : EtherAddr → UInt64) (node : EtherAddr) (f : Peers) (state : AwdlState) : Prop where
  own : state.selfAddress = node
  elector : state.election.selfAddr = node
  refines : Refines hash state.peers.peers f
  unlisted : f node = none
  named : ∀ addr peer, f addr = some peer → peer.election.selfAddr = addr

-- It follows itself or a valid peer of its table.
structure Consistent (hash : EtherAddr → UInt64) (node : EtherAddr) (f : Peers) (state : AwdlState) : Prop
    extends Named hash node f state where
  master : state.election.syncAddr = node ∨ ∃ peer, f state.election.syncAddr = some peer ∧ peer.isValid = true

-- What the sender of a frame may become: its record keeps its name and its validity.
def Standing (src : EtherAddr) (f : Peers) (peer : AwdlPeer) : Prop :=
  peer.election.selfAddr = src ∧ ∀ old, f src = some old → old.isValid = true → peer.isValid = true

theorem standing_touched (f : Peers) (now : UInt64) (peer : AwdlPeer) (standing : Standing src f peer) :
    Standing src f (touch now peer) :=
  ⟨by rw [touch_election,standing.1],fun old held was => by rw [touch_isValid,standing.2 old held was,Bool.true_or]⟩

theorem receive_consistent (before : Consistent hash node f state) (supply : env.callocs = [])
    (ran : awdlRx hash env rxCtrlLen frame now state = some run) : ∃ g, Consistent hash node g run.state := by
  obtain ⟨⟨rfl,elector,refines,unlisted,named⟩,master⟩ := before
  rcases rx_cases ran with ⟨stats,left⟩ | ⟨rssi,body,way,acted⟩
  · rw [left]
    exact ⟨f,⟨rfl,elector,refines,unlisted,named⟩,master⟩
  · obtain ⟨_,other,_⟩ := route_action way
    generalize frameSource rxCtrlLen frame = src at acted other
    have fresh : f src = none → Standing src f (awdlPeerNew src env.peerMem) := fun absent =>
      ⟨rfl,fun old held => by rw [absent] at held; cases held⟩
    have stood : ∀ peer, f src = some peer → Standing src f peer := fun peer held =>
      ⟨named src peer held,fun old was valid => by rw [held] at was; cases was; exact valid⟩
    have read : ∀ entry : Entry, Standing src f entry.peer → Standing src f (awdlRxTlvs env.chanMem now
        ((bufStrip body AwdlAction.size).getD body) entry.peer (counted state entry.added)).src := by
      intro entry standing
      have ran_through := tlvs_footprint env.chanMem now ((bufStrip body AwdlAction.size).getD body) entry.peer
        (counted state entry.added)
      exact ⟨ran_through.owner.trans standing.1,fun old held was => by rw [ran_through.valid]; exact standing.2 old held was⟩
    have touched := @standing_touched src f now
    obtain ⟨⟨g,rewritten⟩,sync,stats,left,_⟩ := action_rewritten (Standing src f) refines stood
      (fun _ => respected_of fresh stood touched) (fun entry _ standing =>
        ⟨fun _ => read entry standing,fun _ => settle_good touched (fun _ standing => standing) (read entry standing)⟩) acted
    have others := rewritten.kept supply
    rw [left]
    refine ⟨g,⟨rfl,elector,rewritten.refines,?_,?_⟩,?_⟩
    · exact (others _ (Ne.symm other)).trans unlisted
    · intro addr peer held
      by_cases here : addr = src
      · subst here
        exact (rewritten.own peer held).1
      · rw [others addr here] at held
        exact named addr peer held
    · refine master.imp_right ?_
      rintro ⟨peer,held,valid⟩
      change ∃ peer, g state.election.syncAddr = some peer ∧ peer.isValid = true
      by_cases here : state.election.syncAddr = src
      · rw [here] at held ⊢
        cases still : g src with
        | none => rw [rewritten.held still] at held; cases held
        | some record => exact ⟨record,rfl,(rewritten.own record still).2 peer held valid⟩
      · exact ⟨peer,by rw [others _ here,held],valid⟩

-- The sweep may remove the master. The election that follows looks at what is left.
theorem swept_named (before : Named hash node f state) (cutoff : UInt64) :
    ∃ g, Named hash node g (state.setPeers (awdlPeersRemove state.peers.peers cutoff)) := by
  refine ⟨_,before.own,before.elector,removeBefore_refines before.refines cutoff,?_,?_⟩
  · rw [keepIf,before.unlisted]
    rfl
  · intro addr peer held
    rw [keepIf,Option.filter_eq_some_iff] at held
    exact before.named addr peer held.1

theorem elected_consistent (before : Named hash node f state) :
    Consistent hash node f {state with election := awdlElectionRun state.election state.peers.peers} := by
  obtain ⟨rfl,elector,refines,unlisted,named⟩ := before
  rcases run_cases state.election state.peers.peers with own | ⟨peer,held,able,_,adopted⟩
  · rw [own]
    exact ⟨⟨rfl,elector,refines,unlisted,named⟩,.inl elector⟩
  · obtain ⟨⟨addr,record⟩,member,rfl⟩ := List.mem_map.mp held
    have listed := (refines.listed.exact addr record).mp member
    simp only [eligible,Bool.and_eq_true] at able
    rw [adopted]
    refine ⟨⟨rfl,elector,refines,unlisted,named⟩,.inr ⟨record,?_,able.1.1⟩⟩
    change f record.election.selfAddr = some record
    rw [named addr record listed,listed]

theorem step_consistent (before : ∃ f, Consistent hash node f state) (supplied : Supplied event)
    (step : NodeStep hash rxCtrlLen state event out next) : ∃ g, Consistent hash node g next := by
  obtain ⟨f,before⟩ := before
  rcases step_cases step with ⟨_,_,_,_,rfl,ran,rfl⟩ | ⟨now,_,rfl⟩ | ⟨_,_,_,_,rfl⟩
  · exact receive_consistent before supplied ran
  · obtain ⟨g,swept⟩ := swept_named before.toNamed _
    exact ⟨g,elected_consistent swept⟩
  · obtain ⟨⟨own,elector,refines,unlisted,named⟩,master⟩ := before
    exact ⟨f,⟨own,elector,refines,unlisted,named⟩,master⟩

theorem booted_consistent (booted : Booted node state) : ∃ f, Consistent hash node f state := by
  obtain ⟨_,_,_,_,_,_,_,rfl⟩ := booted.form
  exact ⟨_,⟨rfl,rfl,init_refines,rfl,fun _ _ held => by cases held⟩,.inl rfl⟩

theorem reached_consistent (reached : Reached hash rxCtrlLen node trace state)
    (supplied : ∀ entry ∈ trace, Supplied entry.1) : ∃ f, Consistent hash node f state := by
  obtain ⟨start,booted,path⟩ := reached
  refine runs_invariant (motive := fun state => ∃ f, Consistent hash node f state)
    (fun _ _ _ _ before step => step_consistent before step.1 step.2) (booted_consistent booted) (runs_within path supplied)

theorem peers_consistent (reached : Reached hash rxCtrlLen node trace state)
    (supplied : ∀ entry ∈ trace, Supplied entry.1) :
    state.selfAddress ∉ state.peers.peers.keys ∧
    (∀ addr peer, (addr,peer) ∈ state.peers.peers.entries → peer.addr = addr ∧ peer.election.selfAddr = addr) ∧
    (state.election.syncAddr = state.selfAddress ∨
      ∃ peer, (state.election.syncAddr,peer) ∈ state.peers.peers.entries ∧ peer.isValid = true) := by
  obtain ⟨f,⟨rfl,elector,refines,unlisted,named⟩,master⟩ := reached_consistent reached supplied
  refine ⟨refines.listed.absent.mp unlisted,?_,?_⟩
  · intro addr peer stored
    have held := (refines.listed.exact addr peer).mp stored
    exact ⟨refines.keyed addr peer held,named addr peer held⟩
  · refine master.imp_right ?_
    rintro ⟨peer,held,valid⟩
    exact ⟨peer,(refines.listed.exact _ peer).mpr held,valid⟩

-- A MIF of the station makes it a valid peer, and the next clean-up its follower.
def introduction : List UInt8 := radioHdr ++ (awdlInitFullActionFrame ⟨5,7⟩ station ieee80211InitState .mif).1

theorem peers_consistent_follower : ∃ trace state, Reached (fun _ => 0) 24 nodeOne trace state ∧
    state.election.syncAddr = nodeTwo ∧ (state.election.syncAddr = state.selfAddress ∨
      ∃ peer, (state.election.syncAddr,peer) ∈ state.peers.peers.entries ∧ peer.isValid = true) := by
  have follows : (awdlRx (fun _ => 0) roomy 24 introduction 3000000 fresh).map
      (fun run => (awdlCleanPeers 3000001 run.state).election.syncAddr) = some nodeTwo := by
    decide +kernel
  obtain ⟨run,ran,master⟩ := Option.map_eq_some_iff.mp follows
  have path : Runs (NodeStep (fun _ => 0) 24) fresh [(.receive roomy introduction 3000000,run.out),(.cleanPeers 3000001,[])]
      (awdlCleanPeers 3000001 run.state) := .cons (.receive ran) (.cons .cleanPeers .nil)
  have reached : Reached (fun _ => 0) 24 nodeOne _ _ := ⟨_,.init,path⟩
  refine ⟨_,_,reached,master,(peers_consistent reached ?_).2.2⟩
  simp [Supplied,roomy,quiet]

end EspOwl.Consistency
