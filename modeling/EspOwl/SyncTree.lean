import EspOwl.ActionRoundTrip
import EspOwl.ElectionOutcome
import EspOwl.FrameCheck
import EspOwl.NodeHistory

namespace EspOwl.SyncTree
open Histories PartialMaps PeerMap PeerHistory TlvLoop ActionFrames ActionTlvs ActionRoundTrip Dispatch Delivery
  FrameCheck SenderRecords NodeHistory ElectionOrder ElectionOutcome

-- Any number of nodes, each under its own address; an address whose node never acts
-- stands for no node. `air` keeps every frame sent so far, so a frame may be heard
-- late, by some nodes only, again or not at all.
structure Network where
  station : EtherAddr → AwdlState
  air : List Buf

def Network.change (net : Network) (addr : EtherAddr) (state : AwdlState) : Network :=
  {net with station := Function.update net.station addr state}

inductive NetworkEvent where
  | send (addr : EtherAddr) (clock : TxClock) (ieee80211State : Ieee80211State) (type : AwdlActionType)
  | hear (addr : EtherAddr) (env : Ambient) (radio frame fcs : List UInt8) (now : UInt64)
  | dropPeers (addr : EtherAddr) (cutoff : UInt64)
  | elect (addr : EtherAddr)
  | act (addr : EtherAddr) (event : Event)

def ownStep : Event → Bool
  | .receive .. => false
  | _ => true

-- A frame sent carries the sender's election TLVs of that moment; one that is heard
-- arrives behind any radio header and with any FCS. ieee80211_state.fcs stays 0.
-- awdl_clean_peers, one of a node's own steps, drops peers and elects; each half may
-- also happen alone.
inductive NetworkStep (hash : EtherAddr → UInt64) : Network → NetworkEvent → Unit → Network → Prop where
  | send (plain : ieee80211State.fcs = false) : NetworkStep hash net (.send addr clock ieee80211State type) ()
      {net.change addr (awdlSendAction (net.station addr)) with
        air := (awdlInitFullActionFrame clock (net.station addr) ieee80211State type).1 :: net.air}
  | hear (sent : frame ∈ net.air) (check : fcs.length = 4)
      (ran : awdlRx hash env radio.length (radio ++ frame ++ fcs) now (net.station addr) = some run) :
      NetworkStep hash net (.hear addr env radio frame fcs now) () (net.change addr run.state)
  | dropPeers : NetworkStep hash net (.dropPeers addr cutoff) () (net.change addr
      ((net.station addr).setPeers (awdlPeersRemove (net.station addr).peers.peers cutoff)))
  | elect : NetworkStep hash net (.elect addr) () (net.change addr {net.station addr with
      election := awdlElectionRun (net.station addr).election (net.station addr).peers.peers})
  | act (own : ownStep event = true) (ran : NodeStep hash rxCtrlLen (net.station addr) event out next) :
      NetworkStep hash net (.act addr event) () (net.change addr next)

-- Every node has just booted, and nothing is sent.
def Silent (net : Network) : Prop := net.air = [] ∧ ∀ addr, Booted addr (net.station addr)

-- The graph of sync_addr, without the roots that point to themselves.
def Link (net : Network) (a b : EtherAddr) : Prop := (net.station a).election.syncAddr = b ∧ b ≠ a

-- Nobody ever raises its metric or its counter, so every claim is the initial one.
structure Unraised (election : AwdlElectionState) : Prop where
  counter : election.masterCounter = awdlElectionCounterInit
  metric : election.masterMetric = awdlElectionMetricInit

-- The invariant of a node: among equal claims only a greater address is followed.
structure Upward (hash : EtherAddr → UInt64) (addr : EtherAddr) (state : AwdlState) : Prop where
  self : state.election.selfAddr = addr
  counter : state.election.selfCounter = awdlElectionCounterInit
  metric : state.election.selfMetric = awdlElectionMetricInit
  unraised : Unraised state.election
  sync : state.election.syncAddr = addr ∨ addr < state.election.syncAddr
  table : ∃ f, Refines hash state.peers.peers f ∧ ∀ a peer, f a = some peer → Unraised peer.election

def Genuine (frame : Buf) : Prop := ∃ clock sender ieee80211State type,
  Unraised sender.election ∧ ieee80211State.fcs = false ∧
    frame = (awdlInitFullActionFrame clock sender ieee80211State type).1

structure NetworkInvariant (hash : EtherAddr → UInt64) (net : Network) : Prop where
  stations : ∀ addr, Upward hash addr (net.station addr)
  air : ∀ frame ∈ net.air, Genuine frame

variable {hash : EtherAddr → UInt64}

theorem booted_upward (booted : Booted addr state) : Upward hash addr state := by
  obtain ⟨_,_,_,_,_,_,_,rfl⟩ := booted.form
  exact ⟨rfl,rfl,rfl,⟨rfl,rfl⟩,.inl rfl,_,init_refines,fun _ _ held => by cases held⟩

-- With equal claims a master that outranks the node has height 0 and a greater address.
theorem elected_upward (upward : Upward hash addr state) :
    Upward hash addr {state with election := awdlElectionRun state.election state.peers.peers} := by
  obtain ⟨rfl,counter,metric,unraised,sync,f,refines,all⟩ := upward
  have table := (⟨f,refines,all⟩ : ∃ f, Refines hash state.peers.peers f ∧ ∀ a p, f a = some p → Unraised p.election)
  rcases run_cases state.election state.peers.peers with own | ⟨peer,held,_,better,adopted⟩
  · rw [own]
    exact ⟨rfl,counter,metric,⟨counter,metric⟩,.inl rfl,table⟩
  · obtain ⟨⟨a,p⟩,member,rfl⟩ := List.mem_map.mp held
    have claim := all a p ((refines.listed.exact a p).mp member)
    have counters : (awdlElectionResetSelf state.election).masterCounter = p.election.masterCounter :=
      counter.trans claim.counter.symm
    have metrics : (awdlElectionResetSelf state.election).masterMetric = p.election.masterMetric :=
      metric.trans claim.metric.symm
    rw [adopted]
    refine ⟨rfl,counter,metric,⟨claim.counter,claim.metric⟩,.inr ?_,table⟩
    rcases better with more | ⟨_,more | ⟨_,lower | ⟨_,greater⟩⟩⟩
    · exact absurd counters (UInt32.ne_of_lt more)
    · exact absurd metrics (UInt32.ne_of_lt more)
    · exact absurd (UInt32.lt_iff_toNat_lt.mp lower) (Nat.not_lt_zero _)
    · exact greater

theorem dropped_upward (upward : Upward hash addr state) (cutoff : UInt64) :
    Upward hash addr (state.setPeers (awdlPeersRemove state.peers.peers cutoff)) := by
  obtain ⟨self,counter,metric,unraised,sync,f,refines,all⟩ := upward
  refine ⟨self,counter,metric,unraised,sync,_,removeBefore_refines refines cutoff,?_⟩
  intro a peer held
  rw [keepIf,Option.filter_eq_some_iff] at held
  exact all a peer held.1

-- The election TLVs of a frame say what its sender's election state says.
theorem sent_election (member : (type,val) ∈ sentTlvs clock sender kind) :
    (type = awdlElectionParametersTlv → val = electionValue sender) ∧
      (type = awdlElectionParametersV2Tlv → val = electionV2Value sender) := by
  constructor <;> rintro rfl <;> cases kind <;>
    simpa [sentTlvs,opening,mifOnly,closing,awdlElectionParametersTlv,awdlElectionParametersV2Tlv,
      awdlSynchronizationParametersTlv,awdlChanSeqTlv,awdlServiceParametersTlv,awdlEnhancedDataRateCapabilitiesTlv,
      awdlArpaTlv,awdlDataPathStateTlv,awdlVersionTlv] using member

theorem election_unraised (raised : Unraised src.election) (claim : Unraised sender.election) :
    Unraised (awdlHandleElectionParamsTlv src (electionValue sender)).2.election := by
  obtain ⟨_,_,_,first,second,third,fourth⟩ := election_reads sender
  unfold awdlHandleElectionParamsTlv
  split
  · exact raised
  · rw [first,second,third,fourth]
    exact ⟨raised.counter,claim.metric⟩

-- Neither the TLVs of a genuine frame nor what its FCS may read as raise a claim.
theorem handle_unraised (claim : Unraised sender.election)
    (known : (type,val) ∈ sentTlvs clock sender kind ∨ val.length ≤ 1) (mem : Fin awdlChanseqLength → AwdlChan)
    (src : AwdlPeer) (state : AwdlState) (tsft : UInt64) (raised : Unraised src.election) :
    Unraised (awdlHandleTlv mem src type val state tsft).2.1.election := by
  rcases handle_cases mem src type val state tsft with
    left | ⟨first,left⟩ | ⟨second,left⟩ | ⟨after,left,election,_⟩ <;> rw [left]
  · exact raised
  · rcases known with member | short
    · rw [(sent_election member).1 first]
      exact election_unraised raised claim
    · have missing : readU8 val 3 = none := readWord_short (by omega)
      unfold awdlHandleElectionParamsTlv
      rw [missing]
      split <;> exact raised
  · rcases known with member | short
    · rw [(sent_election member).2 second,electionV2_handled]
      exact ⟨claim.counter,claim.metric⟩
    · have missing : readLe32 val 16 = none := readWord_short (by omega)
      unfold awdlHandleElectionParamsV2Tlv
      rw [missing]
      exact raised
  · rw [election]
    exact raised

theorem trailer_short (four : fcs.length = 4)
    (member : tlv ∈ (awdlRxTlvs chanMem tsft fcs src state).calls) : tlv.2.length ≤ 1 := by
  obtain ⟨rest,_,ran⟩ := tlvs_trailer four chanMem tsft src state
  rw [ran] at member
  change tlv ∈ (trailerRun chanMem tsft src state (readTlv fcs 0)).calls at member
  rw [trailer_calls,Option.mem_toList] at member
  have inside := @readTlv_length tlv.1 tlv.2 _ member
  omega

-- The loop over a genuine frame's TLVs and the trailer behind them.
theorem loop_unraised (claim : Unraised sender.election) (check : fcs.length = 4) (raised : Unraised peer.election)
    (chanMem : Nat → Fin awdlChanseqLength → AwdlChan) (tsft : UInt64) (clock : TxClock) (type : AwdlActionType)
    (state : AwdlState) : Unraised (awdlRxTlvs chanMem tsft (encodeTlvs (sentTlvs clock sender type) ++ fcs) peer
      state).src.election := by
  refine tlvs_preserve (P := fun p _ => Unraised p.election) _ _ _ ?_ raised
  intro tlv member mem p s before
  have known : (tlv.1,tlv.2) ∈ sentTlvs clock sender type ∨ tlv.2.length ≤ 1 := by
    rcases tlvs_calls _ (tlvs_fit clock sender type) fcs tlv member with inside | ⟨_,_,behind⟩
    · exact .inl inside
    · exact .inr (trailer_short check behind)
  exact handle_unraised claim known mem p s _ before

theorem heard_upward (upward : Upward hash addr state) (genuine : Genuine frame) (check : fcs.length = 4)
    (ran : awdlRx hash env radio.length (radio ++ frame ++ fcs) now state = some run) :
    Upward hash addr run.state := by
  obtain ⟨self,counter,metric,unraised,sync,f,refines,all⟩ := upward
  obtain ⟨clock,sender,ieee80211State,type,claim,plain,rfl⟩ := genuine
  rcases rx_cases ran with ⟨stats,left⟩ | ⟨rssi,body,way,acted⟩
  · rw [left]
    exact ⟨self,counter,metric,unraised,sync,f,refines,all⟩
  · generalize frameSource _ _ = source at way acted
    obtain ⟨hdr,laid,_⟩ := action_frame_bytes clock sender ieee80211State type plain
    obtain ⟨af,header⟩ : ∃ af : AwdlAction, awdlInitAction clock.action type = af.bytes := ⟨_,rfl⟩
    rw [laid,header,tlvs_encoded,List.append_assoc,List.append_assoc,List.append_assoc,route_sent] at way
    have inner : body = af.bytes ++ (encodeTlvs (sentTlvs clock sender type) ++ fcs) := by
      split at way
      · cases way
      · split at way
        · cases way
        · exact (routeBody_action way).2.2
    subst inner
    have stripped : bufStrip (af.bytes ++ (encodeTlvs (sentTlvs clock sender type) ++ fcs)) AwdlAction.size =
        some (encodeTlvs (sentTlvs clock sender type) ++ fcs) := strip_append af.bytes _
    have touched : ∀ p : AwdlPeer, Unraised p.election → Unraised (touch now p).election := by
      intro p raised
      rwa [touch_election]
    have read : ∀ entry : Entry, Unraised entry.peer.election → Unraised (awdlRxTlvs env.chanMem now
        ((bufStrip (af.bytes ++ (encodeTlvs (sentTlvs clock sender type) ++ fcs)) AwdlAction.size).getD
          (af.bytes ++ (encodeTlvs (sentTlvs clock sender type) ++ fcs))) entry.peer
            (counted state entry.added)).src.election := by
      intro entry raised
      rw [stripped,Option.getD_some]
      exact loop_unraised claim check raised _ _ _ _ _
    obtain ⟨⟨g,rewritten⟩,_,_,left,_⟩ := action_rewritten (fun p => Unraised p.election) refines (all _)
      (fun _ => respected_of (fun _ => ⟨rfl,rfl⟩) (all _) touched) (fun entry _ raised =>
        ⟨fun _ => read entry raised,fun _ => settle_good touched (fun _ raised => raised) (read entry raised)⟩) acted
    rw [left]
    refine ⟨self,counter,metric,unraised,sync,g,rewritten.refines,?_⟩
    intro a peer held
    by_cases here : a = source
    · subst here
      exact rewritten.own peer held
    · exact all a peer (rewritten.others a peer here held)

-- The other steps of a node leave its election state and its peers alone.
theorem own_upward (upward : Upward hash addr state) (own : ownStep event = true)
    (step : NodeStep hash rxCtrlLen state event out next) : Upward hash addr next := by
  rcases step_cases step with ⟨_,_,_,_,rfl,_,_⟩ | ⟨now,_,rfl⟩ | ⟨_,_,_,_,rfl⟩
  · cases own
  · exact elected_upward (dropped_upward upward _)
  · exact ⟨upward.self,upward.counter,upward.metric,upward.unraised,upward.sync,upward.table⟩

theorem step_upward (before : NetworkInvariant hash net) (step : NetworkStep hash net event out next) :
    NetworkInvariant hash next := by
  have changed : ∀ {addr state}, Upward hash addr state → ∀ a, Upward hash a ((net.change addr state).station a) := by
    intro addr state upward a
    by_cases here : a = addr
    · subst here
      simpa [Network.change] using upward
    · simpa [Network.change,Function.update_of_ne here] using before.stations a
  cases step with
  | send plain =>
    rename_i addr clock ieee80211State type
    have own := before.stations addr
    refine ⟨changed ⟨own.self,own.counter,own.metric,own.unraised,own.sync,own.table⟩,?_⟩
    intro frame sent
    rcases List.mem_cons.mp sent with rfl | old
    · exact ⟨_,_,_,_,own.unraised,plain,rfl⟩
    · exact before.air frame old
  | hear sent check ran => exact ⟨changed (heard_upward (before.stations _) (before.air _ sent) check ran),before.air⟩
  | dropPeers => exact ⟨changed (dropped_upward (before.stations _) _),before.air⟩
  | elect => exact ⟨changed (elected_upward (before.stations _)),before.air⟩
  | act own ran => exact ⟨changed (own_upward (before.stations _) own ran),before.air⟩

theorem reached_upward (silent : Silent start) (path : Runs (NetworkStep hash) start trace net) :
    NetworkInvariant hash net := by
  refine runs_invariant (fun _ _ _ _ before step => step_upward before step)
    ⟨fun addr => booted_upward (silent.2 addr),?_⟩ path
  rw [silent.1]
  exact fun _ member => absurd member List.not_mem_nil

-- Along every link the address grows, so no path of links comes back.
theorem sync_tree_acyclic (silent : Silent start) (path : Runs (NetworkStep hash) start trace net) (a : EtherAddr) :
    ¬ Relation.TransGen (Link net) a a := by
  have invariant := reached_upward silent path
  have grows : ∀ {a b}, Link net a b → a < b := by
    rintro a b ⟨rfl,other⟩
    exact (invariant.stations a).sync.resolve_left other
  intro cycle
  have climbs : Relation.TransGen (· < ·) a a := Relation.TransGen.mono (fun _ _ link => grows link) _ _ cycle
  rw [Relation.transGen_eq_self] at climbs
  exact lt_irrefl a climbs

-- A node hears a MIF of one with a greater address and follows it.
def silence : Network := ⟨fun addr => awdlInitState default [] addr chanOpclass6 0,[]⟩

def announcement : Buf := (awdlInitFullActionFrame ⟨5,7⟩ (silence.station nodeTwo) ieee80211InitState .mif).1

def announced : Network :=
  {silence.change nodeTwo (awdlSendAction (silence.station nodeTwo)) with air := [announcement]}

theorem sync_tree_acyclic_pair : ∃ trace net, Runs (NetworkStep (fun _ => 0)) silence trace net ∧
    (net.station nodeOne).election.syncAddr = nodeTwo ∧ ¬ Relation.TransGen (Link net) nodeOne nodeOne := by
  have silent : Silent silence := ⟨rfl,fun _ => .init⟩
  have sends : NetworkStep (fun _ => 0) silence (.send nodeTwo ⟨5,7⟩ ieee80211InitState .mif) () announced := .send rfl
  have follows : (awdlRx (fun _ => 0) {quiet with fuel := 1} radioHdr.length (radioHdr ++ announcement ++ [1,2,3,4]) 9
      (announced.station nodeOne)).map (fun run => (awdlElectionRun run.state.election run.state.peers.peers).syncAddr) =
        some nodeTwo := by
    decide +kernel
  obtain ⟨run,ran,syncAddr⟩ := Option.map_eq_some_iff.mp follows
  have hears : NetworkStep (fun _ => 0) announced
      (.hear nodeOne {quiet with fuel := 1} radioHdr announcement [1,2,3,4] 9) () (announced.change nodeOne run.state) :=
    .hear List.mem_cons_self rfl ran
  have path : Runs (NetworkStep (fun _ => 0)) silence _ _ :=
    .cons sends (.cons hears (.cons (@NetworkStep.elect _ _ nodeOne) .nil))
  refine ⟨_,_,path,?_,sync_tree_acyclic silent path nodeOne⟩
  simpa [Network.change] using syncAddr

end EspOwl.SyncTree
