import EspOwl.SyncTree

namespace EspOwl.RootElection
open Histories PartialMaps PeerMap PeerHistory TlvLoop ActionFrames ActionTlvs ActionRoundTrip Dispatch Delivery
  FrameCheck SenderRecords NodeHistory ElectionOrder ElectionOutcome SyncTree

variable {hash : EtherAddr → UInt64} {root addr : EtherAddr}

-- Among claims that nobody has raised, the shorter way wins, then the address.
theorem unraised_outranks (first : Unraised a) (second : Unraised b) :
    Outranks a b ↔ a.height < b.height ∨ a.height = b.height ∧ b.selfAddr < a.selfAddr := by
  unfold Outranks
  rw [first.counter,first.metric,second.counter,second.metric]
  simp [UInt32.lt_irrefl]

-- What the station with the greatest address says of itself.
structure Leading (root : EtherAddr) (election : AwdlElectionState) : Prop where
  height : election.height = 0
  master : election.masterAddr = root
  sync : election.syncAddr = root

-- A node of the first level, under the root.
structure Follows (root : EtherAddr) (election : AwdlElectionState) : Prop where
  height : election.height = 1
  master : election.masterAddr = root
  sync : election.syncAddr = root

-- What a record says of its station.
structure Recorded (root addr : EtherAddr) (peer : AwdlPeer) : Prop where
  named : peer.election.selfAddr = addr
  claim : Unraised peer.election
  leads : addr = root → Leading root peer.election

-- The invariant of a node: two levels, and nobody above the root in the table.
structure Levelled (hash : EtherAddr → UInt64) (root addr : EtherAddr) (f : Peers) (state : AwdlState) : Prop where
  own : state.selfAddress = addr
  self : state.election.selfAddr = addr
  counter : state.election.selfCounter = awdlElectionCounterInit
  metric : state.election.selfMetric = awdlElectionMetricInit
  claim : Unraised state.election
  level : state.election.height = 0 ∧ state.election.syncAddr = addr ∨
    state.election.height = 1 ∧ addr < state.election.syncAddr
  leads : addr = root → Leading root state.election
  refines : Refines hash state.peers.peers f
  below : ∀ a peer, f a = some peer → a ≤ root
  recorded : ∀ a peer, f a = some peer → Recorded root a peer

-- Frames of stations up to the root, with what they say of themselves.
def Announced (root : EtherAddr) (frame : Buf) : Prop := ∃ clock sender ieee80211State type,
  sender.selfAddress ≤ root ∧ Unraised sender.election ∧ (sender.selfAddress = root → Leading root sender.election) ∧
    ieee80211State.fcs = false ∧ frame = (awdlInitFullActionFrame clock sender ieee80211State type).1

structure LevelledNetwork (hash : EtherAddr → UInt64) (root : EtherAddr) (net : Network) : Prop where
  stations : ∀ addr, ∃ f, Levelled hash root addr f (net.station addr)
  air : ∀ frame ∈ net.air, Announced root frame

section Elections

theorem booted_levelled (booted : Booted addr state) : Levelled hash root addr (fun _ => none) state := by
  obtain ⟨_,_,_,_,_,_,_,rfl⟩ := booted.form
  exact {
    own := rfl
    self := rfl
    counter := rfl
    metric := rfl
    claim := ⟨rfl,rfl⟩
    level := .inl ⟨rfl,rfl⟩
    leads := by rintro rfl; exact ⟨rfl,rfl,rfl⟩
    refines := init_refines
    below := fun _ _ held => by cases held
    recorded := fun _ _ held => by cases held}

theorem reset_unraised (counter : state.selfCounter = awdlElectionCounterInit)
    (metric : state.selfMetric = awdlElectionMetricInit) : Unraised (awdlElectionResetSelf state) := ⟨counter,metric⟩

-- An election ends on the first level below a greater address, or on top.
theorem elected_levelled (before : Levelled hash root addr f state) :
    Levelled hash root addr f {state with election := awdlElectionRun state.election state.peers.peers} := by
  obtain ⟨own,rfl,counter,metric,claim,_,_,refines,below,recorded⟩ := before
  rcases run_cases state.election state.peers.peers with reset | ⟨peer,held,_,better,adopted⟩
  · rw [reset]
    exact ⟨own,rfl,counter,metric,⟨counter,metric⟩,.inl ⟨rfl,rfl⟩,fun here => ⟨rfl,here,here⟩,refines,below,recorded⟩
  · obtain ⟨⟨a,p⟩,member,rfl⟩ := List.mem_map.mp held
    have listed := (refines.listed.exact a p).mp member
    have record := recorded a p listed
    rw [unraised_outranks record.claim (reset_unraised counter metric)] at better
    have top : p.election.height = 0 ∧ state.election.selfAddr < a := by
      rcases better with lower | ⟨level,greater⟩
      · exact absurd (UInt32.lt_iff_toNat_lt.mp lower) (Nat.not_lt_zero _)
      · rw [record.named] at greater
        exact ⟨level,greater⟩
    rw [adopted]
    refine ⟨own,rfl,counter,metric,⟨record.claim.counter,record.claim.metric⟩,.inr ⟨?_,?_⟩,?_,refines,below,recorded⟩
    · change p.election.height + 1 = 1
      rw [top.1]
      rfl
    · change state.election.selfAddr < p.election.selfAddr
      rw [record.named]
      exact top.2
    · intro here
      rw [here] at top
      exact absurd (below a p listed) (not_le.mpr top.2)

-- A node that holds a valid record of the root elects it.
theorem elects_root (before : Levelled hash root addr f state) (lower : addr < root) (held : f root = some peer)
    (valid : peer.isValid = true) : Follows root (awdlElectionRun state.election state.peers.peers) := by
  obtain ⟨own,rfl,counter,metric,claim,_,_,refines,below,recorded⟩ := before
  have record := recorded root peer held
  obtain ⟨level,master,sync⟩ := record.leads rfl
  have reset := reset_unraised counter metric
  have member : peer ∈ stored state.peers.peers :=
    List.mem_map.mpr ⟨(root,peer),(refines.listed.exact root peer).mpr held,rfl⟩
  have able : eligible state.election.selfAddr peer = true := by
    have foreign : peer.election.syncAddr ≠ state.election.selfAddr := by
      rw [sync]
      exact lower.ne'
    have low : ¬ peer.election.height + 1 > awdlElectionTreeMaxHeight := by rw [level]; decide
    simp only [eligible,valid,low,foreign,decide_true,not_false_eq_true,ne_eq,Bool.and_self]
  have best := master_top state.election state.peers.peers peer.election (.inr ⟨peer,member,able,rfl⟩)
  cases found : awdlElectionMaster state.election state.peers.peers with
  | none =>
    rw [found,Option.getD_none,unraised_outranks record.claim reset] at best
    refine absurd (.inr ⟨level,?_⟩) best
    rw [record.named]
    exact lower
  | some chosen =>
    obtain ⟨⟨other,stands,_,rfl⟩,_⟩ := master_some found
    obtain ⟨⟨a,p⟩,there,rfl⟩ := List.mem_map.mp stands
    have listed := (refines.listed.exact a p).mp there
    have rival := recorded a p listed
    rw [found,Option.getD_some,unraised_outranks record.claim rival.claim,record.named,rival.named,level] at best
    have here : a = root := by
      by_contra away
      have lesser := lt_of_le_of_ne (below a p listed) away
      rcases eq_or_ne p.election.height 0 with same | more
      · exact best (.inr ⟨same.symm,lesser⟩)
      · refine best (.inl (UInt32.lt_iff_toNat_lt.mpr (Nat.pos_of_ne_zero fun zero => more ?_)))
        exact UInt32.toNat_inj.mp zero
    subst here
    rw [held] at listed
    cases listed
    rw [awdlElectionRun,found]
    refine ⟨?_,master,record.named⟩
    change peer.election.height + 1 = 1
    rw [level]
    rfl

theorem dropped_levelled (before : Levelled hash root addr f state) (cutoff : UInt64) :
    ∃ g, Levelled hash root addr g (state.setPeers (awdlPeersRemove state.peers.peers cutoff)) := by
  have kept : ∀ a peer, keepIf f (fun peer => decide (¬ peer.lastUpdate < cutoff)) a = some peer → f a = some peer :=
    fun a peer held => (Option.filter_eq_some_iff.mp held).1
  exact ⟨_,before.own,before.self,before.counter,before.metric,before.claim,before.level,before.leads,
    removeBefore_refines before.refines cutoff,fun a peer held => before.below a peer (kept a peer held),
    fun a peer held => before.recorded a peer (kept a peer held)⟩

end Elections

section Reception

-- The version 1 TLV leaves sync_addr alone, which a record has from the start.
theorem election_leading (before : Leading root src.election) (heads : Leading root sender.election) :
    Leading root (awdlHandleElectionParamsTlv src (electionValue sender)).2.election := by
  have long : (electionValue sender).length = 21 := rfl
  have first : readU8 (electionValue sender) 3 = some 0 := by
    have height : sender.election.height.toUInt8 = 0 := by rw [heads.height]; rfl
    rw [electionValue,height]
    rfl
  have second : readEtherAddr (electionValue sender) 5 = some sender.election.masterAddr :=
    readEtherAddr_at ([0] ++ le16 0 ++ [sender.election.height.toUInt8,0]) 5 rfl _
      (le32 sender.election.masterMetric ++ (le32 sender.election.selfMetric ++ [0,0]))
  obtain ⟨_,_,_,_,_,third,fourth⟩ := election_reads sender
  unfold awdlHandleElectionParamsTlv
  split
  · exact before
  · rw [first,second,third,fourth]
    exact ⟨rfl,heads.master,before.sync⟩

theorem handle_leading (heads : Leading root sender.election)
    (known : (type,val) ∈ sentTlvs clock sender kind ∨ val.length ≤ 1) (mem : Fin awdlChanseqLength → AwdlChan)
    (src : AwdlPeer) (state : AwdlState) (tsft : UInt64) (before : Leading root src.election) :
    Leading root (awdlHandleTlv mem src type val state tsft).2.1.election := by
  rcases handle_cases mem src type val state tsft with
    left | ⟨first,left⟩ | ⟨second,left⟩ | ⟨after,left,election,_⟩ <;> rw [left]
  · exact before
  · rcases known with member | short
    · rw [(sent_election member).1 first]
      exact election_leading before heads
    · have missing : readU8 val 3 = none := readWord_short (by omega)
      unfold awdlHandleElectionParamsTlv
      rw [missing]
      split <;> exact before
  · rcases known with member | short
    · rw [(sent_election member).2 second,electionV2_handled]
      exact ⟨heads.height,heads.master,heads.sync⟩
    · have missing : readLe32 val 16 = none := readWord_short (by omega)
      unfold awdlHandleElectionParamsV2Tlv
      rw [missing]
      exact before
  · rw [election]
    exact before

theorem handle_recorded (claim : Unraised sender.election) (heads : sender.selfAddress = root → Leading root sender.election)
    (known : (type,val) ∈ sentTlvs clock sender kind ∨ val.length ≤ 1) (mem : Fin awdlChanseqLength → AwdlChan)
    (src : AwdlPeer) (state : AwdlState) (tsft : UInt64) (before : Recorded root sender.selfAddress src) :
    Recorded root sender.selfAddress (awdlHandleTlv mem src type val state tsft).2.1 where
  named := (handle_footprint mem src type val state tsft).owner.trans before.named
  claim := handle_unraised claim known mem src state tsft before.claim
  leads := fun here => handle_leading (heads here) known mem src state tsft (before.leads here)

theorem loop_recorded (claim : Unraised sender.election) (heads : sender.selfAddress = root → Leading root sender.election)
    (check : fcs.length = 4) (before : Recorded root sender.selfAddress peer)
    (chanMem : Nat → Fin awdlChanseqLength → AwdlChan) (tsft : UInt64) (clock : TxClock) (type : AwdlActionType)
    (state : AwdlState) : Recorded root sender.selfAddress
      (awdlRxTlvs chanMem tsft (encodeTlvs (sentTlvs clock sender type) ++ fcs) peer state).src := by
  refine tlvs_preserve (P := fun p _ => Recorded root sender.selfAddress p) _ _ _ ?_ before
  intro tlv member mem p s known
  have sent : (tlv.1,tlv.2) ∈ sentTlvs clock sender type ∨ tlv.2.length ≤ 1 := by
    rcases tlvs_calls _ (tlvs_fit clock sender type) fcs tlv member with inside | ⟨_,_,behind⟩
    · exact .inl inside
    · exact .inr (trailer_short check behind)
  exact handle_recorded claim heads sent mem p s _ known

theorem recorded_touched (now : UInt64) (peer : AwdlPeer) (before : Recorded root src peer) :
    Recorded root src (touch now peer) := by
  have same := touch_election now peer
  exact ⟨by rw [same]; exact before.named,by rw [same]; exact before.claim,by rw [same]; exact before.leads⟩

theorem heard_levelled (before : Levelled hash root addr f state) (announced : Announced root frame)
    (check : fcs.length = 4)
    (ran : awdlRx hash env radio.length (radio ++ frame ++ fcs) now state = some run) :
    ∃ g, Levelled hash root addr g run.state := by
  obtain ⟨clock,sender,ieee80211State,type,lower,claim,heads,plain,rfl⟩ := announced
  rcases rx_cases ran with ⟨stats,left⟩ | ⟨rssi,body,way,acted⟩
  · rw [left]
    exact ⟨f,before.own,before.self,before.counter,before.metric,before.claim,before.level,before.leads,before.refines,
      before.below,before.recorded⟩
  · obtain ⟨from_sender,inner⟩ := built_route plain way
    rw [from_sender] at acted
    have fresh : Recorded root sender.selfAddress (awdlPeerNew sender.selfAddress env.peerMem) :=
      ⟨rfl,⟨rfl,rfl⟩,fun here => ⟨rfl,here,here⟩⟩
    have read : ∀ entry : Entry, Recorded root sender.selfAddress entry.peer → Recorded root sender.selfAddress
        (awdlRxTlvs env.chanMem now ((bufStrip body AwdlAction.size).getD body) entry.peer
          (counted state entry.added)).src := by
      intro entry known
      rw [inner]
      exact loop_recorded claim heads check known _ _ _ _ _
    have touched := @recorded_touched root sender.selfAddress now
    have named : ∀ peer, Recorded root sender.selfAddress peer →
        Recorded root sender.selfAddress {peer with sentMif := true} := fun _ known => ⟨known.named,known.claim,known.leads⟩
    obtain ⟨⟨g,rewritten⟩,sync,stats,left,_⟩ := action_rewritten (Recorded root sender.selfAddress) before.refines
      (before.recorded _) (fun _ => respected_of (fun _ => fresh) (before.recorded _) touched)
      (fun entry _ known => ⟨fun _ => read entry known,fun _ => settle_good touched named (read entry known)⟩) acted
    rw [left]
    refine ⟨g,before.own,before.self,before.counter,before.metric,before.claim,before.level,before.leads,
      rewritten.refines,?_,?_⟩
    · intro a peer held
      by_cases here : a = sender.selfAddress
      · rw [here]
        exact lower
      · exact before.below a peer (rewritten.others a peer here held)
    · intro a peer held
      by_cases here : a = sender.selfAddress
      · subst here
        exact rewritten.own peer held
      · exact before.recorded a peer (rewritten.others a peer here held)

theorem own_levelled (before : Levelled hash root addr f state) (own : ownStep event = true)
    (step : NodeStep hash rxCtrlLen state event out next) : ∃ g, Levelled hash root addr g next := by
  rcases step_cases step with ⟨_,_,_,_,rfl,_,_⟩ | ⟨now,_,rfl⟩ | ⟨_,_,_,_,rfl⟩
  · cases own
  · obtain ⟨g,swept⟩ := dropped_levelled before (now - state.peers.timeout)
    exact ⟨g,elected_levelled swept⟩
  · exact ⟨f,before.own,before.self,before.counter,before.metric,before.claim,before.level,before.leads,before.refines,
      before.below,before.recorded⟩

end Reception

section Network

-- Stations with an address above the root only listen.
def Below (root : EtherAddr) : NetworkEvent → Prop
  | .send addr .. => addr ≤ root
  | _ => True

theorem LevelledNetwork.change (before : LevelledNetwork hash root net) (after : ∃ f, Levelled hash root addr f state) :
    LevelledNetwork hash root (net.change addr state) := by
  refine ⟨fun a => ?_,before.air⟩
  by_cases here : a = addr
  · subst here
    simpa [Network.change] using after
  · simpa [Network.change,Function.update_of_ne here] using before.stations a

theorem step_levelled (before : LevelledNetwork hash root net) (below : Below root event)
    (step : NetworkStep hash net event out next) : LevelledNetwork hash root next := by
  cases step with
  | send plain =>
    rename_i addr clock ieee80211State type
    obtain ⟨f,own⟩ := before.stations addr
    have after : LevelledNetwork hash root (net.change addr (awdlSendAction (net.station addr))) :=
      before.change ⟨f,own.own,own.self,own.counter,own.metric,own.claim,own.level,own.leads,own.refines,own.below,
        own.recorded⟩
    refine ⟨after.stations,fun frame sent => ?_⟩
    rcases List.mem_cons.mp sent with rfl | old
    · refine ⟨_,_,_,_,?_,own.claim,?_,plain,rfl⟩
      · rw [own.own]
        exact below
      · rw [own.own]
        exact own.leads
    · exact before.air frame old
  | hear sent check ran =>
    obtain ⟨f,own⟩ := before.stations _
    exact before.change (heard_levelled own (before.air _ sent) check ran)
  | dropPeers =>
    obtain ⟨f,own⟩ := before.stations _
    exact before.change (dropped_levelled own _)
  | elect =>
    obtain ⟨f,own⟩ := before.stations _
    exact before.change ⟨f,elected_levelled own⟩
  | act own ran =>
    obtain ⟨f,station⟩ := before.stations _
    exact before.change (own_levelled station own ran)

theorem silent_levelled (silent : Silent start) : LevelledNetwork hash root start := by
  refine ⟨fun addr => ⟨_,booted_levelled (silent.2 addr)⟩,fun frame sent => ?_⟩
  rw [silent.1] at sent
  cases sent

theorem reached_levelled (silent : Silent start) (path : Runs (NetworkStep hash) start trace net)
    (below : ∀ entry ∈ trace, Below root entry.1) : LevelledNetwork hash root net :=
  runs_invariant (fun _ _ _ _ before step => step_levelled before step.1 step.2) (silent_levelled silent)
    (runs_within path below)

end Network

-- However the frames travel, the root stays its own master, and the others are at most
-- one hop below a greater address: a peer that follows somebody is never followed.
theorem root_leads (silent : Silent start) (path : Runs (NetworkStep hash) start trace net)
    (below : ∀ entry ∈ trace, Below root entry.1) :
    Leading root (net.station root).election ∧ ∀ addr,
      (net.station addr).election.height = 0 ∧ (net.station addr).election.syncAddr = addr ∨
      (net.station addr).election.height = 1 ∧ addr < (net.station addr).election.syncAddr := by
  have levelled := reached_levelled silent path below
  constructor
  · obtain ⟨_,own⟩ := levelled.stations root
    exact own.leads rfl
  · intro addr
    obtain ⟨_,own⟩ := levelled.stations addr
    exact own.level

-- A node that has heard one MIF of a greater one.
theorem silence_silent : Silent silence := ⟨rfl,fun _ => .init⟩

theorem announced_run : ∃ trace heard peer, Runs (NetworkStep (fun _ => 0)) silence trace heard ∧
    (∀ entry ∈ trace, Below nodeTwo entry.1) ∧
    awdlPeerGet (fun _ => 0) (Network.station heard nodeOne).peers.peers nodeTwo = (.ok,some peer) ∧
      peer.isValid = true := by
  have hears : (awdlRx (fun _ => 0) {quiet with fuel := 1} radioHdr.length (radioHdr ++ announcement ++ [1,2,3,4]) 9
      (announced.station nodeOne)).map (fun run => (awdlPeerGet (fun _ => 0) run.state.peers.peers nodeTwo).map id
        (Option.map AwdlPeer.isValid)) = some (.ok,some true) := by
    decide +kernel
  obtain ⟨run,ran,known⟩ := Option.map_eq_some_iff.mp hears
  obtain ⟨status,record⟩ := Prod.ext_iff.mp known
  obtain ⟨peer,held,valid⟩ := Option.map_eq_some_iff.mp record
  have sends : NetworkStep (fun _ => 0) silence (.send nodeTwo ⟨5,7⟩ ieee80211InitState .mif) () announced := .send rfl
  have heard : NetworkStep (fun _ => 0) announced
      (.hear nodeOne {quiet with fuel := 1} radioHdr announcement [1,2,3,4] 9) () (announced.change nodeOne run.state) :=
    .hear List.mem_cons_self rfl ran
  refine ⟨_,_,peer,.cons sends (.cons heard .nil),by simp [Below],?_,valid⟩
  rw [show (announced.change nodeOne run.state).station nodeOne = run.state by simp [Network.change]]
  exact Prod.ext status held

theorem root_leads_pair : ∃ trace net, Runs (NetworkStep (fun _ => 0)) silence trace net ∧
    (∀ entry ∈ trace, Below nodeTwo entry.1) ∧ Follows nodeTwo (Network.station net nodeOne).election ∧
      Leading nodeTwo (net.station nodeTwo).election := by
  obtain ⟨trace,heard,peer,path,below,found,valid⟩ := announced_run
  obtain ⟨_,own⟩ := (reached_levelled silence_silent path below).stations nodeOne
  have elects : NetworkStep (fun _ => 0) heard (.elect nodeOne) () _ := .elect
  have longer := runs_append path (.cons elects .nil)
  have quiet : ∀ entry ∈ trace ++ [(NetworkEvent.elect nodeOne,())], Below nodeTwo entry.1 :=
    List.forall_mem_append.mpr ⟨below,by simp [Below]⟩
  refine ⟨_,_,longer,quiet,?_,(root_leads silence_silent longer quiet).1⟩
  simp only [Network.change,Function.update_self]
  exact elects_root own (by decide) (own.refines.bound found) valid

-- A lookup of the root finds a valid peer.
def Sees (hash : EtherAddr → UInt64) (root : EtherAddr) (state : AwdlState) : Prop :=
  ∃ peer, awdlPeerGet hash state.peers.peers root = (.ok,some peer) ∧ peer.isValid = true

def Elects (addr : EtherAddr) : NetworkEvent → Prop
  | .elect node => node = addr
  | .act node (.cleanPeers _) => node = addr
  | _ => False

section Convergence

theorem heard_election (before : Levelled hash root addr f state)
    (ran : awdlRx hash env rxCtrlLen frame now state = some run) : run.state.election = state.election := by
  rcases rx_cases ran with ⟨stats,left⟩ | ⟨rssi,body,_,acted⟩
  · rw [left]
  · obtain ⟨_,_,_,left,_⟩ := action_confined before.refines acted
    rw [left]
    rfl

theorem own_election (own : ownStep event = true) (step : NodeStep hash rxCtrlLen state event out next) :
    (∃ now, event = .cleanPeers now) ∨ next.election = state.election := by
  rcases step_cases step with ⟨_,_,_,_,rfl,_,_⟩ | ⟨now,rfl,_⟩ | ⟨_,_,_,_,rfl⟩
  · cases own
  · exact .inl ⟨now,rfl⟩
  · exact .inr rfl

-- An election is the only step that changes whom a node follows.
theorem step_election (before : LevelledNetwork hash root net) (step : NetworkStep hash net event out next)
    (addr : EtherAddr) : Elects addr event ∨ (next.station addr).election = (net.station addr).election := by
  have changed : ∀ {node state}, (node = addr → state.election = (net.station addr).election) →
      ((net.change node state).station addr).election = (net.station addr).election := by
    intro node state same
    by_cases here : addr = node
    · subst here
      simpa [Network.change] using same rfl
    · simp [Network.change,Function.update_of_ne here]
  cases step with
  | send plain => exact .inr (changed (by rintro rfl; rfl))
  | hear sent check ran =>
    refine .inr (changed ?_)
    rintro rfl
    obtain ⟨f,own⟩ := before.stations _
    exact heard_election own ran
  | dropPeers => exact .inr (changed (by rintro rfl; rfl))
  | @elect _ node =>
    by_cases here : node = addr
    · exact .inl here
    · exact .inr (changed fun same => absurd same here)
  | @act _ _ _ _ _ node own ran =>
    by_cases here : node = addr
    · subst here
      rcases own_election own ran with ⟨now,rfl⟩ | same
      · exact .inl rfl
      · exact .inr (changed fun _ => same)
    · exact .inr (changed fun same => absurd same here)

theorem elected_follows (before : LevelledNetwork hash root net) (step : NetworkStep hash net event out next)
    (lower : addr < root) (elects : Elects addr event) (sees : Sees hash root (next.station addr)) :
    Follows root (next.station addr).election := by
  obtain ⟨f,own⟩ := before.stations addr
  obtain ⟨peer,found,valid⟩ := sees
  cases step with
  | @elect _ node =>
    obtain rfl : node = addr := elects
    simp only [Network.change,Function.update_self] at found ⊢
    exact elects_root own lower (own.refines.bound found) valid
  | @act _ _ _ _ _ node _ ran =>
    cases ran with
    | @cleanPeers _ now =>
      obtain rfl : node = addr := elects
      obtain ⟨g,swept⟩ := dropped_levelled own (now - (net.station node).peers.timeout)
      simp only [Network.change,Function.update_self] at found ⊢
      exact elects_root swept lower (swept.refines.bound found) valid
    | _ => cases elects
  | _ => cases elects

-- Once a node that holds a valid record of the root has run one election it follows the
-- root, and it does so as long as the record stays, whatever else is heard or elected.
theorem root_followed (silent : Silent start) (path : Runs (NetworkStep hash) start trace net)
    (below : ∀ entry ∈ trace, Below root entry.1) (lower : addr < root)
    (later : Runs (fun s label output t => NetworkStep hash s label output t ∧ Sees hash root (t.station addr)) net tail
      last)
    (quiet : ∀ entry ∈ tail, Below root entry.1) (elected : ∃ entry ∈ tail, Elects addr entry.1) :
    Follows root (last.station addr).election := by
  have levelled := reached_levelled silent path below
  clear path below silent
  -- What is carried along: the node follows already, or its election is still to come.
  have carried : Follows root (net.station addr).election ∨ (∃ entry ∈ tail, Elects addr entry.1) → Follows root
      (last.station addr).election := by
    clear elected
    induction later with
    | nil =>
      rintro (follows | ⟨_,member,_⟩)
      · exact follows
      · cases member
    | @cons s label output middle rest last head _ ih =>
      rw [List.forall_mem_cons] at quiet
      have next := step_levelled levelled quiet.1 head.1
      intro pending
      refine ih quiet.2 next ?_
      rcases step_election levelled head.1 addr with elects | same
      · exact .inl (elected_follows levelled head.1 lower elects head.2)
      · rcases pending with follows | ⟨entry,member,elects⟩
        · rw [same]
          exact .inl follows
        · rcases List.mem_cons.mp member with rfl | behind
          · exact .inl (elected_follows levelled head.1 lower elects head.2)
          · exact .inr ⟨entry,behind,elects⟩
  exact carried (.inr elected)

end Convergence

theorem root_followed_pair : ∃ trace heard last, Runs (NetworkStep (fun _ => 0)) silence trace heard ∧
    NetworkStep (fun _ => 0) heard (.elect nodeOne) () last ∧
      Follows nodeTwo (Network.station last nodeOne).election := by
  obtain ⟨trace,heard,peer,path,below,found,valid⟩ := announced_run
  have elects : NetworkStep (fun _ => 0) heard (.elect nodeOne) () _ := .elect
  refine ⟨trace,heard,_,path,elects,root_followed silence_silent path below (by decide)
    (.cons ⟨elects,peer,?_,valid⟩ .nil) ?_ ⟨_,List.mem_cons_self,rfl⟩⟩
  · simpa only [Network.change,Function.update_self] using found
  · simp [Below]
end EspOwl.RootElection
