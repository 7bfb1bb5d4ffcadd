import EspOwl.ActionFrames
import EspOwl.ActionTlvs
import EspOwl.Delivery

namespace EspOwl.ActionRoundTrip
open TlvLoop PeerMap ActionFrames ActionTlvs Dispatch Delivery

-- The TLVs of an action frame: the first five, those of a MIF only, the last two.
def opening (clock : TxClock) (sender : AwdlState) : List Tlv :=
  [(awdlSynchronizationParametersTlv,syncValue clock.sync sender),(awdlElectionParametersTlv,electionValue sender),
    (awdlChanSeqTlv,chanseqValue sender),(awdlElectionParametersV2Tlv,electionV2Value sender),
    (awdlServiceParametersTlv,serviceValue)]

def mifOnly (sender : AwdlState) : AwdlActionType → List Tlv
  | .psf => []
  | .mif => [(awdlEnhancedDataRateCapabilitiesTlv,htValue),(awdlArpaTlv,arpaValue sender)]

def closing (sender : AwdlState) : List Tlv :=
  [(awdlDataPathStateTlv,dataPathValue sender),(awdlVersionTlv,versionValue sender)]

def sentTlvs (clock : TxClock) (sender : AwdlState) (type : AwdlActionType) : List Tlv :=
  opening clock sender ++ (mifOnly sender type ++ closing sender)

theorem tlvs_encoded (clock : TxClock) (sender : AwdlState) (type : AwdlActionType) :
    (awdlActionTlvs clock sender type).flatten = encodeTlvs (sentTlvs clock sender type) := by
  have each : awdlActionTlvs clock sender type = (sentTlvs clock sender type).map fun tlv => tlvBytes tlv.1 tlv.2 := by
    rw [awdlActionTlvs,sync_tlv,election_tlv,chanseq_tlv,electionV2_tlv,service_tlv,ht_tlv,arpa_tlv,dataPath_tlv,
      version_tlv]
    cases type <;> simp [sentTlvs,opening,mifOnly,closing]
  rw [each,encodeTlvs,List.flatMap_def]

theorem tlvs_fit (clock : TxClock) (sender : AwdlState) (type : AwdlActionType) :
    ∀ tlv ∈ sentTlvs clock sender type, tlv.2.length < 65536 := by
  have slots := slot_bytes sender.channel.enc
  have room := chanseq_length sender
  have sync := sync_fits clock.sync sender
  have chanseq : (chanseqValue sender).length < 65536 := by
    rw [chanseqValue,List.length_append,room,awdlChanseqLength]
    change _ + 3 < _
    omega
  have arpa : (arpaValue sender).length < 65536 := by
    rw [arpaValue,List.length_append,List.length_append,be16_length]
    have short := sender.name.strlen_le
    change sender.name.strlen ≤ 65 at short
    change 2 + (sender.name.strlen + 2) < _
    omega
  have others : (electionValue sender).length < 65536 ∧ (electionV2Value sender).length < 65536 ∧
      serviceValue.length < 65536 ∧ htValue.length < 65536 ∧ (dataPathValue sender).length < 65536 ∧
        (versionValue sender).length < 65536 := by
    refine ⟨?_,?_,?_,?_,?_,?_⟩
    · change 21 < 65536; decide
    · change 40 < 65536; decide
    · change 9 < 65536; decide
    · change 8 < 65536; decide
    · change 15 < 65536; decide
    · change 2 < 65536; decide
  cases type <;> simp [sentTlvs,opening,mifOnly,closing,sync,chanseq,arpa,others]

-- What a record holds of its station after one of its frames.
structure Learned (sender : AwdlState) (peer : AwdlPeer) : Prop where
  masterAddr : peer.election.masterAddr = sender.election.masterAddr
  syncAddr : peer.election.syncAddr = sender.election.syncAddr
  height : peer.election.height = sender.election.height
  masterMetric : peer.election.masterMetric = sender.election.masterMetric
  selfMetric : peer.election.selfMetric = sender.election.selfMetric
  masterCounter : peer.election.masterCounter = sender.election.masterCounter
  selfCounter : peer.election.selfCounter = sender.election.selfCounter
  channels : ∀ i, awdlChanNum (peer.sequence i) sender.channel.enc =
    awdlChanNum (sender.channel.sequence i) sender.channel.enc

-- Its version, device class and, from a MIF, name.
structure Introduced (sender : AwdlState) (type : AwdlActionType) (peer : AwdlPeer) : Prop where
  version : peer.version = sender.version
  devclass : peer.devclass = sender.devClass
  name : type = .mif → peer.name.text = sender.name.text

section Learning
variable (chanMem : Nat → Fin awdlChanseqLength → AwdlChan) (tsft : UInt64) (behind : Nat)

variable {chanMem tsft behind} in
theorem handleAll_next
    (handled : awdlHandleTlv (chanMem (val.length + 3 + (encodeTlvs rest).length + behind)) src type val state tsft =
      (result,after,changed)) (accepted : ¬ result.code < 0) :
    handleAll chanMem tsft behind ((type,val) :: rest) src state = handleAll chanMem tsft behind rest after changed := by
  rw [handleAll,handled]
  exact if_neg accepted

-- The version 2 election TLV comes behind the version 1 TLV and has the last word.
theorem opening_learned (clock : TxClock) (sender : AwdlState) (rest : List Tlv) (src : AwdlPeer) (state : AwdlState)
    (supported : Supported sender.channel.enc) (mode : state.sync.presenceMode = 4) :
    ∃ after changed, handleAll chanMem tsft behind (opening clock sender ++ rest) src state =
      handleAll chanMem tsft behind rest after changed ∧ Learned sender after := by
  obtain ⟨result,changed,sync,accepted,same⟩ := sync_received tsft src clock.sync sender state
  obtain ⟨elected,election⟩ := election_received tsft src sender changed
  refine ⟨_,_,(handleAll_next (sync _) accepted).trans <| (handleAll_next (election _) (by decide)).trans <|
    (handleAll_next (chanseq_received tsft _ _ sender changed supported (same.trans mode)) (by decide)).trans <|
      (handleAll_next (electionV2_received tsft _ _ sender changed) (by decide)).trans
        (handleAll_next (ignored tsft _ (.inl rfl) _ _ _ _) (by decide)),?_⟩
  exact ⟨rfl,rfl,rfl,rfl,rfl,rfl,rfl,fun i => chanNum_overwrite supported _ _⟩

theorem closing_introduced (sender : AwdlState) (type : AwdlActionType) (src : AwdlPeer) (state : AwdlState)
    (learned : Learned sender src) (short : sender.name.strlen ≤ hostNameLengthMax) :
    ∃ after, handleAll chanMem tsft behind (mifOnly sender type ++ closing sender) src state = some (after,state) ∧
      Learned sender after ∧ Introduced sender type after := by
  cases type with
  | psf =>
    refine ⟨_,(handleAll_next (dataPath_received tsft _ _ sender state) (by decide)).trans
      (handleAll_next (version_received tsft _ _ sender state) (by decide)),?_,?_⟩
    · exact ⟨learned.1,learned.2,learned.3,learned.4,learned.5,learned.6,learned.7,learned.8⟩
    · exact ⟨rfl,rfl,by simp⟩
  | mif =>
    refine ⟨_,(handleAll_next (ignored tsft _ (.inr rfl) _ _ _ _) (by decide)).trans <|
      (handleAll_next (arpa_received tsft _ _ sender state short) (by decide)).trans <|
        (handleAll_next (dataPath_received tsft _ _ sender state) (by decide)).trans
          (handleAll_next (version_received tsft _ _ sender state) (by decide)),?_,?_⟩
    · exact ⟨learned.1,learned.2,learned.3,learned.4,learned.5,learned.6,learned.7,learned.8⟩
    · exact ⟨rfl,rfl,fun _ => CharArray.text_overwrite _ (Nat.lt_succ_of_le short) (CharArray.text_clean _)⟩

theorem sentTlvs_learned (clock : TxClock) (sender : AwdlState) (type : AwdlActionType) (src : AwdlPeer)
    (state : AwdlState) (supported : Supported sender.channel.enc) (mode : state.sync.presenceMode = 4)
    (short : sender.name.strlen ≤ hostNameLengthMax) :
    ∃ after changed, handleAll chanMem tsft behind (sentTlvs clock sender type) src state = some (after,changed) ∧
      Learned sender after ∧ Introduced sender type after := by
  obtain ⟨middle,changed,first,learned⟩ := opening_learned chanMem tsft behind clock sender
    (mifOnly sender type ++ closing sender) src state supported mode
  obtain ⟨after,second,known⟩ := closing_introduced chanMem tsft behind sender type middle changed learned short
  exact ⟨after,changed,first.trans second,known⟩

end Learning

section Frames
variable {hash : EtherAddr → UInt64}

theorem settle_keeps (tsft : UInt64) (subtype : AwdlActionType) (peer : AwdlPeer) :
    ∃ sentMif isValid, settle tsft subtype peer =
        {peer with lastUpdate := tsft,sentMif := sentMif,isValid := isValid} ∧ (subtype = .mif → sentMif = true) := by
  unfold settle touch
  cases subtype <;> simp only [reduceCtorEq,if_false,if_true] <;> split <;> exact ⟨_,_,rfl,by simp⟩

theorem end_accepted (run : TlvRun) (found : awdlPeerGet hash run.state.peers.peers src = (.ok,some held))
    (passed : run.result = .ok) (all : run.frame = []) (env : Ambient) (callocs : List Bool) (tsft : UInt64) (subtype : AwdlActionType)
    (called : List AwdlPeer) :
    ∃ done, awdlRxActionEnd hash env callocs tsft src subtype run called = some done ∧ done.result = .ok ∧
      awdlPeerGet hash done.state.peers.peers src = (.ok,some (settle tsft subtype run.src)) := by
  have first := get_store found run.src
  have second := get_store first (if subtype = .mif then {run.src with sentMif := true} else run.src)
  have accepted : ¬ run.result.code < 0 := by rw [passed]; decide
  unfold awdlRxActionEnd
  simp only [if_neg accepted,all,AwdlState.setPeers,add_found second]
  exact ⟨_,rfl,rfl,addOut_get (get_store second _) _ _⟩

theorem action_received (env : Ambient) (clock : TxClock) (sender state : AwdlState) (type : AwdlActionType)
    (rssi : Int8) (tsft : UInt64) (src : EtherAddr) (added : AddRun) (supported : Supported sender.channel.enc)
    (short : sender.name.strlen ≤ hostNameLengthMax) (mode : state.sync.presenceMode = 4)
    (unfiltered : state.filterRssi = false)
    (inserted : awdlPeerAdd hash env.fuel env.callocs env.peerMem state.peers.peers src tsft = some added)
    (accepted : ¬ added.status.code < 0) :
    ∃ run peer, awdlRxAction hash env
        (awdlInitAction clock.action type ++ (awdlActionTlvs clock sender type).flatten) rssi tsft src state = some run ∧
      run.result = .ok ∧ awdlPeerGet hash run.state.peers.peers src = (.ok,some peer) ∧
      Learned sender peer ∧ Introduced sender type peer ∧ (type = .mif → peer.sentMif = true) := by
  obtain ⟨af,header,parsed⟩ : ∃ af : AwdlAction, awdlInitAction clock.action type = af.bytes ∧
      awdlParseActionHdr af.bytes = some type := ⟨_,rfl,parse_valid _ _ rfl rfl rfl rfl rfl⟩
  have strong : rssiTooLow hash state rssi src = false := by simp [rssiTooLow,unfiltered]
  obtain ⟨peer,start⟩ := action_admitted env parsed strong inserted accepted
  obtain ⟨after,changed,handled,learned,introduced⟩ := sentTlvs_learned env.chanMem tsft 0 clock sender type peer
    (counted state added) supported mode short
  have loop : awdlRxTlvs env.chanMem tsft (encodeTlvs (sentTlvs clock sender type)) peer (counted state added) =
      ⟨.ok,[],after,changed,sentTlvs clock sender type⟩ := by
    have through := tlvs_through _ (tlvs_fit clock sender type) [] handled
    have last : awdlRxTlvs env.chanMem tsft [] after changed = ⟨.ok,[],after,changed,[]⟩ := tlvs_end rfl after changed
    rw [List.append_nil,last,TlvRun.after,List.append_nil] at through
    exact through
  obtain ⟨sync,same⟩ := (handleAll_footprint handled).sync
  have found : awdlPeerGet hash changed.peers.peers src = (.ok,some peer) := by
    rw [same]
    exact (entered_added start).2.2
  obtain ⟨done,ended,ok,final⟩ := end_accepted ⟨.ok,[],after,changed,sentTlvs clock sender type⟩ found rfl rfl env
    added.callocs tsft type added.called.toList
  have stripped : bufStrip (af.bytes ++ encodeTlvs (sentTlvs clock sender type)) AwdlAction.size =
      some (encodeTlvs (sentTlvs clock sender type)) := strip_append af.bytes _
  refine ⟨done,_,?_,ok,final,?_⟩
  · rw [header,tlvs_encoded,action_entered ((admission_bytes env af _ rssi tsft src state).trans start),stripped,
      Option.getD_some,loop]
    exact ended
  · obtain ⟨sentMif,isValid,shape,sent⟩ := settle_keeps tsft type after
    rw [shape]
    refine ⟨⟨?_,?_,?_,?_,?_,?_,?_,?_⟩,⟨introduced.version,introduced.devclass,introduced.name⟩,sent⟩
    exacts [learned.masterAddr,learned.syncAddr,learned.height,learned.masterMetric,learned.selfMetric,
      learned.masterCounter,learned.selfCounter,learned.channels]

theorem action_frame_bytes (clock : TxClock) (sender : AwdlState) (ieee80211State : Ieee80211State)
    (type : AwdlActionType) (plain : ieee80211State.fcs = false) :
    ∃ hdr : Ieee80211Hdr, (awdlInitFullActionFrame clock sender ieee80211State type).1 =
        hdr.bytes ++ (awdlInitAction clock.action type ++ (awdlActionTlvs clock sender type).flatten) ∧
      hdr.addr1 = sender.dst ∧ hdr.addr2 = sender.selfAddress ∧
      hdr.frameControl = ieee80211FtypeMgmt ||| ieee80211StypeAction := by
  refine ⟨⟨ieee80211FtypeMgmt ||| ieee80211StypeAction,0,sender.dst,sender.selfAddress,awdlBssid,
    ieee80211State.sequenceNumber <<< 4⟩,?_,rfl,rfl,rfl⟩
  simp only [awdlInitFullActionFrame,ieee80211InitAwdlActionHdr,ieee80211InitAwdlHdr,
    ieee80211StateNextSequenceNumber,plain,Bool.false_eq_true,if_false,List.append_nil,List.append_assoc]

-- Behind any radio header and in front of any FCS, what is built is taken apart.
theorem built_route (plain : ieee80211State.fcs = false)
    (way : route radio.length self (radio ++ (awdlInitFullActionFrame clock sender ieee80211State type).1 ++ fcs) =
      .action rssi source body) :
    source = sender.selfAddress ∧ (bufStrip body AwdlAction.size).getD body =
      encodeTlvs (sentTlvs clock sender type) ++ fcs := by
  obtain ⟨hdr,laid,_,from_sender,_⟩ := action_frame_bytes clock sender ieee80211State type plain
  obtain ⟨af,header⟩ : ∃ af : AwdlAction, awdlInitAction clock.action type = af.bytes := ⟨_,rfl⟩
  rw [laid,header,tlvs_encoded,List.append_assoc,List.append_assoc,List.append_assoc,route_sent] at way
  have stripped : bufStrip (af.bytes ++ (encodeTlvs (sentTlvs clock sender type) ++ fcs)) AwdlAction.size =
      some (encodeTlvs (sentTlvs clock sender type) ++ fcs) := strip_append af.bytes _
  split at way
  · cases way
  · split at way
    · cases way
    · obtain ⟨rfl,_,rfl⟩ := routeBody_action way
      rw [stripped]
      exact ⟨from_sender,rfl⟩

-- awdl_rx on what awdl_init_full_action_frame lays out, behind any radio header.
theorem action_round_trip (env : Ambient) (radio : List UInt8) (clock : TxClock) (sender receiver : AwdlState)
    (ieee80211State : Ieee80211State) (type : AwdlActionType) (now : UInt64) (added : AddRun)
    (supported : Supported sender.channel.enc) (named : 0 ∈ sender.name.bytes) (group : sender.dst.isGroup = true)
    (plain : ieee80211State.fcs = false) (mode : receiver.sync.presenceMode = 4)
    (other : sender.selfAddress ≠ receiver.selfAddress) (unfiltered : receiver.filterRssi = false)
    (inserted : awdlPeerAdd hash env.fuel env.callocs env.peerMem receiver.peers.peers sender.selfAddress now =
      some added) (accepted : 0 ≤ added.status.code) :
    ∃ run peer, awdlRx hash env radio.length
        (radio ++ (awdlInitFullActionFrame clock sender ieee80211State type).1) now receiver = some run ∧
      run.result = .ok ∧ awdlPeerGet hash run.state.peers.peers sender.selfAddress = (.ok,some peer) ∧
      Learned sender peer ∧ Introduced sender type peer ∧ (type = .mif → peer.sentMif = true) := by
  have short : sender.name.strlen ≤ hostNameLengthMax := Nat.le_of_lt_succ (sender.name.strlen_lt named)
  obtain ⟨hdr,laid,dst,src,kind⟩ := action_frame_bytes clock sender ieee80211State type plain
  have way : route radio.length receiver.selfAddress
      (radio ++ (hdr.bytes ++ (awdlInitAction clock.action type ++ (awdlActionTlvs clock sender type).flatten))) =
        .action ((radio ++ hdr.bytes).getD 0 0).toInt8 sender.selfAddress
          (awdlInitAction clock.action type ++ (awdlActionTlvs clock sender type).flatten) := by
    have foreign : hdr.addr2 ≠ receiver.selfAddress := by rw [src]; exact other
    have everyone : ¬ (!hdr.addr1.isGroup ∧ hdr.addr1 ≠ receiver.selfAddress) := by simp [dst,group]
    rw [route_sent,if_neg foreign,if_neg everyone,routeBody,kind,src]
    rfl
  rw [laid,rx_follows,way]
  exact action_received env clock sender receiver type _ now sender.selfAddress added supported short mode unfiltered
    inserted (not_lt.mpr accepted)

end Frames

-- A MIF of the station that the listener knows, whose name is "test".
def station : AwdlState := awdlInitState default [0x74,0x65,0x73,0x74] nodeTwo chanOpclass6 0
def listener : AwdlState := {acquainted with filterRssi := false}

theorem action_round_trip_mif : ∃ run peer, awdlRx (fun _ => 0) quiet radioHdr.length
      (radioHdr ++ (awdlInitFullActionFrame ⟨5,7⟩ station ieee80211InitState .mif).1) 9 listener = some run ∧
    run.result = .ok ∧ awdlPeerGet (fun _ => 0) run.state.peers.peers nodeTwo = (.ok,some peer) ∧
    Learned station peer ∧ Introduced station .mif peer ∧ (AwdlActionType.mif = .mif → peer.sentMif = true) := by
  have updated : (awdlPeerAdd (fun _ => 0) quiet.fuel quiet.callocs quiet.peerMem listener.peers.peers nodeTwo 9).map
      AddRun.status = some .update := by decide +kernel
  obtain ⟨added,inserted,status⟩ := Option.map_eq_some_iff.mp updated
  exact action_round_trip quiet radioHdr ⟨5,7⟩ station listener ieee80211InitState .mif 9 added (.inr (.inr rfl))
    (by decide +kernel) rfl rfl rfl (by decide) rfl inserted (by rw [status]; decide)

end EspOwl.ActionRoundTrip
