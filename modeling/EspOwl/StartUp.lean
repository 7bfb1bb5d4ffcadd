import EspOwl.ActionFrames
import EspOwl.Sniffer
import EspOwl.TransmitQueues

namespace EspOwl.StartUp
open Histories TlvLoop ActionFrames Subframes Dispatch Delivery TransmitQueues Sniffer

-- Another name, and another list behind a count that stays 0.
def retouch (name : CharArray (hostNameLengthMax + 1)) (list : Fin awdlPeersMax → EtherAddr) (state : AwdlState) :
    AwdlState :=
  {state with name := name,peers.etherAddrList := list}

variable {name : CharArray (hostNameLengthMax + 1)} {list : Fin awdlPeersMax → EtherAddr}

section Reception

theorem handle_retouched (mem : Fin awdlChanseqLength → AwdlChan) (src : AwdlPeer) (type : UInt8) (val : Buf)
    (state : AwdlState) (tsft : UInt64) : awdlHandleTlv mem src type val (retouch name list state) tsft =
      ((awdlHandleTlv mem src type val state tsft).1,(awdlHandleTlv mem src type val state tsft).2.1,
        retouch name list (awdlHandleTlv mem src type val state tsft).2.2) := by
  have sync : awdlHandleSyncParamsTlv src val (retouch name list state) tsft =
      ((awdlHandleSyncParamsTlv src val state tsft).1,
        retouch name list (awdlHandleSyncParamsTlv src val state tsft).2) := by
    unfold awdlHandleSyncParamsTlv
    change (if (!awdlElectionIsSyncMaster state.election src.addr) = true then _ else _) = _
    split
    · rfl
    · cases readLe16 val 1 with
      | none => rfl
      | some timeToNextAw => cases readLe16 val 29 <;> rfl
  unfold awdlHandleTlv
  rw [sync]
  split
  · rfl
  · split
    · rfl
    · split
      · rfl
      · split
        · rfl
        · split
          · rfl
          · split
            · rfl
            · split <;> rfl

theorem tlvs_retouched (chanMem : Nat → Fin awdlChanseqLength → AwdlChan) (tsft : UInt64) (frame : Buf) (src : AwdlPeer)
    (state : AwdlState) : awdlRxTlvs chanMem tsft frame src (retouch name list state) =
      {awdlRxTlvs chanMem tsft frame src state with
        state := retouch name list (awdlRxTlvs chanMem tsft frame src state).state} := by
  induction size : frame.length using Nat.strong_induction_on generalizing frame src state with
  | _ size ih =>
    cases found : readTlv frame 0 with
    | none => rw [tlvs_end found,tlvs_end found]
    | some pair =>
      obtain ⟨type,val⟩ := pair
      have inside := readTlv_length found
      have touched : awdlHandleTlv (chanMem (bufLen frame)) src type val (retouch name list state) tsft = _ :=
        handle_retouched _ src type val state tsft
      cases handled : awdlHandleTlv (chanMem (bufLen frame)) src type val state tsft with
      | mk result rest =>
        obtain ⟨after,changed⟩ := rest
        rw [handled] at touched
        by_cases failed : result.code < 0
        · rw [tlvs_rejected found handled failed,tlvs_rejected found touched failed]
        · rw [tlvs_next found handled failed,tlvs_next found touched failed,
            ih (frame.drop (val.length + 3)).length (by rw [List.length_drop]; omega) _ after changed rfl]
          rfl

variable {hash : EtherAddr → UInt64}

theorem end_retouched (env : Ambient) (callocs : List Bool) (tsft : UInt64) (src : EtherAddr) (subtype : AwdlActionType)
    (loop : TlvRun) (called : List AwdlPeer) :
    awdlRxActionEnd hash env callocs tsft src subtype {loop with state := retouch name list loop.state} called =
      (awdlRxActionEnd hash env callocs tsft src subtype loop called).map fun run =>
        {run with state := retouch name list run.state} := by
  unfold awdlRxActionEnd
  dsimp only
  split
  · rfl
  · generalize (if bufLen loop.frame = 1 ∧ loop.frame.getD 0 0 = 0x00 then
      (bufStrip loop.frame 1).getD loop.frame else loop.frame) = frame
    split
    · rfl
    · generalize (if subtype = .mif then {loop.src with sentMif := true} else loop.src) = peer
      have written (left : AwdlState) (peers : AwdlPeers) : (left.setPeers peers).peers.peers = peers := rfl
      have table : (retouch name list loop.state).peers.peers = loop.state.peers.peers := rfl
      simp only [written,table]
      cases awdlPeerAdd hash env.fuel callocs env.peerMem (awdlPeerStore hash
        (awdlPeerStore hash loop.state.peers.peers src loop.src) src peer) src tsft <;> rfl

theorem admission_retouched (env : Ambient) (frame : Buf) (rssi : Int8) (tsft : UInt64) (src : EtherAddr)
    (state : AwdlState) : admission hash env frame rssi tsft src (retouch name list state) =
      match admission hash env frame rssi tsft src state with
      | .dropped run => .dropped (run.map fun run => {run with state := retouch name list run.state})
      | .entered entry => .entered entry := by
  have level : rssiTooLow hash (retouch name list state) rssi src = rssiTooLow hash state rssi src := rfl
  have table : (retouch name list state).peers.peers = state.peers.peers := rfl
  unfold admission
  cases awdlParseActionHdr frame with
  | none => rfl
  | some subtype =>
    dsimp only
    rw [level,table]
    split
    · rfl
    · cases awdlPeerAdd hash env.fuel env.callocs env.peerMem state.peers.peers src tsft with
      | none => rfl
      | some added =>
        dsimp only
        split
        · rfl
        · obtain ⟨status,found⟩ := awdlPeerGet hash added.peers src
          cases status <;> cases found <;> rfl

theorem action_retouched (env : Ambient) (frame : Buf) (rssi : Int8) (tsft : UInt64) (src : EtherAddr)
    (state : AwdlState) : awdlRxAction hash env frame rssi tsft src (retouch name list state) =
      (awdlRxAction hash env frame rssi tsft src state).map fun run =>
        {run with state := retouch name list run.state} := by
  rw [action_admission,action_admission,admission_retouched]
  cases admission hash env frame rssi tsft src state with
  | dropped run => rfl
  | entered entry =>
    have counting : counted (retouch name list state) entry.added = retouch name list (counted state entry.added) := rfl
    dsimp only
    rw [counting,tlvs_retouched,end_retouched]

theorem data_retouched (mem : Nat → UInt8) (frame : Buf) (src dst : EtherAddr) (state : AwdlState) :
    awdlRxData hash mem frame src dst (retouch name list state) =
      ((awdlRxData hash mem frame src dst state).1,(awdlRxData hash mem frame src dst state).2.1,
        retouch name list (awdlRxData hash mem frame src dst state).2.2) := by
  unfold awdlRxData
  change (if (awdlPeerGet hash state.peers.peers src).1 ≠ .ok then _ else _) = _
  by_cases unknown : (awdlPeerGet hash state.peers.peers src).1 ≠ .ok
  · simp only [if_pos unknown]
    rfl
  · simp only [if_neg unknown]
    cases awdlValidLlcHeader frame with
    | false => rfl
    | true =>
      simp only [Bool.not_true,Bool.false_eq_true,if_false]
      split <;> rfl

theorem amsdu_retouched (bufMem : Nat → Nat → UInt8) (emitted : Nat) (frame : Buf) (state : AwdlState) :
    awdlRxDataAmsdu hash bufMem emitted frame (retouch name list state) =
      ((awdlRxDataAmsdu hash bufMem emitted frame state).1,(awdlRxDataAmsdu hash bufMem emitted frame state).2.1,
        retouch name list (awdlRxDataAmsdu hash bufMem emitted frame state).2.2) := by
  induction size : frame.length using Nat.strong_induction_on generalizing frame emitted state with
  | _ size ih =>
    by_cases empty : bufLen frame = 0
    · rw [awdlRxDataAmsdu,if_pos empty,awdlRxDataAmsdu,if_pos empty]
    · cases found : readSubframe frame with
      | none => rw [amsdu_stuck bufMem emitted _ empty found,amsdu_stuck bufMem emitted _ empty found]
      | some pair =>
        obtain ⟨subframe,rest⟩ := pair
        have shorter := readSubframe_shorter found
        have touched : awdlRxData hash (bufMem emitted) subframe.body subframe.src subframe.dst (retouch name list state) =
            _ := data_retouched _ _ _ _ state
        cases ran : awdlRxData hash (bufMem emitted) subframe.body subframe.src subframe.dst state with
        | mk result outcome =>
          obtain ⟨packets,after⟩ := outcome
          rw [ran] at touched
          by_cases failed : result.code < 0
          · rw [amsdu_failed bufMem emitted found ran failed,amsdu_failed bufMem emitted found touched failed]
          · rw [amsdu_next bufMem emitted found ran failed,amsdu_next bufMem emitted found touched failed]
            cases stripped : stripPadding subframe.body.length rest with
            | none => rfl
            | some left =>
              have kept := stripPadding_length stripped
              dsimp only
              rw [ih left.length (by omega) (emitted + packets.length) left after rfl]

theorem rx_retouched (env : Ambient) (rxCtrlLen : Nat) (frame : Buf) (now : UInt64) (state : AwdlState) :
    awdlRx hash env rxCtrlLen frame now (retouch name list state) =
      (awdlRx hash env rxCtrlLen frame now state).map fun run => {run with state := retouch name list run.state} := by
  rw [rx_follows,rx_follows]
  change follow hash env now (retouch name list state) (route rxCtrlLen state.selfAddress frame) = _
  cases route rxCtrlLen state.selfAddress frame with
  | drop result => rfl
  | action rssi src body => exact action_retouched env body rssi now src state
  | data src dst body => exact congrArg (fun run => some (RxRun.ofData run)) (data_retouched (env.bufMem 0) body src dst state)
  | amsdu body => exact congrArg (fun run => some (RxRun.ofData run)) (amsdu_retouched env.bufMem 0 body state)

theorem receive_retouched (env : Ambient) (rxCtrlLen : Nat) (netif : Bool) (buf : Buf) (now : UInt64)
    (state : AwdlState) : awdlReceiveFrame hash env rxCtrlLen netif buf now (retouch name list state) =
      (awdlReceiveFrame hash env rxCtrlLen netif buf now state).map fun run => (retouch name list run.1,run.2) := by
  unfold awdlReceiveFrame
  rw [rx_retouched]
  cases awdlRx hash env rxCtrlLen buf now state with
  | none => rfl
  | some run =>
    dsimp only [Option.map_some]
    cases run.out <;> rfl

end Reception

section Sending
variable {T : Type} {hash : EtherAddr → UInt64}

def retouchAll (name : CharArray (hostNameLengthMax + 1)) (list : Fin awdlPeersMax → EtherAddr) (state : DaemonState T) :
    DaemonState T :=
  {state with awdlState := retouch name list state.awdlState}

-- Of the name only the text is sent.
theorem action_text (clock : TxClock) (same : name.text = other.text) (state : AwdlState) (ieee80211State : Ieee80211State)
    (type : AwdlActionType) : awdlInitFullActionFrame clock (retouch name list state) ieee80211State type =
      awdlInitFullActionFrame clock (retouch other otherList state) ieee80211State type := by
  have arpa : awdlInitArpaTlv (retouch name list state) = awdlInitArpaTlv (retouch other otherList state) := by
    have text : (retouch name list state).name.text = (retouch other otherList state).name.text := same
    unfold awdlInitArpaTlv CharArray.strlen
    rw [text]
  unfold awdlInitFullActionFrame awdlActionTlvs
  rw [arpa]
  rfl

theorem sendData_retouched (buf : Buf) (state : AwdlState) (ieee80211State : Ieee80211State) :
    awdlSendData buf (retouch name list state) ieee80211State =
      ((awdlSendData buf state ieee80211State).1,retouch name list (awdlSendData buf state ieee80211State).2.1,
        (awdlSendData buf state ieee80211State).2.2) := by
  unfold awdlSendData
  cases readEtherAddr buf etherDstOffset <;> rfl

theorem release_retouched (traffic : Traffic) (packet : Packet) (receiver : HandedTo) (state : DaemonState T) :
    release traffic packet receiver (retouchAll name list state) =
      (release traffic packet receiver state).map fun run => (run.1,run.2.1,retouchAll name list run.2.2) := by
  unfold release
  change Option.map _ (bufFree state.heap packet.buf) = _
  cases bufFree state.heap packet.buf <;> rfl

theorem packet_retouched (traffic : Traffic) (packet : Packet) (state : DaemonState T) :
    sendPacket traffic packet (retouchAll name list state) =
      (sendPacket traffic packet state).map fun run => (run.1,run.2.1,retouchAll name list run.2.2) := by
  have sent : awdlSendData packet.bytes (retouchAll name list state).awdlState (retouchAll name list state).ieee80211State =
      _ := sendData_retouched packet.bytes state.awdlState state.ieee80211State
  have counting (awdlState : AwdlState) : countTx (retouch name list awdlState) traffic =
      retouch name list (countTx awdlState traffic) := by
    cases traffic <;> rfl
  unfold sendPacket
  rw [sent]
  dsimp only
  rw [counting]
  exact release_retouched traffic packet _ {state with
    awdlState := countTx (awdlSendData packet.bytes state.awdlState state.ieee80211State).2.1 traffic
    ieee80211State := (awdlSendData packet.bytes state.awdlState state.ieee80211State).2.2}

theorem next_retouched (now : UInt64) (state : DaemonState T) : sendNext hash now (retouchAll name list state) =
    (sendNext hash now state).map fun run => (run.1,run.2.1,retouchAll name list run.2.2) := by
  have waiting : (retouchAll name list state).next = state.next := rfl
  have table : (retouchAll name list state).awdlState.peers.peers = state.awdlState.peers.peers := rfl
  unfold sendNext
  rw [waiting,table]
  cases state.next with
  | none => rfl
  | some next =>
    dsimp only
    change (state.heap.live next).bind _ = Option.map _ ((state.heap.live next).bind _)
    cases state.heap.live next with
    | none => rfl
    | some bytes =>
      rw [Option.bind_some,Option.bind_some]
      change (readEtherAddr bytes etherDstOffset).bind _ = Option.map _ ((readEtherAddr bytes etherDstOffset).bind _)
      cases readEtherAddr bytes etherDstOffset with
      | none => rfl
      | some dst =>
        rw [Option.bind_some,Option.bind_some]
        by_cases own : dst = state.awdlState.selfAddress
        · have touched : dst = (retouchAll name list state).awdlState.selfAddress := own
          rw [if_pos own,if_pos touched]
          exact release_retouched .unicast ⟨next,bytes⟩ .hostSend {state with next := none}
        · have touched : ¬dst = (retouchAll name list state).awdlState.selfAddress := own
          rw [if_neg own,if_neg touched]
          have dropped : release .unicast ⟨next,bytes⟩ .nonPeer (retouchAll name list {state with next := none}) = _ :=
            release_retouched _ _ _ _
          obtain ⟨status,found⟩ := awdlPeerGet hash state.awdlState.peers.peers dst
          cases status <;> cases found <;> try exact dropped
          rename_i peer
          have delaying : awdlCanSendUnicastIn (retouchAll name list state).awdlState peer now awdlUnicastGuardTu =
              awdlCanSendUnicastIn state.awdlState peer now awdlUnicastGuardTu := rfl
          dsimp only
          rw [delaying]
          split
          · exact packet_retouched .unicast ⟨next,bytes⟩ {state with next := none}
          · split <;> rfl

theorem queued_retouched (now : UInt64) (state : DaemonState T) : sendQueued now (retouchAll name list state) =
    (sendQueued now state).map fun run => (run.1,run.2.1,retouchAll name list run.2.2) := by
  have delaying : awdlCanSendIn (retouchAll name list state).awdlState now awdlMulticastGuardTu =
      awdlCanSendIn state.awdlState now awdlMulticastGuardTu := rfl
  have window : awdlIsMulticastEaw (retouchAll name list state).awdlState now = awdlIsMulticastEaw state.awdlState now := rfl
  have queued : (retouchAll name list state).txQueueMulticast = state.txQueueMulticast := rfl
  unfold sendQueued
  dsimp only
  rw [delaying,window,queued]
  split
  · split
    · obtain ⟨front,queue⟩ := circularBufGet state.txQueueMulticast false
      cases front with
      | none => rfl
      | some next =>
        dsimp only
        change (state.heap.live next).bind _ = Option.map _ ((state.heap.live next).bind _)
        cases state.heap.live next with
        | none => rfl
        | some bytes => exact packet_retouched .multicast ⟨next,bytes⟩ {state with txQueueMulticast := queue}
    · split
      · rfl
      · split <;> rfl
  · rfl

theorem unicast_retouched (esp : EspTimer T) (now : UInt64) (state : DaemonState T) :
    awdlSendUnicast hash esp now (retouchAll name list state) =
      (awdlSendUnicast hash esp now state).map fun run => (run.1,retouchAll name list run.2) := by
  unfold awdlSendUnicast
  rw [next_retouched]
  cases sendNext hash now state with
  | none => rfl
  | some run =>
    dsimp only [Option.map_some,retouchAll]
    split <;> rfl

theorem multicast_retouched (esp : EspTimer T) (now : UInt64) (state : DaemonState T) :
    awdlSendMulticast esp now (retouchAll name list state) =
      (awdlSendMulticast esp now state).map fun run => (run.1,retouchAll name list run.2) := by
  unfold awdlSendMulticast
  rw [queued_retouched]
  cases sendQueued now state with
  | none => rfl
  | some run =>
    dsimp only [Option.map_some,retouchAll]
    split <;> rfl

theorem transmit_retouched (ip6AddrIsmulticast : In6Addr → Bool) (esp : EspTimer T) (mem : Nat → UInt8) (garbage : Bool)
    (buffer : Buf) (state : DaemonState T) :
    awdlTransmit ip6AddrIsmulticast esp mem garbage buffer (retouchAll name list state) =
      ((awdlTransmit ip6AddrIsmulticast esp mem garbage buffer state).1,
        retouchAll name list (awdlTransmit ip6AddrIsmulticast esp mem garbage buffer state).2) := by
  have queued : (retouchAll name list state).txQueueMulticast = state.txQueueMulticast := rfl
  have waiting : (retouchAll name list state).next = state.next := rfl
  unfold awdlTransmit
  rw [queued,waiting]
  split
  · rfl
  · dsimp only
    cases ip6AddrIsmulticast (In6Addr.ofBytes (buffer.drop 24)) with
    | true => rfl
    | false => cases garbage <;> rfl

end Sending

section TwoRuns
variable {T : Type} {hash : EtherAddr → UInt64} {ip6AddrIsmulticast : In6Addr → Bool} {esp : EspTimer T} {rxCtrlLen : Nat}

-- The invariant of two runs: one daemon but for the two fields, and the same flag.
structure Alike (one two : SnifferState T) : Prop where
  shared : ∃ daemon name list other otherList, one.toDaemonState = retouchAll name list daemon ∧
    two.toDaemonState = retouchAll other otherList daemon ∧ name.text = other.text
  running : one.running = 0 ↔ two.running = 0

def Answered : Option (Seen × SnifferState T) → Option (Seen × SnifferState T) → Prop :=
  Option.Rel fun one two => one.1 = two.1 ∧ Alike one.2 two.2

theorem alike_of (daemon : DaemonState T) (list otherList : Fin awdlPeersMax → EtherAddr) (same : name.text = other.text)
    (running : one = 0 ↔ two = 0) : Alike ⟨retouchAll name list daemon,one⟩ ⟨retouchAll other otherList daemon,two⟩ :=
  ⟨⟨daemon,name,list,other,otherList,rfl,rfl,same⟩,running⟩

theorem answered_map (run : Option α) {first second : α → Seen × SnifferState T}
    (each : ∀ value, (first value).1 = (second value).1 ∧ Alike (first value).2 (second value).2) :
    Answered (run.map first) (run.map second) := by
  cases run with
  | none => exact .none
  | some value => exact .some (each value)

theorem gate_same {one two : UInt8} (running : one = 0 ↔ two = 0) (there absent : α) :
    (if one ≠ 0 then there else absent) = if two ≠ 0 then there else absent := by
  simp only [ne_eq,running]

theorem wlanSend_same {one two : UInt8} (running : one = 0 ↔ two = 0) (output : TxOutput) :
    wlanSend one output = wlanSend two output := by
  unfold wlanSend
  split
  · exact gate_same running _ _
  · rfl

theorem action_alike (alike : Alike one two) (clock : TxClock) (type : AwdlActionType) :
    (Sniffer.awdlSendAction clock type one).1 = (Sniffer.awdlSendAction clock type two).1 ∧
      Alike (Sniffer.awdlSendAction clock type one).2 (Sniffer.awdlSendAction clock type two).2 := by
  obtain ⟨first,flag⟩ := one
  obtain ⟨second,otherFlag⟩ := two
  obtain ⟨⟨daemon,name,list,other,otherList,rfl,rfl,same⟩,running⟩ := alike
  have text : awdlInitFullActionFrame clock (retouchAll name list daemon).awdlState
        (retouchAll name list daemon).ieee80211State type =
      awdlInitFullActionFrame clock (retouch other otherList daemon.awdlState) daemon.ieee80211State type :=
    action_text clock same daemon.awdlState daemon.ieee80211State type
  unfold Sniffer.awdlSendAction
  dsimp only
  rw [text]
  exact ⟨gate_same running _ _,alike_of {daemon with
    awdlState := EspOwl.awdlSendAction daemon.awdlState
    ieee80211State := (awdlInitFullActionFrame clock (retouch other otherList daemon.awdlState) daemon.ieee80211State
      type).2} list otherList same running⟩

theorem mif_alike (alike : Alike one two) (clock : TxClock) (now : UInt64) :
    (awdlSendMif clock now one).1 = (awdlSendMif clock now two).1 ∧
      Alike (awdlSendMif clock now one).2.1 (awdlSendMif clock now two).2.1 := by
  have channels : one.awdlState.channel = two.awdlState.channel := by
    obtain ⟨⟨daemon,name,list,other,otherList,first,second,_⟩,_⟩ := alike
    rw [first,second]
    rfl
  unfold awdlSendMif
  dsimp only
  rw [channels]
  split
  · exact action_alike alike clock .mif
  · exact ⟨rfl,alike⟩

theorem packet_alike (alike : Alike one two) (env : Ambient) (sigLen : Nat) (netif : Bool) (now : UInt64) (buff : Buf)
    (type : Int) : Answered
      (snifferCall hash ip6AddrIsmulticast esp rxCtrlLen one (.packet env sigLen netif now buff type))
      (snifferCall hash ip6AddrIsmulticast esp rxCtrlLen two (.packet env sigLen netif now buff type)) := by
  have idle : Answered (some (⟨none,[],[]⟩,one)) (some (⟨none,[],[]⟩,two)) := .some ⟨rfl,alike⟩
  obtain ⟨first,flag⟩ := one
  obtain ⟨second,otherFlag⟩ := two
  obtain ⟨⟨daemon,name,list,other,otherList,rfl,rfl,same⟩,running⟩ := alike
  unfold snifferCall wifiSnifferPacketHandler
  dsimp only
  split
  · exact idle
  · split
    · exact idle
    · rw [← gate_same running]
      split
      · change Answered (Option.map _ (Option.map _ (awdlReceiveFrame hash env rxCtrlLen netif _ now
          (retouch name list daemon.awdlState)))) (Option.map _ (Option.map _ (awdlReceiveFrame hash env rxCtrlLen netif _
          now (retouch other otherList daemon.awdlState))))
        rw [receive_retouched,receive_retouched]
        simp only [Option.map_map]
        exact answered_map _ fun run => ⟨rfl,alike_of {daemon with awdlState := run.1} list otherList same running⟩
      · exact idle

theorem switch_retouched (now : UInt64) (state : AwdlState) :
    awdlSwitchChannel now (retouch name list state) = retouch name list (awdlSwitchChannel now state) := by
  unfold awdlSwitchChannel
  dsimp only [retouch]
  split <;> rfl

theorem call_alike (alike : Alike one two) (event : SnifferEvent) :
    Answered (snifferCall hash ip6AddrIsmulticast esp rxCtrlLen one event)
      (snifferCall hash ip6AddrIsmulticast esp rxCtrlLen two event) := by
  have packets := @packet_alike T hash ip6AddrIsmulticast esp rxCtrlLen one two alike
  have acted := action_alike alike
  have tuned := mif_alike alike
  obtain ⟨first,flag⟩ := one
  obtain ⟨second,otherFlag⟩ := two
  obtain ⟨⟨daemon,name,list,other,otherList,rfl,rfl,same⟩,running⟩ := alike
  have next := fun (state : DaemonState T) => alike_of state list otherList same running
  cases event with
  | packet env sigLen netif now buff type => exact packets env sigLen netif now buff type
  | sendPsf clock => exact .some ⟨congrArg Seen.sending (acted clock .psf).1,(acted clock .psf).2⟩
  | sendMif clock now => exact .some ⟨congrArg Seen.sending (tuned clock now).1,(tuned clock now).2⟩
  | sendUnicast now =>
    change Answered (Option.map _ (awdlSendUnicast hash esp now
      (retouchAll name list {daemon with txTimer := esp.fire daemon.txTimer}))) (Option.map _ (awdlSendUnicast hash esp now
        (retouchAll other otherList {daemon with txTimer := esp.fire daemon.txTimer})))
    rw [unicast_retouched,unicast_retouched,Option.map_map,Option.map_map]
    exact answered_map _ fun run => ⟨congrArg Seen.sending (wlanSend_same running run.1),next run.2⟩
  | sendMulticast now =>
    change Answered (Option.map _ (awdlSendMulticast esp now
      (retouchAll name list {daemon with txMcastTimer := esp.fire daemon.txMcastTimer}))) (Option.map _ (awdlSendMulticast
        esp now (retouchAll other otherList {daemon with txMcastTimer := esp.fire daemon.txMcastTimer})))
    rw [multicast_retouched,multicast_retouched,Option.map_map,Option.map_map]
    exact answered_map _ fun run => ⟨congrArg Seen.sending (wlanSend_same running run.1),next run.2⟩
  | transmit mem garbage buffer =>
    unfold snifferCall
    dsimp only
    rw [transmit_retouched,transmit_retouched]
    exact .some ⟨rfl,next (awdlTransmit ip6AddrIsmulticast esp mem garbage buffer daemon).2⟩
  | switchChannel now =>
    unfold snifferCall
    dsimp only [retouchAll]
    rw [switch_retouched,switch_retouched]
    exact .some ⟨rfl,next {daemon with awdlState := awdlSwitchChannel now daemon.awdlState}⟩
  | cleanPeers now => exact .some ⟨rfl,next {daemon with awdlState := awdlCleanPeers now daemon.awdlState}⟩
  | disable netif =>
    cases netif with
    | true => exact .some ⟨rfl,alike_of daemon list otherList same Iff.rfl⟩
    | false => exact .some ⟨rfl,next daemon⟩

theorem next_alike {one two : Option (SnifferState T)} (alike : Option.Rel Alike one two) (event : SnifferEvent) :
    (snifferNext hash ip6AddrIsmulticast esp rxCtrlLen one event).1 =
        (snifferNext hash ip6AddrIsmulticast esp rxCtrlLen two event).1 ∧
      Option.Rel Alike (snifferNext hash ip6AddrIsmulticast esp rxCtrlLen one event).2
        (snifferNext hash ip6AddrIsmulticast esp rxCtrlLen two event).2 := by
  cases alike with
  | none => exact ⟨rfl,.none⟩
  | @some first second alike =>
    have answered : Answered (snifferCall hash ip6AddrIsmulticast esp rxCtrlLen first event)
        (snifferCall hash ip6AddrIsmulticast esp rxCtrlLen second event) := call_alike alike event
    unfold snifferNext
    dsimp only [Option.bind_some]
    revert answered
    generalize snifferCall hash ip6AddrIsmulticast esp rxCtrlLen first event = left
    generalize snifferCall hash ip6AddrIsmulticast esp rxCtrlLen second event = right
    rintro (⟨seen,after⟩ | _)
    · exact ⟨congrArg some seen,.some after⟩
    · exact ⟨rfl,.none⟩

-- wifi_sniffer_init leaves what the memory held in running, behind the name and in the list.
theorem init_alike (one two : SnifferState T) (mac : EtherAddr) (now : UInt64) (ringMem : CircularBuf Nat)
    (running : one.running = 0 ↔ two.running = 0) :
    Alike (wifiSnifferInit esp one mac now ringMem) (wifiSnifferInit esp two mac now ringMem) := by
  have text (mem : CharArray (hostNameLengthMax + 1)) : (strncpy mem hostname hostNameLengthMax).text = hostname := by
    rw [CharArray.text,strncpy,CharArray.overwrite_bytes _ (by decide)]
    rfl
  exact alike_of (daemonStart esp (wifiSnifferStores (awdlInitState default hostname mac chanOpclass6 now)) ⟨0,false⟩
    ringMem) one.awdlState.peers.etherAddrList two.awdlState.peers.etherAddrList
    ((text one.awdlState.name).trans (text two.awdlState.name).symm) running

theorem init_running (esp : EspTimer T) (mem : SnifferState T) (mac : EtherAddr) (now : UInt64)
    (ringMem : CircularBuf Nat) : (wifiSnifferInit esp mem mac now ringMem).running = mem.running := rfl

-- A PSF goes out or it does not.
theorem psf_shows (same : behaviour hash ip6AddrIsmulticast esp rxCtrlLen one [.sendPsf clock] =
    behaviour hash ip6AddrIsmulticast esp rxCtrlLen two [.sendPsf clock]) : one.running = 0 ↔ two.running = 0 := by
  have sent (state : SnifferState T) : behaviour hash ip6AddrIsmulticast esp rxCtrlLen state [.sendPsf clock] =
      [some (.sending (awdlSendPsf clock state).1)] := rfl
  have silent (state : SnifferState T) : (awdlSendPsf clock state).1 = [] ↔ state.running = 0 := by
    unfold awdlSendPsf Sniffer.awdlSendAction
    dsimp only
    split
    · rename_i live
      exact iff_of_false (List.cons_ne_nil _ _) live
    · rename_i idle
      exact iff_of_true rfl (not_not.mp idle)
  rw [sent,sent] at same
  have frames := congrArg Seen.sent (Option.some.inj (List.cons.inj same).1)
  rw [← silent one,← silent two]
  exact iff_of_eq (congrArg (· = []) frames)

theorem start_up_iff (hash : EtherAddr → UInt64) (ip6AddrIsmulticast : In6Addr → Bool) (esp : EspTimer T) (rxCtrlLen : Nat)
    (one two : SnifferState T) (mac : EtherAddr) (now : UInt64) (ringMem : CircularBuf Nat) :
    (∀ events, behaviour hash ip6AddrIsmulticast esp rxCtrlLen (wifiSnifferInit esp one mac now ringMem) events =
        behaviour hash ip6AddrIsmulticast esp rxCtrlLen (wifiSnifferInit esp two mac now ringMem) events) ↔
      (one.running = 0 ↔ two.running = 0) := by
  constructor
  · intro same
    rw [← init_running esp one mac now ringMem,← init_running esp two mac now ringMem]
    exact psf_shows (same [.sendPsf ⟨0,0⟩])
  · intro running events
    exact (perform_simulated (Option.Rel Alike) (fun _ _ event alike => next_alike alike event)
      (.some (init_alike one two mac now ringMem running)) events).1

end TwoRuns

-- Memory that holds what a daemon left in it, and this flag.
def leftover (running : UInt8) : SnifferState (Option UInt64) :=
  ⟨daemonStart plainTimer default ieee80211InitState ⟨fun _ => 0,0,0,0,false⟩,running⟩

theorem start_up_differs : ¬ ∀ hash ip6AddrIsmulticast rxCtrlLen (one two : SnifferState (Option UInt64)) mac now ringMem
    events, behaviour hash ip6AddrIsmulticast plainTimer rxCtrlLen (wifiSnifferInit plainTimer one mac now ringMem) events =
      behaviour hash ip6AddrIsmulticast plainTimer rxCtrlLen (wifiSnifferInit plainTimer two mac now ringMem) events := by
  intro always
  have same := psf_shows (always (fun _ => 0) (fun _ => false) 24 (leftover 0) (leftover 1) default 0
    ⟨fun _ => 0,0,0,0,false⟩ [.sendPsf ⟨0,0⟩])
  rw [init_running,init_running] at same
  exact absurd (same.mp rfl) (by decide)

end EspOwl.StartUp
