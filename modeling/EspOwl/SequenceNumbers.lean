import EspOwl.PacketPath
import EspOwl.Sniffer

namespace EspOwl.SequenceNumbers
open Histories TlvLoop ActionFrames Dispatch Delivery PacketPath Sniffer

-- What a receiver reads of a frame's kind and of the two numbers in it.
def isData (frame : Buf) : Bool :=
  (Ieee80211Hdr.ofBytes frame).frameControl == ieee80211FtypeData ||| ieee80211StypeData

def dataNumber (frame : Buf) : Option UInt16 := readLe16 frame (Ieee80211Hdr.size + LlcHdr.size + 2)

structure Heads (mac : EtherAddr) (number : Nat) (frame : Buf) : Prop where
  sender : (Ieee80211Hdr.ofBytes frame).addr2 = mac
  number : (Ieee80211Hdr.ofBytes frame).seqCtrl.toNat = number % 4096 * 16

-- Frames in the order they are sent, after `a` frames with `d` data frames among them.
inductive Numbered (mac : EtherAddr) : Nat → Nat → List Buf → Prop where
  | nil : Numbered mac a d []
  | action (heads : Heads mac a frame) (other : isData frame = false) (rest : Numbered mac (a + 1) d frames) :
      Numbered mac a d (frame :: frames)
  | data (heads : Heads mac a frame) (kind : isData frame = true) (number : dataNumber frame = some (UInt16.ofNat d))
      (rest : Numbered mac (a + 1) (d + 1) frames) : Numbered mac a d (frame :: frames)

section Lists
variable {mac : EtherAddr} {a d : Nat} {frames : List Buf}

theorem Numbered.heads (numbered : Numbered mac a d frames) (i : Nat) (place : frames[i]? = some frame) :
    Heads mac (a + i) frame := by
  induction numbered generalizing i with
  | nil => cases place
  | action heads _ _ ih | data heads _ _ _ ih =>
    cases i with
    | zero =>
      cases place
      exact heads
    | succ i =>
      rw [Nat.add_comm i,← Nat.add_assoc]
      exact ih i place

theorem Numbered.payload (numbered : Numbered mac a d frames) (k : Nat)
    (place : (frames.filter isData)[k]? = some frame) : dataNumber frame = some (UInt16.ofNat (d + k)) := by
  induction numbered generalizing k with
  | nil => cases place
  | action _ other _ ih =>
    rw [List.filter_cons_of_neg (by rw [other]; decide)] at place
    exact ih k place
  | data _ kind number _ ih =>
    rw [List.filter_cons_of_pos kind] at place
    cases k with
    | zero =>
      cases place
      exact number
    | succ k =>
      rw [Nat.add_comm k,← Nat.add_assoc]
      exact ih k place

end Lists

section Frames

theorem next_number (n : UInt16) : ((n + 1) &&& 0x0fff).toNat = (n.toNat + 1) % 4096 := by
  have mask : (0x0fff : UInt16).toNat = 2 ^ 12 - 1 := rfl
  rw [UInt16.toNat_and,mask,Nat.and_two_pow_sub_one_eq_mod,UInt16.toNat_add]
  change (n.toNat + 1) % 65536 % 4096 = (n.toNat + 1) % 4096
  omega

theorem shifted_number (n : UInt16) (inside : n.toNat < 4096) : (n <<< 4).toNat = n.toNat * 16 := by
  have four : (4 : UInt16).toNat % 16 = 4 := rfl
  rw [UInt16.toNat_shiftLeft,four,Nat.shiftLeft_eq,Nat.mod_eq_of_lt (by omega)]

theorem action_header (clock : TxClock) (state : AwdlState) (ieee80211State : Ieee80211State) (type : AwdlActionType) :
    Ieee80211Hdr.ofBytes (awdlInitFullActionFrame clock state ieee80211State type).1 =
      ⟨ieee80211FtypeMgmt ||| ieee80211StypeAction,0,state.dst,state.selfAddress,awdlBssid,
        ieee80211State.sequenceNumber <<< 4⟩ := by
  unfold awdlInitFullActionFrame ieee80211InitAwdlActionHdr ieee80211InitAwdlHdr ieee80211StateNextSequenceNumber
  dsimp only
  rw [List.append_assoc,List.append_assoc]
  exact Ieee80211Hdr.ofBytes_bytes _ _

theorem data_header (src dst : EtherAddr) (payload : List UInt8) (state : AwdlState) (ieee80211State : Ieee80211State) :
    Ieee80211Hdr.ofBytes (awdlInitFullDataFrame src dst payload state ieee80211State).1 =
      ⟨ieee80211FtypeData ||| ieee80211StypeData,0,dst,src,awdlBssid,ieee80211State.sequenceNumber <<< 4⟩ := by
  unfold awdlInitFullDataFrame ieee80211InitAwdlDataHdr ieee80211InitAwdlHdr ieee80211StateNextSequenceNumber
  dsimp only
  rw [List.append_assoc,List.append_assoc,List.append_assoc]
  exact Ieee80211Hdr.ofBytes_bytes _ _

theorem data_number (src dst : EtherAddr) (payload : List UInt8) (state : AwdlState) (ieee80211State : Ieee80211State) :
    dataNumber (awdlInitFullDataFrame src dst payload state ieee80211State).1 = some state.sequenceNumber := by
  unfold awdlInitFullDataFrame ieee80211InitAwdlDataHdr ieee80211InitAwdlHdr ieee80211StateNextSequenceNumber
    awdlInitData awdlStateNextSequenceNumber dataNumber AwdlData.bytes
  dsimp only
  generalize hdr : Ieee80211Hdr.bytes _ = header
  have front : (header ++ (llcInitAwdlHdr ++ le16 awdlDataHead)).length = Ieee80211Hdr.size + LlcHdr.size + 2 := by
    rw [← hdr]
    rfl
  simp only [List.append_assoc]
  have read := readLe16_at (header ++ (llcInitAwdlHdr ++ le16 awdlDataHead)) _ front state.sequenceNumber
  simp only [List.append_assoc] at read
  exact read _

end Frames

section Reception
variable {hash : EtherAddr → UInt64}

-- What is received changes neither the node's address nor its count of data frames.
structure Unnumbered (state after : AwdlState) : Prop where
  self : after.selfAddress = state.selfAddress
  number : after.sequenceNumber = state.sequenceNumber

theorem action_unnumbered (ran : awdlRxAction hash env frame rssi tsft src state = some run) :
    Unnumbered state run.state := by
  rcases action_cases ran with left | ⟨_,added,_,left⟩ | ⟨entry,start⟩
  · rw [left]
    exact ⟨rfl,rfl⟩
  · rw [left]
    exact ⟨rfl,rfl⟩
  · obtain ⟨sync,through⟩ := (tlvs_footprint env.chanMem tsft ((bufStrip frame AwdlAction.size).getD frame) entry.peer
      (counted state entry.added)).sync
    have self := congrArg AwdlState.selfAddress through
    have number := congrArg AwdlState.sequenceNumber through
    rw [action_entered start] at ran
    rcases end_runs ran with ⟨_,rfl⟩ | ⟨_,_,_,rfl⟩ <;> exact ⟨self,number⟩

theorem receive_unnumbered (ran : awdlReceiveFrame hash env rxCtrlLen netif frame now state = some (after,packets)) :
    Unnumbered state after := by
  unfold awdlReceiveFrame at ran
  split at ran
  · cases ran
  · rename_i run heard
    have unnumbered : Unnumbered state run.state := by
      rcases rx_cases heard with ⟨stats,left⟩ | ⟨_,_,_,acted⟩
      · rw [left]
        exact ⟨rfl,rfl⟩
      · exact action_unnumbered acted
    split at ran <;> cases ran <;> exact unnumbered

end Reception

section Calls
variable {T : Type} {esp : EspTimer T} {hash : EtherAddr → UInt64} {ip6AddrIsmulticast : In6Addr → Bool}
  {rxCtrlLen : Nat} {mac : EtherAddr} {a d : Nat} {state next : SnifferState T}

-- The invariant: as long as the node runs, its counters count what it has sent.
structure Standing (mac : EtherAddr) (a d : Nat) (state : SnifferState T) : Prop where
  self : state.awdlState.selfAddress = mac
  frames : state.running ≠ 0 → state.ieee80211State.sequenceNumber.toNat = a % 4096
  data : state.running ≠ 0 → state.awdlState.sequenceNumber = UInt16.ofNat d

theorem Standing.stays (standing : Standing mac a d state) (awdlState : Unnumbered state.awdlState next.awdlState)
    (ieee80211State : next.ieee80211State = state.ieee80211State) (running : next.running ≠ 0 → state.running ≠ 0) :
    Standing mac a d next where
  self := awdlState.self.trans standing.self
  frames on := by
    rw [ieee80211State]
    exact standing.frames (running on)
  data on := awdlState.number.trans (standing.data (running on))

theorem Standing.heads (standing : Standing mac a d state) (on : state.running ≠ 0)
    (sender : (Ieee80211Hdr.ofBytes frame).addr2 = state.awdlState.selfAddress)
    (number : (Ieee80211Hdr.ofBytes frame).seqCtrl = state.ieee80211State.sequenceNumber <<< 4) :
    Heads mac a frame := by
  have counted := standing.frames on
  refine ⟨sender.trans standing.self,?_⟩
  rw [number,shifted_number _ (by omega),counted]

-- A call leads from one pair of counts to another, over the frames that it sends.
def Advances (mac : EtherAddr) (a d : Nat) (sent : List Buf) (next : SnifferState T) : Prop :=
  ∃ a' d', Standing mac a' d' next ∧ ∀ later, Numbered mac a' d' later → Numbered mac a d (sent ++ later)

theorem Standing.silent (standing : Standing mac a d next) : Advances mac a d [] next :=
  ⟨a,d,standing,fun _ numbered => numbered⟩

-- Without running nothing is sent, whatever the counters do.
theorem off_silent (off : state.running = 0) (running : next.running = state.running)
    (self : next.awdlState.selfAddress = mac) : Advances mac a d [] next := by
  have never : ¬ next.running ≠ 0 := by
    rw [running]
    exact not_not.mpr off
  exact ⟨a,d,⟨self,fun on => absurd on never,fun on => absurd on never⟩,fun _ numbered => numbered⟩

theorem counted_next (n : UInt16) (counted : n.toNat = a % 4096) : ((n + 1) &&& 0x0fff).toNat = (a + 1) % 4096 := by
  rw [next_number,counted]
  omega

theorem action_advances (clock : TxClock) (type : AwdlActionType) (standing : Standing mac a d state) :
    Advances mac a d (Sniffer.awdlSendAction clock type state).1 (Sniffer.awdlSendAction clock type state).2 := by
  have header := action_header clock state.awdlState state.ieee80211State type
  unfold Sniffer.awdlSendAction
  dsimp only
  by_cases on : state.running ≠ 0
  · rw [if_pos on]
    have heads := standing.heads on (congrArg Ieee80211Hdr.addr2 header) (congrArg Ieee80211Hdr.seqCtrl header)
    have other : isData (awdlInitFullActionFrame clock state.awdlState state.ieee80211State type).1 = false := by
      rw [isData,header]
      rfl
    exact ⟨a + 1,d,⟨standing.self,fun _ => counted_next _ (standing.frames on),standing.data⟩,
      fun _ rest => .action heads other rest⟩
  · rw [if_neg on]
    exact off_silent (not_not.mp on) rfl standing.self

theorem sendData_some (read : readEtherAddr bytes etherDstOffset = some dst) (state : AwdlState)
    (ieee80211State : Ieee80211State) : ∃ payload, awdlSendData bytes state ieee80211State =
      let sent := awdlInitFullDataFrame state.selfAddress dst payload state ieee80211State
      (some sent.1,{sent.2.1 with stats.txData := sent.2.1.stats.txData + 1},sent.2.2) := by
  refine ⟨(bufStrip bytes etherLength).getD bytes,?_⟩
  rw [awdlSendData,read,checkedRead_some]

theorem data_advances {after : DaemonState T} (traffic : Traffic) (dst : EtherAddr) (payload : List UInt8)
    (standing : Standing mac a d state) :
    let sent := awdlInitFullDataFrame state.awdlState.selfAddress dst payload state.awdlState state.ieee80211State
    after.awdlState = countTx {sent.2.1 with stats.txData := sent.2.1.stats.txData + 1} traffic →
    after.ieee80211State = sent.2.2 →
    Advances mac a d (if state.running ≠ 0 then [sent.1] else []) {state with toDaemonState := after} := by
  intro sent awdlState ieee80211State
  have self : after.awdlState.selfAddress = state.awdlState.selfAddress := by
    rw [awdlState]
    cases traffic <;> rfl
  by_cases on : state.running ≠ 0
  · have header := data_header state.awdlState.selfAddress dst payload state.awdlState state.ieee80211State
    have heads := standing.heads on (congrArg Ieee80211Hdr.addr2 header) (congrArg Ieee80211Hdr.seqCtrl header)
    have kind : isData sent.1 = true := by
      rw [isData,header]
      rfl
    have number := data_number state.awdlState.selfAddress dst payload state.awdlState state.ieee80211State
    rw [standing.data on] at number
    rw [if_pos on]
    refine ⟨a + 1,d + 1,⟨self.trans standing.self,fun _ => ?_,fun _ => ?_⟩,
      fun later rest => .data heads kind number rest⟩
    · change after.ieee80211State.sequenceNumber.toNat = _
      rw [ieee80211State]
      exact counted_next _ (standing.frames on)
    · change after.awdlState.sequenceNumber = _
      have next : after.awdlState.sequenceNumber = state.awdlState.sequenceNumber + 1 := by
        rw [awdlState]
        cases traffic <;> rfl
      rw [next,standing.data on,UInt16.ofNat_add]
      rfl
  · rw [if_neg on]
    exact off_silent (not_not.mp on) rfl (self.trans standing.self)

theorem sends_advances {after : DaemonState T} (sends : Sends state.toDaemonState after output)
    (standing : Standing mac a d state) :
    Advances mac a d (wlanSend state.running output) {state with toDaemonState := after} := by
  cases sends with
  | waits awdlState ieee80211State =>
    refine Standing.silent (standing.stays ?_ ieee80211State id)
    exact ⟨congrArg AwdlState.selfAddress awdlState,congrArg AwdlState.sequenceNumber awdlState⟩
  | @dropped traffic packet receiver silent awdlState ieee80211State =>
    have none : wlanSend state.running (.handed traffic packet receiver) = [] := by
      cases receiver with
      | sendData frame =>
        cases frame with
        | none => rfl
        | some frame => cases silent mac
      | hostSend => rfl
      | nonPeer => rfl
    rw [none]
    refine Standing.silent (standing.stays ?_ ieee80211State id)
    exact ⟨congrArg AwdlState.selfAddress awdlState,congrArg AwdlState.sequenceNumber awdlState⟩
  | @sent traffic packet awdlState ieee80211State =>
    cases read : readEtherAddr packet.bytes etherDstOffset with
    | none =>
      have failed : awdlSendData packet.bytes state.awdlState state.ieee80211State =
          (none,state.awdlState,state.ieee80211State) := by
        rw [awdlSendData,read,checkedRead_none]
      rw [failed] at awdlState ieee80211State ⊢
      refine Standing.silent (standing.stays ?_ ieee80211State id)
      change Unnumbered state.awdlState after.awdlState
      rw [awdlState]
      cases traffic <;> exact ⟨rfl,rfl⟩
    | some dst =>
      obtain ⟨payload,built⟩ := sendData_some read state.awdlState state.ieee80211State
      rw [built] at awdlState ieee80211State ⊢
      exact data_advances traffic dst payload standing awdlState ieee80211State

theorem call_advances (standing : Standing mac a d state)
    (ran : snifferCall hash ip6AddrIsmulticast esp rxCtrlLen state event = some (seen,next)) :
    Advances mac a d seen.sent next := by
  cases event with
  | packet env sigLen netif now buff type =>
    obtain ⟨⟨frame,packets,after⟩,handled,same⟩ := Option.map_eq_some_iff.mp ran
    cases same
    refine Standing.silent ?_
    unfold wifiSnifferPacketHandler at handled
    split at handled
    · cases handled
      exact standing
    · split at handled
      · cases handled
        exact standing
      · split at handled
        · obtain ⟨run,heard,same⟩ := Option.map_eq_some_iff.mp handled
          cases same
          exact standing.stays (receive_unnumbered heard) rfl id
        · cases handled
          exact standing
  | sendPsf clock =>
    cases ran
    exact action_advances clock .psf standing
  | sendMif clock now =>
    cases ran
    change Advances mac a d (awdlSendMif clock now state).1 (awdlSendMif clock now state).2.1
    unfold awdlSendMif
    dsimp only
    split
    · exact action_advances clock .mif standing
    · exact standing.silent
  | sendUnicast now =>
    obtain ⟨run,sent,same⟩ := Option.map_eq_some_iff.mp ran
    cases same
    exact sends_advances (unicast_sends sent) standing
  | sendMulticast now =>
    obtain ⟨run,sent,same⟩ := Option.map_eq_some_iff.mp ran
    cases same
    exact sends_advances (multicast_sends sent) standing
  | transmit mem garbage buffer =>
    cases ran
    obtain ⟨awdlState,ieee80211State,_⟩ := transmit_taken mem garbage buffer state.toDaemonState
    refine Standing.silent (standing.stays ?_ ieee80211State id)
    exact ⟨congrArg AwdlState.selfAddress awdlState,congrArg AwdlState.sequenceNumber awdlState⟩
  | switchChannel now =>
    cases ran
    refine Standing.silent (standing.stays ?_ rfl id)
    change Unnumbered state.awdlState (awdlSwitchChannel now state.awdlState)
    unfold awdlSwitchChannel
    dsimp only
    split <;> exact ⟨rfl,rfl⟩
  | cleanPeers now =>
    cases ran
    exact Standing.silent (standing.stays ⟨rfl,rfl⟩ rfl id)
  | disable netif =>
    cases ran
    change Advances mac a d [] (awdlDisable netif state)
    unfold awdlDisable
    split
    · exact Standing.silent (standing.stays ⟨rfl,rfl⟩ rfl fun on => absurd rfl on)
    · exact standing.silent

end Calls

section Runs
variable (hash : EtherAddr → UInt64) (ip6AddrIsmulticast : In6Addr → Bool) {T : Type} (esp : EspTimer T)
  (rxCtrlLen : Nat)

-- What wlan_send was given in the course of a run.
def aired (seen : List (Option Seen)) : List Buf := seen.flatMap fun call => (call.map Seen.sent).getD []

theorem stopped_silent (events : List SnifferEvent) :
    aired (perform (snifferNext hash ip6AddrIsmulticast esp rxCtrlLen) none events).1 = [] := by
  induction events with
  | nil => rfl
  | cons event later ih => exact ih

theorem behaviour_numbered (events : List SnifferEvent) (standing : Standing mac a d state) :
    Numbered mac a d (aired (behaviour hash ip6AddrIsmulticast esp rxCtrlLen state events)) := by
  induction events generalizing state a d with
  | nil => exact .nil
  | cons event later ih =>
    cases ran : snifferCall hash ip6AddrIsmulticast esp rxCtrlLen state event with
    | none =>
      have next : snifferNext hash ip6AddrIsmulticast esp rxCtrlLen (some state) event = (none,none) := by
        rw [snifferNext,Option.bind_some,ran]
        rfl
      rw [behaviour,perform,next]
      change Numbered mac a d ([] ++ aired (perform (snifferNext hash ip6AddrIsmulticast esp rxCtrlLen) none later).1)
      rw [stopped_silent]
      exact .nil
    | some answer =>
      obtain ⟨seen,after⟩ := answer
      obtain ⟨a',d',left,before⟩ := call_advances standing ran
      have next : snifferNext hash ip6AddrIsmulticast esp rxCtrlLen (some state) event = (some seen,some after) := by
        rw [snifferNext,Option.bind_some,ran]
        rfl
      rw [behaviour,perform,next]
      exact before _ (ih left)

-- Of all that a node ever sends, the i-th frame carries i modulo 4096 and no fragment
-- number, the k-th data frame k modulo 65536, whatever comes between them.
theorem frames_numbered (mem : SnifferState T) (mac : EtherAddr) (now : UInt64) (ringMem : CircularBuf Nat)
    (events : List SnifferEvent) :
    let sent := aired (behaviour hash ip6AddrIsmulticast esp rxCtrlLen (wifiSnifferInit esp mem mac now ringMem) events)
    (∀ i frame, sent[i]? = some frame → Heads mac i frame) ∧
    (∀ k frame, (sent.filter isData)[k]? = some frame → dataNumber frame = some (UInt16.ofNat k)) ∧
    ∀ i j first second, sent[i]? = some first → sent[j]? = some second → i < j → j < i + 4096 →
      (Ieee80211Hdr.ofBytes first).seqCtrl ≠ (Ieee80211Hdr.ofBytes second).seqCtrl := by
  have boots : Standing mac 0 0 (wifiSnifferInit esp mem mac now ringMem) := ⟨rfl,fun _ => rfl,fun _ => rfl⟩
  have numbered := behaviour_numbered hash ip6AddrIsmulticast esp rxCtrlLen events boots
  have heads : ∀ i frame, _ → Heads mac i frame := fun i frame place => by
    simpa only [Nat.zero_add] using numbered.heads i place
  refine ⟨heads,fun k frame place => ?_,fun i j first second here there before near same => ?_⟩
  · simpa only [Nat.zero_add] using numbered.payload k place
  · have one := (heads i first here).number
    have two := (heads j second there).number
    rw [same] at one
    omega

end Runs

end EspOwl.SequenceNumbers
