import EspOwl.Dispatch
import EspOwl.Election
import EspOwl.Histories
import EspOwl.Tx

namespace EspOwl
open Histories

def awdlCleanPeers (now : UInt64) (state : AwdlState) : AwdlState :=
  let cutoffTime := now - state.peers.timeout
  let state := state.setPeers (awdlPeersRemove state.peers.peers cutoffTime)
  {state with election := awdlElectionRun state.election state.peers.peers}

def awdlSendAction (state : AwdlState) : AwdlState := {state with stats.txAction := state.stats.txAction + 1}

def etherDstOffset : Nat := 0
def etherLength : Nat := 6

def awdlSendData (buf : Buf) (state : AwdlState) (ieee80211State : Ieee80211State) :
    Option (List UInt8) × AwdlState × Ieee80211State :=
  checkedRead (readEtherAddr buf etherDstOffset) (none,state,ieee80211State) fun dst =>
  let buf := (bufStrip buf etherLength).getD buf
  let (awdlData,state,ieee80211State) := awdlInitFullDataFrame state.selfAddress dst buf state ieee80211State
  (some awdlData,{state with stats.txData := state.stats.txData + 1},ieee80211State)

def awdlSwitchChannel (now : UInt64) (state : AwdlState) : AwdlState :=
  let chanNumOld := awdlChanNum state.channel.current state.channel.enc
  let slot := ⟨(awdlSyncCurrentEaw now state.sync).toNat % awdlChanseqLength,Nat.mod_lt _ (by decide)⟩
  let chanNew := state.channel.sequence slot
  let chanNumNew := awdlChanNum chanNew state.channel.enc
  if chanNumNew ≠ 0 ∧ chanNumNew ≠ chanNumOld then {state with channel.current := chanNew} else state

inductive Traffic where
  | unicast
  | multicast
deriving DecidableEq, Repr

def countTx (state : AwdlState) : Traffic → AwdlState
  | .unicast => {state with stats.txDataUnicast := state.stats.txDataUnicast + 1}
  | .multicast => {state with stats.txDataMulticast := state.stats.txDataMulticast + 1}

-- What can happen to a node after awdl_init_state. Frames may be anything at any
-- time; wifi_sniffer_init switches the RSSI filter off.
inductive Event where
  | receive (env : Ambient) (frame : Buf) (now : UInt64)
  | cleanPeers (now : UInt64)
  | sendAction
  | sendData (traffic : Traffic) (buf : Buf) (ieee80211State : Ieee80211State)
  | switchChannel (now : UInt64)
  | filterOff

-- A step and the packets it puts behind the output pointer. A reception whose
-- hashmap_put does not return is no step.
inductive NodeStep (hash : EtherAddr → UInt64) (rxCtrlLen : Nat) : AwdlState → Event → List Buf → AwdlState → Prop where
  | receive (ran : awdlRx hash env rxCtrlLen frame now state = some run) :
      NodeStep hash rxCtrlLen state (.receive env frame now) run.out run.state
  | cleanPeers : NodeStep hash rxCtrlLen state (.cleanPeers now) [] (awdlCleanPeers now state)
  | sendAction : NodeStep hash rxCtrlLen state .sendAction [] (awdlSendAction state)
  | sendData : NodeStep hash rxCtrlLen state (.sendData traffic buf ieee80211State) []
      (countTx (awdlSendData buf state ieee80211State).2.1 traffic)
  | switchChannel : NodeStep hash rxCtrlLen state (.switchChannel now) [] (awdlSwitchChannel now state)
  | filterOff : NodeStep hash rxCtrlLen state .filterOff [] {state with filterRssi := false}

def Reached (hash : EtherAddr → UInt64) (rxCtrlLen : Nat) (self : EtherAddr) (trace : List (Event × List Buf))
    (state : AwdlState) : Prop :=
  ∃ start, Booted self start ∧ Runs (NodeStep hash rxCtrlLen) start trace state

end EspOwl
