import EspOwl.Frame
import EspOwl.Peers
import EspOwl.Sync

namespace EspOwl

structure AwdlStats where
  txAction : UInt64
  txData : UInt64
  txDataUnicast : UInt64
  txDataMulticast : UInt64
  rxAction : UInt64
  rxData : UInt64
  rxUnknown : UInt64
deriving DecidableEq, Repr, Inhabited

def awdlStatsInit : AwdlStats := ⟨0,0,0,0,0,0,0⟩

-- struct awdl_state. tlv_cb is never registered, and the peer callback works on a copy of
-- what its data points to, so the callbacks are not part of it.
structure AwdlState where
  selfAddress : EtherAddr
  name : CharArray (hostNameLengthMax + 1)
  version : UInt8
  devClass : UInt8
  sequenceNumber : UInt16
  psfInterval : UInt16
  dst : EtherAddr
  filterRssi : Bool
  rssiThreshold : Int8
  rssiGrace : Int8
  election : AwdlElectionState
  sync : AwdlSyncState
  channel : AwdlChannelState
  peers : AwdlPeerState
  stats : AwdlStats
deriving Inhabited

def rssiThresholdDefault : Int8 := -65
def rssiGraceDefault : Int8 := -5
def psfIntervalMasterTu : UInt16 := 110
def etherBroadcast : EtherAddr := ⟨0xff,0xff,0xff,0xff,0xff,0xff⟩

-- strncpy writes exactly n bytes: the string, then zeros.
def strncpy (array : CharArray size) (string : List UInt8) (n : Nat) : CharArray size :=
  let text := string.takeWhile (· ≠ 0)
  array.overwrite ((text ++ List.replicate n 0).take n)

def awdlInitState (mem : AwdlState) (hostname : List UInt8) (self : EtherAddr) (chan : AwdlChan)
    (now : UInt64) : AwdlState where
  selfAddress := self
  name := strncpy mem.name hostname hostNameLengthMax
  version := awdlVersion 3 4
  devClass := awdlDevclassMacos
  sequenceNumber := 0
  psfInterval := psfIntervalMasterTu
  dst := etherBroadcast
  filterRssi := true
  rssiThreshold := rssiThresholdDefault
  rssiGrace := rssiGraceDefault
  sync := awdlSyncStateInit now
  channel := {
    enc := .opclass
    master := chan
    current := chanNull
    sequence := awdlChanseqInitStatic chan}
  election := awdlElectionStateInit self
  peers := awdlPeerStateInit mem.peers
  stats := awdlStatsInit

-- wifi_sniffer_init after awdl_init_state. Its printf with %hn stores in aw_period how many
-- characters it has printed.
def wifiSnifferStores (state : AwdlState) : AwdlState :=
  {state with sync := {state.sync with awPeriod := 20},filterRssi := false}

-- A node as awdl_init_state leaves it, or as wifi_sniffer_init does.
inductive Booted (self : EtherAddr) : AwdlState → Prop where
  | init : Booted self (awdlInitState mem hostname self chan now)
  | sniffer : Booted self (wifiSnifferStores (awdlInitState mem hostname self chan now))

theorem Booted.form (booted : Booted self state) : ∃ mem hostname chan now awPeriod filterRssi,
    (awPeriod = 16 ∨ awPeriod = 20) ∧ state = {awdlInitState mem hostname self chan now with
      sync := {awdlSyncStateInit now with awPeriod := awPeriod}
      filterRssi := filterRssi} := by
  cases booted with
  | init => exact ⟨_,_,_,_,16,true,.inl rfl,rfl⟩
  | sniffer => exact ⟨_,_,_,_,20,false,.inr rfl,rfl⟩

def awdlStateNextSequenceNumber (state : AwdlState) : UInt16 × AwdlState :=
  (state.sequenceNumber,{state with sequenceNumber := state.sequenceNumber + 1})

structure Ieee80211State where
  sequenceNumber : UInt16
  fcs : Bool
deriving DecidableEq, Repr

def ieee80211InitState : Ieee80211State := ⟨0,false⟩

def ieee80211StateNextSequenceNumber (state : Ieee80211State) : UInt16 × Ieee80211State :=
  (state.sequenceNumber,{state with sequenceNumber := (state.sequenceNumber + 1) &&& 0x0fff})

end EspOwl
