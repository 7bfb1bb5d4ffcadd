import EspOwl.Delivery
import EspOwl.Transmit

namespace EspOwl.Sniffer
open ByteCodec Delivery Histories

variable {T : Type}

-- struct daemon_state with awdl_state.running. A bool is the byte it lies in, and any
-- value but 0 counts as true.
structure SnifferState (T : Type) extends DaemonState T where
  running : UInt8

def hostname : List UInt8 := [0x74,0x65,0x73,0x74]

-- `mem` is what malloc returned for the state, `ringMem` that for the ring. Nothing
-- on the way assigns running.
def wifiSnifferInit (esp : EspTimer T) (mem : SnifferState T) (mac : EtherAddr) (now : UInt64)
    (ringMem : CircularBuf Nat) : SnifferState T :=
  let awdlState := wifiSnifferStores (awdlInitState mem.awdlState hostname mac chanOpclass6 now)
  {mem with toDaemonState := daemonStart esp awdlState ⟨0,false⟩ ringMem}

section Calls
variable (hash : EtherAddr → UInt64) (ip6AddrIsmulticast : In6Addr → Bool) (esp : EspTimer T) (rxCtrlLen : Nat)

-- `buff` is the memory behind the pointer, `sigLen` the field of its radio header.
def wifiSnifferPacketHandler (env : Ambient) (sigLen : Nat) (netif : Bool) (now : UInt64) (buff : Buf) (type : Int)
    (state : SnifferState T) : Option (Option Buf × List (List UInt8) × SnifferState T) :=
  if type < 0 ∨ type > 3 then some (none,[],state)
  else if EtherAddr.ofBytes (slice (rxCtrlLen + 16) 6 buff) ≠ awdlBssid then some (none,[],state)
  else if state.running ≠ 0 then
    let frame := buff.take (rxCtrlLen + sigLen)
    (awdlReceiveFrame hash env rxCtrlLen netif frame now state.awdlState).map fun run =>
      (some frame,run.2,{state with awdlState := run.1})
  else some (none,[],state)

def awdlSendAction (clock : TxClock) (type : AwdlActionType) (state : SnifferState T) :
    List (List UInt8) × SnifferState T :=
  let (buf,ieee80211State) := awdlInitFullActionFrame clock state.awdlState state.ieee80211State type
  (if state.running ≠ 0 then [buf] else [],
    {state with awdlState := EspOwl.awdlSendAction state.awdlState,ieee80211State := ieee80211State})

def awdlSendPsf (clock : TxClock) (state : SnifferState T) : List (List UInt8) × SnifferState T :=
  awdlSendAction clock .psf state

def awdlSendMif (clock : TxClock) (now : UInt64) (state : SnifferState T) : List (List UInt8) × SnifferState T × UInt64 :=
  let nextAw := awdlSyncNextAwUs now state.awdlState.sync
  let eawLen := eawPeriod state.awdlState.sync
  let again := nextAw + (ieee80211TuToUsec (eawLen / 2).toUInt32).toUInt64
  if awdlChanNum state.awdlState.channel.current state.awdlState.channel.enc > 0 then
    let (frames,state) := awdlSendAction clock .mif state
    (frames,state,again)
  else ([],state,again)

def wlanSend (running : UInt8) : TxOutput → List (List UInt8)
  | .handed _ _ (.sendData (some frame)) => if running ≠ 0 then [frame] else []
  | _ => []

def awdlDisable (netif : Bool) (state : SnifferState T) : SnifferState T :=
  if netif then {state with running := 0} else state

inductive SnifferEvent where
  | packet (env : Ambient) (sigLen : Nat) (netif : Bool) (now : UInt64) (buff : Buf) (type : Int)
  | sendPsf (clock : TxClock)
  | sendMif (clock : TxClock) (now : UInt64)
  | sendUnicast (now : UInt64)
  | sendMulticast (now : UInt64)
  | transmit (mem : Nat → UInt8) (garbage : Bool) (buffer : Buf)
  | switchChannel (now : UInt64)
  | cleanPeers (now : UInt64)
  | disable (netif : Bool)

structure Seen where
  processed : Option Buf
  received : List (List UInt8)
  sent : List (List UInt8)
deriving DecidableEq, Repr

def Seen.sending (sent : List (List UInt8)) : Seen := ⟨none,[],sent⟩

-- `none` is a call that does not return, or uses memory it must not.
def snifferCall (state : SnifferState T) : SnifferEvent → Option (Seen × SnifferState T)
  | .packet env sigLen netif now buff type =>
    (wifiSnifferPacketHandler hash rxCtrlLen env sigLen netif now buff type state).map fun run =>
      (⟨run.1,run.2.1,[]⟩,run.2.2)
  | .sendPsf clock => some (.sending (awdlSendPsf clock state).1,(awdlSendPsf clock state).2)
  | .sendMif clock now => some (.sending (awdlSendMif clock now state).1,(awdlSendMif clock now state).2.1)
  | .sendUnicast now =>
    (awdlSendUnicast hash esp now {state.toDaemonState with txTimer := esp.fire state.txTimer}).map fun run =>
      (.sending (wlanSend state.running run.1),{state with toDaemonState := run.2})
  | .sendMulticast now =>
    (awdlSendMulticast esp now {state.toDaemonState with txMcastTimer := esp.fire state.txMcastTimer}).map
      fun run => (.sending (wlanSend state.running run.1),{state with toDaemonState := run.2})
  | .transmit mem garbage buffer =>
    let run := awdlTransmit ip6AddrIsmulticast esp mem garbage buffer state.toDaemonState
    some (.sending [],{state with toDaemonState := run.2})
  | .switchChannel now => some (.sending [],{state with awdlState := awdlSwitchChannel now state.awdlState})
  | .cleanPeers now => some (.sending [],{state with awdlState := awdlCleanPeers now state.awdlState})
  | .disable netif => some (.sending [],awdlDisable netif state)

def snifferNext (state : Option (SnifferState T)) (event : SnifferEvent) : Option Seen × Option (SnifferState T) :=
  let run := state.bind fun state => snifferCall hash ip6AddrIsmulticast esp rxCtrlLen state event
  (run.map Prod.fst,run.map Prod.snd)

def behaviour (start : SnifferState T) (events : List SnifferEvent) : List (Option Seen) :=
  (perform (snifferNext hash ip6AddrIsmulticast esp rxCtrlLen) (some start) events).1

end Calls

end EspOwl.Sniffer
