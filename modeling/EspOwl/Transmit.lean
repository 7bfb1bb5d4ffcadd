import EspOwl.CircularBuffer
import EspOwl.Fifos
import EspOwl.Node
import EspOwl.Schedule

namespace EspOwl
open Histories Fifos

variable {T : Type}

-- esp_timer is not part of the repository; no caller looks at what a start returns.
structure EspTimer (T : Type) where
  create : T
  startOnce : T → UInt64 → T
  fire : T → T
  active : T → Bool

-- What is documented of a one-shot timer. It is inactive when its callback runs.
structure EspTimer.Documented (esp : EspTimer T) : Prop where
  fired : ∀ timer, esp.active (esp.fire timer) = false
  started : ∀ timer usec, esp.active timer = false → esp.active (esp.startOnce timer usec) = true
  refused : ∀ timer usec, esp.active timer = true → esp.active (esp.startOnce timer usec) = true

-- The double is cut to an integer on its way to esp_timer_start_once.
def timerRearm (esp : EspTimer T) (timer : T) (usec : ℚ) : T := esp.startOnce timer (UInt64.ofNat usec.floor.toNat)

structure Packet where
  buf : Nat
  bytes : Buf
deriving DecidableEq, Repr

structure Heap where
  live : Nat → Option Buf
  fresh : Nat
  freed : List Nat

def Heap.empty : Heap := ⟨fun _ => none,0,[]⟩

def Heap.allocate (heap : Heap) (bytes : Buf) : Heap :=
  {heap with live := Function.update heap.live heap.fresh (some bytes),fresh := heap.fresh + 1}

def Heap.packetAt (heap : Heap) (buf : Nat) : Option Packet := (heap.live buf).map (Packet.mk buf)

-- `none` is a free of memory that is not allocated, or no longer.
def bufFree (heap : Heap) (buf : Nat) : Option Heap :=
  (heap.live buf).map fun _ => {heap with live := Function.update heap.live buf none,freed := heap.freed ++ [buf]}

structure In6Addr where
  s6Addr : Fin 16 → UInt8
deriving DecidableEq

def In6Addr.ofBytes (bytes : List UInt8) : In6Addr := ⟨fun i => bytes.getD i 0⟩

def in6AddrToEtherAddr (addr : In6Addr) : EtherAddr :=
  ⟨addr.s6Addr 8 ^^^ 0x02,addr.s6Addr 9,addr.s6Addr 10,addr.s6Addr 13,addr.s6Addr 14,addr.s6Addr 15⟩

structure DaemonState (T : Type) where
  awdlState : AwdlState
  ieee80211State : Ieee80211State
  txTimer : T
  txMcastTimer : T
  next : Option Nat
  txQueueMulticast : CircularBuf Nat
  heap : Heap

inductive HandedTo where
  | sendData (frame : Option (List UInt8))
  | hostSend
  | nonPeer
deriving DecidableEq, Repr

inductive TxOutput where
  | espErrNoMem
  | espOk (traffic : Traffic) (packet : Packet)
  | handed (traffic : Traffic) (packet : Packet) (receiver : HandedTo)
  | waits
deriving DecidableEq, Repr

def TxOutput.move : TxOutput → Move Traffic Packet
  | .espErrNoMem => .stay
  | .espOk traffic packet => .enter traffic packet
  | .handed traffic packet _ => .leave traffic packet
  | .waits => .stay

section Calls
variable (hash : EtherAddr → UInt64) (ip6AddrIsmulticast : In6Addr → Bool) (esp : EspTimer T)

def transmitMac (dstAddress : In6Addr) : EtherAddr :=
  let dstMac := in6AddrToEtherAddr dstAddress
  if ip6AddrIsmulticast dstAddress then
    {dstMac with octet0 := 0x33,octet1 := 0x33,octet2 := 0x80,octet3 := 0x00,octet4 := 0x00}
  else dstMac

def transmitFrame (mem : Nat → UInt8) (dstMac : EtherAddr) (buffer : Buf) : Buf :=
  let buf := bufNewOwned (etherLength + buffer.length) mem
  let buf := (writeEtherAddr buf etherDstOffset dstMac).2
  (writeBytes buf etherLength buffer).2

-- is_multicast is only ever set to true; `garbage` is what the stack holds there.
def awdlTransmit (mem : Nat → UInt8) (garbage : Bool) (buffer : Buf) (state : DaemonState T) :
    TxOutput × DaemonState T :=
  if state.next.isSome || circularBufFull state.txQueueMulticast then (.espErrNoMem,state)
  else
    let dstAddress := In6Addr.ofBytes (buffer.drop 24)
    let isMulticast := if ip6AddrIsmulticast dstAddress then true else garbage
    let bytes := transmitFrame mem (transmitMac ip6AddrIsmulticast dstAddress) buffer
    let buf := state.heap.fresh
    let state := {state with heap := state.heap.allocate bytes}
    if isMulticast then
      (.espOk .multicast ⟨buf,bytes⟩,{state with
        txQueueMulticast := circularBufPut state.txQueueMulticast buf
        txMcastTimer := esp.startOnce state.txMcastTimer 0})
    else
      (.espOk .unicast ⟨buf,bytes⟩,{state with
        next := some buf
        txTimer := esp.startOnce state.txTimer 0})

def release (traffic : Traffic) (packet : Packet) (receiver : HandedTo) (state : DaemonState T) :
    Option (TxOutput × ℚ × DaemonState T) :=
  (bufFree state.heap packet.buf).map fun heap => (.handed traffic packet receiver,0,{state with heap := heap})

def sendPacket (traffic : Traffic) (packet : Packet) (state : DaemonState T) :
    Option (TxOutput × ℚ × DaemonState T) :=
  let (frame,awdlState,ieee80211State) := awdlSendData packet.bytes state.awdlState state.ieee80211State
  release traffic packet (.sendData frame)
    {state with awdlState := countTx awdlState traffic,ieee80211State := ieee80211State}

-- What awdl_send_unicast does with state->next, and the delay `in` after it. `none` is
-- the use of a buffer that is not allocated, or too short for its destination.
def sendNext (now : UInt64) (state : DaemonState T) : Option (TxOutput × ℚ × DaemonState T) :=
  match state.next with
  | none => some (.waits,0,state)
  | some next => do
    let bytes ← state.heap.live next
    let dst ← readEtherAddr bytes etherDstOffset
    if dst = state.awdlState.selfAddress then release .unicast ⟨next,bytes⟩ .hostSend {state with next := none}
    else
      match awdlPeerGet hash state.awdlState.peers.peers dst with
      | (.ok,some peer) =>
        let delay := awdlCanSendUnicastIn state.awdlState peer now awdlUnicastGuardTu
        if delay = 0 then sendPacket .unicast ⟨next,bytes⟩ {state with next := none}
        else if delay < 0 then
          some (.waits,-delay + usecToSec (ieee80211TuToUsec awdlUnicastGuardTu).toUInt64,state)
        else some (.waits,delay,state)
      | _ => release .unicast ⟨next,bytes⟩ .nonPeer {state with next := none}

def awdlSendUnicast (now : UInt64) (state : DaemonState T) : Option (TxOutput × DaemonState T) :=
  (sendNext hash now state).map fun (output,delay,state) =>
    (output,if state.next.isSome then {state with txTimer := timerRearm esp state.txTimer delay} else state)

def sendQueued (now : UInt64) (state : DaemonState T) : Option (TxOutput × ℚ × DaemonState T) :=
  let delay := awdlCanSendIn state.awdlState now awdlMulticastGuardTu
  if !circularBufEmpty state.txQueueMulticast then
    if awdlIsMulticastEaw state.awdlState now ∧ delay = 0 then
      match circularBufGet state.txQueueMulticast false with
      | (none,_) => none
      | (some next,queue) => do
        let bytes ← state.heap.live next
        sendPacket .multicast ⟨next,bytes⟩ {state with txQueueMulticast := queue}
    else if delay = 0 then some (.waits,usecToSec (ieee80211TuToUsec 64).toUInt64,state)
    else if delay < 0 then
      some (.waits,-delay + usecToSec (ieee80211TuToUsec awdlMulticastGuardTu).toUInt64,state)
    else some (.waits,delay,state)
  else some (.waits,delay,state)

def awdlSendMulticast (now : UInt64) (state : DaemonState T) : Option (TxOutput × DaemonState T) :=
  (sendQueued now state).map fun (output,delay,state) =>
    (output,if !circularBufEmpty state.txQueueMulticast then
      {state with txMcastTimer := timerRearm esp state.txMcastTimer delay} else state)

def awdlSchedule (state : DaemonState T) : DaemonState T :=
  {state with txTimer := esp.startOnce esp.create 0,txMcastTimer := esp.startOnce esp.create 0}

def daemonStart (awdlState : AwdlState) (ieee80211State : Ieee80211State) (mem : CircularBuf Nat) : DaemonState T :=
  awdlSchedule esp {
    awdlState := awdlState
    ieee80211State := ieee80211State
    txTimer := esp.create
    txMcastTimer := esp.create
    next := none
    txQueueMulticast := circularBufInit 16 mem
    heap := .empty}

-- `elsewhere` is all else that runs on the node, with any effect on both states.
inductive TxEvent where
  | transmit (mem : Nat → UInt8) (garbage : Bool) (buffer : Buf)
  | sendUnicast (now : UInt64)
  | sendMulticast (now : UInt64)
  | elsewhere (awdlState : AwdlState) (ieee80211State : Ieee80211State)

-- A packet has an IPv6 header, and its buffer can be allocated: the length is an int.
inductive TxStep : DaemonState T → TxEvent → TxOutput → DaemonState T → Prop where
  | transmit (header : 40 ≤ buffer.length) (fits : etherLength + buffer.length < 2 ^ 31) :
      TxStep state (.transmit mem garbage buffer) (awdlTransmit ip6AddrIsmulticast esp mem garbage buffer state).1
        (awdlTransmit ip6AddrIsmulticast esp mem garbage buffer state).2
  | sendUnicast (ran : awdlSendUnicast hash esp now {state with txTimer := esp.fire state.txTimer} = some (output,next)) :
      TxStep state (.sendUnicast now) output next
  | sendMulticast
      (ran : awdlSendMulticast esp now {state with txMcastTimer := esp.fire state.txMcastTimer} = some (output,next)) :
      TxStep state (.sendMulticast now) output next
  | elsewhere : TxStep state (.elsewhere awdlState ieee80211State) .waits
      {state with awdlState := awdlState,ieee80211State := ieee80211State}

end Calls

end EspOwl
