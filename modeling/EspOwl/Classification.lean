import EspOwl.TransmitQueues

namespace EspOwl.Classification
open TransmitQueues

variable {ip6AddrIsmulticast : In6Addr → Bool} {T : Type} {esp : EspTimer T}

structure Ipv6Packet where
  bytes : Buf
  header : 40 ≤ bytes.length

def Ipv6Packet.dst (packet : Ipv6Packet) : In6Addr := .ofBytes (packet.bytes.drop 24)

-- ff00::/8
def Multicast (addr : In6Addr) : Prop := (List.ofFn addr.s6Addr).headD 0 = 0xff

instance (addr : In6Addr) : Decidable (Multicast addr) := inferInstanceAs (Decidable (_ = _))

def framed (mac : EtherAddr) (packet : Ipv6Packet) : Buf := mac.bytes ++ packet.bytes

-- Into the queue of multicast frames, to a 33:33 address.
def ToGroup (packet : Ipv6Packet) (before after : DaemonState T) : Prop :=
  ∃ (mac : EtherAddr) (buf : Nat), mac.octet0 = 0x33 ∧ mac.octet1 = 0x33 ∧
    after.heap.live buf = some (framed mac packet) ∧
    after.txQueueMulticast = circularBufPut before.txQueueMulticast buf ∧ after.next = before.next

-- Next to be sent, to the address that the interface identifier gives.
def ToHost (packet : Ipv6Packet) (before after : DaemonState T) : Prop :=
  ∃ buf, after.next = some buf ∧ after.heap.live buf = some (framed (in6AddrToEtherAddr packet.dst) packet) ∧
    after.txQueueMulticast = before.txQueueMulticast

def Classified (packet : Ipv6Packet) (before after : DaemonState T) : Prop :=
  (Multicast packet.dst → ToGroup packet before after) ∧ (¬ Multicast packet.dst → ToHost packet before after)

theorem transmit_accepted (mem : Nat → UInt8) (garbage : Bool) (buffer : Buf) (state : DaemonState T)
    (accepted : (awdlTransmit ip6AddrIsmulticast esp mem garbage buffer state).1 ≠ .espErrNoMem) :
    state.next = none ∧ (awdlTransmit ip6AddrIsmulticast esp mem garbage buffer state).2 =
      let dst := In6Addr.ofBytes (buffer.drop 24)
      let bytes := (transmitMac ip6AddrIsmulticast dst).bytes ++ buffer
      if ip6AddrIsmulticast dst || garbage then withMulticast esp bytes state else withUnicast esp bytes state := by
  by_cases busy : (state.next.isSome || circularBufFull state.txQueueMulticast) = true
  · exact absurd (by rw [awdlTransmit,if_pos busy]) accepted
  · have idle : state.next = none := by
      cases waiting : state.next with
      | none => rfl
      | some buf => simp [waiting] at busy
    refine ⟨idle,?_⟩
    rw [awdlTransmit,if_neg busy]
    dsimp only
    rw [transmitFrame_eq]
    cases ip6AddrIsmulticast (In6Addr.ofBytes (buffer.drop 24)) <;> cases garbage <;> rfl

theorem allocate_live (heap : Heap) (bytes : Buf) : (heap.allocate bytes).live heap.fresh = some bytes :=
  Function.update_self _ _ _

theorem transmitMac_group (group : ip6AddrIsmulticast addr = true) :
    (transmitMac ip6AddrIsmulticast addr).octet0 = 0x33 ∧ (transmitMac ip6AddrIsmulticast addr).octet1 = 0x33 := by
  rw [transmitMac,if_pos group]
  exact ⟨rfl,rfl⟩

theorem transmitMac_host (host : ip6AddrIsmulticast addr = false) :
    transmitMac ip6AddrIsmulticast addr = in6AddrToEtherAddr addr := by
  rw [transmitMac,if_neg (by rw [host]; decide)]

theorem withMulticast_toGroup (group : ip6AddrIsmulticast packet.dst = true) (state : DaemonState T) :
    ToGroup packet state (withMulticast esp (framed (transmitMac ip6AddrIsmulticast packet.dst) packet) state) := by
  obtain ⟨first,second⟩ := transmitMac_group group
  exact ⟨_,_,first,second,allocate_live _ _,rfl,rfl⟩

theorem withUnicast_toHost (host : ip6AddrIsmulticast packet.dst = false) (state : DaemonState T) :
    ToHost packet state (withUnicast esp (framed (transmitMac ip6AddrIsmulticast packet.dst) packet) state) := by
  rw [transmitMac_host host]
  exact ⟨_,rfl,allocate_live _ _,rfl⟩

-- What goes into the other queue leaves the slot of the next packet empty.
theorem withMulticast_notToHost (idle : state.next = none) (bytes : Buf) (packet : Ipv6Packet) :
    ¬ ToHost packet state (withMulticast esp bytes state) := by
  rintro ⟨buf,taken,_⟩
  have empty : (withMulticast esp bytes state).next = none := idle
  rw [empty] at taken
  cases taken

theorem classified_iff (documented : ∀ addr, ip6AddrIsmulticast addr = true ↔ Multicast addr) (mem : Nat → UInt8)
    (garbage : Bool) (packet : Ipv6Packet) (state : DaemonState T)
    (accepted : (awdlTransmit ip6AddrIsmulticast esp mem garbage packet.bytes state).1 ≠ .espErrNoMem) :
    Classified packet state (awdlTransmit ip6AddrIsmulticast esp mem garbage packet.bytes state).2 ↔
      Multicast packet.dst ∨ garbage = false := by
  obtain ⟨idle,ran⟩ := transmit_accepted mem garbage packet.bytes state accepted
  rw [ran]
  change Classified packet state (if ip6AddrIsmulticast packet.dst || garbage then
    withMulticast esp (framed (transmitMac ip6AddrIsmulticast packet.dst) packet) state
    else withUnicast esp (framed (transmitMac ip6AddrIsmulticast packet.dst) packet) state) ↔ _
  by_cases group : Multicast packet.dst
  · have isGroup := (documented packet.dst).mpr group
    rw [if_pos (by rw [isGroup]; rfl)]
    exact iff_of_true ⟨fun _ => withMulticast_toGroup isGroup state,fun host => absurd group host⟩ (.inl group)
  · have isHost : ip6AddrIsmulticast packet.dst = false := by
      rw [← Bool.not_eq_true,documented]
      exact group
    rw [or_iff_right group]
    cases garbage with
    | false =>
      rw [if_neg (by rw [isHost]; decide)]
      exact iff_of_true ⟨fun member => absurd member group,fun _ => withUnicast_toHost isHost state⟩ rfl
    | true =>
      rw [if_pos (by rw [isHost]; rfl)]
      refine iff_of_false ?_ (by decide)
      intro classified
      exact withMulticast_notToHost idle _ packet (classified.2 group)

-- A node that has just started, and a packet for a single host.
def toHost : Ipv6Packet := ⟨toStranger,by decide⟩

theorem groupAddr_documented (addr : In6Addr) : groupAddr addr = true ↔ Multicast addr := decide_eq_true_iff

theorem toHost_accepted (garbage : Bool) :
    (awdlTransmit groupAddr plainTimer (fun _ => 0) garbage toHost.bytes quietNode).1 ≠ .espErrNoMem := by
  cases garbage <;> decide +kernel

theorem classified_iff_clean :
    Classified toHost quietNode (awdlTransmit groupAddr plainTimer (fun _ => 0) false toHost.bytes quietNode).2 ↔
      Multicast toHost.dst ∨ false = false :=
  classified_iff groupAddr_documented (fun _ => 0) false toHost quietNode (toHost_accepted false)

-- The stack holds something other than zero where the flag lies.
theorem classified_wrongly : ¬ ∀ (ip6AddrIsmulticast : In6Addr → Bool),
    (∀ addr, ip6AddrIsmulticast addr = true ↔ Multicast addr) → ∀ (esp : EspTimer (Option UInt64)) (mem : Nat → UInt8)
      (garbage : Bool) (packet : Ipv6Packet) (state : DaemonState (Option UInt64)),
      (awdlTransmit ip6AddrIsmulticast esp mem garbage packet.bytes state).1 ≠ .espErrNoMem →
        Classified packet state (awdlTransmit ip6AddrIsmulticast esp mem garbage packet.bytes state).2 := by
  intro always
  have classified := always groupAddr groupAddr_documented plainTimer (fun _ => 0) true toHost quietNode (toHost_accepted true)
  obtain ⟨buf,taken,_⟩ := classified.2 (by decide)
  have idle : (awdlTransmit groupAddr plainTimer (fun _ => 0) true toHost.bytes quietNode).2.next = none := by decide +kernel
  rw [idle] at taken
  cases taken

end EspOwl.Classification
