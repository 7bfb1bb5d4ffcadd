import EspOwl.Transmit

namespace EspOwl.TransmitQueues
open Histories Fifos

variable {hash : EtherAddr → UInt64} {ip6AddrIsmulticast : In6Addr → Bool} {T : Type} {esp : EspTimer T}

-- These packets are what is allocated, each in its own buffer.
structure Owns (heap : Heap) (pending : List Packet) : Prop where
  live : ∀ packet : Packet, heap.live packet.buf = some packet.bytes ↔ packet ∈ pending
  apart : (pending.map Packet.buf).Nodup
  below : ∀ packet ∈ pending, packet.buf < heap.fresh

namespace Owns

theorem perm (owns : Owns heap pending) (same : pending.Perm other) : Owns heap other where
  live packet := (owns.live packet).trans same.mem_iff
  apart := (same.map _).nodup_iff.mp owns.apart
  below packet member := owns.below packet (same.mem_iff.mpr member)

theorem unused (owns : Owns heap pending) : heap.live heap.fresh = none := by
  cases found : heap.live heap.fresh with
  | none => rfl
  | some bytes => exact absurd (owns.below _ ((owns.live ⟨heap.fresh,bytes⟩).mp found)) (lt_irrefl _)

theorem allocate (owns : Owns heap pending) (bytes : Buf) :
    Owns (heap.allocate bytes) (⟨heap.fresh,bytes⟩ :: pending) where
  live packet := by
    obtain ⟨buf,held⟩ := packet
    simp only [Heap.allocate,List.mem_cons,Packet.mk.injEq]
    by_cases new : buf = heap.fresh
    · subst new
      have old : ⟨heap.fresh,held⟩ ∉ pending := fun member => by
        have found := (owns.live _).mpr member
        rw [owns.unused] at found
        cases found
      simp only [Function.update_self,Option.some.injEq,true_and,old,or_false]
      exact eq_comm
    · simp only [Function.update_of_ne new,new,false_and,false_or]
      exact owns.live ⟨buf,held⟩
  apart := by
    rw [List.map_cons,List.nodup_cons]
    refine ⟨?_,owns.apart⟩
    intro member
    obtain ⟨packet,inside,same⟩ := List.mem_map.mp member
    exact absurd (owns.below packet inside) (by rw [same]; exact lt_irrefl _)
  below packet member := by
    rcases List.mem_cons.mp member with rfl | old
    · exact Nat.lt_succ_self _
    · exact Nat.lt_succ_of_lt (owns.below packet old)

theorem free (owns : Owns heap (packet :: rest)) :
    ∃ after, bufFree heap packet.buf = some after ∧ Owns after rest ∧
      after.freed = heap.freed ++ [packet.buf] ∧ after.fresh = heap.fresh := by
  have found := (owns.live packet).mpr List.mem_cons_self
  have apart := owns.apart
  rw [List.map_cons,List.nodup_cons] at apart
  refine ⟨{heap with live := Function.update heap.live packet.buf none,freed := heap.freed ++ [packet.buf]},
    by rw [bufFree,found,Option.map_some],⟨?_,apart.2,?_⟩,rfl,rfl⟩
  · rintro ⟨buf,bytes⟩
    by_cases gone : buf = packet.buf
    · subst gone
      simp only [Function.update_self,reduceCtorEq,false_iff]
      exact fun member => apart.1 (List.mem_map.mpr ⟨_,member,rfl⟩)
    · simp only [Function.update_of_ne gone]
      rw [owns.live ⟨buf,bytes⟩,List.mem_cons]
      refine or_iff_right fun same => gone ?_
      rw [← same]
  · exact fun other member => owns.below other (List.mem_cons_of_mem _ member)

end Owns

def pending (queues : Traffic → List Packet) : List Packet := queues .unicast ++ queues .multicast

-- The slot, the ring and the heap stand for these two queues.
structure Queued (state : DaemonState T) (queues : Traffic → List Packet) : Prop where
  slot : state.next.toList = (queues .unicast).map Packet.buf
  ring : HoldsItems state.txQueueMulticast ((queues .multicast).map Packet.buf)
  owns : Owns state.heap (pending queues)
  framed : ∀ packet ∈ pending queues, etherAddrLen ≤ packet.bytes.length

structure Logged (heap : Heap) (move : Move Traffic Packet) (after : Heap) : Prop where
  freed : after.freed = heap.freed ++ move.departure.map fun entry => entry.2.buf
  made : List.range after.fresh = List.range heap.fresh ++ move.arrival.map fun entry => entry.2.buf

-- The output tells the move that leads to the queues of the next state.
def Follows (state : DaemonState T) (queues : Traffic → List Packet) (output : TxOutput) (next : DaemonState T) :
    Prop :=
  ∃ after, Moves queues output.move after ∧ Queued next after ∧ Logged state.heap output.move next.heap

theorem Queued.congr (queued : Queued state queues) (next : DaemonState T) (slot : next.next = state.next)
    (ring : next.txQueueMulticast = state.txQueueMulticast) (heap : next.heap = state.heap) : Queued next queues where
  slot := by rw [slot]; exact queued.slot
  ring := by rw [ring]; exact queued.ring
  owns := by rw [heap]; exact queued.owns
  framed := queued.framed

theorem stays (queued : Queued state queues) (still : output.move = .stay) : Follows state queues output state := by
  refine ⟨queues,?_,queued,?_⟩
  · rw [still]
    exact .stay
  · rw [still]
    exact ⟨(List.append_nil _).symm,(List.append_nil _).symm⟩

theorem Follows.congr (follows : Follows state queues output next) (after : DaemonState T)
    (slot : after.next = next.next) (ring : after.txQueueMulticast = next.txQueueMulticast)
    (heap : after.heap = next.heap) : Follows state queues output after := by
  obtain ⟨left,moves,queued,logged⟩ := follows
  exact ⟨left,moves,queued.congr after slot ring heap,by rw [heap]; exact logged⟩

theorem writeBytes_over (before old after bytes : List UInt8) (same : old.length = bytes.length) :
    (writeBytes (before ++ (old ++ after)) before.length bytes).2 = before ++ (bytes ++ after) := by
  have inside : ¬ ((before.length : Int) < 0 ∨ (before.length : Int) + bytes.length > bufLen (before ++ (old ++ after))) := by
    simp only [bufLen,List.length_append]
    omega
  rw [writeBytes,if_neg inside]
  simp [← same,← List.drop_drop]

-- Both writes fit, so the frame is the destination and the packet.
theorem transmitFrame_eq (mem : Nat → UInt8) (dstMac : EtherAddr) (buffer : Buf) :
    transmitFrame mem dstMac buffer = dstMac.bytes ++ buffer := by
  have fresh : (bufNewOwned (etherLength + buffer.length) mem).length = etherLength + buffer.length := by
    simp [bufNewOwned]
  have six : dstMac.bytes.length = etherLength := dstMac.bytes_length
  unfold transmitFrame writeEtherAddr
  generalize bufNewOwned (etherLength + buffer.length) mem = buf at fresh
  have first := writeBytes_over [] (buf.take etherLength) (buf.drop etherLength) dstMac.bytes
    (by rw [List.length_take,six]; omega)
  have second := writeBytes_over dstMac.bytes (buf.drop etherLength) [] buffer (by rw [List.length_drop]; omega)
  simp only [List.nil_append,List.take_append_drop,List.append_nil,List.length_nil] at first second
  rw [six] at second
  change (writeBytes (writeBytes buf (0 : Nat) dstMac.bytes).2 etherLength buffer).2 = _
  rw [first,second]

def withUnicast (esp : EspTimer T) (bytes : Buf) (state : DaemonState T) : DaemonState T :=
  {state with
    heap := state.heap.allocate bytes
    next := some state.heap.fresh
    txTimer := esp.startOnce state.txTimer 0}

def withMulticast (esp : EspTimer T) (bytes : Buf) (state : DaemonState T) : DaemonState T :=
  {state with
    heap := state.heap.allocate bytes
    txQueueMulticast := circularBufPut state.txQueueMulticast state.heap.fresh
    txMcastTimer := esp.startOnce state.txMcastTimer 0}

-- A call is refused, or adds its packet to a queue that has room for it.
theorem transmit_cases (mem : Nat → UInt8) (garbage : Bool) (buffer : Buf) (state : DaemonState T) :
    awdlTransmit ip6AddrIsmulticast esp mem garbage buffer state = (.espErrNoMem,state) ∨
      state.next = none ∧ circularBufFull state.txQueueMulticast = false ∧ ∃ dstMac : EtherAddr,
        let bytes := dstMac.bytes ++ buffer
        awdlTransmit ip6AddrIsmulticast esp mem garbage buffer state =
            (.espOk .multicast ⟨state.heap.fresh,bytes⟩,withMulticast esp bytes state) ∨
          awdlTransmit ip6AddrIsmulticast esp mem garbage buffer state =
            (.espOk .unicast ⟨state.heap.fresh,bytes⟩,withUnicast esp bytes state) := by
  by_cases busy : (state.next.isSome || circularBufFull state.txQueueMulticast) = true
  · exact .inl (if_pos busy)
  · refine .inr ?_
    have answer : awdlTransmit ip6AddrIsmulticast esp mem garbage buffer state = _ := if_neg busy
    dsimp only at answer
    rw [transmitFrame_eq] at answer
    rw [Bool.not_eq_true,Bool.or_eq_false_iff,Option.isSome_eq_false_iff,Option.isNone_iff_eq_none] at busy
    refine ⟨busy.1,busy.2,transmitMac ip6AddrIsmulticast (In6Addr.ofBytes (buffer.drop 24)),?_⟩
    rw [answer]
    generalize (if ip6AddrIsmulticast (In6Addr.ofBytes (buffer.drop 24)) then true else garbage) = isMulticast
    cases isMulticast with
    | true => exact .inl rfl
    | false => exact .inr rfl

theorem pending_enter (queues : Traffic → List Packet) (traffic : Traffic) (packet : Packet) :
    (pending (Function.update queues traffic (queues traffic ++ [packet]))).Perm (packet :: pending queues) := by
  cases traffic with
  | unicast =>
    simp only [pending,Function.update_self,ne_eq,reduceCtorEq,not_false_eq_true,Function.update_of_ne,List.append_assoc]
    exact List.perm_middle
  | multicast =>
    simp only [pending,Function.update_self,ne_eq,reduceCtorEq,not_false_eq_true,Function.update_of_ne,
      ← List.append_assoc]
    exact List.perm_append_singleton _ _

theorem pending_leave (first : queues traffic = packet :: rest) :
    (pending queues).Perm (packet :: pending (Function.update queues traffic rest)) := by
  cases traffic with
  | unicast =>
    simp only [pending,Function.update_self,ne_eq,reduceCtorEq,not_false_eq_true,Function.update_of_ne,first]
    exact .refl _
  | multicast =>
    simp only [pending,Function.update_self,ne_eq,reduceCtorEq,not_false_eq_true,Function.update_of_ne,first]
    exact List.perm_middle

theorem enters (queued : Queued state queues) (traffic : Traffic) (dstMac : EtherAddr) (buffer : Buf)
    (next : DaemonState T) (heap : next.heap = state.heap.allocate (dstMac.bytes ++ buffer))
    (slot : next.next.toList = (Function.update queues traffic
      (queues traffic ++ [⟨state.heap.fresh,dstMac.bytes ++ buffer⟩]) .unicast).map Packet.buf)
    (ring : HoldsItems next.txQueueMulticast ((Function.update queues traffic
      (queues traffic ++ [⟨state.heap.fresh,dstMac.bytes ++ buffer⟩]) .multicast).map Packet.buf)) :
    Follows state queues (.espOk traffic ⟨state.heap.fresh,dstMac.bytes ++ buffer⟩) next := by
  have moved := pending_enter queues traffic ⟨state.heap.fresh,dstMac.bytes ++ buffer⟩
  refine ⟨_,.enter,⟨slot,ring,?_,?_⟩,?_⟩
  · rw [heap]
    exact (queued.owns.allocate _).perm moved.symm
  · intro packet member
    rcases List.mem_cons.mp (moved.mem_iff.mp member) with rfl | old
    · rw [List.length_append,EtherAddr.bytes_length]
      exact Nat.le_add_right _ _
    · exact queued.framed packet old
  · rw [heap]
    exact ⟨(List.append_nil _).symm,List.range_succ⟩

theorem leaves (queued : Queued state queues) (first : queues traffic = packet :: rest) :
    ∃ heap, bufFree state.heap packet.buf = some heap ∧ ∀ (receiver : HandedTo) (next : DaemonState T),
      next.heap = heap → next.next.toList = (Function.update queues traffic rest .unicast).map Packet.buf →
      HoldsItems next.txQueueMulticast ((Function.update queues traffic rest .multicast).map Packet.buf) →
      Follows state queues (.handed traffic packet receiver) next := by
  have moved := pending_leave first
  obtain ⟨heap,freed,owns,log,fresh⟩ := (queued.owns.perm moved).free
  refine ⟨heap,freed,fun receiver next same slot ring => ⟨_,.leave first,⟨slot,ring,?_,?_⟩,?_⟩⟩
  · rw [same]
    exact owns
  · exact fun other member => queued.framed other (moved.mem_iff.mpr (List.mem_cons_of_mem _ member))
  · rw [same]
    exact ⟨log,by rw [fresh]; exact (List.append_nil _).symm⟩

theorem transmit_follows (queued : Queued state queues) (mem : Nat → UInt8) (garbage : Bool) (buffer : Buf) :
    Follows state queues (awdlTransmit ip6AddrIsmulticast esp mem garbage buffer state).1
      (awdlTransmit ip6AddrIsmulticast esp mem garbage buffer state).2 := by
  rcases transmit_cases mem garbage buffer state with refused | ⟨vacant,room,dstMac,multicast | unicast⟩
  · rw [refused]
    exact stays queued rfl
  · rw [multicast]
    refine enters queued .multicast dstMac buffer _ rfl ?_ ?_
    · exact queued.slot
    · rw [Function.update_self,List.map_append]
      exact queued.ring.put room _
  · rw [unicast]
    have slot := queued.slot
    rw [vacant] at slot
    refine enters queued .unicast dstMac buffer _ rfl ?_ ?_
    · rw [Function.update_self,List.map_append,← slot]
      rfl
    · exact queued.ring

-- awdl_send_unicast always gets through, and at most the packet in the slot leaves.
theorem unicast_follows (queued : Queued state queues) (hash : EtherAddr → UInt64) (esp : EspTimer T) (now : UInt64) :
    ∃ output next, awdlSendUnicast hash esp now state = some (output,next) ∧ Follows state queues output next := by
  suffices sent : ∃ output delay next, sendNext hash now state = some (output,delay,next) ∧
      Follows state queues output next by
    obtain ⟨output,delay,next,ran,follows⟩ := sent
    refine ⟨output,_,by rw [awdlSendUnicast,ran]; rfl,follows.congr _ ?_ ?_ ?_⟩ <;> split <;> rfl
  cases busy : state.next with
  | none => exact ⟨.waits,0,state,by rw [sendNext,busy],stays queued rfl⟩
  | some buf =>
    have slot := queued.slot
    rw [busy] at slot
    obtain ⟨packet,only,rfl⟩ := List.map_eq_singleton_iff.mp slot.symm
    have member : packet ∈ pending queues := List.mem_append_left _ (by rw [only]; exact List.mem_singleton_self _)
    obtain ⟨dst,read⟩ : ∃ dst, readEtherAddr packet.bytes etherDstOffset = some dst :=
      ⟨_,if_neg (not_lt.mpr ((Nat.zero_add _).trans_le (queued.framed packet member)))⟩
    obtain ⟨heap,freed,left⟩ := leaves queued only
    have gone : ∀ receiver (awdlState : AwdlState) (ieee80211State : Ieee80211State),
        Follows state queues (.handed .unicast packet receiver) {state with
          heap := heap,next := none,awdlState := awdlState,ieee80211State := ieee80211State} := by
      intro receiver awdlState ieee80211State
      refine left receiver _ rfl ?_ ?_
      · rw [Function.update_self]
        rfl
      · exact queued.ring
    unfold sendNext
    rw [busy]
    simp only [(queued.owns.live packet).mpr member,read,release,sendPacket,freed,Option.map_some,Option.bind_some,
      Option.bind_eq_bind]
    split
    · exact ⟨_,_,_,rfl,gone _ _ _⟩
    · split
      · split
        · exact ⟨_,_,_,rfl,gone _ _ _⟩
        · split
          · exact ⟨_,_,_,rfl,stays queued rfl⟩
          · exact ⟨_,_,_,rfl,stays queued rfl⟩
      · exact ⟨_,_,_,rfl,gone _ _ _⟩

-- awdl_send_multicast always gets through, and at most the oldest packet leaves.
theorem multicast_follows (queued : Queued state queues) (esp : EspTimer T) (now : UInt64) :
    ∃ output next, awdlSendMulticast esp now state = some (output,next) ∧ Follows state queues output next := by
  suffices sent : ∃ output delay next, sendQueued now state = some (output,delay,next) ∧
      Follows state queues output next by
    obtain ⟨output,delay,next,ran,follows⟩ := sent
    refine ⟨output,_,by rw [awdlSendMulticast,ran]; rfl,follows.congr _ ?_ ?_ ?_⟩ <;> split <;> rfl
  unfold sendQueued
  dsimp only
  cases waiting : queues .multicast with
  | nil =>
    have empty : circularBufEmpty state.txQueueMulticast = true := queued.ring.empty_iff.mpr (by rw [waiting]; rfl)
    rw [empty]
    exact ⟨_,_,_,rfl,stays queued rfl⟩
  | cons packet rest =>
    have ring := queued.ring
    rw [waiting,List.map_cons] at ring
    have occupied : circularBufEmpty state.txQueueMulticast = false := ring.occupied
    obtain ⟨got,held⟩ := ring.get
    have member : packet ∈ pending queues := List.mem_append_right _ (by rw [waiting]; exact List.mem_cons_self)
    obtain ⟨heap,freed,left⟩ := leaves queued waiting
    rw [occupied]
    simp only [Bool.not_false,if_true,got,(queued.owns.live packet).mpr member,release,sendPacket,freed,
      Option.map_some,Option.bind_some,Option.bind_eq_bind]
    split
    · refine ⟨_,_,_,rfl,left _ _ rfl ?_ ?_⟩
      · exact queued.slot
      · rw [Function.update_self]
        exact held
    · split
      · exact ⟨_,_,_,rfl,stays queued rfl⟩
      · split
        · exact ⟨_,_,_,rfl,stays queued rfl⟩
        · exact ⟨_,_,_,rfl,stays queued rfl⟩

theorem step_follows (queued : Queued state queues) (step : TxStep hash ip6AddrIsmulticast esp state event output next) :
    Follows state queues output next := by
  cases step with
  | transmit => exact transmit_follows queued _ _ _
  | @sendUnicast now _ _ _ ran =>
    obtain ⟨_,_,answer,follows⟩ := unicast_follows
      (queued.congr {state with txTimer := esp.fire state.txTimer} rfl rfl rfl) hash esp now
    cases ran.symm.trans answer
    exact follows
  | @sendMulticast now _ _ _ ran =>
    obtain ⟨_,_,answer,follows⟩ := multicast_follows
      (queued.congr {state with txMcastTimer := esp.fire state.txMcastTimer} rfl rfl rfl) esp now
    cases ran.symm.trans answer
    exact follows
  | elsewhere => exact (stays queued rfl).congr _ rfl rfl rfl

-- Who gets a packet that leaves its queue: the host its own, a neighbour what is for it
-- and the air what is for all.
inductive Addressed (hash : EtherAddr → UInt64) (state : DaemonState T) (now : UInt64) (packet : Packet) :
    Traffic → HandedTo → Prop where
  | host (own : readEtherAddr packet.bytes etherDstOffset = some state.awdlState.selfAddress) :
      Addressed hash state now packet .unicast .hostSend
  | stranger (dst : readEtherAddr packet.bytes etherDstOffset = some addr)
      (foreign : addr ≠ state.awdlState.selfAddress)
      (unknown : ∀ peer, awdlPeerGet hash state.awdlState.peers.peers addr ≠ (.ok,some peer)) :
      Addressed hash state now packet .unicast .nonPeer
  | neighbour (dst : readEtherAddr packet.bytes etherDstOffset = some addr)
      (foreign : addr ≠ state.awdlState.selfAddress)
      (known : awdlPeerGet hash state.awdlState.peers.peers addr = (.ok,some peer))
      (window : awdlCanSendUnicastIn state.awdlState peer now awdlUnicastGuardTu = 0) :
      Addressed hash state now packet .unicast
        (.sendData (awdlSendData packet.bytes state.awdlState state.ieee80211State).1)
  | group (eaw : awdlIsMulticastEaw state.awdlState now = true)
      (window : awdlCanSendIn state.awdlState now awdlMulticastGuardTu = 0) :
      Addressed hash state now packet .multicast
        (.sendData (awdlSendData packet.bytes state.awdlState state.ieee80211State).1)

theorem sendNext_addressed (ran : sendNext hash now state = some (.handed traffic packet receiver,delay,next)) :
    Addressed hash state now packet traffic receiver := by
  unfold sendNext at ran
  split at ran
  · cases ran
  · obtain ⟨bytes,_,ran⟩ := Option.bind_eq_some_iff.mp ran
    obtain ⟨dst,read,ran⟩ := Option.bind_eq_some_iff.mp ran
    split at ran
    · rename_i own
      obtain ⟨_,_,same⟩ := Option.map_eq_some_iff.mp ran
      cases same
      exact .host (by rw [← own]; exact read)
    · rename_i foreign
      split at ran
      · rename_i known
        dsimp only at ran
        split at ran
        · rename_i window
          obtain ⟨_,_,same⟩ := Option.map_eq_some_iff.mp ran
          cases same
          exact .neighbour read foreign known window
        · split at ran <;> cases ran
      · rename_i unknown
        obtain ⟨_,_,same⟩ := Option.map_eq_some_iff.mp ran
        cases same
        exact .stranger read foreign unknown

theorem sendQueued_addressed (hash : EtherAddr → UInt64)
    (ran : sendQueued now state = some (.handed traffic packet receiver,delay,next)) :
    Addressed hash state now packet traffic receiver := by
  unfold sendQueued at ran
  dsimp only at ran
  split at ran
  · split at ran
    · rename_i opens
      split at ran
      · cases ran
      · obtain ⟨bytes,_,ran⟩ := Option.bind_eq_some_iff.mp ran
        obtain ⟨_,_,same⟩ := Option.map_eq_some_iff.mp ran
        cases same
        exact .group opens.1 opens.2
    · split at ran
      · cases ran
      · split at ran <;> cases ran
  · cases ran

theorem transmit_takes (mem : Nat → UInt8) (garbage : Bool) (buffer : Buf) (state : DaemonState T) :
    (awdlTransmit ip6AddrIsmulticast esp mem garbage buffer state).1 ≠ .handed traffic packet receiver := by
  rcases @transmit_cases ip6AddrIsmulticast T esp mem garbage buffer state with
    refused | ⟨_,_,dstMac,multicast | unicast⟩
  · rw [refused]
    exact TxOutput.noConfusion
  · rw [multicast]
    exact TxOutput.noConfusion
  · rw [unicast]
    exact TxOutput.noConfusion

theorem handed_addressed
    (step : TxStep hash ip6AddrIsmulticast esp state event (.handed traffic packet receiver) next) :
    ∃ now, Addressed hash state now packet traffic receiver := by
  generalize output : TxOutput.handed traffic packet receiver = handed at step
  cases step with
  | transmit => exact absurd output.symm (transmit_takes _ _ _ _)
  | @sendUnicast now _ _ _ ran =>
    cases output
    obtain ⟨⟨_,_,_⟩,sent,same⟩ := Option.map_eq_some_iff.mp ran
    cases same
    exact ⟨now,by cases sendNext_addressed sent <;> constructor <;> assumption⟩
  | @sendMulticast now _ _ _ ran =>
    cases output
    obtain ⟨⟨_,_,_⟩,sent,same⟩ := Option.map_eq_some_iff.mp ran
    cases same
    exact ⟨now,by cases sendQueued_addressed hash sent <;> constructor <;> assumption⟩
  | elsewhere => cases output

theorem start_queued (awdlState : AwdlState) (ieee80211State : Ieee80211State) (mem : CircularBuf Nat) :
    Queued (daemonStart esp awdlState ieee80211State mem) fun _ => [] where
  slot := rfl
  ring := .init (by decide) mem
  owns := ⟨fun packet => by simp [pending,daemonStart,awdlSchedule,Heap.empty],List.nodup_nil,by simp [pending]⟩
  framed := by simp [pending]

def waiting (state : DaemonState T) : Traffic → List Nat
  | .unicast => state.next.toList
  | .multicast => circularBufItems state.txQueueMulticast

theorem waiting_eq (queued : Queued state queues) (traffic : Traffic) :
    waiting state traffic = (queues traffic).map Packet.buf := by
  cases traffic with
  | unicast => exact queued.slot
  | multicast => exact queued.ring.items_eq

theorem waiting_packets (queued : Queued state queues) (traffic : Traffic) :
    (waiting state traffic).map state.heap.packetAt = (queues traffic).map some := by
  rw [waiting_eq queued,List.map_map]
  apply List.map_congr_left
  intro packet inside
  have member : packet ∈ pending queues := by
    cases traffic with
    | unicast => exact List.mem_append_left _ inside
    | multicast => exact List.mem_append_right _ inside
  rw [Function.comp_apply,Heap.packetAt,(queued.owns.live packet).mpr member,Option.map_some]

theorem waiting_live (queued : Queued state queues) (buf : Nat) :
    (state.heap.live buf).isSome = true ↔ buf ∈ waiting state .unicast ++ waiting state .multicast := by
  rw [waiting_eq queued,waiting_eq queued,← List.map_append,Option.isSome_iff_exists,List.mem_map]
  constructor
  · rintro ⟨bytes,found⟩
    exact ⟨⟨buf,bytes⟩,(queued.owns.live ⟨buf,bytes⟩).mp found,rfl⟩
  · rintro ⟨packet,member,rfl⟩
    exact ⟨_,(queued.owns.live packet).mpr member⟩

section Runs
variable (hash ip6AddrIsmulticast esp)

-- Of each kind, the accepted packets are those handed on and behind them those that
-- wait, in order and with their content. No callback can fail on a buffer.
structure Conserved (trace : List (TxEvent × TxOutput)) (state : DaemonState T) : Prop where
  ordered : ∀ traffic, (ofQueue traffic (arrivals TxOutput.move trace)).map some =
    (ofQueue traffic (departures TxOutput.move trace)).map some ++ (waiting state traffic).map state.heap.packetAt
  distinct : ((arrivals TxOutput.move trace).map fun entry => entry.2.buf).Nodup
  carried : ∀ entry ∈ trace, ∀ mem garbage buffer traffic packet, entry.1 = .transmit mem garbage buffer →
    entry.2 = .espOk traffic packet → packet.bytes.drop etherLength = buffer
  freed : state.heap.freed = (departures TxOutput.move trace).map fun entry => entry.2.buf
  allocated : ∀ buf, (state.heap.live buf).isSome = true ↔ buf ∈ waiting state .unicast ++ waiting state .multicast
  unicast : ∀ now, ∃ output next, TxStep hash ip6AddrIsmulticast esp state (.sendUnicast now) output next
  multicast : ∀ now, ∃ output next, TxStep hash ip6AddrIsmulticast esp state (.sendMulticast now) output next

end Runs

theorem step_carries (step : TxStep hash ip6AddrIsmulticast esp state event output next) :
    ∀ mem garbage buffer traffic packet, event = .transmit mem garbage buffer → output = .espOk traffic packet →
      packet.bytes.drop etherLength = buffer := by
  rintro mem garbage buffer traffic packet rfl accepted
  cases step with
  | transmit =>
    rcases @transmit_cases ip6AddrIsmulticast T esp mem garbage buffer state with
      refused | ⟨_,_,dstMac,multicast | unicast⟩
    · rw [refused] at accepted
      cases accepted
    · rw [multicast] at accepted
      cases accepted
      exact List.drop_left' dstMac.bytes_length
    · rw [unicast] at accepted
      cases accepted
      exact List.drop_left' dstMac.bytes_length

section Conservation
variable {awdlState : AwdlState} {ieee80211State : Ieee80211State} {mem : CircularBuf Nat}
  {trace : List (TxEvent × TxOutput)} {state : DaemonState T}
  (path : Runs (TxStep hash ip6AddrIsmulticast esp) (daemonStart esp awdlState ieee80211State mem) trace state)
include path

-- The driver refines two queues that are entered at the end and left at the front.
theorem queues_refined : ∃ queues, Runs (fun queues (_ : TxEvent) (output : TxOutput) next =>
    Moves queues output.move next) (fun _ => []) trace queues ∧ Queued state queues := by
  refine runs_simulated Queued ?_ (start_queued awdlState ieee80211State mem) path
  intro _ _ _ _ _ queued step
  obtain ⟨after,moves,left,_⟩ := step_follows queued step
  exact ⟨after,moves,left⟩

theorem queues_guarded : Runs (fun (state : DaemonState T) event output next =>
    (∃ queues, Queued state queues) ∧ TxStep hash ip6AddrIsmulticast esp state event output next)
    (daemonStart esp awdlState ieee80211State mem) trace state := by
  refine runs_guarded ?_ ⟨_,start_queued awdlState ieee80211State mem⟩ path
  rintro _ _ _ _ ⟨_,queued⟩ step
  obtain ⟨after,_,left,_⟩ := step_follows queued step
  exact ⟨after,left⟩

theorem packets_numbered : (arrivals TxOutput.move trace).map (fun entry => entry.2.buf) =
    List.range state.heap.fresh := by
  rw [arrivals,List.map_flatMap]
  refine (runs_logged (fun state : DaemonState T => List.range state.heap.fresh)
    (fun output : TxOutput => output.move.arrival.map fun entry => entry.2.buf) ?_ (queues_guarded path)).symm
  rintro _ _ _ _ ⟨⟨_,queued⟩,step⟩
  obtain ⟨_,_,_,counts⟩ := step_follows queued step
  exact counts.made

theorem packets_freed : state.heap.freed = (departures TxOutput.move trace).map fun entry => entry.2.buf := by
  rw [departures,List.map_flatMap]
  refine runs_logged (fun state : DaemonState T => state.heap.freed)
    (fun output : TxOutput => output.move.departure.map fun entry => entry.2.buf) ?_ (queues_guarded path)
  rintro _ _ _ _ ⟨⟨_,queued⟩,step⟩
  obtain ⟨_,_,_,counts⟩ := step_follows queued step
  exact counts.freed

theorem queues_conserve : Conserved hash ip6AddrIsmulticast esp trace state := by
  obtain ⟨queues,moved,queued⟩ := queues_refined path
  refine ⟨?_,?_,runs_entries (fun _ _ _ _ step => step_carries step) path,packets_freed path,waiting_live queued,?_,?_⟩
  · intro traffic
    rw [waiting_packets queued,← List.map_append]
    exact congrArg _ (conserved moved traffic)
  · rw [packets_numbered path]
    exact List.nodup_range
  · intro now
    obtain ⟨output,next,ran,_⟩ := unicast_follows (queued.congr {state with txTimer := esp.fire state.txTimer} rfl rfl rfl)
      hash esp now
    exact ⟨output,next,.sendUnicast ran⟩
  · intro now
    obtain ⟨output,next,ran,_⟩ := multicast_follows
      (queued.congr {state with txMcastTimer := esp.fire state.txMcastTimer} rfl rfl rfl) esp now
    exact ⟨output,next,.sendMulticast ran⟩

end Conservation

def plainTimer : EspTimer (Option UInt64) := ⟨none,fun timer usec => some (timer.getD usec),fun _ => none,Option.isSome⟩

def groupAddr (addr : In6Addr) : Bool := decide ((List.ofFn addr.s6Addr).headD 0 = 0xff)

def toGroup : Buf := List.replicate 24 0 ++ [0xff,0x02,0,0,0,0,0,0,0,0,0,0,0,0,0,0xfb]
def toStranger : Buf := List.replicate 24 0 ++ [0xfe,0x80,0,0,0,0,0,0,0,0,0,0xff,0xfe,0,0,3]

def quietNode : DaemonState (Option UInt64) :=
  daemonStart plainTimer (awdlInitState default [] ⟨2,0,0,0,0,1⟩ chanOpclass6 0) ieee80211InitState
    ⟨fun _ => 0,0,0,0,false⟩

-- One packet waits for its window, one finds that its receiver is not a peer.
theorem quiet_run : ∃ trace state, Runs (TxStep (fun _ => 0) groupAddr plainTimer) quietNode trace state ∧
    trace.map (fun entry => entry.2) = [
      .espOk .multicast ⟨0,[0x33,0x33,0x80,0,0,0xfb] ++ toGroup⟩,
      .espOk .unicast ⟨1,[2,0,0,0,0,3] ++ toStranger⟩,
      .handed .unicast ⟨1,[2,0,0,0,0,3] ++ toStranger⟩ .nonPeer] ∧
    waiting state .multicast = [0] := by
  let first := awdlTransmit groupAddr plainTimer (fun _ => 0) false toGroup quietNode
  let second := awdlTransmit groupAddr plainTimer (fun _ => 0) false toStranger first.2
  have dropped : (awdlSendUnicast (fun _ => 0) plainTimer 0
      {second.2 with txTimer := plainTimer.fire second.2.txTimer}).map (fun answer => (answer.1,waiting answer.2 .multicast)) =
        some (.handed .unicast ⟨1,[2,0,0,0,0,3] ++ toStranger⟩ .nonPeer,[0]) := by decide +kernel
  obtain ⟨⟨output,left⟩,sent,same⟩ := Option.map_eq_some_iff.mp dropped
  obtain ⟨rfl,remains⟩ := Prod.mk.inj same
  have accepted : first.1 = .espOk .multicast ⟨0,[0x33,0x33,0x80,0,0,0xfb] ++ toGroup⟩ ∧
      second.1 = .espOk .unicast ⟨1,[2,0,0,0,0,3] ++ toStranger⟩ := by decide +kernel
  refine ⟨_,_,.cons (.transmit (by decide) (by decide)) (.cons (.transmit (by decide) (by decide))
    (.cons (.sendUnicast sent) .nil)),?_,remains⟩
  rw [List.map_cons,List.map_cons,List.map_singleton]
  exact congrArg₂ _ accepted.1 (congrArg₂ _ accepted.2 rfl)

theorem queues_conserve_quiet : ∃ trace state,
    Runs (TxStep (fun _ => 0) groupAddr plainTimer) quietNode trace state ∧ waiting state .multicast = [0] ∧ Conserved (fun _ => 0) groupAddr plainTimer trace state := by
  obtain ⟨trace,state,path,_,left⟩ := quiet_run
  exact ⟨trace,state,path,left,queues_conserve path⟩

end EspOwl.TransmitQueues
