import EspOwl.Classification
import EspOwl.Delivery
import EspOwl.NodeHistory

namespace EspOwl.PacketPath
open Histories Fifos TransmitQueues Dispatch DataFrames Delivery NodeHistory

variable {T : Type}

-- A packet that awdl_transmit took for its queue.
structure Accepted where
  sender : EtherAddr
  traffic : Traffic
  buffer : Buf

-- A data frame on the air, and the packet that it was made of.
structure Flight where
  sender : EtherAddr
  traffic : Traffic
  packet : Packet
  frame : Buf

-- What esp_netif_receive got out of a frame.
structure Delivered where
  receiver : EtherAddr
  flight : Flight
  payload : Buf

-- Any number of nodes. What was accepted and delivered so far, and how much of the air
-- each of them has passed, are history variables.
structure DataNetwork (T : Type) where
  station : EtherAddr → DaemonState T
  accepted : List Accepted
  air : List Flight
  passed : EtherAddr → Nat
  delivered : List Delivered

def DataNetwork.change (net : DataNetwork T) (addr : EtherAddr) (state : DaemonState T) : DataNetwork T :=
  {net with station := Function.update net.station addr state}

-- IP6_MIN_MTU_LENGTH
def awdlMtu : Nat := 1280

def Offered : TxEvent → Prop
  | .transmit _ _ buffer => buffer.length ≤ awdlMtu
  | .sendUnicast _ => True
  | .sendMulticast _ => True
  | .elsewhere _ _ => False

def takenIn (addr : EtherAddr) : TxEvent → TxOutput → List Accepted
  | .transmit _ _ buffer,.espOk traffic _ => [⟨addr,traffic,buffer⟩]
  | _,_ => []

def sentOut (addr : EtherAddr) : TxOutput → List Flight
  | .handed traffic packet (.sendData (some frame)) => [⟨addr,traffic,packet,frame⟩]
  | _ => []

@[simp] theorem sentOut_espOk (addr : EtherAddr) : sentOut addr (.espOk traffic packet) = [] := rfl
@[simp] theorem sentOut_waits (addr : EtherAddr) : sentOut addr .waits = [] := rfl
@[simp] theorem takenIn_sendUnicast (addr : EtherAddr) (output : TxOutput) :
    takenIn addr (.sendUnicast now) output = [] := by cases output <;> rfl
@[simp] theorem takenIn_sendMulticast (addr : EtherAddr) (output : TxOutput) :
    takenIn addr (.sendMulticast now) output = [] := by cases output <;> rfl

theorem sentOut_sender (flying : flight ∈ sentOut addr output) : flight.sender = addr := by
  unfold sentOut at flying
  split at flying
  · rw [List.mem_singleton.mp flying]
  · cases flying

theorem takenIn_sender (taken : entry ∈ takenIn addr event output) : entry.sender = addr := by
  unfold takenIn at taken
  split at taken
  · rw [List.mem_singleton.mp taken]
  · cases taken

inductive NetEvent where
  | driver (addr : EtherAddr) (event : TxEvent)
  | hear (addr : EtherAddr) (env : Ambient) (netif : Bool) (radio fcs : List UInt8) (now : UInt64) (index : Nat)
  | elsewhere (addr : EtherAddr) (event : Event) (ieee80211State : Ieee80211State)

section Steps
variable (hash : EtherAddr → UInt64) (ip6AddrIsmulticast : In6Addr → Bool) (esp : EspTimer T) (rxCtrlLen : Nat)

-- Data frames come from the nodes and are heard by some of them, in any order, again or
-- not at all. All else that changes a node delivers nothing: action frames of anyone, its
-- timers. ieee80211_state.fcs is never written.
inductive NetStep : DataNetwork T → NetEvent → Unit → DataNetwork T → Prop where
  | driver (offered : Offered event) (ran : TxStep hash ip6AddrIsmulticast esp (net.station addr) event output next) :
      NetStep net (.driver addr event) () {net.change addr next with
        accepted := net.accepted ++ takenIn addr event output
        air := net.air ++ sentOut addr output}
  | hear (flying : net.air[index]? = some flight) (check : fcs.length = 4)
      (ran : awdlReceiveFrame hash env radio.length netif (radio ++ flight.frame ++ fcs) now
        (net.station addr).awdlState = some (after,packets)) :
      NetStep net (.hear addr env netif radio fcs now index) ()
        {net.change addr {net.station addr with awdlState := after} with
          passed := Function.update net.passed addr (index + 1)
          delivered := net.delivered ++ packets.map (Delivered.mk addr flight)}
  | elsewhere (ran : NodeStep hash rxCtrlLen (net.station addr).awdlState event [] next)
      (plain : ieee80211State.fcs = (net.station addr).ieee80211State.fcs) :
      NetStep net (.elsewhere addr event ieee80211State) ()
        (net.change addr {net.station addr with awdlState := next,ieee80211State := ieee80211State})

-- Every node as it has booted, with nothing in its queues.
structure Started (net : DataNetwork T) : Prop where
  booted : ∀ addr, ∃ state ring, Booted addr state ∧ net.station addr = daemonStart esp state ieee80211InitState ring
  accepted : net.accepted = []
  air : net.air = []
  passed : net.passed = fun _ => 0
  delivered : net.delivered = []

end Steps

variable {hash : EtherAddr → UInt64} {ip6AddrIsmulticast : In6Addr → Bool} {esp : EspTimer T} {rxCtrlLen : Nat}

section Driver

-- What a callback does besides moving a packet.
inductive Sends (state next : DaemonState T) : TxOutput → Prop where
  | sent (after : next.awdlState = countTx (awdlSendData packet.bytes state.awdlState state.ieee80211State).2.1 traffic)
      (numbered : next.ieee80211State = (awdlSendData packet.bytes state.awdlState state.ieee80211State).2.2) :
      Sends state next
        (.handed traffic packet (.sendData (awdlSendData packet.bytes state.awdlState state.ieee80211State).1))
  | dropped (silent : ∀ addr, sentOut addr (.handed traffic packet receiver) = [])
      (after : next.awdlState = state.awdlState) (numbered : next.ieee80211State = state.ieee80211State) :
      Sends state next (.handed traffic packet receiver)
  | waits (after : next.awdlState = state.awdlState) (numbered : next.ieee80211State = state.ieee80211State) :
      Sends state next .waits

theorem release_sends (ran : release traffic packet receiver state = some (output,delay,next)) :
    output = .handed traffic packet receiver ∧ next.awdlState = state.awdlState ∧
      next.ieee80211State = state.ieee80211State := by
  obtain ⟨heap,_,same⟩ := Option.map_eq_some_iff.mp ran
  cases same
  exact ⟨rfl,rfl,rfl⟩

theorem release_dropped (ran : release traffic packet receiver state = some (output,delay,next))
    (kind : receiver = .hostSend ∨ receiver = .nonPeer) (awdlState : state.awdlState = before.awdlState)
    (ieee80211State : state.ieee80211State = before.ieee80211State) : Sends before next output := by
  obtain ⟨rfl,after,numbered⟩ := release_sends ran
  refine .dropped (fun _ => ?_) (after.trans awdlState) (numbered.trans ieee80211State)
  rcases kind with rfl | rfl <;> rfl

theorem packet_sends (ran : sendPacket traffic packet state = some (output,delay,next))
    (awdlState : state.awdlState = before.awdlState) (ieee80211State : state.ieee80211State = before.ieee80211State) :
    Sends before next output := by
  obtain ⟨rfl,after,numbered⟩ := release_sends ran
  rw [awdlState,ieee80211State] at after numbered ⊢
  exact .sent after numbered

theorem next_sends (ran : sendNext hash now state = some (output,delay,next)) : Sends state next output := by
  unfold sendNext at ran
  split at ran
  · cases ran
    exact .waits rfl rfl
  · obtain ⟨bytes,_,ran⟩ := Option.bind_eq_some_iff.mp ran
    obtain ⟨dst,_,ran⟩ := Option.bind_eq_some_iff.mp ran
    split at ran
    · exact release_dropped ran (.inl rfl) rfl rfl
    · split at ran
      · dsimp only at ran
        split at ran
        · exact packet_sends ran rfl rfl
        · split at ran <;> cases ran <;> exact .waits rfl rfl
      · exact release_dropped ran (.inr rfl) rfl rfl

theorem queued_sends (ran : sendQueued now state = some (output,delay,next)) : Sends state next output := by
  unfold sendQueued at ran
  dsimp only at ran
  split at ran
  · split at ran
    · split at ran
      · cases ran
      · obtain ⟨bytes,_,ran⟩ := Option.bind_eq_some_iff.mp ran
        exact packet_sends ran rfl rfl
    · split at ran
      · cases ran
        exact .waits rfl rfl
      · split at ran <;> cases ran <;> exact .waits rfl rfl
  · cases ran
    exact .waits rfl rfl

theorem Sends.congr (sends : Sends state next output) (before after : DaemonState T)
    (own : before.awdlState = state.awdlState) (ieee : before.ieee80211State = state.ieee80211State)
    (left : after.awdlState = next.awdlState) (numbered : after.ieee80211State = next.ieee80211State) :
    Sends before after output := by
  cases sends with
  | sent same counted =>
    rw [← own,← ieee] at same counted ⊢
    exact .sent (left.trans same) (numbered.trans counted)
  | dropped silent same counted =>
    exact .dropped silent (left.trans (same.trans own.symm)) (numbered.trans (counted.trans ieee.symm))
  | waits same counted => exact .waits (left.trans (same.trans own.symm)) (numbered.trans (counted.trans ieee.symm))

theorem unicast_sends (ran : awdlSendUnicast hash esp now {state with txTimer := timer} = some (output,next)) :
    Sends state next output := by
  obtain ⟨⟨_,delay,left⟩,sent,same⟩ := Option.map_eq_some_iff.mp ran
  cases same
  refine (next_sends sent).congr _ _ rfl rfl ?_ ?_ <;> split <;> rfl

theorem multicast_sends (ran : awdlSendMulticast esp now {state with txMcastTimer := timer} = some (output,next)) :
    Sends state next output := by
  obtain ⟨⟨_,delay,left⟩,sent,same⟩ := Option.map_eq_some_iff.mp ran
  cases same
  refine (queued_sends sent).congr _ _ rfl rfl ?_ ?_ <;> split <;> rfl

end Driver

section Frames

-- A packet of a queue, without the destination in front of it.
def content (packet : Packet) : Buf := packet.bytes.drop etherLength

def destination (ip6AddrIsmulticast : In6Addr → Bool) (buffer : Buf) : EtherAddr :=
  transmitMac ip6AddrIsmulticast (.ofBytes (buffer.drop 24))

structure Made (ip6AddrIsmulticast : In6Addr → Bool) (packet : Packet) : Prop where
  bytes : packet.bytes = (destination ip6AddrIsmulticast (content packet)).bytes ++ content packet
  mtu : (content packet).length ≤ awdlMtu

theorem transmit_taken (mem : Nat → UInt8) (garbage : Bool) (buffer : Buf) (state : DaemonState T) :
    (awdlTransmit ip6AddrIsmulticast esp mem garbage buffer state).2.awdlState = state.awdlState ∧
    (awdlTransmit ip6AddrIsmulticast esp mem garbage buffer state).2.ieee80211State = state.ieee80211State ∧
    ((awdlTransmit ip6AddrIsmulticast esp mem garbage buffer state).1 = .espErrNoMem ∨
      ∃ traffic, (awdlTransmit ip6AddrIsmulticast esp mem garbage buffer state).1 =
        .espOk traffic ⟨state.heap.fresh,(destination ip6AddrIsmulticast buffer).bytes ++ buffer⟩) := by
  unfold awdlTransmit
  split
  · exact ⟨rfl,rfl,.inl rfl⟩
  · dsimp only
    rw [transmitFrame_eq]
    cases (if ip6AddrIsmulticast (In6Addr.ofBytes (buffer.drop 24)) then true else garbage) with
    | true => exact ⟨rfl,rfl,.inr ⟨.multicast,rfl⟩⟩
    | false => exact ⟨rfl,rfl,.inr ⟨.unicast,rfl⟩⟩

theorem content_made (buf : Nat) (mac : EtherAddr) (buffer : Buf) : content ⟨buf,mac.bytes ++ buffer⟩ = buffer :=
  List.drop_left' mac.bytes_length

theorem sendData_eq (mac : EtherAddr) (buffer : Buf) (state : AwdlState) (ieee80211State : Ieee80211State) :
    awdlSendData (mac.bytes ++ buffer) state ieee80211State =
      let sent := awdlInitFullDataFrame state.selfAddress mac buffer state ieee80211State
      (some sent.1,{sent.2.1 with stats.txData := sent.2.1.stats.txData + 1},sent.2.2) := by
  have first : readEtherAddr (mac.bytes ++ buffer) etherDstOffset = some mac := readEtherAddr_at [] 0 rfl mac buffer
  have rest : bufStrip (mac.bytes ++ buffer) etherLength = some buffer := strip_append mac.bytes buffer
  rw [awdlSendData,first,checkedRead_some,rest]
  rfl

-- A flight as the receiver may rely on it.
structure Airborne (ip6AddrIsmulticast : In6Addr → Bool) (flight : Flight) : Prop where
  made : Made ip6AddrIsmulticast flight.packet
  built : ∃ sender ieee80211State, ieee80211State.fcs = false ∧ flight.frame = (awdlInitFullDataFrame flight.sender
    (destination ip6AddrIsmulticast (content flight.packet)) (content flight.packet) sender ieee80211State).1

-- One reception of a node's data frame: nothing is delivered, or what the length field of
-- the packet holds of the payload.
theorem data_heard (plain : ieee80211State.fcs = false) (check : fcs.length = 4) (fits : payload.length ≤ 1503)
    (ran : awdlReceiveFrame hash env radio.length netif
      (radio ++ (awdlInitFullDataFrame src dst payload sender ieee80211State).1 ++ fcs) now receiver =
        some (after,packets)) :
    packets = [] ∨ packets = [payload.take (payload.length % 256)] ∧ src ≠ receiver.selfAddress ∧
      (dst = receiver.selfAddress ∨ dst.isGroup = true) := by
  obtain ⟨hdr,data,own,sent,rfl,rfl,kind,width⟩ := data_frame_bytes src dst payload sender ieee80211State
  rw [plain,if_neg (by decide)] at width
  obtain rfl := List.eq_nil_of_length_eq_zero width
  have whole : radio ++ (hdr.bytes ++ dataBody awdlOui data (payload ++ [])) ++ fcs =
      radio ++ (hdr.bytes ++ dataBody awdlOui data (payload ++ fcs)) := by
    simp only [dataBody,List.append_assoc,List.append_nil]
  rw [sent,whole] at ran
  by_cases own : hdr.addr2 = receiver.selfAddress
  · rw [awdlReceiveFrame,rx_follows,route_sent,if_pos own] at ran
    cases ran
    exact .inl rfl
  · by_cases away : !hdr.addr1.isGroup ∧ hdr.addr1 ≠ receiver.selfAddress
    · rw [awdlReceiveFrame,rx_follows,route_sent,if_neg own,if_pos away] at ran
      cases ran
      exact .inl rfl
    · have addressed : hdr.addr1 = receiver.selfAddress ∨ hdr.addr1.isGroup = true := by
        by_cases here : hdr.addr1 = receiver.selfAddress
        · exact .inl here
        · exact .inr (by simpa [here] using away)
      cases present : netif with
      | false =>
        rw [present,awdlReceiveFrame] at ran
        split at ran
        · cases ran
        · split at ran <;> cases ran <;> exact .inl rfl
      | true =>
        cases known : knownPeer hash receiver hdr.addr2 with
        | true =>
          have delivered := data_received env netif radio hdr data payload fcs now receiver present kind known
            addressed check fits own
          rw [ran,Option.map_some,Option.some.injEq] at delivered
          exact .inr ⟨delivered,own,addressed⟩
        | false =>
          have way : route radio.length receiver.selfAddress
              (radio ++ (hdr.bytes ++ dataBody awdlOui data (payload ++ fcs))) =
                .data hdr.addr2 hdr.addr1 (dataBody awdlOui data (payload ++ fcs)) := by
            rw [route_sent,if_neg own,if_neg away,routeBody,kind]
            rfl
          rw [awdlReceiveFrame,rx_follows,way] at ran
          simp only [follow,RxRun.ofData,rxData_unknown _ _ _ known] at ran
          cases ran
          exact .inl rfl

theorem receive_step (ran : awdlReceiveFrame hash env rxCtrlLen netif frame now state = some (after,packets)) :
    ∃ out, NodeStep hash rxCtrlLen state (.receive env frame now) out after := by
  unfold awdlReceiveFrame at ran
  split at ran
  · cases ran
  · rename_i run received
    split at ran <;> cases ran <;> exact ⟨_,.receive received⟩

end Frames

section Nodes
variable {sent sooner taken : Traffic → List Buf}

def takenBy (accepted : List Accepted) (addr : EtherAddr) (traffic : Traffic) : List Buf :=
  (accepted.filter fun entry => entry.sender = addr ∧ entry.traffic = traffic).map Accepted.buffer

def sentBy (air : List Flight) (addr : EtherAddr) (traffic : Traffic) : List Buf :=
  (air.filter fun flight => flight.sender = addr ∧ flight.traffic = traffic).map fun flight => content flight.packet

theorem takenBy_append (before : List Accepted) (addr : EtherAddr) (traffic other : Traffic) (buffer : Buf) :
    takenBy (before ++ [⟨addr,traffic,buffer⟩]) addr other =
      takenBy before addr other ++ if traffic = other then [buffer] else [] := by
  rw [takenBy,List.filter_append,List.map_append]
  by_cases same : traffic = other <;> simp [takenBy,same]

theorem sentBy_append (before : List Flight) (addr : EtherAddr) (traffic other : Traffic) (packet : Packet) (frame : Buf) :
    sentBy (before ++ [⟨addr,traffic,packet,frame⟩]) addr other =
      sentBy before addr other ++ if traffic = other then [content packet] else [] := by
  rw [sentBy,List.filter_append,List.map_append]
  by_cases same : traffic = other <;> simp [sentBy,same]

-- What was sent and what waits are, in this order, among what was taken.
def Flows (queues : Traffic → List Packet) (sent taken : Traffic → List Buf) : Prop :=
  ∀ traffic, (sent traffic ++ (queues traffic).map content).Sublist (taken traffic)

theorem Flows.enter (flows : Flows queues sent taken) (traffic : Traffic) (packet : Packet) :
    Flows (Function.update queues traffic (queues traffic ++ [packet])) sent
      fun other => taken other ++ if traffic = other then [content packet] else [] := by
  intro other
  by_cases same : traffic = other
  · subst same
    dsimp only
    rw [Function.update_self,if_pos rfl,List.map_append,List.map_singleton,← List.append_assoc]
    exact (flows traffic).append (.refl _)
  · dsimp only
    rw [Function.update_of_ne (Ne.symm same),if_neg same,List.append_nil]
    exact flows other

theorem Flows.leave (flows : Flows queues sent taken) (first : queues traffic = packet :: rest) :
    Flows (Function.update queues traffic rest)
      (fun other => sent other ++ if traffic = other then [content packet] else []) taken := by
  intro other
  have before := flows other
  by_cases same : traffic = other
  · subst same
    dsimp only
    rw [first,List.map_cons] at before
    rw [Function.update_self,if_pos rfl,List.append_assoc]
    exact before
  · dsimp only
    rw [Function.update_of_ne (Ne.symm same),if_neg same,List.append_nil]
    exact before

theorem Flows.fewer (flows : Flows queues sent taken) (less : ∀ traffic, (sooner traffic).Sublist (sent traffic)) :
    Flows queues sooner taken :=
  fun traffic => ((less traffic).append (.refl _)).trans (flows traffic)

-- The invariant of one node.
structure Node (hash : EtherAddr → UInt64) (ip6AddrIsmulticast : In6Addr → Bool) (addr : EtherAddr)
    (sent taken : Traffic → List Buf) (state : DaemonState T) : Prop where
  unlisted : SelfUnlisted hash addr state.awdlState
  plain : state.ieee80211State.fcs = false
  queues : ∃ queues, Queued state queues ∧ (∀ packet ∈ pending queues, Made ip6AddrIsmulticast packet) ∧
    Flows queues sent taken

theorem transmit_node (node : Node hash ip6AddrIsmulticast addr (sentBy air addr) (takenBy accepted addr) state)
    (mem : Nat → UInt8) (garbage : Bool) (buffer : Buf) (mtu : buffer.length ≤ awdlMtu) :
    let ran := awdlTransmit ip6AddrIsmulticast esp mem garbage buffer state
    Node hash ip6AddrIsmulticast addr (sentBy (air ++ sentOut addr ran.1) addr)
      (takenBy (accepted ++ takenIn addr (.transmit mem garbage buffer) ran.1) addr) ran.2 ∧ sentOut addr ran.1 = [] := by
  intro ran
  obtain ⟨queues,queued,made,flows⟩ := node.queues
  obtain ⟨own,ieee,answer⟩ : ran.2.awdlState = _ ∧ ran.2.ieee80211State = _ ∧ _ :=
    transmit_taken mem garbage buffer state
  have unlisted : SelfUnlisted hash addr ran.2.awdlState := by rw [own]; exact node.unlisted
  have plain : ran.2.ieee80211State.fcs = false := by rw [ieee]; exact node.plain
  obtain ⟨after,moves,left,_⟩ : Follows state queues ran.1 ran.2 := transmit_follows queued mem garbage buffer
  rcases answer with refused | ⟨traffic,taken⟩
  · rw [refused] at moves
    cases moves
    change ran.1 = _ at refused
    rw [refused]
    refine ⟨⟨unlisted,plain,queues,left,made,?_⟩,rfl⟩
    simp only [sentOut,takenIn,List.append_nil]
    exact flows
  · rw [taken] at moves
    cases moves
    change ran.1 = _ at taken
    rw [taken]
    refine ⟨⟨unlisted,plain,_,left,?_,?_⟩,rfl⟩
    · intro packet member
      rcases List.mem_cons.mp ((pending_enter queues traffic _).mem_iff.mp member) with rfl | old
      · have inside := content_made state.heap.fresh (destination ip6AddrIsmulticast buffer) buffer
        exact ⟨by rw [inside],by rw [inside]; exact mtu⟩
      · exact made packet old
    · intro other
      have entered := flows.enter traffic ⟨state.heap.fresh,(destination ip6AddrIsmulticast buffer).bytes ++ buffer⟩ other
      rw [content_made] at entered
      rw [sentOut_espOk,List.append_nil,takenIn,takenBy_append]
      exact entered

theorem callback_node (node : Node hash ip6AddrIsmulticast addr (sentBy air addr) (takenBy accepted addr) state)
    (sends : Sends state next output)
    (follows : ∀ queues, Queued state queues → ∃ after, Moves queues output.move after ∧ Queued next after) :
    Node hash ip6AddrIsmulticast addr (sentBy (air ++ sentOut addr output) addr) (takenBy accepted addr) next ∧
      ∀ flight ∈ sentOut addr output, Airborne ip6AddrIsmulticast flight := by
  obtain ⟨queues,queued,made,flows⟩ := node.queues
  obtain ⟨after,moves,left⟩ := follows queues queued
  cases sends with
  | @sent traffic packet same counted =>
    have unlisted : SelfUnlisted hash addr next.awdlState := by
      rw [same]
      have stepped : NodeStep hash 0 state.awdlState (.sendData traffic packet.bytes state.ieee80211State) [] _ :=
        .sendData
      exact step_keeps node.unlisted stepped
    cases moves with
    | @leave _ _ rest first =>
      have member : packet ∈ pending queues := (pending_leave first).mem_iff.mpr List.mem_cons_self
      have given := made packet member
      have sent := sendData_eq (destination ip6AddrIsmulticast (content packet)) (content packet) state.awdlState
        state.ieee80211State
      rw [← given.bytes] at sent
      rw [sent] at counted
      rw [sent]
      refine ⟨⟨unlisted,?_,_,left,?_,?_⟩,?_⟩
      · rw [counted]
        exact node.plain
      · exact fun other inside => made other ((pending_leave first).mem_iff.mpr (List.mem_cons_of_mem _ inside))
      · intro other
        rw [sentOut,sentBy_append]
        exact flows.leave first other
      · intro flight flying
        cases List.mem_singleton.mp flying
        refine ⟨given,state.awdlState,state.ieee80211State,node.plain,?_⟩
        rw [node.unlisted.1]
  | dropped silent same counted =>
    cases moves with
    | leave first =>
      rw [silent,List.append_nil]
      refine ⟨⟨by rw [same]; exact node.unlisted,by rw [counted]; exact node.plain,_,left,?_,?_⟩,List.forall_mem_nil _⟩
      · exact fun other inside => made other ((pending_leave first).mem_iff.mpr (List.mem_cons_of_mem _ inside))
      · exact Flows.fewer (flows.leave first) fun _ => List.sublist_append_left _ _
  | waits same counted =>
    cases moves
    rw [sentOut_waits,List.append_nil]
    exact ⟨⟨by rw [same]; exact node.unlisted,by rw [counted]; exact node.plain,_,left,made,flows⟩,List.forall_mem_nil _⟩

-- The driver of a node takes packets for its queues and sends them in their order.
theorem driver_node (node : Node hash ip6AddrIsmulticast addr (sentBy air addr) (takenBy accepted addr) state)
    (offered : Offered event) (step : TxStep hash ip6AddrIsmulticast esp state event output next) :
    Node hash ip6AddrIsmulticast addr (sentBy (air ++ sentOut addr output) addr)
      (takenBy (accepted ++ takenIn addr event output) addr) next ∧
      ∀ flight ∈ sentOut addr output, Airborne ip6AddrIsmulticast flight := by
  have follows : ∀ queues, Queued state queues → ∃ after, Moves queues output.move after ∧ Queued next after := by
    intro queues queued
    obtain ⟨after,moves,left,_⟩ := step_follows queued step
    exact ⟨after,moves,left⟩
  cases step with
  | @transmit _ mem garbage buffer =>
    obtain ⟨after,silent⟩ := @transmit_node _ hash ip6AddrIsmulticast esp addr air accepted state node mem garbage buffer
      offered
    exact ⟨after,by rw [silent]; exact List.forall_mem_nil _⟩
  | sendUnicast ran =>
    rw [takenIn_sendUnicast,List.append_nil]
    exact callback_node node (unicast_sends ran) follows
  | sendMulticast ran =>
    rw [takenIn_sendMulticast,List.append_nil]
    exact callback_node node (multicast_sends ran) follows
  | elsewhere => exact absurd offered id

end Nodes

section Network

-- The length of a packet is kept in one byte.
def shown (buffer : Buf) : Buf := buffer.take (buffer.length % 256)

-- A delivery, as far as the air can account for it.
structure Received (ip6AddrIsmulticast : In6Addr → Bool) (net : DataNetwork T) (entry : Delivered) : Prop where
  flying : entry.flight ∈ net.air
  payload : entry.payload = shown (content entry.flight.packet)
  foreign : entry.flight.sender ≠ entry.receiver
  addressed : destination ip6AddrIsmulticast (content entry.flight.packet) = entry.receiver ∨
    (destination ip6AddrIsmulticast (content entry.flight.packet)).isGroup = true

structure Carried (hash : EtherAddr → UInt64) (ip6AddrIsmulticast : In6Addr → Bool) (net : DataNetwork T) : Prop where
  nodes : ∀ addr, Node hash ip6AddrIsmulticast addr (sentBy net.air addr) (takenBy net.accepted addr) (net.station addr)
  air : ∀ flight ∈ net.air, Airborne ip6AddrIsmulticast flight
  delivered : ∀ entry ∈ net.delivered, Received ip6AddrIsmulticast net entry

theorem sentBy_others (apart : other ≠ addr) (air : List Flight) (output : TxOutput) :
    sentBy (air ++ sentOut addr output) other = sentBy air other := by
  funext traffic
  have none : (sentOut addr output).filter (fun flight => flight.sender = other ∧ flight.traffic = traffic) = [] := by
    refine List.filter_eq_nil_iff.mpr fun flight flying => ?_
    simp [sentOut_sender flying,apart.symm]
  rw [sentBy,List.filter_append,none,List.append_nil]
  rfl

theorem takenBy_others (apart : other ≠ addr) (accepted : List Accepted) (event : TxEvent) (output : TxOutput) :
    takenBy (accepted ++ takenIn addr event output) other = takenBy accepted other := by
  funext traffic
  have none : (takenIn addr event output).filter (fun entry => entry.sender = other ∧ entry.traffic = traffic) = [] := by
    refine List.filter_eq_nil_iff.mpr fun entry taken => ?_
    simp [takenIn_sender taken,apart.symm]
  rw [takenBy,List.filter_append,none,List.append_nil]
  rfl

-- A node whose driver is left alone.
theorem Node.elsewhere (node : Node hash ip6AddrIsmulticast addr sent taken state)
    (step : NodeStep hash rxCtrlLen state.awdlState event out awdlState)
    (plain : ieee80211State.fcs = state.ieee80211State.fcs) : Node hash ip6AddrIsmulticast addr sent taken
      {state with awdlState := awdlState,ieee80211State := ieee80211State} := by
  obtain ⟨queues,queued,made,flows⟩ := node.queues
  exact ⟨step_keeps node.unlisted step,plain.trans node.plain,queues,queued.congr _ rfl rfl rfl,made,flows⟩

-- What comes of one reception.
theorem heard_received (carried : Carried hash ip6AddrIsmulticast net) (flying : flight ∈ net.air)
    (check : fcs.length = 4) (ran : awdlReceiveFrame hash env radio.length netif (radio ++ flight.frame ++ fcs) now
      (net.station addr).awdlState = some (after,packets)) :
    packets = [] ∨ packets = [shown (content flight.packet)] ∧
      Received ip6AddrIsmulticast net ⟨addr,flight,shown (content flight.packet)⟩ := by
  obtain ⟨made,sender,ieee80211State,plain,built⟩ := carried.air flight flying
  rw [built] at ran
  have self := (carried.nodes addr).unlisted.1
  rcases data_heard plain check (made.mtu.trans (by decide)) ran with silent | ⟨delivered,foreign,addressed⟩
  · exact .inl silent
  · rw [self] at foreign addressed
    exact .inr ⟨delivered,flying,rfl,foreign,addressed⟩

theorem Received.later (received : Received ip6AddrIsmulticast net entry) (after : DataNetwork T)
    (more : ∀ flight ∈ net.air, flight ∈ after.air) : Received ip6AddrIsmulticast after entry :=
  ⟨more _ received.flying,received.payload,received.foreign,received.addressed⟩

theorem step_carried (carried : Carried hash ip6AddrIsmulticast net)
    (step : NetStep hash ip6AddrIsmulticast esp rxCtrlLen net event () next) : Carried hash ip6AddrIsmulticast next := by
  cases step with
  | @driver _ output _ _ addr offered ran =>
    obtain ⟨own,launched⟩ := driver_node (carried.nodes addr) offered ran
    refine ⟨fun other => ?_,fun flight flying => ?_,fun entry member => ?_⟩
    · by_cases same : other = addr
      · subst same
        simp only [DataNetwork.change,Function.update_self]
        exact own
      · simp only [DataNetwork.change,Function.update_of_ne same]
        rw [sentBy_others same,takenBy_others same]
        exact carried.nodes other
    · rcases List.mem_append.mp flying with old | new
      · exact carried.air flight old
      · exact launched flight new
    · exact (carried.delivered entry member).later _ fun _ => List.mem_append_left _
  | @hear index flight _ _ _ _ _ after packets _ addr flying check ran =>
    have member := List.mem_of_getElem? flying
    obtain ⟨out,received⟩ := receive_step ran
    refine ⟨fun other => ?_,carried.air,fun entry inside => ?_⟩
    · by_cases same : other = addr
      · subst same
        simp only [DataNetwork.change,Function.update_self]
        exact (carried.nodes other).elsewhere received rfl
      · simp only [DataNetwork.change,Function.update_of_ne same]
        exact carried.nodes other
    · rcases List.mem_append.mp inside with old | new
      · exact (carried.delivered entry old).later _ fun _ => id
      · rcases heard_received carried member check ran with rfl | ⟨rfl,came⟩
        · cases new
        · rw [List.mem_singleton.mp new]
          exact came.later _ fun _ => id
  | @elsewhere _ _ _ addr _ ran plain =>
    refine ⟨fun other => ?_,carried.air,fun entry member => (carried.delivered entry member).later _ fun _ => id⟩
    by_cases same : other = addr
    · subst same
      simp only [DataNetwork.change,Function.update_self]
      exact (carried.nodes other).elsewhere ran plain
    · simp only [DataNetwork.change,Function.update_of_ne same]
      exact carried.nodes other

theorem started_carried (started : Started esp net) : Carried hash ip6AddrIsmulticast net := by
  refine ⟨fun addr => ?_,by rw [started.air]; exact List.forall_mem_nil _,
    by rw [started.delivered]; exact List.forall_mem_nil _⟩
  obtain ⟨boot,ring,booted,state⟩ := started.booted addr
  obtain ⟨_,_,_,_,_,_,_,rfl⟩ := booted.form
  rw [state,started.air,started.accepted]
  refine ⟨⟨rfl,_,PeerMap.init_refines,rfl⟩,rfl,fun _ => [],start_queued _ _ ring,?_,fun _ => .refl _⟩
  simp [pending]

theorem reached_carried (started : Started esp start)
    (path : Runs (NetStep hash ip6AddrIsmulticast esp rxCtrlLen) start trace net) : Carried hash ip6AddrIsmulticast net :=
  runs_invariant (fun _ _ _ _ before step => step_carried before step) (started_carried started) path

end Network

-- A delivery by what awdl_transmit was given: accepted at another node, in this class of
-- traffic, for this address or for a group.
structure Genuine (ip6AddrIsmulticast : In6Addr → Bool) (net : DataNetwork T) (entry : Delivered) : Prop where
  foreign : entry.flight.sender ≠ entry.receiver
  accepted : ∃ buffer, ⟨entry.flight.sender,entry.flight.traffic,buffer⟩ ∈ net.accepted ∧ entry.payload = shown buffer ∧
    (destination ip6AddrIsmulticast buffer = entry.receiver ∨ (destination ip6AddrIsmulticast buffer).isGroup = true)

-- Frames may be lost, repeated and heard in any order: nothing is delivered that was not
-- accepted, from nobody but its sender and to nobody but its receivers.
theorem delivered_genuine (started : Started esp start)
    (path : Runs (NetStep hash ip6AddrIsmulticast esp rxCtrlLen) start trace net) :
    ∀ entry ∈ net.delivered, Genuine ip6AddrIsmulticast net entry := by
  intro entry member
  have carried : Carried hash ip6AddrIsmulticast net := reached_carried started path
  have received := carried.delivered entry member
  obtain ⟨_,_,_,flows⟩ := (carried.nodes entry.flight.sender).queues
  have sent : content entry.flight.packet ∈ sentBy net.air entry.flight.sender entry.flight.traffic :=
    List.mem_map.mpr ⟨entry.flight,List.mem_filter.mpr ⟨received.flying,by simp⟩,rfl⟩
  have taken := (flows entry.flight.traffic).subset (List.mem_append_left _ sent)
  obtain ⟨⟨sender,traffic,buffer⟩,inside,same⟩ := List.mem_map.mp taken
  obtain ⟨held,kind⟩ := List.mem_filter.mp inside
  obtain ⟨rfl,rfl⟩ := of_decide_eq_true kind
  change buffer = _ at same
  refine ⟨received.foreign,buffer,held,?_,?_⟩
  · rw [same]
    exact received.payload
  · rw [same]
    exact received.addressed

-- No frame is heard twice or after a later one.
def InOrder (net : DataNetwork T) : NetEvent → Prop
  | .hear addr _ _ _ _ _ index => net.passed addr ≤ index
  | _ => True

def OrderedStep (hash : EtherAddr → UInt64) (ip6AddrIsmulticast : In6Addr → Bool) (esp : EspTimer T) (rxCtrlLen : Nat)
    (net : DataNetwork T) (event : NetEvent) (output : Unit) (next : DataNetwork T) : Prop :=
  InOrder net event ∧ NetStep hash ip6AddrIsmulticast esp rxCtrlLen net event output next

def arrived (net : DataNetwork T) (receiver sender : EtherAddr) (traffic : Traffic) : List Buf :=
  (net.delivered.filter fun entry => entry.receiver = receiver ∧ entry.flight.sender = sender ∧
    entry.flight.traffic = traffic).map Delivered.payload

section Order

-- What a node was given of the air, in the order of the air.
def Ordered (net : DataNetwork T) : Prop :=
  ∀ addr, ((net.delivered.filter fun entry => entry.receiver = addr).map Delivered.flight).Sublist
    (net.air.take (net.passed addr))

theorem step_ordered (carried : Carried hash ip6AddrIsmulticast net) (ordered : Ordered net) (inOrder : InOrder net event)
    (step : NetStep hash ip6AddrIsmulticast esp rxCtrlLen net event () next) : Ordered next := by
  cases step with
  | driver =>
    intro addr
    exact (ordered addr).trans ((List.prefix_append _ _).take _).sublist
  | @hear index flight _ _ _ _ _ _ packets _ here flying check ran =>
    intro addr
    by_cases same : addr = here
    · subst same
      have reach : (net.air.take (index + 1)) = net.air.take index ++ [flight] := by
        rw [List.take_add_one,flying,Option.toList_some]
      simp only [DataNetwork.change,Function.update_self,List.filter_append,List.map_append]
      rw [reach]
      refine ((ordered addr).trans (List.take_sublist_take_left inOrder)).append ?_
      rcases heard_received carried (List.mem_of_getElem? flying) check ran with rfl | ⟨rfl,_⟩
      · exact List.nil_sublist _
      · simp
    · have none : (packets.map (Delivered.mk here flight)).filter (fun entry => entry.receiver = addr) = [] := by
        refine List.filter_eq_nil_iff.mpr fun entry member => ?_
        obtain ⟨_,_,rfl⟩ := List.mem_map.mp member
        simp [Ne.symm same]
      simp only [Function.update_of_ne same,List.filter_append,none,List.append_nil]
      exact ordered addr
  | elsewhere => exact ordered

end Order

-- Over a radio that keeps the order of the frames, the interface of one node gets of
-- another's packets of one class some, once each and in the order of their acceptance.
theorem delivered_in_order (started : Started esp start)
    (path : Runs (OrderedStep hash ip6AddrIsmulticast esp rxCtrlLen) start trace net)
    (receiver sender : EtherAddr) (traffic : Traffic) :
    (arrived net receiver sender traffic).Sublist ((takenBy net.accepted sender traffic).map shown) := by
  obtain ⟨carried,ordered⟩ : Carried hash ip6AddrIsmulticast net ∧ Ordered net := by
    refine runs_invariant (motive := fun net => Carried hash ip6AddrIsmulticast net ∧ Ordered net)
      (fun _ _ _ _ before step => ?_) ⟨started_carried started,?_⟩ path
    · exact ⟨step_carried before.1 step.2,step_ordered before.1 before.2 step.1 step.2⟩
    · intro addr
      rw [started.delivered]
      exact List.nil_sublist _
  obtain ⟨_,_,_,flows⟩ := (carried.nodes sender).queues
  have flown : ((((net.delivered.filter fun entry => entry.receiver = receiver).map Delivered.flight).filter
      fun flight => flight.sender = sender ∧ flight.traffic = traffic).map fun flight => content flight.packet).Sublist
        (sentBy net.air sender traffic) :=
    (((ordered receiver).trans (List.take_sublist _ _)).filter _).map _
  have same : arrived net receiver sender traffic =
      ((((net.delivered.filter fun entry => entry.receiver = receiver).map Delivered.flight).filter
        fun flight => flight.sender = sender ∧ flight.traffic = traffic).map fun flight => content flight.packet).map
          shown := by
    rw [arrived,List.filter_map,List.filter_filter,List.map_map,List.map_map]
    have alike : ∀ entry ∈ net.delivered, entry.payload = shown (content entry.flight.packet) :=
      fun entry member => (carried.delivered entry member).payload
    refine (List.map_congr_left fun entry member => alike entry (List.mem_filter.mp member).1).trans ?_
    congr 2
    funext entry
    rw [Bool.and_comm]
    simp
  rw [same]
  exact (flown.trans ((List.sublist_append_left _ _).trans (flows traffic))).map shown

-- Two nodes after wifi_sniffer_init, the first of which hears an action frame of the other
-- and then its two packets for a group.
def quietPair : DataNetwork (Option UInt64) where
  station addr := daemonStart plainTimer (wifiSnifferStores (awdlInitState default [] addr chanOpclass6 1500000))
    ieee80211InitState ⟨fun _ => 0,0,0,0,false⟩
  accepted := []
  air := []
  passed _ := 0
  delivered := []

theorem quietPair_started : Started plainTimer quietPair :=
  ⟨fun _ => ⟨_,⟨fun _ => 0,0,0,0,false⟩,.sniffer,rfl⟩,rfl,rfl,rfl,rfl⟩

def introduction : Buf :=
  (awdlInitFullActionFrame ⟨5,1500000⟩ (quietPair.station nodeTwo).awdlState ieee80211InitState .mif).1

def introduced : Option RxRun :=
  awdlRx (fun _ => 0) {quiet with fuel := 1} radioHdr.length (radioHdr ++ introduction ++ [1,2,3,4]) 1500000
    (quietPair.station nodeOne).awdlState

def toGroupLater : Buf := toGroup ++ [7]

def taken : TxOutput × DaemonState (Option UInt64) :=
  awdlTransmit groupAddr plainTimer (fun _ => 0) false toGroup (quietPair.station nodeTwo)

def takenLater : TxOutput × DaemonState (Option UInt64) :=
  awdlTransmit groupAddr plainTimer (fun _ => 0) false toGroupLater taken.2

def launched (now : UInt64) (state : DaemonState (Option UInt64)) : Option (TxOutput × DaemonState (Option UInt64)) :=
  awdlSendMulticast plainTimer now {state with txMcastTimer := plainTimer.fire state.txMcastTimer}

def caught (now : UInt64) (flight : Flight) (state : AwdlState) : Option (AwdlState × List Buf) :=
  awdlReceiveFrame (fun _ => 0) quiet radioHdr.length true (radioHdr ++ flight.frame ++ [1,2,3,4]) now state

-- What of a run the reader of its trace sees.
structure Sighting where
  heard : List Buf
  traffic : List Traffic
  packets : List (List Buf)
deriving DecidableEq

theorem packets_caught : (introduced.bind fun run => (launched 1530000 takenLater.2).bind fun sent =>
    (launched 1531000 sent.2).bind fun last => (sentOut nodeTwo sent.1).head?.bind fun flight =>
      (sentOut nodeTwo last.1).head?.bind fun follower => (caught 1532000 flight run.state).bind fun got =>
        (caught 1533000 follower got.1).map fun rest => (⟨run.out,[flight.traffic,follower.traffic],[got.2,rest.2]⟩ :
          Sighting)) = some ⟨[],[.multicast,.multicast],[[toGroup],[toGroupLater]]⟩ := by
  decide +kernel

theorem sentOut_head (first : (sentOut addr output).head? = some flight) : sentOut addr output = [flight] := by
  unfold sentOut at first ⊢
  split at first
  · cases first
    rfl
  · cases first

-- Both packets are accepted, put on the air and delivered.
theorem packets_run : ∃ trace net flight follower,
    Runs (OrderedStep (fun _ => 0) groupAddr plainTimer radioHdr.length) quietPair trace net ∧ net.delivered =
      [⟨nodeOne,flight,toGroup⟩,⟨nodeOne,follower,toGroupLater⟩] ∧ flight.sender = nodeTwo ∧ follower.sender = nodeTwo ∧
        flight.traffic = .multicast ∧ follower.traffic = .multicast := by
  obtain ⟨run,met,rest⟩ := Option.bind_eq_some_iff.mp packets_caught
  obtain ⟨⟨output,left⟩,sent,rest⟩ := Option.bind_eq_some_iff.mp rest
  obtain ⟨⟨outputLater,last⟩,sentLater,rest⟩ := Option.bind_eq_some_iff.mp rest
  obtain ⟨flight,first,rest⟩ := Option.bind_eq_some_iff.mp rest
  obtain ⟨follower,second,rest⟩ := Option.bind_eq_some_iff.mp rest
  obtain ⟨⟨after,packets⟩,heard,rest⟩ := Option.bind_eq_some_iff.mp rest
  obtain ⟨⟨ends,packetsLater⟩,heardLater,same⟩ := Option.map_eq_some_iff.mp rest
  simp only [Sighting.mk.injEq,List.cons.injEq,and_true] at same
  obtain ⟨silent,⟨kind,kindLater⟩,rfl,rfl⟩ := same
  have apart : nodeOne ≠ nodeTwo := by decide
  have still : sentOut nodeTwo taken.1 = [] ∧ sentOut nodeTwo takenLater.1 = [] := by decide +kernel
  have flies := sentOut_head first
  have follows := sentOut_head second
  let acquainted := {quietPair.station nodeOne with awdlState := run.state}
  let known : DataNetwork (Option UInt64) := quietPair.change nodeOne acquainted
  let waiting : DataNetwork (Option UInt64) := {known.change nodeTwo taken.2 with
    accepted := known.accepted ++ takenIn nodeTwo (.transmit (fun _ => 0) false toGroup) taken.1
    air := known.air ++ sentOut nodeTwo taken.1}
  let both : DataNetwork (Option UInt64) := {waiting.change nodeTwo takenLater.2 with
    accepted := waiting.accepted ++ takenIn nodeTwo (.transmit (fun _ => 0) false toGroupLater) takenLater.1
    air := waiting.air ++ sentOut nodeTwo takenLater.1}
  let flying : DataNetwork (Option UInt64) := {both.change nodeTwo left with
    accepted := both.accepted ++ takenIn nodeTwo (.sendMulticast 1530000) output
    air := both.air ++ sentOut nodeTwo output}
  let trailing : DataNetwork (Option UInt64) := {flying.change nodeTwo last with
    accepted := flying.accepted ++ takenIn nodeTwo (.sendMulticast 1531000) outputLater
    air := flying.air ++ sentOut nodeTwo outputLater}
  let receiving : DataNetwork (Option UInt64) := {trailing.change nodeOne
      {trailing.station nodeOne with awdlState := after} with
    passed := Function.update trailing.passed nodeOne (0 + 1)
    delivered := trailing.delivered ++ [toGroup].map (Delivered.mk nodeOne flight)}
  let received : DataNetwork (Option UInt64) := {receiving.change nodeOne
      {receiving.station nodeOne with awdlState := ends} with
    passed := Function.update receiving.passed nodeOne (1 + 1)
    delivered := receiving.delivered ++ [toGroupLater].map (Delivered.mk nodeOne follower)}
  have air : trailing.air = [flight,follower] := by
    change known.air ++ sentOut nodeTwo taken.1 ++ sentOut nodeTwo takenLater.1 ++ sentOut nodeTwo output ++
      sentOut nodeTwo outputLater = _
    rw [still.1,still.2,flies,follows]
    rfl
  have listens : known.station nodeTwo = quietPair.station nodeTwo :=
    Function.update_of_ne apart.symm acquainted quietPair.station
  have waits : trailing.station nodeOne = acquainted := by
    simp [trailing,flying,both,waiting,known,DataNetwork.change,apart]
  have meets : OrderedStep (fun _ => 0) groupAddr plainTimer radioHdr.length quietPair
      (.elsewhere nodeOne (.receive {quiet with fuel := 1} (radioHdr ++ introduction ++ [1,2,3,4]) 1500000)
        ieee80211InitState) () known :=
    ⟨trivial,.elsewhere (by rw [← silent]; exact .receive met) rfl⟩
  have takes : OrderedStep (fun _ => 0) groupAddr plainTimer radioHdr.length known
      (.driver nodeTwo (.transmit (fun _ => 0) false toGroup)) () waiting := by
    refine ⟨trivial,.driver (show toGroup.length ≤ awdlMtu by decide) ?_⟩
    rw [listens]
    exact .transmit (by decide) (by decide)
  have takesLater : OrderedStep (fun _ => 0) groupAddr plainTimer radioHdr.length waiting
      (.driver nodeTwo (.transmit (fun _ => 0) false toGroupLater)) () both := by
    refine ⟨trivial,.driver (show toGroupLater.length ≤ awdlMtu by decide) ?_⟩
    rw [show waiting.station nodeTwo = taken.2 by simp [waiting,DataNetwork.change]]
    exact .transmit (by decide) (by decide)
  have sends : OrderedStep (fun _ => 0) groupAddr plainTimer radioHdr.length both
      (.driver nodeTwo (.sendMulticast 1530000)) () flying := by
    refine ⟨trivial,.driver trivial ?_⟩
    rw [show both.station nodeTwo = takenLater.2 by simp [both,DataNetwork.change]]
    exact .sendMulticast sent
  have sendsLater : OrderedStep (fun _ => 0) groupAddr plainTimer radioHdr.length flying
      (.driver nodeTwo (.sendMulticast 1531000)) () trailing := by
    refine ⟨trivial,.driver trivial ?_⟩
    rw [show flying.station nodeTwo = left by simp [flying,DataNetwork.change]]
    exact .sendMulticast sentLater
  have hears : OrderedStep (fun _ => 0) groupAddr plainTimer radioHdr.length trailing
      (.hear nodeOne quiet true radioHdr [1,2,3,4] 1532000 0) () receiving :=
    ⟨Nat.le_refl 0,.hear (by rw [air]; rfl) rfl (by rw [waits]; exact heard)⟩
  have hearsLater : OrderedStep (fun _ => 0) groupAddr plainTimer radioHdr.length receiving
      (.hear nodeOne quiet true radioHdr [1,2,3,4] 1533000 1) () received := by
    have next : receiving.air[1]? = some follower := by
      change trailing.air[1]? = _
      rw [air]
      rfl
    refine ⟨?_,.hear next rfl ?_⟩
    · change Function.update trailing.passed nodeOne (0 + 1) nodeOne ≤ 1
      rw [Function.update_self]
    · rw [show (receiving.station nodeOne).awdlState = after by simp [receiving,DataNetwork.change]]
      exact heardLater
  refine ⟨_,received,flight,follower,.cons meets (.cons takes (.cons takesLater (.cons sends (.cons sendsLater (.cons hears
    (.cons hearsLater .nil)))))),rfl,?_,?_,kind,kindLater⟩
  · exact sentOut_sender (List.mem_of_mem_head? first)
  · exact sentOut_sender (List.mem_of_mem_head? second)

theorem delivered_genuine_pair : ∃ trace net, ∃ entry ∈ DataNetwork.delivered net,
    Runs (NetStep (fun _ => 0) groupAddr plainTimer radioHdr.length) quietPair trace net ∧
      entry.payload = toGroup ∧ Genuine groupAddr net entry := by
  obtain ⟨trace,net,flight,follower,path,delivered,_⟩ := packets_run
  have member : ⟨nodeOne,flight,toGroup⟩ ∈ net.delivered := by rw [delivered]; exact List.mem_cons_self
  have plain := runs_mono (fun _ _ _ _ => And.right) path
  exact ⟨trace,net,_,member,plain,rfl,delivered_genuine quietPair_started plain _ member⟩

theorem delivered_in_order_pair : ∃ trace net,
    Runs (OrderedStep (fun _ => 0) groupAddr plainTimer radioHdr.length) quietPair trace net ∧
    arrived net nodeOne nodeTwo .multicast = [toGroup,toGroupLater] ∧
    (arrived net nodeOne nodeTwo .multicast).Sublist ((takenBy net.accepted nodeTwo .multicast).map shown) := by
  obtain ⟨trace,net,flight,follower,path,delivered,sender,senderLater,traffic,trafficLater⟩ := packets_run
  refine ⟨trace,net,path,?_,delivered_in_order quietPair_started path nodeOne nodeTwo .multicast⟩
  simp [arrived,delivered,sender,senderLater,traffic,trafficLater]

end EspOwl.PacketPath
