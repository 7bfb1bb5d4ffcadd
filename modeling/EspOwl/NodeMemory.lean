import EspOwl.Consistency
import EspOwl.TableMemory

namespace EspOwl.PeerHeap
open CellHeaps Histories PeerHistory DataFrames Subframes Dispatch TlvLoop Addressing Consistency
open Hashmap (HashmapMap)
open PointerMap (Pointers)

-- A node whose peers lie on the heap. The table of records in its state is not used.
structure HeapNode where
  state : AwdlState
  table : PeerTable

structure TlvRun where
  result : RxResult
  frame : Buf
  cells : Cells AwdlPeer
  state : AwdlState
  calls : List (UInt8 × List UInt8)

structure RxRun where
  result : RxResult
  node : HeapNode
  out : List Buf
  calls : List (UInt8 × List UInt8)
  called : List AwdlPeer

def RxRun.stop (result : RxResult) (node : HeapNode) : RxRun := ⟨result,node,[],[],[]⟩

def RxRun.ofData (run : RxResult × List Buf × HeapNode) : RxRun := ⟨run.1,run.2.2,run.2.1,[],[]⟩

-- The handlers read and write the record behind the pointer that awdl_peer_get returned
-- in front of the loop.
def awdlRxTlvs (chanMem : Nat → Fin awdlChanseqLength → AwdlChan) (tsft : UInt64) (frame : Buf) (peer : Nat)
    (cells : Cells AwdlPeer) (state : AwdlState) : Except Fault TlvRun :=
  match _next : readTlv frame 0 with
  | none => .ok ⟨.ok,frame,cells,state,[]⟩
  | some (type,val) => do
    let src ← cells.read peer
    let (result,after,changed) := awdlHandleTlv (chanMem (bufLen frame)) src type val state tsft
    let cells ← cells.write peer after
    if result.code < 0 then return ⟨.unexpectedFormat,frame,cells,changed,[(type,val)]⟩
    else
      let run ← awdlRxTlvs chanMem tsft (frame.drop (val.length + 3)) peer cells changed
      return {run with calls := (type,val) :: run.calls}
termination_by frame.length
decreasing_by
  have inside := readTlv_length _next
  rw [List.length_drop]
  omega

-- if (subtype == AWDL_ACTION_MIF) peer->sent_mif = 1.
def markSentMif (subtype : AwdlActionType) (t : PeerTable) (peer : Nat) : Except Fault PeerTable :=
  if subtype = .mif then do
    let held ← t.cells.read peer
    let cells ← t.cells.write peer {held with sentMif := true}
    return {t with cells := cells}
  else return t

section Code
variable (hash : EtherAddr → UInt64)

def rssiTooLow (node : HeapNode) (rssi : Int8) (src : EtherAddr) : Except Fault Bool := do
  if node.state.filterRssi then
    let (status,_) ← awdlPeerGet hash node.table src
    return (status = .ok && rssi.toInt < node.state.rssiThreshold.toInt + node.state.rssiGrace.toInt) ||
      (status = .missing && rssi.toInt < node.state.rssiThreshold.toInt)
  else return false

def awdlRxActionEnd (env : Ambient) (callocs : List Bool) (tsft : UInt64) (src : EtherAddr)
    (subtype : AwdlActionType) (peer : Nat) (map : Pointers) (run : TlvRun) (called : List AwdlPeer) :
    Except Fault (Option RxRun) := do
  let table := ⟨run.cells,map⟩
  if run.result.code < 0 then return some ⟨.unexpectedFormat,⟨run.state,table⟩,[],run.calls,called⟩
  else
    let frame := if bufLen run.frame = 1 ∧ run.frame.getD 0 0 = 0x00 then (bufStrip run.frame 1).getD run.frame else run.frame
    if bufLen frame > 4 then return some ⟨.unexpectedFormat,⟨run.state,table⟩,[],run.calls,called⟩
    else
      let marked ← markSentMif subtype table peer
      match ← awdlPeerAdd hash env.fuel callocs env.peerMem marked src tsft with
      | none => return none
      | some again => return some ⟨.ok,⟨run.state,again.table⟩,[],run.calls,called ++ again.called.toList⟩

def awdlRxAction (env : Ambient) (frame : Buf) (rssi : Int8) (tsft : UInt64) (src : EtherAddr) (node : HeapNode) :
    Except Fault (Option RxRun) :=
  match awdlParseActionHdr frame with
  | none => .ok (some (.stop .ignore node))
  | some subtype => do
    let frame := (bufStrip frame AwdlAction.size).getD frame
    if ← rssiTooLow hash node rssi src then return some (.stop .ignoreRssi node)
    else
      let state := {node.state with stats.rxAction := node.state.stats.rxAction + 1}
      match ← awdlPeerAdd hash env.fuel env.callocs env.peerMem node.table src tsft with
      | none => return none
      | some added =>
        let called := added.called.toList
        if added.status.code < 0 then return some ⟨.ignore,⟨state,added.table⟩,[],[],called⟩
        else
          match ← awdlPeerGet hash added.table src with
          | (.ok,some peer) =>
            let run ← awdlRxTlvs env.chanMem tsft frame peer added.table.cells state
            awdlRxActionEnd hash env added.callocs tsft src subtype peer added.table.map run called
          | _ => return some ⟨.ignore,⟨state,added.table⟩,[],[],called⟩

def awdlRxData (mem : Nat → UInt8) (frame : Buf) (src dst : EtherAddr) (node : HeapNode) :
    Except Fault (RxResult × List Buf × HeapNode) := do
  let node := {node with state.stats.rxData := node.state.stats.rxData + 1}
  let (status,_) ← awdlPeerGet hash node.table src
  if status ≠ .ok then return (.ignorePeer,[],node)
  else if !awdlValidLlcHeader frame then return (.unexpectedFormat,[],node)
  else
    let frame := (bufStrip frame LlcHdr.size).getD frame
    if bufLen frame < AwdlData.size then return (.tooShort,[],node)
    else
      let etherType := (readBe16 frame 6).getD 0
      let frame := (bufStrip frame AwdlData.size).getD frame
      let frame := (bufTake frame 4).getD frame
      return (.ok,[ethernetFrame mem dst src etherType frame],node)

def awdlRxDataAmsdu (bufMem : Nat → Nat → UInt8) (emitted : Nat) (frame : Buf) (node : HeapNode) :
    Except Fault (RxResult × List Buf × HeapNode) :=
  if bufLen frame = 0 then .ok (.ok,[],node)
  else
    match _next : readSubframe frame with
    | none => .ok (.tooShort,[],node)
    | some (subframe,rest) => do
      let (err,packets,node) ← awdlRxData hash (bufMem emitted) subframe.body subframe.src subframe.dst node
      if err.code < 0 then return (err,packets,node)
      else
        match _padded : stripPadding subframe.body.length rest with
        | none => return (.tooShort,packets,node)
        | some rest =>
          let (result,later,node) ← awdlRxDataAmsdu bufMem (emitted + packets.length) rest node
          return (result,packets ++ later,node)
termination_by frame.length
decreasing_by
  have shorter := readSubframe_shorter _next
  have kept := stripPadding_length _padded
  omega

-- What awdl_rx reads of the frame does not depend on the table.
def awdlRx (env : Ambient) (rxCtrlLen : Nat) (frame : Buf) (now : UInt64) (node : HeapNode) :
    Except Fault (Option RxRun) :=
  match route rxCtrlLen node.state.selfAddress frame with
  | .drop result => .ok (some (.stop result node))
  | .action rssi src frame => awdlRxAction hash env frame rssi now src node
  | .data src dst frame => do return some (.ofData (← awdlRxData hash (env.bufMem 0) frame src dst node))
  | .amsdu frame => do return some (.ofData (← awdlRxDataAmsdu hash env.bufMem 0 frame node))

-- The state that master_state points to: one in a record, or the node's own.
def masterElection (own : AwdlElectionState) (t : PeerTable) : Option Nat → Except Fault AwdlElectionState
  | none => return own
  | some master => do return (← t.cells.read master).election

def awdlElectionConsider (own : AwdlElectionState) (t : PeerTable) (peer : Nat) (masterState : Option Nat) :
    Except Fault (Option Nat) := do
  let held ← t.cells.read peer
  let peerState := held.election
  if !held.isValid then return masterState
  else if peerState.height + 1 > awdlElectionTreeMaxHeight then return masterState
  else if awdlElectionIsSyncMaster peerState own.selfAddr then return masterState
  else
    let current ← masterElection own t masterState
    let cmpMetric := awdlElectionCompareMaster peerState current
    if cmpMetric < 0 then return masterState
    else if cmpMetric = 0 then
      if peerState.height > current.height then return masterState
      else if peerState.height = current.height then
        if compareEtherAddr peerState.selfAddr current.selfAddr ≤ 0 then return masterState
        else return some peer
      else return some peer
    else return some peer

def awdlElectionRun (state : AwdlElectionState) (t : PeerTable) : Except Fault AwdlElectionState := do
  let own := awdlElectionResetSelf state
  let (t,masterState) ← peersIterate (fun _ t peer masterState => do
    return (t,← awdlElectionConsider own t peer masterState)) t none
  match masterState with
  | none => return own
  | some _ => return awdlElectionAdopt own (← masterElection own t masterState)

def awdlCleanPeers (now : UInt64) (node : HeapNode) : Except Fault HeapNode := do
  let cutoffTime := now - node.state.peers.timeout
  let table ← awdlPeersRemove node.table cutoffTime
  let election ← awdlElectionRun node.state.election table
  return ⟨{node.state with election := election},table⟩

end Code

section Steps

-- The steps of a node as in Node, its peers on the heap. None is taken where the code
-- uses a record that is gone.
inductive HeapStep (hash : EtherAddr → UInt64) (rxCtrlLen : Nat) : HeapNode → Event → List Buf → HeapNode → Prop where
  | receive (ran : awdlRx hash env rxCtrlLen frame now node = .ok (some run)) :
      HeapStep hash rxCtrlLen node (.receive env frame now) run.out run.node
  | cleanPeers (ran : awdlCleanPeers now node = .ok next) :
      HeapStep hash rxCtrlLen node (.cleanPeers now) [] next
  | sendAction : HeapStep hash rxCtrlLen node .sendAction [] {node with state := awdlSendAction node.state}
  | sendData : HeapStep hash rxCtrlLen node (.sendData traffic buf ieee80211State) []
      {node with state := countTx (awdlSendData buf node.state ieee80211State).2.1 traffic}
  | switchChannel : HeapStep hash rxCtrlLen node (.switchChannel now) []
      {node with state := awdlSwitchChannel now node.state}
  | filterOff : HeapStep hash rxCtrlLen node .filterOff [] {node with state.filterRssi := false}

def Faults (hash : EtherAddr → UInt64) (rxCtrlLen : Nat) (node : HeapNode) (event : Event) : Prop :=
  ∃ fault, (∃ env frame now, event = .receive env frame now ∧ awdlRx hash env rxCtrlLen frame now node = .error fault) ∨
    ∃ now, event = .cleanPeers now ∧ awdlCleanPeers now node = .error fault

def heapBoot (mem : AwdlState) (hostname : List UInt8) (self : EtherAddr) (chan : AwdlChan) (now : UInt64) : HeapNode :=
  ⟨awdlInitState mem hostname self chan now,awdlPeersInit⟩

end Steps

variable {hash : EtherAddr → UInt64} {m : HashmapMap EtherAddr (Nat × Nat)} {t : PeerTable} {peers : AwdlPeers}

section Handlers

-- No handler reads the table.
theorem handle_setPeers (mem : Fin awdlChanseqLength → AwdlChan) (src : AwdlPeer) (type : UInt8) (val : Buf)
    (state : AwdlState) (peers : AwdlPeers) (tsft : UInt64) :
    awdlHandleTlv mem src type val (state.setPeers peers) tsft =
      ((awdlHandleTlv mem src type val state tsft).1,(awdlHandleTlv mem src type val state tsft).2.1,
        (awdlHandleTlv mem src type val state tsft).2.2.setPeers peers) := by
  have sync : awdlHandleSyncParamsTlv src val (state.setPeers peers) tsft =
      ((awdlHandleSyncParamsTlv src val state tsft).1,(awdlHandleSyncParamsTlv src val state tsft).2.setPeers peers) := by
    unfold awdlHandleSyncParamsTlv
    have same : (state.setPeers peers).election = state.election := rfl
    rw [same]
    split
    · rfl
    · cases readLe16 val 1 with
      | none => rfl
      | some timeToNextAwMaster =>
        cases readLe16 val 29 with
        | none => rfl
        | some awCounterMaster => rfl
  unfold awdlHandleTlv
  rw [sync]
  split_ifs <;> rfl

theorem tlvs_setPeers (chanMem : Nat → Fin awdlChanseqLength → AwdlChan) (tsft : UInt64) (frame : Buf) (src : AwdlPeer)
    (state : AwdlState) (peers : AwdlPeers) :
    EspOwl.awdlRxTlvs chanMem tsft frame src (state.setPeers peers) =
      {EspOwl.awdlRxTlvs chanMem tsft frame src state with
        state := (EspOwl.awdlRxTlvs chanMem tsft frame src state).state.setPeers peers} := by
  induction size : frame.length using Nat.strong_induction_on generalizing frame src state with
  | _ size ih =>
    rw [tlvs_turn,tlvs_turn _ _ _ _ state]
    cases found : readTlv frame 0 with
    | none => rfl
    | some tlv =>
      obtain ⟨type,val⟩ := tlv
      have inside := readTlv_length found
      dsimp only
      rw [handle_setPeers]
      split
      · rfl
      · rw [ih (frame.drop (val.length + 3)).length (by rw [List.length_drop]; omega) _ _ _ rfl]

theorem heapTlvs_turn (chanMem : Nat → Fin awdlChanseqLength → AwdlChan) (tsft : UInt64) (frame : Buf) (peer : Nat)
    (cells : Cells AwdlPeer) (state : AwdlState) : awdlRxTlvs chanMem tsft frame peer cells state =
      match readTlv frame 0 with
      | none => .ok ⟨.ok,frame,cells,state,[]⟩
      | some (type,val) => do
        let src ← cells.read peer
        let (result,after,changed) := awdlHandleTlv (chanMem (bufLen frame)) src type val state tsft
        let cells ← cells.write peer after
        if result.code < 0 then return ⟨.unexpectedFormat,frame,cells,changed,[(type,val)]⟩
        else
          let run ← awdlRxTlvs chanMem tsft (frame.drop (val.length + 3)) peer cells changed
          return {run with calls := (type,val) :: run.calls} := by
  rw [awdlRxTlvs]
  split <;> rename_i found <;> rw [found]

-- The record that the loop works on is the one that it ends with.
theorem tlvs_run (chanMem : Nat → Fin awdlChanseqLength → AwdlChan) (tsft : UInt64) (frame : Buf)
    {cells : Cells AwdlPeer} {src : AwdlPeer} {p : Nat} (held : cells.live p = some src) (state : AwdlState) :
    let model := EspOwl.awdlRxTlvs chanMem tsft frame src state
    awdlRxTlvs chanMem tsft frame p cells state =
      .ok ⟨model.result,model.frame,cells.put p (some model.src),model.state,model.calls⟩ := by
  induction size : frame.length using Nat.strong_induction_on generalizing frame cells src state with
  | _ size ih =>
    dsimp only
    rw [heapTlvs_turn,tlvs_turn]
    cases found : readTlv frame 0 with
    | none => rw [Cells.put_same held]
    | some tlv =>
      obtain ⟨type,val⟩ := tlv
      have inside := readTlv_length found
      simp only [ok_bind,ok_pure,Cells.read_live held,Cells.write_live held]
      split
      · rfl
      · rw [ih (frame.drop (val.length + 3)).length (by rw [List.length_drop]; omega) _ (Cells.put_self ..) _ rfl]
        simp only [ok_bind,Cells.put_put]

end Handlers

section Receptions
variable {node : HeapNode}

-- What a reception comes to on the heap and in the table of records.
structure SameRun (hash : EtherAddr → UInt64) (supplied : Prop) (m : HashmapMap EtherAddr (Nat × Nat)) (t : PeerTable)
    (run : RxRun) (model : EspOwl.RxRun) : Prop where
  result : run.result = model.result
  out : run.out = model.out
  calls : run.calls = model.calls
  called : run.called = model.called
  state : model.state = run.node.state.setPeers model.state.peers.peers
  houses : ∃ next, Houses hash next run.node.table model.state.peers.peers ∧
    (supplied → Owned m t → Owned next run.node.table)

inductive Received (hash : EtherAddr → UInt64) (supplied : Prop) (m : HashmapMap EtherAddr (Nat × Nat)) (t : PeerTable) :
    Except Fault (Option RxRun) → Option EspOwl.RxRun → Prop where
  | endless : Received hash supplied m t (.ok none) none
  | ran (same : SameRun hash supplied m t run model) : Received hash supplied m t (.ok (some run)) (some model)

theorem Received.stop (houses : Houses hash m node.table peers) (result : RxResult) :
    Received hash supplied m node.table (.ok (some (.stop result node)))
      (some (.stop result (node.state.setPeers peers))) :=
  .ran ⟨rfl,rfl,rfl,rfl,rfl,m,houses,fun _ => id⟩

theorem Received.ofData (houses : Houses hash m t peers) {run : RxResult × List Buf × AwdlState}
    (left : run.2.2 = after.setPeers peers) :
    Received hash supplied m t (.ok (some (.ofData (run.1,run.2.1,⟨after,t⟩)))) (some (.ofData run)) := by
  obtain ⟨result,out,state⟩ := run
  subst left
  exact .ran ⟨rfl,rfl,rfl,rfl,rfl,m,houses,fun _ => id⟩

-- A lookup of which only the status is used.
theorem status_housed (houses : Houses hash m t peers) (addr : EtherAddr) :
    ∃ found, awdlPeerGet hash t addr = .ok ((EspOwl.awdlPeerGet hash peers addr).1,found) := by
  rcases get_cases houses addr with ⟨_,heap,model⟩ | ⟨_,_,_,_,_,_,heap,model⟩
  · exact ⟨_,heap.trans (by rw [model])⟩
  · exact ⟨_,heap.trans (by rw [model])⟩

theorem rssi_housed (houses : Houses hash m node.table peers) (rssi : Int8) (src : EtherAddr) :
    rssiTooLow hash node rssi src = .ok (EspOwl.rssiTooLow hash (node.state.setPeers peers) rssi src) := by
  obtain ⟨found,heap⟩ := status_housed houses src
  have same : (node.state.setPeers peers).filterRssi = node.state.filterRssi := rfl
  unfold rssiTooLow EspOwl.rssiTooLow
  rw [same]
  cases node.state.filterRssi with
  | false => rfl
  | true =>
    rw [if_pos rfl,heap]
    rfl

def marked (subtype : AwdlActionType) (peer : AwdlPeer) : AwdlPeer :=
  if subtype = .mif then {peer with sentMif := true} else peer

theorem marked_addr (subtype : AwdlActionType) (peer : AwdlPeer) : (marked subtype peer).addr = peer.addr := by
  unfold marked
  split <;> rfl

theorem mark_run (held : t.cells.live p = some peer) (subtype : AwdlActionType) :
    markSentMif subtype t p = .ok ⟨t.cells.put p (some (marked subtype peer)),t.map⟩ := by
  unfold markSentMif marked
  split
  · simp only [ok_bind,ok_pure,Cells.read_live held,Cells.write_live held]
  · rw [Cells.put_same held]
    rfl

theorem store_found (find : Hashmap.hashmapFind hash peers src = some i) (peer : AwdlPeer) :
    EspOwl.awdlPeerStore hash peers src peer = peers.assign i src peer := by
  rw [EspOwl.awdlPeerStore,find]

-- Behind the loop the record is where it was in front of it: the heap was written to, and
-- nothing allocated or freed.
theorem end_received (houses : Houses hash m t peers) (used : m.data[i]? = some (some (src,p,p)))
    (held : t.cells.live p = some peer) (find : Hashmap.hashmapFind hash peers src = some i) (loop : EspOwl.TlvRun)
    (own : loop.src.addr = peer.addr) (env : Ambient) (callocs : List Bool) (tsft : UInt64) (subtype : AwdlActionType)
    (called : List AwdlPeer) :
    Received hash True m t
      (awdlRxActionEnd hash env callocs tsft src subtype p t.map
        ⟨loop.result,loop.frame,t.cells.put p (some loop.src),loop.state,loop.calls⟩ called)
      (EspOwl.awdlRxActionEnd hash env callocs tsft src subtype {loop with state := loop.state.setPeers peers} called) := by
  have written := houses.write used held own
  have member : (src,p,p) ∈ m.entries := Hashmap.mem_entries.mpr ⟨i,used⟩
  have stored : EspOwl.awdlPeerStore hash (loop.state.setPeers peers).peers.peers src loop.src =
      peers.assign i src loop.src := store_found find _
  unfold awdlRxActionEnd EspOwl.awdlRxActionEnd
  dsimp only
  rw [stored]
  split
  · exact .ran ⟨rfl,rfl,rfl,rfl,rfl,m,written,fun _ owned => owned_put owned member _⟩
  · generalize (if bufLen loop.frame = 1 ∧ loop.frame.getD 0 0 = 0x00 then (bufStrip loop.frame 1).getD loop.frame
      else loop.frame) = left
    split
    · exact .ran ⟨rfl,rfl,rfl,rfl,rfl,m,written,fun _ owned => owned_put owned member _⟩
    · have again := written.write used (Cells.put_self ..) (marked_addr subtype loop.src)
      have second : EspOwl.awdlPeerStore hash ((loop.state.setPeers peers).setPeers
          (peers.assign i src loop.src)).peers.peers src (marked subtype loop.src) =
            (peers.assign i src loop.src).assign i src (marked subtype loop.src) :=
        store_found (Hashmap.find_assign find _).1 _
      have added := add_known again (Hashmap.mem_keys.mpr ⟨_,member⟩) env.fuel callocs env.peerMem tsft
      rw [mark_run (Cells.put_self ..)]
      simp only [ok_bind]
      unfold marked at second added ⊢
      rw [second]
      revert added
      generalize awdlPeerAdd hash env.fuel callocs env.peerMem _ src tsft = heap
      generalize EspOwl.awdlPeerAdd hash env.fuel callocs env.peerMem _ src tsft = model
      rintro (_ | ⟨status,turned,_,next,housed,owned⟩)
      · exact .endless
      · refine .ran ⟨rfl,rfl,rfl,by rw [turned],rfl,next,housed,fun supply before => owned.1 supply ?_⟩
        exact owned_put (owned_put before member _) member _

theorem Received.after (received : Received hash True m middle heap model) (before : supplied → Owned n t → Owned m middle) :
    Received hash supplied n t heap model := by
  cases received with
  | endless => exact .endless
  | ran same =>
    obtain ⟨result,out,calls,called,state,next,houses,owned⟩ := same
    exact .ran ⟨result,out,calls,called,state,next,houses,fun supply held => owned trivial (before supply held)⟩

theorem entered_received (houses : Houses hash m t peers) (env : Ambient) (callocs : List Bool) (frame : Buf)
    (tsft : UInt64) (src : EtherAddr) (subtype : AwdlActionType) (state : AwdlState) (called : List AwdlPeer) :
    Received hash True m t
      (do
        match ← awdlPeerGet hash t src with
        | (.ok,some peer) =>
          let run ← awdlRxTlvs env.chanMem tsft frame peer t.cells state
          awdlRxActionEnd hash env callocs tsft src subtype peer t.map run called
        | _ => return some ⟨.ignore,⟨state,t⟩,[],[],called⟩)
      (match EspOwl.awdlPeerGet hash peers src with
        | (.ok,some peer) =>
          EspOwl.awdlRxActionEnd hash env callocs tsft src subtype
            (EspOwl.awdlRxTlvs env.chanMem tsft frame peer (state.setPeers peers)) called
        | _ => some ⟨.ignore,state.setPeers peers,[],[],called⟩) := by
  rcases get_cases houses src with ⟨_,heap,model⟩ | ⟨i,p,peer,used,held,find,heap,model⟩
  · rw [heap,model]
    exact .ran ⟨rfl,rfl,rfl,rfl,rfl,m,houses,fun _ => id⟩
  · have loop := tlvs_run env.chanMem tsft frame held state
    have own := (tlvs_footprint env.chanMem tsft frame peer state).addr
    rw [heap,model]
    simp only [ok_bind,ok_pure,loop,tlvs_setPeers]
    exact end_received houses used held find _ own env callocs tsft subtype called

theorem action_received (houses : Houses hash m node.table peers) (env : Ambient) (frame : Buf) (rssi : Int8)
    (tsft : UInt64) (src : EtherAddr) :
    Received hash (env.callocs = []) m node.table (awdlRxAction hash env frame rssi tsft src node)
      (EspOwl.awdlRxAction hash env frame rssi tsft src (node.state.setPeers peers)) := by
  unfold awdlRxAction EspOwl.awdlRxAction
  cases awdlParseActionHdr frame with
  | none => exact .stop houses .ignore
  | some subtype =>
    dsimp only
    rw [rssi_housed houses]
    simp only [ok_bind]
    split
    · exact .stop houses .ignoreRssi
    · have added := add_agrees houses env.fuel env.callocs env.peerMem src tsft
      revert added
      generalize awdlPeerAdd hash env.fuel env.callocs env.peerMem node.table src tsft = heap
      generalize stored : EspOwl.awdlPeerAdd hash env.fuel env.callocs env.peerMem
        (AwdlState.setPeers _ peers).peers.peers src tsft = model
      have same : EspOwl.awdlPeerAdd hash env.fuel env.callocs env.peerMem peers src tsft = model := stored
      rw [same]
      rintro (_ | ⟨status,turned,callocs,next,housed,owned⟩)
      · exact .endless
      · rename_i run model
        simp only [ok_bind,status,turned,callocs]
        split
        · exact .ran ⟨rfl,rfl,rfl,rfl,rfl,next,housed,owned.1⟩
        · exact (entered_received housed env model.callocs ((bufStrip frame AwdlAction.size).getD frame) tsft src subtype
            {node.state with stats.rxAction := node.state.stats.rxAction + 1} model.called.toList).after owned.1

-- A data frame leaves the table alone.
theorem data_housed (houses : Houses hash m t peers) (mem : Nat → UInt8) (frame : Buf) (src dst : EtherAddr)
    (state : AwdlState) :
    let model := EspOwl.awdlRxData hash mem frame src dst (state.setPeers peers)
    awdlRxData hash mem frame src dst ⟨state,t⟩ = .ok (model.1,model.2.1,⟨countData state,t⟩) ∧
      model.2.2 = (countData state).setPeers peers := by
  obtain ⟨found,heap⟩ := status_housed houses src
  unfold awdlRxData EspOwl.awdlRxData
  dsimp only
  rw [heap]
  have same : (AwdlState.setPeers state peers).peers.peers = peers := rfl
  rw [same]
  simp only [ok_bind,ok_pure]
  split
  · exact ⟨rfl,rfl⟩
  · split
    · exact ⟨rfl,rfl⟩
    · split <;> exact ⟨rfl,rfl⟩

theorem heapAmsdu_turn (bufMem : Nat → Nat → UInt8) (emitted : Nat) (frame : Buf) (node : HeapNode)
    (more : bufLen frame ≠ 0) : awdlRxDataAmsdu hash bufMem emitted frame node = match readSubframe frame with
      | none => .ok (.tooShort,[],node)
      | some (subframe,rest) => do
        let (err,packets,node) ← awdlRxData hash (bufMem emitted) subframe.body subframe.src subframe.dst node
        if err.code < 0 then return (err,packets,node)
        else match stripPadding subframe.body.length rest with
          | none => return (.tooShort,packets,node)
          | some rest =>
            let (result,later,node) ← awdlRxDataAmsdu hash bufMem (emitted + packets.length) rest node
            return (result,packets ++ later,node) := by
  rw [awdlRxDataAmsdu,if_neg more]
  split <;> rename_i found
  · rw [found]
  · rw [found]
    dsimp only
    congr 1
    funext run
    obtain ⟨err,packets,node⟩ := run
    dsimp only
    split
    · rfl
    · split <;> rename_i padded <;> rw [padded]

theorem amsdu_housed (houses : Houses hash m t peers) (bufMem : Nat → Nat → UInt8) (emitted : Nat) (frame : Buf)
    (state : AwdlState) :
    let model := EspOwl.awdlRxDataAmsdu hash bufMem emitted frame (state.setPeers peers)
    ∃ after, awdlRxDataAmsdu hash bufMem emitted frame ⟨state,t⟩ = .ok (model.1,model.2.1,⟨after,t⟩) ∧
      model.2.2 = after.setPeers peers := by
  induction size : frame.length using Nat.strong_induction_on generalizing frame emitted state with
  | _ size ih =>
    by_cases empty : bufLen frame = 0
    · rw [awdlRxDataAmsdu,EspOwl.awdlRxDataAmsdu,if_pos empty,if_pos empty]
      exact ⟨state,rfl,rfl⟩
    · dsimp only
      rw [heapAmsdu_turn _ _ _ _ empty,amsdu_turn _ _ _ empty]
      cases found : readSubframe frame with
      | none => exact ⟨state,rfl,rfl⟩
      | some next =>
        obtain ⟨subframe,rest⟩ := next
        have shorter := readSubframe_shorter found
        obtain ⟨heap,model⟩ := data_housed houses (bufMem emitted) subframe.body subframe.src subframe.dst state
        dsimp only at heap model ⊢
        rw [heap]
        simp only [ok_bind,ok_pure,model]
        split
        · exact ⟨_,rfl,rfl⟩
        · cases padded : stripPadding subframe.body.length rest with
          | none => exact ⟨_,rfl,rfl⟩
          | some rest =>
            have kept := stripPadding_length padded
            obtain ⟨after,heap,model⟩ := ih rest.length (by omega) (emitted + (EspOwl.awdlRxData hash (bufMem emitted)
              subframe.body subframe.src subframe.dst (state.setPeers peers)).2.1.length) rest (countData state) rfl
            dsimp only
            rw [heap,model]
            exact ⟨after,rfl,rfl⟩

theorem rx_received (houses : Houses hash m node.table peers) (env : Ambient) (rxCtrlLen : Nat) (frame : Buf)
    (now : UInt64) :
    Received hash (env.callocs = []) m node.table (awdlRx hash env rxCtrlLen frame now node)
      (EspOwl.awdlRx hash env rxCtrlLen frame now (node.state.setPeers peers)) := by
  rw [rx_follows,awdlRx]
  have same : (node.state.setPeers peers).selfAddress = node.state.selfAddress := rfl
  rw [same]
  cases route rxCtrlLen node.state.selfAddress frame with
  | drop result => exact .stop houses result
  | action rssi src body => exact action_received houses env body rssi now src
  | data src dst body =>
    obtain ⟨heap,model⟩ := data_housed houses (env.bufMem 0) body src dst node.state
    dsimp only [follow] at heap ⊢
    rw [heap]
    exact .ofData houses model
  | amsdu body =>
    obtain ⟨after,heap,model⟩ := amsdu_housed houses env.bufMem 0 body node.state
    dsimp only [follow] at heap ⊢
    rw [heap]
    exact .ofData houses model

end Receptions

section Election

-- What master_state points to is allocated as long as the loop goes on.
inductive Chosen (t : PeerTable) : Option Nat → Option AwdlElectionState → Prop where
  | own : Chosen t none none
  | peer {p : Nat} {peer : AwdlPeer} (held : t.cells.live p = some peer) : Chosen t (some p) (some peer.election)

theorem Chosen.read (chosen : Chosen t masterState model) (own : AwdlElectionState) :
    masterElection own t masterState = .ok (model.getD own) := by
  cases chosen with
  | own => rfl
  | peer held =>
    unfold masterElection
    simp only [ok_bind,ok_pure,Cells.read_live held,Option.getD_some]

theorem consider_chosen (held : t.cells.live p = some peer) (chosen : Chosen t masterState model)
    (own : AwdlElectionState) : ∃ after, awdlElectionConsider own t p masterState = .ok after ∧
      Chosen t after (EspOwl.awdlElectionConsider own peer model) := by
  unfold awdlElectionConsider EspOwl.awdlElectionConsider
  rw [Cells.read_live held,chosen.read]
  simp only [ok_bind,ok_pure]
  split_ifs
  all_goals first
    | exact ⟨_,rfl,chosen⟩
    | exact ⟨_,rfl,.peer held⟩

theorem election_housed (houses : Houses hash m t peers) (state : AwdlElectionState) :
    awdlElectionRun state t = .ok (EspOwl.awdlElectionRun state peers) := by
  have each : ∀ (m : HashmapMap EtherAddr (Nat × Nat)) t peers (i : Nat) addr p peer masterState model,
      Houses hash m t peers → Chosen t masterState model → m.data[i]? = some (some (addr,p,p)) →
      t.cells.live p = some peer → ∃ next table after,
        (do return (t,← awdlElectionConsider (awdlElectionResetSelf state) t p masterState) :
          Except Fault (PeerTable × Option Nat)) = .ok (table,after) ∧
        Chosen table after (EspOwl.awdlElectionConsider (awdlElectionResetSelf state) peer model) ∧
        Houses hash next table peers ∧ (True → Owned m t → Owned next table) ∧ next.entries ⊆ m.entries := by
    intro m t peers i addr p peer masterState model housed chosen used held
    obtain ⟨after,considered,kept⟩ := consider_chosen held chosen (awdlElectionResetSelf state)
    refine ⟨m,t,after,?_,kept,housed,fun _ => id,List.Subset.refl _⟩
    rw [considered]
    rfl
  have iterated : ∃ next table masterState, peersIterate (fun _ t peer masterState => do
        return (t,← awdlElectionConsider (awdlElectionResetSelf state) t peer masterState)) t none =
      .ok (table,masterState) ∧
      Chosen table masterState (Hashmap.hashmapIterate (fun _ peers entry masterState =>
        (peers,EspOwl.awdlElectionConsider (awdlElectionResetSelf state) entry.2 masterState)) peers none).2 ∧
      Houses hash next table (Hashmap.hashmapIterate (fun _ peers entry masterState =>
        (peers,EspOwl.awdlElectionConsider (awdlElectionResetSelf state) entry.2 masterState)) peers none).1 ∧
      (True → Owned m t → Owned next table) ∧ next.entries ⊆ m.entries := iterate_related Chosen each houses .own
  obtain ⟨next,table,masterState,ran,chosen,_⟩ := iterated
  unfold awdlElectionRun EspOwl.awdlElectionRun awdlElectionMaster
  dsimp only
  rw [ran,awdlPeersIterate_hashmap]
  revert chosen
  generalize (Hashmap.hashmapIterate (fun _ peers entry masterState =>
    (peers,EspOwl.awdlElectionConsider (awdlElectionResetSelf state) entry.2 masterState)) peers none).2 = model
  rintro (_ | held)
  · rfl
  · simp only [ok_bind,(Chosen.peer held).read]
    rfl

theorem cleaned_housed (houses : Houses hash m node.table peers) (now : UInt64) :
    let model := EspOwl.awdlCleanPeers now (node.state.setPeers peers)
    ∃ left next, awdlCleanPeers now node = .ok left ∧ model = left.state.setPeers model.peers.peers ∧
      Houses hash next left.table model.peers.peers ∧ (Owned m node.table → Owned next left.table) := by
  obtain ⟨next,table,ran,housed,owned,_⟩ := removeBefore_housed houses (now - node.state.peers.timeout)
  let elected := EspOwl.awdlElectionRun node.state.election
    (EspOwl.awdlPeersRemove peers (now - node.state.peers.timeout))
  refine ⟨⟨{node.state with election := elected},table⟩,next,?_,rfl,housed,owned⟩
  unfold awdlCleanPeers
  dsimp only
  rw [ran]
  simp only [ok_bind,ok_pure]
  rw [election_housed housed]
  rfl

end Election

section Runs

-- The invariant: up to the place of the records, the node is the node of Node.
structure Holds (hash : EtherAddr → UInt64) (m : HashmapMap EtherAddr (Nat × Nat)) (node : HeapNode) (state : AwdlState) :
    Prop where
  rest : state = node.state.setPeers state.peers.peers
  houses : Houses hash m node.table state.peers.peers

theorem boot_holds (mem : AwdlState) (hostname : List UInt8) (self : EtherAddr) (chan : AwdlChan) (now : UInt64) :
    Holds hash Hashmap.hashmapNew (heapBoot mem hostname self chan now) (awdlInitState mem hostname self chan now) :=
  ⟨rfl,init_houses⟩

theorem boot_owned (mem : AwdlState) (hostname : List UInt8) (self : EtherAddr) (chan : AwdlChan) (now : UInt64) :
    Owned Hashmap.hashmapNew (heapBoot mem hostname self chan now).table := fun _ _ live => by cases live

variable {node : HeapNode} {state : AwdlState}

theorem Holds.received (holds : Holds hash m node state) (env : Ambient) (rxCtrlLen : Nat) (frame : Buf) (now : UInt64) :
    Received hash (env.callocs = []) m node.table (awdlRx hash env rxCtrlLen frame now node)
      (EspOwl.awdlRx hash env rxCtrlLen frame now state) := by
  rw [holds.rest]
  exact rx_received holds.houses env rxCtrlLen frame now

theorem Holds.cleaned (holds : Holds hash m node state) (now : UInt64) :
    ∃ left next, awdlCleanPeers now node = .ok left ∧ Holds hash next left (EspOwl.awdlCleanPeers now state) ∧
      (Owned m node.table → Owned next left.table) := by
  obtain ⟨left,next,ran,rest,housed,owned⟩ := cleaned_housed holds.houses now
  rw [← holds.rest] at rest housed
  exact ⟨left,next,ran,⟨rest,housed⟩,owned⟩

-- The other steps neither read nor write the table.
theorem Holds.aside (holds : Holds hash m node state) (change : AwdlState → AwdlState)
    (apart : ∀ s peers, change (s.setPeers peers) = (change s).setPeers peers) :
    Holds hash m {node with state := change node.state} (change state) := by
  have same : change state = (change node.state).setPeers state.peers.peers := by
    conv_lhs => rw [holds.rest,apart]
  refine ⟨?_,?_⟩
  · rw [same]
    rfl
  · rw [same]
    exact holds.houses

theorem sendData_apart (traffic : Traffic) (buf : Buf) (ieee80211State : Ieee80211State) (s : AwdlState)
    (peers : AwdlPeers) : countTx (awdlSendData buf (s.setPeers peers) ieee80211State).2.1 traffic =
      (countTx (awdlSendData buf s ieee80211State).2.1 traffic).setPeers peers := by
  unfold awdlSendData
  cases readEtherAddr buf etherDstOffset with
  | none => cases traffic <;> rfl
  | some dst => cases traffic <;> rfl

theorem switchChannel_apart (now : UInt64) (s : AwdlState) (peers : AwdlPeers) :
    awdlSwitchChannel now (s.setPeers peers) = (awdlSwitchChannel now s).setPeers peers := by
  unfold awdlSwitchChannel AwdlState.setPeers
  dsimp only
  split <;> rfl

-- One step on the heap is one of the node, and allocates nothing that it loses.
theorem step_holds (holds : Holds hash m node state) (step : HeapStep hash rxCtrlLen node event out next) :
    ∃ after n, NodeStep hash rxCtrlLen state event out after ∧ Holds hash n next after ∧
      (Supplied event → Owned m node.table → Owned n next.table) := by
  cases step with
  | receive ran =>
    rename_i env frame now run
    have received := holds.received env rxCtrlLen frame now
    rw [ran] at received
    generalize model : EspOwl.awdlRx hash env rxCtrlLen frame now state = answer at received
    cases received with
    | ran same =>
      obtain ⟨_,out,_,_,rest,n,housed,owned⟩ := same
      rw [out]
      exact ⟨_,n,.receive model,⟨rest,housed⟩,owned⟩
  | cleanPeers ran =>
    obtain ⟨left,n,cleaned,after,owned⟩ := holds.cleaned _
    rw [ran] at cleaned
    cases cleaned
    exact ⟨_,n,.cleanPeers,after,fun _ => owned⟩
  | sendAction => exact ⟨_,m,.sendAction,holds.aside awdlSendAction fun _ _ => rfl,fun _ => id⟩
  | @sendData _ traffic buf ieee80211State =>
    exact ⟨_,m,.sendData,holds.aside (fun s => countTx (awdlSendData buf s ieee80211State).2.1 traffic)
      (sendData_apart traffic buf ieee80211State),fun _ => id⟩
  | @switchChannel _ now => exact ⟨_,m,.switchChannel,holds.aside (awdlSwitchChannel now) (switchChannel_apart now),fun _ => id⟩
  | filterOff => exact ⟨_,m,.filterOff,holds.aside (fun s => {s with filterRssi := false}) fun _ _ => rfl,fun _ => id⟩

-- And a step of the node is one on the heap.
theorem step_taken (holds : Holds hash m node state) (step : NodeStep hash rxCtrlLen state event out after) :
    ∃ next, HeapStep hash rxCtrlLen node event out next := by
  cases step with
  | receive ran =>
    rename_i env frame now run
    have received := holds.received env rxCtrlLen frame now
    rw [ran] at received
    generalize heap : awdlRx hash env rxCtrlLen frame now node = answer at received
    cases received with
    | ran same =>
      rw [← same.out]
      exact ⟨_,.receive heap⟩
  | @cleanPeers _ now =>
    obtain ⟨left,_,cleaned,_⟩ := holds.cleaned now
    exact ⟨left,.cleanPeers cleaned⟩
  | sendAction => exact ⟨_,.sendAction⟩
  | sendData => exact ⟨_,.sendData⟩
  | switchChannel => exact ⟨_,.switchChannel⟩
  | filterOff => exact ⟨_,.filterOff⟩

theorem Holds.faultless (holds : Holds hash m node state) (event : Event) : ¬ Faults hash rxCtrlLen node event := by
  rintro ⟨fault,⟨env,frame,now,_,failed⟩ | ⟨now,_,failed⟩⟩
  · have received := holds.received env rxCtrlLen frame now
    rw [failed] at received
    cases received
  · obtain ⟨left,_,cleaned,_⟩ := holds.cleaned now
    rw [failed] at cleaned
    cases cleaned

theorem runs_hold (holds : Holds hash m node state) (path : Runs (HeapStep hash rxCtrlLen) node trace last) :
    ∃ after n, Runs (NodeStep hash rxCtrlLen) state trace after ∧ Holds hash n last after ∧
      ((∀ entry ∈ trace, Supplied entry.1) → Owned m node.table → Owned n last.table) := by
  induction path generalizing m state with
  | nil => exact ⟨state,m,.nil,holds,fun _ => id⟩
  | cons head _ ih =>
    obtain ⟨middle,n,one,kept,owned⟩ := step_holds holds head
    obtain ⟨after,k,rest,final,later⟩ := ih kept
    refine ⟨after,k,.cons one rest,final,fun supplied before => ?_⟩
    rw [List.forall_mem_cons] at supplied
    exact later supplied.2 (owned supplied.1 before)

end Runs

-- Whatever frames a node receives, no step uses a record that is gone. What it does is what
-- the node of records does, with every peer at the end of a pointer, and while no calloc
-- fails, awdl_peers_free leaves nothing of the table.
theorem node_memory (path : Runs (HeapStep hash rxCtrlLen) (heapBoot mem hostname self chan boot) trace node) :
    (∀ event, ¬ Faults hash rxCtrlLen node event) ∧
    ∃ state, Runs (NodeStep hash rxCtrlLen) (awdlInitState mem hostname self chan boot) trace state ∧
      state = node.state.setPeers state.peers.peers ∧
      (∀ addr, (awdlPeerGet hash node.table addr = .ok (.missing,none) ∧
          EspOwl.awdlPeerGet hash state.peers.peers addr = (.missing,none)) ∨
        ∃ p peer, node.table.cells.live p = some peer ∧ awdlPeerGet hash node.table addr = .ok (.ok,some p) ∧
          EspOwl.awdlPeerGet hash state.peers.peers addr = (.ok,some peer)) ∧
      (∀ event out after, NodeStep hash rxCtrlLen state event out after →
        ∃ next, HeapStep hash rxCtrlLen node event out next) ∧
      ∃ freed, awdlPeersFree node.table = .ok freed ∧
        ((∀ entry ∈ trace, Supplied entry.1) → ∀ p, freed.cells.live p = none) := by
  obtain ⟨state,m,matched,holds,owned⟩ := runs_hold (@boot_holds hash mem hostname self chan boot) path
  obtain ⟨freed,ran,_,nothing⟩ := free_housed holds.houses
  refine ⟨holds.faultless,state,matched,holds.rest,fun addr => ?_,fun _ _ _ => step_taken holds,freed,ran,fun supplied =>
    nothing (owned supplied (boot_owned mem hostname self chan boot))⟩
  rcases get_cases holds.houses addr with ⟨_,heap,model⟩ | ⟨_,p,peer,_,held,_,heap,model⟩
  · exact .inl ⟨heap,model⟩
  · exact .inr ⟨p,peer,held,heap,model⟩

-- A node hears the MIF of a station and is shut down.
theorem node_memory_introduction : ∃ trace node freed,
    Runs (HeapStep (fun _ => 0) 24) (heapBoot default [] nodeOne chanOpclass6 0) trace node ∧ trace ≠ [] ∧
      awdlPeersFree node.table = .ok freed ∧ freed.cells.live 0 = none := by
  have follows : (EspOwl.awdlRx (fun _ => 0) roomy 24 introduction 3000000 fresh).isSome := by decide +kernel
  obtain ⟨run,ran⟩ := Option.isSome_iff_exists.mp follows
  have started : Runs (HeapStep (fun _ => 0) 24) (heapBoot default [] nodeOne chanOpclass6 0) [] _ := .nil
  obtain ⟨_,state,matched,_,_,taken,_⟩ := node_memory started
  cases matched
  obtain ⟨next,step⟩ := taken _ _ _ (.receive ran)
  have path := Runs.cons step .nil
  obtain ⟨_,_,_,_,_,_,freed,free,nothing⟩ := node_memory path
  exact ⟨_,next,freed,path,List.cons_ne_nil _ _,free,nothing (by simp [Supplied,roomy,quiet]) 0⟩


end EspOwl.PeerHeap
