import EspOwl.PeerMap
import EspOwl.TlvLoop

namespace EspOwl.ActionFrames
open TlvLoop PeerMap

-- What the TLV loop of awdl_rx_action starts from.
structure Entry where
  subtype : AwdlActionType
  added : AddRun
  peer : AwdlPeer

-- A frame is dropped before the loop, with this run, or enters it.
inductive Admission where
  | dropped (run : Option RxRun)
  | entered (entry : Entry)

def counted (state : AwdlState) (added : AddRun) : AwdlState :=
  {state with stats.rxAction := state.stats.rxAction + 1}.setPeers added.peers

def admission (hash : EtherAddr → UInt64) (env : Ambient) (frame : Buf) (rssi : Int8) (tsft : UInt64)
    (src : EtherAddr) (state : AwdlState) : Admission :=
  match awdlParseActionHdr frame with
  | none => .dropped (some (.stop .ignore state))
  | some subtype =>
    if rssiTooLow hash state rssi src then .dropped (some (.stop .ignoreRssi state))
    else
      match awdlPeerAdd hash env.fuel env.callocs env.peerMem state.peers.peers src tsft with
      | none => .dropped none
      | some added =>
        if added.status.code < 0 then .dropped (some ⟨.ignore,counted state added,[],[],added.called.toList⟩)
        else
          match awdlPeerGet hash added.peers src with
          | (.ok,some peer) => .entered ⟨subtype,added,peer⟩
          | _ => .dropped (some ⟨.ignore,counted state added,[],[],added.called.toList⟩)

-- The checks ahead of the first addition.
def Admitted (hash : EtherAddr → UInt64) (frame : Buf) (rssi : Int8) (src : EtherAddr) (state : AwdlState) : Prop :=
  (awdlParseActionHdr frame).isSome = true ∧ rssiTooLow hash state rssi src = false

-- The loop went to the end, and at most an FCS is left. A last byte 00 does not count.
def Accepted (loop : TlvRun) : Prop := ¬ loop.result.code < 0 ∧ bufLen loop.frame ≤ 4

-- The record after the second addition, and the name of a MIF.
def settle (tsft : UInt64) (subtype : AwdlActionType) (peer : AwdlPeer) : AwdlPeer :=
  touch tsft (if subtype = .mif then {peer with sentMif := true} else peer)

variable {hash : EtherAddr → UInt64}

-- awdl_rx_action in two halves, the second one from the loop on.
theorem action_admission (env : Ambient) (frame : Buf) (rssi : Int8) (tsft : UInt64) (src : EtherAddr)
    (state : AwdlState) : awdlRxAction hash env frame rssi tsft src state =
      match admission hash env frame rssi tsft src state with
      | .dropped run => run
      | .entered entry => awdlRxActionEnd hash env entry.added.callocs tsft src entry.subtype
        (awdlRxTlvs env.chanMem tsft ((bufStrip frame AwdlAction.size).getD frame) entry.peer
          (counted state entry.added)) entry.added.called.toList := by
  unfold awdlRxAction admission
  cases awdlParseActionHdr frame with
  | none => rfl
  | some subtype =>
    dsimp only
    cases rssiTooLow hash state rssi src with
    | true => rfl
    | false =>
      rw [if_neg Bool.false_ne_true,if_neg Bool.false_ne_true]
      cases awdlPeerAdd hash env.fuel env.callocs env.peerMem state.peers.peers src tsft with
      | none => rfl
      | some added =>
        dsimp only
        by_cases refused : added.status.code < 0
        · rw [if_pos refused,if_pos refused]
          rfl
        · rw [if_neg refused,if_neg refused]
          change (match awdlPeerGet hash added.peers src with
            | (.ok,some peer) => awdlRxActionEnd hash env added.callocs tsft src subtype
              (awdlRxTlvs env.chanMem tsft ((bufStrip frame AwdlAction.size).getD frame) peer (counted state added))
                added.called.toList
            | _ => some ⟨.ignore,counted state added,[],[],added.called.toList⟩) = _
          obtain ⟨status,found⟩ := awdlPeerGet hash added.peers src
          cases status <;> cases found <;> rfl

theorem action_entered (start : admission hash env frame rssi tsft src state = .entered entry) :
    awdlRxAction hash env frame rssi tsft src state =
      awdlRxActionEnd hash env entry.added.callocs tsft src entry.subtype
        (awdlRxTlvs env.chanMem tsft ((bufStrip frame AwdlAction.size).getD frame) entry.peer (counted state entry.added))
        entry.added.called.toList := by
  rw [action_admission,start]

theorem action_dropped (start : admission hash env frame rssi tsft src state = .dropped run) :
    awdlRxAction hash env frame rssi tsft src state = run := by
  rw [action_admission,start]

-- Everything the first half can come to.
theorem admission_cases (env : Ambient) (frame : Buf) (rssi : Int8) (tsft : UInt64) (src : EtherAddr)
    (state : AwdlState) :
    (∃ result, admission hash env frame rssi tsft src state = .dropped (some (.stop result state))) ∨
      (awdlPeerAdd hash env.fuel env.callocs env.peerMem state.peers.peers src tsft = none ∧
        admission hash env frame rssi tsft src state = .dropped none) ∨
      Admitted hash frame rssi src state ∧
      ∃ added, awdlPeerAdd hash env.fuel env.callocs env.peerMem state.peers.peers src tsft = some added ∧
        (admission hash env frame rssi tsft src state =
            .dropped (some ⟨.ignore,counted state added,[],[],added.called.toList⟩) ∨
          ∃ subtype peer, awdlPeerGet hash added.peers src = (.ok,some peer) ∧
            admission hash env frame rssi tsft src state = .entered ⟨subtype,added,peer⟩) := by
  unfold admission
  cases head : awdlParseActionHdr frame with
  | none => exact .inl ⟨_,rfl⟩
  | some subtype =>
    dsimp only
    cases level : rssiTooLow hash state rssi src with
    | true => exact .inl ⟨_,rfl⟩
    | false =>
      rw [if_neg Bool.false_ne_true]
      cases awdlPeerAdd hash env.fuel env.callocs env.peerMem state.peers.peers src tsft with
      | none => exact .inr (.inl ⟨rfl,rfl⟩)
      | some added =>
        refine .inr (.inr ⟨⟨by rw [head]; rfl,level⟩,added,rfl,?_⟩)
        dsimp only
        by_cases refused : added.status.code < 0
        · exact .inl (if_pos refused)
        · rw [if_neg refused]
          obtain ⟨status,found⟩ := awdlPeerGet hash added.peers src
          cases status <;> cases found <;> first | exact .inl rfl | exact .inr ⟨_,_,rfl,rfl⟩

theorem entered_added (start : admission hash env frame rssi tsft src state = .entered entry) :
    Admitted hash frame rssi src state ∧
    awdlPeerAdd hash env.fuel env.callocs env.peerMem state.peers.peers src tsft = some entry.added ∧
      awdlPeerGet hash entry.added.peers src = (.ok,some entry.peer) := by
  rcases @admission_cases hash env frame rssi tsft src state with ⟨_,ends⟩ | ⟨_,ends⟩ | ⟨passed,added,inserted,outcome⟩
  · rw [start] at ends; cases ends
  · rw [start] at ends; cases ends
  · rcases outcome with ends | ⟨subtype,peer,got,ends⟩
    · rw [start] at ends; cases ends
    · rw [start] at ends
      cases ends
      exact ⟨passed,inserted,got⟩

theorem entered_subtype (start : admission hash env frame rssi tsft src state = .entered entry) :
    awdlParseActionHdr frame = some entry.subtype := by
  unfold admission at start
  split at start
  · cases start
  · rename_i subtype head
    split at start
    · cases start
    · split at start
      · cases start
      · split at start
        · cases start
        · split at start
          · cases start
            exact head
          · cases start

-- Past the checks, an addition that succeeds lets the frame in.
theorem action_admitted (env : Ambient) (head : awdlParseActionHdr frame = some subtype)
    (level : rssiTooLow hash state rssi src = false)
    (inserted : awdlPeerAdd hash env.fuel env.callocs env.peerMem state.peers.peers src tsft = some added)
    (accepted : ¬ added.status.code < 0) :
    ∃ peer, admission hash env frame rssi tsft src state = .entered ⟨subtype,added,peer⟩ := by
  obtain ⟨peer,got⟩ := added_get inserted accepted
  exact ⟨peer,by simp only [admission,head,level,Bool.false_eq_true,if_false,inserted,if_neg accepted,got]⟩

theorem parse_bytes (af : AwdlAction) (rest : List UInt8) :
    awdlParseActionHdr (af.bytes ++ rest) = awdlParseActionHdr af.bytes := by
  have long : readBytes (af.bytes ++ rest) 0 AwdlAction.size = some af.bytes := readWord_at id [] af.bytes rest rfl
  have short : readBytes af.bytes 0 AwdlAction.size = some af.bytes := rfl
  have whole := AwdlAction.ofBytes_bytes af []
  rw [List.append_nil] at whole
  simp only [awdlParseActionHdr,long,short,checkedRead_some,AwdlAction.ofBytes_bytes,whole]

theorem parse_valid (af : AwdlAction) (kind : AwdlActionType) (category : af.category = ieee80211VendorSpecific)
    (oui : af.oui = awdlOui) (type : af.type = awdlType) (version : af.version = awdlVersionCompat)
    (subtype : af.subtype = kind.toByte) : awdlParseActionHdr af.bytes = some kind := by
  have read : readBytes af.bytes 0 AwdlAction.size = some af.bytes := rfl
  have whole := AwdlAction.ofBytes_bytes af []
  rw [List.append_nil] at whole
  simp only [awdlParseActionHdr,read,checkedRead_some,whole,category,oui,type,version,subtype]
  cases kind <;> rfl

-- Of the frame only the action header matters.
theorem admission_bytes (env : Ambient) (af : AwdlAction) (rest : List UInt8) (rssi : Int8) (tsft : UInt64)
    (src : EtherAddr) (state : AwdlState) :
    admission hash env (af.bytes ++ rest) rssi tsft src state = admission hash env af.bytes rssi tsft src state := by
  rw [admission,parse_bytes,admission]

theorem end_calls (run : TlvRun) (found : awdlPeerGet hash run.state.peers.peers src = (.ok,some held)) (env : Ambient)
    (callocs : List Bool) (tsft : UInt64) (subtype : AwdlActionType) (called : List AwdlPeer) :
    (awdlRxActionEnd hash env callocs tsft src subtype run called).map RxRun.calls = some run.calls := by
  unfold awdlRxActionEnd
  dsimp only
  split
  · rfl
  · generalize (if bufLen run.frame = 1 ∧ run.frame.getD 0 0 = 0x00 then (bufStrip run.frame 1).getD run.frame
      else run.frame) = left
    split
    · rfl
    · have first := get_store found run.src
      have second := get_store first (if subtype = .mif then {run.src with sentMif := true} else run.src)
      simp only [AwdlState.setPeers,add_found second]
      rfl

-- All that a call can do: drop the frame, only add its sender, or run the loop.
theorem action_cases (ran : awdlRxAction hash env frame rssi tsft src state = some run) :
    run.state = state ∨
      (Admitted hash frame rssi src state ∧
        ∃ added, awdlPeerAdd hash env.fuel env.callocs env.peerMem state.peers.peers src tsft = some added ∧
          run.state = counted state added) ∨
      ∃ entry, admission hash env frame rssi tsft src state = .entered entry := by
  rcases @admission_cases hash env frame rssi tsft src state with ⟨result,ends⟩ | ⟨_,ends⟩ |
    ⟨passed,added,inserted,outcome⟩
  · rw [action_dropped ends] at ran
    cases ran
    exact .inl rfl
  · rw [action_dropped ends] at ran
    cases ran
  · rcases outcome with ends | ⟨subtype,peer,_,ends⟩
    · rw [action_dropped ends] at ran
      cases ran
      exact .inr (.inl ⟨passed,added,inserted,rfl⟩)
    · exact .inr (.inr ⟨_,ends⟩)

-- The record is written back, and a frame accepted to its end adds the sender again.
theorem end_runs (ran : awdlRxActionEnd hash env callocs tsft src subtype loop called = some run) :
    let written := awdlPeerStore hash loop.state.peers.peers src loop.src
    ¬ Accepted loop ∧ run = ⟨.unexpectedFormat,loop.state.setPeers written,[],loop.calls,called⟩ ∨
      Accepted loop ∧ ∃ again, awdlPeerAdd hash env.fuel callocs env.peerMem
          (awdlPeerStore hash written src (if subtype = .mif then {loop.src with sentMif := true} else loop.src)) src
            tsft = some again ∧
        run = ⟨.ok,loop.state.setPeers again.peers,[],loop.calls,called ++ again.called.toList⟩ := by
  unfold awdlRxActionEnd at ran
  dsimp only at ran ⊢
  split at ran
  · rename_i failed
    exact .inl ⟨fun accepted => accepted.1 failed,(Option.some.inj ran).symm⟩
  · rename_i passed
    generalize trimmed : (if bufLen loop.frame = 1 ∧ loop.frame.getD 0 0 = 0x00 then
      (bufStrip loop.frame 1).getD loop.frame else loop.frame) = left at ran
    have little : bufLen left ≤ 4 ↔ bufLen loop.frame ≤ 4 := by
      subst trimmed
      split
      · rename_i single
        have one : loop.frame.length = 1 := single.1
        rw [bufStrip,if_neg (by rw [single.1]; decide),Option.getD_some,bufLen,List.length_drop,bufLen]
        omega
      · rfl
    split at ran
    · rename_i much
      exact .inl ⟨fun accepted => absurd (little.mpr accepted.2) (not_le.mpr much),(Option.some.inj ran).symm⟩
    · rename_i few
      split at ran
      · cases ran
      · rename_i again inserted
        exact .inr ⟨⟨passed,little.mp (not_lt.mp few)⟩,again,inserted,(Option.some.inj ran).symm⟩

end EspOwl.ActionFrames
