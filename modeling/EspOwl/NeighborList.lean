import EspOwl.Consistency

namespace EspOwl.NeighborList
open Histories PartialMaps PeerMap PeerHistory TlvLoop ActionFrames Dispatch NodeHistory SenderRecords ActionRoundTrip
  Addressing Consistency

-- awdl_neighbor_add. Its `state` is a copy of the struct that the data points to:
-- the copy as the function leaves it, then what the data points to.
def awdlNeighborAdd (p : AwdlPeer) (daemonState : AwdlState) : AwdlState × AwdlState :=
  let count := daemonState.peers.etherAddrCount
  ({daemonState with
    peers.etherAddrList := fun i => if i.val = count.toNat then p.addr else daemonState.peers.etherAddrList i
    peers.etherAddrCount := count + 1},daemonState)

-- The addresses that awdl_neighbors_print prints.
def awdlNeighborsPrint (daemonState : AwdlState) : List EtherAddr :=
  (List.ofFn daemonState.peers.etherAddrList).take daemonState.peers.etherAddrCount.toNat

-- The calls of peer_cb that a frame has led to. Nothing in awdl_rx reads the list.
def notify (called : List AwdlPeer) (state : AwdlState) : AwdlState :=
  called.foldl (fun state p => (awdlNeighborAdd p state).2) state

-- The steps of a node with its callbacks registered. A removal calls nothing: both
-- calls of peer_remove_cb are commented out.
inductive DaemonStep (hash : EtherAddr → UInt64) (rxCtrlLen : Nat) :
    AwdlState → Event → List Buf → AwdlState → Prop where
  | receive (ran : awdlRx hash env rxCtrlLen frame now state = some run) :
      DaemonStep hash rxCtrlLen state (.receive env frame now) run.out (notify run.called run.state)
  | other (silent : ∀ env frame now, event ≠ .receive env frame now)
      (step : NodeStep hash rxCtrlLen state event out next) : DaemonStep hash rxCtrlLen state event out next

def Mirrors (state : AwdlState) : Prop :=
  (awdlNeighborsPrint state).Nodup ∧ ∀ addr, addr ∈ awdlNeighborsPrint state ↔
    ∃ peer, (addr,peer) ∈ state.peers.peers.entries ∧ peer.isValid = true

-- The record that the second addition looks at.
def marked (subtype : AwdlActionType) (peer : AwdlPeer) : AwdlPeer :=
  if subtype = .mif then {peer with sentMif := true} else peer

-- A frame that gets past the checks completes its sender when the sender's record is
-- complete already, or when the TLVs of the frame, accepted to its end, make it so.
def Completes (hash : EtherAddr → UInt64) (env : Ambient) (rxCtrlLen : Nat) (frame : Buf) (now : UInt64)
    (state : AwdlState) : Prop :=
  ∃ rssi src body, route rxCtrlLen state.selfAddress frame = .action rssi src body ∧
    Admitted hash body rssi src state ∧
    ((∃ old, awdlPeerGet hash state.peers.peers src = (.ok,some old) ∧ awdlPeerIsValid old = true) ∨
      ∃ entry, admission hash env body rssi now src state = .entered entry ∧
        let run := awdlRxTlvs env.chanMem now ((bufStrip body AwdlAction.size).getD body) entry.peer
          (counted state entry.added)
        Accepted run ∧ awdlPeerIsValid (marked entry.subtype run.src) = true)

def Harmless (hash : EtherAddr → UInt64) (rxCtrlLen : Nat) (state : AwdlState) : Event → Prop
  | .receive env frame now => ¬ Completes hash env rxCtrlLen frame now state
  | _ => True

variable {hash : EtherAddr → UInt64}

theorem notify_keeps (called : List AwdlPeer) (state : AwdlState) : notify called state = state := by
  induction called with
  | nil => rfl
  | cons p rest ih => exact ih

theorem daemon_node (step : DaemonStep hash rxCtrlLen state event out next) :
    NodeStep hash rxCtrlLen state event out next := by
  cases step with
  | receive ran =>
    rw [notify_keeps]
    exact .receive ran
  | other _ step => exact step

-- The list stays empty, and as long as no peer is valid that is right.
structure Empty (hash : EtherAddr → UInt64) (f : Peers) (state : AwdlState) : Prop where
  count : state.peers.etherAddrCount = 0
  refines : Refines hash state.peers.peers f
  invalid : ∀ addr peer, f addr = some peer → peer.isValid = false

theorem mirrors_iff (refines : Refines hash state.peers.peers f) (count : state.peers.etherAddrCount = 0) :
    Mirrors state ↔ ∀ addr peer, f addr = some peer → peer.isValid = false := by
  have nothing : awdlNeighborsPrint state = [] := by
    rw [awdlNeighborsPrint,count]
    rfl
  unfold Mirrors
  rw [nothing]
  constructor
  · rintro ⟨_,same⟩ addr peer held
    rw [Bool.eq_false_iff]
    intro valid
    exact absurd ((same addr).mpr ⟨peer,(refines.listed.exact addr peer).mpr held,valid⟩) List.not_mem_nil
  · intro invalid
    refine ⟨List.nodup_nil,fun addr => iff_of_false List.not_mem_nil ?_⟩
    rintro ⟨peer,stored,valid⟩
    rw [invalid addr peer ((refines.listed.exact addr peer).mp stored)] at valid
    cases valid

theorem marked_isValid (subtype : AwdlActionType) (peer : AwdlPeer) : (marked subtype peer).isValid = peer.isValid := by
  unfold marked
  split <;> rfl

theorem settle_isValid (now : UInt64) (subtype : AwdlActionType) (peer : AwdlPeer) :
    (settle now subtype peer).isValid = (peer.isValid || awdlPeerIsValid (marked subtype peer)) := by
  rw [← marked_isValid subtype peer]
  exact touch_isValid now (marked subtype peer)

theorem receive_harmless (before : Empty hash f state) (harmless : ¬ Completes hash env rxCtrlLen frame now state)
    (ran : awdlRx hash env rxCtrlLen frame now state = some run) : ∃ g, Empty hash g run.state := by
  obtain ⟨count,refines,invalid⟩ := before
  rcases rx_cases ran with ⟨stats,left⟩ | ⟨rssi,body,way,acted⟩
  · rw [left]
    exact ⟨f,count,refines,invalid⟩
  · generalize frameSource rxCtrlLen frame = src at way acted
    have part : Admitted hash body rssi src state → ∀ peer, f src = some peer → awdlPeerIsValid peer = false := by
      intro passed peer held
      rw [Bool.eq_false_iff]
      intro complete
      exact harmless ⟨rssi,src,body,way,passed,.inl ⟨peer,refines.get_some held,complete⟩⟩
    obtain ⟨⟨g,rewritten⟩,_,_,left,_⟩ := action_rewritten (fun peer => peer.isValid = false) refines (invalid src)
      (fun passed => ⟨fun _ => rfl,fun peer held => by rw [touch_isValid,invalid src peer held,part passed peer held]; rfl⟩)
      (fun entry start fresh => by
        have through := tlvs_footprint env.chanMem now ((bufStrip body AwdlAction.size).getD body) entry.peer
          (counted state entry.added)
        refine ⟨fun _ => through.valid.trans fresh,fun accepted => ?_⟩
        rw [settle_isValid,through.valid,fresh,Bool.false_or,Bool.eq_false_iff]
        intro complete
        exact harmless ⟨rssi,src,body,way,(entered_added start).1,.inr ⟨entry,start,accepted,complete⟩⟩) acted
    rw [left]
    refine ⟨g,count,rewritten.refines,?_⟩
    intro addr peer held
    by_cases here : addr = src
    · subst here
      exact rewritten.own peer held
    · exact invalid addr peer (rewritten.others addr peer here held)

theorem receive_completing (refines : Refines hash state.peers.peers f)
    (completes : Completes hash env rxCtrlLen frame now state)
    (ran : awdlRx hash env rxCtrlLen frame now state = some run) :
    ∃ g addr peer, Refines hash run.state.peers.peers g ∧ g addr = some peer ∧ peer.isValid = true := by
  obtain ⟨rssi,src,body,way,passed,complete⟩ := completes
  rw [rx_follows,way] at ran
  change awdlRxAction hash env body rssi now src state = some run at ran
  have turned : ∃ g, Rewritten hash src (env.callocs = []) (fun peer => peer.isValid = true) f g run.state.peers.peers ∧
      g src ≠ none := by
    rcases complete with ⟨old,got,complete⟩ | ⟨entry,start,accepted,complete⟩
    · -- The first addition turns the old record valid, and nothing takes that back.
      obtain ⟨subtype,head⟩ := Option.isSome_iff_exists.mp passed.1
      obtain ⟨added,inserted,done⟩ : ∃ added, awdlPeerAdd hash env.fuel env.callocs env.peerMem state.peers.peers src now =
          some added ∧ ¬ added.status.code < 0 :=
        ⟨_,add_found got env.fuel env.callocs env.peerMem now,by rw [addOut_status]; decide⟩
      obtain ⟨peer,start⟩ := action_admitted env head passed.2 inserted done
      have respected : Respected f src env.peerMem now (fun peer => peer.isValid = true) := by
        refine ⟨fun absent => ?_,fun record held => ?_⟩
        · rw [refines.get_none absent] at got
          cases got
        · rw [refines.get_some held] at got
          cases got
          rw [touch_isValid,complete,Bool.or_true]
      refine (entered_rewritten refines start respected (fun valid => ?_) ran).1
      have through := tlvs_footprint env.chanMem now ((bufStrip body AwdlAction.size).getD body) peer
        (counted state added)
      refine ⟨fun _ => through.valid.trans valid,fun _ => ?_⟩
      rw [settle_isValid,through.valid,valid,Bool.true_or]
    · have respected : Respected f src env.peerMem now (fun _ => True) := ⟨fun _ => trivial,fun _ _ => trivial⟩
      refine (entered_rewritten refines start respected (fun _ => ⟨fun refused => absurd accepted refused,fun _ => ?_⟩) ran).1
      rw [settle_isValid,complete,Bool.or_true]
  obtain ⟨g,rewritten,held⟩ := turned
  obtain ⟨peer,bound⟩ := Option.ne_none_iff_exists'.mp held
  exact ⟨g,src,peer,rewritten.refines,bound,rewritten.own peer bound⟩

theorem step_count (refines : Refines hash state.peers.peers f) (step : NodeStep hash rxCtrlLen state event out next) :
    next.peers.etherAddrCount = state.peers.etherAddrCount := by
  rcases step_cases step with ⟨_,_,_,_,_,ran,rfl⟩ | ⟨now,_,rfl⟩ | ⟨_,_,_,_,rfl⟩
  · rcases rx_cases ran with ⟨_,left⟩ | ⟨_,_,_,acted⟩
    · rw [left]
    · obtain ⟨_,_,_,left,_⟩ := action_confined refines acted
      rw [left]
      rfl
  · rfl
  · rfl

theorem step_mirrors (before : Empty hash f state) (step : DaemonStep hash rxCtrlLen state event out next) :
    (Mirrors next ↔ Harmless hash rxCtrlLen state event) ∧
      (Harmless hash rxCtrlLen state event → ∃ g, Empty hash g next) := by
  have count := (step_count before.refines (daemon_node step)).trans before.count
  have harmless : Harmless hash rxCtrlLen state event → ∃ g, Empty hash g next := by
    intro harmless
    cases step with
    | receive ran =>
      rw [notify_keeps]
      exact receive_harmless before harmless ran
    | other silent step =>
      rcases step_cases step with ⟨env,frame,now,_,same,_⟩ | ⟨now,_,rfl⟩ | ⟨_,_,_,_,rfl⟩
      · exact absurd same (silent env frame now)
      · refine ⟨_,before.count,removeBefore_refines before.refines _,?_⟩
        intro addr peer held
        rw [keepIf,Option.filter_eq_some_iff] at held
        exact before.invalid addr peer held.1
      · exact ⟨f,before.count,before.refines,before.invalid⟩
  refine ⟨⟨fun mirrors => ?_,fun fine => ?_⟩,harmless⟩
  · cases step with
    | receive ran =>
      rw [notify_keeps] at mirrors count
      intro completes
      obtain ⟨g,addr,peer,refines,held,valid⟩ := receive_completing before.refines completes ran
      rw [(mirrors_iff refines count).mp mirrors addr peer held] at valid
      cases valid
    | other silent step =>
      cases event with
      | receive env frame now => exact absurd rfl (silent env frame now)
      | _ => trivial
  · obtain ⟨g,after⟩ := harmless fine
    exact (mirrors_iff after.refines after.count).mpr after.invalid

-- The list mirrors the table exactly as long as no frame has completed a peer: in
-- every run without one, and after the first one no more.
theorem neighbors_mirrored_iff (mem : AwdlState) (hostname : List UInt8) (self : EtherAddr) (chan : AwdlChan)
    (boot : UInt64) (trace : List (Event × List Buf)) (state : AwdlState)
    (path : Runs (fun s event out next => Harmless hash rxCtrlLen s event ∧ DaemonStep hash rxCtrlLen s event out next)
      (awdlInitState mem hostname self chan boot) trace state) :
    Mirrors state ∧ ∀ event out next, DaemonStep hash rxCtrlLen state event out next →
      (Mirrors next ↔ Harmless hash rxCtrlLen state event) := by
  obtain ⟨f,left⟩ : ∃ f, Empty hash f state := by
    refine runs_invariant (motive := fun state => ∃ f, Empty hash f state) ?_ ⟨_,rfl,init_refines,by simp⟩ path
    rintro s event out next ⟨f,before⟩ ⟨harmless,step⟩
    exact (step_mirrors before step).2 harmless
  exact ⟨(mirrors_iff left.refines left.count).mpr left.invalid,fun _ _ _ step => (step_mirrors left step).1⟩

theorem neighbors_mirrored_greeted : Mirrors greeted ∧ ∀ event out next,
    DaemonStep (fun _ => 0) 24 greeted event out next → (Mirrors next ↔ Harmless (fun _ => 0) 24 greeted event) := by
  obtain ⟨_,reached⟩ := greeted_reached
  obtain ⟨_,f,refines,_⟩ := reached_unlisted reached
  obtain ⟨run,ran,left⟩ := greeted_run
  have stored : greeted.peers.etherAddrCount = 0 ∧ ∀ entry ∈ greeted.peers.peers.entries, entry.2.isValid = false := by
    decide +kernel
  have mirrors := (mirrors_iff refines stored.1).mpr fun addr peer held =>
    stored.2 (addr,peer) ((refines.listed.exact addr peer).mpr held)
  have step : DaemonStep (fun _ => 0) 24 fresh (.receive roomy greeting 0) run.out greeted := by
    rw [left,← notify_keeps run.called run.state]
    exact .receive ran
  have start : Empty (fun _ => 0) _ fresh := ⟨rfl,init_refines,by simp⟩
  exact neighbors_mirrored_iff default [] nodeOne chanOpclass6 0 _ _
    (.cons ⟨(step_mirrors start step).1.mp mirrors,step⟩ .nil)

-- The station introduces itself, and `awdl list` prints nothing.
def validPeers (state : AwdlState) : List EtherAddr :=
  (state.peers.peers.entries.filter fun entry => entry.2.isValid).map Prod.fst

theorem neighbors_missed : ¬ ∀ trace state,
    Runs (fun s event out next => DaemonStep (fun _ => 0) 24 s event out next ∧ (validPeers next).length ≤ awdlPeersMax)
      fresh trace state → Mirrors state := by
  intro always
  have valid : (awdlRx (fun _ => 0) roomy 24 introduction 3000000 fresh).map
      (fun run => (validPeers run.state,awdlNeighborsPrint run.state)) = some ([nodeTwo],[]) := by
    decide +kernel
  obtain ⟨run,ran,left⟩ := Option.map_eq_some_iff.mp valid
  obtain ⟨listed,printed⟩ := Prod.mk.inj left
  have step : DaemonStep (fun _ => 0) 24 fresh (.receive roomy introduction 3000000) run.out run.state := by
    have same := @DaemonStep.receive (fun _ => 0) 24 roomy introduction 3000000 fresh run ran
    rwa [notify_keeps] at same
  obtain ⟨_,mirrored⟩ := always _ _ (.cons ⟨step,by rw [listed]; decide⟩ .nil)
  have known : nodeTwo ∈ validPeers run.state := by rw [listed]; exact List.mem_singleton_self _
  obtain ⟨⟨addr,peer⟩,held,rfl⟩ := List.mem_map.mp known
  rw [List.mem_filter] at held
  have shown := (mirrored nodeTwo).mpr ⟨peer,held⟩
  rw [printed] at shown
  cases shown

end EspOwl.NeighborList
