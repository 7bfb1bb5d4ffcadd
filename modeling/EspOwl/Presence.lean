import EspOwl.Consistency
import EspOwl.PeerExpiry
import EspOwl.Schedule

namespace EspOwl.Presence
open Histories PartialMaps PeerMap PeerHistory DataFrames Subframes TlvLoop ActionFrames Dispatch SenderRecords NodeHistory Addressing
  Consistency PeerExpiry

-- The callback of peer_timer, with the time after which it arms the timer again.
def awdlCleanPeersTimer (now : UInt64) (state : AwdlState) : AwdlState × UInt64 :=
  (awdlCleanPeers now state,state.peers.cleanInterval)

-- awdl_schedule hands peer_timer its interval in seconds, as an integer.
def peerTimerIn (state : AwdlState) : Nat := ⌊usecToSec state.peers.cleanInterval⌋.toNat

section Frames
variable (hash : EtherAddr → UInt64)

-- Whose action frame passes the address filter, the header check and the RSSI filter.
def admittedFrom (rxCtrlLen : Nat) (frame : Buf) (state : AwdlState) : Option EtherAddr :=
  match route rxCtrlLen state.selfAddress frame with
  | .action rssi src body =>
    if (awdlParseActionHdr body).isSome && !rssiTooLow hash state rssi src then some src else none
  | _ => none

end Frames

-- A node with its peer timer. A history variable holds the time at which the last frame
-- of a station was admitted.
structure PresenceState where
  state : AwdlState
  time : Nat
  peerDue : Nat
  heard : EtherAddr → Option Nat

def PresenceState.clock (s : PresenceState) : UInt64 := UInt64.ofNat s.time

inductive PresenceEvent where
  | wait (span : Nat)
  | peerTimer
  | node (event : Event)

-- What is neither a reception nor the callback of peer_timer.
def unrelated : Event → Bool
  | .receive _ _ _ => false
  | .cleanPeers _ => false
  | _ => true

-- peer_timer fires when it is due, by `late` at most afterwards.
inductive PresenceStep (hash : EtherAddr → UInt64) (rxCtrlLen late : Nat) :
    PresenceState → PresenceEvent → List Buf → PresenceState → Prop where
  | wait (soon : s.time + span ≤ s.peerDue + late) :
      PresenceStep hash rxCtrlLen late s (.wait span) [] {s with time := s.time + span}
  | peerTimer (due : s.peerDue ≤ s.time) (ran : awdlCleanPeersTimer s.clock s.state = (next,again)) :
      PresenceStep hash rxCtrlLen late s .peerTimer [] {s with state := next,peerDue := s.time + again.toNat}
  | receive (ran : awdlRx hash env rxCtrlLen frame s.clock s.state = some run) :
      PresenceStep hash rxCtrlLen late s (.node (.receive env frame s.clock)) run.out {s with
        state := run.state
        heard := fun addr =>
          if admittedFrom hash rxCtrlLen frame s.state = some addr then some s.time else s.heard addr}
  | node (other : unrelated event = true) (ran : NodeStep hash rxCtrlLen s.state event out next) :
      PresenceStep hash rxCtrlLen late s (.node event) out {s with state := next}

-- awdl_schedule on a node that has booted.
def Scheduled (node : EtherAddr) (s : PresenceState) : Prop :=
  Booted node s.state ∧ s.peerDue = s.time + peerTimerIn s.state ∧ ∀ addr, s.heard addr = none

variable {hash : EtherAddr → UInt64}

section Receptions

-- No handler writes the time stamp.
theorem handle_lastUpdate (mem : Fin awdlChanseqLength → AwdlChan) (src : AwdlPeer) (type : UInt8) (val : Buf)
    (state : AwdlState) (tsft : UInt64) :
    (awdlHandleTlv mem src type val state tsft).2.1.lastUpdate = src.lastUpdate := by
  refine handle_elim (motive := fun _ run => run.2.1.lastUpdate = src.lastUpdate) type ?sync ?chanseq ?election
    ?electionV2 ?arpa ?dataPath ?version ?other
  case sync => rfl
  case chanseq =>
    obtain ⟨_,written⟩ := chanseq_writes mem src val state
    rw [written]
  case election =>
    obtain ⟨_,_,_,_,written⟩ := election_writes src val
    rw [written]
  case electionV2 =>
    obtain ⟨_,_,written,_⟩ := electionV2_writes src val
    rw [written]
  case arpa =>
    obtain ⟨_,written⟩ := arpa_writes src val
    rw [written]
  case dataPath =>
    obtain ⟨_,_,written⟩ := dataPath_writes src val
    rw [written]
  case version =>
    obtain ⟨_,_,written⟩ := version_writes src val
    rw [written]
  case other => exact fun _ _ _ => rfl

theorem touch_lastUpdate (now : UInt64) (peer : AwdlPeer) : (touch now peer).lastUpdate = now := by
  unfold touch
  dsimp only
  split <;> rfl

theorem settle_lastUpdate (now : UInt64) (subtype : AwdlActionType) (peer : AwdlPeer) :
    (settle now subtype peer).lastUpdate = now := touch_lastUpdate now _

-- What a reception at this time makes of the table f, when the frame is admitted from src.
structure Heard (src : EtherAddr) (now : UInt64) (supplied : Prop) (f g : Peers) : Prop where
  own : ∀ peer, g src = some peer → peer.lastUpdate = now
  others : ∀ addr peer, addr ≠ src → g addr = some peer → f addr = some peer
  kept : supplied → g src ≠ none ∧ ∀ addr, addr ≠ src → g addr = f addr

theorem Heard.ofRewritten (after : Rewritten hash src supplied (fun peer => peer.lastUpdate = now) f g peers)
    (held : supplied → g src ≠ none) : Heard src now supplied f g :=
  ⟨after.own,after.others,fun supply => ⟨held supply,after.kept supply⟩⟩

theorem respected_now (f : Peers) (src : EtherAddr) (mem : AwdlPeer) (now : UInt64) :
    Respected f src mem now fun peer => peer.lastUpdate = now :=
  ⟨fun _ => touch_lastUpdate _ _,fun _ _ => touch_lastUpdate _ _⟩

theorem counted_heard (refines : Refines hash peers f)
    (inserted : awdlPeerAdd hash fuel callocs mem peers src now = some added) (refused : added.status.code < 0) :
    ∃ g, Refines hash added.peers g ∧ Heard src now (callocs = []) f g := by
  have before : Rewritten hash src (callocs = []) (fun _ => True) f f peers :=
    rewritten_refl refines fun _ _ => trivial
  obtain ⟨⟨g,after,_⟩,_⟩ := before.add (respected_now f src mem now) id inserted
  refine ⟨g,after.refines,.ofRewritten after fun supply => ?_⟩
  cases refines.added inserted with
  | fresh _ status => rw [status] at refused; exact absurd refused (by decide)
  | known _ status => rw [status] at refused; exact absurd refused (by decide)
  | lost _ _ scarce => exact absurd supply scarce

theorem entered_heard (refines : Refines hash state.peers.peers f)
    (start : admission hash env frame rssi now src state = .entered entry)
    (ran : awdlRxAction hash env frame rssi now src state = some run) :
    ∃ g, Refines hash run.state.peers.peers g ∧ Heard src now (env.callocs = []) f g := by
  have loop : entry.peer.lastUpdate = now → (awdlRxTlvs env.chanMem now ((bufStrip frame AwdlAction.size).getD frame)
      entry.peer (counted state entry.added)).src.lastUpdate = now := fun stamped =>
    tlvs_preserve (P := fun peer _ => peer.lastUpdate = now) _ _ _
      (fun tlv _ mem peer s same => (handle_lastUpdate mem peer tlv.1 tlv.2 s now).trans same) stamped
  have rewritten : (∃ g, Rewritten hash src (env.callocs = []) (fun peer => peer.lastUpdate = now) f g
      run.state.peers.peers ∧ g src ≠ none) ∧ _ :=
    entered_rewritten refines start (respected_now f src env.peerMem now)
      (fun stamped => ⟨fun _ => loop stamped,fun _ => settle_lastUpdate now entry.subtype _⟩) ran
  obtain ⟨⟨g,after,held⟩,_⟩ := rewritten
  exact ⟨g,after.refines,.ofRewritten after fun _ => held⟩

theorem action_heard (refines : Refines hash state.peers.peers f) (admitted : Admitted hash frame rssi src state)
    (ran : awdlRxAction hash env frame rssi now src state = some run) :
    ∃ g, Refines hash run.state.peers.peers g ∧ Heard src now (env.callocs = []) f g := by
  obtain ⟨header,level⟩ := admitted
  obtain ⟨subtype,head⟩ := Option.isSome_iff_exists.mp header
  cases inserted : awdlPeerAdd hash env.fuel env.callocs env.peerMem state.peers.peers src now with
  | none =>
    rw [action_admission] at ran
    simp [admission,head,level,inserted] at ran
  | some added =>
    by_cases refused : added.status.code < 0
    · have dropped : admission hash env frame rssi now src state =
          .dropped (some ⟨.ignore,counted state added,[],[],added.called.toList⟩) := by
        simp only [admission,head,level,Bool.false_eq_true,if_false,inserted,if_pos refused]
      rw [action_dropped dropped] at ran
      cases ran
      exact counted_heard refines inserted refused
    · obtain ⟨peer,start⟩ := action_admitted env head level inserted refused
      exact entered_heard refines start ran

theorem action_unheard (ran : awdlRxAction hash env frame rssi now src state = some run)
    (refused : ¬ Admitted hash frame rssi src state) : run.state = state := by
  rcases action_cases ran with left | ⟨passed,_⟩ | ⟨_,start⟩
  · exact left
  · exact absurd passed refused
  · exact absurd (entered_added start).1 refused

-- A reception stamps the record of the station it is admitted from, if any, and leaves
-- the others alone.
theorem rx_heard (refines : Refines hash state.peers.peers f)
    (ran : awdlRx hash env rxCtrlLen frame now state = some run) :
    (admittedFrom hash rxCtrlLen frame state = none ∧ run.state.peers = state.peers) ∨
      ∃ src g, admittedFrom hash rxCtrlLen frame state = some src ∧ Refines hash run.state.peers.peers g ∧
        Heard src now (env.callocs = []) f g := by
  rw [rx_follows] at ran
  unfold admittedFrom
  cases way : route rxCtrlLen state.selfAddress frame with
  | drop result =>
    rw [way] at ran
    cases ran
    exact .inl ⟨rfl,rfl⟩
  | data src dst body =>
    rw [way] at ran
    cases ran
    refine .inl ⟨rfl,?_⟩
    change (awdlRxData hash (env.bufMem 0) body src dst state).2.2.peers = _
    rw [rxData_counts]
    rfl
  | amsdu body =>
    rw [way] at ran
    cases ran
    refine .inl ⟨rfl,?_⟩
    obtain ⟨stats,left⟩ := (@amsdu_emits hash env.bufMem 0 body state).2
    change (awdlRxDataAmsdu hash env.bufMem 0 body state).2.2.peers = _
    rw [left]
  | action rssi src body =>
    rw [way] at ran
    dsimp only
    by_cases admitted : Admitted hash body rssi src state
    · obtain ⟨g,after,heard⟩ := action_heard refines admitted ran
      exact .inr ⟨src,g,by rw [admitted.1,admitted.2]; rfl,after,heard⟩
    · refine .inl ⟨if_neg fun passed => admitted ?_,congrArg AwdlState.peers (action_unheard ran admitted)⟩
      simpa [Admitted] using passed

-- No reception changes the two intervals.
theorem rx_intervals (refines : Refines hash state.peers.peers f)
    (ran : awdlRx hash env rxCtrlLen frame now state = some run) :
    run.state.peers.timeout = state.peers.timeout ∧ run.state.peers.cleanInterval = state.peers.cleanInterval := by
  rcases rx_cases ran with ⟨stats,left⟩ | ⟨_,_,_,acted⟩
  · rw [left]
    exact ⟨rfl,rfl⟩
  · obtain ⟨_,_,_,left,_⟩ := action_confined refines acted
    rw [left]
    exact ⟨rfl,rfl⟩

end Receptions

section Watch

-- The invariant, for the table f: a record is as old as the last admitted frame of its
-- station, and peer_timer is due before it is too old.
structure Watched (hash : EtherAddr → UInt64) (late : Nat) (f : Peers) (s : PresenceState) : Prop where
  refines : Refines hash s.state.peers.peers f
  timeout : s.state.peers.timeout = peersDefaultTimeout
  interval : s.state.peers.cleanInterval = peersDefaultCleanInterval
  stamped : ∀ addr peer, f addr = some peer → s.heard addr = some peer.lastUpdate.toNat
  past : ∀ addr t, s.heard addr = some t → t ≤ s.time
  due : ∀ addr peer, f addr = some peer → s.peerDue ≤ peer.lastUpdate.toNat + 3000000
  soon : s.peerDue ≤ s.time + 1000000
  overdue : s.time ≤ s.peerDue + late

-- Nobody heard within the timeout is missing. Before the clock has reached the timeout,
-- a clean-up takes every peer.
def Retained (f : Peers) (s : PresenceState) : Prop :=
  ∀ addr t, s.heard addr = some t → 2000000 ≤ t → s.time ≤ t + 2000000 → f addr ≠ none

theorem clock_value (inside : s.time < 2 ^ 64) : (PresenceState.clock s).toNat = s.time :=
  Nat.mod_eq_of_lt inside

theorem cutoff_time (inside : s.time < 2 ^ 64) :
    (PresenceState.clock s - peersDefaultTimeout).toNat =
      if 2000000 ≤ s.time then s.time - 2000000 else s.time + 2 ^ 64 - 2000000 := by
  have timeout : peersDefaultTimeout.toNat = 2000000 := rfl
  have cutoff := cutoff_value (PresenceState.clock s) peersDefaultTimeout
  rw [clock_value inside,timeout] at cutoff
  rw [cutoff]
  refine if_congr ?_ rfl rfl
  rw [UInt64.le_iff_toNat_le,clock_value inside,timeout]

-- A second, taken for microseconds: the first clean-up is due at once.
theorem peerTimerIn_boot (booted : Booted node state) : peerTimerIn state = 1 := by
  have interval : state.peers.cleanInterval = peersDefaultCleanInterval := by
    cases booted <;> rfl
  have micros : peersDefaultCleanInterval.toNat = 1000000 := rfl
  have second : usecToSec peersDefaultCleanInterval = 1 := by
    rw [usecToSec,micros]
    norm_num
  change ⌊usecToSec state.peers.cleanInterval⌋.toNat = 1
  rw [interval,second]
  norm_num

theorem scheduled_watched (scheduled : Scheduled node s) :
    Watched hash late (fun _ => none) s ∧ Retained (fun _ => none) s := by
  obtain ⟨booted,due,unheard⟩ := scheduled
  rw [peerTimerIn_boot booted] at due
  obtain ⟨_,_,_,_,_,_,_,booted⟩ := booted.form
  refine ⟨⟨?_,?_,?_,?_,?_,?_,?_,?_⟩,?_⟩
  · rw [booted]
    exact init_refines
  · rw [booted]
    rfl
  · rw [booted]
    rfl
  · intro addr peer held
    cases held
  · intro addr t heard
    rw [unheard] at heard
    cases heard
  · intro addr peer held
    cases held
  · omega
  · omega
  · intro addr t heard
    rw [unheard] at heard
    cases heard

-- peer_timer leaves who was heard within the timeout, and is armed for one interval.
theorem cleaned_watched (before : Watched hash late f s) (inside : s.time < 2 ^ 64)
    (ran : awdlCleanPeersTimer s.clock s.state = (next,again)) :
    let cleaned := {s with state := next,peerDue := s.time + again.toNat}
    ∃ g, Watched hash late g cleaned ∧ (Retained f s → Retained g cleaned) := by
  obtain ⟨refines,timeout,interval,stamped,past,_,_,_⟩ := before
  cases ran
  have armed : s.state.peers.cleanInterval.toNat = 1000000 := by rw [interval]; rfl
  have cutoff := cutoff_time inside
  have kept : ∀ addr peer, keepIf f (fun peer => decide (¬ peer.lastUpdate < s.clock - s.state.peers.timeout)) addr =
      some peer ↔ f addr = some peer ∧ (PresenceState.clock s - peersDefaultTimeout).toNat ≤ peer.lastUpdate.toNat := by
    intro addr peer
    rw [keepIf,Option.filter_eq_some_iff,decide_eq_true_iff,timeout,UInt64.lt_iff_toNat_lt,not_lt]
  refine ⟨_,⟨removeBefore_refines refines _,timeout,interval,?_,past,?_,?_,?_⟩,?_⟩
  · intro addr peer held
    exact stamped addr peer ((kept addr peer).mp held).1
  · intro addr peer held
    obtain ⟨found,recent⟩ := (kept addr peer).mp held
    have heard := past addr _ (stamped addr peer found)
    dsimp only
    rw [armed]
    split at cutoff <;> omega
  · dsimp only
    omega
  · dsimp only
    omega
  · intro retained addr t heard late_enough recent
    cases found : f addr with
    | none => exact absurd found (retained addr t heard late_enough recent)
    | some peer =>
      have same : some t = some peer.lastUpdate.toNat := heard.symm.trans (stamped addr peer found)
      cases same
      have still := (kept addr peer).mpr ⟨found,?_⟩
      · rw [still]
        exact Option.some_ne_none _
      · dsimp only at recent
        have reached := past addr _ heard
        rw [if_pos (by omega)] at cutoff
        omega

theorem received_watched (before : Watched hash late f s) (inside : s.time < 2 ^ 64)
    (ran : awdlRx hash env rxCtrlLen frame s.clock s.state = some run) :
    let received := {s with
      state := run.state
      heard := fun addr => if admittedFrom hash rxCtrlLen frame s.state = some addr then some s.time else s.heard addr}
    ∃ g, Watched hash late g received ∧ (env.callocs = [] → Retained f s → Retained g received) := by
  obtain ⟨timeout,interval⟩ := rx_intervals before.refines ran
  rcases rx_heard before.refines ran with ⟨nobody,same⟩ | ⟨src,g,somebody,refines,own,others,kept⟩
  · refine ⟨f,⟨by rw [same]; exact before.refines,timeout.trans before.timeout,interval.trans before.interval,?_,?_,
      before.due,before.soon,before.overdue⟩,?_⟩
    · simpa only [nobody,reduceCtorEq,if_false] using before.stamped
    · simpa only [nobody,reduceCtorEq,if_false] using before.past
    · intro _
      simpa only [Retained,nobody,reduceCtorEq,if_false] using id
  · have stamp : (PresenceState.clock s).toNat = s.time := clock_value inside
    refine ⟨g,⟨refines,timeout.trans before.timeout,interval.trans before.interval,?_,?_,?_,before.soon,before.overdue⟩,?_⟩
    · intro addr peer held
      dsimp only
      rw [somebody]
      by_cases here : src = addr
      · subst here
        rw [if_pos rfl,own peer held,stamp]
      · rw [if_neg (by simpa using here)]
        exact before.stamped addr peer (others addr peer (Ne.symm here) held)
    · intro addr t heard
      dsimp only at heard
      rw [somebody] at heard
      by_cases here : src = addr
      · rw [if_pos (congrArg some here)] at heard
        cases heard
        exact le_rfl
      · rw [if_neg (by simpa using here)] at heard
        exact before.past addr t heard
    · intro addr peer held
      by_cases here : addr = src
      · subst here
        have soon := before.soon
        rw [own peer held,stamp]
        dsimp only
        omega
      · exact before.due addr peer (others addr peer here held)
    · intro supply retained addr t heard late_enough recent
      dsimp only at heard
      rw [somebody] at heard
      by_cases here : src = addr
      · rw [← here]
        exact (kept supply).1
      · rw [if_neg (by simpa using here)] at heard
        rw [(kept supply).2 addr (Ne.symm here)]
        exact retained addr t heard late_enough recent

def Steady : PresenceEvent → Prop
  | .node event => Supplied event
  | _ => True

theorem step_watched (before : Watched hash late f s) (inside : t.time < 2 ^ 64)
    (step : PresenceStep hash rxCtrlLen late s event out t) :
    ∃ g, Watched hash late g t ∧ (Steady event → Retained f s → Retained g t) := by
  cases step with
  | wait soon =>
    refine ⟨f,⟨before.refines,before.timeout,before.interval,before.stamped,?_,before.due,?_,soon⟩,?_⟩
    · exact fun addr t heard => le_add_right (before.past addr t heard)
    · exact le_trans before.soon (by dsimp only; omega)
    · exact fun _ retained addr t heard late_enough recent =>
        retained addr t heard late_enough (by dsimp only at recent; omega)
  | peerTimer due ran =>
    obtain ⟨g,after,retained⟩ := cleaned_watched before inside ran
    exact ⟨g,after,fun _ => retained⟩
  | receive ran =>
    obtain ⟨g,after,retained⟩ := received_watched before inside ran
    exact ⟨g,after,retained⟩
  | node other ran =>
    rcases step_cases ran with ⟨_,_,_,_,rfl,_,_⟩ | ⟨_,rfl,_⟩ | ⟨_,_,_,_,rfl⟩
    · cases other
    · cases other
    · exact ⟨f,⟨before.refines,before.timeout,before.interval,before.stamped,before.past,before.due,before.soon,
        before.overdue⟩,fun _ => id⟩

theorem runs_time (path : Runs (PresenceStep hash rxCtrlLen late) s trace last) : s.time ≤ last.time := by
  induction path with
  | nil => exact le_rfl
  | cons head _ ih => cases head <;> dsimp only at ih <;> omega

theorem runs_watched (before : Watched hash late f s) (path : Runs (PresenceStep hash rxCtrlLen late) s trace last)
    (inside : last.time < 2 ^ 64) :
    ∃ g, Watched hash late g last ∧ ((∀ entry ∈ trace, Steady entry.1) → Retained f s → Retained g last) := by
  induction path generalizing f with
  | nil => exact ⟨f,before,fun _ => id⟩
  | cons head rest ih =>
    obtain ⟨g,middle,first⟩ := step_watched before (lt_of_le_of_lt (runs_time rest) inside) head
    obtain ⟨h,after,later⟩ := ih middle inside
    refine ⟨h,after,fun steady retained => ?_⟩
    rw [List.forall_mem_cons] at steady
    exact later steady.2 (first steady.1 retained)

-- Time apart, it is a node as it runs.
theorem step_node (step : PresenceStep hash rxCtrlLen late s event out t) :
    t.state = s.state ∨ ∃ inner answer, NodeStep hash rxCtrlLen s.state inner answer t.state ∧
      (Steady event → Supplied inner) := by
  cases step with
  | wait => exact .inl rfl
  | peerTimer due ran =>
    cases ran
    exact .inr ⟨_,_,.cleanPeers,fun _ => trivial⟩
  | receive ran => exact .inr ⟨_,_,.receive ran,id⟩
  | node _ ran => exact .inr ⟨_,_,ran,id⟩

theorem runs_consistent (scheduled : Scheduled node start) (path : Runs (PresenceStep hash rxCtrlLen late) start trace s)
    (steady : ∀ entry ∈ trace, Steady entry.1) : ∃ f, Consistent hash node f s.state := by
  refine runs_invariant (motive := fun s => ∃ f, Consistent hash node f s.state) ?_ (booted_consistent scheduled.1)
    (runs_within path steady)
  rintro s event out t before ⟨steady,step⟩
  rcases step_node step with same | ⟨inner,answer,ran,supplied⟩
  · rw [same]
    exact before
  · exact step_consistent before (supplied steady) ran

end Watch

-- The table is a failure detector. Who is in it was heard within the timeout, one interval
-- and the delay of the timer; and who was heard within the timeout is in it, from two
-- seconds of the clock on.
theorem peers_present (scheduled : Scheduled node start) (path : Runs (PresenceStep hash rxCtrlLen late) start trace s)
    (inside : s.time < 2 ^ 64) :
    (∀ addr ∈ s.state.peers.peers.keys, ∃ t, s.heard addr = some t ∧ s.time ≤ t + 3000000 + late) ∧
    ((∀ entry ∈ trace, Steady entry.1) → ∀ addr t, s.heard addr = some t → 2000000 ≤ t → s.time ≤ t + 2000000 →
      addr ∈ s.state.peers.peers.keys) := by
  obtain ⟨booted,nobody⟩ := scheduled_watched scheduled
  obtain ⟨f,watched,kept⟩ := runs_watched booted path inside
  constructor
  · intro addr stored
    obtain ⟨peer,held⟩ := Option.isSome_iff_exists.mp (watched.refines.mem_keys.mp stored)
    have due := watched.due addr peer held
    have overdue := watched.overdue
    exact ⟨_,watched.stamped addr peer held,by omega⟩
  · intro steady addr t heard late_enough recent
    exact watched.refines.mem_keys.mpr (Option.isSome_iff_ne_none.mpr (kept steady nobody addr t heard late_enough recent))

section Introduction

-- A node hears the MIF of a station three seconds after wifi_sniffer_init, and elects it.
def watchman : PresenceState := ⟨wifiSnifferStores fresh,3000000,3000001,fun _ => none⟩

theorem watchman_scheduled : Scheduled nodeOne watchman :=
  ⟨.sniffer,by rw [show peerTimerIn watchman.state = 1 from peerTimerIn_boot .sniffer]; rfl,fun _ => rfl⟩

theorem watchman_run : ∃ trace s, Runs (PresenceStep (fun _ => 0) 24 0) watchman trace s ∧
    (∀ entry ∈ trace, Steady entry.1) ∧ s.time = 3000001 ∧ s.heard nodeTwo = some 3000000 ∧
      s.state.election.syncAddr = nodeTwo := by
  have follows : (awdlRx (fun _ => 0) roomy 24 introduction 3000000 (wifiSnifferStores fresh)).map
      (fun run => (awdlCleanPeers 3000001 run.state).election.syncAddr) = some nodeTwo := by
    decide +kernel
  obtain ⟨run,ran,master⟩ := Option.map_eq_some_iff.mp follows
  have admitted : admittedFrom (fun _ => 0) 24 introduction (wifiSnifferStores fresh) = some nodeTwo := by decide +kernel
  have one : PresenceStep (fun _ => 0) 24 0 watchman (.node (.receive roomy introduction 3000000)) run.out _ :=
    .receive ran
  let heard : PresenceState := {watchman with
    state := run.state
    heard := fun addr =>
      if admittedFrom (fun _ => 0) 24 introduction (wifiSnifferStores fresh) = some addr then some 3000000 else none}
  have soon : 3000000 + 1 ≤ 3000001 + 0 := by decide
  have two : PresenceStep (fun _ => 0) 24 0 heard (.wait 1) [] {heard with time := 3000001} := .wait soon
  have due : 3000001 ≤ 3000001 := by decide
  have three : PresenceStep (fun _ => 0) 24 0 {heard with time := 3000001} .peerTimer [] _ := .peerTimer due rfl
  refine ⟨_,_,.cons one (.cons two (.cons three .nil)),?_,?_,?_,?_⟩
  · simp [Steady,Supplied,roomy,quiet]
  · dsimp only
  · dsimp only [heard]
    rw [if_pos admitted]
  · exact master

theorem peers_present_heard : ∃ trace s, Runs (PresenceStep (fun _ => 0) 24 0) watchman trace s ∧
    nodeTwo ∈ s.state.peers.peers.keys := by
  obtain ⟨trace,s,path,steady,time,heard,_⟩ := watchman_run
  exact ⟨trace,s,path,(peers_present watchman_scheduled path (by rw [time]; decide)).2 steady nodeTwo 3000000 heard
    (by decide) (by rw [time]; decide)⟩

end Introduction

-- A node that follows another station has heard it lately.
theorem master_present (scheduled : Scheduled node start) (path : Runs (PresenceStep hash rxCtrlLen late) start trace s)
    (inside : s.time < 2 ^ 64) (steady : ∀ entry ∈ trace, Steady entry.1) :
    s.state.election.syncAddr = node ∨
      ∃ t, s.heard s.state.election.syncAddr = some t ∧ s.time ≤ t + 3000000 + late := by
  obtain ⟨f,watched,_⟩ := runs_watched (scheduled_watched scheduled).1 path inside
  obtain ⟨g,consistent⟩ := runs_consistent scheduled path steady
  refine consistent.master.imp_right ?_
  rintro ⟨peer,held,_⟩
  rw [consistent.refines.unique watched.refines] at held
  have due := watched.due _ peer held
  have overdue := watched.overdue
  exact ⟨_,watched.stamped _ peer held,by omega⟩

theorem master_present_heard : ∃ trace s, Runs (PresenceStep (fun _ => 0) 24 0) watchman trace s ∧
    s.state.election.syncAddr = nodeTwo ∧ (s.state.election.syncAddr = nodeOne ∨
      ∃ t, s.heard s.state.election.syncAddr = some t ∧ s.time ≤ t + 3000000 + 0) := by
  obtain ⟨trace,s,path,steady,time,_,master⟩ := watchman_run
  exact ⟨trace,s,path,master,master_present watchman_scheduled path (by rw [time]; decide) steady⟩

end EspOwl.Presence
