import EspOwl.GuardIntervals
import EspOwl.SyncTree

namespace EspOwl.SyncDrift
open Histories PartialMaps PeerMap TlvLoop ActionFrames ActionTlvs ActionRoundTrip Dispatch Delivery FrameCheck
  SenderRecords NodeHistory SyncTree SlotClock HandOver GuardIntervals

-- A frame on the air, with the moment at which its sender read the clock for the sync
-- TLV, and the hops that the sender's clock had behind it.
structure Sent where
  frame : Buf
  moment : Nat
  hops : Option Nat

-- Nodes in real time. `hops` is a history variable: over how many hand-overs the clock
-- of a node comes from the origin's, if it does.
structure TimedNetwork where
  station : EtherAddr → AwdlState
  hops : EtherAddr → Option Nat
  air : List Sent
  time : Nat

def TimedNetwork.change (net : TimedNetwork) (addr : EtherAddr) (state : AwdlState) : TimedNetwork :=
  {net with station := Function.update net.station addr state}

-- esp_timer_get_time counts the microseconds since the node's own start.
def reading (zero : EtherAddr → UInt64) (addr : EtherAddr) (time : Nat) : UInt64 := zero addr + UInt64.ofNat time

inductive TimedEvent where
  | wait (span : Nat)
  | send (addr : EtherAddr) (action : UInt64) (ieee80211State : Ieee80211State) (type : AwdlActionType)
  | hear (addr : EtherAddr) (env : Ambient) (radio : List UInt8) (sent : Sent) (fcs : List UInt8)
  | act (addr : EtherAddr) (event : Event)

-- Where a reception sets the clock, it is set after the sender's.
def heardHops (net : TimedNetwork) (addr : EtherAddr) (sent : Sent) (after : AwdlState) : EtherAddr → Option Nat :=
  if after.sync = (net.station addr).sync then net.hops
  else Function.update net.hops addr (sent.hops.map (· + 1))

-- A frame is heard at most `delay` microseconds after it was built, by some nodes or by
-- none; the clean-up of the peers with its election is one of a node's own steps. No time
-- passes that a clock with windows of 80 TU would miscount.
inductive TimedStep (hash : EtherAddr → UInt64) (zero : EtherAddr → UInt64) (width delay : Nat) :
    TimedNetwork → TimedEvent → Unit → TimedNetwork → Prop where
  | wait (steady : ∀ addr, Steady width (net.station addr).sync (reading zero addr net.time) (span : Nat)) :
      TimedStep hash zero width delay net (.wait span) () {net with time := net.time + span}
  | send (plain : ieee80211State.fcs = false) :
      TimedStep hash zero width delay net (.send addr action ieee80211State type) ()
      {net.change addr (awdlSendAction (net.station addr)) with
        air := ⟨(awdlInitFullActionFrame ⟨action,reading zero addr net.time⟩ (net.station addr) ieee80211State type).1,
          net.time,net.hops addr⟩ :: net.air}
  | hear (flying : sent ∈ net.air) (recent : net.time ≤ sent.moment + delay) (check : fcs.length = 4)
      (ran : awdlRx hash env radio.length (radio ++ sent.frame ++ fcs) (reading zero addr net.time)
        (net.station addr) = some run) :
      TimedStep hash zero width delay net (.hear addr env radio sent fcs) ()
        {net.change addr run.state with hops := heardHops net addr sent run.state}
  | act (own : ownStep event = true) (ran : NodeStep hash rxCtrlLen (net.station addr) event out next) :
      TimedStep hash zero width delay net (.act addr event) () (net.change addr next)

-- Every node as it has booted, all with windows of one length, and the clock of one of them
-- as the origin.
structure Started (zero : EtherAddr → UInt64) (width : Nat) (origin : EtherAddr) (net : TimedNetwork) : Prop where
  booted : ∀ addr, Booted addr (net.station addr)
  windowed : ∀ addr, Windowed width (net.station addr).sync
  steady : ∀ addr, Steady width (net.station addr).sync (reading zero addr 0) 0
  silent : net.air = []
  hops : net.hops = Function.update (fun _ => none) origin (some 0)
  time : net.time = 0

variable {hash : EtherAddr → UInt64} {zero : EtherAddr → UInt64} {width delay : Nat}

section Reception

def Kept (width : Nat) (before sender : AwdlSyncState) (t now : UInt64) (after : AwdlSyncState) : Prop :=
  after = before ∨ Adopted width sender t after now

theorem sync_kept (sends : Windowed width sender.sync) (receives : Windowed width state.sync) (src : AwdlPeer)
    (t now : UInt64) :
    Kept width state.sync sender.sync t now (awdlHandleSyncParamsTlv src (syncValue t sender) state now).2.sync := by
  by_cases master : state.election.syncAddr = src.addr
  · obtain ⟨after,handled,adopted⟩ := @sync_adopted sender state src t now width sends receives master
    rw [handled]
    exact .inr adopted
  · have foreign : awdlElectionIsSyncMaster state.election src.addr = false := by
      rw [awdlElectionIsSyncMaster,decide_eq_false_iff_not,compareEtherAddr_zero]
      exact master
    unfold awdlHandleSyncParamsTlv
    rw [foreign]
    exact .inl rfl

theorem Kept.windowed (kept : Kept width before sender t now after) (windowed : Windowed width before) :
    Windowed width after := by
  rcases kept with rfl | adopted
  · exact windowed
  · exact adopted.windowed

theorem Kept.trans (first : Kept width before sender t now middle) (second : Kept width middle sender t now after) :
    Kept width before sender t now after := by
  rcases second with rfl | adopted
  · exact first
  · exact .inr adopted

-- The only sync TLV of a frame carries its sender's clock.
theorem sent_sync (member : (awdlSynchronizationParametersTlv,val) ∈ sentTlvs clock sender kind) :
    val = syncValue clock.sync sender := by
  cases kind <;>
    simpa [sentTlvs,opening,mifOnly,closing,awdlElectionParametersTlv,awdlElectionParametersV2Tlv,
      awdlSynchronizationParametersTlv,awdlChanSeqTlv,awdlServiceParametersTlv,awdlEnhancedDataRateCapabilitiesTlv,
      awdlArpaTlv,awdlDataPathStateTlv,awdlVersionTlv] using member

theorem sync_short (short : val.length ≤ 1) (src : AwdlPeer) (state : AwdlState) (now : UInt64) :
    (awdlHandleSyncParamsTlv src val state now).2 = state := by
  have missing : readLe16 val 1 = none := readWord_short (by omega)
  unfold awdlHandleSyncParamsTlv
  rw [missing]
  split <;> rfl

theorem handle_kept (sends : Windowed width sender.sync) (receives : Windowed width state.sync)
    (known : (type,val) ∈ sentTlvs clock sender kind ∨ val.length ≤ 1) (mem : Fin awdlChanseqLength → AwdlChan)
    (src : AwdlPeer) (now : UInt64) :
    Kept width state.sync sender.sync clock.sync now (awdlHandleTlv mem src type val state now).2.2.sync := by
  revert known
  refine handle_elim (motive := fun type run => (type,val) ∈ sentTlvs clock sender kind ∨ val.length ≤ 1 →
    Kept width state.sync sender.sync clock.sync now run.2.2.sync) type ?sync ?chanseq ?election ?electionV2 ?arpa ?dataPath
      ?version ?other
  case sync =>
    rintro (member | short)
    · rw [sent_sync member]
      exact sync_kept sends receives src clock.sync now
    · rw [sync_short short]
      exact .inl rfl
  all_goals intros; exact .inl rfl

theorem loop_kept (sends : Windowed width sender.sync) (receives : Windowed width state.sync) (check : fcs.length = 4)
    (chanMem : Nat → Fin awdlChanseqLength → AwdlChan) (now : UInt64) (clock : TxClock) (type : AwdlActionType)
    (src : AwdlPeer) : Kept width state.sync sender.sync clock.sync now
      (awdlRxTlvs chanMem now (encodeTlvs (sentTlvs clock sender type) ++ fcs) src state).state.sync := by
  refine tlvs_preserve (P := fun _ s => Kept width state.sync sender.sync clock.sync now s.sync) _ _ _ ?_ (.inl rfl)
  intro tlv member mem p s before
  have known : (tlv.1,tlv.2) ∈ sentTlvs clock sender type ∨ tlv.2.length ≤ 1 := by
    rcases tlvs_calls _ (tlvs_fit clock sender type) fcs tlv member with inside | ⟨_,_,behind⟩
    · exact .inl inside
    · exact .inr (trailer_short check behind)
  exact before.trans (handle_kept sends (before.windowed receives) known mem p now)

theorem action_sync (ran : awdlRxAction hash env frame rssi now src state = some run) :
    run.state.sync = state.sync ∨ ∃ entry, admission hash env frame rssi now src state = .entered entry ∧
      run.state.sync = (awdlRxTlvs env.chanMem now ((bufStrip frame AwdlAction.size).getD frame) entry.peer
        (counted state entry.added)).state.sync := by
  rcases action_cases ran with left | ⟨_,added,_,left⟩ | ⟨entry,start⟩
  · rw [left]
    exact .inl rfl
  · rw [left]
    exact .inl rfl
  · refine .inr ⟨entry,start,?_⟩
    rw [action_entered start] at ran
    rcases end_runs ran with ⟨_,rfl⟩ | ⟨_,_,_,rfl⟩ <;> rfl

theorem heard_kept (sends : Windowed width sender.sync) (receives : Windowed width state.sync) (plain : ieee80211State.fcs = false)
    (check : fcs.length = 4)
    (ran : awdlRx hash env radio.length
      (radio ++ (awdlInitFullActionFrame clock sender ieee80211State type).1 ++ fcs) now state = some run) :
    Kept width state.sync sender.sync clock.sync now run.state.sync := by
  rcases rx_cases ran with ⟨stats,left⟩ | ⟨rssi,body,way,acted⟩
  · rw [left]
    exact .inl rfl
  · rcases action_sync acted with same | ⟨entry,_,same⟩
    · exact .inl same
    · rw [(built_route plain way).2] at same
      rw [same]
      have counting : Windowed width (counted state entry.added).sync := receives
      exact loop_kept sends counting check env.chanMem now clock type entry.peer

end Reception

section Lag

-- A clock k hand-overs away from the origin is behind it by less than k times a TU and
-- the delay, on the cycle of the window counter.
def Behind (width delay : Nat) (hops : Option Nat) (lag : Int) : Prop :=
  ∀ k, hops = some k → lag % (16384 * width) ≤ k * (1023 + delay)

-- A clock that reads as one of these windows, and counts right now.
structure Running (width : Nat) (sync : AwdlSyncState) (now : UInt64) : Prop where
  windowed : Windowed width sync
  aligned : sync.awCounter.toNat % 4 = 0
  steady : Steady width sync now 0

structure Airborne (width delay : Nat) (base : Int) (time : Nat) (sent : Sent) : Prop where
  past : sent.moment ≤ time
  built : ∃ clock sender ieee80211State type, ieee80211State.fcs = false ∧ Running width sender.sync clock.sync ∧
    sent.frame = (awdlInitFullActionFrame clock sender ieee80211State type).1 ∧
    Behind width delay sent.hops (base + sent.moment - windowPosition width sender.sync clock.sync)

-- Where the clock of a node stands in the cycle at this moment.
def TimedNetwork.position (zero : EtherAddr → UInt64) (width : Nat) (net : TimedNetwork) (addr : EtherAddr) : Int :=
  windowPosition width (net.station addr).sync (reading zero addr net.time)

-- The invariant; `base` is the position of the origin's clock at time 0.
structure Drifting (zero : EtherAddr → UInt64) (width delay : Nat) (base : Int) (net : TimedNetwork) : Prop where
  running : ∀ addr, Running width (net.station addr).sync (reading zero addr net.time)
  behind : ∀ addr, Behind width delay (net.hops addr) (base + net.time - net.position zero width addr)
  air : ∀ sent ∈ net.air, Airborne width delay base net.time sent

theorem reading_wait (addr : EtherAddr) (time span : Nat) :
    reading zero addr (time + span) = reading zero addr time + UInt64.ofNat span := by
  rw [reading,reading,UInt64.ofNat_add,UInt64.add_assoc]

theorem Running.later (running : Running width sync now) (later : Steady width sync now (d : Nat)) :
    Running width sync (now + UInt64.ofNat d) := by
  refine ⟨running.windowed,running.aligned,?_⟩
  rw [shifted_add]
  exact steady_shifted later

theorem adopted_running (adopted : Adopted width sender t after now) : Running width after now :=
  ⟨adopted.windowed,adopted.aligned,adopted.steady⟩

-- The hand-over itself: the delay of the frame, and the part of a TU that is cut off.
theorem adopted_behind (running : Running width sender t) (adopted : Adopted width sender t after now)
    (past : moment ≤ time) (recent : time ≤ moment + delay)
    (before : Behind width delay hops (base + moment - windowPosition width sender t)) :
    Behind width delay (hops.map (· + 1)) (base + time - windowPosition width after now) := by
  intro k held
  obtain ⟨m,known,rfl⟩ := Option.map_eq_some_iff.mp held
  have lag := adopted_lag running.windowed running.aligned running.steady adopted
  have start := before m known
  have more : ((m + 1 : Nat) : Int) * (1023 + delay) = m * (1023 + delay) + (1023 + delay) := by
    rw [Int.natCast_add,Int.add_mul,Nat.cast_one,Int.one_mul]
  rw [more]
  rcases running.windowed.known with rfl | rfl <;> omega

theorem started_drifting (started : Started zero width origin start) :
    Drifting zero width delay (start.position zero width origin) start := by
  refine ⟨fun addr => ?_,fun addr k held => ?_,fun sent flying => ?_⟩
  · rw [started.time]
    exact ⟨started.windowed addr,booted_aligned (started.booted addr),started.steady addr⟩
  · rw [started.hops] at held
    by_cases here : addr = origin
    · subst here
      rw [Function.update_self] at held
      cases held
      have still : start.position zero width addr + (0 : Nat) - start.position zero width addr = 0 := by omega
      rw [started.time,still]
      simp
    · rw [Function.update_of_ne here] at held
      cases held
  · rw [started.silent] at flying
    cases flying

theorem own_sync (own : ownStep event = true) (step : NodeStep hash rxCtrlLen state event out next) :
    next.sync = state.sync := by
  rcases step_cases step with ⟨_,_,_,_,rfl,_,_⟩ | ⟨now,_,rfl⟩ | ⟨_,_,_,_,rfl⟩
  · cases own
  · rfl
  · rfl

variable {base : Int}

theorem change_sync (same : state.sync = (net.station addr).sync) (a : EtherAddr) :
    ((TimedNetwork.change net addr state).station a).sync = (net.station a).sync := by
  by_cases here : a = addr
  · subst here
    simp [TimedNetwork.change,same]
  · simp [TimedNetwork.change,Function.update_of_ne here]

theorem Drifting.change (drifting : Drifting zero width delay base net) (same : state.sync = (net.station addr).sync) :
    Drifting zero width delay base (net.change addr state) := by
  have clocks := change_sync same
  refine ⟨fun a => ?_,fun a => ?_,drifting.air⟩
  · rw [clocks]
    exact drifting.running a
  · rw [TimedNetwork.position,clocks]
    exact drifting.behind a

theorem heard_sync (drifting : Drifting zero width delay base net) (flying : sent ∈ net.air) (check : fcs.length = 4)
    (ran : awdlRx hash env radio.length (radio ++ sent.frame ++ fcs) (reading zero addr net.time)
      (net.station addr) = some run) :
    ∃ sender t, Running width sender t ∧ Behind width delay sent.hops (base + sent.moment - windowPosition width sender t) ∧
      Kept width (net.station addr).sync sender t (reading zero addr net.time) run.state.sync := by
  obtain ⟨past,clock,sender,ieee80211State,type,plain,running,built,lag⟩ := drifting.air sent flying
  rw [built] at ran
  exact ⟨sender.sync,clock.sync,running,lag,
    heard_kept running.windowed (drifting.running addr).windowed plain check ran⟩

theorem heard_drifting (drifting : Drifting zero width delay base net) (flying : sent ∈ net.air)
    (recent : net.time ≤ sent.moment + delay) (check : fcs.length = 4)
    (ran : awdlRx hash env radio.length (radio ++ sent.frame ++ fcs) (reading zero addr net.time)
      (net.station addr) = some run) :
    Drifting zero width delay base {net.change addr run.state with hops := heardHops net addr sent run.state} := by
  have past := (drifting.air sent flying).past
  obtain ⟨sender,t,running,lag,kept⟩ := heard_sync drifting flying check ran
  by_cases same : run.state.sync = (net.station addr).sync
  · rw [heardHops,if_pos same]
    exact drifting.change same
  · have adopted := kept.resolve_left same
    rw [heardHops,if_neg same]
    refine ⟨fun a => ?_,fun a => ?_,drifting.air⟩ <;> by_cases here : a = addr
    · subst here
      simpa [TimedNetwork.change] using adopted_running adopted
    · simpa [TimedNetwork.change,Function.update_of_ne here] using drifting.running a
    · subst here
      simpa [TimedNetwork.change,TimedNetwork.position] using adopted_behind running adopted past recent lag
    · simpa [TimedNetwork.change,TimedNetwork.position,Function.update_of_ne here] using drifting.behind a

theorem step_drifting (drifting : Drifting zero width delay base net)
    (step : TimedStep hash zero width delay net event out next) : Drifting zero width delay base next := by
  cases step with
  | wait steady =>
    refine ⟨fun addr => ?_,fun addr k held => ?_,fun sent flying => ?_⟩
    · dsimp only
      rw [reading_wait]
      exact (drifting.running addr).later (steady addr)
    · have before := drifting.behind addr k held
      obtain ⟨windowed,aligned,now⟩ := drifting.running addr
      unfold TimedNetwork.position at before ⊢
      dsimp only
      rw [reading_wait,position_later windowed aligned now (steady addr)]
      rcases windowed.known with rfl | rfl <;> omega
    · obtain ⟨past,built⟩ := drifting.air sent flying
      exact ⟨Nat.le_add_right_of_le past,built⟩
  | @send _ addr action ieee80211State type plain =>
    have after : Drifting zero width delay base (net.change addr (awdlSendAction (net.station addr))) :=
      drifting.change rfl
    refine ⟨after.running,after.behind,fun sent flying => ?_⟩
    rcases List.mem_cons.mp flying with rfl | old
    · exact ⟨le_rfl,_,_,_,_,plain,drifting.running addr,rfl,drifting.behind addr⟩
    · exact drifting.air sent old
  | hear flying recent check ran => exact heard_drifting drifting flying recent check ran
  | act own ran => exact drifting.change (own_sync own ran)

end Lag

theorem reached_drifting (started : Started zero width origin start)
    (path : Runs (TimedStep hash zero width delay) start trace net) :
    Drifting zero width delay (start.position zero width origin) net :=
  runs_invariant (fun _ _ _ _ before step => step_drifting before step) (started_drifting started) path

-- Two clocks of one origin: whichever is ahead, the other's own bound covers it.
theorem Drifting.apart (drifting : Drifting zero width delay base net) (first : net.hops a = some k)
    (second : net.hops b = some m) :
    (net.position zero width a - net.position zero width b) % (16384 * width) ≤ m * (1023 + delay) ∨
      (net.position zero width b - net.position zero width a) % (16384 * width) ≤ k * (1023 + delay) := by
  have one := drifting.behind a k first
  have other := drifting.behind b m second
  rcases (drifting.running a).windowed.known with rfl | rfl <;> omega

-- Whatever the nodes elect and whichever frames are lost: every clock that comes from
-- the origin's is behind it by at most 1023 + delay for each hand-over.
theorem drift_bounded (started : Started zero width origin start)
    (path : Runs (TimedStep hash zero width delay) start trace net) (held : net.hops a = some k) :
    (start.position zero width origin + net.time - net.position zero width a) % (16384 * width) ≤ k * (1023 + delay) ∧
    ∀ b m, net.hops b = some m →
      (net.position zero width a - net.position zero width b) % (16384 * width) ≤ m * (1023 + delay) ∨
      (net.position zero width b - net.position zero width a) % (16384 * width) ≤ k * (1023 + delay) := by
  have drifting := reached_drifting started path
  exact ⟨drifting.behind a k held,fun b m other => drifting.apart held other⟩

section Beginning

-- No clock is older than the run, but for the window it was set in.
def Recent (zero : EtherAddr → UInt64) (net : TimedNetwork) : Prop :=
  ∀ addr, (reading zero addr net.time - (net.station addr).sync.lastUpdate).toNat ≤ net.time + 81920

theorem Recent.change (recent : Recent zero net) (same : state.sync = (net.station addr).sync) :
    Recent zero (net.change addr state) := by
  intro a
  have before := recent a
  rwa [← change_sync same] at before

theorem heard_recent (drifting : Drifting zero width delay base net) (recent : Recent zero net)
    (flying : sent ∈ net.air) (check : fcs.length = 4)
    (ran : awdlRx hash env radio.length (radio ++ sent.frame ++ fcs) (reading zero addr net.time)
      (net.station addr) = some run) :
    Recent zero {net.change addr run.state with hops := hops} := by
  obtain ⟨sender,t,_,_,kept⟩ := heard_sync drifting flying check ran
  intro a
  by_cases here : a = addr
  · subst here
    simp only [TimedNetwork.change,Function.update_self]
    rcases kept with same | adopted
    · rw [same]
      exact recent a
    · have since := adopted.since
      rcases adopted.windowed.known with rfl | rfl <;> omega
  · simpa [TimedNetwork.change,Function.update_of_ne here] using recent a

theorem step_recent (drifting : Drifting zero width delay base net) (recent : Recent zero net)
    (step : TimedStep hash zero width delay net event out next) : Recent zero next := by
  cases step with
  | @wait span _ steady =>
    intro addr
    have before := recent addr
    have moved := shifted_since (reading zero addr net.time) (net.station addr).sync.lastUpdate span
    dsimp only
    rw [reading_wait,shifted_add]
    omega
  | @send _ addr =>
    have after : Recent zero (net.change addr (awdlSendAction (net.station addr))) := recent.change rfl
    exact after
  | hear flying _ check ran => exact heard_recent drifting recent flying check ran
  | act own ran => exact recent.change (own_sync own ran)

-- In the first 71 minutes after the start time may always pass.
theorem recent_steady (recent : Recent zero net) (soon : net.time + span + 81920 < 2 ^ 32) (addr : EtherAddr) :
    Steady width (net.station addr).sync (reading zero addr net.time) (span : Nat) := by
  have age := recent addr
  exact .inr ⟨by omega,by omega⟩

end Beginning

-- Two nodes that started at different times: the second hears one MIF of the first
-- twice, before and after it elects it, the second time half a millisecond late.
def zeros (addr : EtherAddr) : UInt64 := if addr = nodeTwo then 1500000 else 3000000

def pair : TimedNetwork where
  station := fun addr => wifiSnifferStores (awdlInitState default [] addr chanOpclass6 (zeros addr))
  hops := Function.update (fun _ => none) nodeTwo (some 0)
  air := []
  time := 0

def sentOnce : Sent :=
  ⟨(awdlInitFullActionFrame ⟨5,reading zeros nodeTwo 0⟩ (pair.station nodeTwo) ieee80211InitState .mif).1,0,some 0⟩

theorem pair_since (addr : EtherAddr) : reading zeros addr 0 - (pair.station addr).sync.lastUpdate = 0 :=
  (sub_eq_zero).mpr (UInt64.add_zero _)

theorem pair_started : Started zeros 81920 nodeTwo pair where
  booted _ := .sniffer
  windowed _ := stores_windowed _ _ _ _ _
  steady addr := by
    right
    rw [pair_since]
    decide
  silent := rfl
  hops := rfl
  time := rfl

theorem pair_recent : Recent zeros pair := fun addr => by
  change (reading zeros addr 0 - (pair.station addr).sync.lastUpdate).toNat ≤ _
  rw [pair_since]
  exact Nat.zero_le _

def hearOnce (time : Nat) (state : AwdlState) : Option RxRun :=
  awdlRx (fun _ => 0) {quiet with fuel := 1} radioHdr.length (radioHdr ++ sentOnce.frame ++ [1,2,3,4])
    (reading zeros nodeOne time) state

-- The second time it takes the clock over, with a lag that shows at the start of a window.
theorem pair_hears : ∃ first last, hearOnce 0 (pair.station nodeOne) = some first ∧
    hearOnce 500 (awdlCleanPeers 3000100 first.state) = some last ∧ last.state.sync ≠ first.state.sync ∧
      awdlIsMulticastEaw last.state (reading zeros nodeOne 819210) = false := by
  have twice : ((hearOnce 0 (pair.station nodeOne)).bind fun first =>
      (hearOnce 500 (awdlCleanPeers 3000100 first.state)).map fun last =>
        decide (last.state.sync ≠ first.state.sync ∧
          awdlIsMulticastEaw last.state (reading zeros nodeOne 819210) = false)) = some true := by
    decide +kernel
  obtain ⟨first,ran,heard⟩ := Option.bind_eq_some_iff.mp twice
  obtain ⟨last,again,moved⟩ := Option.map_eq_some_iff.mp heard
  exact ⟨first,last,ran,again,of_decide_eq_true moved⟩

theorem pair_hear (net : TimedNetwork) (run : RxRun) (flying : sentOnce ∈ net.air) (recent : net.time ≤ 1000)
    (ran : hearOnce net.time (net.station nodeOne) = some run) :
    TimedStep (fun _ => 0) zeros 81920 1000 net (.hear nodeOne {quiet with fuel := 1} radioHdr sentOnce [1,2,3,4]) ()
      {net.change nodeOne run.state with hops := heardHops net nodeOne sentOnce run.state} :=
  .hear flying (by rw [show sentOnce.moment = 0 from rfl]; omega) rfl ran

theorem pair_wait (path : Runs (TimedStep (fun _ => 0) zeros 81920 1000) pair trace net)
    (soon : net.time + span + 81920 < 2 ^ 32) :
    TimedStep (fun _ => 0) zeros 81920 1000 net (.wait span) () {net with time := net.time + span} := by
  have reached : Drifting zeros 81920 1000 (pair.position zeros 81920 nodeTwo) net ∧ Recent zeros net := by
    refine runs_invariant (motive := fun net => Drifting zeros 81920 1000 (pair.position zeros 81920 nodeTwo) net ∧
      Recent zeros net) ?_ ⟨started_drifting pair_started,pair_recent⟩ path
    exact fun _ _ _ _ before step => ⟨step_drifting before.1 step,step_recent before.1 before.2 step⟩
  exact .wait (recent_steady reached.2 soon)

-- Then both rest until this moment.
theorem pair_run (moment : Nat) (later : 500 ≤ moment) (soon : moment + 81920 < 2 ^ 32) : ∃ trace net,
    Runs (TimedStep (fun _ => 0) zeros 81920 1000) pair trace net ∧
      net.hops nodeOne = some 1 ∧ net.hops nodeTwo = some 0 ∧ net.time = moment ∧
      net.station nodeTwo = awdlSendAction (pair.station nodeTwo) ∧
      awdlIsMulticastEaw (net.station nodeOne) (reading zeros nodeOne 819210) = false := by
  obtain ⟨first,last,ran,again,moved,shows⟩ := pair_hears
  have apart : nodeOne ≠ nodeTwo := by decide
  let sent : TimedNetwork := {pair.change nodeTwo (awdlSendAction (pair.station nodeTwo)) with air := [sentOnce]}
  let heard : TimedNetwork := {sent.change nodeOne first.state with hops := heardHops sent nodeOne sentOnce first.state}
  let cleaned : TimedNetwork := heard.change nodeOne (awdlCleanPeers 3000100 (heard.station nodeOne))
  let waited : TimedNetwork := {cleaned with time := cleaned.time + 500}
  let led : TimedNetwork := {waited.change nodeOne last.state with hops := heardHops waited nodeOne sentOnce last.state}
  let rested : TimedNetwork := {led with time := led.time + (moment - 500)}
  have once : sent.station nodeOne = pair.station nodeOne :=
    Function.update_of_ne apart (awdlSendAction (pair.station nodeTwo)) pair.station
  have twice : waited.station nodeOne = awdlCleanPeers 3000100 first.state := by
    simp [waited,cleaned,heard,TimedNetwork.change]
  have sends : TimedStep (fun _ => 0) zeros 81920 1000 pair (.send nodeTwo 5 ieee80211InitState .mif) () sent := .send rfl
  have hears := pair_hear sent first List.mem_cons_self (Nat.zero_le _) (by rw [once]; exact ran)
  have cleans : TimedStep (fun _ => 0) zeros 81920 1000 heard (.act nodeOne (.cleanPeers 3000100)) () cleaned :=
    .act rfl (NodeStep.cleanPeers : NodeStep (fun _ => 0) 0 (heard.station nodeOne) (.cleanPeers 3000100) [] _)
  have before : Runs (TimedStep (fun _ => 0) zeros 81920 1000) pair _ cleaned :=
    .cons sends (.cons hears (.cons cleans .nil))
  have waits : TimedStep (fun _ => 0) zeros 81920 1000 cleaned (.wait 500) () waited :=
    pair_wait before (show 0 + 500 + 81920 < 2 ^ 32 by decide)
  have adopts := pair_hear waited last List.mem_cons_self (show 0 + 500 ≤ 1000 by decide) (by rw [twice]; exact again)
  have awake : Runs (TimedStep (fun _ => 0) zeros 81920 1000) pair _ led :=
    runs_append before (.cons waits (.cons adopts .nil))
  have time : led.time = 500 := rfl
  have rests : TimedStep (fun _ => 0) zeros 81920 1000 led (.wait (moment - 500)) () rested :=
    pair_wait awake (by rw [time]; omega)
  have set : last.state.sync ≠ (waited.station nodeOne).sync := by
    rw [twice]
    exact moved
  have hops : led.hops = Function.update waited.hops nodeOne (some 1) := if_neg set
  have others : ∀ hops : EtherAddr → Option Nat, Function.update hops nodeOne (some 1) nodeTwo = hops nodeTwo :=
    fun hops => Function.update_of_ne apart.symm _ hops
  refine ⟨_,rested,runs_append awake (.cons rests .nil),?_,?_,?_,?_,?_⟩
  · change led.hops nodeOne = some 1
    rw [hops,Function.update_self]
  · change led.hops nodeTwo = some 0
    rw [hops,others]
    change heardHops sent nodeOne sentOnce first.state nodeTwo = some 0
    rw [heardHops]
    split
    · rfl
    · exact (others sent.hops).trans rfl
  · change led.time + (moment - 500) = moment
    rw [time]
    omega
  · simp [rested,led,waited,cleaned,heard,sent,TimedNetwork.change,apart.symm]
  · simpa [rested,led,TimedNetwork.change] using shows

theorem drift_bounded_pair : ∃ trace net, Runs (TimedStep (fun _ => 0) zeros 81920 1000) pair trace net ∧
    net.hops nodeOne = some 1 ∧
    (pair.position zeros 81920 nodeTwo + net.time - net.position zeros 81920 nodeOne) % (16384 * (81920 : Nat)) ≤
      (1 : Nat) * (1023 + (1000 : Nat)) := by
  obtain ⟨trace,net,path,hops,_⟩ := pair_run 30000 (by decide) (by decide)
  exact ⟨trace,net,path,hops,(drift_bounded pair_started path hops).1⟩

-- The multicast guard is wide enough for every node that the bound keeps within it: when
-- one may send, the other's radio is in a multicast window of its own clock. Only what is
-- left of a window after 64 TU is guarded.
theorem multicast_heard (started : Started zero width origin start)
    (path : Runs (TimedStep hash zero width delay) start trace net) (first : net.hops a = some k)
    (second : net.hops b = some m) (near : k * (1023 + delay) < 4096) (close : m * (1023 + delay) < 4096)
    (window : awdlIsMulticastEaw (net.station a) (reading zero a net.time) = true)
    (clear : awdlCanSendIn (net.station a) (reading zero a net.time) awdlMulticastGuardTu = 0)
    (last : (awdlSyncNextAwUs (reading zero a net.time) (net.station a).sync).toNat ≤ 65536) :
    awdlIsMulticastEaw (net.station b) (reading zero b net.time) = true := by
  have drifting := reached_drifting started path
  have windowed := (drifting.running a).windowed
  have other := (drifting.running b).windowed
  have apart := drifting.apart first second
  have narrow : (k : Int) * (1023 + delay) < 4096 := by exact_mod_cast near
  have tight : (m : Int) * (1023 + delay) < 4096 := by exact_mod_cast close
  have guarded := (multicast_branches windowed _).mp clear
  rw [multicastEaw_slot,MulticastSlot] at window ⊢
  have left := next_position windowed (reading zero a net.time)
  have here := slot_position windowed (reading zero a net.time)
  have there := slot_position other (reading zero b net.time)
  have range := position_range windowed (reading zero a net.time)
  have reach := position_range other (reading zero b net.time)
  unfold TimedNetwork.position at apart
  rcases windowed.known with rfl | rfl <;> omega

-- Thirty milliseconds into the first window of nodeTwo.
theorem multicast_heard_pair : ∃ trace net, Runs (TimedStep (fun _ => 0) zeros 81920 1000) pair trace net ∧
    net.hops nodeOne = some 1 ∧ awdlCanSendIn (net.station nodeTwo) (reading zeros nodeTwo net.time) awdlMulticastGuardTu = 0 ∧
    awdlIsMulticastEaw (net.station nodeOne) (reading zeros nodeOne net.time) = true := by
  obtain ⟨trace,net,path,follower,leader,time,station,_⟩ := pair_run 30000 (by decide) (by decide)
  refine ⟨trace,net,path,follower,?_,multicast_heard pair_started path leader follower (by decide) (by decide) ?_ ?_ ?_⟩
  all_goals
    rw [station,time]
    decide +kernel

-- In the first 16 TU of a window of 80, a follower can be missed: ten microseconds into
-- the second multicast window of nodeTwo, nodeOne is still in the window before.
theorem multicast_missed : ∃ trace net, Runs (TimedStep (fun _ => 0) zeros 81920 1000) pair trace net ∧
    net.hops nodeTwo = some 0 ∧ net.hops nodeOne = some 1 ∧
    awdlIsMulticastEaw (net.station nodeTwo) (reading zeros nodeTwo net.time) = true ∧
    awdlCanSendIn (net.station nodeTwo) (reading zeros nodeTwo net.time) awdlMulticastGuardTu = 0 ∧
    awdlIsMulticastEaw (net.station nodeOne) (reading zeros nodeOne net.time) = false := by
  obtain ⟨trace,net,path,follower,leader,time,station,shows⟩ := pair_run 819210 (by decide) (by decide)
  rw [← time] at shows
  refine ⟨trace,net,path,leader,follower,?_,?_,shows⟩
  all_goals
    rw [station,time]
    decide +kernel

end EspOwl.SyncDrift
