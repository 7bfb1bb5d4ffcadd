import EspOwl.RetryWindow
import EspOwl.Timers
import EspOwl.Wakeups

namespace EspOwl.Service
open Histories Fifos TransmitQueues Wakeups SlotClock HandOver GuardIntervals

-- The sending part of a node with the times at which its two timers are due.
structure ServiceState where
  daemon : DaemonState (Option UInt64)
  time : Nat
  due : Traffic → Nat

def ServiceState.clock (s : ServiceState) : UInt64 := UInt64.ofNat s.time

inductive ServiceEvent where
  | wait (span : Nat)
  | call (event : TxEvent)

-- A timer that was not active, and is after the call, has been started in it.
def startedDue (before after : Option UInt64) (time due : Nat) : Nat :=
  match before,after with
  | none,some usec => time + usec.toNat
  | _,_ => due

def ServiceState.after (s : ServiceState) (fired next : DaemonState (Option UInt64)) : ServiceState :=
  ⟨next,s.time,fun traffic => startedDue (timerOf fired traffic) (timerOf next traffic) s.time (s.due traffic)⟩

-- The node's clock, in the cycle of the windows, is within `drift` of one that starts at
-- `base` and runs on with the time.
structure Paced (width : Nat) (base : Int) (drift time : Nat) (state : AwdlState) : Prop where
  windowed : Windowed width state.sync
  aligned : state.sync.awCounter.toNat % 4 = 0
  near : ∃ e : Int, |e| ≤ drift ∧
    windowPosition width state.sync (UInt64.ofNat time) = (base + time + e) % (16384 * width)

section Steps
variable (hash : EtherAddr → UInt64) (ip6AddrIsmulticast : In6Addr → Bool)

-- A timer fires when it is due, by `late` at most afterwards. All else that runs on the node
-- keeps its clock and, of the rest of its state, `kept`. No time passes that a clock with
-- windows of 80 TU would miscount.
inductive ServiceStep (width : Nat) (base : Int) (drift late : Nat) (kept : AwdlState → Prop) :
    ServiceState → ServiceEvent → TxOutput → ServiceState → Prop where
  | wait (soon : ∀ traffic, (timerOf s.daemon traffic).isSome = true → s.time + span ≤ s.due traffic + late)
      (steady : Steady width s.daemon.awdlState.sync s.clock (span : Nat)) :
      ServiceStep width base drift late kept s (.wait span) .waits {s with time := s.time + span}
  | transmit (ran : TxStep hash ip6AddrIsmulticast plainTimer s.daemon (.transmit mem garbage buffer) output next) :
      ServiceStep width base drift late kept s (.call (.transmit mem garbage buffer)) output (s.after s.daemon next)
  | sendUnicast (active : s.daemon.txTimer.isSome = true) (due : s.due .unicast ≤ s.time)
      (ran : TxStep hash ip6AddrIsmulticast plainTimer s.daemon (.sendUnicast s.clock) output next) :
      ServiceStep width base drift late kept s (.call (.sendUnicast s.clock)) output
        (s.after {s.daemon with txTimer := none} next)
  | sendMulticast (active : s.daemon.txMcastTimer.isSome = true) (due : s.due .multicast ≤ s.time)
      (ran : TxStep hash ip6AddrIsmulticast plainTimer s.daemon (.sendMulticast s.clock) output next) :
      ServiceStep width base drift late kept s (.call (.sendMulticast s.clock)) output
        (s.after {s.daemon with txMcastTimer := none} next)
  | elsewhere (paced : Paced width base drift s.time awdlState) (stays : kept awdlState)
      (ran : TxStep hash ip6AddrIsmulticast plainTimer s.daemon (.elsewhere awdlState ieee80211State) output next) :
      ServiceStep width base drift late kept s (.call (.elsewhere awdlState ieee80211State)) output (s.after s.daemon next)

-- awdl_schedule on a node: both timers are due at once.
def Scheduled (s : ServiceState) : Prop :=
  (∃ awdlState ieee80211State mem, s.daemon = daemonStart plainTimer awdlState ieee80211State mem) ∧
    ∀ traffic, s.due traffic = s.time

end Steps

variable {hash : EtherAddr → UInt64} {ip6AddrIsmulticast : In6Addr → Bool}

section Retries

theorem floor_short {delay : ℚ} (positive : 0 ≤ delay) (short : delay < 1) : delay.floor = 0 :=
  Int.floor_eq_zero_iff.mpr ⟨positive,short⟩

theorem usecToSec_short {usec : UInt64} (inside : usec.toNat ≤ 81920) : |usecToSec usec| ≤ 81920 / 1000000 := by
  rw [usecToSec,abs_of_nonneg (by positivity)]
  gcongr
  exact_mod_cast inside

theorem missing_short {left guard : UInt64} (short : left < guard) (inside : guard.toNat ≤ 81920) :
    |usecToSec (guard - left)| ≤ 81920 / 1000000 := by
  refine usecToSec_short ?_
  rw [UInt64.toNat_sub_of_le _ _ (UInt64.le_of_lt short)]
  omega

theorem unicast_delay (windowed : Windowed width state.sync) (peer : AwdlPeer) (now : UInt64) :
    |awdlCanSendUnicastIn state peer now awdlUnicastGuardTu| ≤ 81920 / 1000000 := by
  have span := next_bound windowed now
  have known := windowed.known
  have guard : (ieee80211TuToUsec awdlUnicastGuardTu).toUInt64 = 3072 := rfl
  have small : (3072 : UInt64).toNat ≤ 81920 := by decide
  unfold awdlCanSendUnicastIn
  rw [guard]
  dsimp only
  split
  · exact usecToSec_short (by omega)
  · split
    · rename_i early
      split
      · norm_num
      · rw [abs_neg]
        exact missing_short early small
    · split
      · rename_i begun
        split
        · norm_num
        · exact missing_short begun small
      · norm_num

theorem release_delay (ran : release traffic packet receiver state = some (output,delay,next)) : delay.floor = 0 := by
  obtain ⟨_,_,same⟩ := Option.map_eq_some_iff.mp ran
  cases same
  rfl

-- Whatever a callback waits for is less than a second, and so taken for no time at all.
theorem unicast_retry (windowed : Windowed width state.awdlState.sync)
    (ran : sendNext hash now state = some (output,delay,next)) : delay.floor = 0 := by
  unfold sendNext at ran
  split at ran
  · cases ran
    rfl
  · obtain ⟨bytes,_,ran⟩ := Option.bind_eq_some_iff.mp ran
    obtain ⟨dst,_,ran⟩ := Option.bind_eq_some_iff.mp ran
    split at ran
    · exact release_delay ran
    · split at ran
      · rename_i peer _
        have bound := abs_le.mp (unicast_delay windowed peer now)
        have guard : usecToSec (ieee80211TuToUsec awdlUnicastGuardTu).toUInt64 = 3072 / 1000000 := by
          have value : (ieee80211TuToUsec awdlUnicastGuardTu).toUInt64.toNat = 3072 := rfl
          rw [usecToSec,value]
          norm_num
        dsimp only at ran
        split at ran
        · exact release_delay ran
        · split at ran
          · cases ran
            exact floor_short (by linarith) (by rw [guard]; linarith)
          · cases ran
            exact floor_short (by linarith) (by linarith)
      · exact release_delay ran

theorem multicast_retry (ran : sendQueued now state = some (output,delay,next))
    (waits : circularBufEmpty next.txQueueMulticast = false) : delay.floor = 0 := by
  have bound := abs_le.mp (RetryWindow.canSendIn_bound state.awdlState now)
  have guard : usecToSec (ieee80211TuToUsec awdlMulticastGuardTu).toUInt64 = 4096 / 1000000 := by
    rw [usecToSec,RetryWindow.guard_usec]
    norm_num
  have window : usecToSec (ieee80211TuToUsec 64).toUInt64 = 65536 / 1000000 := by
    have value : (ieee80211TuToUsec 64).toUInt64.toNat = 65536 := rfl
    rw [usecToSec,value]
    norm_num
  unfold sendQueued at ran
  dsimp only at ran
  split at ran
  · split at ran
    · split at ran
      · cases ran
      · obtain ⟨bytes,_,ran⟩ := Option.bind_eq_some_iff.mp ran
        exact release_delay ran
    · split at ran
      · cases ran
        exact floor_short (by rw [window]; norm_num) (by rw [window]; norm_num)
      · split at ran
        · cases ran
          exact floor_short (by linarith) (by rw [guard]; linarith)
        · cases ran
          exact floor_short (by linarith) (by linarith)
  · rename_i empty
    cases ran
    rw [waits] at empty
    exact absurd rfl empty

end Retries

section Calls

-- A timer that is not active may be started, with no delay.
def Restarts (before next : DaemonState (Option UInt64)) : Prop := ∀ traffic,
  timerOf next traffic = timerOf before traffic ∨ timerOf before traffic = none ∧ timerOf next traffic = some 0

-- What a call does to the timers and to the node: a frame that is sent takes a number and
-- is counted.
structure Started (before next : DaemonState (Option UInt64)) : Prop where
  timers : Restarts before next
  state : ∃ sequenceNumber stats, next.awdlState =
    {before.awdlState with sequenceNumber := sequenceNumber,stats := stats}

theorem plain_started (timer : Option UInt64) :
    plainTimer.startOnce timer 0 = timer ∨ timer = none ∧ plainTimer.startOnce timer 0 = some 0 := by
  cases timer with
  | none => exact .inr ⟨rfl,rfl⟩
  | some usec => exact .inl rfl

theorem transmit_started (mem : Nat → UInt8) (garbage : Bool) (buffer : Buf) (state : DaemonState (Option UInt64)) :
    Started state (awdlTransmit ip6AddrIsmulticast plainTimer mem garbage buffer state).2 := by
  rcases transmit_cases mem garbage buffer state with refused | ⟨_,_,dstMac,multicast | unicast⟩
  · rw [refused]
    exact ⟨fun _ => .inl rfl,⟨_,_,rfl⟩⟩
  · rw [multicast]
    refine ⟨fun traffic => ?_,⟨_,_,rfl⟩⟩
    cases traffic with
    | unicast => exact .inl rfl
    | multicast => exact plain_started _
  · rw [unicast]
    refine ⟨fun traffic => ?_,⟨_,_,rfl⟩⟩
    cases traffic with
    | unicast => exact plain_started _
    | multicast => exact .inl rfl

theorem sendPacket_state (ran : sendPacket traffic packet state = some (output,delay,next)) :
    ∃ sequenceNumber stats,
      next.awdlState = {state.awdlState with sequenceNumber := sequenceNumber,stats := stats} := by
  obtain ⟨heap,rfl⟩ := release_frame ran
  obtain ⟨sequenceNumber,stats,sent⟩ := NodeHistory.sendData_writes packet.bytes state.awdlState state.ieee80211State
  change ∃ sequenceNumber stats,
    countTx (awdlSendData packet.bytes state.awdlState state.ieee80211State).2.1 traffic = _
  rw [sent]
  cases traffic <;> exact ⟨_,_,rfl⟩

theorem release_output (ran : release traffic packet receiver state = some (output,delay,next)) :
    output = .handed traffic packet receiver := by
  obtain ⟨_,_,same⟩ := Option.map_eq_some_iff.mp ran
  cases same
  rfl

theorem sendNext_state (ran : sendNext hash now state = some (output,delay,next)) :
    next.txTimer = state.txTimer ∧
    (∃ sequenceNumber stats, next.awdlState =
      {state.awdlState with sequenceNumber := sequenceNumber,stats := stats}) ∧
    (output = .waits ∨ ∃ packet receiver, output = .handed .unicast packet receiver) := by
  unfold sendNext at ran
  split at ran
  · cases ran
    exact ⟨rfl,⟨_,_,rfl⟩,.inl rfl⟩
  · obtain ⟨bytes,_,ran⟩ := Option.bind_eq_some_iff.mp ran
    obtain ⟨dst,_,ran⟩ := Option.bind_eq_some_iff.mp ran
    split at ran
    · obtain ⟨_,rfl⟩ := release_frame ran
      exact ⟨rfl,⟨_,_,rfl⟩,.inr ⟨_,_,release_output ran⟩⟩
    · split at ran
      · dsimp only at ran
        split at ran
        · have sent := sendPacket_state ran
          have handed := release_output ran
          obtain ⟨_,_,_,rfl⟩ := sendPacket_frame ran
          exact ⟨rfl,sent,.inr ⟨_,_,handed⟩⟩
        · split at ran <;> cases ran <;> exact ⟨rfl,⟨_,_,rfl⟩,.inl rfl⟩
      · obtain ⟨_,rfl⟩ := release_frame ran
        exact ⟨rfl,⟨_,_,rfl⟩,.inr ⟨_,_,release_output ran⟩⟩

theorem sendQueued_state (ran : sendQueued now state = some (output,delay,next)) :
    next.txMcastTimer = state.txMcastTimer ∧
    (∃ sequenceNumber stats, next.awdlState =
      {state.awdlState with sequenceNumber := sequenceNumber,stats := stats}) ∧
    (output = .waits ∨ ∃ packet frame, output = .handed .multicast packet (.sendData frame)) := by
  unfold sendQueued at ran
  dsimp only at ran
  split at ran
  · split at ran
    · split at ran
      · cases ran
      · obtain ⟨bytes,_,ran⟩ := Option.bind_eq_some_iff.mp ran
        have sent := sendPacket_state ran
        have handed := release_output ran
        obtain ⟨_,_,_,rfl⟩ := sendPacket_frame ran
        exact ⟨rfl,sent,.inr ⟨_,_,handed⟩⟩
    · split at ran
      · cases ran
        exact ⟨rfl,⟨_,_,rfl⟩,.inl rfl⟩
      · split at ran <;> cases ran <;> exact ⟨rfl,⟨_,_,rfl⟩,.inl rfl⟩
  · cases ran
    exact ⟨rfl,⟨_,_,rfl⟩,.inl rfl⟩

theorem rearm_zero (timer : Option UInt64) (cut : delay.floor = 0) :
    timerRearm plainTimer timer delay = plainTimer.startOnce timer 0 := by
  rw [timerRearm,cut]
  rfl

theorem unicast_started (windowed : Windowed width state.awdlState.sync)
    (ran : awdlSendUnicast hash plainTimer now state = some (output,next)) : Started state next := by
  obtain ⟨⟨_,delay,left⟩,sent,same⟩ := Option.map_eq_some_iff.mp ran
  obtain ⟨other,_⟩ := sendNext_frame sent
  obtain ⟨timer,rest,_⟩ := sendNext_state sent
  cases same
  split
  · refine ⟨fun traffic => ?_,rest⟩
    cases traffic with
    | unicast =>
      change timerRearm plainTimer left.txTimer delay = state.txTimer ∨
        state.txTimer = none ∧ timerRearm plainTimer left.txTimer delay = some 0
      rw [rearm_zero _ (unicast_retry windowed sent),timer]
      exact plain_started _
    | multicast => exact .inl other
  · refine ⟨fun traffic => .inl ?_,rest⟩
    cases traffic with
    | unicast => exact timer
    | multicast => exact other

theorem multicast_started (ran : awdlSendMulticast plainTimer now state = some (output,next)) : Started state next := by
  obtain ⟨⟨_,delay,left⟩,sent,same⟩ := Option.map_eq_some_iff.mp ran
  obtain ⟨other,_⟩ := sendQueued_frame sent
  obtain ⟨timer,rest,_⟩ := sendQueued_state sent
  cases same
  split
  · rename_i waits
    have occupied : circularBufEmpty left.txQueueMulticast = false := by simpa using waits
    refine ⟨fun traffic => ?_,rest⟩
    cases traffic with
    | unicast => exact .inl other
    | multicast =>
      change timerRearm plainTimer left.txMcastTimer delay = state.txMcastTimer ∨
        state.txMcastTimer = none ∧ timerRearm plainTimer left.txMcastTimer delay = some 0
      rw [rearm_zero _ (multicast_retry sent occupied),timer]
      exact plain_started _
  · refine ⟨fun traffic => .inl ?_,rest⟩
    cases traffic with
    | unicast => exact other
    | multicast => exact timer

end Calls

section Waiting
variable {width : Nat} {base : Int} {drift late : Nat} {kept : AwdlState → Prop} {s t : ServiceState}

-- A number taken and a frame counted are nothing that is kept.
def Uncounted (kept : AwdlState → Prop) : Prop := ∀ (state : AwdlState) (sequenceNumber : UInt16) (stats : AwdlStats),
  kept state → kept {state with sequenceNumber := sequenceNumber,stats := stats}

-- The invariant: a timer that is active is due at once, and not for longer than `late`.
structure Ready (width : Nat) (base : Int) (drift late : Nat) (kept : AwdlState → Prop) (s : ServiceState) : Prop where
  queued : ∃ queues, Queued s.daemon queues
  armed : Armed plainTimer s.daemon
  paced : Paced width base drift s.time s.daemon.awdlState
  held : kept s.daemon.awdlState
  prompt : ∀ traffic, (timerOf s.daemon traffic).isSome = true → s.due traffic ≤ s.time
  overdue : ∀ traffic, (timerOf s.daemon traffic).isSome = true → s.time ≤ s.due traffic + late

theorem Ready.keeping (ready : Ready width base drift late any s) (held : kept s.daemon.awdlState) :
    Ready width base drift late kept s :=
  ⟨ready.queued,ready.armed,ready.paced,held,ready.prompt,ready.overdue⟩

theorem Paced.later (paced : Paced width base drift time state)
    (steady : Steady width state.sync (UInt64.ofNat time) (span : Nat)) :
    Paced width base drift (time + span) state := by
  obtain ⟨windowed,aligned,e,small,near⟩ := paced
  refine ⟨windowed,aligned,e,small,?_⟩
  rw [Timers.clock_wait windowed aligned steady,near]
  push_cast
  rcases windowed.known with rfl | rfl <;> omega

theorem Started.paced (started : Started before next) (paced : Paced width base drift time before.awdlState) :
    Paced width base drift time next.awdlState := by
  obtain ⟨sequenceNumber,stats,same⟩ := started.state
  rw [same]
  exact ⟨paced.windowed,paced.aligned,paced.near⟩

-- A timer runs on, or starts now.
theorem started_due (started : Restarts fired next) (traffic : Traffic) (time due : Nat) :
    timerOf next traffic = timerOf fired traffic ∧
        startedDue (timerOf fired traffic) (timerOf next traffic) time due = due ∨
      timerOf fired traffic = none ∧ startedDue (timerOf fired traffic) (timerOf next traffic) time due = time := by
  rcases started traffic with same | ⟨idle,zero⟩
  · refine .inl ⟨same,?_⟩
    rw [same]
    cases timerOf fired traffic <;> rfl
  · refine .inr ⟨idle,?_⟩
    rw [idle,zero]
    rfl

theorem after_ready (ready : Ready width base drift late kept s) (started : Restarts fired next)
    (queued : ∃ queues, Queued next queues) (armed : Armed plainTimer next)
    (paced : Paced width base drift s.time next.awdlState) (held : kept next.awdlState)
    (still : ∀ traffic, (timerOf fired traffic).isSome = true → timerOf s.daemon traffic = timerOf fired traffic) :
    Ready width base drift late kept (s.after fired next) := by
  have dues : ∀ traffic, (timerOf next traffic).isSome = true →
      (s.after fired next).due traffic ≤ s.time ∧ s.time ≤ (s.after fired next).due traffic + late := by
    intro traffic active
    change startedDue (timerOf fired traffic) (timerOf next traffic) s.time (s.due traffic) ≤ s.time ∧
      s.time ≤ startedDue (timerOf fired traffic) (timerOf next traffic) s.time (s.due traffic) + late
    rcases started_due started traffic s.time (s.due traffic) with ⟨same,due⟩ | ⟨_,due⟩
    · rw [due]
      rw [same] at active
      have before := still traffic active
      rw [← before] at active
      exact ⟨ready.prompt traffic active,ready.overdue traffic active⟩
    · rw [due]
      exact ⟨le_rfl,Nat.le_add_right _ _⟩
  exact ⟨queued,armed,paced,held,fun traffic active => (dues traffic active).1,
    fun traffic active => (dues traffic active).2⟩

theorem call_queued (queued : ∃ queues, Queued state queues)
    (step : TxStep hash ip6AddrIsmulticast plainTimer state event output next) : ∃ queues, Queued next queues := by
  obtain ⟨queues,queued⟩ := queued
  obtain ⟨after,_,left,_⟩ := step_follows queued step
  exact ⟨after,left⟩

theorem Started.held (started : Started before next) (uncounted : Uncounted kept) (held : kept before.awdlState) :
    kept next.awdlState := by
  obtain ⟨sequenceNumber,stats,same⟩ := started.state
  rw [same]
  exact uncounted _ _ _ held

-- What one callback, or awdl_transmit, leaves behind.
theorem called_ready (uncounted : Uncounted kept) (ready : Ready width base drift late kept s)
    (ran : TxStep hash ip6AddrIsmulticast plainTimer s.daemon event output next) (started : Started fired next)
    (same : fired.awdlState = s.daemon.awdlState)
    (still : ∀ traffic, (timerOf fired traffic).isSome = true → timerOf s.daemon traffic = timerOf fired traffic) :
    Ready width base drift late kept (s.after fired next) := by
  have paced : Paced width base drift s.time fired.awdlState := by
    rw [same]
    exact ready.paced
  have held : kept fired.awdlState := by
    rw [same]
    exact ready.held
  exact after_ready ready started.timers (call_queued ready.queued ran) (step_armed plain_documented ready.armed ran)
    (started.paced paced) (started.held uncounted held) still

theorem step_ready (uncounted : Uncounted kept) (ready : Ready width base drift late kept s)
    (step : ServiceStep hash ip6AddrIsmulticast width base drift late kept s event output t) :
    Ready width base drift late kept t := by
  cases step with
  | wait soon steady =>
    exact ⟨ready.queued,ready.armed,ready.paced.later steady,ready.held,
      fun traffic active => le_trans (ready.prompt traffic active) (Nat.le_add_right _ _),soon⟩
  | transmit ran =>
    cases id ran with
    | transmit => exact called_ready uncounted ready ran (transmit_started _ _ _ _) rfl fun _ _ => rfl
  | sendUnicast active due ran =>
    cases id ran with
    | sendUnicast sent =>
      have windowed : Windowed width ({s.daemon with txTimer := none} : DaemonState (Option UInt64)).awdlState.sync :=
        ready.paced.windowed
      refine called_ready uncounted ready ran (unicast_started windowed sent) rfl ?_
      intro traffic fired
      cases traffic with
      | unicast => cases fired
      | multicast => rfl
  | sendMulticast active due ran =>
    cases id ran with
    | sendMulticast sent =>
      refine called_ready uncounted ready ran (multicast_started sent) rfl ?_
      intro traffic fired
      cases traffic with
      | unicast => rfl
      | multicast => cases fired
  | elsewhere paced stays ran =>
    have queued := call_queued ready.queued ran
    have armed := step_armed plain_documented ready.armed ran
    cases ran
    exact after_ready ready (fun _ => .inl rfl) queued armed paced stays fun _ _ => rfl

-- A timer that is not active, or is due now.
def Settled (s : ServiceState) (traffic : Traffic) : Prop :=
  timerOf s.daemon traffic = none ∨ s.due traffic = s.time

theorem after_settled (started : Restarts fired next) (traffic : Traffic)
    (before : timerOf fired traffic = none ∨ s.due traffic = s.time) : Settled (s.after fired next) traffic := by
  rcases started_due started traffic s.time (s.due traffic) with ⟨same,due⟩ | ⟨_,due⟩
  · rcases before with idle | now
    · exact .inl (same.trans idle)
    · exact .inr (due.trans now)
  · exact .inr due

theorem Started.sync (started : Started before next) : next.awdlState.sync = before.awdlState.sync := by
  obtain ⟨_,_,same⟩ := started.state
  rw [same]

-- A stretch of calls that leaves the node's clock alone, ready at its end.
structure Passes (hash : EtherAddr → UInt64) (ip6AddrIsmulticast : In6Addr → Bool) (width : Nat) (base : Int)
    (drift late : Nat) (kept : AwdlState → Prop) (s t : ServiceState) : Prop where
  path : ∃ trace, Runs (ServiceStep hash ip6AddrIsmulticast width base drift late kept) s trace t
  ready : Ready width base drift late kept t
  sync : t.daemon.awdlState.sync = s.daemon.awdlState.sync

theorem Passes.trans (first : Passes hash ip6AddrIsmulticast width base drift late kept s t)
    (second : Passes hash ip6AddrIsmulticast width base drift late kept t u) :
    Passes hash ip6AddrIsmulticast width base drift late kept s u := by
  obtain ⟨_,begins⟩ := first.path
  obtain ⟨_,ends⟩ := second.path
  exact ⟨⟨_,runs_append begins ends⟩,second.ready,second.sync.trans first.sync⟩

theorem fires (uncounted : Uncounted kept) (ready : Ready width base drift late kept s) (traffic : Traffic) :
    ∃ t, Passes hash ip6AddrIsmulticast width base drift late kept s t ∧ t.time = s.time ∧ Settled t traffic ∧
      ∀ other, Settled s other → Settled t other := by
  cases active : (timerOf s.daemon traffic).isSome with
  | false => exact ⟨s,⟨⟨[],.nil⟩,ready,rfl⟩,rfl,.inl (by simpa using active),fun _ settled => settled⟩
  | true =>
    have due := ready.prompt traffic active
    obtain ⟨queues,queued⟩ := ready.queued
    cases traffic with
    | unicast =>
      obtain ⟨output,next,ran,_⟩ := unicast_follows (queued.congr {s.daemon with txTimer := none} rfl rfl rfl)
        hash plainTimer s.clock
      have step : ServiceStep hash ip6AddrIsmulticast width base drift late kept s (.call (.sendUnicast s.clock)) output
          (s.after {s.daemon with txTimer := none} next) := .sendUnicast active due (.sendUnicast ran)
      have windowed : Windowed width ({s.daemon with txTimer := none} : DaemonState (Option UInt64)).awdlState.sync :=
        ready.paced.windowed
      have started := unicast_started windowed ran
      refine ⟨_,⟨⟨_,.cons step .nil⟩,step_ready uncounted ready step,started.sync⟩,rfl,
        after_settled started.timers .unicast (.inl rfl),?_⟩
      intro other settled
      cases other with
      | unicast => exact after_settled started.timers .unicast (.inl rfl)
      | multicast => exact after_settled started.timers .multicast settled
    | multicast =>
      obtain ⟨output,next,ran,_⟩ := multicast_follows (queued.congr {s.daemon with txMcastTimer := none} rfl rfl rfl)
        plainTimer s.clock
      have step : ServiceStep hash ip6AddrIsmulticast width base drift late kept s (.call (.sendMulticast s.clock)) output
          (s.after {s.daemon with txMcastTimer := none} next) := .sendMulticast active due (.sendMulticast ran)
      have started := multicast_started ran
      refine ⟨_,⟨⟨_,.cons step .nil⟩,step_ready uncounted ready step,started.sync⟩,rfl,
        after_settled started.timers .multicast (.inl rfl),?_⟩
      intro other settled
      cases other with
      | unicast => exact after_settled started.timers .unicast settled
      | multicast => exact after_settled started.timers .multicast (.inl rfl)

-- The schedule that calls what is due and then waits as long as it may.
theorem lap_passes (uncounted : Uncounted kept) (ready : Ready width base drift late kept s)
    (steady : Steady width s.daemon.awdlState.sync s.clock (late : Nat)) :
    ∃ t, Passes hash ip6AddrIsmulticast width base drift late kept s t ∧ t.time = s.time + late := by
  obtain ⟨u,first,time,unicast,_⟩ := @fires hash ip6AddrIsmulticast _ _ _ _ _ _ uncounted ready .unicast
  obtain ⟨v,second,later,multicast,others⟩ :=
    @fires hash ip6AddrIsmulticast _ _ _ _ _ _ uncounted first.ready .multicast
  have both := first.trans second
  have settled : ∀ traffic, Settled v traffic := by
    intro traffic
    cases traffic with
    | unicast => exact others _ unicast
    | multicast => exact multicast
  have still : Steady width v.daemon.awdlState.sync v.clock (late : Nat) := by
    rw [both.sync,ServiceState.clock,later,time]
    exact steady
  have wait : ServiceStep hash ip6AddrIsmulticast width base drift late kept v (.wait late) .waits
      {v with time := v.time + late} := by
    refine .wait (fun traffic active => ?_) still
    rcases settled traffic with idle | now
    · rw [idle] at active
      cases active
    · rw [now]
  refine ⟨_,both.trans ⟨⟨_,.cons wait .nil⟩,step_ready uncounted both.ready wait,rfl⟩,?_⟩
  change v.time + late = s.time + late
  omega

-- No state that is reached keeps time from going on, for as long as the clock counts right.
theorem time_passes (uncounted : Uncounted kept) (ready : Ready width base drift late kept s) (laps : Nat)
    (steady : Steady width s.daemon.awdlState.sync s.clock (laps * late : Nat)) :
    ∃ t, Passes hash ip6AddrIsmulticast width base drift late kept s t ∧ t.time = s.time + laps * late := by
  induction laps with
  | zero => exact ⟨s,⟨⟨[],.nil⟩,ready,rfl⟩,by omega⟩
  | succ laps ih =>
    rw [Nat.succ_mul] at steady ⊢
    have before : Steady width s.daemon.awdlState.sync s.clock (laps * late : Nat) :=
      steady_between (steady_now steady) steady (by omega) (by omega)
    obtain ⟨u,first,time⟩ := ih before
    have still : Steady width u.daemon.awdlState.sync u.clock (late : Nat) := by
      rw [first.sync,ServiceState.clock,time,UInt64.ofNat_add]
      exact steady_later steady
    obtain ⟨v,second,later⟩ := @lap_passes hash ip6AddrIsmulticast _ _ _ _ _ _ uncounted first.ready still
    exact ⟨v,first.trans second,by omega⟩

end Waiting

end EspOwl.Service
