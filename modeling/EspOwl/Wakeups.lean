import EspOwl.TransmitQueues

namespace EspOwl.Wakeups
open Histories TransmitQueues

variable {hash : EtherAddr → UInt64} {ip6AddrIsmulticast : In6Addr → Bool} {T : Type} {esp : EspTimer T}

def timerOf (state : DaemonState T) : Traffic → T
  | .unicast => state.txTimer
  | .multicast => state.txMcastTimer

-- What waits has a timer running for it, by the tests that the callbacks make.
structure Armed (esp : EspTimer T) (state : DaemonState T) : Prop where
  unicast : state.next.isSome = true → esp.active state.txTimer = true
  multicast : circularBufEmpty state.txQueueMulticast = false → esp.active state.txMcastTimer = true

theorem start_active (documented : esp.Documented) (timer : T) (usec : UInt64) :
    esp.active (esp.startOnce timer usec) = true := by
  cases running : esp.active timer with
  | false => exact documented.started timer usec running
  | true => exact documented.refused timer usec running

theorem transmit_armed (documented : esp.Documented) (armed : Armed esp state) (mem : Nat → UInt8) (garbage : Bool)
    (buffer : Buf) : Armed esp (awdlTransmit ip6AddrIsmulticast esp mem garbage buffer state).2 := by
  rcases transmit_cases mem garbage buffer state with refused | ⟨_,_,dstMac,multicast | unicast⟩
  · rw [refused]
    exact armed
  · rw [multicast]
    exact ⟨armed.unicast,fun _ => start_active documented _ _⟩
  · rw [unicast]
    exact ⟨fun _ => start_active documented _ _,armed.multicast⟩

theorem release_frame (ran : release traffic packet receiver state = some (output,delay,next)) :
    ∃ heap, next = {state with heap := heap} := by
  obtain ⟨heap,_,same⟩ := Option.map_eq_some_iff.mp ran
  cases same
  exact ⟨heap,rfl⟩

theorem sendPacket_frame (ran : sendPacket traffic packet state = some (output,delay,next)) :
    ∃ awdlState ieee80211State heap,
      next = {state with awdlState := awdlState,ieee80211State := ieee80211State,heap := heap} := by
  obtain ⟨heap,rfl⟩ := release_frame ran
  exact ⟨_,_,_,rfl⟩

theorem sendNext_frame (ran : sendNext hash now state = some (output,delay,next)) :
    next.txMcastTimer = state.txMcastTimer ∧ next.txQueueMulticast = state.txQueueMulticast := by
  unfold sendNext at ran
  split at ran
  · cases ran
    exact ⟨rfl,rfl⟩
  · obtain ⟨bytes,_,ran⟩ := Option.bind_eq_some_iff.mp ran
    obtain ⟨dst,_,ran⟩ := Option.bind_eq_some_iff.mp ran
    split at ran
    · obtain ⟨_,rfl⟩ := release_frame ran
      exact ⟨rfl,rfl⟩
    · split at ran
      · dsimp only at ran
        split at ran
        · obtain ⟨_,_,_,rfl⟩ := sendPacket_frame ran
          exact ⟨rfl,rfl⟩
        · split at ran <;> cases ran <;> exact ⟨rfl,rfl⟩
      · obtain ⟨_,rfl⟩ := release_frame ran
        exact ⟨rfl,rfl⟩

theorem sendQueued_frame (ran : sendQueued now state = some (output,delay,next)) :
    next.txTimer = state.txTimer ∧ next.next = state.next := by
  unfold sendQueued at ran
  dsimp only at ran
  split at ran
  · split at ran
    · split at ran
      · cases ran
      · obtain ⟨bytes,_,ran⟩ := Option.bind_eq_some_iff.mp ran
        obtain ⟨_,_,_,rfl⟩ := sendPacket_frame ran
        exact ⟨rfl,rfl⟩
    · split at ran
      · cases ran
        exact ⟨rfl,rfl⟩
      · split at ran <;> cases ran <;> exact ⟨rfl,rfl⟩
  · cases ran
    exact ⟨rfl,rfl⟩

-- The callback starts its timer again on every path that leaves state->next set; the
-- other timer is not its own.
theorem unicast_armed (documented : esp.Documented) (armed : Armed esp state)
    (ran : awdlSendUnicast hash esp now {state with txTimer := esp.fire state.txTimer} = some (output,next)) :
    Armed esp next := by
  obtain ⟨⟨_,delay,left⟩,sent,same⟩ := Option.map_eq_some_iff.mp ran
  obtain ⟨timer,queue⟩ := sendNext_frame sent
  have multicast : circularBufEmpty left.txQueueMulticast = false → esp.active left.txMcastTimer = true := by
    rw [timer,queue]
    exact armed.multicast
  cases same
  cases remains : left.next.isSome with
  | true => exact ⟨fun _ => start_active documented _ _,multicast⟩
  | false =>
    refine ⟨fun waits => ?_,multicast⟩
    rw [if_neg (by simp),remains] at waits
    cases waits

theorem multicast_armed (documented : esp.Documented) (armed : Armed esp state)
    (ran : awdlSendMulticast esp now {state with txMcastTimer := esp.fire state.txMcastTimer} = some (output,next)) :
    Armed esp next := by
  obtain ⟨⟨_,delay,left⟩,sent,same⟩ := Option.map_eq_some_iff.mp ran
  obtain ⟨timer,slot⟩ := sendQueued_frame sent
  have unicast : left.next.isSome = true → esp.active left.txTimer = true := by
    rw [timer,slot]
    exact armed.unicast
  cases same
  cases empty : circularBufEmpty left.txQueueMulticast with
  | false => exact ⟨unicast,fun _ => start_active documented _ _⟩
  | true =>
    refine ⟨unicast,fun waits => ?_⟩
    rw [if_neg (by simp),empty] at waits
    cases waits

theorem step_armed (documented : esp.Documented) (armed : Armed esp state)
    (step : TxStep hash ip6AddrIsmulticast esp state event output next) : Armed esp next := by
  cases step with
  | transmit => exact transmit_armed documented armed _ _ _
  | sendUnicast ran => exact unicast_armed documented armed ran
  | sendMulticast ran => exact multicast_armed documented armed ran
  | elsewhere => exact ⟨armed.unicast,armed.multicast⟩

theorem start_armed (documented : esp.Documented) (awdlState : AwdlState) (ieee80211State : Ieee80211State)
    (mem : CircularBuf Nat) : Armed esp (daemonStart esp awdlState ieee80211State mem) :=
  ⟨fun _ => start_active documented _ _,fun _ => start_active documented _ _⟩

theorem no_stranded_frame (documented : esp.Documented)
    (path : Runs (TxStep hash ip6AddrIsmulticast esp) (daemonStart esp awdlState ieee80211State mem) trace state) :
    ∀ traffic, waiting state traffic ≠ [] → esp.active (timerOf state traffic) = true := by
  have armed : Armed esp state := runs_invariant (fun _ _ _ _ => step_armed documented)
    (start_armed documented awdlState ieee80211State mem) path
  obtain ⟨queues,_,queued⟩ := queues_refined path
  intro traffic waits
  cases traffic with
  | unicast =>
    refine armed.unicast ?_
    cases busy : state.next with
    | none => exact absurd (by rw [waiting,busy]; rfl) waits
    | some _ => rfl
  | multicast =>
    refine armed.multicast ?_
    rw [← Bool.not_eq_true,queued.ring.empty_iff,← queued.ring.items_eq]
    exact waits

theorem plain_documented : plainTimer.Documented := ⟨fun _ => rfl,fun _ _ _ => rfl,fun _ _ _ => rfl⟩

theorem no_stranded_frame_quiet : ∃ state : DaemonState (Option UInt64),
    waiting state .multicast = [0] ∧ plainTimer.active state.txMcastTimer = true := by
  obtain ⟨trace,state,path,_,left⟩ := quiet_run
  exact ⟨state,left,no_stranded_frame plain_documented path .multicast (by rw [left]; decide)⟩

end EspOwl.Wakeups
