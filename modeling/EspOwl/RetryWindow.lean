import EspOwl.TransmitQueues

namespace EspOwl.RetryWindow
open TransmitQueues

-- A timer that remembers the delays it was started with.
def recorder : EspTimer (List UInt64) := ⟨[],fun calls usec => calls ++ [usec],id,fun calls => !calls.isEmpty⟩

-- The retry that is scheduled at `now` falls where sending is allowed.
def RetryLands (now : UInt64) (state : DaemonState (List UInt64)) : Prop :=
  ∃ output next d, awdlSendMulticast recorder now state = some (output,next) ∧
    next.txMcastTimer = state.txMcastTimer ++ [d] ∧
    awdlCanSendIn state.awdlState (now + d) awdlMulticastGuardTu = 0

theorem guard_usec : (ieee80211TuToUsec awdlMulticastGuardTu).toUInt64.toNat = 4096 := by decide

theorem usecToSec_nonneg (usec : UInt64) : 0 ≤ usecToSec usec := by
  unfold usecToSec
  positivity

theorem usecToSec_le {usec : UInt64} (small : usec.toNat ≤ 4096) : usecToSec usec ≤ 4096 / 1000000 := by
  unfold usecToSec
  gcongr
  exact_mod_cast small

-- What is left of the guard interval is no longer than the interval.
theorem canSendIn_bound (state : AwdlState) (now : UInt64) :
    |awdlCanSendIn state now awdlMulticastGuardTu| ≤ 4096 / 1000000 := by
  have guard := guard_usec
  unfold awdlCanSendIn
  dsimp only
  split
  · rename_i late
    rw [abs_neg,abs_of_nonneg (usecToSec_nonneg _)]
    refine usecToSec_le ?_
    rw [UInt64.toNat_sub_of_le _ _ (UInt64.le_of_lt late)]
    omega
  · split
    · rename_i early
      rw [abs_of_nonneg (usecToSec_nonneg _)]
      refine usecToSec_le ?_
      rw [UInt64.toNat_sub_of_le _ _ (UInt64.le_of_lt early)]
      omega
    · rw [abs_zero]
      norm_num

section Blocked
variable {T : Type} {state : DaemonState T} {now : UInt64}

theorem blocked_waits (waiting : circularBufEmpty state.txQueueMulticast = false)
    (blocked : awdlCanSendIn state.awdlState now awdlMulticastGuardTu ≠ 0) :
    ∃ delay, sendQueued now state = some (.waits,delay,state) ∧ 0 ≤ delay ∧ delay < 1 := by
  have bound := abs_le.mp (canSendIn_bound state.awdlState now)
  have guard : usecToSec (ieee80211TuToUsec awdlMulticastGuardTu).toUInt64 = 4096 / 1000000 := by
    rw [usecToSec,guard_usec]
    norm_num
  unfold sendQueued
  simp only [waiting,blocked,and_false,if_false,Bool.not_false,if_true]
  split
  · rename_i late
    refine ⟨_,rfl,?_,?_⟩
    · linarith
    · linarith
  · rename_i early
    exact ⟨_,rfl,by linarith,by linarith⟩

-- The wait in seconds is less than one, so the timer is started with 0 microseconds.
theorem retry_at_once (esp : EspTimer T) (waiting : circularBufEmpty state.txQueueMulticast = false)
    (blocked : awdlCanSendIn state.awdlState now awdlMulticastGuardTu ≠ 0) :
    awdlSendMulticast esp now state =
      some (.waits,{state with txMcastTimer := esp.startOnce state.txMcastTimer 0}) := by
  obtain ⟨delay,ran,positive,short⟩ := blocked_waits waiting blocked
  have cut : delay.floor = 0 := Int.floor_eq_zero_iff.mpr ⟨positive,short⟩
  simp [awdlSendMulticast,ran,waiting,timerRearm,cut]

end Blocked

-- The time it lands at is now.
theorem lands_now (waiting : circularBufEmpty state.txQueueMulticast = false)
    (blocked : awdlCanSendIn state.awdlState now awdlMulticastGuardTu ≠ 0) (lands : RetryLands now state) :
    awdlCanSendIn state.awdlState now awdlMulticastGuardTu = 0 := by
  obtain ⟨output,next,d,ran,started,allowed⟩ := lands
  rw [retry_at_once recorder waiting blocked] at ran
  cases ran
  have zero : d = 0 := (List.singleton_injective (List.append_cancel_left started)).symm
  rwa [zero,UInt64.add_zero] at allowed

theorem retry_misses (waiting : circularBufEmpty state.txQueueMulticast = false)
    (blocked : awdlCanSendIn state.awdlState now awdlMulticastGuardTu ≠ 0) : ¬ RetryLands now state := by
  intro lands
  exact blocked (lands_now waiting blocked lands)

-- A node at the start of an extended availability window, with one packet to a group.
def waitingNode : DaemonState (List UInt64) :=
  (awdlTransmit groupAddr recorder (fun _ => 0) false toGroup (daemonStart recorder
    (awdlInitState default [] ⟨2,0,0,0,0,1⟩ chanOpclass6 0) ieee80211InitState ⟨fun _ => 0,0,0,0,false⟩)).2

theorem waitingNode_waits : circularBufEmpty waitingNode.txQueueMulticast = false := by decide +kernel

theorem waitingNode_blocked : awdlCanSendIn waitingNode.awdlState 0 awdlMulticastGuardTu ≠ 0 := by decide +kernel

theorem retry_misses_start : ¬ RetryLands 0 waitingNode := retry_misses waitingNode_waits waitingNode_blocked

theorem retry_never_lands : ¬ ∀ (now : UInt64) (state : DaemonState (List UInt64)),
    state.awdlState.sync.awPeriod = 16 → state.awdlState.sync.presenceMode = 4 →
      circularBufEmpty state.txQueueMulticast = false → awdlCanSendIn state.awdlState now awdlMulticastGuardTu ≠ 0 →
        RetryLands now state := by
  intro lands
  have landed := lands 0 waitingNode (by decide +kernel) (by decide +kernel) waitingNode_waits waitingNode_blocked
  exact waitingNode_blocked (lands_now waitingNode_waits waitingNode_blocked landed)

end EspOwl.RetryWindow
