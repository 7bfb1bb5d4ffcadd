import EspOwl.Rx
import EspOwl.SlotClock

namespace EspOwl.SyncError
open SlotClock

-- Extended windows of 64 TU, of which the 16-bit counter tells 2^14 apart.
def cycle : Int := 2 ^ 14 * 64

def position (eaw timeToNextAw : UInt16) : Int := eaw.toNat * 64 + 64 - timeToNextAw.toNat

def masterPosition (awCounter timeToNextAw : UInt16) : Int := position (awCounter / 4) timeToNextAw
def localPosition (now : UInt64) (state : AwdlSyncState) : Int :=
  position (awdlSyncCurrentEaw now state) (awdlSyncNextAwTu now state)

-- At most three TU apart on the cycle, either way round.
def Near (left right : Int) : Prop := (left - right) % cycle ≤ 3 ∨ (right - left) % cycle ≤ 3

-- The same, but the counter wraps in between.
def Across (left right : Int) : Prop := cycle - 3 ≤ left - right ∨ cycle - 3 ≤ right - left

theorem error_difference (usual : Usual state) (now : UInt64) (timeToNextAw awCounter : UInt16) :
    awdlSyncErrorTu now timeToNextAw awCounter state = masterPosition awCounter timeToNextAw - localPosition now state := by
  have four : state.presenceMode.toUInt16 = 4 := by rw [usual.mode]; rfl
  rw [awdlSyncErrorTu,four,usual.mode,usual.period,masterPosition,localPosition,position,position]
  simp only [UInt8.reduceToNat,UInt16.reduceToNat]
  ring

theorem position_inside (low : 1 ≤ timeToNextAw.toNat) (high : timeToNextAw.toNat ≤ 64) {eaw : UInt16}
    (window : eaw.toNat < 2 ^ 14) : 0 ≤ position eaw timeToNextAw ∧ position eaw timeToNextAw < cycle := by
  rw [position,cycle]
  omega

theorem master_inside (low : 1 ≤ timeToNextAw.toNat) (high : timeToNextAw.toNat ≤ 64) (awCounter : UInt16) :
    0 ≤ masterPosition awCounter timeToNextAw ∧ masterPosition awCounter timeToNextAw < cycle := by
  refine position_inside low high ?_
  have inside := awCounter.toNat_lt
  rw [UInt16.toNat_div]
  simp only [UInt16.reduceToNat]
  omega

theorem local_inside (usual : Usual state) (now : UInt64) :
    0 ≤ localPosition now state ∧ localPosition now state < cycle := by
  have next := nextAwTu_value usual.windowed now
  have inside := (awdlSyncCurrentAw now state).toNat_lt
  refine position_inside (by omega) (by omega) ?_
  rw [currentEaw_value usual.windowed]
  omega

-- Inside one cycle only a pair that the wrap parts is near without being close.
theorem near_across {left right : Int} (first : 0 ≤ left ∧ left < cycle) (second : 0 ≤ right ∧ right < cycle) :
    (Near left right → |left - right| ≤ 3) ↔ ¬Across left right := by
  rw [abs_le]
  unfold Near Across
  simp only [cycle] at *
  omega

-- The error is small, and the handler of a TLV with this pair does not count it.
structure Uncounted (now : UInt64) (timeToNextAw awCounter : UInt16) (state : AwdlSyncState) : Prop where
  small : |awdlSyncErrorTu now timeToNextAw awCounter state| ≤ 3
  kept : ∀ src val node, node.sync = state → readLe16 val 1 = some timeToNextAw → readLe16 val 29 = some awCounter →
    (awdlHandleSyncParamsTlv src val node now).2.sync.measErr = state.measErr

theorem small_uncounted (small : |awdlSyncErrorTu now timeToNextAw awCounter state| ≤ 3) :
    Uncounted now timeToNextAw awCounter state := by
  refine ⟨small,?_⟩
  rintro src val node rfl first second
  have within : ¬(awdlSyncErrorTu now timeToNextAw awCounter {node.sync with measTotal := node.sync.measTotal + 1} >
      awdlSyncThreshold ∨ awdlSyncErrorTu now timeToNextAw awCounter {node.sync with measTotal := node.sync.measTotal + 1} <
      -awdlSyncThreshold) := by
    rw [abs_le] at small
    change ¬(awdlSyncErrorTu now timeToNextAw awCounter node.sync > 3 ∨ awdlSyncErrorTu now timeToNextAw awCounter node.sync < -3)
    omega
  rw [awdlHandleSyncParamsTlv]
  split
  · rfl
  · simp only [first,second,checkedRead_some,within,if_false]
    rfl

theorem sync_error_iff (usual : Usual state) (now : UInt64) (awCounter : UInt16) (low : 1 ≤ timeToNextAw.toNat)
    (high : timeToNextAw.toNat ≤ 64) :
    (Near (masterPosition awCounter timeToNextAw) (localPosition now state) → Uncounted now timeToNextAw awCounter state) ↔
      ¬Across (masterPosition awCounter timeToNextAw) (localPosition now state) := by
  rw [← near_across (master_inside low high awCounter) (local_inside usual now)]
  refine forall_congr' fun _ => ⟨fun found => ?_,fun close => small_uncounted ?_⟩
  · rw [← error_difference usual]
    exact found.small
  · rwa [error_difference usual]

theorem sync_error_two : |awdlSyncErrorTu 0 62 0 (awdlSyncStateInit 0)| ≤ 3 :=
  ((@sync_error_iff (awdlSyncStateInit 0) 62 ⟨rfl,rfl⟩ 0 0 (by decide) (by decide)).mpr
    (by unfold Across; decide +kernel) (by unfold Near; decide +kernel)).small

-- The master is one TU short of its wrap, this node has just wrapped.
theorem sync_error_wraps : ¬ ∀ state now timeToNextAw awCounter, Usual state → state.awCounter.toNat % 4 = 0 →
    1 ≤ timeToNextAw.toNat → timeToNextAw.toNat ≤ 64 →
    Near (masterPosition awCounter timeToNextAw) (localPosition now state) →
    Uncounted now timeToNextAw awCounter state := by
  intro always
  have small := (always (awdlSyncStateInit 0) 0 1 65535 ⟨rfl,rfl⟩ rfl (by decide) (by decide)
    (by unfold Near; decide +kernel)).small
  revert small
  decide +kernel

end EspOwl.SyncError
