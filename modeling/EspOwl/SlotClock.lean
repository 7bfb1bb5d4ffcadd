import EspOwl.Channel
import EspOwl.Sync

namespace EspOwl.SlotClock

section Wrapping
variable {x q n w : Int}

-- A count of steps of length q round a cycle of n steps does not notice that the
-- time it is taken from wraps, when the cycle divides the wrap.
theorem steps_wrapped (divides : q * n ∣ w) : x % w / q % n = x / q % n := by
  obtain ⟨k,rfl⟩ := divides
  by_cases zero : q = 0
  · simp [zero]
  · have split : x % (q * n * k) = x + q * (n * (-(k * (x / (q * n * k))))) := by
      rw [Int.emod_def]
      ring
    rw [split,Int.add_mul_ediv_left _ _ zero,Int.add_mul_emod_self_left]

theorem ofInt_value (t : Int) : ((UInt64.ofInt t).toNat : Int) = t % 2 ^ 64 := by
  have inside := Int.emod_lt_of_pos t (by decide : (0 : Int) < 2 ^ 64)
  have positive := Int.emod_nonneg t (by decide : (2 ^ 64 : Int) ≠ 0)
  rw [UInt64.ofInt,UInt64.toNat_ofNat',Nat.mod_eq_of_lt (by omega),Int.toNat_of_nonneg positive]

theorem difference_wrapped (a b : UInt64) : ((a - b).toNat : Int) = ((a.toNat : Int) - b.toNat) % 2 ^ 64 := by
  have left := a.toNat_lt
  have right := b.toNat_lt
  rw [UInt64.toNat_sub]
  omega

end Wrapping

-- What awdl_sync_state_init sets: windows of 16 TU, four to an extended one.
structure Usual (state : AwdlSyncState) : Prop where
  period : state.awPeriod = 16
  mode : state.presenceMode = 4

-- Extended windows of `width` microseconds, of 64 TU as awdl_sync_state_init has them or of
-- 80 TU as wifi_sniffer_init leaves them.
structure Windowed (width : Nat) (state : AwdlSyncState) : Prop where
  period : state.awPeriod.toNat = width / 4096
  mode : state.presenceMode = 4
  known : width = 65536 ∨ width = 81920

theorem Usual.windowed (usual : Usual state) : Windowed 65536 state :=
  ⟨by rw [usual.period]; rfl,usual.mode,.inl rfl⟩

-- Microseconds since the last update, with the clock read as an integer.
def elapsed (state : AwdlSyncState) (t : Int) : Int := t - state.lastUpdate.toNat

section Readings
variable {state : AwdlSyncState}

theorem windowed_eaw (windowed : Windowed width state) : (eawPeriod state).toNat = width / 1024 := by
  obtain ⟨period,mode,known⟩ := windowed
  have four : (4 : UInt8).toUInt64.toNat = 4 := rfl
  rw [eawPeriod,mode,UInt64.toNat_mul,UInt16.toNat_toUInt64,four]
  rcases known with rfl | rfl <;> omega

theorem windowed_usec (windowed : Windowed width state) :
    (ieee80211TuToUsec (eawPeriod state).toUInt32).toUInt64.toNat = width := by
  rw [ieee80211TuToUsec,UInt32.toNat_toUInt64,UInt32.toNat_mul,UInt64.toNat_toUInt32,windowed_eaw windowed]
  rcases windowed.known with rfl | rfl <;> rfl

theorem timeSince_ticks (now : UInt64) (state : AwdlSyncState) :
    (timeSince now state).toNat = (now - state.lastUpdate).toNat % 2 ^ 32 / 1024 := by
  rw [timeSince,ieee80211UsecToTu,UInt32.toNat_toUInt64,UInt32.toNat_div,UInt64.toNat_toUInt32]
  rfl

theorem nextAwTu_value (windowed : Windowed width state) (now : UInt64) :
    (awdlSyncNextAwTu now state).toNat = width / 1024 - (timeSince now state).toNat % (width / 1024) := by
  have eaw := windowed_eaw windowed
  rw [awdlSyncNextAwTu]
  simp only [UInt64.toNat_toUInt16,UInt64.toNat_sub,UInt64.toNat_mod,eaw]
  rcases windowed.known with rfl | rfl <;> omega

theorem nextAwUs_value (windowed : Windowed width state) (now : UInt64) :
    (awdlSyncNextAwUs now state).toNat = width - (now - state.lastUpdate).toNat % width := by
  have usec := windowed_usec windowed
  rw [awdlSyncNextAwUs]
  generalize now - state.lastUpdate = since at *
  simp only [UInt64.toNat_sub,UInt64.toNat_mod,usec]
  rcases windowed.known with rfl | rfl <;> omega

theorem currentAw_value (windowed : Windowed width state) (now : UInt64) :
    (awdlSyncCurrentAw now state).toNat =
      (state.awCounter.toNat + (timeSince now state).toNat / (width / 4096)) % 65536 := by
  have eaw := windowed_eaw windowed
  obtain ⟨period,mode,known⟩ := windowed
  have four : state.presenceMode.toNat = 4 := by rw [mode]; rfl
  have counter := state.awCounter.toNat_lt
  have ticks : (timeSince now state).toNat < 2 ^ 32 := by rw [timeSince_ticks]; omega
  rw [awdlSyncCurrentAw]
  simp only [UInt64.toNat_toUInt16,UInt64.toNat_add,UInt64.toNat_mul,UInt64.toNat_div,UInt64.toNat_mod,
    UInt16.toNat_toUInt64,UInt8.toNat_toUInt64,eaw,period,four]
  rcases known with rfl | rfl <;> omega

theorem currentEaw_value (windowed : Windowed width state) (now : UInt64) :
    (awdlSyncCurrentEaw now state).toNat = (awdlSyncCurrentAw now state).toNat / 4 := by
  rw [awdlSyncCurrentEaw,windowed.mode]
  simp [UInt16.toNat_div]

end Readings

-- The three wraps, of the 64-bit difference, of its 32-bit copy and of the 16-bit
-- counter, all fall on the same position of the cycle.
theorem currentAw_clock (usual : Usual state) (t : Int) :
    ((awdlSyncCurrentAw (UInt64.ofInt t) state).toNat : Int) =
      (state.awCounter.toNat + elapsed state t / 16384) % 65536 := by
  have micros : (((UInt64.ofInt t - state.lastUpdate).toNat : Nat) : Int) = elapsed state t % 2 ^ 64 := by
    rw [difference_wrapped,ofInt_value,Int.emod_sub_emod,elapsed]
  have steps : (((timeSince (UInt64.ofInt t) state).toNat / 16 : Nat) : Int) =
      elapsed state t % 2 ^ 64 % 2 ^ 32 / 16384 := by
    rw [timeSince_ticks,Nat.div_div_eq_div_mul,Int.natCast_ediv,Int.natCast_emod,micros]
    rfl
  rw [currentAw_value usual.windowed,Int.natCast_emod,Int.natCast_add,steps,Nat.cast_ofNat,← Int.add_emod_emod,
    steps_wrapped (by decide),steps_wrapped (by decide),Int.add_emod_emod]

def chanSlot (state : AwdlSyncState) (t : Int) : Nat :=
  (awdlSyncCurrentEaw (UInt64.ofInt t) state).toNat % awdlChanseqLength

def eawWindow (state : AwdlSyncState) (t : Int) : Int := elapsed state t / 65536

theorem chanSlot_window (usual : Usual state) (aligned : state.awCounter.toNat % 4 = 0) (t : Int) :
    (chanSlot state t : Int) = (state.awCounter.toNat / 4 + eawWindow state t) % 16 := by
  have windows : eawWindow state t = elapsed state t / 16384 / 4 := by
    rw [eawWindow,Int.ediv_ediv_of_nonneg (by decide)]
    rfl
  have reading := currentAw_clock usual t
  rw [chanSlot,awdlChanseqLength,currentEaw_value usual.windowed,windows]
  generalize elapsed state t / 16384 = steps at *
  omega

theorem slot_clock (usual : Usual state) (aligned : state.awCounter.toNat % 4 = 0) :
    (∀ now : UInt64, ((awdlSyncCurrentAw now state).toNat : Int) =
      (state.awCounter.toNat + ((now.toNat : Int) - state.lastUpdate.toNat) / 16384) % 65536) ∧
    (∀ s t, eawWindow state s = eawWindow state t → chanSlot state s = chanSlot state t) ∧
    ∀ s t, eawWindow state t = eawWindow state s + 1 → chanSlot state t = (chanSlot state s + 1) % 16 := by
  refine ⟨fun now => ?_,fun s t same => ?_,fun s t next => ?_⟩
  · have shown : UInt64.ofInt now.toNat = now := by
      refine UInt64.toNat_inj.mp (Int.ofNat.inj ?_)
      have inside := now.toNat_lt
      change ((UInt64.ofInt now.toNat).toNat : Int) = now.toNat
      rw [ofInt_value]
      omega
    have reading := currentAw_clock usual now.toNat
    rwa [shown] at reading
  · have first := chanSlot_window usual aligned s
    have second := chanSlot_window usual aligned t
    rw [same] at first
    omega
  · have first := chanSlot_window usual aligned s
    have second := chanSlot_window usual aligned t
    rw [next] at second
    omega

-- Seventy-one minutes and more after the update, and before it.
theorem slot_clock_boot : ((awdlSyncCurrentAw 7 (awdlSyncStateInit 4294967296)).toNat : Int) =
    (0 + (7 - 4294967296) / 16384) % 65536 :=
  (@slot_clock (awdlSyncStateInit 4294967296) ⟨rfl,rfl⟩ rfl).1 7

end EspOwl.SlotClock
