import EspOwl.HandOver

namespace EspOwl.WindowClocks
open ByteCodec SlotClock ActionTlvs HandOver

section Multiples
variable {p q : Nat}

theorem next_multiple (positive : 0 < p) (x : Nat) : IsLeast {k | 0 < k ∧ p ∣ x + k} (p - x % p) := by
  have inside := Nat.mod_lt x positive
  have whole := Nat.mod_add_div x p
  refine ⟨⟨Nat.sub_pos_of_lt inside,x / p + 1,?_⟩,?_⟩
  · rw [Nat.mul_succ]
    omega
  · rintro k ⟨later,divides⟩
    by_contra early
    -- Short of the end of its period, x % p + k is a multiple below p.
    have divided : p ∣ x % p + k := by
      rw [← whole,Nat.add_right_comm] at divides
      exact (Nat.dvd_add_iff_left (Nat.dvd_mul_right p (x / p))).mpr divides
    have beyond := Nat.le_of_dvd (by omega) divided
    omega

-- Counting down in whole ticks rounds up what is left.
theorem ticks_left (positive : 0 < p) (some_ticks : 0 < q) (x : Nat) :
    q - x / p % q = (p * q - x % (p * q)) ⌈/⌉ p := by
  have ticks := Nat.mod_lt (x / p) some_ticks
  have part := Nat.mod_lt x positive
  have left : p * q - x % (p * q) + p - 1 = p - 1 - x % p + p * (q - x / p % q) := by
    have room : p ≤ p * (q - x / p % q) := Nat.le_mul_of_pos_right p (Nat.sub_pos_of_lt ticks)
    rw [Nat.mod_mul,← Nat.sub_sub,Nat.sub_right_comm,← Nat.mul_sub]
    omega
  have below : (p - 1 - x % p) / p = 0 := Nat.div_eq_of_lt (by omega)
  rw [Nat.ceilDiv_eq_add_pred_div,left,Nat.add_mul_div_left _ _ positive,below,Nat.zero_add]

end Multiples

section Clocks
variable {state : AwdlSyncState}

theorem later_since (now : UInt64) (state : AwdlSyncState) (k : Nat) :
    65536 ∣ (now + UInt64.ofNat k - state.lastUpdate).toNat ↔ 65536 ∣ (now - state.lastUpdate).toNat + k := by
  have shifted : now + UInt64.ofNat k - state.lastUpdate = now - state.lastUpdate + UInt64.ofNat k := by
    rw [sub_eq_add_neg,add_right_comm,← sub_eq_add_neg]
  rw [shifted,UInt64.toNat_add,UInt64.toNat_ofNat']
  omega

-- The cut to 32 bits takes away whole extended windows.
theorem timeSince_phase (now : UInt64) (state : AwdlSyncState) :
    (timeSince now state).toNat % 64 = (now - state.lastUpdate).toNat / 1024 % 64 := by
  rw [timeSince_ticks]
  omega

theorem window_clocks (now : UInt64) (state : AwdlSyncState) (usual : Usual state) :
    1 ≤ awdlSyncNextAwUs now state ∧ awdlSyncNextAwUs now state ≤ 65536 ∧
    IsLeast {k | 0 < k ∧ 65536 ∣ (now + UInt64.ofNat k - state.lastUpdate).toNat} (awdlSyncNextAwUs now state).toNat ∧
    (awdlSyncNextAwTu now state).toNat = (awdlSyncNextAwUs now state).toNat ⌈/⌉ 1024 ∧
    ∀ node : AwdlState, node.sync = state →
      readLe16 (syncValue now node) 1 = some (awdlSyncNextAwTu now state) := by
  have span := nextAwUs_value usual.windowed now
  have inside := Nat.mod_lt (now - state.lastUpdate).toNat (by decide : 65536 > 0)
  refine ⟨?_,?_,?_,?_,?_⟩
  · rw [UInt64.le_iff_toNat_le,span]
    change 1 ≤ _
    omega
  · rw [UInt64.le_iff_toNat_le,span]
    exact Nat.sub_le _ _
  · simp only [later_since,span]
    exact next_multiple (by decide) _
  · rw [nextAwTu_value usual.windowed,timeSince_phase,span]
    exact ticks_left (by decide) (by decide) _
  · rintro node rfl
    exact (sync_fields now node).1

-- A node whose clock has run for 17 s and whose last update lies 10 us ahead of it.
theorem window_clocks_ahead :
    1 ≤ awdlSyncNextAwUs 17000000 (awdlSyncStateInit 17000010) ∧
    awdlSyncNextAwUs 17000000 (awdlSyncStateInit 17000010) ≤ 65536 ∧
    IsLeast {k | 0 < k ∧ 65536 ∣ ((17000000 : UInt64) + UInt64.ofNat k - (awdlSyncStateInit 17000010).lastUpdate).toNat}
      (awdlSyncNextAwUs 17000000 (awdlSyncStateInit 17000010)).toNat ∧
    (awdlSyncNextAwTu 17000000 (awdlSyncStateInit 17000010)).toNat =
      (awdlSyncNextAwUs 17000000 (awdlSyncStateInit 17000010)).toNat ⌈/⌉ 1024 ∧
    ∀ node : AwdlState, node.sync = awdlSyncStateInit 17000010 →
      readLe16 (syncValue 17000000 node) 1 = some (awdlSyncNextAwTu 17000000 (awdlSyncStateInit 17000010)) :=
  window_clocks 17000000 (awdlSyncStateInit 17000010) ⟨rfl,rfl⟩

end Clocks

end EspOwl.WindowClocks
