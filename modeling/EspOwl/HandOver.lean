import EspOwl.ActionTlvs
import EspOwl.SlotClock

namespace EspOwl.HandOver
open TlvLoop ActionTlvs SlotClock

theorem stores_windowed (mem : AwdlState) (hostname : List UInt8) (self : EtherAddr) (chan : AwdlChan) (now : UInt64) :
    Windowed 81920 (wifiSnifferStores (awdlInitState mem hostname self chan now)).sync := ⟨rfl,rfl,.inr rfl⟩

theorem booted_windowed (booted : Booted self state) : ∃ width, Windowed width state.sync := by
  cases booted with
  | init => exact ⟨65536,rfl,rfl,.inl rfl⟩
  | sniffer => exact ⟨81920,stores_windowed _ _ _ _ _⟩

theorem booted_aligned (booted : Booted self state) : state.sync.awCounter.toNat % 4 = 0 := by
  cases booted <;> rfl

-- Where a node stands in the cycle of availability windows, in microseconds: the
-- number of its extended window, and how far it is into it.
def windowPosition (width : Nat) (state : AwdlSyncState) (now : UInt64) : Int :=
  (awdlSyncCurrentEaw now state).toNat * width + (width - (awdlSyncNextAwUs now state).toNat)

def cyclePosition (state : AwdlSyncState) (now : UInt64) : Int :=
  (awdlSyncCurrentEaw now state).toNat * 65536 + (65536 - (awdlSyncNextAwUs now state).toNat)

theorem cyclePosition_window (state : AwdlSyncState) (now : UInt64) :
    cyclePosition state now = windowPosition 65536 state now := rfl

-- The clock e microseconds from now, earlier for a negative e.
def shifted (now : UInt64) (e : Int) : UInt64 := UInt64.ofInt (now.toNat + e)

theorem shifted_since (now last : UInt64) (e : Int) :
    ((shifted now e - last).toNat : Int) = ((now - last).toNat + e) % 2 ^ 64 := by
  rw [shifted,difference_wrapped,difference_wrapped,ofInt_value]
  omega

theorem shifted_add (now : UInt64) (d : Nat) : now + UInt64.ofNat d = shifted now d := by
  apply UInt64.toNat_inj.mp
  apply Int.ofNat.inj
  change ((now + UInt64.ofNat d).toNat : Int) = (UInt64.ofInt (now.toNat + d)).toNat
  rw [ofInt_value,UInt64.toNat_add,UInt64.toNat_ofNat']
  omega

theorem shifted_sub (now : UInt64) (d : Nat) : now - UInt64.ofNat d = shifted now (-d) := by
  apply UInt64.toNat_inj.mp
  apply Int.ofNat.inj
  change ((now - UInt64.ofNat d).toNat : Int) = (UInt64.ofInt (now.toNat + -d)).toNat
  rw [ofInt_value,difference_wrapped,UInt64.toNat_ofNat']
  omega

theorem shifted_zero (now : UInt64) : shifted now 0 = now := (shifted_add now 0).symm.trans (UInt64.add_zero now)

-- awdl_sync_current_aw counts in the low 32 bits of the time since the last update, and
-- windows of 80 TU do not divide their range: e microseconds from now the clock is right
-- where it is that of the last 2^32.
def Steady (width : Nat) (state : AwdlSyncState) (now : UInt64) (e : Int) : Prop :=
  width = 65536 ∨ 0 ≤ (now - state.lastUpdate).toNat + e ∧ (now - state.lastUpdate).toNat + e < 2 ^ 32

section Positions
variable {width : Nat} {state : AwdlSyncState} {now : UInt64}

theorem position_value (windowed : Windowed width state) (aligned : state.awCounter.toNat % 4 = 0)
    (steady : Steady width state now 0) : windowPosition width state now =
      (state.awCounter.toNat * (width / 4) + (now - state.lastUpdate).toNat : Nat) % (16384 * width) := by
  have reading := currentAw_value windowed now
  have ticks := timeSince_ticks now state
  rw [windowPosition,currentEaw_value windowed,nextAwUs_value windowed]
  unfold Steady at steady
  rcases windowed.known with rfl | rfl <;> omega

theorem steady_now (steady : Steady width state now (d : Nat)) : Steady width state now 0 := by
  rcases steady with long | ⟨low,high⟩
  · exact .inl long
  · exact .inr ⟨by omega,by omega⟩

theorem steady_shifted (steady : Steady width state now e) : Steady width state (shifted now e) 0 := by
  have moved := shifted_since now state.lastUpdate e
  rcases steady with long | ⟨low,high⟩
  · exact .inl long
  · exact .inr ⟨by omega,by omega⟩

theorem steady_later (steady : Steady width state now (first + second : Nat)) :
    Steady width state (now + UInt64.ofNat first) (second : Nat) := by
  have moved := shifted_since now state.lastUpdate first
  rw [shifted_add]
  rcases steady with long | ⟨low,high⟩
  · exact .inl long
  · exact .inr ⟨by omega,by omega⟩

theorem position_shifted (windowed : Windowed width state) (aligned : state.awCounter.toNat % 4 = 0)
    (steady : Steady width state now 0) (later : Steady width state now e) :
    windowPosition width state (shifted now e) = (windowPosition width state now + e) % (16384 * width) := by
  have moved := shifted_since now state.lastUpdate e
  rw [position_value windowed aligned (steady_shifted later),position_value windowed aligned steady]
  unfold Steady at steady later
  rcases windowed.known with rfl | rfl <;> omega

theorem position_later (windowed : Windowed width state) (aligned : state.awCounter.toNat % 4 = 0)
    (steady : Steady width state now 0) (later : Steady width state now (d : Nat)) :
    windowPosition width state (now + UInt64.ofNat d) = (windowPosition width state now + d) % (16384 * width) := by
  rw [shifted_add]
  exact position_shifted windowed aligned steady later

end Positions

-- aw_counter & 0xfffc, read as the comment beside it does.
theorem masked_counter (aw : UInt16) : (aw &&& 0xfffc).toNat = aw.toNat / 4 * 4 := by
  have inside : aw.toNat < 2 ^ 16 := aw.toNat_lt
  have mask : (0xfffc : UInt16).toNat = (2 ^ 14 - 1) <<< 2 := rfl
  have cut : aw.toNat / 4 * 4 = aw.toNat >>> 2 <<< 2 := by rw [Nat.shiftLeft_eq,Nat.shiftRight_eq_div_pow]
  rw [UInt16.toNat_and,mask,cut]
  apply Nat.eq_of_testBit_eq
  intro i
  rw [Nat.testBit_and,Nat.testBit_shiftLeft,Nat.testBit_shiftLeft,Nat.testBit_two_pow_sub_one,Nat.testBit_shiftRight]
  rcases Nat.lt_or_ge i 2 with low | high
  · simp [Nat.not_le.mpr low]
  · have back : 2 + (i - 2) = i := by omega
    rcases Nat.lt_or_ge i 16 with shown | beyond
    · have within : i - 2 < 14 := by omega
      simp [high,back,within]
    · have zero : aw.toNat.testBit i = false :=
        Nat.testBit_lt_two_pow (lt_of_lt_of_le inside (Nat.pow_le_pow_right (by decide) beyond))
      simp [back,zero]

section Update
variable {width : Nat} {state : AwdlSyncState} {now : UInt64} {ttn : UInt16}

theorem update_since (aw : UInt16) (windowed : Windowed width state) (late : ttn.toNat ≤ width / 1024) :
    (now - (awdlSyncUpdateLast now ttn aw state).lastUpdate).toNat = 1024 * (width / 1024 - ttn.toNat) := by
  have eaw := windowed_eaw windowed
  have unit : (1024 : UInt32).toNat = 1024 := rfl
  rw [awdlSyncUpdateLast]
  dsimp only
  rw [sub_sub_self,ieee80211TuToUsec]
  simp only [UInt32.toNat_toUInt64,UInt32.toNat_mul,UInt64.toNat_toUInt32,UInt64.toNat_sub,UInt16.toNat_toUInt64,eaw,unit]
  rcases windowed.known with rfl | rfl <;> omega

end Update

-- The receiver's clock as the two fields of the TLV leave it: set back to the start
-- of the sender's extended window, to the TU.
structure Adopted (width : Nat) (sender : AwdlSyncState) (t : UInt64) (after : AwdlSyncState) (t' : UInt64) : Prop where
  windowed : Windowed width after
  counter : after.awCounter.toNat = (awdlSyncCurrentAw t sender).toNat / 4 * 4
  since : (t' - after.lastUpdate).toNat = 1024 * (width / 1024 - (awdlSyncNextAwTu t sender).toNat)

section Agreement
variable {width : Nat} {sender after : AwdlSyncState} {t t' : UInt64}

theorem adopted_ticks (windowed : Windowed width sender) (adopted : Adopted width sender t after t') :
    (timeSince t' after).toNat = (timeSince t sender).toNat % (width / 1024) := by
  have sent := nextAwTu_value windowed t
  have since := adopted.since
  rw [timeSince_ticks]
  rcases windowed.known with rfl | rfl <;> omega

theorem adopted_nextAwTu (windowed : Windowed width sender) (adopted : Adopted width sender t after t') :
    awdlSyncNextAwTu t' after = awdlSyncNextAwTu t sender := by
  apply UInt16.toNat_inj.mp
  rw [nextAwTu_value adopted.windowed,nextAwTu_value windowed,adopted_ticks windowed adopted,Nat.mod_mod]

theorem adopted_currentAw (windowed : Windowed width sender) (aligned : sender.awCounter.toNat % 4 = 0)
    (adopted : Adopted width sender t after t') : awdlSyncCurrentAw t' after = awdlSyncCurrentAw t sender := by
  have ticks := adopted_ticks windowed adopted
  have counter := adopted.counter
  have sent := currentAw_value windowed t
  apply UInt16.toNat_inj.mp
  rw [currentAw_value adopted.windowed]
  rcases windowed.known with rfl | rfl <;> omega

theorem adopted_error (windowed : Windowed width sender) (aligned : sender.awCounter.toNat % 4 = 0)
    (adopted : Adopted width sender t after t') :
    awdlSyncErrorTu t' (awdlSyncNextAwTu t sender) (awdlSyncCurrentAw t sender) after = 0 := by
  rw [awdlSyncErrorTu,awdlSyncCurrentEaw,adopted_nextAwTu windowed adopted,adopted_currentAw windowed aligned adopted]
  omega

theorem Adopted.aligned (adopted : Adopted width sender t after t') : after.awCounter.toNat % 4 = 0 := by
  have counter := adopted.counter
  omega

theorem Adopted.steady (adopted : Adopted width sender t after t') : Steady width after t' 0 := by
  have since := adopted.since
  rcases adopted.windowed.known with long | rfl
  · exact .inl long
  · exact .inr ⟨by omega,by omega⟩

-- What the receiver loses is the part of a TU that the sender's reading truncates.
theorem adopted_lag (windowed : Windowed width sender) (aligned : sender.awCounter.toNat % 4 = 0)
    (steady : Steady width sender t 0) (adopted : Adopted width sender t after t') :
    (windowPosition width sender t - windowPosition width after t') % (16384 * width) < 1024 := by
  have counter := adopted.counter
  have since := adopted.since
  have window := currentAw_value windowed t
  have left := nextAwTu_value windowed t
  have ticks := timeSince_ticks t sender
  rw [position_value windowed aligned steady,position_value adopted.windowed adopted.aligned adopted.steady]
  unfold Steady at steady
  rcases windowed.known with rfl | rfl <;> omega

end Agreement

section Reception
variable {sender receiver : AwdlState} {src : AwdlPeer} {t t' : UInt64} {width : Nat}

theorem sync_fields (t : UInt64) (sender : AwdlState) :
    readLe16 (syncValue t sender) 1 = some (awdlSyncNextAwTu t sender.sync) ∧
      readLe16 (syncValue t sender) 29 = some (awdlSyncCurrentAw t sender.sync) := by
  obtain ⟨channel,between,tail,width,_,value,_⟩ := sync_layout t sender
  have before : ([channel] ++ (le16 (awdlSyncNextAwTu t sender.sync) ++ between)).length = 29 := by
    simp only [List.length_append,List.length_cons,List.length_nil,le16_length,width]
  have second := readLe16_at _ 29 before (awdlSyncCurrentAw t sender.sync) tail
  rw [value]
  refine ⟨readLe16_at [channel] 1 rfl _ _,?_⟩
  simpa only [List.append_assoc] using second

theorem sync_adopted (sends : Windowed width sender.sync) (receives : Windowed width receiver.sync)
    (master : receiver.election.syncAddr = src.addr) :
    ∃ after, awdlHandleSyncParamsTlv src (syncValue t sender) receiver t' = (.ok,after) ∧
      Adopted width sender.sync t after.sync t' := by
  have listens : awdlElectionIsSyncMaster receiver.election src.addr = true := by
    rw [awdlElectionIsSyncMaster,master,decide_eq_true_iff,compareEtherAddr_zero]
  obtain ⟨down,seq⟩ := sync_fields t sender
  have span := nextAwTu_value sends t
  have late : (awdlSyncNextAwTu t sender.sync).toNat ≤ width / 1024 := by omega
  let counted : AwdlSyncState := {receiver.sync with measTotal := receiver.sync.measTotal + 1}
  have standing : Windowed width counted := ⟨receives.period,receives.mode,receives.known⟩
  unfold awdlHandleSyncParamsTlv
  rw [listens,down,seq]
  refine ⟨_,rfl,?_⟩
  -- The measurement counters take no part in the readings.
  have adopted : ∀ errors, Adopted width sender.sync t {awdlSyncUpdateLast t' (awdlSyncNextAwTu t sender.sync)
      (awdlSyncCurrentAw t sender.sync) counted with measErr := errors} t' := fun _ =>
    ⟨⟨receives.period,receives.mode,receives.known⟩,masked_counter _,
      update_since (awdlSyncCurrentAw t sender.sync) standing late⟩
  dsimp only
  split
  · exact adopted _
  · exact adopted _

end Reception

theorem sync_hand_over (sender receiver : AwdlState) (src : AwdlPeer) (t t' : UInt64) (sends : Usual sender.sync)
    (aligned : sender.sync.awCounter.toNat % 4 = 0) (receives : Usual receiver.sync)
    (master : receiver.election.syncAddr = src.addr) :
    ∃ val after ttn aw, readTlv (awdlInitSyncParamsTlv t sender) 0 = some (awdlSynchronizationParametersTlv,val) ∧
      awdlHandleSyncParamsTlv src val receiver t' = (.ok,after) ∧
      awdlSyncNextAwTu t' after.sync = awdlSyncNextAwTu t sender.sync ∧
      awdlSyncCurrentAw t' after.sync = awdlSyncCurrentAw t sender.sync ∧
      readLe16 val 1 = some ttn ∧ readLe16 val 29 = some aw ∧ awdlSyncErrorTu t' ttn aw after.sync = 0 ∧
      after.sync.awCounter.toNat % 4 = 0 ∧
      ∀ d, (cyclePosition sender.sync (t + UInt64.ofNat d) - cyclePosition after.sync (t' + UInt64.ofNat d)) % 2 ^ 30 <
        1024 := by
  have read : readTlv (awdlInitSyncParamsTlv t sender) 0 = some (awdlSynchronizationParametersTlv,syncValue t sender) := by
    have found := readTlv_tlvBytes awdlSynchronizationParametersTlv (syncValue t sender) [] (sync_fits t sender)
    rwa [List.append_nil,← sync_tlv] at found
  have windowed := sends.windowed
  obtain ⟨after,handled,adopted⟩ := @sync_adopted sender receiver src t t' _ windowed receives.windowed master
  obtain ⟨down,seq⟩ := sync_fields t sender
  refine ⟨_,after,_,_,read,handled,adopted_nextAwTu windowed adopted,adopted_currentAw windowed aligned adopted,down,seq,
    adopted_error windowed aligned adopted,adopted.aligned,fun d => ?_⟩
  have lag := adopted_lag windowed aligned (.inl rfl) adopted
  rw [cyclePosition_window,cyclePosition_window,position_later windowed aligned (.inl rfl) (.inl rfl),
    position_later adopted.windowed adopted.aligned (.inl rfl) (.inl rfl)]
  omega

-- A node that booted at 1.5 s hands over in its third window to one whose clock reads 0.
def leader : AwdlState := awdlInitState default [] ⟨2,0,0,0,0,2⟩ chanOpclass6 1500000
def follower : AwdlState := {leader with sync := awdlSyncStateInit 0}

theorem sync_hand_over_boot :
    ∃ val after ttn aw, readTlv (awdlInitSyncParamsTlv 1640000 leader) 0 = some (awdlSynchronizationParametersTlv,val) ∧
      awdlHandleSyncParamsTlv {(default : AwdlPeer) with addr := ⟨2,0,0,0,0,2⟩} val follower 0 = (.ok,after) ∧
      awdlSyncNextAwTu 0 after.sync = awdlSyncNextAwTu 1640000 leader.sync ∧
      awdlSyncCurrentAw 0 after.sync = awdlSyncCurrentAw 1640000 leader.sync ∧
      readLe16 val 1 = some ttn ∧ readLe16 val 29 = some aw ∧ awdlSyncErrorTu 0 ttn aw after.sync = 0 ∧
      after.sync.awCounter.toNat % 4 = 0 ∧
      ∀ d, (cyclePosition leader.sync (1640000 + UInt64.ofNat d) - cyclePosition after.sync (0 + UInt64.ofNat d)) %
        2 ^ 30 < 1024 :=
  sync_hand_over leader follower {(default : AwdlPeer) with addr := ⟨2,0,0,0,0,2⟩} 1640000 0 ⟨rfl,rfl⟩ rfl ⟨rfl,rfl⟩ rfl

end EspOwl.HandOver
