import EspOwl.HandOver
import EspOwl.SameChannel

namespace EspOwl.GuardIntervals
open SlotClock HandOver SameChannel

section Positions
variable {width : Nat} {sync : AwdlSyncState} {now : UInt64}

theorem position_range (windowed : Windowed width sync) (now : UInt64) :
    0 ≤ windowPosition width sync now ∧ windowPosition width sync now < 16384 * width := by
  have counted := (awdlSyncCurrentAw now sync).toNat_lt
  rw [windowPosition,currentEaw_value windowed,nextAwUs_value windowed]
  rcases windowed.known with rfl | rfl <;> omega

-- Window and remaining time, read off the position.
theorem next_position (windowed : Windowed width sync) (now : UInt64) :
    ((awdlSyncNextAwUs now sync).toNat : Int) = width - windowPosition width sync now % width := by
  have left := nextAwUs_value windowed now
  rw [windowPosition]
  rcases windowed.known with rfl | rfl <;> omega

theorem next_bound (windowed : Windowed width sync) (now : UInt64) :
    1 ≤ (awdlSyncNextAwUs now sync).toNat ∧ (awdlSyncNextAwUs now sync).toNat ≤ width := by
  rw [nextAwUs_value windowed]
  rcases windowed.known with rfl | rfl <;> omega

theorem slot_position (windowed : Windowed width sync) (now : UInt64) :
    ((eawSlot now sync).val : Int) = windowPosition width sync now / width % 16 := by
  have left := nextAwUs_value windowed now
  change (((awdlSyncCurrentEaw now sync).toNat % 16 : Nat) : Int) = _
  rw [windowPosition]
  rcases windowed.known with rfl | rfl <;> omega

theorem slot_congr (windowed : Windowed width sync)
    (same : windowPosition width sync s / width % 16 = windowPosition width sync t / width % 16) :
    eawSlot s sync = eawSlot t sync := by
  have first := slot_position windowed s
  have second := slot_position windowed t
  apply Fin.ext
  omega

theorem steady_between (first : Steady width sync now d) (last : Steady width sync now f) (low : d ≤ e) (high : e ≤ f) :
    Steady width sync now e := by
  rcases first with long | ⟨begun,_⟩
  · exact .inl long
  · rcases last with long | ⟨_,ends⟩
    · exact .inl long
    · exact .inr ⟨by omega,by omega⟩

-- Inside the window that `now` lies in, nothing that looks at the slot changes.
theorem slot_within (windowed : Windowed width sync) (aligned : sync.awCounter.toNat % 4 = 0)
    (steady : Steady width sync now 0) (there : Steady width sync now e)
    (early : -(windowPosition width sync now % width) ≤ e) (late : e < (awdlSyncNextAwUs now sync).toNat) :
    eawSlot (shifted now e) sync = eawSlot now sync := by
  have left := next_position windowed now
  refine slot_congr windowed ?_
  rw [position_shifted windowed aligned steady there]
  rcases windowed.known with rfl | rfl <;> omega

-- Close behind the window's end, 64 TU lead into the next window whichever length it has.
theorem slot_after (windowed : Windowed width sync) (aligned : sync.awCounter.toNat % 4 = 0)
    (steady : Steady width sync now 0) (there : Steady width sync now 65536)
    (late : ((awdlSyncNextAwUs now sync).toNat : Int) ≤ e) (near : e < 16384) :
    eawSlot (shifted now e) sync = eawSlot (shifted now 65536) sync := by
  have left := next_position windowed now
  have between : Steady width sync now e := steady_between steady there (by omega) (by omega)
  refine slot_congr windowed ?_
  rw [position_shifted windowed aligned steady between,position_shifted windowed aligned steady there]
  generalize windowPosition width sync now = position at *
  generalize (awdlSyncNextAwUs now sync).toNat = remaining at *
  rcases windowed.known with rfl | rfl <;> omega

-- And close before its start 64 TU lead back into the last one, of that length.
theorem slot_before (windowed : Windowed 65536 sync) (aligned : sync.awCounter.toNat % 4 = 0)
    (early : e < -(windowPosition 65536 sync now % 65536)) (near : -65536 ≤ e) :
    eawSlot (shifted now e) sync = eawSlot (shifted now (-65536)) sync := by
  have left := next_position windowed now
  refine slot_congr windowed ?_
  rw [position_shifted windowed aligned (.inl rfl) (.inl rfl),position_shifted windowed aligned (.inl rfl) (.inl rfl)]
  omega

-- What holds of the slot at every clock up to a guard from now holds of this window, and of
-- the next one where that is as close.
theorem guard_after (windowed : Windowed width sync) (aligned : sync.awCounter.toNat % 4 = 0)
    (steady : Steady width sync now 0) (there : Steady width sync now 65536) (met : Fin awdlChanseqLength → Prop)
    (guard : Nat) (positive : 0 < guard) (short : guard ≤ 16384) :
    (∀ e : Int, 0 ≤ e → e < guard → met (eawSlot (shifted now e) sync)) ↔
      met (eawSlot now sync) ∧
        ((awdlSyncNextAwUs now sync).toNat < guard → met (eawSlot (shifted now 65536) sync)) := by
  constructor
  · intro always
    refine ⟨?_,fun close => ?_⟩
    · have here := always 0 le_rfl (by omega)
      rwa [shifted_zero] at here
    · have behind := always (awdlSyncNextAwUs now sync).toNat (by omega) (by omega)
      rwa [slot_after windowed aligned steady there le_rfl (by omega)] at behind
  · rintro ⟨here,behind⟩ e early late
    have between := steady_between steady there early (by omega)
    by_cases after : ((awdlSyncNextAwUs now sync).toNat : Int) ≤ e
    · rw [slot_after windowed aligned steady there after (by omega)]
      exact behind (by omega)
    · rw [slot_within windowed aligned steady between (by rcases windowed.known with rfl | rfl <;> omega) (by omega)]
      exact here

theorem guard_before (windowed : Windowed 65536 sync) (aligned : sync.awCounter.toNat % 4 = 0)
    (met : Fin awdlChanseqLength → Prop) (here : met (eawSlot now sync)) (guard : Nat) (short : guard ≤ 16384) :
    (∀ e : Int, -guard ≤ e → e < 0 → met (eawSlot (shifted now e) sync)) ↔
      (65536 - (awdlSyncNextAwUs now sync).toNat < guard → met (eawSlot (shifted now (-65536)) sync)) := by
  have left := next_position windowed now
  have span := nextAwUs_value windowed now
  constructor
  · intro always close
    have ahead := always (-guard) le_rfl (by omega)
    rwa [slot_before windowed aligned (by omega) (by omega)] at ahead
  · intro ahead e early late
    by_cases before : e < -(windowPosition 65536 sync now % 65536)
    · rw [slot_before windowed aligned before (by omega)]
      exact ahead (by omega)
    · rw [slot_within windowed aligned (.inl rfl) (.inl rfl) (not_lt.mp before) (by omega)]
      exact here

end Positions

theorem usecToSec_zero : usecToSec usec = 0 ↔ usec.toNat = 0 := by
  rw [usecToSec,div_eq_zero_iff]
  norm_num

theorem usecToSec_missing {left guard : UInt64} (short : left < guard) : usecToSec (guard - left) ≠ 0 := by
  have less := UInt64.lt_iff_toNat_lt.mp short
  rw [ne_eq,usecToSec_zero,UInt64.toNat_sub_of_le _ _ (UInt64.le_iff_toNat_le.mpr less.le)]
  omega

theorem tu_window : (ieee80211TuToUsec 64).toUInt64 = 65536 := rfl

-- What is left of 64 TU is short just where more than 64 TU are not left.
theorem window_begun {left guard : UInt64} (short : left.toNat ≤ 81920) (guarded : guard.toNat ≤ 16384) :
    65536 - left < guard ↔ 65536 < left.toNat + guard.toNat ∧ left.toNat ≤ 65536 := by
  rw [UInt64.lt_iff_toNat_lt,UInt64.toNat_sub]
  have whole : (65536 : UInt64).toNat = 65536 := rfl
  rw [whole]
  omega

section Unicast
variable {width : Nat} {state : AwdlState} {peer : AwdlPeer}

theorem unicast_branches (windowed : Windowed width state.sync) (now : UInt64) :
    awdlCanSendUnicastIn state peer now awdlUnicastGuardTu = 0 ↔
      awdlSameChannelAsPeer state now peer = true ∧
      ((awdlSyncNextAwUs now state.sync).toNat < 3072 → awdlSameChannelAsPeer state (shifted now 65536) peer = true) ∧
      (62464 < (awdlSyncNextAwUs now state.sync).toNat → (awdlSyncNextAwUs now state.sync).toNat ≤ 65536 →
        awdlSameChannelAsPeer state (shifted now (-65536)) peer = true) := by
  have span := next_bound windowed now
  have known := windowed.known
  have guard : (ieee80211TuToUsec awdlUnicastGuardTu).toUInt64 = 3072 := rfl
  have forward : now + 65536 = shifted now 65536 := shifted_add now 65536
  have back : now - 65536 = shifted now (-65536) := shifted_sub now 65536
  unfold awdlCanSendUnicastIn
  rw [tu_window,guard]
  dsimp only
  rw [forward,back]
  generalize awdlSyncNextAwUs now state.sync = left at *
  have width3 : (3072 : UInt64).toNat = 3072 := rfl
  have soon : left < 3072 ↔ left.toNat < 3072 := UInt64.lt_iff_toNat_lt
  have begun : 65536 - left < 3072 ↔ 62464 < left.toNat ∧ left.toNat ≤ 65536 := by
    rw [window_begun (by omega) (by omega),width3]
    omega
  cases awdlSameChannelAsPeer state now peer with
  | false =>
    simp only [Bool.not_false,if_true,usecToSec_zero,Bool.false_eq_true,false_and,iff_false]
    omega
  | true =>
    simp only [Bool.not_true,Bool.false_eq_true,if_false,true_and]
    by_cases close : left < 3072
    · have near := soon.mp close
      rw [if_pos close]
      cases awdlSameChannelAsPeer state (shifted now 65536) peer with
      | false => simp [near,usecToSec_missing close]
      | true => simp [show ¬ 62464 < left.toNat by omega]
    · have far : ¬ left.toNat < 3072 := fun near => close (soon.mpr near)
      rw [if_neg close]
      by_cases fresh : 65536 - left < 3072
      · obtain ⟨low,high⟩ := begun.mp fresh
        rw [if_pos fresh]
        cases awdlSameChannelAsPeer state (shifted now (-65536)) peer with
        | false => simp [low,high,usecToSec_missing fresh]
        | true => simp [far]
      · rw [if_neg fresh]
        rw [begun,not_and] at fresh
        simp only [far,false_implies,true_and,true_iff]
        exact fun low high => absurd high (fresh low)

-- Own channel and the one that the peer's TLV names for a slot, on one clock.
def OneChannel (state : AwdlState) (val : Buf) (slot : Fin awdlChanseqLength) : Prop :=
  awdlChanNum (state.channel.sequence slot) state.channel.enc ≠ 0 ∧
    advertised val slot = some (awdlChanNum (state.channel.sequence slot) state.channel.enc)

-- A peer as the handler of a channel sequence TLV stores it, where both encodings keep the
-- number in the same byte. Nothing writes sync_offset after awdl_peer_new has set it to 0.
structure Listening (state : AwdlState) (val : Buf) (peer : AwdlPeer) : Prop where
  stored : ∃ mem src parsed, awdlHandleChanseqTlv mem src val parsed = (.ok,peer)
  encoding : ∀ encoding, readU8 val 1 = some encoding → numberByte state.channel.enc = numberByte (.ofByte encoding)
  unshifted : peer.syncOffset = 0

theorem Listening.sameChannel (listening : Listening state val peer) (now : UInt64) :
    awdlSameChannelAsPeer state now peer = true ↔ OneChannel state val (eawSlot now state.sync) := by
  obtain ⟨⟨_,_,_,stored⟩,encoding,unshifted⟩ := listening
  obtain ⟨code,read,known,each⟩ := chanseq_stored stored
  rw [sameChannel_stored,unshifted,UInt64.add_zero,OneChannel,each]
  refine and_congr_right fun used => ?_
  have supported := chanNum_supported used
  rw [chanNum_byte known,← encoding code read,← chanNum_byte supported,Option.some.injEq]
  exact eq_comm

end Unicast

-- A peer on channel 6 in all slots, in the simple encoding, and a node on the same channel
-- after wifi_sniffer_init, one millisecond before the end of its first window.
def simpleSix : Buf := [15,0,0,3,0xff,0xff] ++ List.replicate awdlChanseqLength 6

def sniffing : AwdlState := wifiSnifferStores (awdlInitState default [] ⟨2,0,0,0,0,2⟩ chanOpclass6 1500000)

def simplePeer : AwdlPeer :=
  (awdlHandleChanseqTlv default (awdlPeerNew ⟨2,0,0,0,0,1⟩ default) simpleSix sniffing).2

theorem simplePeer_listening : Listening sniffing simpleSix simplePeer where
  stored := ⟨default,awdlPeerNew ⟨2,0,0,0,0,1⟩ default,sniffing,Prod.ext (by decide) rfl⟩
  encoding code read := by
    cases (show readU8 simpleSix 1 = some 0 by decide).symm.trans read
    rfl
  unshifted := rfl

section Multicast
variable {width : Nat} {state : AwdlState}

theorem multicast_branches (windowed : Windowed width state.sync) (now : UInt64) :
    awdlCanSendIn state now awdlMulticastGuardTu = 0 ↔ 4096 ≤ (awdlSyncNextAwUs now state.sync).toNat ∧
      ((awdlSyncNextAwUs now state.sync).toNat ≤ 61440 ∨ 65536 < (awdlSyncNextAwUs now state.sync).toNat) := by
  have span := next_bound windowed now
  have known := windowed.known
  have guard : (ieee80211TuToUsec awdlMulticastGuardTu).toUInt64 = 4096 := rfl
  unfold awdlCanSendIn
  rw [tu_window,guard]
  dsimp only
  generalize awdlSyncNextAwUs now state.sync = left at *
  have width4 : (4096 : UInt64).toNat = 4096 := rfl
  have soon : left < 4096 ↔ left.toNat < 4096 := UInt64.lt_iff_toNat_lt
  have begun : 65536 - left < 4096 ↔ 61440 < left.toNat ∧ left.toNat ≤ 65536 := by
    rw [window_begun (by omega) (by omega),width4]
    omega
  by_cases close : left < 4096
  · rw [if_pos close,neg_eq_zero]
    have near := soon.mp close
    exact iff_of_false (usecToSec_missing close) (by omega)
  · have far : ¬ left.toNat < 4096 := fun near => close (soon.mpr near)
    rw [if_neg close]
    by_cases fresh : 65536 - left < 4096
    · rw [if_pos fresh]
      rw [begun] at fresh
      exact iff_of_false (usecToSec_missing (begun.mpr fresh)) (by omega)
    · rw [if_neg fresh]
      rw [begun] at fresh
      exact iff_of_true rfl (by omega)

def MulticastSlot (slot : Fin awdlChanseqLength) : Prop := slot.val = 0 ∨ slot.val = 10

theorem multicastEaw_slot (now : UInt64) :
    awdlIsMulticastEaw state now = true ↔ MulticastSlot (eawSlot now state.sync) := by
  simp [awdlIsMulticastEaw,MulticastSlot]

end Multicast

end EspOwl.GuardIntervals
