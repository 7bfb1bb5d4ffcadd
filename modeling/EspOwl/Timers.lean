import EspOwl.GuardIntervals
import EspOwl.NodeHistory
import EspOwl.Sniffer

namespace EspOwl.Timers
open Histories TlvLoop ActionFrames Dispatch NodeHistory SlotClock HandOver GuardIntervals Sniffer

-- The callback of chan_timer, with the time after which it arms the timer again.
def awdlSwitchChannelTimer (now : UInt64) (state : AwdlState) : AwdlState × UInt64 :=
  (awdlSwitchChannel now state,awdlSyncNextAwUs now state.sync)

-- A daemon with its two window timers. A slip is a history variable: by how much the node's
-- clock was set forward, in all, since the timer last fired.
structure TimerState (T : Type) extends SnifferState T where
  time : Nat
  chanDue : Nat
  mifDue : Nat
  chanSlip : Int
  mifSlip : Int

variable {T : Type}

def TimerState.clock (s : TimerState T) : UInt64 := UInt64.ofNat s.time

def TimerState.position (width : Nat) (s : TimerState T) : Int := windowPosition width s.awdlState.sync s.clock

inductive TimerEvent where
  | wait (span : Nat)
  | chanTimer
  | mifTimer (clock : TxClock)
  | node (event : Event) (shift : Int)
  | daemon

-- What is seen of a firing of mif_timer: its extended window, awdl_state.running, and the
-- frames given to wlan_send.
structure Firing where
  window : Nat
  running : UInt8
  frames : List (List UInt8)

def notTimer : Event → Bool
  | .switchChannel _ => false
  | _ => true

-- A timer fires when it is due, by `late` at most afterwards; what else a node does, it
-- does between two firings, and its clock moves by `drift` at most between two of a timer.
-- No time passes that a clock with windows of 80 TU would miscount.
inductive TimerStep (hash : EtherAddr → UInt64) (width late drift : Nat) :
    TimerState T → TimerEvent → List Firing → TimerState T → Prop where
  | wait (chan : s.time + span ≤ s.chanDue + late) (mif : s.time + span ≤ s.mifDue + late)
      (steady : Steady width s.awdlState.sync s.clock (span : Nat)) :
      TimerStep hash width late drift s (.wait span) [] {s with time := s.time + span}
  | chanTimer (due : s.chanDue ≤ s.time) (ran : awdlSwitchChannelTimer s.clock s.awdlState = (next,again)) :
      TimerStep hash width late drift s .chanTimer [] {s with
        awdlState := next
        chanDue := s.time + again.toNat
        chanSlip := 0}
  | mifTimer (due : s.mifDue ≤ s.time) (ran : awdlSendMif clock s.clock s.toSnifferState = (frames,next,again)) :
      TimerStep hash width late drift s (.mifTimer clock)
        [⟨(awdlSyncCurrentEaw s.clock s.awdlState.sync).toNat,s.running,frames⟩] {s with
          toSnifferState := next
          mifDue := s.time + again.toNat
          mifSlip := 0}
  | node (other : notTimer event = true) (ran : NodeStep hash rxCtrlLen s.awdlState event out next)
      (moved : windowPosition width next.sync s.clock = (s.position width + shift) % (16384 * width))
      (chan : |s.chanSlip + shift| ≤ drift) (mif : |s.mifSlip + shift| ≤ drift) :
      TimerStep hash width late drift s (.node event shift) [] {s with
        awdlState := next
        chanSlip := s.chanSlip + shift
        mifSlip := s.mifSlip + shift}
  | daemon (same : next.awdlState = s.awdlState) :
      TimerStep hash width late drift s .daemon [] {s with toSnifferState := next}

-- awdl_schedule on a node that has booted, whatever channels it is given: both timers are
-- due at once.
def Scheduled (width : Nat) (s : TimerState T) : Prop :=
  (∃ self state channel, Booted self state ∧ s.awdlState = {state with channel := channel}) ∧
    Windowed width s.awdlState.sync ∧ s.chanDue = s.time ∧ s.mifDue = s.time ∧ s.chanSlip = 0 ∧ s.mifSlip = 0

variable {hash : EtherAddr → UInt64} {width late drift : Nat} {s t : TimerState T}

section Clocks

-- Whatever is received, the clock keeps its form, and the channels stay.
structure Regular (state after : AwdlState) : Prop where
  windowed : ∀ {width}, Windowed width state.sync → Windowed width after.sync
  aligned : state.sync.awCounter.toNat % 4 = 0 → after.sync.awCounter.toNat % 4 = 0
  channel : after.channel = state.channel

theorem Regular.refl (state : AwdlState) : Regular state state := ⟨id,id,rfl⟩

theorem Regular.trans (first : Regular a b) (second : Regular b c) : Regular a c :=
  ⟨fun windowed => second.windowed (first.windowed windowed),fun aligned => second.aligned (first.aligned aligned),
    second.channel.trans first.channel⟩

theorem sync_regular (src : AwdlPeer) (val : Buf) (state : AwdlState) (now : UInt64) :
    Regular state (awdlHandleSyncParamsTlv src val state now).2 := by
  unfold awdlHandleSyncParamsTlv
  split
  · exact .refl state
  · refine checkedRead_holds (motive := fun (run : RxResult × AwdlState) => Regular state run.2) (.refl state) fun _ _ => ?_
    refine checkedRead_holds (motive := fun (run : RxResult × AwdlState) => Regular state run.2) (.refl state) fun _ aw => ?_
    have masked : ∀ aw : UInt16, (aw &&& 0xfffc).toNat % 4 = 0 := by
      intro aw
      rw [masked_counter]
      omega
    dsimp only
    split <;> exact ⟨fun windowed => ⟨windowed.period,windowed.mode,windowed.known⟩,fun _ => masked _,rfl⟩

theorem handle_regular (mem : Fin awdlChanseqLength → AwdlChan) (src : AwdlPeer) (type : UInt8) (val : Buf)
    (state : AwdlState) (tsft : UInt64) : Regular state (awdlHandleTlv mem src type val state tsft).2.2 := by
  refine handle_elim (motive := fun _ run => Regular state run.2.2) type ?sync ?chanseq ?election ?electionV2 ?arpa
    ?dataPath ?version ?other
  case sync => exact sync_regular src val state tsft
  all_goals intros; exact .refl state

theorem action_regular (ran : awdlRxAction hash env frame rssi tsft src state = some run) :
    Regular state run.state := by
  rcases action_cases ran with left | ⟨_,added,_,left⟩ | ⟨entry,start⟩
  · rw [left]
    exact .refl state
  · rw [left]
    exact ⟨id,id,rfl⟩
  · have through : Regular (counted state entry.added) (awdlRxTlvs env.chanMem tsft
        ((bufStrip frame AwdlAction.size).getD frame) entry.peer (counted state entry.added)).state :=
      tlvs_preserve (P := fun _ s => Regular (counted state entry.added) s) _ _ _
        (fun tlv _ mem p s before => before.trans (handle_regular mem p tlv.1 tlv.2 s tsft)) (.refl _)
    rw [action_entered start] at ran
    rcases end_runs ran with ⟨_,rfl⟩ | ⟨_,_,_,rfl⟩ <;> exact ⟨through.windowed,through.aligned,through.channel⟩

theorem rx_regular (ran : awdlRx hash env rxCtrlLen frame now state = some run) : Regular state run.state := by
  rcases rx_cases ran with ⟨stats,left⟩ | ⟨_,_,_,acted⟩
  · rw [left]
    exact ⟨id,id,rfl⟩
  · exact action_regular acted

theorem step_regular (other : notTimer event = true) (step : NodeStep hash rxCtrlLen state event out next) :
    Regular state next := by
  cases step with
  | receive ran => exact rx_regular ran
  | switchChannel => cases other
  | @sendData _ traffic buf ieee80211State =>
    have sent : Regular state (awdlSendData buf state ieee80211State).2.1 :=
      checkedRead_holds (motive := fun (sent : Option (List UInt8) × AwdlState × Ieee80211State) =>
        Regular state sent.2.1) (.refl state) fun _ _ => ⟨id,id,rfl⟩
    cases traffic <;> exact ⟨sent.windowed,sent.aligned,sent.channel⟩
  | _ => exact ⟨id,id,rfl⟩

end Clocks

section Firings

theorem clock_wait (windowed : Windowed width sync) (aligned : sync.awCounter.toNat % 4 = 0)
    (steady : Steady width sync (UInt64.ofNat time) (span : Nat)) :
    windowPosition width sync (UInt64.ofNat (time + span)) =
      (windowPosition width sync (UInt64.ofNat time) + span) % (16384 * width) := by
  rw [UInt64.ofNat_add]
  exact position_later windowed aligned (steady_now steady) steady

theorem switch_sync (now : UInt64) (state : AwdlState) : (awdlSwitchChannel now state).sync = state.sync := by
  unfold awdlSwitchChannel
  dsimp only
  split <;> rfl

theorem window_position (windowed : Windowed width sync) (now : UInt64) :
    ((awdlSyncCurrentEaw now sync).toNat : Int) = windowPosition width sync now / width := by
  have span := next_bound windowed now
  rw [windowPosition]
  rcases windowed.known with rfl | rfl <;> omega

-- The middle of the next extended window.
theorem mif_again {state : SnifferState T} (windowed : Windowed width state.awdlState.sync)
    (ran : awdlSendMif clock now state = (frames,next,again)) :
    (again.toNat : Int) = width - windowPosition width state.awdlState.sync now % width + width / 2 := by
  have left := next_position windowed now
  have eaw := windowed_eaw windowed
  have unit : (1024 : UInt32).toNat = 1024 := rfl
  have two : (2 : UInt64).toNat = 2 := rfl
  have half : (ieee80211TuToUsec (eawPeriod state.awdlState.sync / 2).toUInt32).toUInt64.toNat = width / 2 := by
    rw [ieee80211TuToUsec,UInt32.toNat_toUInt64,UInt32.toNat_mul,UInt64.toNat_toUInt32,UInt64.toNat_div,eaw,unit,two]
    rcases windowed.known with rfl | rfl <;> rfl
  have later : (awdlSendMif clock now state).2.2 = awdlSyncNextAwUs now state.awdlState.sync +
      (ieee80211TuToUsec (eawPeriod state.awdlState.sync / 2).toUInt32).toUInt64 := by
    unfold awdlSendMif
    dsimp only
    split <;> rfl
  rw [ran] at later
  dsimp only at later
  rw [later,UInt64.toNat_add,half]
  rcases windowed.known with rfl | rfl <;> omega

-- One frame if the node is running and on a channel, else none.
def mifCount (running : UInt8) (tuned : Prop) [Decidable tuned] : Nat := if running ≠ 0 ∧ tuned then 1 else 0

def Tuned (state : AwdlState) : Prop := awdlChanNum state.channel.current state.channel.enc ≠ 0

instance (state : AwdlState) : Decidable (Tuned state) := inferInstanceAs (Decidable (_ ≠ _))

theorem mif_state (clock : TxClock) (now : UInt64) (state : SnifferState T) :
    Regular state.awdlState (awdlSendMif clock now state).2.1.awdlState ∧
      (awdlSendMif clock now state).2.1.awdlState.sync = state.awdlState.sync ∧
      (awdlSendMif clock now state).1.length = mifCount state.running (Tuned state.awdlState) := by
  unfold awdlSendMif mifCount Tuned
  dsimp only
  split
  · rename_i sounding
    refine ⟨⟨id,id,rfl⟩,rfl,?_⟩
    have tuned := UInt8.pos_iff_ne_zero.mp sounding
    unfold Sniffer.awdlSendAction
    by_cases on : state.running ≠ 0 <;> simp [on,tuned]
  · rename_i silent
    refine ⟨.refl _,rfl,?_⟩
    rw [if_neg fun both => silent (UInt8.pos_iff_ne_zero.mpr both.2)]
    rfl

theorem mif_ran {state : SnifferState T} (ran : awdlSendMif clock now state = (frames,next,again)) :
    Regular state.awdlState next.awdlState ∧ next.awdlState.sync = state.awdlState.sync ∧
      frames.length = mifCount state.running (Tuned state.awdlState) := by
  have after := mif_state clock now state
  rwa [ran] at after

-- The next MIF falls into window w, if the clock is moved by `drift` at most until then.
structure MifArmed (width late drift : Nat) (w : Int) (s : TimerState T) : Prop where
  windowed : Windowed width s.awdlState.sync
  aligned : s.awdlState.sync.awCounter.toNat % 4 = 0
  due : (s.position width + (s.mifDue - s.time) - s.mifSlip) % (16384 * width) = (w * width + width / 2) % (16384 * width)
  slip : |s.mifSlip| ≤ drift
  overdue : s.time ≤ s.mifDue + late

-- Far enough from both ends of the window, a late firing after a moved clock is still in it.
theorem armed_window (armed : MifArmed width late drift w s) (narrow : 2 * (drift + late) < width)
    (due : s.mifDue ≤ s.time) :
    ((awdlSyncCurrentEaw s.clock s.awdlState.sync).toNat : Int) = w % 16384 ∧
      (s.position width - s.position width % width) % (16384 * width) = w * width % (16384 * width) := by
  have range := position_range armed.windowed s.clock
  have planned := armed.due
  have overdue := armed.overdue
  obtain ⟨back,forth⟩ := abs_le.mp armed.slip
  have eaw := window_position armed.windowed s.clock
  change 0 ≤ s.position width ∧ s.position width < _ at range
  change _ = s.position width / width at eaw
  rcases armed.windowed.known with rfl | rfl <;> omega

-- Wherever it fires, mif_timer is armed for the middle of the next window.
theorem fired_armed (windowed : Windowed width s.awdlState.sync) (aligned : s.awdlState.sync.awCounter.toNat % 4 = 0)
    (ran : awdlSendMif clock s.clock s.toSnifferState = (frames,next,again)) :
    MifArmed width late drift (s.position width / width + 1) {s with
      toSnifferState := next
      mifDue := s.time + again.toNat
      mifSlip := 0} := by
  obtain ⟨regular,same,_⟩ := mif_ran ran
  have later := mif_again windowed ran
  refine ⟨regular.windowed windowed,regular.aligned aligned,?_,by simp,?_⟩
  · unfold TimerState.position TimerState.clock at *
    dsimp only at same ⊢
    rw [same]
    rcases windowed.known with rfl | rfl <;> omega
  · dsimp only
    omega

theorem armed_step (armed : MifArmed width late drift w s) (narrow : 2 * (drift + late) < width)
    (step : TimerStep hash width late drift s event out t) :
    out = [] ∧ MifArmed width late drift w t ∨
      ∃ firing, out = [firing] ∧ (firing.window : Int) = w % 16384 ∧
        firing.frames.length = mifCount firing.running (Tuned s.awdlState) ∧ MifArmed width late drift (w + 1) t := by
  obtain ⟨windowed,aligned,planned,slip,overdue⟩ := armed
  have known := windowed.known
  cases step with
  | wait chan mif steady =>
    refine .inl ⟨rfl,windowed,aligned,?_,slip,mif⟩
    have later := clock_wait windowed aligned steady
    unfold TimerState.position TimerState.clock at *
    dsimp only at *
    rw [later]
    rcases known with rfl | rfl <;> omega
  | chanTimer due ran =>
    have same := switch_sync s.clock s.awdlState
    cases ran
    refine .inl ⟨rfl,same.symm ▸ windowed,same.symm ▸ aligned,?_,slip,overdue⟩
    unfold TimerState.position TimerState.clock at *
    dsimp only
    rw [same]
    exact planned
  | mifTimer due ran =>
    obtain ⟨window,start⟩ := armed_window ⟨windowed,aligned,planned,slip,overdue⟩ narrow due
    have next : MifArmed width late drift _ _ := fired_armed windowed aligned ran
    have count := (mif_ran ran).2.2
    have sum := next.due
    refine .inr ⟨_,rfl,window,count,next.windowed,next.aligned,?_,next.slip,next.overdue⟩
    rcases known with rfl | rfl <;> omega
  | node other ran moved chan mif =>
    have regular := step_regular other ran
    refine .inl ⟨rfl,regular.windowed windowed,regular.aligned aligned,?_,mif,overdue⟩
    unfold TimerState.position TimerState.clock at planned moved ⊢
    dsimp only
    rw [moved]
    rcases known with rfl | rfl <;> omega
  | daemon same =>
    refine .inl ⟨rfl,?_,?_,?_,slip,overdue⟩
    · exact same.symm ▸ windowed
    · exact same.symm ▸ aligned
    · unfold TimerState.position TimerState.clock at planned ⊢
      dsimp only
      rw [same]
      exact planned

end Firings

section Tuning

-- Every slot of the own sequence has a channel.
def Slots (state : AwdlState) : Prop := ∀ i, awdlChanNum (state.channel.sequence i) state.channel.enc ≠ 0

theorem switch_channel (now : UInt64) (state : AwdlState) :
    (awdlSwitchChannel now state).channel.sequence = state.channel.sequence ∧
      (awdlSwitchChannel now state).channel.enc = state.channel.enc := by
  unfold awdlSwitchChannel
  dsimp only
  split <;> exact ⟨rfl,rfl⟩

-- After chan_timer the current channel is that of the slot.
theorem switch_tuned (slots : Slots state) (now : UInt64) :
    awdlChanNum (awdlSwitchChannel now state).channel.current state.channel.enc =
      awdlChanNum (state.channel.sequence (eawSlot now state.sync)) state.channel.enc := by
  have sounding := slots (eawSlot now state.sync)
  unfold awdlSwitchChannel
  dsimp only
  change awdlChanNum (if awdlChanNum (state.channel.sequence (eawSlot now state.sync)) state.channel.enc ≠ 0 ∧
    awdlChanNum (state.channel.sequence (eawSlot now state.sync)) state.channel.enc ≠
      awdlChanNum state.channel.current state.channel.enc then _ else _ : AwdlState).channel.current state.channel.enc = _
  split
  · rfl
  · rename_i stays
    by_contra differs
    exact stays ⟨sounding,fun same => differs same.symm⟩

theorem switched_tuned (slots : Slots state) (now : UInt64) : Tuned (awdlSwitchChannel now state) := by
  unfold Tuned
  rw [(switch_channel now state).2,switch_tuned slots]
  exact slots _

-- What a step leaves of the channels, if chan_timer does not fire.
theorem step_channel (step : TimerStep hash width late drift s event out t) (other : event ≠ .chanTimer) :
    t.awdlState.channel = s.awdlState.channel := by
  cases step with
  | wait => rfl
  | chanTimer => exact absurd rfl other
  | mifTimer due ran => exact (mif_ran ran).1.channel
  | node own ran => exact (step_regular own ran).channel
  | daemon same => exact congrArg AwdlState.channel same

theorem step_slots (slots : Slots s.awdlState) (step : TimerStep hash width late drift s event out t) :
    Slots t.awdlState := by
  by_cases other : event = .chanTimer
  · subst other
    cases step with
    | chanTimer due ran =>
      obtain ⟨sequence,enc⟩ := switch_channel s.clock s.awdlState
      cases ran
      unfold Slots
      rw [sequence,enc]
      exact slots
  · unfold Slots
    rw [step_channel step other]
    exact slots

theorem step_tuned (slots : Slots s.awdlState) (step : TimerStep hash width late drift s event out t)
    (on : event ≠ .chanTimer → Tuned s.awdlState) : Tuned t.awdlState := by
  by_cases other : event = .chanTimer
  · subst other
    cases step with
    | chanTimer due ran =>
      cases ran
      exact switched_tuned slots s.clock
  · unfold Tuned
    rw [step_channel step other]
    exact on other

-- Until chan_timer has fired for the first time it is overdue by `late` at most.
def Ready (late : Nat) (s : TimerState T) : Prop :=
  Tuned s.awdlState ∨ s.time ≤ s.chanDue + late ∧ s.chanDue + late < s.mifDue

structure Underway (width late drift : Nat) (w : Int) (s : TimerState T) : Prop where
  armed : MifArmed width late drift w s
  slots : Slots s.awdlState
  ready : Ready late s

theorem step_ready (underway : Underway width late drift w s) (step : TimerStep hash width late drift s event out t) :
    Ready late t := by
  have slots := underway.slots
  rcases underway.ready with on | ⟨chan,before⟩
  · exact .inl (step_tuned slots step fun _ => on)
  · cases id step with
    | wait chan mif => exact .inr ⟨chan,before⟩
    | chanTimer due ran => exact .inl (step_tuned slots step fun other => absurd rfl other)
    | mifTimer due ran => omega
    | node other ran => exact .inr ⟨chan,before⟩
    | daemon => exact .inr ⟨chan,before⟩

-- The frames that a firing of mif_timer gives to wlan_send once a channel is set.
def OnTime (w : Int) (firing : Firing) : Prop :=
  (firing.window : Int) = w % 16384 ∧ firing.frames.length = if firing.running ≠ 0 then 1 else 0

theorem underway_step (underway : Underway width late drift w s) (narrow : 2 * (drift + late) < width)
    (step : TimerStep hash width late drift s event out t) :
    out = [] ∧ Underway width late drift w t ∨
      ∃ firing, out = [firing] ∧ OnTime w firing ∧ Underway width late drift (w + 1) t := by
  have slots := step_slots underway.slots step
  have ready := step_ready underway step
  rcases armed_step underway.armed narrow step with ⟨none,armed⟩ | ⟨firing,once,window,count,armed⟩
  · exact .inl ⟨none,armed,slots,ready⟩
  · refine .inr ⟨firing,once,⟨window,?_⟩,armed,slots,ready⟩
    have on : Tuned s.awdlState := by
      rcases underway.ready with on | ⟨chan,before⟩
      · exact on
      · cases step with
        | mifTimer due ran => omega
        | _ => cases once
    rw [count,mifCount]
    simp only [on,and_true]

theorem underway_run (underway : Underway width late drift w s) (narrow : 2 * (drift + late) < width)
    (path : Runs (TimerStep hash width late drift) s trace t) (i : Nat) (firing : Firing)
    (fired : (trace.flatMap (·.2))[i]? = some firing) : OnTime (w + i) firing := by
  induction path generalizing w i with
  | nil => cases fired
  | cons head _ ih =>
    rw [List.flatMap_cons] at fired
    rcases underway_step underway narrow head with ⟨none,next⟩ | ⟨first,once,shown,next⟩
    · dsimp only at fired
      rw [none,List.nil_append] at fired
      exact ih next i fired
    · dsimp only at fired
      rw [once] at fired
      cases i with
      | zero =>
        cases fired
        simpa using shown
      | succ i =>
        have later := ih next i fired
        have place : w + 1 + (i : Int) = w + ((i + 1 : Nat) : Int) := by
          push_cast
          ring
        rwa [place] at later

-- Before mif_timer has fired at all.
structure Fresh (width late : Nat) (s : TimerState T) : Prop where
  windowed : Windowed width s.awdlState.sync
  aligned : s.awdlState.sync.awCounter.toNat % 4 = 0
  slots : Slots s.awdlState
  ready : Tuned s.awdlState ∨ s.time ≤ s.chanDue + late ∧ s.chanDue ≤ s.time

theorem step_form (windowed : Windowed width s.awdlState.sync) (aligned : s.awdlState.sync.awCounter.toNat % 4 = 0)
    (step : TimerStep hash width late drift s event out t) :
    Windowed width t.awdlState.sync ∧ t.awdlState.sync.awCounter.toNat % 4 = 0 := by
  cases step with
  | wait => exact ⟨windowed,aligned⟩
  | chanTimer due ran =>
    have same := switch_sync s.clock s.awdlState
    cases ran
    exact ⟨same.symm ▸ windowed,same.symm ▸ aligned⟩
  | mifTimer due ran =>
    have regular := (mif_ran ran).1
    exact ⟨regular.windowed windowed,regular.aligned aligned⟩
  | node other ran =>
    have regular := step_regular other ran
    exact ⟨regular.windowed windowed,regular.aligned aligned⟩
  | daemon same => exact ⟨same.symm ▸ windowed,same.symm ▸ aligned⟩

theorem fresh_step (fresh : Fresh width late s) (narrow : 2 * (drift + late) < width)
    (step : TimerStep hash width late drift s event out t) :
    out = [] ∧ Fresh width late t ∨
      ∃ firing, out = [firing] ∧ firing.window < 16384 ∧
        firing.frames.length = mifCount firing.running (Tuned s.awdlState) ∧
        Underway width late drift (firing.window + 1) t := by
  obtain ⟨windowed,aligned,slots,ready⟩ := fresh
  obtain ⟨form,even⟩ := step_form windowed aligned step
  have after := step_slots slots step
  have stays := fun on => step_tuned slots step fun _ => on
  cases id step with
  | wait chan mif =>
    refine .inl ⟨rfl,form,even,after,ready.imp stays ?_⟩
    exact fun before => ⟨chan,Nat.le_add_right_of_le before.2⟩
  | chanTimer due ran =>
    exact .inl ⟨rfl,form,even,after,.inl (step_tuned slots step fun other => absurd rfl other)⟩
  | mifTimer due ran =>
    have next : MifArmed width late drift _ _ := fired_armed windowed aligned ran
    have range := position_range windowed s.clock
    have shown := window_position windowed s.clock
    have later := mif_again windowed ran
    change 0 ≤ s.position width ∧ s.position width < _ at range
    change _ = s.position width / width at shown
    rw [← shown] at next
    refine .inr ⟨_,rfl,?_,(mif_ran ran).2.2,next,after,?_⟩
    · dsimp only
      rcases windowed.known with rfl | rfl <;> omega
    · rcases ready with on | ⟨soon,begun⟩
      · exact .inl (stays on)
      · refine .inr ⟨soon,?_⟩
        dsimp only
        rcases windowed.known with rfl | rfl <;> omega
  | node other ran => exact .inl ⟨rfl,form,even,after,ready.imp_left stays⟩
  | daemon => exact .inl ⟨rfl,form,even,after,ready.imp_left stays⟩

theorem scheduled_aligned (scheduled : Scheduled width s) : s.awdlState.sync.awCounter.toNat % 4 = 0 := by
  obtain ⟨⟨_,_,_,booted,state⟩,_⟩ := scheduled
  have even := booted_aligned booted
  rw [state]
  exact even

theorem scheduled_fresh (scheduled : Scheduled width s) (sounding : Slots s.awdlState) : Fresh width late s := by
  obtain ⟨_,windowed,chan,_⟩ := id scheduled
  exact ⟨windowed,scheduled_aligned scheduled,sounding,.inr ⟨by omega,by omega⟩⟩

end Tuning

section Channels

-- The current channel is that of window w, and chan_timer is armed for its end.
structure ChanArmed (width late drift : Nat) (w : Int) (s : TimerState T) : Prop where
  windowed : Windowed width s.awdlState.sync
  aligned : s.awdlState.sync.awCounter.toNat % 4 = 0
  slots : Slots s.awdlState
  due : (s.position width + (s.chanDue - s.time) - s.chanSlip) % (16384 * width) = (w + 1) * width % (16384 * width)
  soon : s.chanDue ≤ s.time + width
  slip : |s.chanSlip| ≤ drift
  overdue : s.time ≤ s.chanDue + late
  current : ∀ slot : Fin awdlChanseqLength, (slot.val : Int) = w % 16 →
    awdlChanNum s.awdlState.channel.current s.awdlState.channel.enc =
      awdlChanNum (s.awdlState.channel.sequence slot) s.awdlState.channel.enc

-- Before it has fired at all.
structure Unswitched (width late first : Nat) (s : TimerState T) : Prop where
  windowed : Windowed width s.awdlState.sync
  aligned : s.awdlState.sync.awCounter.toNat % 4 = 0
  slots : Slots s.awdlState
  pending : s.chanDue = first
  overdue : s.time ≤ first + late

theorem switched_armed (windowed : Windowed width s.awdlState.sync) (aligned : s.awdlState.sync.awCounter.toNat % 4 = 0)
    (slots : Slots s.awdlState) (ran : awdlSwitchChannelTimer s.clock s.awdlState = (next,again)) :
    ChanArmed width late drift (s.position width / width) {s with
      awdlState := next
      chanDue := s.time + again.toNat
      chanSlip := 0} := by
  have same := switch_sync s.clock s.awdlState
  have left := next_position windowed s.clock
  have span := next_bound windowed s.clock
  have on := switch_tuned slots s.clock
  have shown := slot_position windowed s.clock
  obtain ⟨sequence,enc⟩ := switch_channel s.clock s.awdlState
  cases ran
  refine ⟨same.symm ▸ windowed,same.symm ▸ aligned,?_,?_,?_,by simp,?_,?_⟩
  · unfold Slots
    rw [sequence,enc]
    exact slots
  · unfold TimerState.position TimerState.clock at *
    dsimp only
    rw [same]
    rcases windowed.known with rfl | rfl <;> omega
  · dsimp only
    omega
  · dsimp only
    omega
  · intro slot here
    have found : slot = eawSlot s.clock s.awdlState.sync := by
      apply Fin.ext
      have value : (slot.val : Int) = s.position width / width % 16 := here
      change _ = s.position width / width % 16 at shown
      omega
    dsimp only
    rw [sequence,enc,on,found]

theorem chan_step (armed : ChanArmed width late drift w s) (step : TimerStep hash width late drift s event out t) :
    ∃ v, ChanArmed width late drift v t := by
  obtain ⟨windowed,aligned,slots,planned,soon,slip,overdue,current⟩ := armed
  obtain ⟨form,even⟩ := step_form windowed aligned step
  have after := step_slots slots step
  have stays := step_channel step
  cases step with
  | wait chan mif steady =>
    refine ⟨w,form,even,after,?_,?_,slip,chan,current⟩
    · have later := clock_wait windowed aligned steady
      unfold TimerState.position TimerState.clock at *
      dsimp only
      rw [later]
      rcases windowed.known with rfl | rfl <;> omega
    · dsimp only
      omega
  | chanTimer due ran => exact ⟨_,switched_armed windowed aligned slots ran⟩
  | mifTimer due ran =>
    have same := (mif_ran ran).2.1
    refine ⟨w,form,even,after,?_,soon,slip,overdue,?_⟩
    · unfold TimerState.position TimerState.clock at *
      dsimp only at same ⊢
      rw [same]
      exact planned
    · rw [stays (by rintro ⟨⟩)]
      exact current
  | node other ran moved chan mif =>
    refine ⟨w,form,even,after,?_,soon,chan,overdue,?_⟩
    · unfold TimerState.position TimerState.clock at planned moved ⊢
      dsimp only
      rw [moved]
      rcases windowed.known with rfl | rfl <;> omega
    · rw [stays (by rintro ⟨⟩)]
      exact current
  | daemon same =>
    refine ⟨w,form,even,after,?_,soon,slip,overdue,?_⟩
    · unfold TimerState.position TimerState.clock at planned ⊢
      dsimp only
      rw [same]
      exact planned
    · rw [stays (by rintro ⟨⟩)]
      exact current

theorem unswitched_step (before : Unswitched width late first s)
    (step : TimerStep hash width late drift s event out t) :
    Unswitched width late first t ∨ ∃ w, ChanArmed width late drift w t := by
  obtain ⟨form,even⟩ := step_form before.windowed before.aligned step
  have after := step_slots before.slots step
  cases step with
  | wait chan mif => exact .inl ⟨form,even,after,before.pending,by rw [← before.pending]; exact chan⟩
  | chanTimer due ran => exact .inr ⟨_,switched_armed before.windowed before.aligned before.slots ran⟩
  | mifTimer due ran => exact .inl ⟨form,even,after,before.pending,before.overdue⟩
  | node other ran => exact .inl ⟨form,even,after,before.pending,before.overdue⟩
  | daemon => exact .inl ⟨form,even,after,before.pending,before.overdue⟩

end Channels

-- A running node whose sequence alternates between channels 6 and 44, scheduled one
-- millisecond after wifi_sniffer_init: both timers, and both again when due.
def hopping : AwdlChannelState where
  enc := .opclass
  master := chanOpclass6
  current := chanNull
  sequence i := if i.val % 2 = 0 then chanOpclass6 else ⟨44,0x80⟩

def hoppingState : AwdlState :=
  {wifiSnifferStores (awdlInitState default [] nodeOne chanOpclass6 0) with channel := hopping}

def scheduled : TimerState Unit :=
  {(⟨⟨hoppingState,ieee80211InitState,(),(),none,⟨fun _ => 0,0,0,0,false⟩,Heap.empty⟩,1⟩ : SnifferState Unit) with
    time := 1000
    chanDue := 1000
    mifDue := 1000
    chanSlip := 0
    mifSlip := 0}

theorem scheduled_slots : Scheduled 81920 scheduled ∧ Slots scheduled.awdlState := by
  refine ⟨⟨⟨nodeOne,_,hopping,.sniffer,rfl⟩,stores_windowed _ _ _ _ _,rfl,rfl,rfl,rfl⟩,?_⟩
  change ∀ i : Fin awdlChanseqLength, awdlChanNum (hopping.sequence i) .opclass ≠ 0
  decide

theorem scheduled_run : ∃ trace last, Runs (TimerStep (fun _ => 0) 81920 10 0) scheduled trace last ∧
    (trace.flatMap (·.2)).length = 2 ∧ last.time = 122880 ∧ last.position 81920 = 122880 ∧
      awdlChanNum (last.awdlState.channel.sequence (eawSlot last.clock last.awdlState.sync))
        last.awdlState.channel.enc = 44 := by
  refine ⟨_,_,.cons (.chanTimer (by decide) rfl) (.cons (@TimerStep.mifTimer _ _ _ _ _ ⟨5,7⟩ _ _ _ _ (by decide) rfl)
    (.cons (@TimerStep.wait _ _ _ _ _ 80920 _ ?_ ?_ (.inr ?_)) (.cons (.chanTimer ?_ rfl)
      (.cons (@TimerStep.wait _ _ _ _ _ 40960 _ ?_ ?_ (.inr ?_)) (.cons
        (@TimerStep.mifTimer _ _ _ _ _ ⟨5,7⟩ _ _ _ _ ?_ rfl) .nil))))),rfl,?_,?_,?_⟩
  all_goals decide +kernel

-- From awdl_schedule on mif_timer fires once in every extended window, and each time but
-- perhaps the first puts a frame on the air if the node is running, though the timer is
-- never exact and the clock is corrected now and then.
theorem mif_cadence (scheduled : Scheduled width start) (narrow : 2 * (drift + late) < width)
    (sounding : Slots start.awdlState) (path : Runs (TimerStep hash width late drift) start trace last) :
    ∃ w : Nat, ∀ i firing, (trace.flatMap (·.2))[i]? = some firing → firing.window = (w + i) % 16384 ∧
      (firing.running = 0 → firing.frames = []) ∧
      (0 < i → firing.frames.length = if firing.running ≠ 0 then 1 else 0) := by
  have fresh : Fresh width late start := scheduled_fresh scheduled sounding
  clear scheduled sounding
  induction path with
  | nil => exact ⟨0,fun i firing fired => by cases fired⟩
  | cons head rest ih =>
    rcases fresh_step fresh narrow head with ⟨none,next⟩ | ⟨first,once,small,count,next⟩
    · obtain ⟨w,fires⟩ := ih next
      refine ⟨w,fun i firing fired => fires i firing ?_⟩
      rw [List.flatMap_cons] at fired
      dsimp only at fired
      rwa [none,List.nil_append] at fired
    · refine ⟨first.window,fun i firing fired => ?_⟩
      rw [List.flatMap_cons] at fired
      dsimp only at fired
      rw [once] at fired
      cases i with
      | zero =>
        cases fired
        refine ⟨(Nat.mod_eq_of_lt small).symm,fun off => ?_,fun none => absurd none (lt_irrefl 0)⟩
        rw [mifCount,off] at count
        exact List.eq_nil_of_length_eq_zero count
      | succ i =>
        obtain ⟨shown,sent⟩ := underway_run next narrow rest i firing fired
        refine ⟨by omega,fun off => ?_,fun _ => sent⟩
        rw [off] at sent
        exact List.eq_nil_of_length_eq_zero sent

theorem mif_cadence_twice : ∃ trace last, Runs (TimerStep (fun _ => 0) 81920 10 0) scheduled trace last ∧
    (trace.flatMap (·.2)).length = 2 ∧ ∃ w : Nat, ∀ i firing, (trace.flatMap (·.2))[i]? = some firing →
      firing.window = (w + i) % 16384 ∧ (firing.running = 0 → firing.frames = []) ∧
      (0 < i → firing.frames.length = if firing.running ≠ 0 then 1 else 0) := by
  obtain ⟨trace,last,path,count,_⟩ := scheduled_run
  exact ⟨trace,last,path,count,mif_cadence scheduled_slots.1 (by decide) scheduled_slots.2 path⟩

end EspOwl.Timers
