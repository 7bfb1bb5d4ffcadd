import EspOwl.Service

namespace EspOwl.Service
open Histories Fifos TransmitQueues Wakeups SlotClock HandOver GuardIntervals

variable {hash : EtherAddr → UInt64} {ip6AddrIsmulticast : In6Addr → Bool}

section Waiting
variable {width : Nat} {base : Int} {drift late : Nat} {kept : AwdlState → Prop} {s t : ServiceState}

def firing : Traffic → UInt64 → TxEvent
  | .unicast,now => .sendUnicast now
  | .multicast,now => .sendMulticast now

-- A packet is the first of its queue, `line` is behind it, and its callback was last due
-- by `target`.
structure Awaits (width : Nat) (base : Int) (drift late : Nat) (kept : AwdlState → Prop) (traffic : Traffic) (packet : Packet)
    (line : List Packet) (target : Nat) (s : ServiceState) : Prop where
  ready : Ready width base drift late kept s
  head : ∃ queues, Queued s.daemon queues ∧ packet :: line <+: queues traffic
  before : s.due traffic ≤ target

-- From `target` on, the next firing of the callback lets the packet go.
def Opens (hash : EtherAddr → UInt64) (ip6AddrIsmulticast : In6Addr → Bool) (width : Nat) (base : Int)
    (drift late : Nat) (kept : AwdlState → Prop) (traffic : Traffic) (packet : Packet) (target : Nat) : Prop :=
  ∀ s queues rest output next, Ready width base drift late kept s → Queued s.daemon queues → queues traffic = packet :: rest →
    target ≤ s.time → s.time ≤ target + late →
    TxStep hash ip6AddrIsmulticast plainTimer s.daemon (firing traffic s.clock) output next →
    ∃ receiver, output = .handed traffic packet receiver

variable {traffic : Traffic} {packet : Packet} {target : Nat}

theorem head_active (armed : Armed plainTimer state) (queued : Queued state queues)
    (first : packet :: line <+: queues traffic) : (timerOf state traffic).isSome = true := by
  obtain ⟨more,first⟩ := first
  cases traffic with
  | unicast =>
    refine armed.unicast ?_
    have slot := queued.slot
    rw [← first] at slot
    cases busy : state.next with
    | none =>
      rw [busy] at slot
      cases slot
    | some _ => rfl
  | multicast =>
    refine armed.multicast ?_
    have ring := queued.ring
    rw [← first,List.cons_append,List.map_cons] at ring
    exact ring.occupied

theorem Awaits.active (awaits : Awaits width base drift late kept traffic packet line target s) :
    (timerOf s.daemon traffic).isSome = true := by
  obtain ⟨queues,queued,first⟩ := awaits.head
  exact head_active awaits.ready.armed queued first

theorem Awaits.soon (awaits : Awaits width base drift late kept traffic packet line target s) : s.time ≤ target + late := by
  have overdue := awaits.ready.overdue traffic awaits.active
  have before := awaits.before
  omega

-- The first of a queue stays first until it leaves, and then what was behind it is first.
theorem head_stays (moves : Moves queues move after) (first : packet :: line <+: queues traffic) :
    move = .leave traffic packet ∧ line <+: after traffic ∨ packet :: line <+: after traffic := by
  cases moves with
  | @enter entered item =>
    refine .inr ?_
    by_cases same : traffic = entered
    · subst same
      rw [Function.update_self]
      exact first.trans (List.prefix_append _ _)
    · rw [Function.update_of_ne same]
      exact first
  | @leave item left queue gone =>
    by_cases same : traffic = queue
    · subst same
      rw [gone,List.cons_prefix_cons] at first
      obtain ⟨rfl,behind⟩ := first
      rw [Function.update_self]
      exact .inl ⟨rfl,behind⟩
    · rw [Function.update_of_ne same]
      exact .inr first
  | stay => exact .inr first

theorem head_left (moves : Moves queues (.leave traffic packet) after) (first : packet :: line <+: queues traffic) :
    line <+: after traffic := by
  cases moves with
  | leave gone =>
    rw [gone,List.cons_prefix_cons] at first
    rw [Function.update_self]
    exact first.2

theorem left_handed {output : TxOutput} (left : output.move = .leave traffic packet) :
    ∃ receiver, output = .handed traffic packet receiver := by
  cases output with
  | handed => cases left; exact ⟨_,rfl⟩
  | espErrNoMem => cases left
  | espOk => cases left
  | waits => cases left

theorem call_awaits (awaits : Awaits width base drift late kept traffic packet line target s)
    (ran : TxStep hash ip6AddrIsmulticast plainTimer s.daemon event output next)
    (ready : Ready width base drift late kept (s.after fired next)) (due : (s.after fired next).due traffic ≤ target) :
    (∃ receiver, output = .handed traffic packet receiver) ∨
      Awaits width base drift late kept traffic packet line target (s.after fired next) := by
  obtain ⟨queues,queued,first⟩ := awaits.head
  obtain ⟨after,moves,left,_⟩ := step_follows queued ran
  rcases head_stays moves first with ⟨gone,_⟩ | still
  · exact .inl (left_handed gone)
  · exact .inr ⟨ready,⟨after,left,still⟩,due⟩

-- A timer that runs on keeps its due time.
theorem running_due (active : (timerOf fired traffic).isSome = true) (next : DaemonState (Option UInt64)) :
    (s.after fired next).due traffic = s.due traffic := by
  change startedDue (timerOf fired traffic) (timerOf next traffic) s.time (s.due traffic) = _
  cases running : timerOf fired traffic with
  | none => rw [running] at active; cases active
  | some usec => rfl

-- And one that starts is due at the time of the call.
theorem after_due (started : Restarts fired next) (traffic : Traffic) :
    (s.after fired next).due traffic ≤ max s.time (s.due traffic) := by
  change startedDue (timerOf fired traffic) (timerOf next traffic) s.time (s.due traffic) ≤ _
  rcases started_due started traffic s.time (s.due traffic) with ⟨_,due⟩ | ⟨_,due⟩
  · rw [due]
    exact le_max_right _ _
  · rw [due]
    exact le_max_left _ _

theorem step_awaits (uncounted : Uncounted kept)
    (opens : Opens hash ip6AddrIsmulticast width base drift late kept traffic packet target)
    (awaits : Awaits width base drift late kept traffic packet line target s)
    (step : ServiceStep hash ip6AddrIsmulticast width base drift late kept s event output t) :
    (∃ receiver, output = .handed traffic packet receiver) ∨
      Awaits width base drift late kept traffic packet line target t := by
  have ready := step_ready uncounted awaits.ready step
  have active := awaits.active
  have before := awaits.before
  -- Its own callback: the packet leaves, or the next call is due before `target` yet.
  have own : ∀ next, TxStep hash ip6AddrIsmulticast plainTimer s.daemon (firing traffic s.clock) output next →
      s.time < target ∨ ∃ receiver, output = .handed traffic packet receiver := by
    intro next ran
    obtain ⟨queues,queued,rest,first⟩ := awaits.head
    by_cases reached : target ≤ s.time
    · exact .inr (opens s queues _ output next awaits.ready queued first.symm reached awaits.soon ran)
    · exact .inl (not_le.mp reached)
  cases step with
  | wait => exact .inr ⟨ready,awaits.head,before⟩
  | transmit ran => exact call_awaits awaits ran ready ((running_due active _).trans_le before)
  | sendUnicast _ due ran =>
    cases traffic with
    | multicast =>
      have other : (timerOf {s.daemon with txTimer := none} .multicast).isSome = true := active
      exact call_awaits awaits ran ready ((running_due other _).trans_le before)
    | unicast =>
      rcases own _ ran with early | handed
      · cases id ran with
        | sendUnicast sent =>
          have windowed : Windowed width
              ({s.daemon with txTimer := none} : DaemonState (Option UInt64)).awdlState.sync :=
            awaits.ready.paced.windowed
          have started := (unicast_started windowed sent).timers
          exact call_awaits awaits ran ready ((after_due started .unicast).trans (max_le early.le before))
      · exact .inl handed
  | sendMulticast _ due ran =>
    cases traffic with
    | unicast =>
      have other : (timerOf {s.daemon with txMcastTimer := none} .unicast).isSome = true := active
      exact call_awaits awaits ran ready ((running_due other _).trans_le before)
    | multicast =>
      rcases own _ ran with early | handed
      · cases id ran with
        | sendMulticast sent =>
          have started := (multicast_started sent).timers
          exact call_awaits awaits ran ready ((after_due started .multicast).trans (max_le early.le before))
      · exact .inl handed
  | elsewhere _ _ ran => exact call_awaits awaits ran ready ((running_due active _).trans_le before)

-- When it leaves, no time passes, and the next in line is the first.
theorem step_passed (awaits : Awaits width base drift late kept traffic packet line target s)
    (step : ServiceStep hash ip6AddrIsmulticast width base drift late kept s event (.handed traffic packet receiver) t) :
    t.time = s.time ∧ ∃ queues, Queued t.daemon queues ∧ line <+: queues traffic := by
  obtain ⟨queues,queued,first⟩ := awaits.head
  have passed : ∀ next event,
      TxStep hash ip6AddrIsmulticast plainTimer s.daemon event (.handed traffic packet receiver) next →
      ∃ queues, Queued next queues ∧ line <+: queues traffic := by
    intro next event ran
    obtain ⟨after,moves,left,_⟩ := step_follows queued ran
    exact ⟨after,left,head_left moves first⟩
  cases step with
  | transmit ran => exact ⟨rfl,passed _ _ ran⟩
  | sendUnicast _ _ ran => exact ⟨rfl,passed _ _ ran⟩
  | sendMulticast _ _ ran => exact ⟨rfl,passed _ _ ran⟩
  | elsewhere _ _ ran => exact ⟨rfl,passed _ _ ran⟩

-- The first of a queue leaves within `span` of a firing's delay.
theorem first_served (uncounted : Uncounted kept) (reach : ∃ target, s.time ≤ target ∧ target ≤ s.time + span ∧
      Opens hash ip6AddrIsmulticast width base drift late kept traffic packet target)
    (ready : Ready width base drift late kept s) (queued : Queued s.daemon queues)
    (first : packet :: line <+: queues traffic)
    (path : Runs (ServiceStep hash ip6AddrIsmulticast width base drift late kept) s trace t)
    (long : s.time + (span + late) < t.time) :
    ∃ before event receiver after next left, trace = before ++ (event,.handed traffic packet receiver) :: after ∧
      Runs (ServiceStep hash ip6AddrIsmulticast width base drift late kept) next after t ∧
      Ready width base drift late kept next ∧ next.time ≤ s.time + (span + late) ∧
      Queued next.daemon left ∧ line <+: left traffic := by
  obtain ⟨target,begin,within,opens⟩ := reach
  have prompt := ready.prompt traffic (head_active ready.armed queued first)
  have awaits : Awaits width base drift late kept traffic packet line target s :=
    ⟨ready,⟨queues,queued,first⟩,prompt.trans begin⟩
  have stays : ∀ s event output t, Awaits width base drift late kept traffic packet line target s →
      ServiceStep hash ip6AddrIsmulticast width base drift late kept s event output t →
      (∃ receiver, output = .handed traffic packet receiver) ∨
        Awaits width base drift late kept traffic packet line target t :=
    fun _ _ _ _ awaits step => step_awaits uncounted opens awaits step
  rcases runs_until stays awaits path with
    still | ⟨before,middle,event,_,next,after,rfl,waited,step,⟨receiver,rfl⟩,rest⟩
  · have soon := still.soon
    omega
  · have soon := waited.soon
    obtain ⟨time,left,queued,behind⟩ := step_passed waited step
    exact ⟨before,event,receiver,after,next,left,rfl,rest,step_ready uncounted waited.ready step,by omega,queued,behind⟩

-- Where every packet finds its target within `span`, each waits for those before it.
theorem served (uncounted : Uncounted kept) (reach : ∀ item ∈ ahead ++ [packet], ∀ time : Nat, ∃ target, time ≤ target ∧
      target ≤ time + span ∧ Opens hash ip6AddrIsmulticast width base drift late kept traffic item target)
    (ready : Ready width base drift late kept s) (queued : Queued s.daemon queues)
    (first : ahead ++ [packet] <+: queues traffic)
    (path : Runs (ServiceStep hash ip6AddrIsmulticast width base drift late kept) s trace t)
    (long : s.time + (ahead.length + 1) * (span + late) < t.time) :
    ∃ entry ∈ trace, ∃ receiver, entry.2 = .handed traffic packet receiver := by
  induction ahead generalizing s queues trace with
  | nil =>
    rw [List.length_nil,Nat.zero_add,Nat.one_mul] at long
    obtain ⟨before,event,receiver,after,_,_,rfl,_⟩ :=
      first_served uncounted (reach packet List.mem_cons_self s.time) ready queued first path long
    exact ⟨_,List.mem_append_right _ List.mem_cons_self,receiver,rfl⟩
  | cons item ahead ih =>
    rw [List.length_cons,Nat.succ_mul] at long
    obtain ⟨before,event,_,after,next,left,rfl,rest,ready,time,queued,behind⟩ :=
      first_served uncounted (reach item List.mem_cons_self s.time) ready queued first path (by omega)
    obtain ⟨entry,member,receiver,handed⟩ := ih (fun other member => reach other (List.mem_cons_of_mem _ member))
      ready queued behind rest (by omega)
    exact ⟨entry,List.mem_append_right _ (List.mem_cons_of_mem _ member),receiver,handed⟩

end Waiting

section Openings
variable {width : Nat} {base : Int} {drift late w place target time : Nat} {kept : AwdlState → Prop}

-- A clock that is within `drift`, read from a place in a window on, for `late` at most.
theorem paced_within (first last : Nat) (paced : Paced width base drift time state)
    (lies : (base + target) % (16 * width) = w * width + (first + drift)) (slot : w < 16)
    (reached : target ≤ time) (soon : time ≤ target + late) (inside : last < width)
    (room : first + late + 2 * drift ≤ last) :
    windowPosition width state.sync (UInt64.ofNat time) / width % 16 = w ∧
      first ≤ windowPosition width state.sync (UInt64.ofNat time) % width ∧
      windowPosition width state.sync (UInt64.ofNat time) % width ≤ last := by
  obtain ⟨windowed,_,e,small,near⟩ := paced
  have bounds := abs_le.mp small
  rw [near]
  obtain ⟨d,rfl⟩ := Nat.exists_eq_add_of_le reached
  push_cast
  rcases windowed.known with rfl | rfl <;> omega

-- The next multicast window, and the next window with a given number.
theorem multicast_reached (base : Int) (time : Nat) (inside : place < width) :
    ∃ w target : Nat, (w = 0 ∨ w = 10) ∧ time ≤ target ∧ target ≤ time + 10 * width ∧
      (base + target) % (16 * width) = w * width + place := by
  have positive : (0 : Int) < 16 * width := by omega
  obtain ⟨x,same⟩ := Int.eq_ofNat_of_zero_le (Int.emod_nonneg (base + time) positive.ne')
  have below := Int.emod_lt_of_pos (base + time) positive
  have later : ∀ d : Nat, (base + (time + d : Nat)) % (16 * width) = (x + d) % (16 * width) := by
    intro d
    rw [Nat.cast_add,← Int.add_assoc,← Int.emod_add_emod,same]
  by_cases early : x ≤ place
  · refine ⟨0,time + (place - x),.inl rfl,by omega,by omega,?_⟩
    rw [later,Int.emod_eq_of_lt (by omega) (by omega)]
    omega
  · by_cases middle : x ≤ 10 * width + place
    · refine ⟨10,time + (10 * width + place - x),.inr rfl,by omega,by omega,?_⟩
      rw [later,Int.emod_eq_of_lt (by omega) (by omega)]
      omega
    · refine ⟨0,time + (16 * width + place - x),.inl rfl,by omega,by omega,?_⟩
      have round : (x + (16 * width + place - x : Nat) : Int) = place + 16 * width := by omega
      rw [later,round,Int.add_emod_right,Int.emod_eq_of_lt (by omega) (by omega)]
      omega

theorem window_reached (base : Int) (time : Nat) (inside : place < 16 * width) :
    ∃ target : Nat, time ≤ target ∧ target ≤ time + 16 * width ∧ (base + target) % (16 * width) = place := by
  have positive : (0 : Int) < 16 * width := by omega
  have below := Int.emod_lt_of_pos (place - base - time) positive
  obtain ⟨d,same⟩ := Int.eq_ofNat_of_zero_le (Int.emod_nonneg (place - base - time) positive.ne')
  refine ⟨time + d,Nat.le_add_right _ _,by omega,?_⟩
  rw [Nat.cast_add,← same,← Int.add_assoc,Int.add_emod_emod]
  have whole : base + time + (place - base - time) = (place : Int) := by omega
  rw [whole,Int.emod_eq_of_lt (by omega) (by omega)]

theorem multicast_handed (queued : Queued state queues) (first : queues .multicast = packet :: rest)
    (window : awdlIsMulticastEaw state.awdlState now = true)
    (clear : awdlCanSendIn state.awdlState now awdlMulticastGuardTu = 0)
    (ran : awdlSendMulticast plainTimer now state = some (output,next)) :
    ∃ receiver, output = .handed .multicast packet receiver := by
  obtain ⟨⟨_,delay,left⟩,sent,same⟩ := Option.map_eq_some_iff.mp ran
  cases same
  have ring := queued.ring
  rw [first,List.map_cons] at ring
  have occupied : circularBufEmpty state.txQueueMulticast = false := ring.occupied
  have member : packet ∈ pending queues := List.mem_append_right _ (by rw [first]; exact List.mem_cons_self)
  unfold sendQueued at sent
  simp only [occupied,window,clear,ring.get.1,(queued.owns.live packet).mpr member,Bool.not_false,if_true,true_and,
    Option.bind_some,Option.bind_eq_bind] at sent
  exact ⟨_,release_output sent⟩

theorem unicast_handed (queued : Queued state queues) (first : queues .unicast = packet :: rest)
    (clear : ∀ dst peer, readEtherAddr packet.bytes etherDstOffset = some dst →
      awdlPeerGet hash state.awdlState.peers.peers dst = (.ok,some peer) →
      awdlCanSendUnicastIn state.awdlState peer now awdlUnicastGuardTu = 0)
    (ran : awdlSendUnicast hash plainTimer now state = some (output,next)) :
    ∃ receiver, output = .handed .unicast packet receiver := by
  obtain ⟨⟨_,delay,left⟩,sent,same⟩ := Option.map_eq_some_iff.mp ran
  cases same
  have member : packet ∈ pending queues := List.mem_append_left _ (by rw [first]; exact List.mem_cons_self)
  have live := (queued.owns.live packet).mpr member
  unfold sendNext at sent
  split at sent
  · rename_i idle
    have slot := queued.slot
    rw [first,idle] at slot
    cases slot
  · rename_i buf busy
    have slot := queued.slot
    rw [first,busy,List.map_cons] at slot
    obtain ⟨rfl,_⟩ := List.cons.inj slot
    obtain ⟨bytes,held,sent⟩ := Option.bind_eq_some_iff.mp sent
    cases live.symm.trans held
    obtain ⟨dst,read,sent⟩ := Option.bind_eq_some_iff.mp sent
    split at sent
    · exact ⟨_,release_output sent⟩
    · split at sent
      · rename_i peer found
        rw [if_pos (clear dst peer read found)] at sent
        exact ⟨_,release_output sent⟩
      · exact ⟨_,release_output sent⟩

theorem multicast_opens (lies : (base + target) % (16 * width) = w * width + (width - 61440 + drift : Nat))
    (slot : w = 0 ∨ w = 10) (room : late + 2 * drift ≤ 57344) :
    Opens hash ip6AddrIsmulticast width base drift late kept .multicast packet target := by
  intro s queues rest output next ready queued first reached soon ran
  have windowed := ready.paced.windowed
  have known := windowed.known
  obtain ⟨number,early,behind⟩ := paced_within (width - 61440) (width - 4096) ready.paced (by rw [lies]; push_cast; rfl)
    (by omega) reached soon (by omega) (by omega)
  have left := next_position windowed (UInt64.ofNat s.time)
  have here := slot_position windowed (UInt64.ofNat s.time)
  have window : MulticastSlot (eawSlot (UInt64.ofNat s.time) s.daemon.awdlState.sync) := by
    unfold MulticastSlot
    omega
  have clear : awdlCanSendIn s.daemon.awdlState (UInt64.ofNat s.time) awdlMulticastGuardTu = 0 :=
    (multicast_branches windowed _).mpr (by omega)
  change TxStep hash ip6AddrIsmulticast plainTimer s.daemon (.sendMulticast (UInt64.ofNat s.time)) output next at ran
  cases ran with
  | sendMulticast ran =>
    have waits : Queued {s.daemon with txMcastTimer := plainTimer.fire s.daemon.txMcastTimer} queues :=
      queued.congr _ rfl rfl rfl
    exact multicast_handed waits first ((multicastEaw_slot _).mpr window) clear ran

-- In this slot the station the packet goes to, as long as that is in the table, is taken
-- to be on the node's channel.
def Shares (hash : EtherAddr → UInt64) (packet : Packet) (slot : Fin awdlChanseqLength) (state : AwdlState) : Prop :=
  ∀ dst peer now, readEtherAddr packet.bytes etherDstOffset = some dst →
    awdlPeerGet hash state.peers.peers dst = (.ok,some peer) → eawSlot now state.sync = slot →
    awdlSameChannelAsPeer state now peer = true

theorem unicast_opens {slot : Fin awdlChanseqLength}
    (lies : (base + target) % (16 * width) = slot.val * width + (width - 62464 + drift : Nat))
    (room : late + 2 * drift ≤ 59392) :
    Opens hash ip6AddrIsmulticast width base drift late (Shares hash packet slot) .unicast packet target := by
  intro s queues rest output next ready queued first reached soon ran
  have windowed := ready.paced.windowed
  have known := windowed.known
  have inside : slot.val < 16 := slot.isLt
  obtain ⟨number,early,behind⟩ := paced_within (width - 62464) (width - 3072) ready.paced (by rw [lies]; push_cast; rfl)
    inside reached soon (by omega) (by omega)
  have left := next_position windowed (UInt64.ofNat s.time)
  have here := slot_position windowed (UInt64.ofNat s.time)
  have same : eawSlot (UInt64.ofNat s.time) s.daemon.awdlState.sync = slot := Fin.ext (by omega)
  change TxStep hash ip6AddrIsmulticast plainTimer s.daemon (.sendUnicast (UInt64.ofNat s.time)) output next at ran
  cases ran with
  | sendUnicast ran =>
    have waits : Queued {s.daemon with txTimer := plainTimer.fire s.daemon.txTimer} queues :=
      queued.congr _ rfl rfl rfl
    refine unicast_handed waits first ?_ ran
    intro dst peer read found
    refine (unicast_branches windowed _).mpr ⟨ready.held dst peer _ read found same,?_,?_⟩
    · exact fun close => absurd close (by omega)
    · exact fun begun => absurd begun (by omega)

end Openings

section Services
variable {width : Nat} {base : Int} {drift late k : Nat} {packet : Packet} {start s t : ServiceState}
  {before after : List (ServiceEvent × TxOutput)}

theorem scheduled_ready (scheduled : Scheduled s) (paced : Paced width base drift s.time s.daemon.awdlState) :
    Ready width base drift late (fun _ => True) s := by
  obtain ⟨⟨awdlState,ieee80211State,mem,same⟩,dues⟩ := scheduled
  have queued : Queued s.daemon fun _ => [] := by
    rw [same]
    exact start_queued awdlState ieee80211State mem
  have armed : Armed plainTimer s.daemon := by
    rw [same]
    exact start_armed plain_documented awdlState ieee80211State mem
  refine ⟨⟨_,queued⟩,armed,paced,trivial,fun traffic _ => (dues traffic).le,fun traffic _ => ?_⟩
  rw [dues]
  exact Nat.le_add_right _ _

theorem reached_ready (scheduled : Scheduled start) (paced : Paced width base drift start.time start.daemon.awdlState)
    (past : Runs (ServiceStep hash ip6AddrIsmulticast width base drift late fun _ => True) start before s) :
    Ready width base drift late (fun _ => True) s :=
  runs_invariant (fun _ _ _ _ ready step => step_ready (fun _ _ _ held => held) ready step)
    (scheduled_ready scheduled paced) past

theorem waiting_place (queued : Queued state queues)
    (waits : ((waiting state traffic).map state.heap.packetAt)[k]? = some (some packet)) :
    ∃ ahead, ahead.length = k ∧ ahead ++ [packet] <+: queues traffic := by
  rw [waiting_packets queued,List.getElem?_map] at waits
  obtain ⟨_,place,same⟩ := Option.map_eq_some_iff.mp waits
  cases same
  obtain ⟨inside,_⟩ := List.getElem?_eq_some_iff.mp place
  refine ⟨(queues traffic).take k,List.length_take_of_le inside.le,?_⟩
  have more := List.take_prefix (k + 1) (queues traffic)
  rwa [List.take_add_one,place] at more

theorem multicast_frame (step : TxStep hash ip6AddrIsmulticast plainTimer state event output next)
    (handed : output = .handed .multicast packet receiver) : ∃ frame, receiver = .sendData frame := by
  cases step with
  | transmit =>
    rename_i mem garbage buffer _ _
    rcases @transmit_cases ip6AddrIsmulticast _ plainTimer mem garbage buffer state with
      refused | ⟨_,_,dstMac,multicast | unicast⟩
    · rw [refused] at handed
      cases handed
    · rw [multicast] at handed
      cases handed
    · rw [unicast] at handed
      cases handed
  | sendUnicast ran =>
    obtain ⟨_,sent,same⟩ := Option.map_eq_some_iff.mp ran
    obtain ⟨_,_,waits | ⟨_,_,other⟩⟩ := sendNext_state sent
    · cases same
      cases waits.symm.trans handed
    · cases same
      cases other.symm.trans handed
  | sendMulticast ran =>
    obtain ⟨_,sent,same⟩ := Option.map_eq_some_iff.mp ran
    obtain ⟨_,_,waits | ⟨_,frame,other⟩⟩ := sendQueued_state sent
    · cases same
      cases waits.symm.trans handed
    · cases same
      cases other.symm.trans handed
      exact ⟨frame,rfl⟩
  | elsewhere => cases handed

theorem service_frame (step : ServiceStep hash ip6AddrIsmulticast width base drift late kept s event output t) :
    ∀ packet receiver, output = .handed .multicast packet receiver → ∃ frame, receiver = .sendData frame := by
  intro packet receiver handed
  cases step with
  | wait => cases handed
  | transmit ran => exact multicast_frame ran handed
  | sendUnicast _ _ ran => exact multicast_frame ran handed
  | sendMulticast _ _ ran => exact multicast_frame ran handed
  | elsewhere _ _ ran => exact multicast_frame ran handed

-- A packet of the multicast queue is sent within as many laps to the next multicast
-- window as there are packets up to it.
theorem multicast_served (scheduled : Scheduled start) (paced : Paced width base drift start.time start.daemon.awdlState)
    (room : late + 2 * drift ≤ 57344)
    (past : Runs (ServiceStep hash ip6AddrIsmulticast width base drift late fun _ => True) start before s)
    (waits : ((waiting s.daemon .multicast).map s.daemon.heap.packetAt)[k]? = some (some packet))
    (path : Runs (ServiceStep hash ip6AddrIsmulticast width base drift late fun _ => True) s after t)
    (long : s.time + (k + 1) * (10 * width + late) < t.time) :
    ∃ entry ∈ after, ∃ frame, entry.2 = .handed .multicast packet (.sendData frame) := by
  have ready := reached_ready scheduled paced past
  obtain ⟨queues,queued⟩ := ready.queued
  obtain ⟨ahead,rfl,first⟩ := waiting_place queued waits
  have known := ready.paced.windowed.known
  have reach : ∀ item ∈ ahead ++ [packet], ∀ time : Nat, ∃ target, time ≤ target ∧ target ≤ time + 10 * width ∧
      Opens hash ip6AddrIsmulticast width base drift late (fun _ => True) .multicast item target := by
    intro item _ time
    have inside : width - 61440 + drift < width := by omega
    obtain ⟨w,target,slot,begin,within,lies⟩ := multicast_reached base time inside
    exact ⟨target,begin,within,multicast_opens lies slot room⟩
  obtain ⟨entry,member,receiver,handed⟩ := served (fun _ _ _ held => held) reach ready queued first path long
  have sent := runs_entries (fun s event output next
    (step : ServiceStep hash ip6AddrIsmulticast width base drift late (fun _ => True) s event output next) =>
    service_frame step) path
  obtain ⟨frame,rfl⟩ := sent entry member packet receiver handed
  exact ⟨entry,member,frame,handed⟩

-- Two nodes after wifi_sniffer_init at time zero, one of them with a peer on its own channel.
def unacquainted : ServiceState :=
  ⟨daemonStart plainTimer (wifiSnifferStores (awdlInitState default [] ⟨2,0,0,0,0,1⟩ chanOpclass6 0)) ieee80211InitState
    ⟨fun _ => 0,0,0,0,false⟩,0,fun _ => 0⟩

def neighbour : AwdlPeer := {awdlPeerNew ⟨2,0,0,0,0,3⟩ default with sequence := awdlChanseqInitStatic chanOpclass6}

def partnered : ServiceState :=
  {unacquainted with
    daemon.awdlState := unacquainted.daemon.awdlState.setPeers
      (⟨1,some (⟨2,0,0,0,0,3⟩,neighbour) :: List.replicate 255 none⟩)}

theorem boot_steady (set : now - sync.lastUpdate = 0) (short : span < 2 ^ 32) : Steady width sync now (span : Nat) := by
  refine .inr ?_
  rw [set]
  exact ⟨by simp,by simpa using (show (span : Int) < 2 ^ 32 by exact_mod_cast short)⟩

theorem unacquainted_paced : Paced 81920 0 0 0 unacquainted.daemon.awdlState :=
  ⟨stores_windowed _ _ _ _ _,rfl,0,by decide,by decide +kernel⟩

theorem partnered_paced : Paced 81920 0 0 0 partnered.daemon.awdlState :=
  ⟨stores_windowed _ _ _ _ _,rfl,0,by decide,by decide +kernel⟩

theorem multicast_served_greeting : ∃ trace t,
    Runs (ServiceStep (fun _ => 0) groupAddr 81920 0 0 4096 fun _ => True) unacquainted trace t ∧
      ∃ entry ∈ trace, ∃ frame, entry.2 = .handed .multicast ⟨0,[0x33,0x33,0x80,0,0,0xfb] ++ toGroup⟩ (.sendData frame) := by
  let taken := awdlTransmit groupAddr plainTimer (fun _ => 0) false toGroup unacquainted.daemon
  have step : ServiceStep (fun _ => 0) groupAddr 81920 0 0 4096 (fun _ => True) unacquainted
      (.call (.transmit (fun _ => 0) false toGroup)) taken.1 (unacquainted.after unacquainted.daemon taken.2) :=
    .transmit (.transmit (by decide) (by decide))
  have scheduled : Scheduled unacquainted := ⟨⟨_,_,_,rfl⟩,fun _ => rfl⟩
  have past := Runs.cons step .nil
  obtain ⟨t,passes,time⟩ := time_passes (fun _ _ _ held => held) (reached_ready scheduled unacquainted_paced past) 210
    (boot_steady (by decide +kernel) (by decide))
  obtain ⟨trace,path⟩ := passes.path
  have waits : ((waiting (unacquainted.after unacquainted.daemon taken.2).daemon .multicast).map
      (unacquainted.after unacquainted.daemon taken.2).daemon.heap.packetAt)[0]? =
        some (some ⟨0,[0x33,0x33,0x80,0,0,0xfb] ++ toGroup⟩) := by decide +kernel
  obtain ⟨entry,member,frame,sent⟩ := multicast_served scheduled unacquainted_paced (by decide) past waits path
    (by rw [time]; decide +kernel)
  exact ⟨_,t,.cons step path,entry,List.mem_cons_of_mem _ member,frame,sent⟩

-- The packet of state->next leaves in the next window that node and peer have in common,
-- and is dropped by then if there is no such peer.
theorem unicast_served {slot : Fin awdlChanseqLength} (scheduled : Scheduled start)
    (paced : Paced width base drift start.time start.daemon.awdlState) (room : late + 2 * drift ≤ 59392)
    (past : Runs (ServiceStep hash ip6AddrIsmulticast width base drift late fun _ => True) start before s)
    (waits : ((waiting s.daemon .unicast).map s.daemon.heap.packetAt)[0]? = some (some packet))
    (shares : Shares hash packet slot s.daemon.awdlState)
    (path : Runs (ServiceStep hash ip6AddrIsmulticast width base drift late (Shares hash packet slot)) s after t)
    (long : s.time + (16 * width + late) < t.time) :
    ∃ entry ∈ after, ∃ receiver, entry.2 = .handed .unicast packet receiver := by
  have ready := (reached_ready scheduled paced past).keeping shares
  have known := ready.paced.windowed.known
  obtain ⟨queues,queued⟩ := ready.queued
  obtain ⟨ahead,none,first⟩ := waiting_place queued waits
  cases List.eq_nil_of_length_eq_zero none
  have reach : ∃ target, s.time ≤ target ∧ target ≤ s.time + 16 * width ∧
      Opens hash ip6AddrIsmulticast width base drift late (Shares hash packet slot) .unicast packet target := by
    have number : slot.val < 16 := slot.isLt
    have inside : slot.val * width + (width - 62464 + drift) < 16 * width := by
      rcases known with rfl | rfl <;> omega
    obtain ⟨target,begin,within,lies⟩ := window_reached base s.time inside
    exact ⟨target,begin,within,unicast_opens (by rw [lies]; push_cast; rfl) room⟩
  obtain ⟨_,event,receiver,_,_,_,rfl,_⟩ := first_served (fun _ _ _ held => held) reach ready queued first path long
  exact ⟨_,List.mem_append_right _ List.mem_cons_self,receiver,rfl⟩

def meeting : Fin awdlChanseqLength := ⟨7,by decide⟩

def stranger : Packet := ⟨0,[2,0,0,0,0,3] ++ toStranger⟩

theorem neighbour_shares : Shares (fun _ => 0) stranger meeting partnered.daemon.awdlState := by
  intro dst peer now read found _
  have goes : readEtherAddr stranger.bytes etherDstOffset = some ⟨2,0,0,0,0,3⟩ := by decide +kernel
  cases goes.symm.trans read
  have place : Hashmap.hashmapFind (fun _ => 0) partnered.daemon.awdlState.peers.peers ⟨2,0,0,0,0,3⟩ = some 0 := by
    decide +kernel
  have listed : awdlPeerGet (fun _ => 0) partnered.daemon.awdlState.peers.peers ⟨2,0,0,0,0,3⟩ =
      (.ok,some neighbour) := by
    unfold awdlPeerGet Hashmap.hashmapGet
    rw [place]
    rfl
  cases listed.symm.trans found
  rfl

theorem unicast_served_neighbour : ∃ trace t,
    Runs (ServiceStep (fun _ => 0) groupAddr 81920 0 0 4096 (Shares (fun _ => 0) stranger meeting)) partnered trace t ∧
      ∃ entry ∈ trace, ∃ receiver, entry.2 = .handed .unicast stranger receiver := by
  let taken := awdlTransmit groupAddr plainTimer (fun _ => 0) false toStranger partnered.daemon
  have step : ∀ kept, ServiceStep (fun _ => 0) groupAddr 81920 0 0 4096 kept partnered
      (.call (.transmit (fun _ => 0) false toStranger)) taken.1 (partnered.after partnered.daemon taken.2) :=
    fun _ => .transmit (.transmit (by decide) (by decide))
  have scheduled : Scheduled partnered := ⟨⟨_,_,_,rfl⟩,fun _ => rfl⟩
  have past := Runs.cons (step fun _ => True) .nil
  have shares : Shares (fun _ => 0) stranger meeting (partnered.after partnered.daemon taken.2).daemon.awdlState :=
    neighbour_shares
  have ready := (reached_ready scheduled partnered_paced past).keeping shares
  obtain ⟨t,passes,time⟩ := time_passes (fun _ _ _ held => held) ready 330 (boot_steady (by decide +kernel) (by decide))
  obtain ⟨trace,path⟩ := passes.path
  have waits : ((waiting (partnered.after partnered.daemon taken.2).daemon .unicast).map
      (partnered.after partnered.daemon taken.2).daemon.heap.packetAt)[0]? = some (some stranger) := by decide +kernel
  obtain ⟨entry,member,receiver,left⟩ := unicast_served scheduled partnered_paced (by decide) past waits shares path
    (by rw [time]; decide +kernel)
  exact ⟨_,t,.cons (step _) path,entry,List.mem_cons_of_mem _ member,receiver,left⟩

end Services

end EspOwl.Service
