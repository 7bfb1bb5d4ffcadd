import EspOwl.Delivery

namespace EspOwl.ReceivedPackets
open DataFrames Subframes Dispatch Delivery

-- What awdl_receive_frame does with the outputs of awdl_rx, each of them by its place
-- in data_arr.
structure Reception where
  state : AwdlState
  received : List (List UInt8)
  freed : List Nat

def reception (netif : Bool) (run : RxRun) : Reception :=
  match run.out with
  | [] => ⟨run.state,[],[]⟩
  | first :: _ => if netif then ⟨run.state,[(AwdlPacket.ofBytes first).payload],[0]⟩ else ⟨run.state,[],[]⟩

variable {hash : EtherAddr → UInt64}

theorem receiveFrame_reception (env : Ambient) (rxCtrlLen : Nat) (netif : Bool) (buf : Buf) (now : UInt64)
    (state : AwdlState) : awdlReceiveFrame hash env rxCtrlLen netif buf now state =
      ((awdlRx hash env rxCtrlLen buf now state).map (reception netif)).map fun r => (r.state,r.received) := by
  unfold awdlReceiveFrame
  cases awdlRx hash env rxCtrlLen buf now state with
  | none => rfl
  | some run =>
    obtain ⟨result,left,out,calls,called⟩ := run
    cases out with
    | nil => rfl
    | cons first rest => cases netif <;> rfl

-- One packet for each output, and every output freed once.
structure AllHandled (out : List Buf) (r : Reception) : Prop where
  received : r.received = out.map fun buf => (AwdlPacket.ofBytes buf).payload
  freed : ∀ i, r.freed.count i = if i < out.length then 1 else 0

def EveryPacketHandled (hash : EtherAddr → UInt64) (env : Ambient) (rxCtrlLen : Nat) (frame : Buf) (now : UInt64)
    (state : AwdlState) : Prop :=
  ∀ run, awdlRx hash env rxCtrlLen frame now state = some run → run.out.length ≤ maxNumAmpdu →
    awdlReceiveFrame hash env rxCtrlLen true frame now state =
        some ((reception true run).state,(reception true run).received) ∧
      AllHandled run.out (reception true run)

theorem received_run (ran : awdlRx hash env rxCtrlLen frame now state = some run) :
    awdlReceiveFrame hash env rxCtrlLen true frame now state =
      some ((reception true run).state,(reception true run).received) := by
  rw [receiveFrame_reception,ran]
  rfl

theorem allHandled_iff (run : RxRun) : AllHandled run.out (reception true run) ↔ run.out.length ≤ 1 := by
  obtain ⟨result,left,out,calls,called⟩ := run
  match out with
  | [] => exact iff_of_true ⟨rfl,fun _ => rfl⟩ (Nat.zero_le _)
  | [first] =>
    refine iff_of_true ⟨rfl,fun i => ?_⟩ (Nat.le_refl _)
    cases i with
    | zero => rfl
    | succ i => simp [reception]
  | first :: second :: rest =>
    refine iff_of_false ?_ (by simp)
    rintro ⟨received,_⟩
    have lengths := congrArg List.length received
    simp [reception] at lengths

-- Where there can be more than one output.
theorem out_length (ran : awdlRx hash env rxCtrlLen frame now state = some run) :
    run.out.length ≤ 1 ∨ ∃ body, route rxCtrlLen state.selfAddress frame = .amsdu body ∧
      run.out.length = (passed (knownPeer hash state) (subframes body)).length := by
  rw [rx_follows] at ran
  cases way : route rxCtrlLen state.selfAddress frame with
  | drop result =>
    rw [way] at ran
    cases ran
    exact .inl (Nat.zero_le _)
  | action rssi src body =>
    rw [way] at ran
    rw [action_out ran]
    exact .inl (Nat.zero_le _)
  | data src dst body =>
    rw [way] at ran
    cases ran
    change (awdlRxData hash (env.bufMem 0) body src dst state).2.1.length ≤ 1 ∨ _
    rw [data_out]
    split
    · exact .inl (Nat.le_refl _)
    · exact .inl (Nat.zero_le _)
  | amsdu body =>
    rw [way] at ran
    cases ran
    exact .inr ⟨body,rfl,@amsdu_count hash env.bufMem 0 body state⟩

theorem every_packet_handled_iff (env : Ambient) (rxCtrlLen : Nat) (frame : Buf) (now : UInt64) (state : AwdlState) :
    EveryPacketHandled hash env rxCtrlLen frame now state ↔
      ∀ body, route rxCtrlLen state.selfAddress frame = .amsdu body →
        (passed (knownPeer hash state) (subframes body)).length ≤ maxNumAmpdu →
          (passed (knownPeer hash state) (subframes body)).length ≤ 1 := by
  unfold EveryPacketHandled
  simp only [allHandled_iff]
  constructor
  · intro handled body way few
    have count := @amsdu_count hash env.bufMem 0 body state
    have single := fun run ran few => (handled run ran few).2
    rw [rx_follows,way] at single
    rw [← count] at few ⊢
    exact single _ rfl few
  · intro single run ran few
    refine ⟨received_run ran,?_⟩
    rcases out_length ran with one | ⟨body,way,count⟩
    · exact one
    · rw [count] at few ⊢
      exact single body way few

-- Two subframes from a neighbour, of which the second is lost.
theorem second_packet_lost : ¬ ∀ (hash : EtherAddr → UInt64) (env : Ambient) (rxCtrlLen : Nat) (frame : Buf)
    (now : UInt64) (state : AwdlState), EveryPacketHandled hash env rxCtrlLen frame now state := by
  intro always
  have two : (awdlRx (fun _ => 0) quiet 24
      (radioHdr ++ (Ieee80211Hdr.mk 0x0088 0 nodeOne nodeTwo awdlBssid 0).bytes ++ le16 0x0080 ++
        (List.replicate 2 emptySubframe).flatten) 0 acquainted).map (fun run => run.out.length) = some 2 := by
    decide +kernel
  obtain ⟨run,ran,length⟩ := Option.map_eq_some_iff.mp two
  have handled := always _ _ _ _ _ _ run ran (by rw [length]; decide)
  have one := (allHandled_iff run).mp handled.2
  rw [length] at one
  exact absurd one (by decide)

end EspOwl.ReceivedPackets
