import EspOwl.Node
import EspOwl.PeerHistory
import EspOwl.SenderRecords

namespace EspOwl.NodeHistory
open Histories PartialMaps PeerMap PeerHistory Dispatch SenderRecords

variable {hash : EtherAddr → UInt64}

-- No address is new, but perhaps one. Without memory for a rehash others may be lost.
def NewAt (addr : EtherAddr) (f g : Peers) : Prop := ∀ a p, g a = some p → (∃ old, f a = some old) ∨ a = addr

theorem NewAt.absent (added : NewAt addr f g) (other : own ≠ addr) (absent : f own = none) : g own = none := by
  rw [Option.eq_none_iff_forall_ne_some]
  intro peer held
  rcases added own peer held with ⟨old,before⟩ | here
  · rw [absent] at before; cases before
  · exact other here

-- What a table may become when frames of one sender are handled.
def Grown (hash : EtherAddr → UInt64) (addr : EtherAddr) (f : Peers) (peers : AwdlPeers) : Prop :=
  ∃ g, Refines hash peers g ∧ NewAt addr f g

-- An action frame brings in nobody but its sender.
theorem action_grown (refines : Refines hash state.peers.peers f)
    (ran : awdlRxAction hash env frame rssi tsft src state = some run) :
    Grown hash src f run.state.peers.peers ∧ run.state.selfAddress = state.selfAddress := by
  obtain ⟨⟨g,rewritten⟩,_,_,left,_⟩ := action_confined refines ran
  refine ⟨⟨g,rewritten.refines,?_⟩,by rw [left]; rfl⟩
  intro addr peer held
  by_cases here : addr = src
  · exact .inr here
  · exact .inl ⟨peer,rewritten.others addr peer here held⟩

-- The invariant: a node keeps its address, and is not its own peer.
def SelfUnlisted (hash : EtherAddr → UInt64) (self : EtherAddr) (state : AwdlState) : Prop :=
  state.selfAddress = self ∧ ∃ f, Refines hash state.peers.peers f ∧ f self = none

theorem receive_keeps (unlisted : SelfUnlisted hash self state)
    (ran : awdlRx hash env rxCtrlLen frame now state = some run) : SelfUnlisted hash self run.state := by
  obtain ⟨rfl,f,refines,absent⟩ := unlisted
  rcases rx_cases ran with ⟨stats,left⟩ | ⟨rssi,body,way,acted⟩
  · rw [left]
    exact ⟨rfl,f,refines,absent⟩
  · obtain ⟨_,other,_⟩ := route_action way
    obtain ⟨⟨g,after,added⟩,kept⟩ := action_grown refines acted
    exact ⟨kept,g,after,added.absent (Ne.symm other) absent⟩

-- Of the node, awdl_send_data writes the next number and the statistics.
theorem sendData_writes (buf : Buf) (state : AwdlState) (ieee80211State : Ieee80211State) :
    ∃ sequenceNumber stats, (awdlSendData buf state ieee80211State).2.1 =
      {state with sequenceNumber := sequenceNumber,stats := stats} :=
  checkedRead_holds (motive := fun (sent : Option (List UInt8) × AwdlState × Ieee80211State) =>
    ∃ sequenceNumber stats, sent.2.1 = {state with sequenceNumber := sequenceNumber,stats := stats})
    ⟨_,_,rfl⟩ fun _ _ => ⟨_,_,rfl⟩

-- What a step can be: a reception, a clean-up, or one that leaves the addresses, the
-- election, the synchronisation and the peers alone.
theorem step_cases (step : NodeStep hash rxCtrlLen state event out next) :
    (∃ env frame now run, event = .receive env frame now ∧ awdlRx hash env rxCtrlLen frame now state = some run ∧
        next = run.state) ∨
      (∃ now, event = .cleanPeers now ∧ next = awdlCleanPeers now state) ∨
      ∃ sequenceNumber stats channel filterRssi, next = {state with
        sequenceNumber := sequenceNumber
        stats := stats
        channel := channel
        filterRssi := filterRssi} := by
  cases step with
  | receive ran => exact .inl ⟨_,_,_,_,rfl,ran,rfl⟩
  | cleanPeers => exact .inr (.inl ⟨_,rfl,rfl⟩)
  | sendAction => exact .inr (.inr ⟨_,_,_,_,rfl⟩)
  | @sendData _ traffic buf ieee80211State =>
    obtain ⟨sequenceNumber,stats,sent⟩ := sendData_writes buf state ieee80211State
    rw [sent]
    cases traffic <;> exact .inr (.inr ⟨_,_,_,_,rfl⟩)
  | switchChannel =>
    unfold awdlSwitchChannel
    dsimp only
    split
    · exact .inr (.inr ⟨_,_,_,_,rfl⟩)
    · exact .inr (.inr ⟨state.sequenceNumber,state.stats,state.channel,state.filterRssi,rfl⟩)
  | filterOff => exact .inr (.inr ⟨_,_,_,_,rfl⟩)

theorem step_keeps (unlisted : SelfUnlisted hash self state) (step : NodeStep hash rxCtrlLen state event out next) :
    SelfUnlisted hash self next := by
  rcases step_cases step with ⟨_,_,_,run,_,ran,rfl⟩ | ⟨now,_,rfl⟩ | ⟨_,_,_,_,rfl⟩
  · exact receive_keeps unlisted ran
  · obtain ⟨own,f,refines,absent⟩ := unlisted
    exact ⟨own,_,removeBefore_refines refines _,by rw [keepIf,absent]; rfl⟩
  · exact unlisted

theorem reached_unlisted (reached : Reached hash rxCtrlLen self trace state) : SelfUnlisted hash self state := by
  obtain ⟨start,booted,path⟩ := reached
  obtain ⟨_,_,_,_,_,_,_,rfl⟩ := booted.form
  refine runs_invariant (fun _ _ _ _ unlisted step => step_keeps unlisted step) ?_ path
  exact ⟨rfl,_,init_refines,rfl⟩

end EspOwl.NodeHistory
