import EspOwl.Addressing
import EspOwl.SenderRecords

namespace EspOwl.FrameEffect
open PeerMap Dispatch NodeHistory SenderRecords Addressing

variable {hash : EtherAddr → UInt64}

-- What the address filter stops changes nothing at all.
theorem stopped_unchanged (stopped : frameSource rxCtrlLen frame = state.selfAddress ∨
      (frameDestination rxCtrlLen frame).isGroup = false ∧ frameDestination rxCtrlLen frame ≠ state.selfAddress)
    (ran : awdlRx hash env rxCtrlLen frame now state = some run) : run.state = state := by
  rw [rx_follows] at ran
  rcases route_cases rxCtrlLen state.selfAddress frame with ⟨result,dropped⟩ | ⟨other,own,_⟩
  · rw [dropped] at ran
    cases ran
    rfl
  · rcases stopped with from_self | ⟨single,away⟩
    · exact absurd from_self other
    · rcases own with group | here
      · rw [single] at group; cases group
      · exact absurd here away

-- What one frame may write: the record of its source, the counters and, as an action
-- frame of the sync master, the synchronisation.
structure Confined (hash : EtherAddr → UInt64) (rxCtrlLen : Nat) (frame : Buf) (f : Peers) (state after : AwdlState) :
    Prop where
  election : after.election = state.election
  channel : after.channel = state.channel
  self : after.selfAddress = state.selfAddress
  name : after.name = state.name
  sequenceNumber : after.sequenceNumber = state.sequenceNumber
  records : ∃ g, Refines hash after.peers.peers g ∧ ∀ addr, addr ≠ frameSource rxCtrlLen frame → g addr = f addr
  sync : after.sync ≠ state.sync →
    frameSource rxCtrlLen frame = state.election.syncAddr ∧ IsActionFrame rxCtrlLen frame
  stopped : frameSource rxCtrlLen frame = state.selfAddress ∨
    (frameDestination rxCtrlLen frame).isGroup = false ∧ frameDestination rxCtrlLen frame ≠ state.selfAddress →
      after = state

-- Every table that a node can have is one that refines a map: reached_unlisted.
theorem frame_confined (refines : Refines hash state.peers.peers f) (supply : env.callocs = [])
    (ran : awdlRx hash env rxCtrlLen frame now state = some run) :
    Confined hash rxCtrlLen frame f state run.state := by
  have stopped := fun held => stopped_unchanged held ran
  rcases rx_cases ran with ⟨stats,left⟩ | ⟨rssi,body,way,acted⟩
  · rw [left] at stopped ⊢
    exact ⟨rfl,rfl,rfl,rfl,rfl,⟨f,refines,fun _ _ => rfl⟩,fun changed => absurd rfl changed,stopped⟩
  · obtain ⟨_,_,action⟩ := route_action way
    obtain ⟨⟨g,rewritten⟩,sync,stats,left,unsynced⟩ := action_confined refines acted
    have records : ∃ g, Refines hash run.state.peers.peers g ∧
        ∀ addr, addr ≠ frameSource rxCtrlLen frame → g addr = f addr := ⟨g,rewritten.refines,rewritten.kept supply⟩
    rw [left] at records stopped ⊢
    refine ⟨rfl,rfl,rfl,rfl,rfl,records,?_,stopped⟩
    intro changed
    refine ⟨?_,action⟩
    by_contra foreign
    exact changed (unsynced (Ne.symm foreign))

-- A second greeting of the neighbour.
theorem frame_confined_again : ∃ f run, Refines (fun _ => 0) greeted.peers.peers f ∧
    awdlRx (fun _ => 0) roomy 24 greeting 7 greeted = some run ∧
      Confined (fun _ => 0) 24 greeting f greeted run.state := by
  obtain ⟨_,reached⟩ := greeted_reached
  obtain ⟨_,f,refines,_⟩ := reached_unlisted reached
  have returns : (awdlRx (fun _ => 0) roomy 24 greeting 7 greeted).isSome := by decide +kernel
  obtain ⟨run,ran⟩ := Option.isSome_iff_exists.mp returns
  exact ⟨f,run,refines,ran,frame_confined refines rfl ran⟩

end EspOwl.FrameEffect
