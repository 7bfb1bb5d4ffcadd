import EspOwl.ActionFrames
import EspOwl.Dispatch

namespace EspOwl.SenderRecords
open Hashmap PartialMaps PeerMap TlvLoop ActionFrames Dispatch

-- What the handling of one sender's frame makes of a table: the record of the sender
-- is as wanted, the other records are the old ones, and without memory for a rehash
-- some of them may be gone.
structure Rewritten (hash : EtherAddr → UInt64) (src : EtherAddr) (supplied : Prop) (good : AwdlPeer → Prop)
    (f g : Peers) (peers : AwdlPeers) : Prop where
  refines : Refines hash peers g
  own : ∀ peer, g src = some peer → good peer
  others : ∀ addr peer, addr ≠ src → g addr = some peer → f addr = some peer
  held : g src = none → f src = none
  kept : supplied → ∀ addr, addr ≠ src → g addr = f addr

structure Respected (f : Peers) (src : EtherAddr) (mem : AwdlPeer) (now : UInt64) (good : AwdlPeer → Prop) : Prop where
  fresh : f src = none → good (touch now (awdlPeerNew src mem))
  known : ∀ peer, f src = some peer → good (touch now peer)

variable {hash : EtherAddr → UInt64} {supplied : Prop} {good wanted : AwdlPeer → Prop} {f g : Peers}

theorem rewritten_refl (refines : Refines hash peers f) (own : ∀ peer, f src = some peer → good peer) :
    Rewritten hash src supplied good f f peers :=
  ⟨refines,own,fun _ _ _ held => held,id,fun _ _ _ => rfl⟩

theorem Rewritten.put (before : Rewritten hash src supplied good f g peers) (met : wanted peer)
    (refines : Refines hash after (put g src peer)) :
    Rewritten hash src supplied wanted f (put g src peer) after := by
  refine ⟨refines,?_,?_,?_,?_⟩
  · intro held found
    rw [put_self] at found
    cases found
    exact met
  · intro addr held other found
    rw [put_other g peer other] at found
    exact before.others addr held other found
  · exact fun absent => absurd absent (put_held g src peer)
  · intro supply addr other
    rw [put_other g peer other]
    exact before.kept supply addr other

theorem Rewritten.add (before : Rewritten hash src supplied good f g peers) (respected : Respected g src mem now wanted)
    (supply : supplied → callocs = []) (ran : awdlPeerAdd hash fuel callocs mem peers src now = some run) :
    (∃ h, Rewritten hash src supplied wanted f h run.peers ∧ (g src ≠ none → h src ≠ none)) ∧
      (supplied → run.callocs = []) := by
  constructor
  · cases before.refines.added ran with
    | fresh absent status after => exact ⟨_,before.put (respected.fresh absent) after,fun _ => put_held _ _ _⟩
    | known found status kept after => exact ⟨_,before.put (respected.known _ found) after,fun _ => put_held _ _ _⟩
    | lost absent status scarce after part =>
      refine ⟨_,⟨after,?_,?_,fun _ => before.held absent,fun supplied => absurd (supply supplied) scarce⟩,
        fun held => absurd absent held⟩
      · intro peer held
        rcases before.refines.added_record ran after held with ⟨other,_⟩ | ⟨_,made⟩
        · exact absurd rfl other
        · rw [made,absent]
          exact respected.fresh absent
      · intro addr peer other held
        rcases before.refines.added_record ran after held with ⟨_,old⟩ | ⟨here,_⟩
        · exact before.others addr peer other old
        · exact absurd here other
  · intro given
    rw [supply given] at ran
    exact before.refines.added_supplied ran

-- The record is written back; behind an accepted frame it is settled.
theorem end_rewritten (before : Rewritten hash src supplied good f g loop.state.peers.peers) (bound : g src = some old)
    (supply : supplied → callocs = []) (own : loop.src.addr = src) (failed : ¬ Accepted loop → wanted loop.src)
    (settled : Accepted loop → wanted (settle tsft subtype loop.src))
    (ran : awdlRxActionEnd hash env callocs tsft src subtype loop called = some run) :
    (∃ h, Rewritten hash src supplied wanted f h run.state.peers.peers ∧ h src ≠ none) ∧
      run.state = loop.state.setPeers run.state.peers.peers := by
  have written := before.refines.store bound loop.src own
  rcases end_runs ran with ⟨refused,rfl⟩ | ⟨accepted,again,inserted,rfl⟩
  · exact ⟨⟨_,before.put (failed refused) written,put_held _ _ _⟩,rfl⟩
  · let marked := if subtype = .mif then {loop.src with sentMif := true} else loop.src
    have named : marked.addr = src := by
      unfold marked
      split <;> exact own
    have held : put (put g src loop.src) src marked src = some marked := put_self ..
    have once : Rewritten hash src supplied (fun _ => True) f (put g src loop.src) _ := before.put trivial written
    have stored : Rewritten hash src supplied (fun _ => True) f (put (put g src loop.src) src marked) _ :=
      once.put trivial (written.store (put_self ..) marked named)
    have respected : Respected (put (put g src loop.src) src marked) src env.peerMem tsft wanted := by
      refine ⟨fun absent => ?_,fun peer found => ?_⟩
      · rw [held] at absent
        cases absent
      · rw [held] at found
        cases found
        exact settled accepted
    obtain ⟨⟨h,after,kept⟩,_⟩ := stored.add respected supply inserted
    exact ⟨⟨h,after,kept (put_held _ _ _)⟩,rfl⟩

-- Wishes that no stamp, no validity and no name of a MIF can undo.
theorem respected_of (fresh : f src = none → good (awdlPeerNew src mem)) (held : ∀ peer, f src = some peer → good peer)
    (touched : ∀ peer, good peer → good (touch now peer)) : Respected f src mem now good :=
  ⟨fun absent => touched _ (fresh absent),fun peer found => touched peer (held peer found)⟩

theorem settle_good (touched : ∀ peer, good peer → good (touch now peer))
    (named : ∀ peer, good peer → good {peer with sentMif := true}) (met : good peer) : good (settle now subtype peer) := by
  unfold settle
  split
  · exact touched _ (named _ met)
  · exact touched _ met

-- What the loop starts from, in the table that the first addition has left.
theorem entered_bound (start : admission hash env frame rssi tsft src state = .entered entry)
    (entering : Rewritten hash src supplied good f g entry.added.peers) : g src = some entry.peer := by
  obtain ⟨_,_,got⟩ := entered_added start
  exact entering.refines.bound got

-- A frame that enters the loop changes the record of its sender, the counters and, when
-- it comes from the sync master, the synchronisation.
theorem entered_rewritten (refines : Refines hash state.peers.peers f)
    (start : admission hash env frame rssi tsft src state = .entered entry)
    (respected : Respected f src env.peerMem tsft good)
    (loop : good entry.peer →
      let run := awdlRxTlvs env.chanMem tsft ((bufStrip frame AwdlAction.size).getD frame) entry.peer
        (counted state entry.added)
      (¬ Accepted run → wanted run.src) ∧ (Accepted run → wanted (settle tsft entry.subtype run.src)))
    (ran : awdlRxAction hash env frame rssi tsft src state = some run) :
    (∃ g, Rewritten hash src (env.callocs = []) wanted f g run.state.peers.peers ∧ g src ≠ none) ∧
      ∃ sync stats, run.state = {state with sync := sync,stats := stats}.setPeers run.state.peers.peers ∧
        (state.election.syncAddr ≠ src → sync = state.sync) := by
  obtain ⟨_,inserted,_⟩ := entered_added start
  have before : Rewritten hash src (env.callocs = []) (fun _ => True) f f state.peers.peers :=
    rewritten_refl refines fun _ _ => trivial
  obtain ⟨⟨g,entering,_⟩,supply⟩ := before.add respected id inserted
  have bound := entered_bound start entering
  have own : entry.peer.addr = src := entering.refines.keyed src _ bound
  have through := tlvs_footprint env.chanMem tsft ((bufStrip frame AwdlAction.size).getD frame) entry.peer
    (counted state entry.added)
  obtain ⟨failed,settled⟩ := loop (entering.own _ bound)
  rw [action_entered start] at ran
  obtain ⟨sync,same⟩ := through.sync
  obtain ⟨after,left⟩ := end_rewritten (by rw [same]; exact entering) bound supply (through.addr.trans own) failed settled
    ran
  refine ⟨after,sync,{state.stats with rxAction := state.stats.rxAction + 1},?_,?_⟩
  · rw [left,same]
    rfl
  · intro foreign
    have unsynced := through.unsynced (by rw [own]; exact foreign)
    rw [same] at unsynced
    exact congrArg AwdlState.sync unsynced

theorem action_rewritten (good : AwdlPeer → Prop) (refines : Refines hash state.peers.peers f)
    (held : ∀ peer, f src = some peer → good peer)
    (respected : Admitted hash frame rssi src state → Respected f src env.peerMem tsft good)
    (loop : ∀ entry, admission hash env frame rssi tsft src state = .entered entry → good entry.peer →
      let run := awdlRxTlvs env.chanMem tsft ((bufStrip frame AwdlAction.size).getD frame) entry.peer
        (counted state entry.added)
      (¬ Accepted run → good run.src) ∧ (Accepted run → good (settle tsft entry.subtype run.src)))
    (ran : awdlRxAction hash env frame rssi tsft src state = some run) :
    (∃ g, Rewritten hash src (env.callocs = []) good f g run.state.peers.peers) ∧
      ∃ sync stats, run.state = {state with sync := sync,stats := stats}.setPeers run.state.peers.peers ∧
        (state.election.syncAddr ≠ src → sync = state.sync) := by
  have before : Rewritten hash src (env.callocs = []) good f f state.peers.peers := rewritten_refl refines held
  rcases action_cases ran with left | ⟨passed,added,inserted,left⟩ | ⟨entry,start⟩
  · rw [left]
    exact ⟨⟨f,before⟩,state.sync,state.stats,rfl,fun _ => rfl⟩
  · rw [left]
    obtain ⟨⟨g,after,_⟩,_⟩ := before.add (respected passed) id inserted
    exact ⟨⟨g,after⟩,state.sync,_,rfl,fun _ => rfl⟩
  · obtain ⟨⟨g,after,_⟩,left⟩ := entered_rewritten refines start (respected (entered_added start).1) (loop entry start) ran
    exact ⟨⟨g,after⟩,left⟩

theorem action_confined (refines : Refines hash state.peers.peers f)
    (ran : awdlRxAction hash env frame rssi tsft src state = some run) :
    (∃ g, Rewritten hash src (env.callocs = []) (fun _ => True) f g run.state.peers.peers) ∧
      ∃ sync stats, run.state = {state with sync := sync,stats := stats}.setPeers run.state.peers.peers ∧
        (state.election.syncAddr ≠ src → sync = state.sync) :=
  action_rewritten _ refines (fun _ _ => trivial) (fun _ => ⟨fun _ => trivial,fun _ _ => trivial⟩)
    (fun _ _ _ => ⟨fun _ => trivial,fun _ => trivial⟩) ran

end EspOwl.SenderRecords
