import EspOwl.PeerHistory
import EspOwl.SenderRecords

namespace EspOwl.PeerStay
open Hashmap Histories PartialMaps PeerMap PeerHistory TlvLoop ActionFrames

-- The calls that insert, fill and remove records, and whatever the node does between
-- them that leaves the table alone.
inductive PeerEvent where
  | action (env : Ambient) (frame : Buf) (rssi : Int8) (tsft : UInt64) (src : EtherAddr)
  | add (addr : EtherAddr) (now : UInt64) (mem : AwdlPeer)
  | remove (addr : EtherAddr)
  | removeBefore (cutoff : UInt64)
  | elsewhere

-- What awdl_rx_action returns, and the records handed to peer_cb as they are then.
structure Report where
  result : Option RxResult
  called : List AwdlPeer

-- Every calloc is successful, and a call whose hashmap_put does not return is no step.
inductive PeerStep (hash : EtherAddr → UInt64) : AwdlState → PeerEvent → Report → AwdlState → Prop where
  | action (memory : env.callocs = []) (ran : awdlRxAction hash env frame rssi tsft src state = some run) :
      PeerStep hash state (.action env frame rssi tsft src) ⟨some run.result,run.called⟩ run.state
  | add (ran : awdlPeerAdd hash fuel [] mem state.peers.peers addr now = some run) :
      PeerStep hash state (.add addr now mem) ⟨none,run.called.toList⟩ (state.setPeers run.peers)
  | remove : PeerStep hash state (.remove addr) ⟨none,[]⟩
      (state.setPeers (awdlPeerRemove hash state.peers.peers addr).2)
  | removeBefore : PeerStep hash state (.removeBefore cutoff) ⟨none,[]⟩
      (state.setPeers (awdlPeersRemove state.peers.peers cutoff))
  | elsewhere (same : next.peers.peers = state.peers.peers) : PeerStep hash state .elsewhere ⟨none,[]⟩ next

def record (hash : EtherAddr → UInt64) (addr : EtherAddr) (state : AwdlState) : Option AwdlPeer :=
  (awdlPeerGet hash state.peers.peers addr).2

def valid (hash : EtherAddr → UInt64) (addr : EtherAddr) (state : AwdlState) : Bool :=
  (record hash addr state).any AwdlPeer.isValid

-- A step of a stay: the address is in the table after it. A stay begins where it is not.
def Staying (hash : EtherAddr → UInt64) (addr : EtherAddr) (state : AwdlState) (event : PeerEvent) (report : Report)
    (next : AwdlState) : Prop :=
  PeerStep hash state event report next ∧ (record hash addr next).isSome = true

def callsOf (addr : EtherAddr) (called : List AwdlPeer) : List AwdlPeer :=
  called.filter fun peer => decide (peer.addr = addr)

def callsFor (addr : EtherAddr) (trace : List (PeerEvent × Report)) : List AwdlPeer :=
  callsOf addr (trace.flatMap fun entry => entry.2.called)

-- A MIF from this address, parsed to its end.
def MifParsed (addr : EtherAddr) (entry : PeerEvent × Report) : Prop :=
  match entry.1 with
  | .action _ frame _ _ src => src = addr ∧ awdlParseActionHdr frame = some .mif ∧ entry.2.result = some .ok
  | _ => False

-- is_valid inside a call: behind the first addition, and behind the last TLV handled.
def passages (hash : EtherAddr → UInt64) (addr : EtherAddr) (state : AwdlState) : PeerEvent → List Bool
  | .action env frame rssi tsft src =>
    match admission hash env frame rssi tsft src state with
    | .entered entry =>
      if src = addr then
        [entry.peer.isValid,(awdlRxTlvs env.chanMem tsft ((bufStrip frame AwdlAction.size).getD frame) entry.peer
          (counted state entry.added)).src.isValid]
      else []
    | .dropped _ => []
  | _ => []

def validities (hash : EtherAddr → UInt64) (addr : EtherAddr) (state : AwdlState) (event : PeerEvent)
    (next : AwdlState) : List Bool :=
  valid hash addr state :: (passages hash addr state event ++ [valid hash addr next])

variable {hash : EtherAddr → UInt64} {f g m : Peers} {heard : Prop}

def validIn (f : Peers) (addr : EtherAddr) : Bool := (f addr).any AwdlPeer.isValid

-- What every piece of a stay does to the record: it is reported when it turns valid,
-- then with all that makes it so, and is marked only when a MIF was heard.
structure Kept (addr : EtherAddr) (f : Peers) (called : List AwdlPeer) (heard : Prop) (g : Peers) : Prop where
  due : ∀ peer ∈ called, awdlPeerIsValid peer = true
  told : (callsOf addr called).length + (validIn f addr).toNat = (validIn g addr).toNat
  marked : ∀ peer, g addr = some peer → peer.sentMif = true →
    heard ∨ ∃ old, f addr = some old ∧ old.sentMif = true

theorem Kept.refl (addr : EtherAddr) (f : Peers) : Kept addr f [] heard f :=
  ⟨List.forall_mem_nil _,Nat.zero_add _,fun peer held marked => .inr ⟨peer,held,marked⟩⟩

theorem Kept.mono (kept : Kept addr f called heard g) (more : heard → other) : Kept addr f called other g :=
  ⟨kept.due,kept.told,fun peer held marked => (kept.marked peer held marked).imp_left more⟩

theorem Kept.trans (first : Kept addr f called heard m) (second : Kept addr m later heard g) :
    Kept addr f (called ++ later) heard g := by
  refine ⟨List.forall_mem_append.mpr ⟨first.due,second.due⟩,?_,?_⟩
  · have before := first.told
    have after := second.told
    rw [callsOf,List.filter_append,List.length_append,← callsOf,← callsOf]
    omega
  · intro peer bound marked
    rcases second.marked peer bound marked with new | ⟨old,was,before⟩
    · exact .inl new
    · exact first.marked old was before

theorem Kept.rises (kept : Kept addr f called heard g) (before : validIn f addr = true) : validIn g addr = true := by
  have told := kept.told
  rw [before] at told
  cases after : validIn g addr with
  | true => rfl
  | false => rw [after] at told; simp at told

theorem kept_put (own : ∀ p ∈ called, p.addr = src) (due : ∀ p ∈ called, awdlPeerIsValid p = true)
    (told : called.length + (validIn f src).toNat = peer.isValid.toNat)
    (marked : peer.sentMif = true → heard ∨ ∃ old, f src = some old ∧ old.sentMif = true) (addr : EtherAddr) :
    Kept addr f called (src = addr ∧ heard) (put f src peer) := by
  by_cases here : src = addr
  · subst here
    have all : callsOf src called = called := List.filter_eq_self.mpr fun p member => decide_eq_true (own p member)
    have bound : put f src peer src = some peer := put_self ..
    refine ⟨due,?_,?_⟩
    · rw [all,told,validIn,bound,Option.any_some]
    · intro p held sent
      rw [bound] at held
      cases held
      exact (marked sent).imp_left fun was => ⟨rfl,was⟩
  · have nothing : callsOf addr called = [] :=
      List.filter_eq_nil_iff.mpr fun p member => by rw [own p member]; simpa using here
    have bound : put f src peer addr = f addr := put_other f peer (Ne.symm here)
    refine ⟨due,?_,?_⟩
    · rw [nothing,validIn,validIn,bound]
      exact Nat.zero_add _
    · intro p held sent
      rw [bound] at held
      exact .inr ⟨p,held,sent⟩

-- The record that an addition hands to peer_cb.
def turning (now : UInt64) (peer : AwdlPeer) : Option AwdlPeer :=
  if !peer.isValid && awdlPeerIsValid peer then some (touch now peer) else none

theorem turning_told (now : UInt64) (peer : AwdlPeer) :
    (turning now peer).toList.length + peer.isValid.toNat = (touch now peer).isValid.toNat := by
  rw [touch_isValid,turning]
  cases peer.isValid <;> cases awdlPeerIsValid peer <;> rfl

theorem turning_valid (turned : turning now peer = some p) : p.addr = peer.addr ∧ awdlPeerIsValid p = true := by
  unfold turning at turned
  split at turned
  · rename_i turns
    cases turned
    rw [Bool.and_eq_true] at turns
    have same : touch now peer = {peer with lastUpdate := now,isValid := true} := by
      unfold touch
      exact if_pos (Bool.and_eq_true _ _ ▸ turns)
    rw [same]
    exact ⟨rfl,turns.2⟩
  · cases turned

theorem addOut_called : (awdlPeerAddOut hash status peers addr {peer with lastUpdate := now} callocs).called =
    turning now peer := by
  unfold awdlPeerAddOut turning touch
  dsimp only
  have stamped : awdlPeerIsValid {peer with lastUpdate := now} = awdlPeerIsValid peer := rfl
  rw [stamped]
  split <;> rfl

theorem added_called (refines : Refines hash peers f)
    (ran : awdlPeerAdd hash fuel callocs mem peers addr now = some run) :
    run.called = (f addr).bind (turning now) := by
  cases bound : f addr with
  | some peer =>
    rw [add_found (refines.get_some bound)] at ran
    cases ran
    exact addOut_called
  | none =>
    obtain ⟨inserted,_,⟨_,rfl⟩ | ⟨_,rfl⟩⟩ := add_absent (refines.listed.absent.mp bound) ran
    · rw [addOut_called]
      rfl
    · rfl

theorem add_kept (refines : Refines hash peers f)
    (ran : awdlPeerAdd hash fuel [] mem peers src now = some run) :
    ∃ g, Refines hash run.peers g ∧ g src ≠ none ∧ ∀ addr, Kept addr f run.called.toList False g := by
  have called : ∀ p ∈ run.called.toList, p.addr = src ∧ awdlPeerIsValid p = true := by
    intro p member
    rw [added_called refines ran,Option.mem_toList,Option.bind_eq_some_iff] at member
    obtain ⟨peer,bound,turned⟩ := member
    obtain ⟨same,due⟩ := turning_valid turned
    exact ⟨same.trans (refines.keyed src peer bound),due⟩
  have made : ∀ peer, Refines hash run.peers (put f src peer) →
      run.called.toList.length + (validIn f src).toNat = peer.isValid.toNat →
      (peer.sentMif = true → ∃ old, f src = some old ∧ old.sentMif = true) →
      ∃ g, Refines hash run.peers g ∧ g src ≠ none ∧ ∀ addr, Kept addr f run.called.toList False g := by
    intro peer after told marked
    refine ⟨_,after,put_held f src peer,fun addr => ?_⟩
    exact (kept_put (fun p member => (called p member).1) (fun p member => (called p member).2) told
      (fun sent => .inr (marked sent)) addr).mono And.right
  have reported := added_called refines ran
  cases refines.added ran with
  | fresh absent status after =>
    refine made _ after ?_ ?_
    · rw [reported,validIn,absent]
      rfl
    · intro sent
      cases sent
  | @known peer found status kept after =>
    refine made _ after ?_ ?_
    · rw [reported,validIn,found]
      exact turning_told now peer
    · intro sent
      refine ⟨peer,found,?_⟩
      rwa [touch_sentMif] at sent
  | lost absent status scarce => exact absurd rfl scarce

-- A record written back as it was, but for the mark of a MIF and what the TLVs fill in.
theorem store_kept (refines : Refines hash peers f) (bound : f src = some old) (own : peer.addr = src)
    (kept : peer.isValid = old.isValid) (marked : peer.sentMif = true → heard ∨ old.sentMif = true) :
    Refines hash (awdlPeerStore hash peers src peer) (put f src peer) ∧
      ∀ addr, Kept addr f [] (src = addr ∧ heard) (put f src peer) := by
  refine ⟨refines.store bound peer own,kept_put (List.forall_mem_nil _) (List.forall_mem_nil _) ?_ ?_⟩
  · rw [validIn,bound,Option.any_some,kept]
    exact Nat.zero_add _
  · exact fun sent => (marked sent).imp_right fun was => ⟨old,bound,was⟩

theorem end_kept (refines : Refines hash loop.state.peers.peers f) (bound : f src = some old)
    (own : loop.src.addr = src) (kept : loop.src.isValid = old.isValid) (marked : loop.src.sentMif = old.sentMif)
    (ran : awdlRxActionEnd hash env [] tsft src subtype loop called = some run) :
    ∃ g later, Refines hash run.state.peers.peers g ∧ g src ≠ none ∧ run.called = called ++ later ∧
      ∀ addr, Kept addr f later (src = addr ∧ subtype = .mif ∧ run.result = .ok) g := by
  have unmarked : loop.src.sentMif = true → False ∨ old.sentMif = true := fun sent => .inr (marked ▸ sent)
  obtain ⟨written,first⟩ := store_kept refines bound own kept unmarked
  have stored : put f src loop.src src = some loop.src := put_self ..
  rcases end_runs ran with ⟨_,rfl⟩ | ⟨_,again,inserted,rfl⟩
  · refine ⟨_,[],written,put_held _ _ _,(List.append_nil _).symm,fun addr => ?_⟩
    exact (first addr).mono fun never => never.2.elim
  · let named := if subtype = .mif then {loop.src with sentMif := true} else loop.src
    have fields : named.addr = src ∧ named.isValid = loop.src.isValid ∧
        (named.sentMif = true → subtype = .mif ∨ loop.src.sentMif = true) := by
      unfold named
      split
      · rename_i mif
        exact ⟨own,rfl,fun _ => .inl mif⟩
      · exact ⟨own,rfl,.inr⟩
    obtain ⟨rewritten,second⟩ := store_kept written stored fields.1 fields.2.1 fields.2.2
    obtain ⟨g,after,present,third⟩ := add_kept rewritten inserted
    refine ⟨g,again.called.toList,after,present,rfl,fun addr => ?_⟩
    have parsed : Kept addr f [] (src = addr ∧ subtype = .mif ∧ RxResult.ok = .ok) _ :=
      ((first addr).mono fun never => never.2.elim).trans ((second addr).mono fun heard => ⟨heard.1,heard.2,rfl⟩)
    exact parsed.trans ((third addr).mono False.elim)

-- The first half of a frame that enters the loop, and the second half.
theorem entered_kept (refines : Refines hash state.peers.peers f) (memory : env.callocs = [])
    (start : admission hash env frame rssi tsft src state = .entered entry) :
    ∃ m, Refines hash entry.added.peers m ∧ m src = some entry.peer ∧ entry.added.callocs = [] ∧
      ∀ addr, Kept addr f entry.added.called.toList False m := by
  obtain ⟨_,inserted,got⟩ := entered_added start
  rw [memory] at inserted
  obtain ⟨m,after,_,kept⟩ := add_kept refines inserted
  exact ⟨m,after,after.bound got,refines.added_supplied inserted,kept⟩

theorem loop_kept {entry : Entry} (refines : Refines hash entry.added.peers m) (bound : m src = some entry.peer)
    (memory : entry.added.callocs = [])
    (ran : awdlRxActionEnd hash env entry.added.callocs tsft src entry.subtype
      (awdlRxTlvs env.chanMem tsft frame entry.peer (counted state entry.added)) called = some run) :
    ∃ g later, Refines hash run.state.peers.peers g ∧ g src ≠ none ∧ run.called = called ++ later ∧
      ∀ addr, Kept addr m later (src = addr ∧ entry.subtype = .mif ∧ run.result = .ok) g := by
  have through := tlvs_footprint env.chanMem tsft frame entry.peer (counted state entry.added)
  have marked := tlvs_sentMif env.chanMem tsft frame entry.peer (counted state entry.added)
  obtain ⟨sync,same⟩ := through.sync
  rw [memory] at ran
  exact end_kept (by rw [same]; exact refines) bound (through.addr.trans (refines.keyed src _ bound)) through.valid
    marked ran

theorem action_kept (refines : Refines hash state.peers.peers f) (memory : env.callocs = [])
    (ran : awdlRxAction hash env frame rssi tsft src state = some run) :
    ∃ g, Refines hash run.state.peers.peers g ∧ ∀ addr,
      Kept addr f run.called (src = addr ∧ awdlParseActionHdr frame = some .mif ∧ some run.result = some .ok) g := by
  rcases admission_cases env frame rssi tsft src state with ⟨_,ends⟩ | ⟨_,ends⟩ |
    ⟨_,added,inserted,ends | ⟨subtype,peer,_,ends⟩⟩
  · rw [action_dropped ends] at ran
    cases ran
    exact ⟨f,refines,fun addr => Kept.refl addr f⟩
  · rw [action_dropped ends] at ran
    cases ran
  · rw [action_dropped ends] at ran
    cases ran
    rw [memory] at inserted
    obtain ⟨g,after,_,kept⟩ := add_kept refines inserted
    exact ⟨g,after,fun addr => (kept addr).mono False.elim⟩
  · obtain ⟨m,entering,bound,supplied,first⟩ := entered_kept refines memory ends
    rw [action_entered ends] at ran
    obtain ⟨g,later,after,_,called,second⟩ := loop_kept entering bound supplied ran
    refine ⟨g,after,fun addr => ?_⟩
    rw [called]
    refine ((first addr).mono False.elim).trans ((second addr).mono ?_)
    rintro ⟨here,mif,ok⟩
    exact ⟨here,mif ▸ entered_subtype ends,congrArg some ok⟩

-- A removal leaves the records that it does not remove.
theorem kept_rest (part : ∀ peer, g addr = some peer → f addr = some peer) (present : g addr ≠ none) :
    Kept addr f [] heard g := by
  obtain ⟨peer,bound⟩ := Option.ne_none_iff_exists'.mp present
  have same : g addr = f addr := bound.trans (part peer bound).symm
  refine ⟨List.forall_mem_nil _,?_,fun old held sent => .inr ⟨old,same ▸ held,sent⟩⟩
  rw [validIn,validIn,same]
  exact Nat.zero_add _

theorem step_kept (refines : Refines hash state.peers.peers f) (step : PeerStep hash state event report next) :
    ∃ g, Refines hash next.peers.peers g ∧
      ∀ addr, g addr ≠ none → Kept addr f report.called (MifParsed addr (event,report)) g := by
  cases step with
  | action memory ran =>
    obtain ⟨g,after,kept⟩ := action_kept refines memory ran
    exact ⟨g,after,fun addr _ => kept addr⟩
  | add ran =>
    obtain ⟨g,after,_,kept⟩ := add_kept refines ran
    exact ⟨g,after,fun addr _ => (kept addr).mono False.elim⟩
  | @remove _ gone =>
    exact ⟨_,(refines.remove gone).2,fun addr => kept_rest fun peer held => (erase_some held).2⟩
  | removeBefore =>
    refine ⟨_,removeBefore_refines refines _,fun addr => kept_rest fun peer held => ?_⟩
    exact (Option.filter_eq_some_iff.mp held).1
  | elsewhere same => exact ⟨f,by rw [same]; exact refines,fun addr _ => Kept.refl addr f⟩

theorem record_refines (refines : Refines hash state.peers.peers f) : record hash addr state = f addr := refines.get_snd

theorem valid_refines (refines : Refines hash state.peers.peers f) : valid hash addr state = validIn f addr := by
  rw [valid,record_refines refines,validIn]

theorem staying_kept (refines : Refines hash state.peers.peers f) (step : Staying hash addr state event report next) :
    ∃ g, Refines hash next.peers.peers g ∧ Kept addr f report.called (MifParsed addr (event,report)) g := by
  obtain ⟨taken,present⟩ := step
  obtain ⟨g,after,kept⟩ := step_kept refines taken
  rw [record_refines after] at present
  exact ⟨g,after,kept addr (Option.isSome_iff_ne_none.mp present)⟩

theorem stay_kept (refines : Refines hash start.peers.peers f) (stay : Runs (Staying hash addr) start trace state) :
    ∃ g, Refines hash state.peers.peers g ∧
      Kept addr f (trace.flatMap fun entry => entry.2.called) (∃ entry ∈ trace, MifParsed addr entry) g := by
  induction stay generalizing f with
  | nil => exact ⟨f,refines,Kept.refl addr f⟩
  | cons head _ ih =>
    obtain ⟨m,middle,first⟩ := staying_kept refines head
    obtain ⟨g,after,second⟩ := ih middle
    refine ⟨g,after,?_⟩
    refine (first.mono fun parsed => ⟨_,List.mem_cons_self,parsed⟩).trans (second.mono ?_)
    rintro ⟨entry,member,parsed⟩
    exact ⟨entry,List.mem_cons_of_mem _ member,parsed⟩

theorem run_refines (path : Runs (PeerStep hash) (awdlInitState mem hostname self chan boot) history state) :
    ∃ f, Refines hash state.peers.peers f := by
  refine runs_invariant (motive := fun state => ∃ f, Refines hash state.peers.peers f) ?_ ⟨_,init_refines⟩ path
  rintro state event report next ⟨f,refines⟩ step
  obtain ⟨g,after,_⟩ := step_kept refines step
  exact ⟨g,after⟩

-- Inside a call, too, a valid record stays valid.
theorem never_falls (refines : Refines hash state.peers.peers f) (step : Staying hash addr state event report next) :
    (validities hash addr state event next).IsChain fun earlier later => earlier = true → later = true := by
  obtain ⟨g,after,whole⟩ := staying_kept refines step
  rw [validities,valid_refines refines,valid_refines after]
  have nothing : passages hash addr state event = [] →
      (validIn f addr :: (passages hash addr state event ++ [validIn g addr])).IsChain
        fun earlier later => earlier = true → later = true := by
    intro none
    rw [none,List.nil_append,List.isChain_pair]
    exact whole.rises
  obtain ⟨taken,_⟩ := step
  cases taken with
  | @action env frame rssi tsft src _ run memory ran =>
    cases start : admission hash env frame rssi tsft src state with
    | dropped => exact nothing (by rw [passages,start])
    | entered entry =>
      by_cases here : src = addr
      · subst here
        obtain ⟨m,entering,bound,supplied,first⟩ := entered_kept refines memory start
        rw [action_entered start] at ran
        obtain ⟨h,later,left,_,_,second⟩ := loop_kept entering bound supplied ran
        obtain rfl := left.unique after
        have inside : validIn m src = entry.peer.isValid := by rw [validIn,bound,Option.any_some]
        have through := tlvs_footprint env.chanMem tsft ((bufStrip frame AwdlAction.size).getD frame) entry.peer
          (counted state entry.added)
        rw [passages,start]
        dsimp only
        rw [if_pos rfl,through.valid,← inside]
        simp only [List.cons_append,List.nil_append,List.isChain_cons_cons,List.isChain_singleton,and_true]
        exact ⟨(first src).rises,id,(second src).rises⟩
      · refine nothing ?_
        rw [passages,start]
        exact if_neg here
  | add => exact nothing rfl
  | remove => exact nothing rfl
  | removeBefore => exact nothing rfl
  | elsewhere => exact nothing rfl

-- In a stay peer_cb is called for the address at most once, when is_valid turns 1 and
-- with all three conditions met; is_valid stays 1, and the mark of a MIF is earned.
theorem discovered_once (earlier : Runs (PeerStep hash) (awdlInitState mem hostname self chan boot) history start)
    (absent : record hash addr start = none) (stay : Runs (Staying hash addr) start trace state)
    (step : Staying hash addr state event report next) :
    (callsFor addr (trace ++ [(event,report)])).length ≤ 1 ∧
      (callsFor addr [(event,report)]).length =
        (if valid hash addr state = false ∧ valid hash addr next = true then 1 else 0) ∧
      (∀ peer ∈ callsFor addr [(event,report)], peer.sentMif = true ∧ peer.version ≠ 0 ∧ peer.devclass ≠ 0) ∧
      ((validities hash addr state event next).IsChain fun earlier later => earlier = true → later = true) ∧
      ∀ peer, record hash addr next = some peer → peer.sentMif = true →
        ∃ entry ∈ trace ++ [(event,report)], MifParsed addr entry := by
  obtain ⟨f,begun⟩ := run_refines earlier
  rw [record_refines begun] at absent
  obtain ⟨m,middle,before⟩ := stay_kept begun stay
  obtain ⟨g,after,last⟩ := staying_kept middle step
  have whole : Kept addr f ((trace ++ [(event,report)]).flatMap fun entry => entry.2.called)
      (∃ entry ∈ trace ++ [(event,report)], MifParsed addr entry) g := by
    rw [List.flatMap_append,List.flatMap_singleton]
    refine (before.mono ?_).trans (last.mono fun parsed => ⟨_,by simp,parsed⟩)
    rintro ⟨entry,member,parsed⟩
    exact ⟨entry,List.mem_append_left _ member,parsed⟩
  have single : callsFor addr [(event,report)] = callsOf addr report.called := by
    rw [callsFor,List.flatMap_singleton]
  rw [single,valid_refines middle,valid_refines after]
  refine ⟨?_,?_,?_,never_falls middle step,?_⟩
  · have told := whole.told
    have most := (validIn g addr).toNat_le
    rw [callsFor]
    omega
  · have told := last.told
    cases was : validIn m addr <;> cases now : validIn g addr <;> rw [was,now] at told <;> simp at told ⊢ <;> exact told
  · intro peer member
    have due := last.due peer (List.mem_filter.mp member).1
    simp only [awdlPeerIsValid,Bool.and_eq_true,bne_iff_ne] at due
    exact ⟨due.1.1,due.2,due.1.2⟩
  · intro peer held sent
    rw [record_refines after] at held
    rcases whole.marked peer held sent with parsed | ⟨old,was,_⟩
    · exact parsed
    · rw [absent] at was
      cases was

-- A MIF with a Version TLV brings its sender into an empty table and makes it valid.
def firstMif : Buf := [127,0,0x17,0xf2,8,0x10,3,0,0,0,0,0,0,0,0,0,21,2,0,0x34,1]

def station : EtherAddr := ⟨2,0,0,0,0,1⟩

def node : AwdlState := awdlInitState default [] ⟨2,0,0,0,0,2⟩ chanNull 0

theorem discovered_once_mif : ∃ event report next, Staying (fun _ => 255) station node event report next ∧
    (callsFor station [(event,report)]).length = 1 ∧
    ∀ peer ∈ callsFor station [(event,report)], peer.sentMif = true ∧ peer.version ≠ 0 ∧ peer.devclass ≠ 0 := by
  let env : Ambient := ⟨1,[],default,fun _ _ => chanNull,fun _ _ => 0⟩
  have handled : ((awdlRxAction (fun _ => 255) env firstMif 0 7 station node).map fun run =>
      ((record (fun _ => 255) station run.state).isSome,valid (fun _ => 255) station run.state)) = some (true,true) := by
    decide +kernel
  obtain ⟨run,ran,seen⟩ := Option.map_eq_some_iff.mp handled
  obtain ⟨present,turned⟩ := Prod.mk.inj seen
  have empty : Refines (fun _ => 255) node.peers.peers (fun _ => none) := init_refines
  have absent : record (fun _ => 255) station node = none := record_refines empty
  have staying : Staying (fun _ => 255) station node (.action env firstMif 0 7 station) ⟨some run.result,run.called⟩
      run.state := ⟨.action rfl ran,present⟩
  obtain ⟨_,exactly,due,_⟩ := discovered_once .nil absent .nil staying
  have was : valid (fun _ => 255) station node = false := by rw [valid,absent]; rfl
  exact ⟨_,_,_,staying,exactly.trans (if_pos ⟨was,turned⟩),due⟩

end EspOwl.PeerStay
