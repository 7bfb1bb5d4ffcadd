import EspOwl.PeerMap

namespace EspOwl.PeerHistory
open Hashmap PartialMaps Histories SlotArrays PeerMap

-- What the body of an iteration does with the peer it stands on.
inductive Visit where
  | keep
  | itRemove
  | peerRemove
deriving DecidableEq, Repr

-- The calls a client makes. An iteration is a whole one; `choose` may depend on
-- the peers it has visited so far.
inductive Op where
  | add (addr : EtherAddr) (now : UInt64) (mem : AwdlPeer)
  | get (addr : EtherAddr)
  | remove (addr : EtherAddr)
  | removeBefore (cutoff : UInt64)
  | length
  | iterate (choose : List AwdlPeer → AwdlPeer → Visit)

inductive Answer where
  | status (status : PeersStatus)
  | found (status : PeersStatus) (peer : Option AwdlPeer)
  | done
  | count (n : Nat)
  | visited (peers : List AwdlPeer)

def visitBody (hash : EtherAddr → UInt64) (choose : List AwdlPeer → AwdlPeer → Visit)
    (it : HashmapIt) (peers : AwdlPeers) (peer : AwdlPeer) (seen : List AwdlPeer) :
    AwdlPeers × List AwdlPeer :=
  (match choose seen peer with
    | .keep => peers
    | .itRemove => (awdlPeersItRemove peers it).2
    | .peerRemove => (awdlPeerRemove hash peers peer.addr).2,seen ++ [peer])

-- Steps of the table as the code takes them, every calloc successful. An addition
-- whose hashmap_put does not return is no step.
inductive TableStep (hash : EtherAddr → UInt64) : AwdlPeers → Op → Answer → AwdlPeers → Prop where
  | add (ran : awdlPeerAdd hash fuel [] mem peers addr now = some run) :
      TableStep hash peers (.add addr now mem) (.status run.status) run.peers
  | get : TableStep hash peers (.get addr)
      (.found (awdlPeerGet hash peers addr).1 (awdlPeerGet hash peers addr).2) peers
  | remove : TableStep hash peers (.remove addr) (.status (awdlPeerRemove hash peers addr).1)
      (awdlPeerRemove hash peers addr).2
  | removeBefore : TableStep hash peers (.removeBefore cutoff) .done (awdlPeersRemove peers cutoff)
  | length : TableStep hash peers .length (.count (awdlPeersLength peers)) peers
  | iterate : TableStep hash peers (.iterate choose)
      (.visited (awdlPeersIterate (visitBody hash choose) peers []).2)
      (awdlPeersIterate (visitBody hash choose) peers []).1

-- The abstract machine: a finite map, no slots and no hash function. Only the
-- order of an iteration is left open.
inductive MapStep : Peers → Op → Answer → Peers → Prop where
  | addFresh (absent : f addr = none) :
      MapStep f (.add addr now mem) (.status .ok) (put f addr (touch now (awdlPeerNew addr mem)))
  | addKnown (found : f addr = some peer) :
      MapStep f (.add addr now mem) (.status .update) (put f addr (touch now peer))
  | getKnown (found : f addr = some peer) : MapStep f (.get addr) (.found .ok (some peer)) f
  | getMissing (absent : f addr = none) : MapStep f (.get addr) (.found .missing none) f
  | remove : MapStep f (.remove addr) (.status (if (f addr).isSome then .ok else .missing)) (erase f addr)
  | removeBefore : MapStep f (.removeBefore cutoff) .done
      (keepIf f fun peer => decide (¬ peer.lastUpdate < cutoff))
  | length : MapStep f .length (.count (present f).ncard) f
  | iterate (listed : Enumerates f order)
      (after : ∀ before addr peer later, order = before ++ (addr,peer) :: later →
        g addr = if choose (before.map Prod.snd) peer = .keep then some peer else none)
      (nothingNew : ∀ addr, f addr = none → g addr = none) :
      MapStep f (.iterate choose) (.visited (order.map Prod.snd)) g

variable {hash : EtherAddr → UInt64}

theorem removeBefore_refines (refines : Refines hash peers f) (cutoff : UInt64) :
    Refines hash (awdlPeersRemove peers cutoff) (keepIf f fun peer => decide (¬ peer.lastUpdate < cutoff)) := by
  obtain ⟨final,ran,sound,kept⟩ := iterate_sweep (s := ()) (m := peers)
    (fun it m entry _ => (if entry.2.lastUpdate < cutoff then (hashmapItRemove m it).2 else m,()))
    (fun _ entry => (decide (entry.2.lastUpdate < cutoff),())) (Sound hash)
    (by intro i m entry s _ used; simp [itRemove_used used])
    (by intro i m entry s sound used _; exact clear_sound sound used) refines.sound
  have swept : ∀ items : List (EtherAddr × AwdlPeer),
      (sweepEntries (fun (_ : Unit) (entry : EtherAddr × AwdlPeer) =>
        (decide (entry.2.lastUpdate < cutoff),())) () items).1 =
      items.filter fun entry => decide (¬ entry.2.lastUpdate < cutoff) := by
    intro items
    induction items with
    | nil => rfl
    | cons entry rest ih =>
      by_cases old : entry.2.lastUpdate < cutoff
      · rw [List.filter_cons_of_neg (by simpa using old),← ih]
        simp [sweepEntries,old]
      · rw [List.filter_cons_of_pos (by simpa using old),← ih]
        simp [sweepEntries,old]
  have same : awdlPeersRemove peers cutoff = final := by rw [awdlPeersRemove,ran]
  rw [same]
  refine ⟨sound,?_,?_⟩
  · rw [kept,swept]
    exact refines.listed.filtered _
  · intro addr peer held
    rw [keepIf,Option.filter_eq_some_iff] at held
    exact refines.keyed addr peer held.1

-- The sweep that an iteration amounts to.
def judge (choose : List AwdlPeer → AwdlPeer → Visit) (seen : List AwdlPeer)
    (entry : EtherAddr × AwdlPeer) : Bool × List AwdlPeer :=
  (decide (choose seen entry.2 ≠ .keep),seen ++ [entry.2])

theorem judge_visited (choose : List AwdlPeer → AwdlPeer → Visit) (seen : List AwdlPeer)
    (items : List (EtherAddr × AwdlPeer)) :
    (sweepEntries (judge choose) seen items).2 = seen ++ items.map Prod.snd := by
  induction items generalizing seen with
  | nil => simp [sweepEntries]
  | cons entry rest ih => simp [sweepEntries,judge,ih]

theorem judge_sublist (choose : List AwdlPeer → AwdlPeer → Visit) (seen : List AwdlPeer)
    (items : List (EtherAddr × AwdlPeer)) : (sweepEntries (judge choose) seen items).1.Sublist items := by
  induction items generalizing seen with
  | nil => exact List.Sublist.refl _
  | cons entry rest ih =>
    simp only [sweepEntries]
    split
    · exact (ih _).cons _
    · exact (ih _).cons_cons _

theorem judge_kept (choose : List AwdlPeer → AwdlPeer → Visit) (seen : List AwdlPeer)
    (items : List (EtherAddr × AwdlPeer)) (distinct : (items.map Prod.fst).Nodup)
    (place : items = before ++ (addr,peer) :: later) :
    (addr,peer) ∈ (sweepEntries (judge choose) seen items).1 ↔
      choose (seen ++ before.map Prod.snd) peer = .keep := by
  induction before generalizing seen items with
  | nil =>
    subst place
    have fresh : addr ∉ later.map Prod.fst := (List.nodup_cons.mp distinct).1
    have others : (addr,peer) ∉ (sweepEntries (judge choose) (seen ++ [peer]) later).1 := by
      intro held
      exact fresh (List.mem_map.mpr ⟨_,(judge_sublist _ _ _).subset held,rfl⟩)
    by_cases keep : choose seen peer = .keep <;> simp [sweepEntries,judge,keep,others]
  | cons head before ih =>
    subst place
    simp only [List.cons_append,List.map_cons,List.nodup_cons] at distinct
    have other : (addr,peer) ≠ head := by
      rintro rfl
      exact distinct.1 (by simp)
    have tail := ih (seen ++ [head.2]) _ distinct.2 rfl
    by_cases keep : choose seen head.2 = .keep <;>
      simpa [sweepEntries,judge,keep,other] using tail

-- Either way of removing frees the slot that the iterator stands on.
theorem visit_judged {m : AwdlPeers} {i : Nat} (choose : List AwdlPeer → AwdlPeer → Visit) (seen : List AwdlPeer)
    (sound : Sound hash m) (keyed : ∀ entry ∈ m.entries, entry.2.addr = entry.1)
    (used : m.data[i]? = some (some entry)) : visitBody hash choose ⟨i⟩ m entry.2 seen =
      (if (judge choose seen entry).1 then m.clear i else m,(judge choose seen entry).2) := by
  obtain ⟨addr,peer⟩ := entry
  have own : peer.addr = addr := keyed _ (Hashmap.mem_entries.mpr ⟨i,used⟩)
  cases chosen : choose seen peer with
  | keep => simp [visitBody,judge,chosen]
  | itRemove => simp [visitBody,judge,chosen,awdlPeersItRemove,itRemove_used used]
  | peerRemove =>
    obtain ⟨j,there,got⟩ := get_present sound (Hashmap.mem_entries.mpr ⟨i,used⟩) true
    obtain rfl := slot_unique sound.distinct used there
    simp [visitBody,judge,chosen,awdlPeerRemove,own,got]

theorem iterate_refines (refines : Refines hash peers f) (choose : List AwdlPeer → AwdlPeer → Visit) :
    ∃ g, Refines hash (awdlPeersIterate (visitBody hash choose) peers []).1 g ∧
      MapStep f (.iterate choose) (.visited (awdlPeersIterate (visitBody hash choose) peers []).2) g := by
  obtain ⟨final,ran,⟨sound,keyed⟩,kept⟩ := iterate_sweep (s := []) (m := peers)
    (fun it m entry s => visitBody hash choose it m entry.2 s) (judge choose)
    (fun m => Sound hash m ∧ ∀ entry ∈ m.entries, entry.2.addr = entry.1)
    (fun i m entry seen invariant used => visit_judged choose seen invariant.1 invariant.2 used)
    (by
      rintro i m entry seen ⟨sound,keyed⟩ used _
      refine ⟨clear_sound sound used,?_⟩
      intro other held
      exact keyed other ((clear_entries used).symm.subset (List.mem_cons_of_mem _ held)))
    ⟨refines.sound,fun entry held => refines.keyed _ _ ((refines.listed.exact _ _).mp held)⟩
  rw [awdlPeersIterate_hashmap,ran,judge_visited,List.nil_append]
  obtain ⟨g,listed⟩ := enumerates_exists sound.distinct
  refine ⟨g,⟨sound,listed,?_⟩,.iterate refines.listed ?_ ?_⟩
  · intro addr peer held
    exact keyed (addr,peer) ((listed.exact addr peer).mpr held)
  · intro before addr peer later place
    have membership := judge_kept choose [] _ refines.listed.distinct place
    rw [← kept,List.nil_append] at membership
    change (addr,peer) ∈ final.entries ↔ _ at membership
    split
    · rename_i keep
      exact (listed.exact addr peer).mp (membership.mpr keep)
    · rename_i drop
      rw [Option.eq_none_iff_forall_ne_some]
      intro other held
      have member := (listed.exact addr other).mpr held
      rw [kept] at member
      have old := (judge_sublist choose [] peers.entries).subset member
      have same := value_unique refines.sound.distinct old (place ▸ List.mem_append_right _ List.mem_cons_self)
      subst same
      exact drop (membership.mp (kept ▸ member))
  · intro addr absent
    rw [Option.eq_none_iff_forall_ne_some]
    intro peer held
    have member := (listed.exact addr peer).mpr held
    rw [kept] at member
    have old := (refines.listed.exact addr peer).mp ((judge_sublist choose [] peers.entries).subset member)
    rw [absent] at old
    cases old

theorem step_refines (refines : Refines hash peers f) (step : TableStep hash peers op answer next) :
    ∃ g, MapStep f op answer g ∧ Refines hash next g := by
  cases step with
  | add ran =>
    cases refines.added ran with
    | fresh absent status after => rw [status]; exact ⟨_,.addFresh absent,after⟩
    | known found status kept after => rw [status]; exact ⟨_,.addKnown found,after⟩
    | lost absent status scarce => exact absurd rfl scarce
  | @get _ addr =>
    cases bound : f addr with
    | none => rw [refines.get_none bound]; exact ⟨f,.getMissing bound,refines⟩
    | some peer => rw [refines.get_some bound]; exact ⟨f,.getKnown bound,refines⟩
  | @remove _ addr =>
    obtain ⟨status,after⟩ := refines.remove addr
    rw [status]
    exact ⟨_,.remove,after⟩
  | removeBefore => exact ⟨_,.removeBefore,removeBefore_refines refines _⟩
  | length =>
    have count : awdlPeersLength peers = (present f).ncard :=
      refines.sound.counted.trans refines.listed.count.symm
    rw [count]
    exact ⟨f,.length,refines⟩
  | iterate =>
    obtain ⟨g,after,step⟩ := iterate_refines refines _
    exact ⟨g,step,after⟩

theorem runs_refine (path : Runs (TableStep hash) awdlPeersInit trace peers) :
    ∃ f, Runs MapStep (fun _ => none) trace f ∧ Refines hash peers f :=
  runs_simulated (Refines hash) (fun _ _ _ _ _ refines step => step_refines refines step) init_refines path

-- The table and the finite map answer every call alike, whatever the hash function
-- and however deep the rehashes nest; the last part is about one more addition.
theorem peer_table_is_finite_map (path : Runs (TableStep hash) awdlPeersInit trace peers) :
    ∃ f, Runs MapStep (fun _ => none) trace f ∧
      (∀ addr, awdlPeerGet hash peers addr =
        match f addr with | some peer => (.ok,some peer) | none => (.missing,none)) ∧
      peers.keys.Nodup ∧ (∀ addr, addr ∈ peers.keys ↔ (f addr).isSome) ∧
      awdlPeersLength peers = peers.keys.length ∧ awdlPeersLength peers = (present f).ncard ∧
      ∀ fuel mem addr now run, awdlPeerAdd hash fuel [] mem peers addr now = some run →
        0 ≤ run.status.code → ∃ peer, awdlPeerGet hash run.peers addr = (.ok,some peer) := by
  obtain ⟨f,matched,refines⟩ := runs_refine path
  refine ⟨f,matched,?_,refines.sound.distinct,fun addr => refines.mem_keys,?_,?_,?_⟩
  · intro addr
    cases bound : f addr with
    | none => exact refines.get_none bound
    | some peer => exact refines.get_some bound
  · rw [HashmapMap.keys,List.length_map]
    exact refines.sound.counted
  · exact refines.sound.counted.trans refines.listed.count.symm
  · intro fuel mem addr now run ran accepted
    cases refines.added ran with
    | fresh absent status after => exact ⟨_,after.get_some (put_self ..)⟩
    | known found status kept after => exact ⟨_,after.get_some (put_self ..)⟩
    | lost absent status => rw [status] at accepted; exact absurd accepted (by decide)

-- A station comes and goes.
theorem peer_table_is_finite_map_add_remove : ∃ added removed peers f,
    Runs (TableStep (fun _ => 255)) awdlPeersInit
      [(.add ⟨2,0,0,0,0,1⟩ 7 default,added),(.remove ⟨2,0,0,0,0,1⟩,removed)] peers ∧
    Runs MapStep (fun _ => none) [(.add ⟨2,0,0,0,0,1⟩ 7 default,added),(.remove ⟨2,0,0,0,0,1⟩,removed)] f ∧
    ∀ addr, awdlPeerGet (fun _ => 255) peers addr =
      match f addr with | some peer => (.ok,some peer) | none => (.missing,none) := by
  have returns : (awdlPeerAdd (fun _ => 255) 1 [] default awdlPeersInit ⟨2,0,0,0,0,1⟩ 7).isSome := by
    decide +kernel
  obtain ⟨run,ran⟩ := Option.isSome_iff_exists.mp returns
  have path : Runs (TableStep (fun _ => 255)) awdlPeersInit
      [(.add ⟨2,0,0,0,0,1⟩ 7 default,_),(.remove ⟨2,0,0,0,0,1⟩,_)] _ := .cons (.add ran) (.cons .remove .nil)
  obtain ⟨f,matched,answers,_⟩ := peer_table_is_finite_map path
  exact ⟨_,_,_,f,path,matched,answers⟩

end EspOwl.PeerHistory
