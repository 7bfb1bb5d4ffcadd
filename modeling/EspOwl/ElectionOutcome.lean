import EspOwl.ElectionOrder

namespace EspOwl.ElectionOutcome
open Champions ElectionOrder

-- No candidate outranks g.
def Top (state : AwdlElectionState) (peers : AwdlPeers) (g : AwdlElectionState) : Prop :=
  ∀ c, Candidate state peers c → ¬ Outranks c g

theorem master_top (state : AwdlElectionState) (peers : AwdlPeers) :
    Top state peers ((awdlElectionMaster state peers).getD (awdlElectionResetSelf state)) := by
  intro c candidate
  rw [outranks_iff,not_lt,master_champion]
  rcases candidate with rfl | ⟨peer,held,able,rfl⟩
  · exact champion_rank (standing (awdlElectionResetSelf state)) (a := none) List.mem_cons_self
  · exact champion_rank (standing (awdlElectionResetSelf state)) (a := some peer.election)
      ((candidate_field state peers _).mpr (.inr ⟨peer,held,able,rfl⟩))

theorem master_some (found : awdlElectionMaster state peers = some master) :
    (∃ peer ∈ stored peers, eligible state.selfAddr peer = true ∧ peer.election = master) ∧
      Outranks master (awdlElectionResetSelf state) := by
  rw [master_champion] at found
  constructor
  · have member := champion_mem (standing (awdlElectionResetSelf state)) none (field state.selfAddr peers)
    rw [candidate_field,found] at member
    simpa using member
  · rw [outranks_iff]
    have replaced : champion (standing (awdlElectionResetSelf state)) none (field state.selfAddr peers) ≠ none := by
      rw [found]
      exact Option.some_ne_none master
    have strict := champion_strict _ replaced
    rw [found] at strict
    exact strict

-- A run ends with the node itself, or with a stored peer of higher rank.
theorem run_cases (state : AwdlElectionState) (peers : AwdlPeers) :
    awdlElectionRun state peers = awdlElectionResetSelf state ∨
      ∃ peer ∈ stored peers, eligible state.selfAddr peer = true ∧
        Outranks peer.election (awdlElectionResetSelf state) ∧
        awdlElectionRun state peers = awdlElectionAdopt (awdlElectionResetSelf state) peer.election := by
  rw [awdlElectionRun]
  cases found : awdlElectionMaster state peers with
  | none => exact .inl rfl
  | some master =>
    obtain ⟨⟨peer,held,able,rfl⟩,better⟩ := master_some found
    exact .inr ⟨peer,held,able,better,rfl⟩

-- Two top candidates agree on everything the order looks at.
theorem top_agree (left : Top state peers a) (right : Top state peers b) (first : Candidate state peers a)
    (second : Candidate state peers b) : rank a = rank b := by
  have less := left b second
  have more := right a first
  rw [outranks_iff,not_lt] at less more
  exact le_antisymm more less

theorem height_max : (0xffffffff : UInt32).toNat = 4294967295 := rfl

-- The 32-bit sum in the height check wraps for exactly one value.
theorem eligible_height (able : eligible self peer = true) :
    peer.election.height.toNat ≤ 9 ∨ peer.election.height = 0xffffffff := by
  simp only [eligible,Bool.and_eq_true,decide_eq_true_eq,gt_iff_lt,UInt32.lt_iff_toNat_lt,
    awdlElectionTreeMaxHeight,UInt32.toNat_add,UInt32.reduceToNat] at able
  have limit := able.1.2
  have bound := peer.election.height.toNat_lt
  rw [← UInt32.toNat_inj,height_max]
  omega

theorem height_next {height : UInt32} (small : height.toNat ≤ 9) :
    (height + 1).toNat = height.toNat + 1 := by
  have sum := UInt32.toNat_add height 1
  have one : (1 : UInt32).toNat = 1 := rfl
  rw [one] at sum
  omega

-- What the election promises about the height of a node.
def HeightInvariant (state : AwdlElectionState) (peers : AwdlPeers) : Prop :=
  let after := awdlElectionRun state peers
  after.height.toNat ≤ awdlElectionTreeMaxHeight.toNat ∧
  (after.height = 0 ↔ after.syncAddr = after.selfAddr) ∧
  (after.height = 0 → after.masterAddr = after.selfAddr ∧ after.masterMetric = after.selfMetric ∧
    after.masterCounter = after.selfCounter) ∧
  (after.syncAddr ≠ after.selfAddr → ∃ master, awdlElectionMaster state peers = some master ∧
    after.syncAddr = master.selfAddr ∧ after.height.toNat = master.height.toNat + 1)

theorem invariant_own (own : awdlElectionMaster state peers = none) : HeightInvariant state peers := by
  simp [HeightInvariant,awdlElectionRun,own,awdlElectionResetSelf]

theorem invariant_adopted (found : awdlElectionMaster state peers = some master) :
    HeightInvariant state peers ↔ master.height ≠ 0xffffffff ∧ master.selfAddr ≠ state.selfAddr := by
  obtain ⟨⟨peer,_,able,rfl⟩,better⟩ := master_some found
  have self : (awdlElectionResetSelf state).selfAddr = state.selfAddr := rfl
  simp only [HeightInvariant,awdlElectionRun,found,awdlElectionAdopt,self]
  rcases eligible_height able with small | huge
  · have next := height_next small
    have positive : peer.election.height + 1 ≠ 0 := by
      intro zero
      rw [zero] at next
      exact absurd next (by simp)
    have below : peer.election.height ≠ 0xffffffff := by
      intro huge
      rw [huge,height_max] at small
      omega
    have limit : peer.election.height.toNat + 1 ≤ awdlElectionTreeMaxHeight.toNat := Nat.succ_le_succ small
    simp [next,positive,below,limit]
  · have wrapped : peer.election.height + 1 = 0 := by rw [huge]; decide
    simp only [wrapped]
    constructor
    · rintro ⟨_,_,ours,_⟩
      obtain ⟨_,metric,counter⟩ := ours trivial
      simp only [Outranks,awdlElectionResetSelf,metric,counter,huge,UInt32.lt_irrefl,false_or] at better
      exact absurd better (by simp)
    · rintro ⟨below,_⟩
      exact absurd huge below

theorem peer_candidate (held : peer ∈ stored peers) (able : eligible state.selfAddr peer = true) :
    Candidate state peers peer.election := .inr ⟨peer,held,able,rfl⟩

-- Exactly the peers on top of the table decide: one that advertises the height
-- 2^32 - 1 passes the height check and is adopted with height 0.
theorem height_invariant_iff (state : AwdlElectionState) (peers : AwdlPeers) :
    HeightInvariant state peers ↔ ∀ peer ∈ stored peers, eligible state.selfAddr peer = true →
      Outranks peer.election (awdlElectionResetSelf state) → Top state peers peer.election →
        peer.election.height ≠ 0xffffffff ∧ peer.election.selfAddr ≠ state.selfAddr := by
  have best := master_top state peers
  cases found : awdlElectionMaster state peers with
  | none =>
    rw [found] at best
    refine iff_of_true (invariant_own found) ?_
    intro peer held able better
    exact absurd better (best _ (peer_candidate held able))
  | some master =>
    rw [found,Option.getD_some] at best
    obtain ⟨⟨chosen,held,able,rfl⟩,better⟩ := master_some found
    rw [invariant_adopted found]
    constructor
    · intro fine peer member allowed _ top
      have same := rank_eq (top_agree top best (peer_candidate member allowed) (peer_candidate held able))
      rw [same.2.2.1,same.2.2.2]
      exact fine
    · intro fine
      exact fine chosen held able better best

-- A node alone with one peer of height 2^32 - 1, in the first of 256 slots.
theorem height_invariant_wraps : ¬ HeightInvariant (awdlElectionStateInit ⟨2,0,0,0,0,1⟩)
    ⟨1,some (⟨2,0,0,0,0,2⟩,{(default : AwdlPeer) with
      addr := ⟨2,0,0,0,0,2⟩
      isValid := true
      election := {awdlElectionStateInit ⟨2,0,0,0,0,2⟩ with
        masterCounter := 1000
        height := 0xffffffff}}) :: List.replicate 255 none⟩ := by
  intro invariant
  exact absurd invariant.2.1 (by decide +kernel)

-- The state that following g leaves behind.
def following (state g : AwdlElectionState) : AwdlElectionState :=
  if g.selfAddr = state.selfAddr then alone state
  else {state with
    syncAddr := g.selfAddr
    masterAddr := g.masterAddr
    masterMetric := g.masterMetric
    masterCounter := g.masterCounter
    height := g.height + 1}

section Distinct
variable {state : AwdlElectionState} {peers : AwdlPeers}

theorem candidates_distinct (distinct : ((stored peers).map (·.election.selfAddr)).Nodup)
    (others : ∀ peer ∈ stored peers, peer.election.selfAddr ≠ state.selfAddr)
    (first : Candidate state peers a) (second : Candidate state peers b) (differ : a ≠ b) :
    a.selfAddr ≠ b.selfAddr := by
  rcases first with rfl | ⟨left,heldLeft,_,rfl⟩ <;> rcases second with rfl | ⟨right,heldRight,_,rfl⟩
  · exact absurd rfl differ
  · exact (others right heldRight).symm
  · exact others left heldLeft
  · intro same
    exact differ (congrArg _ (List.inj_on_of_nodup_map distinct heldLeft heldRight same))

theorem run_follows (others : ∀ peer ∈ stored peers, peer.election.selfAddr ≠ state.selfAddr) :
    ∃ g, Candidate state peers g ∧ Top state peers g ∧ awdlElectionRun state peers = following state g := by
  have best := master_top state peers
  refine ⟨_,?_,best,?_⟩
  · cases found : awdlElectionMaster state peers with
    | none => exact .inl rfl
    | some master => exact .inr (master_some found).1
  · rw [awdlElectionRun,following]
    cases found : awdlElectionMaster state peers with
    | none => simp [awdlElectionResetSelf,alone]
    | some master =>
      obtain ⟨⟨peer,held,_,rfl⟩,_⟩ := master_some found
      rw [Option.getD_some,if_neg (others peer held)]
      rfl

end Distinct

-- Pairwise different addresses make the order total on the candidates, so the
-- winner does not depend on where the hash table put them.
theorem election_adopts_greatest (state : AwdlElectionState) (peers : AwdlPeers)
    (distinct : ((stored peers).map (·.election.selfAddr)).Nodup)
    (others : ∀ peer ∈ stored peers, peer.election.selfAddr ≠ state.selfAddr) :
    (∀ a, ¬ Outranks a a) ∧ (∀ a b c, Outranks a b → Outranks b c → Outranks a c) ∧
    (∀ a b, Candidate state peers a → Candidate state peers b → a ≠ b → Outranks a b ∨ Outranks b a) ∧
    (∃! g, Candidate state peers g ∧ ∀ c, Candidate state peers c → c ≠ g → Outranks g c) ∧
    (∀ g, Candidate state peers g → (∀ c, Candidate state peers c → c ≠ g → Outranks g c) →
      awdlElectionRun state peers = following state g) ∧
    ∀ other : AwdlPeers, (stored other).Perm (stored peers) →
      awdlElectionRun state other = awdlElectionRun state peers := by
  have total : ∀ a b, Candidate state peers a → Candidate state peers b → a ≠ b →
      Outranks a b ∨ Outranks b a := fun a b first second differ =>
    outranks_total (candidates_distinct distinct others first second differ)
  have greatest : ∀ g, Candidate state peers g → Top state peers g →
      ∀ c, Candidate state peers c → c ≠ g → Outranks g c := by
    intro g candidate top c other differ
    exact (total c g other candidate differ).resolve_left (top c other)
  have single : ∀ g h, Candidate state peers g → Candidate state peers h → Top state peers h →
      (∀ c, Candidate state peers c → c ≠ g → Outranks g c) → h = g := by
    intro g h candidate other top beats
    by_contra differ
    exact top g candidate (beats h other differ)
  obtain ⟨g,candidate,top,ran⟩ := run_follows others
  refine ⟨outranks_irrefl,fun _ _ _ => outranks_trans,total,⟨g,⟨candidate,greatest g candidate top⟩,?_⟩,?_,?_⟩
  · rintro other ⟨stands,beats⟩
    exact (single other g stands candidate top beats).symm
  · intro other stands beats
    rw [ran,single other g stands candidate top beats]
  · intro other same
    have alike : ∀ c, Candidate state other c ↔ Candidate state peers c := by
      intro c
      simp only [Candidate,same.mem_iff]
    have foreign : ∀ peer ∈ stored other, peer.election.selfAddr ≠ state.selfAddr :=
      fun peer held => others peer (same.mem_iff.mp held)
    obtain ⟨h,stands,above,went⟩ := run_follows foreign
    have again : h = g := single g h candidate ((alike h).mp stands)
      (fun c member => above c ((alike c).mpr member)) (greatest g candidate top)
    rw [went,ran,again]

def neighbourAt (last : UInt8) : AwdlPeer :=
  {(default : AwdlPeer) with
    isValid := true
    election := awdlElectionStateInit ⟨2,0,0,0,0,last⟩}

-- Two peers whose counters tie with the node's own.
def tied : AwdlPeers := ⟨2,[none,some (⟨2,0,0,0,0,3⟩,neighbourAt 3),some (⟨2,0,0,0,0,2⟩,neighbourAt 2)]⟩

theorem election_adopts_greatest_tie : awdlElectionRun (awdlElectionStateInit ⟨2,0,0,0,0,1⟩) tied =
      {awdlElectionStateInit ⟨2,0,0,0,0,1⟩ with
        syncAddr := ⟨2,0,0,0,0,3⟩
        masterAddr := ⟨2,0,0,0,0,3⟩
        height := 1} ∧
    awdlElectionRun (awdlElectionStateInit ⟨2,0,0,0,0,1⟩) ⟨2,tied.data.reverse⟩ =
      awdlElectionRun (awdlElectionStateInit ⟨2,0,0,0,0,1⟩) tied := by
  obtain ⟨_,_,_,_,adopts,alike⟩ := election_adopts_greatest (awdlElectionStateInit ⟨2,0,0,0,0,1⟩) tied
    (by decide +kernel) (by decide +kernel)
  have beats : ∀ peer ∈ stored tied, peer.election ≠ (neighbourAt 3).election →
      Outranks (neighbourAt 3).election peer.election := by
    unfold Outranks
    decide +kernel
  refine ⟨adopts (neighbourAt 3).election (.inr ⟨neighbourAt 3,by decide +kernel,by decide +kernel,rfl⟩) ?_,
    alike _ (List.Perm.swap _ _ [])⟩
  rintro c (rfl | ⟨peer,held,_,rfl⟩) other
  · unfold Outranks
    decide +kernel
  · exact beats peer held other

end EspOwl.ElectionOutcome
