import EspOwl.ElectionOutcome

namespace EspOwl.ElectionAgreement
open ElectionOrder ElectionOutcome

-- Nodes that all hear each other: the table of each holds every other node as a
-- valid peer, with that node's own election state, and nobody else.
structure Network (n : Nat) where
  node : Fin n → AwdlElectionState
  table : Fin n → AwdlPeers
  distinct : ∀ i j, (node i).selfAddr = (node j).selfAddr → i = j
  heard : ∀ i j, j ≠ i → ∃ peer ∈ stored (table i), peer.isValid = true ∧ peer.election = node j
  only : ∀ i, ∀ peer ∈ stored (table i), ∃ j, j ≠ i ∧ peer.election = node j

def Fixed (net : Network n) : Prop := ∀ i, awdlElectionRun (net.node i) (net.table i) = net.node i

-- What a node brings into the election by itself.
def claimOf (state : AwdlElectionState) : Nat ×ₗ Nat ×ₗ EtherAddr :=
  toLex (state.selfCounter.toNat,toLex (state.selfMetric.toNat,state.selfAddr))

theorem claim_lt (a b : AwdlElectionState) :
    claimOf a < claimOf b ↔ rank (awdlElectionResetSelf a) < rank (awdlElectionResetSelf b) := by
  simp [claimOf,rank,awdlElectionResetSelf,Prod.Lex.toLex_lt_toLex]

-- At a fixed point a node either leads itself or has just adopted another one.
inductive Position (net : Network n) (i : Fin n) : Prop where
  | leads (own : awdlElectionResetSelf (net.node i) = net.node i)
  | follows (j : Fin n) (adopted : awdlElectionAdopt (awdlElectionResetSelf (net.node i)) (net.node j) = net.node i)
      (bound : (net.node j).height.toNat ≤ 9 ∨ (net.node j).height = 0xffffffff)
      (better : rank (awdlElectionResetSelf (net.node i)) < rank (net.node j))

variable {net : Network n}

theorem position (fixed : Fixed net) (i : Fin n) : Position net i := by
  rcases run_cases (net.node i) (net.table i) with own | ⟨peer,held,able,better,adopted⟩
  · exact .leads (own.symm.trans (fixed i))
  · obtain ⟨j,_,recorded⟩ := net.only i peer held
    have bound := eligible_height able
    rw [recorded] at adopted bound better
    exact .follows j (adopted.symm.trans (fixed i)) bound ((outranks_iff _ _).mp better)

-- No node of a fixed point advertises the height that wraps: it would follow one
-- of height 2^32 - 2, which the height check refuses.
theorem height_small (fixed : Fixed net) (i : Fin n) : (net.node i).height ≠ 0xffffffff := by
  intro huge
  cases position fixed i with
  | leads own =>
    rw [← own] at huge
    exact absurd huge (by simp [awdlElectionResetSelf])
  | follows j adopted bound _ =>
    have height : (net.node j).height + 1 = (net.node i).height := congrArg AwdlElectionState.height adopted
    rw [huge] at height
    rcases bound with small | max
    · have next := height_next small
      rw [height,height_max] at next
      omega
    · rw [max] at height
      exact absurd height (by decide)

theorem follows_height (fixed : Fixed net)
    (adopted : awdlElectionAdopt (awdlElectionResetSelf (net.node i)) (net.node j) = net.node i)
    (bound : (net.node j).height.toNat ≤ 9 ∨ (net.node j).height = 0xffffffff) :
    (net.node i).height.toNat = (net.node j).height.toNat + 1 := by
  have small := bound.resolve_right (height_small fixed j)
  have height : (net.node j).height + 1 = (net.node i).height := congrArg AwdlElectionState.height adopted
  rw [← height,height_next small]

-- A node ranks below the one it follows, since only the height differs.
theorem follows_rank (fixed : Fixed net)
    (adopted : awdlElectionAdopt (awdlElectionResetSelf (net.node i)) (net.node j) = net.node i)
    (bound : (net.node j).height.toNat ≤ 9 ∨ (net.node j).height = 0xffffffff) :
    rank (net.node i) < rank (net.node j) := by
  have height := follows_height fixed adopted bound
  have counter := congrArg AwdlElectionState.masterCounter adopted
  have metric := congrArg AwdlElectionState.masterMetric adopted
  rw [← outranks_iff]
  refine .inr ⟨counter.symm,.inr ⟨metric.symm,.inl ?_⟩⟩
  rw [UInt32.lt_iff_toNat_lt]
  omega

-- Following leads upwards in rank and downwards in height, so it ends at a node
-- that leads itself.
theorem root (fixed : Fixed net) (i : Fin n) :
    ∃ r, awdlElectionResetSelf (net.node r) = net.node r ∧ rank (net.node i) ≤ rank (net.node r) := by
  induction h : (net.node i).height.toNat using Nat.strong_induction_on generalizing i with
  | _ height ih =>
    cases position fixed i with
    | leads own => exact ⟨i,own,le_rfl⟩
    | follows j adopted bound _ =>
      have shorter := follows_height fixed adopted bound
      obtain ⟨r,own,above⟩ := ih _ (by omega) j rfl
      exact ⟨r,own,(follows_rank fixed adopted bound).le.trans above⟩

theorem rank_bound (fixed : Fixed net)
    (greatest : ∀ i, rank (awdlElectionResetSelf (net.node i)) ≤ rank (awdlElectionResetSelf (net.node m)))
    (i : Fin n) : rank (net.node i) ≤ rank (awdlElectionResetSelf (net.node m)) := by
  obtain ⟨r,own,above⟩ := root fixed i
  have top := greatest r
  rw [own] at top
  exact above.trans top

theorem greatest_leads (fixed : Fixed net)
    (greatest : ∀ i, rank (awdlElectionResetSelf (net.node i)) ≤ rank (awdlElectionResetSelf (net.node m))) :
    awdlElectionResetSelf (net.node m) = net.node m := by
  cases position fixed m with
  | leads own => exact own
  | follows j _ _ better => exact absurd (rank_bound fixed greatest j) (not_le.mpr better)

-- Nobody can prefer another candidate to the greatest node.
theorem others_follow (fixed : Fixed net)
    (greatest : ∀ i, rank (awdlElectionResetSelf (net.node i)) ≤ rank (awdlElectionResetSelf (net.node m)))
    (other : i ≠ m) :
    awdlElectionAdopt (awdlElectionResetSelf (net.node i)) (net.node m) = net.node i := by
  have own := greatest_leads fixed greatest
  obtain ⟨peer,held,valid,recorded⟩ := net.heard i m other.symm
  have sync : (net.node m).syncAddr = (net.node m).selfAddr := by rw [← own]; rfl
  have height : (net.node m).height = 0 := by rw [← own]; rfl
  have foreign : (net.node m).selfAddr ≠ (net.node i).selfAddr := fun same => other (net.distinct _ _ same).symm
  have able : eligible (net.node i).selfAddr peer = true := by
    have uncycled : peer.election.syncAddr ≠ (net.node i).selfAddr := by
      rw [recorded,sync]
      exact foreign
    have low : ¬ peer.election.height + 1 > awdlElectionTreeMaxHeight := by
      rw [recorded,height]
      decide
    simp [eligible,valid,uncycled,low]
  have top := master_top (net.node i) (net.table i) _ (peer_candidate held able)
  rw [outranks_iff,not_lt,recorded] at top
  have ran := fixed i
  rw [awdlElectionRun] at ran
  cases found : awdlElectionMaster (net.node i) (net.table i) with
  | none =>
    rw [found,Option.getD_none,← own] at top
    exact absurd (rank_eq (le_antisymm top (greatest i))).2.2.2 foreign
  | some master =>
    rw [found] at ran top
    obtain ⟨⟨chosen,member,_,rfl⟩,_⟩ := master_some found
    obtain ⟨j,_,same⟩ := net.only i chosen member
    have below := rank_bound fixed greatest j
    rw [own] at below
    rw [Option.getD_some,same] at top
    have address := (rank_eq (le_antisymm top below)).2.2.2
    rw [same,← net.distinct m j address] at ran
    exact ran

theorem fixed_point_agrees (net : Network n) (some_node : 1 ≤ n) (fixed : Fixed net) :
    ∃ m, (∀ j, j ≠ m → claimOf (net.node j) < claimOf (net.node m)) ∧
      (∀ j, (net.node j).masterAddr = (net.node m).selfAddr) ∧ (net.node m).height = 0 ∧
      ∀ j, j ≠ m → (net.node j).syncAddr = (net.node m).selfAddr ∧ (net.node j).height = 1 := by
  have : Nonempty (Fin n) := ⟨⟨0,some_node⟩⟩
  obtain ⟨m,greatest⟩ := Finite.exists_max fun i => rank (awdlElectionResetSelf (net.node i))
  have own := greatest_leads fixed greatest
  have master : (net.node m).masterAddr = (net.node m).selfAddr := by rw [← own]; rfl
  have height : (net.node m).height = 0 := by rw [← own]; rfl
  refine ⟨m,?_,?_,height,?_⟩
  · intro j other
    rw [claim_lt]
    refine lt_of_le_of_ne (greatest j) ?_
    intro same
    exact other (net.distinct _ _ (rank_eq same).2.2.2)
  · intro j
    by_cases same : j = m
    · rw [same,master]
    · rw [← others_follow fixed greatest same]
      exact master
  · intro j other
    rw [← others_follow fixed greatest other]
    refine ⟨rfl,?_⟩
    change (net.node m).height + 1 = 1
    rw [height]
    rfl

def pairNode (i : Fin 2) : AwdlElectionState :=
  if i = 0 then awdlElectionStateInit ⟨2,0,0,0,0,9⟩
  else awdlElectionAdopt (awdlElectionStateInit ⟨2,0,0,0,0,1⟩) (awdlElectionStateInit ⟨2,0,0,0,0,9⟩)

-- Two nodes, settled on the one with the greater address.
def pair : Network 2 where
  node := pairNode
  table i := ⟨1,[none,some ((pairNode (1 - i)).selfAddr,
    {(default : AwdlPeer) with isValid := true,election := pairNode (1 - i)})]⟩
  distinct := by decide +kernel
  heard := by decide +kernel
  only := by decide +kernel

theorem fixed_point_agrees_pair :
    ∃ m, (∀ j, j ≠ m → claimOf (pair.node j) < claimOf (pair.node m)) ∧
      (∀ j, (pair.node j).masterAddr = (pair.node m).selfAddr) ∧ (pair.node m).height = 0 ∧
      ∀ j, j ≠ m → (pair.node j).syncAddr = (pair.node m).selfAddr ∧ (pair.node j).height = 1 :=
  fixed_point_agrees pair (by decide) (by unfold Fixed; decide +kernel)

end EspOwl.ElectionAgreement
