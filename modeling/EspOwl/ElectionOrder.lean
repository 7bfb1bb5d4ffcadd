import EspOwl.Election

namespace EspOwl.ElectionOrder
open Champions Hashmap

-- The order in which two election states compete: master counter, then master
-- metric, then the shorter way to the master, then the address.
def Outranks (a b : AwdlElectionState) : Prop :=
  b.masterCounter < a.masterCounter ∨ b.masterCounter = a.masterCounter ∧
    (b.masterMetric < a.masterMetric ∨ b.masterMetric = a.masterMetric ∧
      (a.height < b.height ∨ a.height = b.height ∧ b.selfAddr < a.selfAddr))

abbrev Rank := Nat ×ₗ Nat ×ₗ Natᵒᵈ ×ₗ EtherAddr

def rank (state : AwdlElectionState) : Rank :=
  toLex (state.masterCounter.toNat,toLex (state.masterMetric.toNat,
    toLex (OrderDual.toDual state.height.toNat,state.selfAddr)))

theorem outranks_iff (a b : AwdlElectionState) : Outranks a b ↔ rank b < rank a := by
  simp only [Outranks,rank,Prod.Lex.toLex_lt_toLex,OrderDual.toDual_lt_toDual,OrderDual.toDual_inj,
    UInt32.lt_iff_toNat_lt,UInt32.toNat_inj,eq_comm (a := a.height)]

theorem rank_eq (same : rank a = rank b) : a.masterCounter = b.masterCounter ∧
    a.masterMetric = b.masterMetric ∧ a.height = b.height ∧ a.selfAddr = b.selfAddr := by
  simpa [rank,UInt32.toNat_inj] using same

theorem outranks_irrefl (a : AwdlElectionState) : ¬ Outranks a a := by
  rw [outranks_iff]; exact lt_irrefl _

theorem outranks_trans (first : Outranks a b) (second : Outranks b c) : Outranks a c := by
  rw [outranks_iff] at *
  exact second.trans first

theorem outranks_total (differ : a.selfAddr ≠ b.selfAddr) : Outranks a b ∨ Outranks b a := by
  rw [outranks_iff,outranks_iff]
  rcases lt_trichotomy (rank a) (rank b) with less | same | more
  · exact .inr less
  · exact absurd (rank_eq same).2.2.2 differ
  · exact .inl more

-- The peers that the loop does not skip.
def eligible (self : EtherAddr) (peer : AwdlPeer) : Bool :=
  peer.isValid && decide (¬ peer.election.height + 1 > awdlElectionTreeMaxHeight) && decide (peer.election.syncAddr ≠ self)

def stored (peers : AwdlPeers) : List AwdlPeer := peers.entries.map Prod.snd

-- The node as its own master.
def alone (state : AwdlElectionState) : AwdlElectionState :=
  {state with
    height := 0
    masterAddr := state.selfAddr
    syncAddr := state.selfAddr
    masterMetric := state.selfMetric
    masterCounter := state.selfCounter}

-- The node itself and the eligible peers.
def Candidate (state : AwdlElectionState) (peers : AwdlPeers) (c : AwdlElectionState) : Prop :=
  c = alone state ∨
    ∃ peer ∈ stored peers, eligible state.selfAddr peer = true ∧ peer.election = c

theorem compare_sign (a b : UInt32) :
    (compare a b < 0 ↔ a.toNat < b.toNat) ∧ (compare a b = 0 ↔ a.toNat = b.toNat) := by
  simp only [compare,UInt32.lt_iff_toNat_lt,gt_iff_lt]
  split
  · simp; omega
  · split <;> simp <;> omega

theorem sync_master (state : AwdlElectionState) (addr : EtherAddr) :
    awdlElectionIsSyncMaster state addr = decide (state.syncAddr = addr) := by
  simp only [awdlElectionIsSyncMaster,compareEtherAddr_zero]

-- The nested tests accept exactly a peer that outranks the current master.
theorem consider_outranks (own : AwdlElectionState) (peer : AwdlPeer) (c : Option AwdlElectionState) :
    awdlElectionConsider own peer c =
      if eligible own.selfAddr peer = true ∧ rank (c.getD own) < rank peer.election then some peer.election
      else c := by
  unfold awdlElectionConsider eligible
  dsimp only
  generalize c.getD own = current
  cases valid : peer.isValid with
  | false => simp
  | true =>
    by_cases tall : peer.election.height + 1 > awdlElectionTreeMaxHeight
    · simp [tall]
    · by_cases cycle : peer.election.syncAddr = own.selfAddr
      · simp [tall,sync_master,cycle]
      · have follows : awdlElectionIsSyncMaster peer.election own.selfAddr = false := by simpa [sync_master] using cycle
        have order := (outranks_iff peer.election current).symm
        have counters := compare_sign peer.election.masterCounter current.masterCounter
        have metrics := compare_sign peer.election.masterMetric current.masterMetric
        have addresses := compareEtherAddr_pos peer.election.selfAddr current.selfAddr
        simp only [Outranks,UInt32.lt_iff_toNat_lt,← UInt32.toNat_inj] at order
        simp only [tall,cycle,follows,awdlElectionCompareMaster,order,ne_eq,Bool.not_true,Bool.false_eq_true,if_false,
          not_false_eq_true,decide_true,Bool.and_self,true_and,gt_iff_lt,
          UInt32.lt_iff_toNat_lt,← UInt32.toNat_inj,← addresses]
        split_ifs <;> first | rfl | omega

def standing (own : AwdlElectionState) (c : Option AwdlElectionState) : Rank := rank (c.getD own)

def field (self : EtherAddr) (peers : AwdlPeers) : List (Option AwdlElectionState) :=
  ((stored peers).filter (eligible self)).map fun peer => some peer.election

-- The loop over the table is the one-pass choice of a champion.
theorem master_champion (state : AwdlElectionState) (peers : AwdlPeers) :
    awdlElectionMaster state peers =
      champion (standing (awdlElectionResetSelf state)) none (field state.selfAddr peers) := by
  have fold := iterate_fold (m := peers) (s := none)
    (fun _ m entry c => (m,awdlElectionConsider (awdlElectionResetSelf state) entry.2 c))
    (fun c entry => awdlElectionConsider (awdlElectionResetSelf state) entry.2 c) (fun _ _ _ _ => rfl)
  rw [awdlElectionMaster,awdlPeersIterate_hashmap,fold,champion,field,stored,List.foldl_map,
    List.foldl_filter,List.foldl_map]
  dsimp only
  congr 1
  funext c entry
  rw [consider_outranks]
  have self : (awdlElectionResetSelf state).selfAddr = state.selfAddr := rfl
  rw [self]
  by_cases able : eligible state.selfAddr entry.2 = true
  · by_cases better : standing (awdlElectionResetSelf state) c < rank entry.2.election
    · rw [if_pos able,if_pos ⟨able,better⟩,challenge,if_pos (by exact better)]
    · rw [if_pos able,if_neg (fun both => better both.2),challenge,if_neg (by exact better)]
  · rw [if_neg able,if_neg (fun both => able both.1)]

theorem candidate_field (state : AwdlElectionState) (peers : AwdlPeers) (c : Option AwdlElectionState) :
    c ∈ none :: field state.selfAddr peers ↔
      c = none ∨ ∃ peer ∈ stored peers, eligible state.selfAddr peer = true ∧ some peer.election = c := by
  simp [field,and_assoc]

end EspOwl.ElectionOrder
