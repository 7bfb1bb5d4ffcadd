import EspOwl.Addressing

namespace EspOwl.PeerExpiry
open Histories PartialMaps PeerMap PeerHistory Dispatch NodeHistory Addressing

variable {hash : EtherAddr → UInt64}

-- A clean-up at this time keeps every peer heard within the timeout and removes
-- every one not heard for longer.
def ExpiresOnTime (state : AwdlState) (now : UInt64) : Prop :=
  let left := (awdlCleanPeers now state).peers.peers
  ∀ addr peer, (addr,peer) ∈ state.peers.peers.entries →
    (peer.lastUpdate ≤ now → now.toNat - peer.lastUpdate.toNat ≤ state.peers.timeout.toNat →
      (addr,peer) ∈ left.entries) ∧
    (state.peers.timeout.toNat < (now.toNat - peer.lastUpdate.toNat : Int) → addr ∉ left.keys)

-- What the sweep leaves, read off the table.
theorem cleaned_entry (refines : Refines hash state.peers.peers f) (now : UInt64) :
    (addr,peer) ∈ (awdlCleanPeers now state).peers.peers.entries ↔
      (addr,peer) ∈ state.peers.peers.entries ∧ ¬ peer.lastUpdate < now - state.peers.timeout := by
  have swept := removeBefore_refines refines (now - state.peers.timeout)
  change (addr,peer) ∈ (awdlPeersRemove state.peers.peers (now - state.peers.timeout)).entries ↔ _
  rw [swept.listed.exact,refines.listed.exact,keepIf,Option.filter_eq_some_iff,decide_eq_true_iff]

-- The cut-off is an unsigned difference: until the clock has run for the timeout it
-- lies beyond every time stamp that the clock can have given.
theorem cutoff_value (now timeout : UInt64) :
    (now - timeout).toNat = if timeout ≤ now then now.toNat - timeout.toNat else now.toNat + 2 ^ 64 - timeout.toNat := by
  have left := now.toNat_lt
  have right := timeout.toNat_lt
  rw [UInt64.toNat_sub]
  split <;> rename_i early <;> rw [UInt64.le_iff_toNat_le] at early <;> omega

theorem cleaned_removes (refines : Refines hash state.peers.peers f) (stored : (addr,peer) ∈ state.peers.peers.entries)
    (old : peer.lastUpdate < now - state.peers.timeout) : addr ∉ (awdlCleanPeers now state).peers.peers.keys := by
  intro left
  obtain ⟨⟨a,other⟩,still,rfl⟩ := List.mem_map.mp left
  obtain ⟨before,recent⟩ := (cleaned_entry refines now).mp still
  have same : some peer = some other :=
    ((refines.listed.exact _ _).mp stored).symm.trans ((refines.listed.exact _ _).mp before)
  cases same
  exact recent old

theorem peers_expire_iff (reached : Reached hash rxCtrlLen self trace state) (now : UInt64) :
    ExpiresOnTime state now ↔ state.peers.timeout ≤ now ∨
      ∀ addr peer, (addr,peer) ∈ state.peers.peers.entries → now < peer.lastUpdate := by
  obtain ⟨_,f,refines,_⟩ := reached_unlisted reached
  have cutoff := cutoff_value now state.peers.timeout
  constructor
  · intro expires
    by_cases late : state.peers.timeout ≤ now
    · exact .inl late
    · refine .inr fun addr peer stored => ?_
      by_contra heard
      -- Before the timeout has run, no peer is due, and the cut-off takes every one.
      rw [if_neg late] at cutoff
      rw [UInt64.le_iff_toNat_le] at late
      rw [UInt64.lt_iff_toNat_lt] at heard
      have kept := (expires addr peer stored).1 (UInt64.le_iff_toNat_le.mpr (by omega)) (by omega)
      refine ((cleaned_entry refines now).mp kept).2 ?_
      rw [UInt64.lt_iff_toNat_lt]
      have limit := state.peers.timeout.toNat_lt
      omega
  · rintro (late | ahead)
    · rw [if_pos late] at cutoff
      rw [UInt64.le_iff_toNat_le] at late
      intro addr peer stored
      constructor
      · intro heard recent
        refine (cleaned_entry refines now).mpr ⟨stored,?_⟩
        rw [UInt64.lt_iff_toNat_lt]
        omega
      · intro overdue
        refine cleaned_removes refines stored ?_
        rw [UInt64.lt_iff_toNat_lt]
        omega
    · intro addr peer stored
      have later := ahead addr peer stored
      rw [UInt64.lt_iff_toNat_lt] at later
      refine ⟨fun heard => ?_,fun overdue => ?_⟩
      · rw [UInt64.le_iff_toNat_le] at heard
        omega
      · omega

-- The neighbour heard at 0 is gone at the first clean-up, one second later.
theorem expired_early : ¬ ∀ trace state, Reached (fun _ => 0) 24 nodeOne trace state →
    ∀ now, ExpiresOnTime state now := by
  intro always
  obtain ⟨_,reached⟩ := greeted_reached
  have expires := always _ _ reached 1000000
  have listed : greeted.peers.peers.entries.map (fun entry => entry.2.lastUpdate) = [0] := by decide +kernel
  obtain ⟨⟨addr,peer⟩,stored,stamp⟩ := List.mem_map.mp (listed ▸ List.mem_cons_self : (0 : UInt64) ∈ _)
  dsimp only at stamp
  have left : (awdlCleanPeers 1000000 greeted).peers.peers.entries.length = 0 := by decide +kernel
  have kept := (expires addr peer stored).1 (by rw [stamp]; decide) (by rw [stamp]; decide +kernel)
  rw [List.length_eq_zero_iff.mp left] at kept
  cases kept

-- Three seconds after boot it goes on time.
theorem peers_expire_late : ExpiresOnTime greeted 3000000 := by
  obtain ⟨_,reached⟩ := greeted_reached
  exact (peers_expire_iff reached 3000000).mpr (.inl (by decide +kernel))

end EspOwl.PeerExpiry
