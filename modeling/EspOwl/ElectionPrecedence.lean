import EspOwl.TlvLoop

namespace EspOwl.ElectionPrecedence

inductive Version where
  | v1
  | v2
deriving DecidableEq, Repr

def Version.type : Version → UInt8
  | .v1 => awdlElectionParametersTlv
  | .v2 => awdlElectionParametersV2Tlv

def Version.size : Version → Nat
  | .v1 => 19
  | .v2 => 40

-- One election TLV, with what the call that handles it meets.
structure Arrival where
  version : Version
  val : Buf
  complete : version.size ≤ val.length
  mem : Fin awdlChanseqLength → AwdlChan
  state : AwdlState
  tsft : UInt64

def receive (src : AwdlPeer) (a : Arrival) : AwdlPeer :=
  (awdlHandleTlv a.mem src a.version.type a.val a.state a.tsft).2.1

def receiveAll (src : AwdlPeer) (arrivals : List Arrival) : AwdlPeer := arrivals.foldl receive src

def lastOf (version : Version) (arrivals : List Arrival) : Option Arrival :=
  (arrivals.filter fun a => a.version = version).getLast?

-- The fields of a record are those that a value carries.
structure HoldsV1 (val : Buf) (e : AwdlElectionState) : Prop where
  height : (readU8 val 3).map UInt8.toUInt32 = some e.height
  masterAddr : readEtherAddr val 5 = some e.masterAddr
  masterMetric : readLe32 val 11 = some e.masterMetric
  selfMetric : readLe32 val 15 = some e.selfMetric

structure HoldsV2 (val : Buf) (e : AwdlElectionState) : Prop where
  masterAddr : readEtherAddr val 0 = some e.masterAddr
  syncAddr : readEtherAddr val 6 = some e.syncAddr
  masterCounter : readLe32 val 12 = some e.masterCounter
  height : readLe32 val 16 = some e.height
  masterMetric : readLe32 val 20 = some e.masterMetric
  selfMetric : readLe32 val 24 = some e.selfMetric
  selfCounter : readLe32 val 36 = some e.selfCounter

-- What version 1 has no field for.
structure SameRest (before after : AwdlElectionState) : Prop where
  syncAddr : after.syncAddr = before.syncAddr
  masterCounter : after.masterCounter = before.masterCounter
  selfCounter : after.selfCounter = before.selfCounter

section Steps

theorem receive_v2 (src : AwdlPeer) (a : Arrival) (newer : a.version = .v2) :
    (receive src a).supportsV2 = true ∧ HoldsV2 a.val (receive src a).election := by
  obtain ⟨version,val,complete,mem,state,tsft⟩ := a
  subst newer
  have long : 40 ≤ val.length := complete
  have height : readLe32 val 16 = some _ := readWord_long _ (by omega)
  have masterAddr : readEtherAddr val 0 = some _ := readWord_long _ (by rw [etherAddrLen]; omega)
  have syncAddr : readEtherAddr val 6 = some _ := readWord_long _ (by rw [etherAddrLen]; omega)
  have masterCounter : readLe32 val 12 = some _ := readWord_long _ (by omega)
  have masterMetric : readLe32 val 20 = some _ := readWord_long _ (by omega)
  have selfMetric : readLe32 val 24 = some _ := readWord_long _ (by omega)
  have selfCounter : readLe32 val 36 = some _ := readWord_long _ (by omega)
  change (awdlHandleElectionParamsV2Tlv src val).2.supportsV2 = true ∧
    HoldsV2 val (awdlHandleElectionParamsV2Tlv src val).2.election
  unfold awdlHandleElectionParamsV2Tlv
  rw [height,masterAddr,syncAddr,masterCounter,masterMetric,selfMetric,selfCounter]
  exact ⟨rfl,masterAddr,syncAddr,masterCounter,height,masterMetric,selfMetric,selfCounter⟩

theorem receive_v1_ignored (src : AwdlPeer) (a : Arrival) (older : a.version = .v1) (newer : src.supportsV2 = true) :
    receive src a = src := by
  obtain ⟨version,val,complete,mem,state,tsft⟩ := a
  subst older
  change (awdlHandleElectionParamsTlv src val).2 = src
  rw [awdlHandleElectionParamsTlv,if_pos newer]

theorem receive_v1 (src : AwdlPeer) (a : Arrival) (older : a.version = .v1) (first : src.supportsV2 = false) :
    (receive src a).supportsV2 = false ∧ HoldsV1 a.val (receive src a).election ∧
      SameRest src.election (receive src a).election := by
  obtain ⟨version,val,complete,mem,state,tsft⟩ := a
  subst older
  have long : 19 ≤ val.length := complete
  have distance : readU8 val 3 = some _ := readWord_long _ (by omega)
  have masterAddr : readEtherAddr val 5 = some _ := readWord_long _ (by rw [etherAddrLen]; omega)
  have masterMetric : readLe32 val 11 = some _ := readWord_long _ (by omega)
  have selfMetric : readLe32 val 15 = some _ := readWord_long _ (by omega)
  change (awdlHandleElectionParamsTlv src val).2.supportsV2 = false ∧
    HoldsV1 val (awdlHandleElectionParamsTlv src val).2.election ∧
      SameRest src.election (awdlHandleElectionParamsTlv src val).2.election
  unfold awdlHandleElectionParamsTlv
  rw [if_neg (by rw [first]; decide),distance,masterAddr,masterMetric,selfMetric]
  exact ⟨first,⟨by rw [distance]; rfl,masterAddr,masterMetric,selfMetric⟩,rfl,rfl,rfl⟩

theorem receive_owner (src : AwdlPeer) (a : Arrival) : (receive src a).election.selfAddr = src.election.selfAddr :=
  (TlvLoop.handle_footprint a.mem src a.version.type a.val a.state a.tsft).owner

end Steps

section Sequences

theorem receiveAll_snoc (src : AwdlPeer) (arrivals : List Arrival) (a : Arrival) :
    receiveAll src (arrivals ++ [a]) = receive (receiveAll src arrivals) a := by
  rw [receiveAll,List.foldl_append]
  rfl

theorem lastOf_snoc (version : Version) (arrivals : List Arrival) (a : Arrival) :
    lastOf version (arrivals ++ [a]) = if a.version = version then some a else lastOf version arrivals := by
  rw [lastOf,List.filter_append]
  split
  · rename_i same
    simp [same]
  · rename_i other
    simp [lastOf,other]

-- Version 2 once seen decides alone; before that the record has version 1 at most.
structure Received (start : AwdlElectionState) (arrivals : List Arrival) (src : AwdlPeer) : Prop where
  owner : src.election.selfAddr = start.selfAddr
  newer : ∀ a, lastOf .v2 arrivals = some a → src.supportsV2 = true ∧ HoldsV2 a.val src.election
  older : lastOf .v2 arrivals = none → src.supportsV2 = false ∧ SameRest start src.election ∧
    ∀ a, lastOf .v1 arrivals = some a → HoldsV1 a.val src.election

theorem received_step (received : Received start arrivals src) (a : Arrival) :
    Received start (arrivals ++ [a]) (receive src a) := by
  have owner := (receive_owner src a).trans received.owner
  cases kind : a.version with
  | v2 =>
    refine ⟨owner,?_,?_⟩
    · intro last found
      rw [lastOf_snoc,if_pos kind,Option.some.injEq] at found
      subst found
      exact receive_v2 src a kind
    · intro missing
      rw [lastOf_snoc,if_pos kind] at missing
      cases missing
  | v1 =>
    have other : a.version ≠ .v2 := by rw [kind]; decide
    cases seen : lastOf .v2 arrivals with
    | some last =>
      obtain ⟨supports,holds⟩ := received.newer last seen
      rw [receive_v1_ignored src a kind supports]
      refine ⟨received.owner,?_,?_⟩
      · intro found same
        rw [lastOf_snoc,if_neg other,seen,Option.some.injEq] at same
        subst same
        exact ⟨supports,holds⟩
      · intro missing
        rw [lastOf_snoc,if_neg other,seen] at missing
        cases missing
    | none =>
      obtain ⟨first,rest,_⟩ := received.older seen
      obtain ⟨still,holds,same⟩ := receive_v1 src a kind first
      refine ⟨owner,?_,fun _ => ⟨still,?_,?_⟩⟩
      · intro last found
        rw [lastOf_snoc,if_neg other,seen] at found
        cases found
      · exact ⟨same.syncAddr.trans rest.syncAddr,same.masterCounter.trans rest.masterCounter,
          same.selfCounter.trans rest.selfCounter⟩
      · intro last found
        rw [lastOf_snoc,if_pos kind,Option.some.injEq] at found
        subst found
        exact holds

theorem received_all (src : AwdlPeer) (fresh : src.supportsV2 = false) (arrivals : List Arrival) :
    Received src.election arrivals (receiveAll src arrivals) := by
  induction arrivals using List.reverseRecOn with
  | nil => exact ⟨rfl,fun _ found => absurd found (by simp [lastOf]),fun _ => ⟨fresh,⟨rfl,rfl,rfl⟩,fun _ found =>
      absurd found (by simp [lastOf])⟩⟩
  | append_singleton arrivals a ih =>
    rw [receiveAll_snoc]
    exact received_step ih a

theorem v2_takes_precedence (addr : EtherAddr) (mem : AwdlPeer) (arrivals : List Arrival) :
    let new := (awdlPeerNew addr mem).election
    let election := (receiveAll (awdlPeerNew addr mem) arrivals).election
    election.selfAddr = addr ∧
      (∀ last, lastOf .v2 arrivals = some last → HoldsV2 last.val election) ∧
      (lastOf .v2 arrivals = none → ∀ last, lastOf .v1 arrivals = some last →
        HoldsV1 last.val election ∧ SameRest new election) := by
  have received := received_all (awdlPeerNew addr mem) rfl arrivals
  refine ⟨received.owner,?_,?_⟩
  · intro last found
    exact (received.newer last found).2
  · intro missing last found
    obtain ⟨_,rest,holds⟩ := received.older missing
    exact ⟨holds last found,rest⟩

end Sequences
end EspOwl.ElectionPrecedence
