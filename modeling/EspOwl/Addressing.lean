import EspOwl.FrameCheck
import EspOwl.NodeHistory

namespace EspOwl.Addressing
open Histories NodeHistory DataFrames Subframes Dispatch FrameCheck

variable {hash : EtherAddr → UInt64}

def ForNode (state : AwdlState) (dst : EtherAddr) : Prop := dst = state.selfAddress ∨ dst.isGroup = true

-- Each packet is for this node and from another one in its peer table.
def Addressed (hash : EtherAddr → UInt64) (state : AwdlState) (out : List Buf) : Prop :=
  ∀ buf ∈ out, let packet := AwdlPacket.ofBytes buf
    ForNode state packet.dst ∧ knownPeer hash state packet.src = true ∧ packet.src ≠ state.selfAddress

-- Every packet that awdl_rx emits for this frame.
def Delivered (hash : EtherAddr → UInt64) (env : Ambient) (rxCtrlLen : Nat) (frame : Buf) (now : UInt64)
    (state : AwdlState) : Prop :=
  ∀ run, awdlRx hash env rxCtrlLen frame now state = some run → Addressed hash state run.out

theorem packet_addrs (mem : Nat → UInt8) (subframe : Subframe) :
    (AwdlPacket.ofBytes (packetOf mem subframe)).dst = subframe.dst ∧
      (AwdlPacket.ofBytes (packetOf mem subframe)).src = subframe.src := by
  obtain ⟨rest,layout,_⟩ := ethernetFrame_layout mem subframe.dst subframe.src (dataEtherType subframe.body)
    (dataPayload subframe.body)
  rw [packetOf,layout,packet_header]
  exact ⟨rfl,rfl⟩

theorem self_unknown (unlisted : SelfUnlisted hash self state) : knownPeer hash state state.selfAddress = false := by
  obtain ⟨rfl,f,refines,absent⟩ := unlisted
  rw [knownPeer,refines.get_none absent]
  rfl

theorem known_other (unlisted : SelfUnlisted hash self state) (known : knownPeer hash state src = true) :
    src ≠ state.selfAddress := by
  rintro rfl
  rw [self_unknown unlisted] at known
  cases known

theorem amsdu_addressed_iff (unlisted : SelfUnlisted hash self state) (bufMem : Nat → Nat → UInt8) (body : Buf) :
    Addressed hash state (awdlRxDataAmsdu hash bufMem 0 body state).2.1 ↔
      ∀ s ∈ passed (knownPeer hash state) (subframes body), ForNode state s.dst := by
  rw [(amsdu_emits bufMem 0 body state).1]
  constructor
  · intro addressed s member
    obtain ⟨i,inside,rfl⟩ := List.mem_iff_getElem.mp member
    have emitted := addressed _ (List.mem_mapIdx.mpr ⟨i,inside,rfl⟩)
    dsimp only at emitted
    rw [(packet_addrs _ _).1] at emitted
    exact emitted.1
  · intro own buf member
    obtain ⟨i,inside,rfl⟩ := List.mem_mapIdx.mp member
    have known := passed_known (List.getElem_mem inside)
    dsimp only
    rw [(packet_addrs _ _).1,(packet_addrs _ _).2]
    exact ⟨own _ (List.getElem_mem inside),known,known_other unlisted known⟩

-- Plain and QoS data frames pass the address filter; the subframes of an A-MSDU
-- bring destinations that nothing looks at.
theorem delivered_addresses_iff (reached : Reached hash rxCtrlLen self trace state) (env : Ambient) (frame : Buf)
    (now : UInt64) :
    Delivered hash env rxCtrlLen frame now state ↔ ∀ body, route rxCtrlLen state.selfAddress frame = .amsdu body →
      ∀ s ∈ passed (knownPeer hash state) (subframes body), ForNode state s.dst := by
  have unlisted := reached_unlisted reached
  unfold Delivered
  rw [rx_follows]
  cases way : route rxCtrlLen state.selfAddress frame with
  | drop result =>
    refine iff_of_true ?_ (by simp)
    rintro run ran buf member
    cases ran
    cases member
  | action rssi src body =>
    refine iff_of_true ?_ (by simp)
    intro run ran buf member
    rw [action_out ran] at member
    cases member
  | data src dst body =>
    obtain ⟨other,own⟩ := route_data way
    refine iff_of_true ?_ (by simp)
    rintro run ran buf member
    cases ran
    change buf ∈ (awdlRxData hash (env.bufMem 0) body src dst state).2.1 at member
    rw [data_out] at member
    split at member
    · rename_i accepted
      rw [List.mem_singleton.mp member]
      have known : knownPeer hash state src = true := (Bool.and_eq_true_iff.mp accepted).1
      dsimp only
      rw [(packet_addrs _ _).1,(packet_addrs _ _).2]
      exact ⟨own.symm,known,known_other unlisted known⟩
    · cases member
  | amsdu body =>
    have emitted := amsdu_addressed_iff unlisted env.bufMem body
    constructor
    · intro addressed other same
      cases same
      exact emitted.mp (addressed _ rfl)
    · rintro own run ran
      cases ran
      exact emitted.mpr (own body rfl)

-- A PSF from a neighbour, which enters it in the table, then a frame of two subframes
-- from it, with these destinations.
def nodeThree : EtherAddr := ⟨2,0,0,0,0,3⟩
def roomy : Ambient := {quiet with fuel := 1}
def fresh : AwdlState := awdlInitState default [] nodeOne chanOpclass6 0
def greeting : List UInt8 :=
  radioHdr ++ (Ieee80211Hdr.mk 0x00d0 0 etherBroadcast nodeTwo awdlBssid 0).bytes ++ psfHdr.bytes
def twoSubframes (first second : EtherAddr) : List UInt8 :=
  radioHdr ++ (Ieee80211Hdr.mk 0x0088 0 nodeOne nodeTwo awdlBssid 0).bytes ++ le16 0x0080 ++
    (first.bytes ++ emptySubframe.drop 6 ++ (second.bytes ++ emptySubframe.drop 6))

def greeted : AwdlState := ((awdlRx (fun _ => 0) roomy 24 greeting 0 fresh).getD (.stop .ignore fresh)).state

theorem greeted_run : ∃ run, awdlRx (fun _ => 0) roomy 24 greeting 0 fresh = some run ∧ greeted = run.state := by
  have returns : (awdlRx (fun _ => 0) roomy 24 greeting 0 fresh).isSome := by decide +kernel
  obtain ⟨run,ran⟩ := Option.isSome_iff_exists.mp returns
  exact ⟨run,ran,by rw [greeted,ran,Option.getD_some]⟩

theorem greeted_reached : ∃ out, Reached (fun _ => 0) 24 nodeOne [(.receive roomy greeting 0,out)] greeted := by
  obtain ⟨run,ran,left⟩ := greeted_run
  rw [left]
  exact ⟨run.out,fresh,.init,.cons (.receive ran) .nil⟩

theorem greeted_self : greeted.selfAddress = nodeOne := by
  obtain ⟨_,reached⟩ := greeted_reached
  exact (reached_unlisted reached).1

theorem delivered_to_node : Delivered (fun _ => 0) quiet 24 (twoSubframes nodeOne etherBroadcast) 0 greeted := by
  obtain ⟨_,reached⟩ := greeted_reached
  refine (delivered_addresses_iff reached quiet _ 0).mpr ?_
  rw [greeted_self]
  intro body way s member
  have dsts : (passed (knownPeer (fun _ => 0) greeted) (subframes body)).map Subframe.dst =
      [nodeOne,etherBroadcast] := by
    cases way
    decide +kernel
  have listed := List.mem_map_of_mem (f := Subframe.dst) member
  rw [dsts,List.mem_cons,List.mem_singleton] at listed
  rcases listed with own | group
  · exact .inl (own.trans greeted_self.symm)
  · rw [ForNode,group]
    exact .inr rfl

theorem delivered_to_stranger : ¬ ∀ trace state, Reached (fun _ => 0) 24 nodeOne trace state →
    ∀ env frame now, Delivered (fun _ => 0) env 24 frame now state := by
  intro always
  obtain ⟨_,reached⟩ := greeted_reached
  have emitted : (awdlRx (fun _ => 0) quiet 24 (twoSubframes nodeThree nodeOne) 0 greeted).map
      (fun run => run.out.map fun buf => (AwdlPacket.ofBytes buf).dst) = some [nodeThree,nodeOne] := by
    decide +kernel
  obtain ⟨run,ran,dsts⟩ := Option.map_eq_some_iff.mp emitted
  obtain ⟨buf,member,dst⟩ := List.mem_map.mp (dsts.symm ▸ List.mem_cons_self : nodeThree ∈ run.out.map _)
  have own := (always _ _ reached quiet _ 0 run ran buf member).1
  rw [dst,ForNode,greeted_self] at own
  exact absurd own (by decide)

end EspOwl.Addressing
