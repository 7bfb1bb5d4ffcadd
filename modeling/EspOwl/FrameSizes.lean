import EspOwl.ActionTlvs
import EspOwl.PacketPath

namespace EspOwl.FrameSizes
open Histories Dispatch ActionTlvs TransmitQueues PacketPath

section Actions
variable (state : AwdlState)

theorem sequence_short : (awdlInitChanseq state).length ≤ 38 := by
  have slots := slot_bytes state.channel.enc
  rw [chanseq_length,awdlChanseqLength]
  omega

theorem name_short : state.name.text.length ≤ 65 := state.name.strlen_le

-- The two sequences and the name are all that varies.
theorem tlvs_length (clock : TxClock) (type : AwdlActionType) :
    (awdlActionTlvs clock state type).flatten.length =
      (match type with | .psf => 146 | .mif => 164 + state.name.text.length) +
        2 * (awdlInitChanseq state).length := by
  have election : (electionValue state).length = 21 := rfl
  have electionV2 : (electionV2Value state).length = 40 := rfl
  have service : serviceValue.length = 9 := rfl
  have ht : htValue.length = 8 := rfl
  have path : (dataPathValue state).length = 15 := rfl
  have version : (versionValue state).length = 2 := rfl
  rw [awdlActionTlvs,sync_tlv,election_tlv,chanseq_tlv,electionV2_tlv,service_tlv,ht_tlv,arpa_tlv,dataPath_tlv,
    version_tlv]
  cases type <;> simp [sync_length,election,electionV2,service,ht,path,version,chanseqValue,arpaValue] <;> omega

theorem action_length (clock : TxClock) (ieee80211State : Ieee80211State) (type : AwdlActionType) :
    (awdlInitFullActionFrame clock state ieee80211State type).1.length ≤ 400 := by
  have name := name_short state
  have sequence := sequence_short state
  have tlvs := tlvs_length state clock type
  have header : ∀ ieee80211State,
      (ieee80211InitAwdlActionHdr state.selfAddress state.dst ieee80211State).1.length = 24 := fun _ => rfl
  have fields : (awdlInitAction clock.action type).length = 16 := rfl
  have trailer : ∀ (fcs : Bool) frame, (if fcs = true then ieee80211AddFcs frame else []).length ≤ 4 := by
    intro fcs frame
    cases fcs with
    | false => exact Nat.zero_le _
    | true => exact le_rfl
  unfold awdlInitFullActionFrame
  dsimp only
  rw [List.length_append]
  refine (Nat.add_le_add_left (trailer _ _) _).trans ?_
  rw [List.length_append,List.length_append,header,fields,tlvs]
  cases type with
  | psf =>
    dsimp only
    omega
  | mif =>
    dsimp only
    omega

end Actions

theorem data_length (src dst : EtherAddr) (payload : List UInt8) (state : AwdlState)
    (plain : ieee80211State.fcs = false) :
    (awdlInitFullDataFrame src dst payload state ieee80211State).1.length = 40 + payload.length := by
  have header : (ieee80211InitAwdlDataHdr src dst ieee80211State).1.length = 24 := rfl
  have llc : llcInitAwdlHdr.length = 8 := rfl
  have data : (awdlInitData state).1.length = 8 := rfl
  have unchecked : (ieee80211InitAwdlDataHdr src dst ieee80211State).2.fcs = false := plain
  unfold awdlInitFullDataFrame
  dsimp only
  rw [unchecked,List.length_append,List.length_append,List.length_append,List.length_append,header,llc,data]
  simp only [Bool.false_eq_true,if_false,List.length_nil]
  omega

section Network
variable {T : Type} {hash : EtherAddr → UInt64} {ip6AddrIsmulticast : In6Addr → Bool} {esp : EspTimer T}
  {rxCtrlLen : Nat} {start net : DataNetwork T}

-- The arrays that awdl_send_action and awdl_send_data build their frames in are never too
-- short, for any action frame a node could send and any packet that waits in it.
theorem frames_fit (started : Started esp start)
    (path : Runs (NetStep hash ip6AddrIsmulticast esp rxCtrlLen) start trace net) (addr : EtherAddr) :
    let node := net.station addr
    (∀ clock type, (awdlInitFullActionFrame clock node.awdlState node.ieee80211State type).1.length ≤ 1600) ∧
    ∀ traffic packet, some packet ∈ (waiting node traffic).map node.heap.packetAt →
      ∃ frame, (awdlSendData packet.bytes node.awdlState node.ieee80211State).1 = some frame ∧
        frame.length = 34 + packet.bytes.length ∧ frame.length ≤ 2000 := by
  intro node
  obtain ⟨_,plain,queues,queued,made,_⟩ := (reached_carried started path).nodes addr
  refine ⟨fun clock type => ?_,fun traffic packet waits => ?_⟩
  · have length := action_length node.awdlState clock node.ieee80211State type
    omega
  · rw [waiting_packets queued] at waits
    obtain ⟨_,inside,same⟩ := List.mem_map.mp waits
    cases same
    have member : packet ∈ pending queues := by
      cases traffic with
      | unicast => exact List.mem_append_left _ inside
      | multicast => exact List.mem_append_right _ inside
    obtain ⟨bytes,mtu⟩ := made packet member
    have total : packet.bytes.length = 6 + (content packet).length := by
      rw [bytes,List.length_append,EtherAddr.bytes_length]
    have sent := sendData_eq (destination ip6AddrIsmulticast (content packet)) (content packet) node.awdlState
      node.ieee80211State
    rw [← bytes] at sent
    have length := data_length node.awdlState.selfAddress (destination ip6AddrIsmulticast (content packet))
      (content packet) node.awdlState plain
    unfold awdlMtu at mtu
    exact ⟨_,congrArg Prod.fst sent,by rw [length]; omega,by rw [length]; omega⟩

end Network

theorem frames_fit_greeting : ∃ trace net frame,
    Runs (NetStep (fun _ => 0) groupAddr plainTimer 24) quietPair trace net ∧
    (waiting (net.station nodeTwo) .multicast).map (net.station nodeTwo).heap.packetAt =
      [some ⟨0,[0x33,0x33,0x80,0,0,0xfb] ++ toGroup⟩] ∧
    (awdlSendData ([0x33,0x33,0x80,0,0,0xfb] ++ toGroup) (net.station nodeTwo).awdlState
      (net.station nodeTwo).ieee80211State).1 = some frame ∧ frame.length = 80 ∧ frame.length ≤ 2000 := by
  let net : DataNetwork (Option UInt64) := {quietPair.change nodeTwo taken.2 with
    accepted := quietPair.accepted ++ takenIn nodeTwo (.transmit (fun _ => 0) false toGroup) taken.1
    air := quietPair.air ++ sentOut nodeTwo taken.1}
  have step : NetStep (fun _ => 0) groupAddr plainTimer 24 quietPair
      (.driver nodeTwo (.transmit (fun _ => 0) false toGroup)) () net :=
    .driver (show toGroup.length ≤ awdlMtu by decide) (.transmit (by decide) (by decide))
  have waits : (waiting (net.station nodeTwo) .multicast).map (net.station nodeTwo).heap.packetAt =
      [some ⟨0,[0x33,0x33,0x80,0,0,0xfb] ++ toGroup⟩] := by decide +kernel
  obtain ⟨frame,fits⟩ := (frames_fit quietPair_started (.cons step .nil) nodeTwo).2 .multicast ⟨0,_⟩
    (by rw [waits]; exact List.mem_singleton_self _)
  exact ⟨_,net,frame,.cons step .nil,waits,fits⟩

end EspOwl.FrameSizes
