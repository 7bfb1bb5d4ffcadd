import EspOwl.Dispatch
import EspOwl.Tx

namespace EspOwl.Delivery
open DataFrames Dispatch

-- awdl_receive_frame of capture.c: the state, and the buffers handed to
-- esp_netif_receive. Only the first output is looked at; `netif` says whether the
-- interface was found.
def awdlReceiveFrame (hash : EtherAddr → UInt64) (env : Ambient) (rxCtrlLen : Nat) (netif : Bool) (buf : Buf)
    (now : UInt64) (state : AwdlState) : Option (AwdlState × List (List UInt8)) :=
  match awdlRx hash env rxCtrlLen buf now state with
  | none => none
  | some run =>
    match run.out with
    | [] => some (run.state,[])
    | first :: _ => some (run.state,if netif then [(AwdlPacket.ofBytes first).payload] else [])

variable {hash : EtherAddr → UInt64}

-- The part of awdl_rx behind the radio header sees the 802.11 header as it was sent.
theorem route_sent (self : EtherAddr) (radio : List UInt8) (hdr : Ieee80211Hdr) (body : List UInt8) :
    route radio.length self (radio ++ (hdr.bytes ++ body)) =
      if hdr.addr2 = self then .drop .ignoreFromSelf
      else if !hdr.addr1.isGroup ∧ hdr.addr1 ≠ self then .drop .ignoreNopromisc
      else routeBody ((radio ++ hdr.bytes).getD 0 0) hdr.addr2 hdr.addr1 hdr.frameControl body := by
  have first : readU8 (radio ++ (hdr.bytes ++ body)) 0 = some ((radio ++ hdr.bytes).getD 0 0) := by
    cases radio with
    | nil => rfl
    | cons rssi rest => rfl
  have third : readBytes (hdr.bytes ++ body) 0 Ieee80211Hdr.size = some hdr.bytes :=
    readWord_at id [] hdr.bytes body rfl
  have fourth : bufStrip (hdr.bytes ++ body) Ieee80211Hdr.size = some body := strip_append hdr.bytes body
  simp only [route,first,strip_append,third,checkedRead_some,routeHdr,Ieee80211Hdr.ofBytes_bytes,fourth]

def RoundTrip (hash : EtherAddr → UInt64) (env : Ambient) (netif : Bool) (radio : List UInt8) (src dst : EtherAddr)
    (payload : List UInt8) (sender : AwdlState) (ieee80211State : Ieee80211State) (fcs : List UInt8) (now : UInt64)
    (receiver : AwdlState) : Prop :=
  (awdlReceiveFrame hash env radio.length netif
    (radio ++ (awdlInitFullDataFrame src dst payload sender ieee80211State).1 ++ fcs) now receiver).map Prod.snd =
      some [payload]

-- The frame of a sender, behind the 802.11 header.
theorem data_frame_bytes (src dst : EtherAddr) (payload : List UInt8) (sender : AwdlState)
    (ieee80211State : Ieee80211State) :
    ∃ (hdr : Ieee80211Hdr) (data : AwdlData) (own : List UInt8),
      (awdlInitFullDataFrame src dst payload sender ieee80211State).1 =
        hdr.bytes ++ dataBody awdlOui data (payload ++ own) ∧
      hdr.addr1 = dst ∧ hdr.addr2 = src ∧ hdr.frameControl = 0x0008 ∧
      own.length = if ieee80211State.fcs then 4 else 0 := by
  refine ⟨⟨0x0008,0,dst,src,awdlBssid,ieee80211State.sequenceNumber <<< 4⟩,
    ⟨awdlDataHead,sender.sequenceNumber,awdlDataPad,ethPIpv6⟩,?own,?bytes,rfl,rfl,rfl,?width⟩
  case own =>
    exact if ieee80211State.fcs then ieee80211AddFcs
      ((Ieee80211Hdr.mk 0x0008 0 dst src awdlBssid (ieee80211State.sequenceNumber <<< 4)).bytes ++ llcInitAwdlHdr ++
        (AwdlData.mk awdlDataHead sender.sequenceNumber awdlDataPad ethPIpv6).bytes ++ payload) else []
  case bytes =>
    simp only [dataBody,← List.append_assoc]
    rfl
  case width =>
    split <;> simp [ieee80211AddFcs]

theorem data_received (env : Ambient) (netif : Bool) (radio : List UInt8) (hdr : Ieee80211Hdr) (data : AwdlData)
    (content fcs : List UInt8) (now : UInt64) (receiver : AwdlState)
    (present : netif = true) (kind : hdr.frameControl = 0x0008) (known : knownPeer hash receiver hdr.addr2 = true)
    (addressed : hdr.addr1 = receiver.selfAddress ∨ hdr.addr1.isGroup = true)
    (check : fcs.length = 4) (fits : content.length ≤ 1503) (foreign : hdr.addr2 ≠ receiver.selfAddress) :
    (awdlReceiveFrame hash env radio.length netif
      (radio ++ (hdr.bytes ++ dataBody awdlOui data (content ++ fcs))) now receiver).map Prod.snd =
        some [content.take (content.length % 256)] := by
  have way : route radio.length receiver.selfAddress
      (radio ++ (hdr.bytes ++ dataBody awdlOui data (content ++ fcs))) =
        .data hdr.addr2 hdr.addr1 (dataBody awdlOui data (content ++ fcs)) := by
    have accepted : ¬ (!hdr.addr1.isGroup ∧ hdr.addr1 ≠ receiver.selfAddress) := by
      rcases addressed with own | group
      · simp [own]
      · simp [group]
    rw [route_sent,if_neg foreign,if_neg accepted,routeBody,kind]
    rfl
  have cut : dataPayload (dataBody awdlOui data (content ++ fcs)) = content := by
    rw [dataBody_payload,← check,take_append,Option.getD_some]
  obtain ⟨rest,packet,held⟩ := packet_payload (env.bufMem 0)
    ⟨hdr.addr1,hdr.addr2,dataBody awdlOui data (content ++ fcs)⟩ (by simpa only [cut] using fits)
  simp only [cut] at packet held
  have less := Nat.mod_le content.length 256
  have shown : (rest.take content.length).take (content.length % 256) = rest.take (content.length % 256) := by
    rw [List.take_take,Nat.min_eq_left less]
  rw [held] at shown
  rw [awdlReceiveFrame,rx_follows,way]
  simp only [follow,RxRun.ofData,rxData_emits _ _ known (dataBody_formed _ _ _),packet,present,if_true,Option.map_some,
    AwdlPacket.payload,UInt8.toNat_ofNat']
  rw [shown]

-- The length field of the internal packet is written and read as one byte.
theorem data_round_trip_iff (env : Ambient) (netif : Bool) (radio : List UInt8) (src dst : EtherAddr)
    (payload : List UInt8) (sender : AwdlState) (ieee80211State : Ieee80211State) (fcs : List UInt8) (now : UInt64)
    (receiver : AwdlState) (lower : 40 ≤ payload.length) (upper : payload.length ≤ 1280) (check : fcs.length = 4)
    (known : knownPeer hash receiver src = true) (addressed : dst = receiver.selfAddress ∨ dst.isGroup = true)
    (present : netif = true) :
    RoundTrip hash env netif radio src dst payload sender ieee80211State fcs now receiver ↔
      payload.length ≤ 255 ∧ ieee80211State.fcs = false ∧ src ≠ receiver.selfAddress := by
  obtain ⟨hdr,data,own,sent,rfl,rfl,kind,width⟩ := data_frame_bytes src dst payload sender ieee80211State
  have whole : radio ++ (hdr.bytes ++ dataBody awdlOui data (payload ++ own)) ++ fcs =
      radio ++ (hdr.bytes ++ dataBody awdlOui data (payload ++ own ++ fcs)) := by
    simp only [dataBody,List.append_assoc]
  rw [RoundTrip,sent,whole]
  by_cases own_frame : hdr.addr2 = receiver.selfAddress
  · rw [awdlReceiveFrame,rx_follows,route_sent,if_pos own_frame]
    refine iff_of_false ?_ (fun all => all.2.2 own_frame)
    simp [follow,RxRun.stop]
  · have total : (payload ++ own).length = payload.length + own.length := List.length_append
    have small : own.length ≤ 4 := by rw [width]; split <;> omega
    rw [data_received env netif radio hdr data (payload ++ own) fcs now receiver present kind known addressed check
      (by omega) own_frame]
    simp only [Option.some.injEq,List.cons.injEq,and_true]
    constructor
    · intro same
      have length := congrArg List.length same
      rw [List.length_take] at length
      cases mode : ieee80211State.fcs with
      | false =>
        rw [mode] at width
        simp only [Bool.false_eq_true,if_false] at width
        exact ⟨by omega,rfl,own_frame⟩
      | true =>
        rw [mode,if_pos rfl] at width
        omega
    · rintro ⟨short,mode,_⟩
      rw [mode] at width
      have empty : own = [] := List.eq_nil_of_length_eq_zero (by simpa using width)
      rw [empty,List.append_nil,Nat.mod_eq_of_lt (by omega),List.take_length]

theorem data_round_trip_forty : RoundTrip (fun _ => 0) quiet true radioHdr nodeTwo nodeOne (List.replicate 40 7)
    acquainted ieee80211InitState [1,2,3,4] 0 acquainted :=
  (data_round_trip_iff quiet true radioHdr nodeTwo nodeOne _ acquainted ieee80211InitState _ 0 acquainted
    (by decide) (by decide) rfl (by decide +kernel) (.inl rfl) rfl).mpr ⟨by decide,rfl,by decide⟩

-- Of 256 bytes none arrives.
theorem data_round_trip_truncates : ¬ RoundTrip (fun _ => 0) quiet true radioHdr nodeTwo nodeOne
    (List.replicate 256 7) acquainted ieee80211InitState [1,2,3,4] 0 acquainted := by
  have delivered : (awdlReceiveFrame (fun _ => 0) quiet 24 true (radioHdr ++ (awdlInitFullDataFrame nodeTwo nodeOne
      (List.replicate 256 7) acquainted ieee80211InitState).1 ++ [1,2,3,4]) 0 acquainted).map Prod.snd =
        some [[]] := by
    decide +kernel
  intro same
  exact absurd (delivered.symm.trans same) (by decide)

end EspOwl.Delivery
