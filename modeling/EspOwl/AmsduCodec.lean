import EspOwl.Dispatch

namespace EspOwl.AmsduCodec
open ByteCodec DataFrames Subframes Dispatch

-- A subframe as a sender means it: addresses, the two headers and the payload.
-- `fill` gives the bytes of its padding.
structure Msdu where
  dst : EtherAddr
  src : EtherAddr
  oui : Oui
  data : AwdlData
  payload : List UInt8
  fill : Nat → UInt8

namespace Msdu

def body (m : Msdu) : Buf := dataBody m.oui m.data m.payload
def subframe (m : Msdu) : Subframe := ⟨m.dst,m.src,m.body⟩
def bytes (m : Msdu) : List UInt8 := m.dst.bytes ++ (m.src.bytes ++ (be16 (UInt16.ofNat m.body.length) ++ m.body))
def padBytes (m : Msdu) : List UInt8 := (List.range (padding m.body.length)).map m.fill

theorem body_length (m : Msdu) : m.body.length = m.payload.length + 16 := dataBody_length _ _ _

end Msdu

-- All but the last subframe are padded.
def encodeAmsdu : List Msdu → Buf
  | [] => []
  | m :: rest => m.bytes ++ if rest.isEmpty then [] else m.padBytes ++ encodeAmsdu rest

theorem encodeAmsdu_nonempty (m : Msdu) (rest : List Msdu) : 0 < bufLen (encodeAmsdu (m :: rest)) := by
  rw [encodeAmsdu,bufLen,Msdu.bytes]
  exact Nat.succ_pos _

theorem readSubframe_bytes (m : Msdu) (rest : List UInt8) (fits : m.body.length < 65536) :
    readSubframe (m.bytes ++ rest) = some (m.subframe,rest) := by
  have exact : (UInt16.ofNat m.body.length).toNat = m.body.length := UInt16.toNat_ofNat_of_lt fits
  have first : readEtherAddr (m.bytes ++ rest) 0 = some m.dst :=
    readWord_at EtherAddr.ofBytes [] m.dst.bytes _ rfl
  have second : readEtherAddr (m.bytes ++ rest) 6 = some m.src :=
    readWord_at EtherAddr.ofBytes m.dst.bytes m.src.bytes _ rfl
  have third : readBe16 (m.bytes ++ rest) 12 = some (UInt16.ofNat m.body.length) := by
    have found := readWord_at (fun bytes => UInt16.ofNat (beValue bytes)) (m.dst.bytes ++ m.src.bytes)
      (be16 (UInt16.ofNat m.body.length)) (m.body ++ rest) (be16_length _)
    rw [be16_value] at found
    exact found
  have fourth : bufStrip (m.bytes ++ rest) 14 = some (m.body ++ rest) :=
    strip_append (m.dst.bytes ++ m.src.bytes ++ be16 (UInt16.ofNat m.body.length)) (m.body ++ rest)
  have inside : ¬ m.body.length > bufLen (m.body ++ rest) := by
    rw [bufLen,List.length_append]
    omega
  simp only [readSubframe,first,second,third,fourth,checkedRead_some,exact,if_neg inside,strip_append,
    List.take_left']
  rfl

theorem stripPadding_bytes (m : Msdu) (rest : List Msdu) :
    stripPadding m.body.length (if rest.isEmpty then [] else m.padBytes ++ encodeAmsdu rest) =
      some (encodeAmsdu rest) := by
  cases rest with
  | nil => rfl
  | cons next rest =>
    have more := encodeAmsdu_nonempty next rest
    have width : m.padBytes.length = padding m.body.length := by simp [Msdu.padBytes]
    have positive : bufLen (m.padBytes ++ encodeAmsdu (next :: rest)) > 0 := by
      rw [bufLen,List.length_append]
      exact Nat.lt_add_left _ more
    simp only [List.isEmpty_cons,Bool.false_eq_true,if_false,stripPadding,if_pos positive,← width,strip_append]

variable {hash : EtherAddr → UInt64} {subs : List Msdu}

-- The loop reaches the end of the encoding, one output a subframe.
theorem amsdu_decoded (bufMem : Nat → Nat → UInt8) (emitted : Nat) (state : AwdlState)
    (known : ∀ m ∈ subs, knownPeer hash state m.src = true) (fits : ∀ m ∈ subs, m.body.length < 65536) :
    ∃ after, awdlRxDataAmsdu hash bufMem emitted (encodeAmsdu subs) state =
      (.ok,subs.mapIdx (fun i m => packetOf (bufMem (emitted + i)) m.subframe),after) := by
  induction subs generalizing emitted state with
  | nil => exact ⟨state,amsdu_empty bufMem emitted state⟩
  | cons m rest ih =>
    have next := readSubframe_bytes m (if rest.isEmpty then [] else m.padBytes ++ encodeAmsdu rest)
      (fits m List.mem_cons_self)
    have ran := rxData_emits (bufMem emitted) m.dst (known m List.mem_cons_self)
      (dataBody_formed m.oui m.data m.payload)
    obtain ⟨after,later⟩ := ih (emitted + 1) (countData state)
      (fun other member => known other (List.mem_cons_of_mem _ member))
      (fun other member => fits other (List.mem_cons_of_mem _ member))
    have moved : (fun i (m : Msdu) => packetOf (bufMem (emitted + (i + 1))) m.subframe) =
        fun i m => packetOf (bufMem (emitted + 1 + i)) m.subframe := by
      funext i m
      rw [Nat.add_assoc,Nat.add_comm 1 i]
    have padded : stripPadding m.subframe.body.length (if rest.isEmpty then [] else m.padBytes ++ encodeAmsdu rest) =
        some (encodeAmsdu rest) := stripPadding_bytes m rest
    refine ⟨after,?_⟩
    rw [encodeAmsdu,amsdu_next bufMem emitted next ran (by decide),padded,List.mapIdx_cons,moved]
    simp only [List.length_singleton,later]
    rfl

-- What the packet shows of a payload: the last four bytes are cut, and the length
-- field has eight bits.
def kept (payload : List UInt8) : List UInt8 := (bufTake payload 4).getD payload
def shown (payload : List UInt8) : List UInt8 := (kept payload).take ((kept payload).length % 256)

theorem kept_length (payload : List UInt8) : (kept payload).length ≤ payload.length ∧
    (3 < payload.length → (kept payload).length < payload.length) := by
  rw [kept,bufTake,bufLen]
  split
  · rw [Option.getD_none]
    omega
  · rw [Option.getD_some,List.length_take]
    omega

theorem shown_iff (payload : List UInt8) : shown payload = payload ↔ payload.length ≤ 3 := by
  by_cases short : payload.length ≤ 3
  · have whole : kept payload = payload := by
      rw [kept,bufTake,bufLen,if_pos (by omega),Option.getD_none]
    rw [shown,whole,Nat.mod_eq_of_lt (by omega),List.take_length]
    exact iff_of_true rfl short
  · refine iff_of_false ?_ short
    intro same
    have width := congrArg List.length same
    have cut := (kept_length payload).2 (by omega)
    rw [shown,List.length_take] at width
    omega

theorem packet_shown (mem : Nat → UInt8) (m : Msdu) (short : m.payload.length ≤ 1503) :
    AwdlPacket.ofBytes (packetOf mem m.subframe) = ⟨m.dst,m.src,m.data.ethertype,
        (AwdlPacket.ofBytes (packetOf mem m.subframe)).len,(AwdlPacket.ofBytes (packetOf mem m.subframe)).data⟩ ∧
      (AwdlPacket.ofBytes (packetOf mem m.subframe)).payload = shown m.payload := by
  have fits := (kept_length m.payload).1.trans short
  have type : dataEtherType m.body = m.data.ethertype := dataBody_etherType _ _ _
  have data : dataPayload m.subframe.body = kept m.payload := dataBody_payload _ _ _
  rw [← data] at fits
  obtain ⟨rest,packet,held⟩ := packet_payload mem m.subframe fits
  rw [data] at packet held
  rw [packet]
  refine ⟨by rw [Msdu.subframe,type],?_⟩
  have less := Nat.mod_le (kept m.payload).length 256
  have cut : (rest.take (kept m.payload).length).take ((kept m.payload).length % 256) =
      rest.take ((kept m.payload).length % 256) := by
    rw [List.take_take,Nat.min_eq_left less]
  rw [held] at cut
  rw [AwdlPacket.payload,shown,UInt8.toNat_ofNat']
  exact cut.symm

-- One output a subframe, in order, with its addresses, ether type and payload.
def Decodes (hash : EtherAddr → UInt64) (bufMem : Nat → Nat → UInt8) (emitted : Nat) (state : AwdlState)
    (subs : List Msdu) : Prop :=
  let run := awdlRxDataAmsdu hash bufMem emitted (encodeAmsdu subs) state
  run.1 = .ok ∧
    (run.2.1.map fun out =>
      let packet := AwdlPacket.ofBytes out
      (packet.dst,packet.src,packet.etherType,packet.payload)) =
    subs.map fun m => (m.dst,m.src,m.data.ethertype,m.payload)

-- The tail that awdl_rx_data cuts is the frame check sequence of a whole frame; a
-- subframe has none, and loses payload unless it has fewer than four bytes.
theorem amsdu_decodes_iff (bufMem : Nat → Nat → UInt8) (emitted : Nat) (state : AwdlState) (subs : List Msdu)
    (known : ∀ m ∈ subs, knownPeer hash state m.src = true) (short : ∀ m ∈ subs, m.payload.length ≤ 1503) :
    Decodes hash bufMem emitted state subs ↔ ∀ m ∈ subs, m.payload.length ≤ 3 := by
  obtain ⟨after,ran⟩ := amsdu_decoded bufMem emitted state known (by
    intro m member
    have width := m.body_length
    have bound := short m member
    omega)
  have seen : (subs.mapIdx fun i m => packetOf (bufMem (emitted + i)) m.subframe).map (fun out =>
      let packet := AwdlPacket.ofBytes out
      (packet.dst,packet.src,packet.etherType,packet.payload)) =
      subs.map fun m => (m.dst,m.src,m.data.ethertype,shown m.payload) := by
    apply List.ext_getElem (by simp)
    intro i left right
    have inside : i < subs.length := by simpa using right
    obtain ⟨packet,payload⟩ := packet_shown (bufMem (emitted + i)) subs[i] (short _ (List.getElem_mem inside))
    simp only [List.getElem_map,List.getElem_mapIdx]
    rw [payload,packet]
  simp only [Decodes,ran,seen,true_and]
  rw [List.map_inj_left]
  simp only [Prod.mk.injEq,true_and,shown_iff]

-- Two subframes with three bytes each, the first padded.
theorem amsdu_decodes_short : Decodes (fun _ => 0) quiet.bufMem 0 acquainted
    [⟨nodeOne,nodeTwo,awdlOui,⟨0x0403,0,0,ethPIpv6⟩,[1,2,3],fun _ => 0⟩,
      ⟨nodeOne,nodeTwo,awdlOui,⟨0x0403,1,0,ethPIpv6⟩,[4,5,6],fun _ => 0⟩] := by
  have known : knownPeer (fun _ => 0) acquainted nodeTwo = true := by decide +kernel
  exact (amsdu_decodes_iff _ _ _ _ (by simpa using known) (by simp)).mpr (by simp)

theorem amsdu_cuts_payload : ¬ Decodes (fun _ => 0) quiet.bufMem 0 acquainted
    [⟨nodeOne,nodeTwo,awdlOui,⟨0x0403,0,0,ethPIpv6⟩,[1,2,3,4,5],fun _ => 0⟩] := by
  have cut : ((awdlRxDataAmsdu (fun _ => 0) quiet.bufMem 0 (encodeAmsdu
      [⟨nodeOne,nodeTwo,awdlOui,⟨0x0403,0,0,ethPIpv6⟩,[1,2,3,4,5],fun _ => 0⟩]) acquainted).2.1.map fun out =>
        (AwdlPacket.ofBytes out).payload) = [[1]] := by decide +kernel
  rintro ⟨_,same⟩
  have payloads := congrArg (List.map fun view => view.2.2.2) same
  rw [List.map_map] at payloads
  exact absurd (cut.symm.trans payloads) (by decide)

end EspOwl.AmsduCodec
