import EspOwl.Rx

namespace EspOwl.DataFrames
open ByteCodec

-- struct awdl_packet laid over an output buffer. The ether type is the value after
-- EndianConvert16; data runs to the end of the buffer.
structure AwdlPacket where
  dst : EtherAddr
  src : EtherAddr
  etherType : UInt16
  len : UInt8
  data : List UInt8
deriving DecidableEq, Repr

def AwdlPacket.ofBytes (bytes : List UInt8) : AwdlPacket where
  dst := EtherAddr.ofBytes (slice 0 6 bytes)
  src := EtherAddr.ofBytes (slice 6 6 bytes)
  etherType := UInt16.ofNat (beValue (slice 12 2 bytes))
  len := bytes.getD 14 0
  data := bytes.drop 15

-- What the length field lets a reader of the packet see.
def AwdlPacket.payload (packet : AwdlPacket) : List UInt8 := packet.data.take packet.len.toNat

theorem writeNext_fits (filled rest bytes : List UInt8) (fits : bytes.length ≤ rest.length) :
    writeNext (fun out offset => writeBytes out offset bytes) (filled.length,filled ++ rest) =
      (((filled ++ bytes).length : Int),(filled ++ bytes) ++ rest.drop bytes.length) := by
  have inside : ¬ ((filled.length : Int) < 0 ∨ (filled.length : Int) + bytes.length > bufLen (filled ++ rest)) := by
    simp only [bufLen,List.length_append]
    omega
  simp [writeNext,writeBytes,inside,← List.drop_drop]

theorem writeNext_overflow (filled rest bytes : List UInt8) (large : rest.length < bytes.length) :
    (writeNext (fun out offset => writeBytes out offset bytes) (filled.length,filled ++ rest)).2 = filled ++ rest := by
  have outside : (filled.length : Int) < 0 ∨ (filled.length : Int) + bytes.length > bufLen (filled ++ rest) := by
    simp only [bufLen,List.length_append]
    omega
  simp [writeNext,writeBytes,outside]

def packetHeader (dst src : EtherAddr) (etherType : UInt16) (len : UInt8) : List UInt8 :=
  dst.bytes ++ src.bytes ++ be16 etherType ++ [len]

-- The buffer holds the header, and the data if it fits behind it.
theorem ethernetFrame_layout (mem : Nat → UInt8) (dst src : EtherAddr) (etherType : UInt16) (data : List UInt8) :
    ∃ rest, ethernetFrame mem dst src etherType data =
        packetHeader dst src etherType (UInt8.ofNat data.length) ++ rest ∧
      (data.length ≤ 1503 → rest.take data.length = data) := by
  have fresh : (bufNewOwned etherMaxLen mem).length = 1518 := by simp [bufNewOwned,etherMaxLen]
  generalize blank : bufNewOwned etherMaxLen mem = buf at fresh
  have first := writeNext_fits [] buf dst.bytes (by simp only [EtherAddr.bytes_length]; omega)
  have second := writeNext_fits dst.bytes (buf.drop 6) src.bytes
    (by simp only [EtherAddr.bytes_length,List.length_drop]; omega)
  have third := writeNext_fits (dst.bytes ++ src.bytes) (buf.drop 12) (be16 etherType)
    (by simp only [be16_length,List.length_drop]; omega)
  have fourth := writeNext_fits (dst.bytes ++ src.bytes ++ be16 etherType) (buf.drop 14) [UInt8.ofNat data.length]
    (by simp only [List.length_singleton,List.length_drop]; omega)
  simp only [EtherAddr.bytes_length,be16_length,List.length_append,List.length_nil,List.length_singleton,
    List.drop_drop,Nat.reduceAdd,List.nil_append] at first second third fourth
  have header : ethernetFrame mem dst src etherType data = (writeNext (fun out offset => writeBytes out offset data)
      ((packetHeader dst src etherType (UInt8.ofNat data.length)).length,
        packetHeader dst src etherType (UInt8.ofNat data.length) ++ buf.drop 15)).2 := by
    unfold ethernetFrame writeEtherAddr writeBe16 writeU8
    dsimp only
    rw [blank]
    erw [first,second,third,fourth]
    rfl
  rw [header]
  by_cases fits : data.length ≤ 1503
  · have last := writeNext_fits (packetHeader dst src etherType (UInt8.ofNat data.length)) (buf.drop 15) data
      (by rw [List.length_drop]; omega)
    rw [last]
    refine ⟨data ++ (buf.drop 15).drop data.length,by simp,?_⟩
    intro _
    simp
  · rw [writeNext_overflow _ _ _ (by rw [List.length_drop]; omega)]
    exact ⟨buf.drop 15,rfl,fun small => absurd small fits⟩

theorem packet_header (dst src : EtherAddr) (etherType : UInt16) (len : UInt8) (rest : List UInt8) :
    AwdlPacket.ofBytes (packetHeader dst src etherType len ++ rest) = ⟨dst,src,etherType,len,rest⟩ := by
  have value := be16_value etherType
  change AwdlPacket.mk _ _ (UInt16.ofNat (beValue (be16 etherType))) _ _ = _
  rw [value]
  rfl

section Known
variable (hash : EtherAddr → UInt64)

def knownPeer (state : AwdlState) (addr : EtherAddr) : Bool := (awdlPeerGet hash state.peers.peers addr).1 = .ok

-- Both headers that awdl_rx_data looks for are there.
def wellFormed (frame : Buf) : Bool := awdlValidLlcHeader frame && decide (LlcHdr.size + AwdlData.size ≤ bufLen frame)

def dataEtherType (frame : Buf) : UInt16 := (readBe16 (frame.drop LlcHdr.size) 6).getD 0

-- The bytes copied to the packet: all behind the headers but the last four.
def dataPayload (frame : Buf) : List UInt8 :=
  let data := frame.drop (LlcHdr.size + AwdlData.size)
  (bufTake data 4).getD data

def packetOf (mem : Nat → UInt8) (subframe : Subframe) : Buf :=
  ethernetFrame mem subframe.dst subframe.src (dataEtherType subframe.body) (dataPayload subframe.body)

def countData (state : AwdlState) : AwdlState := {state with stats.rxData := state.stats.rxData + 1}

variable {hash}

theorem rxData_unknown (mem : Nat → UInt8) (frame : Buf) (dst : EtherAddr) (unknown : knownPeer hash state src = false) :
    awdlRxData hash mem frame src dst state = (.ignorePeer,[],countData state) := by
  have absent : (awdlPeerGet hash state.peers.peers src).1 ≠ .ok := by simpa [knownPeer] using unknown
  simp [awdlRxData,absent,countData]

theorem rxData_malformed (mem : Nat → UInt8) (dst : EtherAddr) (known : knownPeer hash state src = true)
    (malformed : wellFormed frame = false) :
    ∃ result, awdlRxData hash mem frame src dst state = (result,[],countData state) ∧ result.code < 0 := by
  have held : (awdlPeerGet hash state.peers.peers src).1 = .ok := by simpa [knownPeer] using known
  cases valid : awdlValidLlcHeader frame with
  | false => exact ⟨.unexpectedFormat,by simp [awdlRxData,held,valid,countData],by decide⟩
  | true =>
    have short : frame.length < 16 := by
      rw [wellFormed,valid,Bool.true_and,decide_eq_false_iff_not,not_le] at malformed
      exact malformed
    refine ⟨.tooShort,?_,by decide⟩
    have rest : bufLen ((bufStrip frame LlcHdr.size).getD frame) < AwdlData.size ∨ frame.length < 8 := by
      by_cases tiny : frame.length < 8
      · exact .inr tiny
      · have stripped : bufStrip frame LlcHdr.size = some (frame.drop 8) := by
          simp [bufStrip,bufLen,LlcHdr.size,tiny]
        rw [stripped,Option.getD_some,bufLen,List.length_drop,AwdlData.size]
        exact .inl (by omega)
    rcases rest with small | tiny
    · simp [awdlRxData,held,valid,countData,small]
    · have unread : readBe16 frame 6 = none := readWord_short (by omega)
      exfalso
      unfold awdlValidLlcHeader llcParse at valid
      rw [unread] at valid
      cases first : readU8 frame 0 <;> cases second : readU8 frame 1 <;> cases third : readU8 frame 2 <;>
        cases fourth : readBytesCopy frame 3 3 <;> simp [first,second,third,fourth] at valid

theorem rxData_emits (mem : Nat → UInt8) (dst : EtherAddr) (known : knownPeer hash state src = true)
    (formed : wellFormed frame = true) :
    awdlRxData hash mem frame src dst state = (.ok,[packetOf mem ⟨dst,src,frame⟩],countData state) := by
  have held : (awdlPeerGet hash state.peers.peers src).1 = .ok := by simpa [knownPeer] using known
  simp only [wellFormed,Bool.and_eq_true,decide_eq_true_eq] at formed
  obtain ⟨valid,long⟩ := formed
  change 16 ≤ frame.length at long
  have first : bufStrip frame LlcHdr.size = some (frame.drop 8) := by
    rw [bufStrip,bufLen,if_neg (by rw [LlcHdr.size]; omega)]
    rfl
  have second : bufStrip (frame.drop 8) AwdlData.size = some (frame.drop 16) := by
    rw [bufStrip,bufLen,List.length_drop,if_neg (by rw [AwdlData.size]; omega),List.drop_drop]
    rfl
  have enough : ¬ bufLen (frame.drop 8) < AwdlData.size := by
    rw [bufLen,List.length_drop,AwdlData.size]
    omega
  simp only [awdlRxData,held,valid,first,second,enough,Option.getD_some,ne_eq,not_true_eq_false,if_false,
    Bool.not_true,Bool.false_eq_true]
  rfl

-- Whatever the frame, only a counter changes.
theorem rxData_counts (mem : Nat → UInt8) (frame : Buf) (src dst : EtherAddr) (state : AwdlState) :
    (awdlRxData hash mem frame src dst state).2.2 = countData state := by
  unfold awdlRxData
  dsimp only
  split
  · rfl
  · split
    · rfl
    · split <;> rfl

end Known

-- A data frame behind the 802.11 header, as a sender lays it out.
def dataBody (oui : Oui) (data : AwdlData) (payload : List UInt8) : Buf :=
  (LlcHdr.mk 0xaa 0xaa 0x03 oui awdlLlcProtocolId).bytes ++ data.bytes ++ payload

theorem dataBody_length (oui : Oui) (data : AwdlData) (payload : List UInt8) :
    (dataBody oui data payload).length = payload.length + 16 := by
  change (payload.length + 1 + 1 + 1 + 1 + 1 + 1 + 1 + 1 + 1 + 1 + 1 + 1 + 1 + 1 + 1 + 1) = _
  rfl

theorem llcParse_bytes (llc : LlcHdr) (rest : List UInt8) : llcParse (llc.bytes ++ rest) = some llc := by
  have pid := readWord_at (fun bytes => UInt16.ofNat (beValue bytes))
    ([llc.dsap,llc.ssap,llc.control] ++ llc.oui.bytes) (be16 llc.pid) rest (be16_length _)
  rw [be16_value] at pid
  have fifth : readBe16 (llc.bytes ++ rest) 6 = some llc.pid := pid
  have first : readU8 (llc.bytes ++ rest) 0 = some llc.dsap := rfl
  have second : readU8 (llc.bytes ++ rest) 1 = some llc.ssap := rfl
  have third : readU8 (llc.bytes ++ rest) 2 = some llc.control := rfl
  have fourth : readBytesCopy (llc.bytes ++ rest) 3 3 = some llc.oui.bytes := rfl
  simp only [llcParse,first,second,third,fourth,fifth,checkedRead_some]
  rfl

theorem dataBody_formed (oui : Oui) (data : AwdlData) (payload : List UInt8) :
    wellFormed (dataBody oui data payload) = true := by
  have long : LlcHdr.size + AwdlData.size ≤ bufLen (dataBody oui data payload) := by
    rw [bufLen,dataBody_length]
    exact Nat.le_add_left _ _
  rw [wellFormed,awdlValidLlcHeader,dataBody,List.append_assoc,llcParse_bytes,← List.append_assoc]
  change _ && decide (LlcHdr.size + AwdlData.size ≤ bufLen (dataBody oui data payload)) = true
  rw [decide_eq_true long]
  rfl

theorem dataBody_etherType (oui : Oui) (data : AwdlData) (payload : List UInt8) :
    dataEtherType (dataBody oui data payload) = data.ethertype := by
  have found := readWord_at (fun bytes => UInt16.ofNat (beValue bytes))
    (le16 data.head ++ le16 data.seq ++ le16 data.pad) (be16 data.ethertype) payload (be16_length _)
  rw [be16_value] at found
  have read : readBe16 ((dataBody oui data payload).drop LlcHdr.size) 6 = some data.ethertype := found
  rw [dataEtherType,read,Option.getD_some]

theorem dataBody_payload (oui : Oui) (data : AwdlData) (payload : List UInt8) :
    dataPayload (dataBody oui data payload) = (bufTake payload 4).getD payload := rfl

-- What reaches a reader of the packet is the payload without its last four bytes,
-- as long as the length field holds that many.
theorem packet_payload (mem : Nat → UInt8) (subframe : Subframe) (fits : (dataPayload subframe.body).length ≤ 1503) :
    ∃ data, AwdlPacket.ofBytes (packetOf mem subframe) = ⟨subframe.dst,subframe.src,dataEtherType subframe.body,
        UInt8.ofNat (dataPayload subframe.body).length,data⟩ ∧
      data.take (dataPayload subframe.body).length = dataPayload subframe.body := by
  obtain ⟨rest,layout,held⟩ := ethernetFrame_layout mem subframe.dst subframe.src (dataEtherType subframe.body)
    (dataPayload subframe.body)
  exact ⟨rest,by rw [packetOf,layout,packet_header],held fits⟩

end EspOwl.DataFrames
