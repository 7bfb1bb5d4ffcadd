import EspOwl.Dispatch

namespace EspOwl.DataOutput
open ByteCodec DataFrames Dispatch

-- All behind the headers but the frame check sequence.
def carried (frame : Buf) : List UInt8 := slice 16 (frame.length - 20) frame

-- Too short for the frame check sequence, or too long for the output buffer.
def Misfit (frame : Buf) : Prop := frame.length < 20 ∨ etherMaxLen < 15 + (carried frame).length

structure Complete (src dst : EtherAddr) (frame packet : Buf) : Prop where
  dst : readEtherAddr packet 0 = some dst
  src : readEtherAddr packet 6 = some src
  etherType : readBe16 packet 12 = readBe16 frame 14
  payload : readBytes packet 15 (carried frame).length = some (carried frame)

-- What a call owes to the frame it was given.
structure CompleteOrRefused (src dst : EtherAddr) (frame : Buf) (run : RxResult × List Buf × AwdlState) : Prop where
  complete : run.1 = .ok → run.2.1 ≠ [] → ∃ packet, run.2.1 = [packet] ∧ Complete src dst frame packet
  refused : Misfit frame → run.1.code < 0 ∧ run.2.1 = []

section Lengths

theorem carried_length (frame : Buf) : (carried frame).length = frame.length - 20 := by
  simp only [carried,slice,List.length_take,List.length_drop]
  omega

theorem misfit_iff (frame : Buf) : Misfit frame ↔ frame.length < 20 ∨ 1523 < frame.length := by
  rw [Misfit,carried_length,etherMaxLen]
  omega

theorem dataPayload_carried (long : 20 ≤ frame.length) : dataPayload frame = carried frame := by
  have taken : bufTake (frame.drop 16) 4 = some ((frame.drop 16).take (frame.length - 20)) := by
    rw [bufTake,bufLen,List.length_drop,if_neg (by omega)]
    congr 2
  change (bufTake (frame.drop 16) 4).getD (frame.drop 16) = _
  rw [taken]
  rfl

end Lengths

theorem readWord_drop (decode : List UInt8 → α) (skipped : Nat) (long : skipped + offset + n ≤ frame.length) :
    readWord n decode (frame.drop skipped) offset = readWord n decode frame (skipped + offset) := by
  rw [readWord_long decode (by rw [List.length_drop]; omega),readWord_long decode long,slice,List.drop_drop]
  rfl

theorem dataEtherType_read (long : 20 ≤ frame.length) : readBe16 frame 14 = some (dataEtherType frame) := by
  have moved : readBe16 (frame.drop 8) 6 = readBe16 frame 14 := readWord_drop _ 8 (by omega)
  have read : readBe16 frame 14 = some _ := readWord_long _ (by omega)
  change _ = some ((readBe16 (frame.drop 8) 6).getD 0)
  rw [moved,read]
  rfl

-- The fields of a packet that is laid out as header and rest.
theorem header_fields (dst src : EtherAddr) (etherType : UInt16) (len : UInt8) (rest : List UInt8) :
    let packet := packetHeader dst src etherType len ++ rest
    readEtherAddr packet 0 = some dst ∧ readEtherAddr packet 6 = some src ∧ readBe16 packet 12 = some etherType := by
  intro packet
  have laid : packet = dst.bytes ++ (src.bytes ++ (be16 etherType ++ ([len] ++ rest))) := by
    simp [packet,packetHeader]
  have third := readWord_at (fun bytes => UInt16.ofNat (beValue bytes)) (dst.bytes ++ src.bytes) (be16 etherType)
    ([len] ++ rest) (be16_length _)
  rw [be16_value,List.append_assoc] at third
  rw [laid]
  exact ⟨readEtherAddr_at [] 0 rfl dst _,readEtherAddr_at dst.bytes 6 rfl src _,third⟩

theorem packet_complete (mem : Nat → UInt8) (src dst : EtherAddr) (long : 20 ≤ frame.length)
    (fits : frame.length ≤ 1523) : Complete src dst frame (packetOf mem ⟨dst,src,frame⟩) := by
  have size := carried_length frame
  obtain ⟨rest,layout,held⟩ := ethernetFrame_layout mem dst src (dataEtherType frame) (carried frame)
  have packet : packetOf mem ⟨dst,src,frame⟩ =
      packetHeader dst src (dataEtherType frame) (UInt8.ofNat (carried frame).length) ++ rest := by
    rw [packetOf,dataPayload_carried long,layout]
  obtain ⟨first,second,third⟩ := header_fields dst src (dataEtherType frame) (UInt8.ofNat (carried frame).length) rest
  have data := held (by omega)
  have room := congrArg List.length data
  rw [List.length_take] at room
  have behind := slice_skip (packetHeader dst src (dataEtherType frame) (UInt8.ofNat (carried frame).length)) rest 0
    (carried frame).length
  change slice 15 _ _ = rest.take (carried frame).length at behind
  rw [packet]
  refine ⟨first,second,third.trans (dataEtherType_read long).symm,?_⟩
  have inside : 15 + (carried frame).length ≤ (packetHeader dst src (dataEtherType frame)
      (UInt8.ofNat (carried frame).length) ++ rest).length := by
    rw [List.length_append]
    change _ ≤ 15 + rest.length
    omega
  rw [readBytes,readWord_long id inside,behind,data]
  rfl

variable {hash : EtherAddr → UInt64}

theorem complete_or_refused_iff (mem : Nat → UInt8) (frame : Buf) (src dst : EtherAddr) (state : AwdlState) :
    CompleteOrRefused src dst frame (awdlRxData hash mem frame src dst state) ↔
      20 ≤ frame.length ∧ frame.length ≤ 1523 ∨ knownPeer hash state src = true ∧ wellFormed frame = false := by
  have fitting : 20 ≤ frame.length ∧ frame.length ≤ 1523 ↔ ¬ Misfit frame := by
    rw [misfit_iff]
    omega
  rw [fitting]
  cases known : knownPeer hash state src with
  | false =>
    rw [rxData_unknown mem frame dst known]
    constructor
    · rintro ⟨_,refused⟩
      refine .inl fun misfit => ?_
      exact absurd (refused misfit).1 (by decide : ¬ RxResult.ignorePeer.code < 0)
    · rintro (fits | ⟨held,_⟩)
      · exact ⟨fun _ emitted => absurd rfl emitted,fun misfit => absurd misfit fits⟩
      · cases held
  | true =>
    cases formed : wellFormed frame with
    | false =>
      obtain ⟨result,ran,negative⟩ := rxData_malformed mem dst known formed
      rw [ran]
      exact iff_of_true ⟨fun _ emitted => absurd rfl emitted,fun _ => ⟨negative,rfl⟩⟩ (.inr ⟨rfl,rfl⟩)
    | true =>
      rw [rxData_emits mem dst known formed]
      constructor
      · rintro ⟨_,refused⟩
        refine .inl fun misfit => ?_
        exact absurd (refused misfit).1 (by decide : ¬ RxResult.ok.code < 0)
      · rintro (fits | ⟨_,malformed⟩)
        · obtain ⟨long,short⟩ := fitting.mpr fits
          exact ⟨fun _ _ => ⟨_,rfl,packet_complete mem src dst long short⟩,fun misfit => absurd misfit fits⟩
        · cases malformed

-- Two bytes behind the headers: nothing is taken off, and they go out as the payload.
theorem incomplete_output : ¬ ∀ (hash : EtherAddr → UInt64) (mem : Nat → UInt8) (frame : Buf) (src dst : EtherAddr)
    (state : AwdlState), CompleteOrRefused src dst frame (awdlRxData hash mem frame src dst state) := by
  intro always
  have short : Misfit (dataBody awdlOui ⟨0x0403,0,0,ethPIpv6⟩ [1,2]) := .inl (by decide)
  have refused := (always (fun _ => 0) (fun _ => 0) _ nodeTwo nodeOne acquainted).refused short
  exact absurd refused.1 (by decide +kernel)

end EspOwl.DataOutput
