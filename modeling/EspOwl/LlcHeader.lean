import EspOwl.DataFrames
import EspOwl.Tx
import EspOwl.Dispatch

namespace EspOwl.LlcHeader
open ByteCodec DataFrames

theorem be16_read (b0 b1 : UInt8) : be16 (UInt16.ofNat (beValue [b0,b1])) = [b0,b1] := by
  have small : beValue [b0,b1] < 65536 := by simpa using beValue_lt [b0,b1]
  have exact : (UInt16.ofNat (beValue [b0,b1])).toNat = beValue [b0,b1] := UInt16.toNat_ofNat_of_lt small
  rw [be16,exact]
  exact congrArg List.reverse (leBytes_leValue [b1,b0])

-- Every eight bytes are a header.
theorem llc_laid {frame : Buf} (long : LlcHdr.size ≤ frame.length) : ∃ llc : LlcHdr, ∃ rest, frame = llc.bytes ++ rest := by
  rcases frame with _ | ⟨b0,_ | ⟨b1,_ | ⟨b2,_ | ⟨b3,_ | ⟨b4,_ | ⟨b5,_ | ⟨b6,_ | ⟨b7,rest⟩⟩⟩⟩⟩⟩⟩⟩
  iterate 8 exact absurd long (by simp only [List.length_cons,List.length_nil]; decide)
  exact ⟨⟨b0,b1,b2,⟨b3,b4,b5⟩,UInt16.ofNat (beValue [b6,b7])⟩,rest,by rw [LlcHdr.bytes,be16_read]; rfl⟩

theorem valid_fields (llc : LlcHdr) (rest : List UInt8) : awdlValidLlcHeader (llc.bytes ++ rest) = true ↔
    llc.dsap = 0xaa ∧ llc.ssap = 0xaa ∧ llc.control = 0x03 ∧ llc.pid = awdlLlcProtocolId := by
  simp only [awdlValidLlcHeader,llcParse_bytes,Bool.not_eq_true',Bool.or_eq_false_iff,bne_eq_false_iff_eq,and_assoc]

-- RX_OK with a packet behind **out.
def Accepted (outcome : RxResult × List Buf × AwdlState) : Prop := outcome.1 = .ok ∧ outcome.2.1 ≠ []

variable {hash : EtherAddr → UInt64} {state : AwdlState} {src : EtherAddr}

theorem accepted_iff (mem : Nat → UInt8) (frame : Buf) (dst : EtherAddr) (known : knownPeer hash state src = true) :
    Accepted (awdlRxData hash mem frame src dst state) ↔ wellFormed frame = true := by
  cases formed : wellFormed frame with
  | true =>
    rw [rxData_emits mem dst known formed]
    exact iff_of_true ⟨rfl,List.cons_ne_nil _ _⟩ rfl
  | false =>
    obtain ⟨result,ran,_⟩ := rxData_malformed mem dst known formed
    rw [ran]
    exact iff_of_false (fun accepted => accepted.2 rfl) (by decide)

theorem formed_header (formed : wellFormed frame = true) :
    ∃ oui rest, frame = (LlcHdr.mk 0xaa 0xaa 0x03 oui awdlLlcProtocolId).bytes ++ rest := by
  rw [wellFormed,Bool.and_eq_true,decide_eq_true_eq] at formed
  obtain ⟨valid,long⟩ := formed
  obtain ⟨⟨dsap,ssap,control,oui,pid⟩,rest,rfl⟩ := llc_laid (le_trans (Nat.le_add_right _ _) long)
  obtain ⟨rfl,rfl,rfl,rfl⟩ := (valid_fields _ _).mp valid
  exact ⟨oui,rest,rfl⟩

theorem oui_exact (oui : Oui) (rest : List UInt8) :
    ((LlcHdr.mk 0xaa 0xaa 0x03 oui awdlLlcProtocolId).bytes ++ rest).take LlcHdr.size = llcInitAwdlHdr ↔
      slice 3 3 ((LlcHdr.mk 0xaa 0xaa 0x03 oui awdlLlcProtocolId).bytes ++ rest) = awdlOui.bytes := by
  have laid : ((LlcHdr.mk 0xaa 0xaa 0x03 oui awdlLlcProtocolId).bytes ++ rest).take LlcHdr.size =
      [0xaa,0xaa,0x03] ++ (oui.bytes ++ be16 awdlLlcProtocolId) := rfl
  have sent : llcInitAwdlHdr = [0xaa,0xaa,0x03] ++ (awdlOui.bytes ++ be16 awdlLlcProtocolId) := rfl
  have read : slice 3 3 ((LlcHdr.mk 0xaa 0xaa 0x03 oui awdlLlcProtocolId).bytes ++ rest) = oui.bytes := rfl
  rw [laid,sent,read,List.append_cancel_left_eq,List.append_cancel_right_eq]

theorem llc_refused_iff (mem : Nat → UInt8) (frame : Buf) (dst : EtherAddr) (known : knownPeer hash state src = true) :
    ((Accepted (awdlRxData hash mem frame src dst state) → frame.take LlcHdr.size = llcInitAwdlHdr) ↔
      (wellFormed frame = true → slice 3 3 frame = awdlOui.bytes)) ∧
    ∀ data payload fcs : List UInt8, data.length = 8 → 1 ≤ payload.length → payload.length ≤ 1503 → fcs.length = 4 →
      frame = llcInitAwdlHdr ++ data ++ payload ++ fcs → Accepted (awdlRxData hash mem frame src dst state) := by
  rw [accepted_iff mem frame dst known]
  refine ⟨forall_congr' fun formed => ?_,?_⟩
  · obtain ⟨oui,rest,rfl⟩ := formed_header formed
    exact oui_exact oui rest
  · rintro data payload fcs header _ _ _ rfl
    rw [wellFormed,Bool.and_eq_true,decide_eq_true_eq,List.append_assoc,List.append_assoc]
    refine ⟨(valid_fields _ _).mpr ⟨rfl,rfl,rfl,rfl⟩,?_⟩
    rw [bufLen,List.length_append,List.length_append,header]
    exact Nat.add_le_add_left (Nat.le_add_right _ _) _

open Dispatch

theorem knows_two : knownPeer (fun _ => 0) acquainted nodeTwo = true := by decide +kernel

theorem llc_refused_one : Accepted (awdlRxData (fun _ => 0) (fun _ => 0)
    (llcInitAwdlHdr ++ (AwdlData.mk 0x0403 0 0 ethPIpv6).bytes ++ [1] ++ [0,0,0,0]) nodeTwo nodeOne acquainted) :=
  (llc_refused_iff _ _ nodeOne knows_two).2 (AwdlData.mk 0x0403 0 0 ethPIpv6).bytes [1] [0,0,0,0] (by decide)
    (by decide) (by decide) (by decide) rfl

-- A SNAP header of another organisation with the protocol id of AWDL.
def foreignData : Buf := dataBody ⟨0,0,0⟩ ⟨0x0403,0,0,ethPIpv6⟩ [1,0,0,0,0]

theorem llc_foreign : ¬ ∀ hash mem frame src dst state, knownPeer hash state src = true →
    Accepted (awdlRxData hash mem frame src dst state) → frame.take LlcHdr.size = llcInitAwdlHdr := by
  intro always
  have same := always (fun _ => 0) (fun _ => 0) foreignData nodeTwo nodeOne acquainted knows_two
    ((accepted_iff _ _ _ knows_two).mpr (dataBody_formed _ _ _))
  revert same
  decide +kernel

end EspOwl.LlcHeader
