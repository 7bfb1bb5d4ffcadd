import EspOwl.ActionFrames
import EspOwl.Dispatch

namespace EspOwl.FrameCheck
open TlvLoop ActionFrames Dispatch

variable {hash : EtherAddr → UInt64}

-- Up to four bytes behind the last TLV are left alone.
theorem end_short (short : frame.length ≤ 4) (env : Ambient) (callocs : List Bool) (tsft : UInt64)
    (src : EtherAddr) (subtype : AwdlActionType) (run : TlvRun) (called : List AwdlPeer) :
    awdlRxActionEnd hash env callocs tsft src subtype {run with frame := frame} called =
      awdlRxActionEnd hash env callocs tsft src subtype {run with frame := []} called := by
  have kept : ¬ bufLen (if bufLen frame = 1 ∧ frame.getD 0 0 = 0x00 then (bufStrip frame 1).getD frame else frame) > 4 := by
    split
    · rename_i single
      have whole : bufStrip frame 1 = some (frame.drop 1) := by simp [bufStrip,single.1]
      rw [whole,Option.getD_some,bufLen,List.length_drop]
      omega
    · rw [bufLen]
      omega
  unfold awdlRxActionEnd
  simp only [if_neg kept]
  rfl

-- The loop on a four-byte trailer: it depends on the TLV that the trailer reads as.
def trailerRun (chanMem : Nat → Fin awdlChanseqLength → AwdlChan) (tsft : UInt64) (src : AwdlPeer)
    (state : AwdlState) : Option Tlv → TlvRun
  | none => ⟨.ok,[],src,state,[]⟩
  | some (type,val) =>
    let run := awdlHandleTlv (chanMem 4) src type val state tsft
    ⟨if run.1.code < 0 then .unexpectedFormat else .ok,[],run.2.1,run.2.2,[(type,val)]⟩

theorem trailer_calls (chanMem : Nat → Fin awdlChanseqLength → AwdlChan) (tsft : UInt64) (src : AwdlPeer)
    (state : AwdlState) (tlv : Option Tlv) : (trailerRun chanMem tsft src state tlv).calls = tlv.toList := by
  cases tlv <;> rfl

theorem trailer_kept (chanMem : Nat → Fin awdlChanseqLength → AwdlChan) (tsft : UInt64) (src : AwdlPeer)
    (state : AwdlState) (tlv : Option Tlv) :
    (trailerRun chanMem tsft src state tlv).state.peers = state.peers := by
  cases tlv with
  | none => rfl
  | some tlv =>
    obtain ⟨_,same⟩ := (handle_footprint (chanMem 4) src tlv.1 tlv.2 state tsft).sync
    change (awdlHandleTlv (chanMem 4) src tlv.1 tlv.2 state tsft).2.2.peers = state.peers
    rw [same]

theorem tlvs_trailer (four : trailer.length = 4) (chanMem : Nat → Fin awdlChanseqLength → AwdlChan) (tsft : UInt64)
    (src : AwdlPeer) (state : AwdlState) : ∃ rest : Buf, rest.length ≤ 4 ∧
      awdlRxTlvs chanMem tsft trailer src state =
        {trailerRun chanMem tsft src state (readTlv trailer 0) with frame := rest} := by
  cases found : readTlv trailer 0 with
  | none => exact ⟨trailer,four.le,tlvs_end found src state⟩
  | some tlv =>
    obtain ⟨type,val⟩ := tlv
    cases handled : awdlHandleTlv (chanMem 4) src type val state tsft with
    | mk result rest =>
      obtain ⟨after,changed⟩ := rest
      have ran : awdlHandleTlv (chanMem (bufLen trailer)) src type val state tsft = (result,after,changed) := by
        rw [bufLen,four,handled]
      by_cases failed : result.code < 0
      · refine ⟨trailer,four.le,?_⟩
        rw [tlvs_rejected found ran failed,trailerRun,handled]
        simp only [if_pos failed]
      · -- at most one byte is left, too few for a type and a length
        have left : (trailer.drop (val.length + 3)).length ≤ 1 := by
          rw [List.length_drop]
          omega
        have last : readTlv (trailer.drop (val.length + 3)) 0 = none := by
          cases more : readTlv (trailer.drop (val.length + 3)) 0 with
          | none => rfl
          | some next =>
            obtain ⟨_,_⟩ := next
            have inside := readTlv_length more
            omega
        refine ⟨trailer.drop (val.length + 3),by omega,?_⟩
        rw [tlvs_next found ran failed,tlvs_end last,trailerRun,handled]
        simp only [if_neg failed,TlvRun.after,List.append_nil]

theorem action_through (env : Ambient) (start : admission hash env af.bytes rssi tsft src state = .entered entry)
    (fits : ∀ tlv ∈ tlvs, tlv.2.length < 65536)
    (handled : handleAll env.chanMem tsft 4 tlvs entry.peer (counted state entry.added) = some (after,changed))
    (four : trailer.length = 4) :
    awdlRxAction hash env (AwdlAction.bytes af ++ encodeTlvs tlvs ++ trailer) rssi tsft src state =
      awdlRxActionEnd hash env entry.added.callocs tsft src entry.subtype
        (TlvRun.after tlvs (trailerRun env.chanMem tsft after changed (readTlv trailer 0)))
        entry.added.called.toList := by
  rw [List.append_assoc,action_entered ((admission_bytes env af _ rssi tsft src state).trans start)]
  have stripped : bufStrip (af.bytes ++ (encodeTlvs tlvs ++ trailer)) AwdlAction.size = some (encodeTlvs tlvs ++ trailer) :=
    strip_append af.bytes _
  rw [stripped,Option.getD_some,tlvs_through tlvs fits trailer (by rw [four]; exact handled)]
  obtain ⟨rest,short,ran⟩ := tlvs_trailer four env.chanMem tsft after changed
  rw [ran]
  refine (end_short short env _ tsft src _ (TlvRun.after tlvs (trailerRun env.chanMem tsft after changed (readTlv trailer 0))) _).trans ?_
  cases readTlv trailer 0 <;> rfl

theorem action_calls (env : Ambient) (start : admission hash env af.bytes rssi tsft src state = .entered entry)
    (fits : ∀ tlv ∈ tlvs, tlv.2.length < 65536)
    (handled : handleAll env.chanMem tsft 4 tlvs entry.peer (counted state entry.added) = some (after,changed))
    (four : trailer.length = 4) :
    (awdlRxAction hash env (AwdlAction.bytes af ++ encodeTlvs tlvs ++ trailer) rssi tsft src state).map RxRun.calls =
      some (tlvs ++ (readTlv trailer 0).toList) := by
  have found : awdlPeerGet hash (trailerRun env.chanMem tsft after changed (readTlv trailer 0)).state.peers.peers src =
      (.ok,some entry.peer) := by
    obtain ⟨sync,same⟩ := (handleAll_footprint handled).sync
    rw [trailer_kept,same]
    exact (entered_added start).2.2
  rw [action_through env start fits handled four,
    end_calls (TlvRun.after tlvs (trailerRun env.chanMem tsft after changed (readTlv trailer 0))) found,
    TlvRun.after,trailer_calls]

theorem action_stuck (env : Ambient) (start : admission hash env af.bytes rssi tsft src state = .entered entry)
    (fits : ∀ tlv ∈ tlvs, tlv.2.length < 65536)
    (rejected : handleAll env.chanMem tsft 4 tlvs entry.peer (counted state entry.added) = none) :
    ∃ run, ∀ trailer : Buf, trailer.length = 4 →
      awdlRxAction hash env (AwdlAction.bytes af ++ encodeTlvs tlvs ++ trailer) rssi tsft src state = run := by
  obtain ⟨after,changed,calls,ends⟩ := tlvs_stuck tlvs fits 4 rejected
  refine ⟨awdlRxActionEnd hash env entry.added.callocs tsft src entry.subtype
    ⟨.unexpectedFormat,[],after,changed,calls⟩ entry.added.called.toList,fun trailer four => ?_⟩
  obtain ⟨rest,ran⟩ := ends trailer four
  have stripped : bufStrip (af.bytes ++ (encodeTlvs tlvs ++ trailer)) AwdlAction.size = some (encodeTlvs tlvs ++ trailer) :=
    strip_append af.bytes _
  rw [List.append_assoc,action_entered ((admission_bytes env af _ rssi tsft src state).trans start),stripped,
    Option.getD_some,ran]
  rfl

-- Both captures have the same result, handler calls and state afterwards.
def SameReception (hash : EtherAddr → UInt64) (env : Ambient) (body c1 c2 : Buf) (rssi : Int8) (tsft : UInt64)
    (src : EtherAddr) (state : AwdlState) : Prop :=
  awdlRxAction hash env (body ++ c1) rssi tsft src state = awdlRxAction hash env (body ++ c2) rssi tsft src state

-- The loop comes to the end of the body: the frame is let in and no handler
-- rejects a TLV.
def Interprets (hash : EtherAddr → UInt64) (env : Ambient) (af : AwdlAction) (tlvs : List Tlv) (rssi : Int8)
    (tsft : UInt64) (src : EtherAddr) (state : AwdlState) : Prop :=
  ∃ entry, admission hash env af.bytes rssi tsft src state = .entered entry ∧
    (handleAll env.chanMem tsft 4 tlvs entry.peer (counted state entry.added)).isSome

-- Only a trailer that reads as a TLV of its own is interpreted, and only by a
-- loop that comes to it.
theorem fcs_ignored_iff (env : Ambient) (af : AwdlAction) (tlvs : List Tlv)
    (fits : ∀ tlv ∈ tlvs, tlv.2.length < 65536) (c1 c2 : Buf) (four1 : c1.length = 4) (four2 : c2.length = 4)
    (rssi : Int8) (tsft : UInt64) (src : EtherAddr) (state : AwdlState) :
    SameReception hash env (af.bytes ++ encodeTlvs tlvs) c1 c2 rssi tsft src state ↔
      (Interprets hash env af tlvs rssi tsft src state → readTlv c1 0 = readTlv c2 0) := by
  unfold SameReception Interprets
  cases start : admission hash env af.bytes rssi tsft src state with
  | dropped run =>
    refine iff_of_true ?_ (by simp)
    have ends : ∀ c, awdlRxAction hash env (af.bytes ++ encodeTlvs tlvs ++ c) rssi tsft src state = run := by
      intro c
      apply action_dropped
      rw [List.append_assoc,admission_bytes,start]
    rw [ends c1,ends c2]
  | entered entry =>
    cases handled : handleAll env.chanMem tsft 4 tlvs entry.peer (counted state entry.added) with
    | none =>
      refine iff_of_true ?_ (by simp [handled])
      obtain ⟨run,same⟩ := action_stuck env start fits handled
      rw [same c1 four1,same c2 four2]
    | some pair =>
      obtain ⟨after,changed⟩ := pair
      constructor
      · intro same _
        have calls := congrArg (Option.map RxRun.calls) same
        rw [action_calls env start fits handled four1,action_calls env start fits handled four2,
          Option.some.injEq,List.append_cancel_left_eq] at calls
        cases first : readTlv c1 0 <;> cases second : readTlv c2 0 <;> simp_all
      · intro equal
        rw [action_through env start fits handled four1,action_through env start fits handled four2,
          equal ⟨entry,rfl,by rw [handled]; rfl⟩]

-- The action header that both frame kinds start with, for a PSF.
def psfHdr : AwdlAction := ⟨ieee80211VendorSpecific,awdlOui,awdlType,awdlVersionCompat,AwdlActionType.psf.toByte,0,0,0⟩

theorem fcs_ignored_no_tlv :
    readTlv [0xff,0xff,0xff,0xff] 0 = readTlv [1,2,3,4] 0 ∧
      SameReception (fun _ => 0) quiet (psfHdr.bytes ++ encodeTlvs []) [0xff,0xff,0xff,0xff] [1,2,3,4] 0 0 nodeTwo
        acquainted :=
  ⟨by decide,(fcs_ignored_iff quiet psfHdr [] (by simp) _ _ rfl rfl 0 0 nodeTwo acquainted).mpr fun _ => by decide⟩

-- A trailer that is a version TLV without its two bytes ends in a parsing error.
theorem fcs_interpreted :
    ¬ SameReception (fun _ => 0) quiet (psfHdr.bytes ++ encodeTlvs []) [21,1,0,0] [0xff,0xff,0xff,0xff] 0 0 nodeTwo
      acquainted := by
  intro same
  have results := congrArg (Option.map RxRun.result) same
  exact absurd results (by decide +kernel)

end EspOwl.FrameCheck
