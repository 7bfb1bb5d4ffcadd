import EspOwl.ActionFrames
import EspOwl.Dispatch
import EspOwl.Tx

namespace EspOwl.TlvBodies
open ByteCodec TlvLoop PeerMap ActionFrames

-- A type, a length of two bytes and as many bytes as it says.
def StartsComplete (b : Buf) : Prop := ∃ type val rest, val.length < 65536 ∧ b = tlvBytes type val ++ rest

structure Split (b : Buf) (tlvs : List Tlv) (tail : Buf) : Prop where
  whole : b = encodeTlvs tlvs ++ tail
  fits : ∀ tlv ∈ tlvs, tlv.2.length < 65536
  stuck : ¬StartsComplete tail

section Splits
variable {b tail : Buf}

theorem le16_read (l0 l1 : UInt8) : le16 (UInt16.ofNat (leValue [l0,l1])) = [l0,l1] := by
  have small : leValue [l0,l1] < 65536 := by simpa using leValue_lt [l0,l1]
  have exact : (UInt16.ofNat (leValue [l0,l1])).toNat = leValue [l0,l1] := UInt16.toNat_ofNat_of_lt small
  rw [le16,exact]
  exact leBytes_leValue [l0,l1]

theorem readTlv_bytes (read : readTlv b 0 = some (type,val)) :
    val.length < 65536 ∧ b = tlvBytes type val ++ b.drop (val.length + 3) := by
  have long := readTlv_length read
  rcases b with _ | ⟨t,_ | ⟨l0,_ | ⟨l1,rest⟩⟩⟩
  iterate 3 exact absurd long (by simp only [List.length_cons,List.length_nil]; omega)
  have first : readU8 (t :: l0 :: l1 :: rest) 0 = some t := readWord_long _ (by simp)
  have second : readLe16 (t :: l0 :: l1 :: rest) 1 = some (UInt16.ofNat (leValue [l0,l1])) := readWord_long _ (by simp)
  generalize size : UInt16.ofNat (leValue [l0,l1]) = len at second
  have small := len.toNat_lt
  have laid : le16 len = [l0,l1] := by rw [← size,le16_read]
  simp only [readTlv,first,second,checkedRead_some,Nat.zero_add] at read
  cases third : readBytes (t :: l0 :: l1 :: rest) 3 len.toNat with
  | none => rw [third] at read; cases read
  | some bytes =>
    have inside : 3 + len.toNat ≤ rest.length + 3 := readWord_inside third
    rw [readBytes,readWord_long _ inside] at third
    rw [readBytes,readWord_long _ inside,checkedRead_some] at read
    cases read
    have width : (slice 3 len.toNat (type :: l0 :: l1 :: rest)).length = len.toNat := slice_length inside
    refine ⟨by rw [id,width]; exact small,?_⟩
    rw [id,tlvBytes,width,UInt16.ofNat_toNat,laid]
    exact congrArg (type :: l0 :: l1 :: ·) (List.take_append_drop len.toNat rest).symm

theorem starts_iff : StartsComplete b ↔ ∃ tlv, readTlv b 0 = some tlv := by
  constructor
  · rintro ⟨type,val,rest,fits,rfl⟩
    exact ⟨_,readTlv_tlvBytes type val rest fits⟩
  · rintro ⟨⟨type,val⟩,read⟩
    obtain ⟨fits,whole⟩ := readTlv_bytes read
    exact ⟨type,val,_,fits,whole⟩

theorem stuck_read (stuck : ¬StartsComplete b) : readTlv b 0 = none := by
  rw [starts_iff,← Option.isSome_iff_exists,Option.not_isSome_iff_eq_none] at stuck
  exact stuck

theorem split_exists (b : Buf) : ∃ tlvs tail, Split b tlvs tail := by
  cases read : readTlv b 0 with
  | none =>
    refine ⟨[],b,rfl,List.forall_mem_nil _,?_⟩
    rw [starts_iff,read]
    rintro ⟨_,other⟩
    cases other
  | some tlv =>
    obtain ⟨type,val⟩ := tlv
    obtain ⟨fits,whole⟩ := readTlv_bytes read
    obtain ⟨tlvs,tail,split⟩ := split_exists (b.drop (val.length + 3))
    refine ⟨(type,val) :: tlvs,tail,?_,List.forall_mem_cons.mpr ⟨fits,split.fits⟩,split.stuck⟩
    rw [encodeTlvs_cons,← split.whole]
    exact whole
termination_by b.length
decreasing_by
  have long := readTlv_length read
  rw [List.length_drop]
  omega

theorem split_starts (split : Split b (tlv :: rest) tail) : readTlv b 0 = some tlv := by
  rw [split.whole,encodeTlvs_cons]
  exact readTlv_tlvBytes tlv.1 tlv.2 _ (split.fits _ List.mem_cons_self)

theorem split_rest (split : Split b (tlv :: rest) tail) : Split (b.drop (tlv.2.length + 3)) rest tail := by
  refine ⟨?_,fun other member => split.fits other (List.mem_cons_of_mem _ member),split.stuck⟩
  rw [split.whole,encodeTlvs_cons,drop_tlvBytes]

theorem split_nil (split : Split b [] tail) : b = tail := split.whole

theorem split_unique (one : Split b tlvs tail) (two : Split b others end_) : tlvs = others ∧ tail = end_ := by
  induction tlvs generalizing b others with
  | nil =>
    cases others with
    | nil => exact ⟨rfl,(split_nil one).symm.trans (split_nil two)⟩
    | cons other rest =>
      have starts := starts_iff.mpr ⟨other,split_starts two⟩
      exact absurd (split_nil one ▸ starts) one.stuck
  | cons tlv rest ih =>
    have starts := split_starts one
    cases others with
    | nil => exact absurd (starts_iff.mpr ⟨tlv,split_nil two ▸ starts⟩) two.stuck
    | cons other more =>
      obtain rfl : tlv = other := Option.some.inj (starts.symm.trans (split_starts two))
      obtain ⟨rfl,same⟩ := ih (split_rest one) (split_rest two)
      exact ⟨rfl,same⟩

end Splits

-- The calls for a list of TLVs with so many bytes behind it, each with its result,
-- up to the first negative one.
def serve (chanMem : Nat → Fin awdlChanseqLength → AwdlChan) (tsft : UInt64) (behind : Nat) :
    List Tlv → AwdlPeer → AwdlState → List (Tlv × RxResult)
  | [],_,_ => []
  | (type,val) :: rest,src,state =>
    let run := awdlHandleTlv (chanMem (val.length + 3 + (encodeTlvs rest).length + behind)) src type val state tsft
    ((type,val),run.1) :: if run.1.code < 0 then [] else serve chanMem tsft behind rest run.2.1 run.2.2

def Passed (served : List (Tlv × RxResult)) : Prop := ∀ call ∈ served, ¬call.2.code < 0

section Loop
variable {chanMem : Nat → Fin awdlChanseqLength → AwdlChan} {tsft : UInt64} {tail : Buf}

-- The loop came to the tail, or a handler stopped it.
structure Served (loop : TlvRun) (served : List (Tlv × RxResult)) (tail : Buf) : Prop where
  calls : loop.calls = served.map Prod.fst
  through : Passed served → loop.result = .ok ∧ loop.frame = tail
  stopped : ¬Passed served → loop.result = .unexpectedFormat

theorem loop_serves (split : Split b tlvs tail) :
    Served (awdlRxTlvs chanMem tsft b src state) (serve chanMem tsft tail.length tlvs src state) tail := by
  induction tlvs generalizing b src state with
  | nil =>
    obtain rfl := split_nil split
    rw [tlvs_end (stuck_read split.stuck)]
    exact ⟨rfl,fun _ => ⟨rfl,rfl⟩,fun failed => absurd (List.forall_mem_nil _) failed⟩
  | cons tlv rest ih =>
    obtain ⟨type,val⟩ := tlv
    have found := split_starts split
    have before : bufLen b = val.length + 3 + (encodeTlvs rest).length + tail.length := by
      rw [split.whole,encodeTlvs_cons,front_length]
    rw [serve,← before]
    cases handled : awdlHandleTlv (chanMem (bufLen b)) src type val state tsft with
    | mk result outcome =>
      obtain ⟨after,changed⟩ := outcome
      by_cases failed : result.code < 0
      · rw [tlvs_rejected found handled failed,if_pos failed]
        exact ⟨rfl,fun passed => absurd failed (passed _ List.mem_cons_self),fun _ => rfl⟩
      · rw [tlvs_next found handled failed,if_neg failed]
        have later : Served (awdlRxTlvs chanMem tsft (b.drop (val.length + 3)) after changed)
            (serve chanMem tsft tail.length rest after changed) tail := ih (split_rest split)
        refine ⟨congrArg ((type,val) :: ·) later.calls,?_,?_⟩
        · exact fun passed => later.through (List.forall_mem_cons.mp passed).2
        · exact fun stopped => later.stopped fun passed => stopped (List.forall_mem_cons.mpr ⟨failed,passed⟩)

-- Every TLV is handled unless an earlier one was rejected.
theorem serve_order (behind : Nat) (tlvs : List Tlv) (src : AwdlPeer) (state : AwdlState) :
    ((serve chanMem tsft behind tlvs src state).map Prod.fst) <+: tlvs ∧
      (Passed (serve chanMem tsft behind tlvs src state) →
        (serve chanMem tsft behind tlvs src state).map Prod.fst = tlvs) := by
  induction tlvs generalizing src state with
  | nil => exact ⟨List.prefix_rfl,fun _ => rfl⟩
  | cons tlv rest ih =>
    obtain ⟨type,val⟩ := tlv
    rw [serve]
    generalize awdlHandleTlv (chanMem (val.length + 3 + (encodeTlvs rest).length + behind)) src type val state tsft = run
    by_cases failed : run.1.code < 0
    · rw [if_pos failed]
      exact ⟨⟨rest,rfl⟩,fun passed => absurd failed (passed _ List.mem_cons_self)⟩
    · rw [if_neg failed]
      obtain ⟨before,whole⟩ := ih run.2.1 run.2.2
      refine ⟨List.prefix_cons_inj _ |>.mpr before,fun passed => ?_⟩
      exact congrArg ((type,val) :: ·) (whole (List.forall_mem_cons.mp passed).2)

end Loop

variable {hash : EtherAddr → UInt64}

theorem body_strip (head : awdlParseActionHdr frame = some subtype) :
    (bufStrip frame AwdlAction.size).getD frame = frame.drop AwdlAction.size := by
  have long : AwdlAction.size ≤ frame.length := by
    cases read : readBytes frame 0 AwdlAction.size with
    | none => rw [awdlParseActionHdr,read] at head; cases head
    | some bytes => simpa using readWord_inside read
  rw [bufStrip,if_neg (by rw [bufLen]; omega),Option.getD_some]

-- The record is there when the loop ends, so the second addition is an update.
theorem end_answer (loop : TlvRun) (found : awdlPeerGet hash loop.state.peers.peers src = (.ok,some held)) (env : Ambient)
    (callocs : List Bool) (tsft : UInt64) (subtype : AwdlActionType) (called : List AwdlPeer) :
    ∃ run, awdlRxActionEnd hash env callocs tsft src subtype loop called = some run ∧ run.calls = loop.calls ∧
      (Accepted loop → run.result = .ok) ∧ (¬Accepted loop → run.result = .unexpectedFormat) := by
  have calls := end_calls loop found env callocs tsft subtype called
  obtain ⟨run,ran,same⟩ := Option.map_eq_some_iff.mp calls
  refine ⟨run,ran,same,?_⟩
  rcases end_runs ran with ⟨refused,rfl⟩ | ⟨accepted,again,_,rfl⟩
  · exact ⟨fun accepted => absurd accepted refused,fun _ => rfl⟩
  · exact ⟨fun _ => rfl,fun refused => absurd accepted refused⟩

theorem accepted_iff (served : Served loop calls tail) : Accepted loop ↔ Passed calls ∧ tail.length ≤ 4 := by
  by_cases passed : Passed calls
  · obtain ⟨result,frame⟩ := served.through passed
    rw [Accepted,result,frame]
    exact ⟨fun accepted => ⟨passed,accepted.2⟩,fun both => ⟨by decide,both.2⟩⟩
  · rw [Accepted,served.stopped passed]
    exact iff_of_false (fun accepted => accepted.1 (by decide)) (fun both => passed both.1)

theorem body_split (env : Ambient) (head : awdlParseActionHdr frame = some subtype) (unfiltered : state.filterRssi = false)
    (inserted : awdlPeerAdd hash env.fuel env.callocs env.peerMem state.peers.peers src tsft = some added)
    (accepted : ¬added.status.code < 0) (rssi : Int8) :
    (∃! split : List Tlv × Buf, Split (frame.drop AwdlAction.size) split.1 split.2) ∧
    ∀ tlvs tail, Split (frame.drop AwdlAction.size) tlvs tail → ∃ peer run served,
      awdlPeerGet hash added.peers src = (.ok,some peer) ∧
      awdlRxAction hash env frame rssi tsft src state = some run ∧
      served = serve env.chanMem tsft tail.length tlvs peer (counted state added) ∧
      run.calls = served.map Prod.fst ∧ (served.map Prod.fst) <+: tlvs ∧ (Passed served → served.map Prod.fst = tlvs) ∧
      (Passed served ∧ tail.length ≤ 4 → run.result = .ok) ∧
      (¬(Passed served ∧ tail.length ≤ 4) → run.result = .unexpectedFormat) := by
  refine ⟨?_,fun tlvs tail split => ?_⟩
  · obtain ⟨tlvs,tail,split⟩ := split_exists (frame.drop AwdlAction.size)
    refine ⟨(tlvs,tail),split,fun other found => ?_⟩
    obtain ⟨same,rest⟩ := split_unique found split
    exact Prod.ext same rest
  · have strong : rssiTooLow hash state rssi src = false := by simp [rssiTooLow,unfiltered]
    obtain ⟨peer,start⟩ := action_admitted env head strong inserted accepted
    have got : awdlPeerGet hash added.peers src = (.ok,some peer) := (entered_added start).2.2
    have served : Served (awdlRxTlvs env.chanMem tsft (frame.drop AwdlAction.size) peer (counted state added))
        (serve env.chanMem tsft tail.length tlvs peer (counted state added)) tail := loop_serves split
    obtain ⟨sync,same⟩ := (tlvs_footprint env.chanMem tsft (frame.drop AwdlAction.size) peer (counted state added)).sync
    have loop := action_entered start
    rw [body_strip head] at loop
    generalize awdlRxTlvs env.chanMem tsft (frame.drop AwdlAction.size) peer (counted state added) = body at served same loop
    have found : awdlPeerGet hash body.state.peers.peers src = (.ok,some peer) := by
      rw [same]
      exact got
    obtain ⟨run,ran,calls,ok,refused⟩ := end_answer body found env added.callocs tsft subtype added.called.toList
    rw [accepted_iff served] at ok refused
    obtain ⟨before,whole⟩ := @serve_order env.chanMem tsft tail.length tlvs peer (counted state added)
    exact ⟨peer,run,_,got,loop.trans ran,rfl,calls.trans served.calls,before,whole,ok,refused⟩

open Dispatch

-- The header of a MIF, an unknown TLV, a version TLV cut after its first byte, and
-- what is never looked at behind it.
def brokenFrame : Buf := awdlInitAction 5 .mif ++ tlvBytes 200 [1,2] ++ tlvBytes awdlVersionTlv [0x34] ++ [7,1,0]

def unfilteredNode : AwdlState := {acquainted with filterRssi := false}

theorem broken_split :
    Split (brokenFrame.drop AwdlAction.size) [(200,[1,2]),(awdlVersionTlv,[0x34])] [7,1,0] := by
  refine ⟨by decide +kernel,by decide,?_⟩
  rw [starts_iff]
  rintro ⟨_,read⟩
  cases read

theorem body_split_broken : ∃ run, awdlRxAction (fun _ => 0) quiet brokenFrame 0 9 nodeTwo unfilteredNode = some run ∧
    (∃! split : List Tlv × Buf, Split (brokenFrame.drop AwdlAction.size) split.1 split.2) ∧
    run.calls = [(200,[1,2]),(awdlVersionTlv,[0x34])] ∧ run.result = .unexpectedFormat := by
  have updated : (awdlPeerAdd (fun _ => 0) quiet.fuel quiet.callocs quiet.peerMem unfilteredNode.peers.peers nodeTwo
      9).map AddRun.status = some .update := by decide +kernel
  obtain ⟨added,inserted,status⟩ := Option.map_eq_some_iff.mp updated
  have head : awdlParseActionHdr brokenFrame = some .mif := by decide +kernel
  have unfiltered : unfilteredNode.filterRssi = false := rfl
  obtain ⟨unique,serves⟩ := body_split quiet head unfiltered inserted (by rw [status]; decide) 0
  obtain ⟨_,run,_,_,ran,_⟩ := serves _ _ broken_split
  have ends : (awdlRxAction (fun _ => 0) quiet brokenFrame 0 9 nodeTwo unfilteredNode).map
      (fun run => (run.calls,run.result)) = some ([(200,[1,2]),(awdlVersionTlv,[0x34])],.unexpectedFormat) := by
    decide +kernel
  rw [ran] at ends
  obtain ⟨calls,result⟩ := Prod.mk.inj (Option.some.inj ends)
  exact ⟨run,ran,unique,calls,result⟩

end EspOwl.TlvBodies
