import EspOwl.Rx

namespace EspOwl.TlvLoop

abbrev Tlv := UInt8 × List UInt8

section Steps
variable {chanMem : Nat → Fin awdlChanseqLength → AwdlChan} {tsft : UInt64}

-- One turn of the loop.
theorem tlvs_turn (chanMem : Nat → Fin awdlChanseqLength → AwdlChan) (tsft : UInt64) (frame : Buf) (src : AwdlPeer)
    (state : AwdlState) : awdlRxTlvs chanMem tsft frame src state = match readTlv frame 0 with
      | none => ⟨.ok,frame,src,state,[]⟩
      | some (type,val) =>
        let (result,after,changed) := awdlHandleTlv (chanMem (bufLen frame)) src type val state tsft
        if result.code < 0 then ⟨.unexpectedFormat,frame,after,changed,[(type,val)]⟩
        else
          let run := awdlRxTlvs chanMem tsft (frame.drop (val.length + 3)) after changed
          {run with calls := (type,val) :: run.calls} := by
  rw [awdlRxTlvs]
  split <;> rename_i found <;> rw [found]

theorem tlvs_end (last : readTlv frame 0 = none) (src : AwdlPeer) (state : AwdlState) :
    awdlRxTlvs chanMem tsft frame src state = ⟨.ok,frame,src,state,[]⟩ := by
  rw [tlvs_turn,last]

theorem tlvs_rejected (found : readTlv frame 0 = some (type,val))
    (handled : awdlHandleTlv (chanMem (bufLen frame)) src type val state tsft = (result,after,changed))
    (failed : result.code < 0) :
    awdlRxTlvs chanMem tsft frame src state = ⟨.unexpectedFormat,frame,after,changed,[(type,val)]⟩ := by
  rw [tlvs_turn,found]
  simp only [handled,if_pos failed]

def TlvRun.after (calls : List Tlv) (run : TlvRun) : TlvRun := {run with calls := calls ++ run.calls}

theorem tlvs_next (found : readTlv frame 0 = some (type,val))
    (handled : awdlHandleTlv (chanMem (bufLen frame)) src type val state tsft = (result,after,changed))
    (accepted : ¬ result.code < 0) :
    awdlRxTlvs chanMem tsft frame src state =
      TlvRun.after [(type,val)] (awdlRxTlvs chanMem tsft (frame.drop (val.length + 3)) after changed) := by
  rw [tlvs_turn,found]
  simp only [handled,if_neg accepted]
  rfl

end Steps

section Frame
-- What no handler writes: whose record it fills, the validity of the record, and
-- anything of the state but the synchronisation, which is for the sync master only.
structure Footprint (src : AwdlPeer) (state : AwdlState) (after : AwdlPeer) (changed : AwdlState) : Prop where
  addr : after.addr = src.addr
  owner : after.election.selfAddr = src.election.selfAddr
  valid : after.isValid = src.isValid
  sync : ∃ sync, changed = {state with sync := sync}
  unsynced : state.election.syncAddr ≠ src.addr → changed = state

theorem Footprint.refl (src : AwdlPeer) (state : AwdlState) : Footprint src state src state :=
  ⟨rfl,rfl,rfl,⟨state.sync,rfl⟩,fun _ => rfl⟩

theorem Footprint.trans (first : Footprint a s b t) (second : Footprint b t c u) : Footprint a s c u := by
  obtain ⟨sync,rfl⟩ := first.sync
  obtain ⟨later,rfl⟩ := second.sync
  refine ⟨second.addr.trans first.addr,second.owner.trans first.owner,second.valid.trans first.valid,⟨later,rfl⟩,?_⟩
  intro foreign
  rw [second.unsynced (by rw [first.addr]; exact foreign)]
  exact first.unsynced foreign

theorem read_keeps {P : AwdlPeer → Prop} {read : Option α} {wireError : RxResult × AwdlPeer}
    {next : α → RxResult × AwdlPeer} (stopped : P wireError.2) (went : ∀ value, read = some value → P (next value).2) :
    P (checkedRead read wireError next).2 :=
  checkedRead_holds (motive := fun (run : RxResult × AwdlPeer) => P run.2) stopped went

theorem sync_writes (src : AwdlPeer) (val : Buf) (state : AwdlState) (now : UInt64) :
    (∃ sync, (awdlHandleSyncParamsTlv src val state now).2 = {state with sync := sync}) ∧
      (state.election.syncAddr ≠ src.addr → (awdlHandleSyncParamsTlv src val state now).2 = state) := by
  unfold awdlHandleSyncParamsTlv
  split
  · exact ⟨⟨state.sync,rfl⟩,fun _ => rfl⟩
  · rename_i master
    have own : state.election.syncAddr = src.addr := by
      simpa [awdlElectionIsSyncMaster,compareEtherAddr_zero] using master
    refine ⟨?_,fun foreign => absurd own foreign⟩
    refine checkedRead_holds (motive := fun (run : RxResult × AwdlState) => ∃ sync, run.2 = {state with sync := sync})
      ⟨state.sync,rfl⟩ fun _ _ => ?_
    exact checkedRead_holds (motive := fun (run : RxResult × AwdlState) => ∃ sync, run.2 = {state with sync := sync})
      ⟨state.sync,rfl⟩ fun _ _ => ⟨_,rfl⟩

theorem chanseq_writes (mem : Fin awdlChanseqLength → AwdlChan) (src : AwdlPeer) (val : Buf) (state : AwdlState) :
    ∃ sequence, (awdlHandleChanseqTlv mem src val state).2 = {src with sequence := sequence} := by
  let written : AwdlPeer → Prop := fun p => ∃ sequence, p = {src with sequence := sequence}
  have same : written src := ⟨src.sequence,rfl⟩
  change written _
  unfold awdlHandleChanseqTlv
  refine read_keeps same fun _ _ => ?_
  split
  · exact same
  · refine read_keeps same fun _ _ => ?_
    split
    · exact same
    · refine read_keeps same fun _ _ => ?_
      split
      · exact same
      · refine read_keeps same fun _ _ => ?_
        split
        · exact same
        · refine read_keeps same fun _ _ => ?_
          dsimp only
          split
          · exact same
          · refine read_keeps same fun list _ => ?_
            split
            · exact ⟨list,rfl⟩
            · exact same

theorem election_writes (src : AwdlPeer) (val : Buf) :
    ∃ height masterAddr masterMetric selfMetric, (awdlHandleElectionParamsTlv src val).2 =
      {src with election := {src.election with
        height := height
        masterAddr := masterAddr
        masterMetric := masterMetric
        selfMetric := selfMetric}} := by
  let written : AwdlPeer → Prop := fun p => ∃ height masterAddr masterMetric selfMetric, p =
    {src with election := {src.election with
      height := height
      masterAddr := masterAddr
      masterMetric := masterMetric
      selfMetric := selfMetric}}
  change written _
  unfold awdlHandleElectionParamsTlv
  split
  · exact ⟨_,_,_,_,rfl⟩
  · refine read_keeps ⟨_,_,_,_,rfl⟩ fun _ _ => ?_
    refine read_keeps ⟨_,_,_,_,rfl⟩ fun _ _ => ?_
    refine read_keeps ⟨_,_,_,_,rfl⟩ fun _ _ => ?_
    exact read_keeps ⟨_,_,_,_,rfl⟩ fun _ _ => ⟨_,_,_,_,rfl⟩

theorem electionV2_writes (src : AwdlPeer) (val : Buf) :
    ∃ election supportsV2, (awdlHandleElectionParamsV2Tlv src val).2 =
      {src with election := election,supportsV2 := supportsV2} ∧ election.selfAddr = src.election.selfAddr := by
  let written : AwdlPeer → Prop := fun p => ∃ election supportsV2, p =
    {src with election := election,supportsV2 := supportsV2} ∧ election.selfAddr = src.election.selfAddr
  change written _
  unfold awdlHandleElectionParamsV2Tlv
  refine read_keeps ⟨_,_,rfl,rfl⟩ fun _ _ => ?_
  refine read_keeps ⟨_,_,rfl,rfl⟩ fun _ _ => ?_
  refine read_keeps ⟨_,_,rfl,rfl⟩ fun _ _ => ?_
  refine read_keeps ⟨_,_,rfl,rfl⟩ fun _ _ => ?_
  refine read_keeps ⟨_,_,rfl,rfl⟩ fun _ _ => ?_
  refine read_keeps ⟨_,_,rfl,rfl⟩ fun _ _ => ?_
  exact read_keeps ⟨_,_,rfl,rfl⟩ fun _ _ => ⟨_,_,rfl,rfl⟩

theorem arpa_writes (src : AwdlPeer) (val : Buf) : ∃ name, (awdlHandleArpaTlv src val).2 = {src with name := name} :=
  read_keeps (P := fun p => ∃ name, p = {src with name := name}) ⟨_,rfl⟩ fun _ _ => ⟨_,rfl⟩

theorem version_writes (src : AwdlPeer) (val : Buf) :
    ∃ version devclass, (awdlHandleVersionTlv src val).2 = {src with version := version,devclass := devclass} := by
  let written : AwdlPeer → Prop := fun p => ∃ version devclass, p = {src with version := version,devclass := devclass}
  change written _
  unfold awdlHandleVersionTlv
  refine read_keeps ⟨_,_,rfl⟩ fun _ _ => ?_
  exact read_keeps ⟨_,_,rfl⟩ fun _ _ => ⟨_,_,rfl⟩

theorem dataPath_writes (src : AwdlPeer) (val : Buf) :
    ∃ countryCode infraAddr, (awdlHandleDataPathStateTlv src val).2 =
      {src with countryCode := countryCode,infraAddr := infraAddr} := by
  let written : AwdlPeer → Prop := fun p => ∃ countryCode infraAddr, p =
    {src with countryCode := countryCode,infraAddr := infraAddr}
  change written _
  unfold awdlHandleDataPathStateTlv
  refine read_keeps ⟨_,_,rfl⟩ fun flags _ => ?_
  refine read_keeps ⟨_,_,rfl⟩ fun (offset,country) read => ?_
  obtain ⟨countryCode,first⟩ : ∃ countryCode, country = {src with countryCode := countryCode} := by
    split at read
    · obtain ⟨code,_,made⟩ := Option.map_eq_some_iff.mp read
      cases made
      exact ⟨_,rfl⟩
    · cases read
      exact ⟨_,rfl⟩
  subst first
  refine read_keeps ⟨_,_,rfl⟩ fun _ _ => ?_
  refine read_keeps ⟨_,_,rfl⟩ fun _ _ => ?_
  refine read_keeps ⟨_,_,rfl⟩ fun (offset,infra) read => ?_
  obtain ⟨infraAddr,second⟩ : ∃ infraAddr, infra = {src with countryCode := countryCode,infraAddr := infraAddr} := by
    split at read
    · obtain ⟨addr,_,made⟩ := Option.map_eq_some_iff.mp read
      cases made
      exact ⟨_,rfl⟩
    · cases read
      exact ⟨_,rfl⟩
  subst second
  exact read_keeps ⟨_,_,rfl⟩ fun _ _ => ⟨_,_,rfl⟩

-- The handlers by type: what is shown of each holds of the dispatcher.
theorem handle_elim {motive : UInt8 → RxResult × AwdlPeer × AwdlState → Prop} {mem : Fin awdlChanseqLength → AwdlChan}
    {src : AwdlPeer} {val : Buf} {state : AwdlState} {tsft : UInt64} (type : UInt8)
    (sync : motive awdlSynchronizationParametersTlv ((awdlHandleSyncParamsTlv src val state tsft).1,src,
      (awdlHandleSyncParamsTlv src val state tsft).2))
    (chanseq : motive awdlChanSeqTlv ((awdlHandleChanseqTlv mem src val state).1,
      (awdlHandleChanseqTlv mem src val state).2,state))
    (election : motive awdlElectionParametersTlv ((awdlHandleElectionParamsTlv src val).1,
      (awdlHandleElectionParamsTlv src val).2,state))
    (electionV2 : motive awdlElectionParametersV2Tlv ((awdlHandleElectionParamsV2Tlv src val).1,
      (awdlHandleElectionParamsV2Tlv src val).2,state))
    (arpa : motive awdlArpaTlv ((awdlHandleArpaTlv src val).1,(awdlHandleArpaTlv src val).2,state))
    (dataPath : motive awdlDataPathStateTlv ((awdlHandleDataPathStateTlv src val).1,
      (awdlHandleDataPathStateTlv src val).2,state))
    (version : motive awdlVersionTlv ((awdlHandleVersionTlv src val).1,(awdlHandleVersionTlv src val).2,state))
    (other : type ≠ awdlElectionParametersTlv → type ≠ awdlElectionParametersV2Tlv → type ≠ awdlDataPathStateTlv →
      motive type (.ignore,src,state)) : motive type (awdlHandleTlv mem src type val state tsft) := by
  unfold awdlHandleTlv
  dsimp only
  split
  · rename_i kind
    exact kind ▸ sync
  · split
    · rename_i kind
      exact kind ▸ chanseq
    · split
      · rename_i kind
        exact kind ▸ election
      · rename_i first
        split
        · rename_i kind
          exact kind ▸ electionV2
        · rename_i second
          split
          · rename_i kind
            exact kind ▸ arpa
          · split
            · rename_i kind
              exact kind ▸ dataPath
            · rename_i third
              split
              · rename_i kind
                exact kind ▸ version
              · exact other first second third

-- Three handlers write the synchronisation or the election; the others leave both, the
-- address, the validity and the mark of a MIF.
theorem handle_cases (mem : Fin awdlChanseqLength → AwdlChan) (src : AwdlPeer) (type : UInt8) (val : Buf)
    (state : AwdlState) (tsft : UInt64) :
    let left := (awdlHandleTlv mem src type val state tsft).2
    left = (src,(awdlHandleSyncParamsTlv src val state tsft).2) ∨
      type = awdlElectionParametersTlv ∧ left = ((awdlHandleElectionParamsTlv src val).2,state) ∨
      type = awdlElectionParametersV2Tlv ∧ left = ((awdlHandleElectionParamsV2Tlv src val).2,state) ∨
      ∃ after : AwdlPeer, left = (after,state) ∧ after.election = src.election ∧ after.addr = src.addr ∧
        after.isValid = src.isValid ∧ after.sentMif = src.sentMif := by
  refine handle_elim (motive := fun type run => run.2 = (src,(awdlHandleSyncParamsTlv src val state tsft).2) ∨
    type = awdlElectionParametersTlv ∧ run.2 = ((awdlHandleElectionParamsTlv src val).2,state) ∨
    type = awdlElectionParametersV2Tlv ∧ run.2 = ((awdlHandleElectionParamsV2Tlv src val).2,state) ∨
    ∃ after : AwdlPeer, run.2 = (after,state) ∧ after.election = src.election ∧ after.addr = src.addr ∧
      after.isValid = src.isValid ∧ after.sentMif = src.sentMif) type ?sync ?chanseq ?election ?electionV2 ?arpa
        ?dataPath ?version ?other
  case sync => exact .inl rfl
  case election => exact .inr (.inl ⟨rfl,rfl⟩)
  case electionV2 => exact .inr (.inr (.inl ⟨rfl,rfl⟩))
  case chanseq =>
    obtain ⟨_,written⟩ := chanseq_writes mem src val state
    rw [written]
    exact .inr (.inr (.inr ⟨_,rfl,rfl,rfl,rfl,rfl⟩))
  case arpa =>
    obtain ⟨_,written⟩ := arpa_writes src val
    rw [written]
    exact .inr (.inr (.inr ⟨_,rfl,rfl,rfl,rfl,rfl⟩))
  case dataPath =>
    obtain ⟨_,_,written⟩ := dataPath_writes src val
    rw [written]
    exact .inr (.inr (.inr ⟨_,rfl,rfl,rfl,rfl,rfl⟩))
  case version =>
    obtain ⟨_,_,written⟩ := version_writes src val
    rw [written]
    exact .inr (.inr (.inr ⟨_,rfl,rfl,rfl,rfl,rfl⟩))
  case other => exact fun _ _ _ => .inr (.inr (.inr ⟨src,rfl,rfl,rfl,rfl,rfl⟩))

theorem handle_footprint (mem : Fin awdlChanseqLength → AwdlChan) (src : AwdlPeer) (type : UInt8) (val : Buf)
    (state : AwdlState) (tsft : UInt64) :
    Footprint src state (awdlHandleTlv mem src type val state tsft).2.1
      (awdlHandleTlv mem src type val state tsft).2.2 := by
  have on_peer : ∀ {after : AwdlPeer}, after.addr = src.addr → after.election.selfAddr = src.election.selfAddr →
      after.isValid = src.isValid → Footprint src state after state :=
    fun addr owner valid => ⟨addr,owner,valid,⟨state.sync,rfl⟩,fun _ => rfl⟩
  rcases handle_cases mem src type val state tsft with
    left | ⟨_,left⟩ | ⟨_,left⟩ | ⟨after,left,election,addr,valid,_⟩ <;> rw [left]
  · obtain ⟨sync,unsynced⟩ := sync_writes src val state tsft
    exact ⟨rfl,rfl,rfl,sync,unsynced⟩
  · obtain ⟨_,_,_,_,written⟩ := election_writes src val
    rw [written]
    exact on_peer rfl rfl rfl
  · obtain ⟨_,_,written,owner⟩ := electionV2_writes src val
    rw [written]
    exact on_peer rfl owner rfl
  · exact on_peer addr (congrArg _ election) valid

-- Only awdl_rx_action itself marks a peer that has sent a MIF.
theorem handle_sentMif (mem : Fin awdlChanseqLength → AwdlChan) (src : AwdlPeer) (type : UInt8) (val : Buf)
    (state : AwdlState) (tsft : UInt64) :
    (awdlHandleTlv mem src type val state tsft).2.1.sentMif = src.sentMif := by
  rcases handle_cases mem src type val state tsft with
    left | ⟨_,left⟩ | ⟨_,left⟩ | ⟨after,left,_,_,_,marked⟩ <;> rw [left]
  · obtain ⟨_,_,_,_,written⟩ := election_writes src val
    rw [written]
  · obtain ⟨_,_,written,_⟩ := electionV2_writes src val
    rw [written]
  · exact marked

-- The rule for the loop: what every handler call keeps, the loop keeps.
theorem tlvs_preserve {chanMem : Nat → Fin awdlChanseqLength → AwdlChan} {tsft : UInt64}
    {P : AwdlPeer → AwdlState → Prop} (frame : Buf) (src : AwdlPeer) (state : AwdlState)
    (kept : ∀ tlv ∈ (awdlRxTlvs chanMem tsft frame src state).calls, ∀ mem p s, P p s →
      P (awdlHandleTlv mem p tlv.1 tlv.2 s tsft).2.1 (awdlHandleTlv mem p tlv.1 tlv.2 s tsft).2.2)
    (start : P src state) :
    P (awdlRxTlvs chanMem tsft frame src state).src (awdlRxTlvs chanMem tsft frame src state).state := by
  induction size : frame.length using Nat.strong_induction_on generalizing frame src state with
  | _ size ih =>
    cases found : readTlv frame 0 with
    | none =>
      rw [tlvs_end found]
      exact start
    | some pair =>
      obtain ⟨type,val⟩ := pair
      have inside := readTlv_length found
      cases handled : awdlHandleTlv (chanMem (bufLen frame)) src type val state tsft with
      | mk result rest =>
        obtain ⟨after,changed⟩ := rest
        by_cases failed : result.code < 0
        · rw [tlvs_rejected found handled failed] at kept ⊢
          have one := kept (type,val) List.mem_cons_self (chanMem (bufLen frame)) src state start
          rwa [handled] at one
        · rw [tlvs_next found handled failed] at kept ⊢
          have one := kept (type,val) List.mem_cons_self (chanMem (bufLen frame)) src state start
          rw [handled] at one
          exact ih (frame.drop (val.length + 3)).length (by rw [List.length_drop]; omega) _ _ _
            (fun tlv member => kept tlv (List.mem_cons_of_mem _ member)) one rfl

theorem tlvs_footprint (chanMem : Nat → Fin awdlChanseqLength → AwdlChan) (tsft : UInt64) (frame : Buf)
    (src : AwdlPeer) (state : AwdlState) :
    Footprint src state (awdlRxTlvs chanMem tsft frame src state).src
      (awdlRxTlvs chanMem tsft frame src state).state :=
  tlvs_preserve frame src state
    (fun tlv _ mem p s before => before.trans (handle_footprint mem p tlv.1 tlv.2 s tsft)) (Footprint.refl src state)

theorem tlvs_sentMif (chanMem : Nat → Fin awdlChanseqLength → AwdlChan) (tsft : UInt64) (frame : Buf)
    (src : AwdlPeer) (state : AwdlState) : (awdlRxTlvs chanMem tsft frame src state).src.sentMif = src.sentMif :=
  tlvs_preserve (P := fun peer _ => peer.sentMif = src.sentMif) frame src state
    (fun tlv _ mem p s before => (handle_sentMif mem p tlv.1 tlv.2 s tsft).trans before) rfl

end Frame

section Bodies
variable {chanMem : Nat → Fin awdlChanseqLength → AwdlChan} {tsft : UInt64}

def encodeTlvs (tlvs : List Tlv) : List UInt8 := tlvs.flatMap fun tlv => tlvBytes tlv.1 tlv.2

-- The handlers over a list of TLVs with so many bytes behind it; `none` when one of
-- them rejects its TLV.
def handleAll (chanMem : Nat → Fin awdlChanseqLength → AwdlChan) (tsft : UInt64) (behind : Nat) :
    List Tlv → AwdlPeer → AwdlState → Option (AwdlPeer × AwdlState)
  | [],src,state => some (src,state)
  | (type,val) :: rest,src,state =>
    let run := awdlHandleTlv (chanMem (val.length + 3 + (encodeTlvs rest).length + behind)) src type val state tsft
    if run.1.code < 0 then none else handleAll chanMem tsft behind rest run.2.1 run.2.2

theorem handleAll_footprint (handled : handleAll chanMem tsft behind tlvs src state = some (after,changed)) :
    Footprint src state after changed := by
  induction tlvs generalizing src state with
  | nil => cases handled; exact Footprint.refl _ _
  | cons tlv rest ih =>
    rw [handleAll] at handled
    split at handled
    · cases handled
    · exact (handle_footprint _ _ _ _ _ _).trans (ih handled)

theorem encodeTlvs_cons (type : UInt8) (val : List UInt8) (rest : List Tlv) (tail : List UInt8) :
    encodeTlvs ((type,val) :: rest) ++ tail = tlvBytes type val ++ (encodeTlvs rest ++ tail) := by
  simp [encodeTlvs]

theorem front_length (type : UInt8) (val : List UInt8) (rest : List Tlv) (tail : List UInt8) :
    bufLen (tlvBytes type val ++ (encodeTlvs rest ++ tail)) =
      val.length + 3 + (encodeTlvs rest).length + tail.length := by
  rw [bufLen,List.length_append,List.length_append,tlvBytes_length,Nat.add_assoc _ _ tail.length]

-- The loop runs through complete TLVs and comes to what lies behind them.
theorem tlvs_through (tlvs : List Tlv) (fits : ∀ tlv ∈ tlvs, tlv.2.length < 65536) (tail : List UInt8)
    (handled : handleAll chanMem tsft tail.length tlvs src state = some (after,changed)) :
    awdlRxTlvs chanMem tsft (encodeTlvs tlvs ++ tail) src state =
      TlvRun.after tlvs (awdlRxTlvs chanMem tsft tail after changed) := by
  induction tlvs generalizing src state with
  | nil => cases handled; rfl
  | cons tlv rest ih =>
    obtain ⟨type,val⟩ := tlv
    rw [handleAll] at handled
    split at handled
    · cases handled
    · rename_i accepted
      rw [encodeTlvs_cons,tlvs_next (readTlv_tlvBytes type val _ (fits _ List.mem_cons_self))
        (by rw [front_length]) accepted,drop_tlvBytes,
        ih (fun other member => fits other (List.mem_cons_of_mem _ member)) handled]
      rfl

-- The handlers see these TLVs, or what lies behind them read as TLVs.
theorem tlvs_calls (tlvs : List Tlv) (fits : ∀ tlv ∈ tlvs, tlv.2.length < 65536) (tail : List UInt8) :
    ∀ tlv ∈ (awdlRxTlvs chanMem tsft (encodeTlvs tlvs ++ tail) src state).calls,
      tlv ∈ tlvs ∨ ∃ p s, tlv ∈ (awdlRxTlvs chanMem tsft tail p s).calls := by
  induction tlvs generalizing src state with
  | nil => exact fun tlv member => .inr ⟨src,state,member⟩
  | cons first rest ih =>
    obtain ⟨type,val⟩ := first
    have found := readTlv_tlvBytes type val (encodeTlvs rest ++ tail) (fits _ List.mem_cons_self)
    rw [encodeTlvs_cons]
    cases handled : awdlHandleTlv (chanMem (bufLen (tlvBytes type val ++ (encodeTlvs rest ++ tail)))) src type val
      state tsft with
    | mk result outcome =>
      obtain ⟨after,changed⟩ := outcome
      intro tlv member
      by_cases failed : result.code < 0
      · rw [tlvs_rejected found handled failed,List.mem_singleton] at member
        exact .inl (member ▸ List.mem_cons_self)
      · rw [tlvs_next found handled failed,drop_tlvBytes] at member
        rcases List.mem_cons.mp member with here | later
        · exact .inl (here ▸ List.mem_cons_self)
        · rcases ih (fun other held => fits other (List.mem_cons_of_mem _ held)) tlv later with inner | behind
          · exact .inl (List.mem_cons_of_mem _ inner)
          · exact .inr behind

-- A rejected TLV ends the loop before it sees what lies behind.
theorem tlvs_stuck (tlvs : List Tlv) (fits : ∀ tlv ∈ tlvs, tlv.2.length < 65536) (behind : Nat)
    (rejected : handleAll chanMem tsft behind tlvs src state = none) :
    ∃ after changed calls, ∀ tail : List UInt8, tail.length = behind → ∃ rest,
      awdlRxTlvs chanMem tsft (encodeTlvs tlvs ++ tail) src state =
        ⟨.unexpectedFormat,rest,after,changed,calls⟩ := by
  induction tlvs generalizing src state with
  | nil => cases rejected
  | cons tlv rest ih =>
    obtain ⟨type,val⟩ := tlv
    have first := fits _ List.mem_cons_self
    rw [handleAll] at rejected
    split at rejected
    · rename_i failed
      let run := awdlHandleTlv (chanMem (val.length + 3 + (encodeTlvs rest).length + behind)) src type val state tsft
      refine ⟨run.2.1,run.2.2,[(type,val)],?_⟩
      rintro tail rfl
      refine ⟨tlvBytes type val ++ (encodeTlvs rest ++ tail),?_⟩
      rw [encodeTlvs_cons,tlvs_rejected (readTlv_tlvBytes type val _ first) (by rw [front_length]) failed]
    · rename_i accepted
      obtain ⟨after,changed,calls,ends⟩ := ih (fun other member => fits other (List.mem_cons_of_mem _ member)) rejected
      refine ⟨after,changed,(type,val) :: calls,?_⟩
      rintro tail rfl
      obtain ⟨left,ran⟩ := ends tail rfl
      refine ⟨left,?_⟩
      rw [encodeTlvs_cons,tlvs_next (readTlv_tlvBytes type val _ first) (by rw [front_length]) accepted,
        drop_tlvBytes,ran]
      rfl

end Bodies
end EspOwl.TlvLoop
