import EspOwl.DataFrames

namespace EspOwl.Subframes
open DataFrames

-- The subframes of an A-MSDU as its lengths and padding delimit them.
def subframes (frame : Buf) : List Subframe :=
  if bufLen frame = 0 then []
  else
    match _next : readSubframe frame with
    | none => []
    | some (subframe,rest) =>
      subframe :: match _padded : stripPadding subframe.body.length rest with
        | none => []
        | some rest => subframes rest
termination_by frame.length
decreasing_by
  have shorter := readSubframe_shorter _next
  have kept := stripPadding_length _padded
  omega

-- The subframes passed on: those from known peers, up to the first such one that
-- awdl_rx_data rejects.
def passed (known : EtherAddr → Bool) (frames : List Subframe) : List Subframe :=
  (frames.takeWhile fun subframe => !known subframe.src || wellFormed subframe.body).filter
    fun subframe => known subframe.src

variable {known : EtherAddr → Bool} {subframe : Subframe}

@[simp] theorem passed_nil : passed known [] = [] := rfl

theorem passed_unknown (unknown : known subframe.src = false) (rest : List Subframe) :
    passed known (subframe :: rest) = passed known rest := by
  simp [passed,unknown]

theorem passed_malformed (known_src : known subframe.src = true) (malformed : wellFormed subframe.body = false)
    (rest : List Subframe) : passed known (subframe :: rest) = [] := by
  simp [passed,known_src,malformed]

theorem passed_formed (known_src : known subframe.src = true) (formed : wellFormed subframe.body = true)
    (rest : List Subframe) : passed known (subframe :: rest) = subframe :: passed known rest := by
  simp [passed,known_src,formed]

theorem passed_known (member : subframe ∈ passed known frames) : known subframe.src = true :=
  (List.mem_filter.mp member).2

variable {hash : EtherAddr → UInt64}

theorem readSubframe_nonempty (found : readSubframe frame = some (subframe,rest)) : bufLen frame ≠ 0 := by
  have shorter := readSubframe_shorter found
  rw [bufLen]
  omega

-- One turn of either loop, on a frame that is not yet used up.
theorem subframes_turn (more : bufLen frame ≠ 0) : subframes frame = match readSubframe frame with
    | none => []
    | some (subframe,rest) => subframe :: match stripPadding subframe.body.length rest with
      | none => []
      | some after => subframes after := by
  rw [subframes,if_neg more]
  split <;> rename_i found
  · rw [found]
  · rw [found]
    dsimp only
    congr 1
    split <;> rename_i padded <;> rw [padded]

theorem amsdu_turn (bufMem : Nat → Nat → UInt8) (emitted : Nat) (state : AwdlState) (more : bufLen frame ≠ 0) :
    awdlRxDataAmsdu hash bufMem emitted frame state = match readSubframe frame with
      | none => (.tooShort,[],state)
      | some (subframe,rest) =>
        let (err,packets,after) := awdlRxData hash (bufMem emitted) subframe.body subframe.src subframe.dst state
        if err.code < 0 then (err,packets,after)
        else match stripPadding subframe.body.length rest with
          | none => (.tooShort,packets,after)
          | some rest =>
            let run := awdlRxDataAmsdu hash bufMem (emitted + packets.length) rest after
            (run.1,packets ++ run.2.1,run.2.2) := by
  rw [awdlRxDataAmsdu,if_neg more]
  split <;> rename_i found
  · rw [found]
  · rw [found]
    dsimp only
    split
    · rfl
    · split <;> rename_i padded <;> rw [padded]

theorem subframes_next (found : readSubframe frame = some (subframe,rest)) :
    subframes frame = subframe :: match stripPadding subframe.body.length rest with
      | none => []
      | some after => subframes after := by
  rw [subframes_turn (readSubframe_nonempty found),found]

theorem subframes_stuck (missing : readSubframe frame = none) : subframes frame = [] := by
  by_cases empty : bufLen frame = 0
  · rw [subframes,if_pos empty]
  · rw [subframes_turn empty,missing]

theorem amsdu_empty (bufMem : Nat → Nat → UInt8) (emitted : Nat) (state : AwdlState) :
    awdlRxDataAmsdu hash bufMem emitted [] state = (.ok,[],state) := by
  rw [awdlRxDataAmsdu]
  rfl

theorem amsdu_stuck (bufMem : Nat → Nat → UInt8) (emitted : Nat) (state : AwdlState) (more : bufLen frame ≠ 0)
    (missing : readSubframe frame = none) :
    awdlRxDataAmsdu hash bufMem emitted frame state = (.tooShort,[],state) := by
  rw [amsdu_turn bufMem emitted state more,missing]

-- One round of the loop that gets past its subframe.
theorem amsdu_next (bufMem : Nat → Nat → UInt8) (emitted : Nat)
    (found : readSubframe frame = some (subframe,rest))
    (ran : awdlRxData hash (bufMem emitted) subframe.body subframe.src subframe.dst state = (result,packets,after))
    (accepted : ¬ result.code < 0) :
    awdlRxDataAmsdu hash bufMem emitted frame state =
      match stripPadding subframe.body.length rest with
      | none => (.tooShort,packets,after)
      | some rest =>
        let run := awdlRxDataAmsdu hash bufMem (emitted + packets.length) rest after
        (run.1,packets ++ run.2.1,run.2.2) := by
  rw [amsdu_turn bufMem emitted state (readSubframe_nonempty found),found]
  simp only [ran,if_neg accepted]

theorem amsdu_failed (bufMem : Nat → Nat → UInt8) (emitted : Nat)
    (found : readSubframe frame = some (subframe,rest))
    (ran : awdlRxData hash (bufMem emitted) subframe.body subframe.src subframe.dst state = (result,packets,after))
    (failed : result.code < 0) :
    awdlRxDataAmsdu hash bufMem emitted frame state = (result,packets,after) := by
  rw [amsdu_turn bufMem emitted state (readSubframe_nonempty found),found]
  simp only [ran,if_pos failed]

-- Receiving data only counts; the packets are those of the subframes passed on.
theorem amsdu_emits (bufMem : Nat → Nat → UInt8) (emitted : Nat) (frame : Buf) (state : AwdlState) :
    (awdlRxDataAmsdu hash bufMem emitted frame state).2.1 =
        (passed (knownPeer hash state) (subframes frame)).mapIdx (fun i => packetOf (bufMem (emitted + i))) ∧
      ∃ stats, (awdlRxDataAmsdu hash bufMem emitted frame state).2.2 = {state with stats := stats} := by
  induction size : frame.length using Nat.strong_induction_on generalizing frame emitted state with
  | _ size ih =>
    cases next : readSubframe frame with
    | none =>
      rw [subframes_stuck next]
      by_cases empty : frame = []
      · subst empty
        rw [amsdu_empty]
        exact ⟨rfl,state.stats,rfl⟩
      · rw [amsdu_stuck bufMem emitted state (by simpa [bufLen] using empty) next]
        exact ⟨rfl,state.stats,rfl⟩
    | some pair =>
      obtain ⟨subframe,rest⟩ := pair
      have shorter := readSubframe_shorter next
      rw [subframes_next next]
      cases member : knownPeer hash state subframe.src with
      | false =>
        rw [amsdu_next bufMem emitted next (rxData_unknown _ _ _ member) (by decide),passed_unknown member]
        cases padded : stripPadding subframe.body.length rest with
        | none => exact ⟨rfl,_,rfl⟩
        | some after =>
          have kept := stripPadding_length padded
          obtain ⟨out,stats,left⟩ := ih after.length (by omega) emitted after (countData state) rfl
          exact ⟨out,stats,left⟩
      | true =>
        cases formed : wellFormed subframe.body with
        | false =>
          obtain ⟨result,ran,failed⟩ := rxData_malformed (bufMem emitted) subframe.dst member formed
          rw [amsdu_failed bufMem emitted next ran failed,passed_malformed member formed]
          exact ⟨rfl,_,rfl⟩
        | true =>
          rw [amsdu_next bufMem emitted next (rxData_emits _ _ member formed) (by decide),
            passed_formed member formed]
          cases padded : stripPadding subframe.body.length rest with
          | none => exact ⟨rfl,_,rfl⟩
          | some after =>
            have kept := stripPadding_length padded
            obtain ⟨out,stats,left⟩ := ih after.length (by omega) (emitted + 1) after (countData state) rfl
            have moved : (fun i => packetOf (bufMem (emitted + (i + 1)))) =
                fun i => packetOf (bufMem (emitted + 1 + i)) := by
              funext i
              rw [Nat.add_assoc,Nat.add_comm 1 i]
            refine ⟨?_,stats,left⟩
            rw [List.mapIdx_cons,moved]
            exact congrArg _ out

theorem amsdu_count (bufMem : Nat → Nat → UInt8) (emitted : Nat) (frame : Buf) (state : AwdlState) :
    (awdlRxDataAmsdu hash bufMem emitted frame state).2.1.length =
      (passed (knownPeer hash state) (subframes frame)).length := by
  rw [(amsdu_emits bufMem emitted frame state).1,List.length_mapIdx]

end EspOwl.Subframes
