import EspOwl.Subframes

namespace EspOwl.Dispatch
open DataFrames Subframes

-- Where awdl_rx sends a frame, read off the frame and the node's own address.
inductive Route where
  | drop (result : RxResult)
  | action (rssi : Int8) (src : EtherAddr) (frame : Buf)
  | data (src dst : EtherAddr) (frame : Buf)
  | amsdu (frame : Buf)

def routeQos (src dst : EtherAddr) (frame : Buf) : Route :=
  checkedRead (readLe16 frame 0) (.drop .tooShort) fun qosc =>
  checkedRead (bufStrip frame ieee80211QosCtlLen) (.drop .tooShort) fun frame =>
  if qosc &&& ieee80211QosCtlAMsduPresent ≠ 0 then .amsdu frame else .data src dst frame

def routeBody (rssi : UInt8) (src dst : EtherAddr) (fc : UInt16) (frame : Buf) : Route :=
  if frameKind fc = ieee80211FtypeMgmt ||| ieee80211StypeAction then .action rssi.toInt8 src frame
  else if frameKind fc = ieee80211FtypeData ||| ieee80211StypeData ||| ieee80211StypeQosData ∨
      frameKind fc = ieee80211FtypeData ||| ieee80211StypeData ||| ieee80211StypeQosData ||| 0x0800 then
    routeQos src dst frame
  else if frameKind fc = ieee80211FtypeData ||| ieee80211StypeData then .data src dst frame
  else .drop .unexpectedType

-- The address filter, on the 802.11 header.
def routeHdr (self : EtherAddr) (rssi : UInt8) (frame : Buf) : Route :=
  let hdr := Ieee80211Hdr.ofBytes frame
  if hdr.addr2 = self then .drop .ignoreFromSelf
  else if !hdr.addr1.isGroup ∧ hdr.addr1 ≠ self then .drop .ignoreNopromisc
  else
    checkedRead (bufStrip frame Ieee80211Hdr.size) (.drop .tooShort)
      (routeBody rssi hdr.addr2 hdr.addr1 hdr.frameControl)

def route (rxCtrlLen : Nat) (self : EtherAddr) (frame : Buf) : Route :=
  checkedRead (readU8 frame 0) (.drop .tooShort) fun rssi =>
  checkedRead (bufStrip frame rxCtrlLen) (.drop .tooShort) fun frame =>
  checkedRead (readBytes frame 0 Ieee80211Hdr.size) (.drop .tooShort) fun _ => routeHdr self rssi frame

variable (hash : EtherAddr → UInt64)

def follow (env : Ambient) (now : UInt64) (state : AwdlState) : Route → Option RxRun
  | .drop result => some (.stop result state)
  | .action rssi src frame => awdlRxAction hash env frame rssi now src state
  | .data src dst frame => some (.ofData (awdlRxData hash (env.bufMem 0) frame src dst state))
  | .amsdu frame => some (.ofData (awdlRxDataAmsdu hash env.bufMem 0 frame state))

variable {hash}

theorem body_follows (env : Ambient) (now : UInt64) (state : AwdlState) (rssi : UInt8) (body : Buf)
    (src dst : EtherAddr) (fc : UInt16) :
    (if frameKind fc = ieee80211FtypeMgmt ||| ieee80211StypeAction then
      awdlRxAction hash env body rssi.toInt8 now src state
    else if frameKind fc = ieee80211FtypeData ||| ieee80211StypeData ||| ieee80211StypeQosData ∨
        frameKind fc = ieee80211FtypeData ||| ieee80211StypeData ||| ieee80211StypeQosData ||| 0x0800 then
      checkedRead (readLe16 body 0) (some (.stop .tooShort state)) fun qosc =>
      checkedRead (bufStrip body ieee80211QosCtlLen) (some (.stop .tooShort state)) fun frame =>
      if qosc &&& ieee80211QosCtlAMsduPresent ≠ 0 then
        some (.ofData (awdlRxDataAmsdu hash env.bufMem 0 frame state))
      else some (.ofData (awdlRxData hash (env.bufMem 0) frame src dst state))
    else if frameKind fc = ieee80211FtypeData ||| ieee80211StypeData then
      some (.ofData (awdlRxData hash (env.bufMem 0) body src dst state))
    else some (.stop .unexpectedType state)) = follow hash env now state (routeBody rssi src dst fc body) := by
  unfold routeBody routeQos
  split
  · rfl
  · split
    · cases readLe16 body 0 with
      | none => rfl
      | some qosc =>
        simp only [checkedRead_some]
        cases bufStrip body ieee80211QosCtlLen with
        | none => rfl
        | some inner => simp only [checkedRead_some]; split <;> rfl
    · split <;> rfl

theorem rx_follows (env : Ambient) (rxCtrlLen : Nat) (frame : Buf) (now : UInt64) (state : AwdlState) :
    awdlRx hash env rxCtrlLen frame now state = follow hash env now state (route rxCtrlLen state.selfAddress frame) := by
  unfold awdlRx route
  cases readU8 frame 0 with
  | none => rfl
  | some rssi =>
    simp only [checkedRead_some]
    cases bufStrip frame rxCtrlLen with
    | none => rfl
    | some frame =>
      simp only [checkedRead_some]
      cases readBytes frame 0 Ieee80211Hdr.size with
      | none => rfl
      | some bytes =>
        simp only [checkedRead_some,routeHdr]
        split
        · rfl
        · split
          · rfl
          · cases bufStrip frame Ieee80211Hdr.size with
            | none => rfl
            | some body => exact body_follows env now state rssi body _ _ _

-- Sender and receiver in the 802.11 header behind the radio header.
def frameSource (rxCtrlLen : Nat) (frame : Buf) : EtherAddr := (Ieee80211Hdr.ofBytes (frame.drop rxCtrlLen)).addr2
def frameDestination (rxCtrlLen : Nat) (frame : Buf) : EtherAddr := (Ieee80211Hdr.ofBytes (frame.drop rxCtrlLen)).addr1

def IsActionFrame (rxCtrlLen : Nat) (frame : Buf) : Prop :=
  frameKind (Ieee80211Hdr.ofBytes (frame.drop rxCtrlLen)).frameControl = ieee80211FtypeMgmt ||| ieee80211StypeAction

-- What the address filter has let through, with the source of the frame.
theorem route_cases (rxCtrlLen : Nat) (self : EtherAddr) (frame : Buf) :
    (∃ result, route rxCtrlLen self frame = .drop result) ∨
      frameSource rxCtrlLen frame ≠ self ∧
      ((frameDestination rxCtrlLen frame).isGroup = true ∨ frameDestination rxCtrlLen frame = self) ∧
      ∃ rssi body, route rxCtrlLen self frame = routeBody rssi (frameSource rxCtrlLen frame)
        (frameDestination rxCtrlLen frame) (Ieee80211Hdr.ofBytes (frame.drop rxCtrlLen)).frameControl body := by
  unfold route
  cases readU8 frame 0 with
  | none => exact .inl ⟨_,rfl⟩
  | some rssi =>
    simp only [checkedRead_some]
    cases stripped : bufStrip frame rxCtrlLen with
    | none => exact .inl ⟨_,rfl⟩
    | some inner =>
      obtain ⟨rfl,_⟩ := strip_some stripped
      simp only [checkedRead_some]
      cases readBytes (frame.drop rxCtrlLen) 0 Ieee80211Hdr.size with
      | none => exact .inl ⟨_,rfl⟩
      | some bytes =>
        simp only [checkedRead_some,routeHdr]
        split
        · exact .inl ⟨_,rfl⟩
        · rename_i other
          split
          · exact .inl ⟨_,rfl⟩
          · rename_i addressed
            cases bufStrip (frame.drop rxCtrlLen) Ieee80211Hdr.size with
            | none => exact .inl ⟨_,rfl⟩
            | some body =>
              refine .inr ⟨other,?_,rssi,body,rfl⟩
              by_cases group : (frameDestination rxCtrlLen frame).isGroup = true
              · exact .inl group
              · refine .inr (by_contra fun away => addressed ⟨?_,away⟩)
                change (!(frameDestination rxCtrlLen frame).isGroup) = true
                simpa using group

theorem routeQos_silent (src dst : EtherAddr) (frame : Buf) (level : Int8) (from_addr : EtherAddr) (body : Buf) :
    routeQos src dst frame ≠ .action level from_addr body := by
  unfold routeQos
  refine checkedRead_holds (motive := fun (way : Route) => way ≠ .action level from_addr body) (by simp) fun _ _ => ?_
  refine checkedRead_holds (motive := fun (way : Route) => way ≠ .action level from_addr body) (by simp) fun _ _ => ?_
  split <;> simp

theorem routeBody_action (way : routeBody rssi src dst fc frame = .action level from_addr body) :
    from_addr = src ∧ frameKind fc = ieee80211FtypeMgmt ||| ieee80211StypeAction ∧ body = frame := by
  unfold routeBody at way
  split at way
  · rename_i kind
    cases way
    exact ⟨rfl,kind,rfl⟩
  · split at way
    · exact absurd way (routeQos_silent _ _ _ _ _ _)
    · split at way <;> cases way

theorem routeQos_data (way : routeQos src dst frame = .data from_addr to_addr body) :
    from_addr = src ∧ to_addr = dst := by
  unfold routeQos at way
  cases read : readLe16 frame 0 with
  | none => rw [read] at way; cases way
  | some qosc =>
    rw [read,checkedRead_some] at way
    cases stripped : bufStrip frame ieee80211QosCtlLen with
    | none => rw [stripped] at way; cases way
    | some inner =>
      rw [stripped,checkedRead_some] at way
      split at way
      · cases way
      · cases way; exact ⟨rfl,rfl⟩

theorem routeBody_data (way : routeBody rssi src dst fc frame = .data from_addr to_addr body) :
    from_addr = src ∧ to_addr = dst := by
  unfold routeBody at way
  split at way
  · cases way
  · split at way
    · exact routeQos_data way
    · split at way
      · cases way; exact ⟨rfl,rfl⟩
      · cases way

theorem route_action (way : route rxCtrlLen self frame = .action rssi src body) :
    src = frameSource rxCtrlLen frame ∧ src ≠ self ∧ IsActionFrame rxCtrlLen frame := by
  rcases route_cases rxCtrlLen self frame with ⟨result,dropped⟩ | ⟨other,_,_,_,through⟩
  · rw [way] at dropped; cases dropped
  · rw [way] at through
    obtain ⟨rfl,kind,_⟩ := routeBody_action through.symm
    exact ⟨rfl,other,kind⟩

theorem route_data (way : route rxCtrlLen self frame = .data src dst body) :
    src ≠ self ∧ (dst.isGroup = true ∨ dst = self) := by
  rcases route_cases rxCtrlLen self frame with ⟨result,dropped⟩ | ⟨other,own,_,_,through⟩
  · rw [way] at dropped; cases dropped
  · rw [way] at through
    obtain ⟨rfl,rfl⟩ := routeBody_data through.symm
    exact ⟨other,own⟩

-- A frame is handled as an action frame of its source, or leaves all but the counters.
theorem rx_cases (ran : awdlRx hash env rxCtrlLen frame now state = some run) :
    (∃ stats, run.state = {state with stats := stats}) ∨
      ∃ rssi body, route rxCtrlLen state.selfAddress frame = .action rssi (frameSource rxCtrlLen frame) body ∧
        awdlRxAction hash env body rssi now (frameSource rxCtrlLen frame) state = some run := by
  rw [rx_follows] at ran
  cases way : route rxCtrlLen state.selfAddress frame with
  | drop result =>
    rw [way] at ran
    cases ran
    exact .inl ⟨state.stats,rfl⟩
  | action rssi src body =>
    rw [way] at ran
    obtain ⟨rfl,_,_⟩ := route_action way
    exact .inr ⟨rssi,body,rfl,ran⟩
  | data src dst body =>
    rw [way] at ran
    cases ran
    exact .inl ⟨_,@rxData_counts hash (env.bufMem 0) body src dst state⟩
  | amsdu body =>
    rw [way] at ran
    cases ran
    exact .inl (@amsdu_emits hash env.bufMem 0 body state).2

theorem actionEnd_answer (ran : awdlRxActionEnd hash env callocs tsft src subtype loop called = some run) :
    run.out = [] ∧ (run.result = .ok ∨ run.result = .unexpectedFormat) := by
  unfold awdlRxActionEnd at ran
  dsimp only at ran
  generalize awdlPeerAdd hash env.fuel callocs env.peerMem _ src tsft = again at ran
  split at ran
  · cases ran; exact ⟨rfl,.inr rfl⟩
  · generalize (if bufLen loop.frame = 1 ∧ loop.frame.getD 0 0 = 0x00 then
      (bufStrip loop.frame 1).getD loop.frame else loop.frame) = left at ran
    split at ran
    · cases ran; exact ⟨rfl,.inr rfl⟩
    · cases again with
      | none => cases ran
      | some again => cases ran; exact ⟨rfl,.inl rfl⟩

-- What an action frame is answered with: no packet, and one of four results.
theorem action_answer (ran : awdlRxAction hash env frame rssi tsft src state = some run) :
    run.out = [] ∧ (run.result = .ok ∨ run.result = .unexpectedFormat ∨ run.result = .ignore ∨ run.result = .ignoreRssi) := by
  unfold awdlRxAction at ran
  split at ran
  · cases ran; exact ⟨rfl,.inr (.inr (.inl rfl))⟩
  · dsimp only at ran
    split at ran
    · cases ran; exact ⟨rfl,.inr (.inr (.inr rfl))⟩
    · split at ran
      · cases ran
      · split at ran
        · cases ran; exact ⟨rfl,.inr (.inr (.inl rfl))⟩
        · split at ran
          · obtain ⟨out,result⟩ := actionEnd_answer ran
            exact ⟨out,result.imp_right .inl⟩
          · cases ran; exact ⟨rfl,.inr (.inr (.inl rfl))⟩

theorem action_out (ran : awdlRxAction hash env frame rssi tsft src state = some run) : run.out = [] :=
  (action_answer ran).1

theorem data_out (mem : Nat → UInt8) (frame : Buf) (src dst : EtherAddr) (state : AwdlState) :
    (awdlRxData hash mem frame src dst state).2.1 =
      if knownPeer hash state src && wellFormed frame then [packetOf mem ⟨dst,src,frame⟩] else [] := by
  cases known : knownPeer hash state src with
  | false => simp [rxData_unknown mem frame dst known]
  | true =>
    cases formed : wellFormed frame with
    | false =>
      obtain ⟨result,ran,_⟩ := rxData_malformed mem dst known formed
      simp [ran]
    | true => simp [rxData_emits mem dst known formed]

def maxNumAmpdu : Nat := 16

-- Every output that awdl_rx writes has a place in data_arr.
def OutputsFit (hash : EtherAddr → UInt64) (env : Ambient) (rxCtrlLen : Nat) (frame : Buf) (now : UInt64)
    (state : AwdlState) : Prop :=
  ∀ run, awdlRx hash env rxCtrlLen frame now state = some run → run.out.length ≤ maxNumAmpdu

-- Only an A-MSDU can emit more than one packet, and nothing but the number of its
-- subframes from known peers bounds how many.
theorem outputs_fit_iff (env : Ambient) (rxCtrlLen : Nat) (frame : Buf) (now : UInt64) (state : AwdlState) :
    OutputsFit hash env rxCtrlLen frame now state ↔ ∀ body, route rxCtrlLen state.selfAddress frame = .amsdu body →
      (passed (knownPeer hash state) (subframes body)).length ≤ maxNumAmpdu := by
  unfold OutputsFit
  rw [rx_follows]
  cases way : route rxCtrlLen state.selfAddress frame with
  | drop result =>
    refine iff_of_true ?_ (by simp)
    rintro run ran
    cases ran
    exact Nat.zero_le _
  | action rssi src body =>
    refine iff_of_true ?_ (by simp)
    intro run ran
    rw [action_out ran]
    exact Nat.zero_le _
  | data src dst body =>
    refine iff_of_true ?_ (by simp)
    rintro run ran
    cases ran
    change (awdlRxData hash (env.bufMem 0) body src dst state).2.1.length ≤ _
    rw [data_out]
    split <;> simp [maxNumAmpdu]
  | amsdu body =>
    have count := @amsdu_count hash env.bufMem 0 body state
    constructor
    · intro fits other same
      cases same
      rw [← count]
      exact fits _ rfl
    · rintro few run ran
      cases ran
      exact count.trans_le (few body rfl)

-- A node that knows one neighbour, and a radio header of 24 bytes.
def nodeOne : EtherAddr := ⟨2,0,0,0,0,1⟩
def nodeTwo : EtherAddr := ⟨2,0,0,0,0,2⟩
def radioHdr : List UInt8 := List.replicate 24 0
def quiet : Ambient := ⟨0,[],default,fun _ _ => chanNull,fun _ _ => 0⟩
def acquainted : AwdlState := (awdlInitState default [] nodeOne chanOpclass6 0).setPeers
  ⟨1,some (nodeTwo,awdlPeerNew nodeTwo default) :: List.replicate 255 none⟩

-- One subframe of 30 bytes without payload, and its padding.
def emptySubframe : List UInt8 :=
  nodeOne.bytes ++ nodeTwo.bytes ++ be16 16 ++ (LlcHdr.mk 0xaa 0xaa 0x03 awdlOui awdlLlcProtocolId).bytes ++
    (AwdlData.mk 0x0403 0 0 ethPIpv6).bytes ++ [0,0]

theorem outputs_overflow : ¬ OutputsFit (fun _ => 0) quiet 24
    (radioHdr ++ (Ieee80211Hdr.mk 0x0088 0 nodeOne nodeTwo awdlBssid 0).bytes ++ le16 0x0080 ++
      (List.replicate 17 emptySubframe).flatten) 0 acquainted := by
  have many : (awdlRx (fun _ => 0) quiet 24
      (radioHdr ++ (Ieee80211Hdr.mk 0x0088 0 nodeOne nodeTwo awdlBssid 0).bytes ++ le16 0x0080 ++
        (List.replicate 17 emptySubframe).flatten) 0 acquainted).map (fun run => run.out.length) = some 17 := by
    decide +kernel
  obtain ⟨run,ran,length⟩ := Option.map_eq_some_iff.mp many
  intro fits
  have bounded := fits run ran
  rw [length] at bounded
  exact absurd bounded (by decide)

end EspOwl.Dispatch
