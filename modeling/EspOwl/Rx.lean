import EspOwl.State

namespace EspOwl

-- Both unexpectedValue and tooShort are -3 in the source.
inductive RxResult where
  | ignorePeer
  | ignoreRssi
  | ignoreFailedCrc
  | ignoreNopromisc
  | ignoreFromSelf
  | ignore
  | ok
  | unexpectedFormat
  | unexpectedType
  | unexpectedValue
  | tooShort
deriving DecidableEq, Repr

def RxResult.code : RxResult → Int
  | .ignorePeer => 6
  | .ignoreRssi => 5
  | .ignoreFailedCrc => 4
  | .ignoreNopromisc => 3
  | .ignoreFromSelf => 2
  | .ignore => 1
  | .ok => 0
  | .unexpectedFormat => -1
  | .unexpectedType => -2
  | .unexpectedValue => -3
  | .tooShort => -3

-- What one call meets in its surroundings: the fuel and the calloc outcomes of the
-- hash table, and the uninitialised memory it can come to read. `chanMem` is the
-- local channel list when so many bytes are still to be parsed, `bufMem` the
-- array malloc returns for so many-th output.
structure Ambient where
  fuel : Nat
  callocs : List Bool
  peerMem : AwdlPeer
  chanMem : Nat → Fin awdlChanseqLength → AwdlChan
  bufMem : Nat → Nat → UInt8

def awdlSyncThreshold : Int := 3

def awdlHandleSyncParamsTlv (src : AwdlPeer) (val : Buf) (state : AwdlState) (now : UInt64) :
    RxResult × AwdlState :=
  if !awdlElectionIsSyncMaster state.election src.addr then (.ignore,state)
  else
    checkedRead (readLe16 val 1) (.tooShort,state) fun timeToNextAwMaster =>
    checkedRead (readLe16 val 29) (.tooShort,state) fun awCounterMaster =>
    let sync := {state.sync with measTotal := state.sync.measTotal + 1}
    let syncErrTu := awdlSyncErrorTu now timeToNextAwMaster awCounterMaster sync
    let sync := awdlSyncUpdateLast now timeToNextAwMaster awCounterMaster sync
    let sync :=
      if syncErrTu > awdlSyncThreshold ∨ syncErrTu < -awdlSyncThreshold then
        {sync with measErr := sync.measErr + 1}
      else sync
    (.ok,{state with sync := sync})

-- Bytes copied to val[] of a channel.
def AwdlChan.overwrite (chan : AwdlChan) : List UInt8 → AwdlChan
  | [] => chan
  | [val0] => ⟨val0,chan.val1⟩
  | val0 :: val1 :: _ => ⟨val0,val1⟩

def readChan (val : Buf) (size : Nat) (mem : AwdlChan) (i : Nat) : Option AwdlChan :=
  (readBytesCopy val (6 + i * size) size).map mem.overwrite

-- The loop over the 16 slots. A failed read leaves it, and src, untouched.
def readChans (val : Buf) (size : Nat) (mem : Fin awdlChanseqLength → AwdlChan) :
    Option (Fin awdlChanseqLength → AwdlChan) :=
  if ∀ i : Fin awdlChanseqLength, (readChan val size (mem i) i).isSome then
    some fun i => (readChan val size (mem i) i).getD (mem i)
  else none

def awdlHandleChanseqTlv (mem : Fin awdlChanseqLength → AwdlChan) (src : AwdlPeer) (val : Buf)
    (state : AwdlState) : RxResult × AwdlPeer :=
  checkedRead (readU8 val 0) (.tooShort,src) fun count =>
  if count.toNat + 1 ≠ awdlChanseqLength then (.unexpectedValue,src) else
  checkedRead (readU8 val 2) (.tooShort,src) fun duplicateCount =>
  if duplicateCount > 0 then (.unexpectedValue,src) else
  checkedRead (readU8 val 3) (.tooShort,src) fun stepCount =>
  if stepCount.toNat + 1 ≠ state.sync.presenceMode.toNat then (.unexpectedValue,src) else
  checkedRead (readLe16 val 4) (.tooShort,src) fun fillChannel =>
  if fillChannel ≠ 0xffff then (.unexpectedValue,src) else
  checkedRead (readU8 val 1) (.tooShort,src) fun encoding =>
  let size := awdlChanEncodingSize (.ofByte encoding)
  if size < 1 then (.unexpectedValue,src) else
  checkedRead (readChans val size.toNat mem) (.tooShort,src) fun list =>
  if src.sequence ≠ list then (.ok,{src with sequence := list}) else (.ok,src)

-- A read that fails half-way leaves the fields read before it in src.
def awdlHandleElectionParamsTlv (src : AwdlPeer) (val : Buf) : RxResult × AwdlPeer :=
  if src.supportsV2 then (.ok,src) else
  checkedRead (readU8 val 3) (.tooShort,src) fun distanceToMaster =>
  let src := {src with election.height := distanceToMaster.toUInt32}
  checkedRead (readEtherAddr val 5) (.tooShort,src) fun masterAddr =>
  let src := {src with election.masterAddr := masterAddr}
  checkedRead (readLe32 val 11) (.tooShort,src) fun masterMetric =>
  let src := {src with election.masterMetric := masterMetric}
  checkedRead (readLe32 val 15) (.tooShort,src) fun selfMetric =>
  (.ok,{src with election.selfMetric := selfMetric})

def awdlHandleElectionParamsV2Tlv (src : AwdlPeer) (val : Buf) : RxResult × AwdlPeer :=
  checkedRead (readLe32 val 16) (.tooShort,src) fun height =>
  let src := {src with election.height := height}
  checkedRead (readEtherAddr val 0) (.tooShort,src) fun masterAddr =>
  let src := {src with election.masterAddr := masterAddr}
  checkedRead (readEtherAddr val 6) (.tooShort,src) fun syncAddr =>
  let src := {src with election.syncAddr := syncAddr}
  checkedRead (readLe32 val 12) (.tooShort,src) fun masterCounter =>
  let src := {src with election.masterCounter := masterCounter}
  checkedRead (readLe32 val 20) (.tooShort,src) fun masterMetric =>
  let src := {src with election.masterMetric := masterMetric}
  checkedRead (readLe32 val 24) (.tooShort,src) fun selfMetric =>
  let src := {src with election.selfMetric := selfMetric}
  checkedRead (readLe32 val 36) (.tooShort,src) fun selfCounter =>
  let src := {src with election.selfCounter := selfCounter}
  (.ok,{src with supportsV2 := true})

def awdlHandleArpaTlv (src : AwdlPeer) (val : Buf) : RxResult × AwdlPeer :=
  checkedRead (readIntString val 1 hostNameLengthMax) (.tooShort,src) fun string =>
  (.ok,{src with name := src.name.overwrite string})

-- Each part is there when its flag is set; `offset` runs over the parts.
def awdlHandleDataPathStateTlv (src : AwdlPeer) (val : Buf) : RxResult × AwdlPeer :=
  checkedRead (readLe16 val 0) (.tooShort,src) fun flags =>
  let offset := 2
  checkedRead
    (if flags &&& awdlDataPathFlagCountryCode ≠ 0 then
      (readBytesCopy val offset 3).map fun code =>
        (offset + 3,{src with countryCode := src.countryCode.overwrite code})
    else some (offset,src)) (.tooShort,src) fun (offset,src) =>
  checkedRead
    (if flags &&& awdlDataPathFlagSocialChannelMap ≠ 0 then (readLe16 val offset).map fun _ => offset + 2
    else some offset) (.tooShort,src) fun offset =>
  checkedRead
    (if flags &&& awdlDataPathFlagInfraInfo ≠ 0 then
      (readEtherAddr val offset).bind fun _ => (readLe16 val (offset + 6)).map fun _ => offset + 6 + 2
    else some offset) (.tooShort,src) fun offset =>
  checkedRead
    (if flags &&& awdlDataPathFlagInfraAddress ≠ 0 then
      (readEtherAddr val offset).map fun infraAddr => (offset + 6,{src with infraAddr := infraAddr})
    else some (offset,src)) (.tooShort,src) fun (offset,src) =>
  checkedRead
    (if flags &&& awdlDataPathFlagAwdlAddress ≠ 0 then (readEtherAddr val offset).map fun _ => offset + 6
    else some offset) (.tooShort,src) fun _ =>
  (.ok,src)

def awdlHandleVersionTlv (src : AwdlPeer) (val : Buf) : RxResult × AwdlPeer :=
  checkedRead (readU8 val 0) (.tooShort,src) fun version =>
  checkedRead (readU8 val 1) (.tooShort,src) fun devclass =>
  (.ok,{src with version := version,devclass := devclass})

def awdlHandleTlv (mem : Fin awdlChanseqLength → AwdlChan) (src : AwdlPeer) (type : UInt8) (val : Buf)
    (state : AwdlState) (tsft : UInt64) : RxResult × AwdlPeer × AwdlState :=
  let onPeer := fun (run : RxResult × AwdlPeer) => (run.1,run.2,state)
  if type = awdlSynchronizationParametersTlv then
    let run := awdlHandleSyncParamsTlv src val state tsft
    (run.1,src,run.2)
  else if type = awdlChanSeqTlv then onPeer (awdlHandleChanseqTlv mem src val state)
  else if type = awdlElectionParametersTlv then onPeer (awdlHandleElectionParamsTlv src val)
  else if type = awdlElectionParametersV2Tlv then onPeer (awdlHandleElectionParamsV2Tlv src val)
  else if type = awdlArpaTlv then onPeer (awdlHandleArpaTlv src val)
  else if type = awdlDataPathStateTlv then onPeer (awdlHandleDataPathStateTlv src val)
  else if type = awdlVersionTlv then onPeer (awdlHandleVersionTlv src val)
  else (.ignore,src,state)

def awdlParseActionHdr (frame : Buf) : Option AwdlActionType :=
  checkedRead (readBytes frame 0 AwdlAction.size) none fun _ =>
  let af := AwdlAction.ofBytes frame
  let valid := af.category = ieee80211VendorSpecific ∧ af.oui = awdlOui ∧ af.type = awdlType ∧
    af.version = awdlVersionCompat
  if valid ∧ af.subtype = AwdlActionType.psf.toByte then some .psf
  else if valid ∧ af.subtype = AwdlActionType.mif.toByte then some .mif
  else none

-- The TLV loop. `calls` lists the TLVs handed to awdl_handle_tlv; src is the
-- record that the peer pointer refers to, written back by the caller.
structure TlvRun where
  result : RxResult
  frame : Buf
  src : AwdlPeer
  state : AwdlState
  calls : List (UInt8 × List UInt8)

def awdlRxTlvs (chanMem : Nat → Fin awdlChanseqLength → AwdlChan) (tsft : UInt64) (frame : Buf)
    (src : AwdlPeer) (state : AwdlState) : TlvRun :=
  match _next : readTlv frame 0 with
  | none => ⟨.ok,frame,src,state,[]⟩
  | some (type,val) =>
    let (result,after,changed) := awdlHandleTlv (chanMem (bufLen frame)) src type val state tsft
    if result.code < 0 then ⟨.unexpectedFormat,frame,after,changed,[(type,val)]⟩
    else
      let run := awdlRxTlvs chanMem tsft (frame.drop (val.length + 3)) after changed
      {run with calls := (type,val) :: run.calls}
termination_by frame.length
decreasing_by
  have inside := readTlv_length _next
  rw [List.length_drop]
  omega

-- One call of awdl_rx: its result, the state it leaves, the buffers behind the
-- output pointer, the TLVs handled and the peers reported as valid.
structure RxRun where
  result : RxResult
  state : AwdlState
  out : List Buf
  calls : List (UInt8 × List UInt8)
  called : List AwdlPeer

def RxRun.stop (result : RxResult) (state : AwdlState) : RxRun := ⟨result,state,[],[],[]⟩

def AwdlState.setPeers (state : AwdlState) (peers : AwdlPeers) : AwdlState := {state with peers.peers := peers}

variable (hash : EtherAddr → UInt64)

-- The RSSI test of awdl_rx_action, when it is on.
def rssiTooLow (state : AwdlState) (rssi : Int8) (src : EtherAddr) : Bool :=
  let status := (awdlPeerGet hash state.peers.peers src).1
  state.filterRssi &&
    ((status = .ok && rssi.toInt < state.rssiThreshold.toInt + state.rssiGrace.toInt) ||
      (status = .missing && rssi.toInt < state.rssiThreshold.toInt))

-- The part of awdl_rx_action behind the TLV loop, the loop's peer written back.
def awdlRxActionEnd (env : Ambient) (callocs : List Bool) (tsft : UInt64) (src : EtherAddr)
    (subtype : AwdlActionType) (run : TlvRun) (called : List AwdlPeer) : Option RxRun :=
  let state := run.state.setPeers (awdlPeerStore hash run.state.peers.peers src run.src)
  if run.result.code < 0 then some ⟨.unexpectedFormat,state,[],run.calls,called⟩
  else
    let frame := if bufLen run.frame = 1 ∧ run.frame.getD 0 0 = 0x00 then (bufStrip run.frame 1).getD run.frame else run.frame
    if bufLen frame > 4 then some ⟨.unexpectedFormat,state,[],run.calls,called⟩
    else
      let peer := if subtype = .mif then {run.src with sentMif := true} else run.src
      let peers := awdlPeerStore hash state.peers.peers src peer
      match awdlPeerAdd hash env.fuel callocs env.peerMem peers src tsft with
      | none => none
      | some again => some ⟨.ok,state.setPeers again.peers,[],run.calls,called ++ again.called.toList⟩

-- `none` when a hashmap_put does not return.
def awdlRxAction (env : Ambient) (frame : Buf) (rssi : Int8) (tsft : UInt64) (src : EtherAddr)
    (state : AwdlState) : Option RxRun :=
  match awdlParseActionHdr frame with
  | none => some (.stop .ignore state)
  | some subtype =>
    let frame := (bufStrip frame AwdlAction.size).getD frame
    if rssiTooLow hash state rssi src then some (.stop .ignoreRssi state)
    else
      let state := {state with stats.rxAction := state.stats.rxAction + 1}
      match awdlPeerAdd hash env.fuel env.callocs env.peerMem state.peers.peers src tsft with
      | none => none
      | some added =>
        let state := state.setPeers added.peers
        let called := added.called.toList
        if added.status.code < 0 then some ⟨.ignore,state,[],[],called⟩
        else
          match awdlPeerGet hash state.peers.peers src with
          | (.ok,some peer) =>
            awdlRxActionEnd hash env added.callocs tsft src subtype
              (awdlRxTlvs env.chanMem tsft frame peer state) called
          | _ => some ⟨.ignore,state,[],[],called⟩

def llcParse (frame : Buf) : Option LlcHdr :=
  checkedRead (readU8 frame 0) none fun dsap =>
  checkedRead (readU8 frame 1) none fun ssap =>
  checkedRead (readU8 frame 2) none fun control =>
  checkedRead (readBytesCopy frame 3 3) none fun oui =>
  checkedRead (readBe16 frame 6) none fun pid =>
  some ⟨dsap,ssap,control,⟨oui.getD 0 0,oui.getD 1 0,oui.getD 2 0⟩,pid⟩

def awdlValidLlcHeader (frame : Buf) : Bool :=
  match llcParse frame with
  | none => false
  | some llc => !(llc.dsap != 0xaa || llc.ssap != 0xaa || llc.control != 0x03 || llc.pid != awdlLlcProtocolId)

-- offset += write_...(**out, offset, ..)
def writeNext (write : Buf → Int → Int × Buf) (at_offset : Int × Buf) : Int × Buf :=
  (at_offset.1 + (write at_offset.2 at_offset.1).1,(write at_offset.2 at_offset.1).2)

-- The ethernet-like frame that awdl_rx_data creates. Its length field has 8 bits.
def ethernetFrame (mem : Nat → UInt8) (dst src : EtherAddr) (etherType : UInt16) (data : List UInt8) : Buf :=
  let written := (0,bufNewOwned etherMaxLen mem)
  let written := writeNext (fun out offset => writeEtherAddr out offset dst) written
  let written := writeNext (fun out offset => writeEtherAddr out offset src) written
  let written := writeNext (fun out offset => writeBe16 out offset etherType) written
  let written := writeNext (fun out offset => writeU8 out offset (UInt8.ofNat (bufLen data))) written
  (writeNext (fun out offset => writeBytes out offset data) written).2

-- The result, and the buffer that **out received, if any. The frame is at least
-- 8 bytes long where ether_type is read.
def awdlRxData (mem : Nat → UInt8) (frame : Buf) (src dst : EtherAddr) (state : AwdlState) :
    RxResult × List Buf × AwdlState :=
  let state := {state with stats.rxData := state.stats.rxData + 1}
  if (awdlPeerGet hash state.peers.peers src).1 ≠ .ok then (.ignorePeer,[],state)
  else if !awdlValidLlcHeader frame then (.unexpectedFormat,[],state)
  else
    let frame := (bufStrip frame LlcHdr.size).getD frame
    if bufLen frame < AwdlData.size then (.tooShort,[],state)
    else
      let etherType := (readBe16 frame 6).getD 0
      let frame := (bufStrip frame AwdlData.size).getD frame
      let frame := (bufTake frame 4).getD frame
      (.ok,[ethernetFrame mem dst src etherType frame],state)

structure Subframe where
  dst : EtherAddr
  src : EtherAddr
  body : Buf
deriving DecidableEq, Repr

-- Header and body of the subframe in front, and what follows the body.
def readSubframe (frame : Buf) : Option (Subframe × Buf) :=
  checkedRead (readEtherAddr frame 0) none fun dstA =>
  checkedRead (readEtherAddr frame 6) none fun srcA =>
  checkedRead (readBe16 frame 12) none fun lenA =>
  checkedRead (bufStrip frame 14) none fun frame =>
  if lenA.toNat > bufLen frame then none
  else checkedRead (bufStrip frame lenA.toNat) none fun rest => some (⟨dstA,srcA,frame.take lenA.toNat⟩,rest)

def padding (lenA : Nat) : Nat := (4 - (14 + lenA) % 4) % 4

def stripPadding (lenA : Nat) (frame : Buf) : Option Buf :=
  if bufLen frame > 0 then bufStrip frame (padding lenA) else some frame

theorem readSubframe_shorter (found : readSubframe frame = some (subframe,rest)) :
    rest.length + subframe.body.length + 14 = frame.length := by
  unfold readSubframe at found
  cases first : readEtherAddr frame 0 with
  | none => simp [first] at found
  | some dst =>
    cases second : readEtherAddr frame 6 with
    | none => simp [first,second] at found
    | some src =>
      cases third : readBe16 frame 12 with
      | none => simp [first,second,third] at found
      | some len =>
        cases fourth : bufStrip frame 14 with
        | none => simp [first,second,third,fourth] at found
        | some body =>
          obtain ⟨rfl,long⟩ := strip_some fourth
          simp only [first,second,third,fourth,checkedRead_some] at found
          split at found
          · cases found
          · rename_i fits
            cases fifth : bufStrip (frame.drop 14) len.toNat with
            | none => simp [fifth] at found
            | some after =>
              obtain ⟨rfl,inside⟩ := strip_some fifth
              simp only [fifth,checkedRead_some,Option.some.injEq,Prod.mk.injEq] at found
              obtain ⟨rfl,rfl⟩ := found
              simp only [List.length_drop,List.length_take] at *
              omega

theorem stripPadding_length (stripped : stripPadding lenA frame = some rest) : rest.length ≤ frame.length := by
  unfold stripPadding at stripped
  split at stripped
  · rw [(strip_some stripped).1,List.length_drop]
    omega
  · cases stripped; exact le_rfl

-- `emitted` outputs have been written before this point of the loop.
def awdlRxDataAmsdu (bufMem : Nat → Nat → UInt8) (emitted : Nat) (frame : Buf) (state : AwdlState) :
    RxResult × List Buf × AwdlState :=
  if bufLen frame = 0 then (.ok,[],state)
  else
    match _next : readSubframe frame with
    | none => (.tooShort,[],state)
    | some (subframe,rest) =>
      let (err,packets,state) := awdlRxData hash (bufMem emitted) subframe.body subframe.src subframe.dst state
      if err.code < 0 then (err,packets,state)
      else
        match _padded : stripPadding subframe.body.length rest with
        | none => (.tooShort,packets,state)
        | some rest =>
          let (result,later,state) := awdlRxDataAmsdu bufMem (emitted + packets.length) rest state
          (result,packets ++ later,state)
termination_by frame.length
decreasing_by
  have shorter := readSubframe_shorter _next
  have kept := stripPadding_length _padded
  omega

def frameKind (fc : UInt16) : UInt16 := fc &&& (ieee80211FctlFtype ||| ieee80211FctlStype ||| ieee80211FctlRetry)

def RxRun.ofData (run : RxResult × List Buf × AwdlState) : RxRun := ⟨run.1,run.2.2,run.2.1,[],[]⟩

-- The radio header in front of the frame has the length of wifi_pkt_rx_ctrl_t; its
-- first byte is the RSSI. `now` is clock_time_us().
def awdlRx (env : Ambient) (rxCtrlLen : Nat) (frame : Buf) (now : UInt64) (state : AwdlState) : Option RxRun :=
  let wireError := some (.stop .tooShort state)
  checkedRead (readU8 frame 0) wireError fun rssi =>
  checkedRead (bufStrip frame rxCtrlLen) wireError fun frame =>
  checkedRead (readBytes frame 0 Ieee80211Hdr.size) wireError fun _ =>
  let ieee80211 := Ieee80211Hdr.ofBytes frame
  let src := ieee80211.addr2
  let dst := ieee80211.addr1
  let fc := ieee80211.frameControl
  if src = state.selfAddress then some (.stop .ignoreFromSelf state)
  else if !dst.isGroup ∧ dst ≠ state.selfAddress then some (.stop .ignoreNopromisc state)
  else
    checkedRead (bufStrip frame Ieee80211Hdr.size) wireError fun frame =>
    if frameKind fc = ieee80211FtypeMgmt ||| ieee80211StypeAction then
      awdlRxAction hash env frame rssi.toInt8 now src state
    else if frameKind fc = ieee80211FtypeData ||| ieee80211StypeData ||| ieee80211StypeQosData ∨
        frameKind fc = ieee80211FtypeData ||| ieee80211StypeData ||| ieee80211StypeQosData ||| 0x0800 then
      checkedRead (readLe16 frame 0) wireError fun qosc =>
      checkedRead (bufStrip frame ieee80211QosCtlLen) wireError fun frame =>
      if qosc &&& ieee80211QosCtlAMsduPresent ≠ 0 then
        some (.ofData (awdlRxDataAmsdu hash env.bufMem 0 frame state))
      else some (.ofData (awdlRxData hash (env.bufMem 0) frame src dst state))
    else if frameKind fc = ieee80211FtypeData ||| ieee80211StypeData then
      some (.ofData (awdlRxData hash (env.bufMem 0) frame src dst state))
    else some (.stop .unexpectedType state)

end EspOwl
