import EspOwl.Crc32
import EspOwl.State

namespace EspOwl

def awdlDnsShortLocal : UInt16 := 0xc00c
def awdlDataHead : UInt16 := 0x0403
def awdlDataPad : UInt16 := 0x0000
def awdlSocialChannel6Bit : UInt16 := 0x0001
def awdlSocialChannel44Bit : UInt16 := 0x0002
def awdlSocialChannel149Bit : UInt16 := 0x0004

-- The awdl_init_* functions write to a raw pointer and return how far they got;
-- here they return the bytes written. Clock readings are arguments.
def awdlInitData (state : AwdlState) : List UInt8 × AwdlState :=
  let (seq,state) := awdlStateNextSequenceNumber state
  let header : AwdlData := {head := awdlDataHead,seq := seq,pad := awdlDataPad,ethertype := ethPIpv6}
  (header.bytes,state)

def awdlInitAction (now : UInt64) (type : AwdlActionType) : List UInt8 :=
  let steadyTime := now.toUInt32
  let af : AwdlAction := {
    category := ieee80211VendorSpecific
    oui := awdlOui
    type := awdlType
    version := awdlVersionCompat
    subtype := type.toByte
    reserved := 0
    phyTx := steadyTime
    targetTx := steadyTime}
  af.bytes

def awdlChanEncodingLength : AwdlChanEncoding → Nat
  | .simple => 1
  | .legacy => 2
  | .opclass => 2
  | .other _ => 0

def awdlInitChanseq (state : AwdlState) : List UInt8 :=
  let encLen := awdlChanEncodingLength state.channel.enc
  let chanseq : AwdlChanseq := {
    count := UInt8.ofNat awdlChanseqLength - 1
    encoding := state.channel.enc.toByte
    duplicateCount := 0
    stepCount := 3
    fillChannel := 0xffff}
  chanseq.bytes ++ (List.ofFn state.channel.sequence).flatMap fun chan => [chan.val0,chan.val1].take encLen

def awdlInitSyncParamsTlv (now : UInt64) (state : AwdlState) : List UInt8 :=
  let chanseq := awdlInitChanseq state
  let txDownCounter := awdlSyncNextAwTu now state.sync
  let nextAwSeq := awdlSyncCurrentAw now state.sync
  let awComLength := state.sync.awPeriod
  -- What is left of the extended window, as an int.
  let elapsed : Int := state.sync.awPeriod.toNat * state.sync.presenceMode.toNat - txDownCounter.toNat
  let tlv : AwdlSyncParamsTlv := {
    type := awdlSynchronizationParametersTlv
    length := UInt16.ofNat (AwdlSyncParamsTlv.size + chanseq.length + 2 - Tl.size)
    guardTime := 0
    awPeriod := state.sync.awPeriod
    awExtLength := state.sync.awPeriod
    awComLength := awComLength
    minExt := state.sync.presenceMode - 1
    maxExtUnicast := state.sync.presenceMode - 1
    maxExtMulticast := state.sync.presenceMode - 1
    maxExtAf := state.sync.presenceMode - 1
    flags := 0x1800
    reserved := 0
    nextAwChannel := awdlChanNum state.channel.current state.channel.enc
    nextAwSeq := nextAwSeq
    apAlignment := nextAwSeq
    txDownCounter := txDownCounter
    afPeriod := state.psfInterval
    presenceMode := state.sync.presenceMode
    masterAddr := state.election.masterAddr
    masterChannel := awdlChanNum state.channel.master state.channel.enc
    remainingAwLength := if awComLength.toNat < elapsed then 0 else UInt16.ofInt (awComLength.toNat - elapsed)}
  tlv.bytes ++ chanseq ++ [0,0]

def awdlInitChanseqTlv (state : AwdlState) : List UInt8 :=
  let chanseq := awdlInitChanseq state
  let tlv : Tl := {type := awdlChanSeqTlv,length := UInt16.ofNat (Tl.size + chanseq.length + 3 - Tl.size)}
  tlv.bytes ++ chanseq ++ [0,0,0]

def awdlInitElectionParamsTlv (state : AwdlState) : List UInt8 :=
  let tlv : AwdlElectionParamsTlv := {
    type := awdlElectionParametersTlv
    length := UInt16.ofNat (AwdlElectionParamsTlv.size - Tl.size)
    distancetop := state.election.height.toUInt8
    topMasterAddr := state.election.masterAddr
    topMasterMetric := state.election.masterMetric
    selfMetric := state.election.selfMetric
    flags := 0
    id := 0
    unknown := 0
    pad0 := 0
    pad1 := 0}
  tlv.bytes

def awdlInitElectionParamsV2Tlv (state : AwdlState) : List UInt8 :=
  let tlv : AwdlElectionParamsV2Tlv := {
    type := awdlElectionParametersV2Tlv
    length := UInt16.ofNat (AwdlElectionParamsV2Tlv.size - Tl.size)
    masterAddr := state.election.masterAddr
    syncAddr := state.election.syncAddr
    distanceToMaster := state.election.height
    masterMetric := state.election.masterMetric
    selfMetric := state.election.selfMetric
    unknown := 0
    reserved := 0
    masterCounter := state.election.masterCounter
    selfCounter := state.election.selfCounter}
  tlv.bytes

def awdlInitServiceParamsTlv : List UInt8 :=
  let tlv : AwdlServiceParamsTlv := {
    type := awdlServiceParametersTlv
    length := UInt16.ofNat (AwdlServiceParamsTlv.size - Tl.size)
    unknown0 := 0
    unknown1 := 0
    unknown2 := 0
    sui := 0
    bitmask := 0}
  tlv.bytes

def awdlInitHtCapabilitiesTlv : List UInt8 :=
  let tlv : AwdlHtCapabilitiesTlv := {
    type := awdlEnhancedDataRateCapabilitiesTlv
    length := UInt16.ofNat (AwdlHtCapabilitiesTlv.size - Tl.size)
    htCapabilities := 0x11ce
    ampduParams := 0x1b
    rxMcs := 0xff
    unknown := 0
    unknown2 := 0}
  tlv.bytes

def awdlInitDataPathStateTlv (state : AwdlState) : List UInt8 :=
  let tlv : AwdlDataPathStateTlv := {
    type := awdlDataPathStateTlv
    length := UInt16.ofNat (AwdlDataPathStateTlv.size - Tl.size)
    flags := 0x8f24
    awdlAddr := state.selfAddress
    countryCode0 := 0x58
    countryCode1 := 0x30
    countryCode2 := 0
    socialChannels :=
      if awdlChanNum state.channel.master .opclass = 6 then awdlSocialChannel6Bit
      else if awdlChanNum state.channel.master .opclass = 44 then awdlSocialChannel44Bit
      else awdlSocialChannel149Bit
    extFlags := 0x0000}
  tlv.bytes

-- The length is computed from strlen, which ends at the terminator in the array.
def awdlInitArpaTlv (state : AwdlState) : List UInt8 :=
  let len := state.name.strlen
  let tlv : AwdlArpaTlv := {
    type := awdlArpaTlv
    length := UInt16.ofNat (AwdlArpaTlv.size - Tl.size + len + 1)
    flags := 3
    nameLength := UInt8.ofNat len
    name := state.name.text
    suffix := awdlDnsShortLocal}
  tlv.bytes

def awdlInitVersionTlv (state : AwdlState) : List UInt8 :=
  let tlv : AwdlVersionTlv := {
    type := awdlVersionTlv
    length := UInt16.ofNat (AwdlVersionTlv.size - Tl.size)
    version := state.version
    devclass := state.devClass}
  tlv.bytes

def ieee80211InitAwdlHdr (src dst : EtherAddr) (state : Ieee80211State) (type : UInt16) :
    List UInt8 × Ieee80211State :=
  let (seq,state) := ieee80211StateNextSequenceNumber state
  let hdr : Ieee80211Hdr := {
    frameControl := type
    durationId := 0
    addr1 := dst
    addr2 := src
    addr3 := awdlBssid
    seqCtrl := seq <<< 4}
  (hdr.bytes,state)

def ieee80211InitAwdlActionHdr (src dst : EtherAddr) (state : Ieee80211State) : List UInt8 × Ieee80211State :=
  ieee80211InitAwdlHdr src dst state (ieee80211FtypeMgmt ||| ieee80211StypeAction)

def ieee80211InitAwdlDataHdr (src dst : EtherAddr) (state : Ieee80211State) : List UInt8 × Ieee80211State :=
  ieee80211InitAwdlHdr src dst state (ieee80211FtypeData ||| ieee80211StypeData)

def llcInitAwdlHdr : List UInt8 :=
  let hdr : LlcHdr := {dsap := 0xaa,ssap := 0xaa,control := 0x03,oui := awdlOui,pid := awdlLlcProtocolId}
  hdr.bytes

def ieee80211AddFcs (frame : List UInt8) : List UInt8 := le32 (crc32 frame)

-- The two clock readings of one action frame.
structure TxClock where
  action : UInt64
  sync : UInt64
deriving DecidableEq, Repr

-- The TLVs of an action frame, in the order they are sent.
def awdlActionTlvs (clock : TxClock) (state : AwdlState) (type : AwdlActionType) : List (List UInt8) :=
  [awdlInitSyncParamsTlv clock.sync state,awdlInitElectionParamsTlv state,awdlInitChanseqTlv state,
    awdlInitElectionParamsV2Tlv state,awdlInitServiceParamsTlv] ++
  (if type = .mif then [awdlInitHtCapabilitiesTlv] else []) ++
  (if type = .mif then [awdlInitArpaTlv state] else []) ++
  [awdlInitDataPathStateTlv state,awdlInitVersionTlv state]

def awdlInitFullActionFrame (clock : TxClock) (state : AwdlState) (ieee80211State : Ieee80211State)
    (type : AwdlActionType) : List UInt8 × Ieee80211State :=
  let (hdr,ieee80211State) := ieee80211InitAwdlActionHdr state.selfAddress state.dst ieee80211State
  let frame := hdr ++ awdlInitAction clock.action type ++ (awdlActionTlvs clock state type).flatten
  (frame ++ (if ieee80211State.fcs then ieee80211AddFcs frame else []),ieee80211State)

def awdlInitFullDataFrame (src dst : EtherAddr) (payload : List UInt8) (state : AwdlState)
    (ieee80211State : Ieee80211State) : List UInt8 × AwdlState × Ieee80211State :=
  let (hdr,ieee80211State) := ieee80211InitAwdlDataHdr src dst ieee80211State
  let (data,state) := awdlInitData state
  let frame := hdr ++ llcInitAwdlHdr ++ data ++ payload
  (frame ++ (if ieee80211State.fcs then ieee80211AddFcs frame else []),state,ieee80211State)

end EspOwl
