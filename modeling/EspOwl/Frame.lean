import EspOwl.Wire

namespace EspOwl

structure Oui where
  byte0 : UInt8
  byte1 : UInt8
  byte2 : UInt8
deriving DecidableEq, Repr

def Oui.bytes (oui : Oui) : List UInt8 := [oui.byte0,oui.byte1,oui.byte2]

def awdlOui : Oui := ⟨0x00,0x17,0xf2⟩
def awdlBssid : EtherAddr := ⟨0x00,0x25,0x00,0xff,0x94,0x73⟩
def awdlLlcProtocolId : UInt16 := 0x0800
def ieee80211VendorSpecific : UInt8 := 127
def awdlType : UInt8 := 8

def awdlVersion (major minor : UInt8) : UInt8 := ((major <<< 4) &&& 0xf0) ||| (minor &&& 0x0f)
def awdlVersionCompat : UInt8 := awdlVersion 1 0

def awdlDevclassMacos : UInt8 := 1

def ieee80211FctlFtype : UInt16 := 0x000c
def ieee80211FctlStype : UInt16 := 0x00f0
def ieee80211FctlRetry : UInt16 := 0x0800
def ieee80211FtypeMgmt : UInt16 := 0x0000
def ieee80211FtypeData : UInt16 := 0x0008
def ieee80211StypeAction : UInt16 := 0x00d0
def ieee80211StypeData : UInt16 := 0x0000
def ieee80211StypeQosData : UInt16 := 0x0080
def ieee80211QosCtlLen : Nat := 2
def ieee80211QosCtlAMsduPresent : UInt16 := 0x0080

inductive AwdlActionType where
  | psf
  | mif
deriving DecidableEq, Repr

def AwdlActionType.toByte : AwdlActionType → UInt8
  | .psf => 0
  | .mif => 3

def awdlSynchronizationParametersTlv : UInt8 := 4
def awdlElectionParametersTlv : UInt8 := 5
def awdlServiceParametersTlv : UInt8 := 6
def awdlEnhancedDataRateCapabilitiesTlv : UInt8 := 7
def awdlDataPathStateTlv : UInt8 := 12
def awdlArpaTlv : UInt8 := 16
def awdlChanSeqTlv : UInt8 := 18
def awdlVersionTlv : UInt8 := 21
def awdlElectionParametersV2Tlv : UInt8 := 24

def awdlDataPathFlagCountryCode : UInt16 := 0x0100
def awdlDataPathFlagSocialChannelMap : UInt16 := 0x0200
def awdlDataPathFlagInfraInfo : UInt16 := 0x0001
def awdlDataPathFlagInfraAddress : UInt16 := 0x0002
def awdlDataPathFlagAwdlAddress : UInt16 := 0x0004

-- The packed structs. `bytes` lays the fields out in the order of the source;
-- multi-byte fields hold the value before htole/htobe.

-- struct ieee80211_hdr and, on the receiving side, wifi_ieee80211_hdr_t.
structure Ieee80211Hdr where
  frameControl : UInt16
  durationId : UInt16
  addr1 : EtherAddr
  addr2 : EtherAddr
  addr3 : EtherAddr
  seqCtrl : UInt16
deriving DecidableEq, Repr

namespace Ieee80211Hdr

def size : Nat := 24

def bytes (hdr : Ieee80211Hdr) : List UInt8 :=
  le16 hdr.frameControl ++ le16 hdr.durationId ++ hdr.addr1.bytes ++ hdr.addr2.bytes ++ hdr.addr3.bytes ++
    le16 hdr.seqCtrl

def ofBytes (bytes : List UInt8) : Ieee80211Hdr where
  frameControl := UInt16.ofNat (ByteCodec.leValue (ByteCodec.slice 0 2 bytes))
  durationId := UInt16.ofNat (ByteCodec.leValue (ByteCodec.slice 2 2 bytes))
  addr1 := EtherAddr.ofBytes (ByteCodec.slice 4 6 bytes)
  addr2 := EtherAddr.ofBytes (ByteCodec.slice 10 6 bytes)
  addr3 := EtherAddr.ofBytes (ByteCodec.slice 16 6 bytes)
  seqCtrl := UInt16.ofNat (ByteCodec.leValue (ByteCodec.slice 22 2 bytes))

@[simp] theorem bytes_length (hdr : Ieee80211Hdr) : hdr.bytes.length = size := rfl

theorem ofBytes_bytes (hdr : Ieee80211Hdr) (rest : List UInt8) : ofBytes (hdr.bytes ++ rest) = hdr := by
  have control := le16_value hdr.frameControl
  have duration := le16_value hdr.durationId
  have sequence := le16_value hdr.seqCtrl
  change Ieee80211Hdr.mk (UInt16.ofNat (ByteCodec.leValue (le16 hdr.frameControl)))
    (UInt16.ofNat (ByteCodec.leValue (le16 hdr.durationId))) _ _ _
    (UInt16.ofNat (ByteCodec.leValue (le16 hdr.seqCtrl))) = hdr
  rw [control,duration,sequence]
  rfl

end Ieee80211Hdr

structure LlcHdr where
  dsap : UInt8
  ssap : UInt8
  control : UInt8
  oui : Oui
  pid : UInt16
deriving DecidableEq, Repr

def LlcHdr.size : Nat := 8
def LlcHdr.bytes (hdr : LlcHdr) : List UInt8 :=
  [hdr.dsap,hdr.ssap,hdr.control] ++ hdr.oui.bytes ++ be16 hdr.pid

structure AwdlData where
  head : UInt16
  seq : UInt16
  pad : UInt16
  ethertype : UInt16
deriving DecidableEq, Repr

def AwdlData.size : Nat := 8
def AwdlData.bytes (data : AwdlData) : List UInt8 :=
  le16 data.head ++ le16 data.seq ++ le16 data.pad ++ be16 data.ethertype

structure AwdlAction where
  category : UInt8
  oui : Oui
  type : UInt8
  version : UInt8
  subtype : UInt8
  reserved : UInt8
  phyTx : UInt32
  targetTx : UInt32
deriving DecidableEq, Repr

namespace AwdlAction

def size : Nat := 16

def bytes (af : AwdlAction) : List UInt8 :=
  [af.category] ++ af.oui.bytes ++ [af.type,af.version,af.subtype,af.reserved] ++ le32 af.phyTx ++ le32 af.targetTx

def ofBytes (bytes : List UInt8) : AwdlAction where
  category := bytes.getD 0 0
  oui := ⟨bytes.getD 1 0,bytes.getD 2 0,bytes.getD 3 0⟩
  type := bytes.getD 4 0
  version := bytes.getD 5 0
  subtype := bytes.getD 6 0
  reserved := bytes.getD 7 0
  phyTx := UInt32.ofNat (ByteCodec.leValue (ByteCodec.slice 8 4 bytes))
  targetTx := UInt32.ofNat (ByteCodec.leValue (ByteCodec.slice 12 4 bytes))

@[simp] theorem bytes_length (af : AwdlAction) : af.bytes.length = size := rfl

theorem ofBytes_bytes (af : AwdlAction) (rest : List UInt8) : ofBytes (af.bytes ++ rest) = af := by
  have phy := le32_value af.phyTx
  have target := le32_value af.targetTx
  change AwdlAction.mk _ _ _ _ _ _ (UInt32.ofNat (ByteCodec.leValue (le32 af.phyTx)))
    (UInt32.ofNat (ByteCodec.leValue (le32 af.targetTx))) = af
  rw [phy,target]
  rfl

end AwdlAction

structure AwdlChanseq where
  count : UInt8
  encoding : UInt8
  duplicateCount : UInt8
  stepCount : UInt8
  fillChannel : UInt16
deriving DecidableEq, Repr

def AwdlChanseq.bytes (chanseq : AwdlChanseq) : List UInt8 :=
  [chanseq.count,chanseq.encoding,chanseq.duplicateCount,chanseq.stepCount] ++ le16 chanseq.fillChannel

structure AwdlSyncParamsTlv where
  type : UInt8
  length : UInt16
  nextAwChannel : UInt8
  txDownCounter : UInt16
  masterChannel : UInt8
  guardTime : UInt8
  awPeriod : UInt16
  afPeriod : UInt16
  flags : UInt16
  awExtLength : UInt16
  awComLength : UInt16
  remainingAwLength : UInt16
  minExt : UInt8
  maxExtMulticast : UInt8
  maxExtUnicast : UInt8
  maxExtAf : UInt8
  masterAddr : EtherAddr
  presenceMode : UInt8
  reserved : UInt8
  nextAwSeq : UInt16
  apAlignment : UInt16
deriving DecidableEq, Repr

def AwdlSyncParamsTlv.size : Nat := 36
def AwdlSyncParamsTlv.bytes (tlv : AwdlSyncParamsTlv) : List UInt8 :=
  [tlv.type] ++ le16 tlv.length ++ [tlv.nextAwChannel] ++ le16 tlv.txDownCounter ++
    [tlv.masterChannel,tlv.guardTime] ++ le16 tlv.awPeriod ++ le16 tlv.afPeriod ++ le16 tlv.flags ++
    le16 tlv.awExtLength ++ le16 tlv.awComLength ++ le16 tlv.remainingAwLength ++
    [tlv.minExt,tlv.maxExtMulticast,tlv.maxExtUnicast,tlv.maxExtAf] ++ tlv.masterAddr.bytes ++
    [tlv.presenceMode,tlv.reserved] ++ le16 tlv.nextAwSeq ++ le16 tlv.apAlignment

-- struct tl, which is also all of struct awdl_chanseq_tlv.
structure Tl where
  type : UInt8
  length : UInt16
deriving DecidableEq, Repr

def Tl.size : Nat := 3
def Tl.bytes (tl : Tl) : List UInt8 := [tl.type] ++ le16 tl.length

structure AwdlElectionParamsTlv where
  type : UInt8
  length : UInt16
  flags : UInt8
  id : UInt16
  distancetop : UInt8
  unknown : UInt8
  topMasterAddr : EtherAddr
  topMasterMetric : UInt32
  selfMetric : UInt32
  pad0 : UInt8
  pad1 : UInt8
deriving DecidableEq, Repr

def AwdlElectionParamsTlv.size : Nat := 24
def AwdlElectionParamsTlv.bytes (tlv : AwdlElectionParamsTlv) : List UInt8 :=
  [tlv.type] ++ le16 tlv.length ++ [tlv.flags] ++ le16 tlv.id ++ [tlv.distancetop,tlv.unknown] ++
    tlv.topMasterAddr.bytes ++ le32 tlv.topMasterMetric ++ le32 tlv.selfMetric ++ [tlv.pad0,tlv.pad1]

structure AwdlElectionParamsV2Tlv where
  type : UInt8
  length : UInt16
  masterAddr : EtherAddr
  syncAddr : EtherAddr
  masterCounter : UInt32
  distanceToMaster : UInt32
  masterMetric : UInt32
  selfMetric : UInt32
  unknown : UInt32
  reserved : UInt32
  selfCounter : UInt32
deriving DecidableEq, Repr

def AwdlElectionParamsV2Tlv.size : Nat := 43
def AwdlElectionParamsV2Tlv.bytes (tlv : AwdlElectionParamsV2Tlv) : List UInt8 :=
  [tlv.type] ++ le16 tlv.length ++ tlv.masterAddr.bytes ++ tlv.syncAddr.bytes ++ le32 tlv.masterCounter ++
    le32 tlv.distanceToMaster ++ le32 tlv.masterMetric ++ le32 tlv.selfMetric ++ le32 tlv.unknown ++
    le32 tlv.reserved ++ le32 tlv.selfCounter

structure AwdlServiceParamsTlv where
  type : UInt8
  length : UInt16
  unknown0 : UInt8
  unknown1 : UInt8
  unknown2 : UInt8
  sui : UInt16
  bitmask : UInt32
deriving DecidableEq, Repr

def AwdlServiceParamsTlv.size : Nat := 12
def AwdlServiceParamsTlv.bytes (tlv : AwdlServiceParamsTlv) : List UInt8 :=
  [tlv.type] ++ le16 tlv.length ++ [tlv.unknown0,tlv.unknown1,tlv.unknown2] ++ le16 tlv.sui ++ le32 tlv.bitmask

structure AwdlHtCapabilitiesTlv where
  type : UInt8
  length : UInt16
  unknown : UInt16
  htCapabilities : UInt16
  ampduParams : UInt8
  rxMcs : UInt8
  unknown2 : UInt16
deriving DecidableEq, Repr

def AwdlHtCapabilitiesTlv.size : Nat := 11
def AwdlHtCapabilitiesTlv.bytes (tlv : AwdlHtCapabilitiesTlv) : List UInt8 :=
  [tlv.type] ++ le16 tlv.length ++ le16 tlv.unknown ++ le16 tlv.htCapabilities ++ [tlv.ampduParams,tlv.rxMcs] ++
    le16 tlv.unknown2

structure AwdlDataPathStateTlv where
  type : UInt8
  length : UInt16
  flags : UInt16
  countryCode0 : UInt8
  countryCode1 : UInt8
  countryCode2 : UInt8
  socialChannels : UInt16
  awdlAddr : EtherAddr
  extFlags : UInt16
deriving DecidableEq, Repr

def AwdlDataPathStateTlv.size : Nat := 18
def AwdlDataPathStateTlv.bytes (tlv : AwdlDataPathStateTlv) : List UInt8 :=
  [tlv.type] ++ le16 tlv.length ++ le16 tlv.flags ++ [tlv.countryCode0,tlv.countryCode1,tlv.countryCode2] ++
    le16 tlv.socialChannels ++ tlv.awdlAddr.bytes ++ le16 tlv.extFlags

-- name is the variable part; name[1] of the struct counts in sizeof.
structure AwdlArpaTlv where
  type : UInt8
  length : UInt16
  flags : UInt8
  nameLength : UInt8
  name : List UInt8
  suffix : UInt16
deriving DecidableEq, Repr

def AwdlArpaTlv.size : Nat := 6
def AwdlArpaTlv.bytes (tlv : AwdlArpaTlv) : List UInt8 :=
  [tlv.type] ++ le16 tlv.length ++ [tlv.flags,tlv.nameLength] ++ tlv.name ++ be16 tlv.suffix

structure AwdlVersionTlv where
  type : UInt8
  length : UInt16
  version : UInt8
  devclass : UInt8
deriving DecidableEq, Repr

def AwdlVersionTlv.size : Nat := 5
def AwdlVersionTlv.bytes (tlv : AwdlVersionTlv) : List UInt8 :=
  [tlv.type] ++ le16 tlv.length ++ [tlv.version,tlv.devclass]

end EspOwl
