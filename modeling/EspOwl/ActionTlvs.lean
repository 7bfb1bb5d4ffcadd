import EspOwl.TlvLoop
import EspOwl.Tx

namespace EspOwl.ActionTlvs
open ByteCodec TlvLoop

-- The values of the TLVs that a sender puts into an action frame.
def syncValue (now : UInt64) (state : AwdlState) : List UInt8 := (awdlInitSyncParamsTlv now state).drop Tl.size
def electionValue (state : AwdlState) : List UInt8 :=
  [0] ++ le16 0 ++ [state.election.height.toUInt8,0] ++ state.election.masterAddr.bytes ++
    le32 state.election.masterMetric ++ le32 state.election.selfMetric ++ [0,0]
def chanseqValue (state : AwdlState) : List UInt8 := awdlInitChanseq state ++ [0,0,0]
def electionV2Value (state : AwdlState) : List UInt8 :=
  state.election.masterAddr.bytes ++ (state.election.syncAddr.bytes ++ (le32 state.election.masterCounter ++
    (le32 state.election.height ++ (le32 state.election.masterMetric ++ (le32 state.election.selfMetric ++
      (le32 0 ++ (le32 0 ++ le32 state.election.selfCounter)))))))
def serviceValue : List UInt8 := awdlInitServiceParamsTlv.drop Tl.size
def htValue : List UInt8 := awdlInitHtCapabilitiesTlv.drop Tl.size
def arpaValue (state : AwdlState) : List UInt8 :=
  [3,UInt8.ofNat state.name.strlen] ++ (state.name.text ++ be16 awdlDnsShortLocal)
def socialChannels (state : AwdlState) : UInt16 :=
  if awdlChanNum state.channel.master .opclass = 6 then awdlSocialChannel6Bit
  else if awdlChanNum state.channel.master .opclass = 44 then awdlSocialChannel44Bit
  else awdlSocialChannel149Bit
def dataPathValue (state : AwdlState) : List UInt8 :=
  le16 0x8f24 ++ ([0x58,0x30,0] ++ (le16 (socialChannels state) ++ (state.selfAddress.bytes ++ le16 0)))
def versionValue (state : AwdlState) : List UInt8 := [state.version,state.devClass]

section Encoding

theorem chanseq_length (state : AwdlState) :
    (awdlInitChanseq state).length = 6 + awdlChanseqLength * awdlChanEncodingLength state.channel.enc := by
  have slots : ((List.ofFn state.channel.sequence).flatMap fun chan =>
      [chan.val0,chan.val1].take (awdlChanEncodingLength state.channel.enc)).length =
        awdlChanseqLength * awdlChanEncodingLength state.channel.enc := by
    rw [flatMap_length _ (awdlChanEncodingLength state.channel.enc) ?_,List.length_ofFn]
    intro chan
    cases state.channel.enc <;> rfl
  rw [awdlInitChanseq,List.length_append,slots]
  rfl

theorem slot_bytes (enc : AwdlChanEncoding) : awdlChanEncodingLength enc ≤ 2 := by
  cases enc <;> simp [awdlChanEncodingLength]

-- The two fields that a receiver reads, and how far apart they lie.
theorem syncParams_bytes (tlv : AwdlSyncParamsTlv) :
    ∃ between : List UInt8, tlv.bytes = [tlv.type] ++ (le16 tlv.length ++ ([tlv.nextAwChannel] ++
      (le16 tlv.txDownCounter ++ (between ++ (le16 tlv.nextAwSeq ++ le16 tlv.apAlignment))))) ∧ between.length = 26 := by
  refine ⟨[tlv.masterChannel,tlv.guardTime] ++ (le16 tlv.awPeriod ++
    (le16 tlv.afPeriod ++ (le16 tlv.flags ++ (le16 tlv.awExtLength ++ (le16 tlv.awComLength ++ (le16 tlv.remainingAwLength ++
      ([tlv.minExt,tlv.maxExtMulticast,tlv.maxExtUnicast,tlv.maxExtAf] ++ (tlv.masterAddr.bytes ++
        [tlv.presenceMode,tlv.reserved])))))))),?_,?_⟩
  · simp only [AwdlSyncParamsTlv.bytes,List.append_assoc]
  · simp only [List.length_append,List.length_cons,List.length_nil,le16_length,EtherAddr.bytes_length]

theorem sync_layout (now : UInt64) (state : AwdlState) :
    ∃ (channel : UInt8) (between tail : List UInt8), between.length = 26 ∧
      tail.length = 2 + (awdlInitChanseq state).length + 2 ∧
      syncValue now state = [channel] ++ (le16 (awdlSyncNextAwTu now state.sync) ++
        (between ++ (le16 (awdlSyncCurrentAw now state.sync) ++ tail))) ∧
      awdlInitSyncParamsTlv now state = [awdlSynchronizationParametersTlv] ++
        (le16 (UInt16.ofNat (AwdlSyncParamsTlv.size + (awdlInitChanseq state).length + 2 - Tl.size)) ++
          syncValue now state) := by
  obtain ⟨tlv,type,length,down,seq,laid⟩ : ∃ tlv : AwdlSyncParamsTlv, tlv.type = awdlSynchronizationParametersTlv ∧
      tlv.length = UInt16.ofNat (AwdlSyncParamsTlv.size + (awdlInitChanseq state).length + 2 - Tl.size) ∧
      tlv.txDownCounter = awdlSyncNextAwTu now state.sync ∧ tlv.nextAwSeq = awdlSyncCurrentAw now state.sync ∧
      awdlInitSyncParamsTlv now state = tlv.bytes ++ awdlInitChanseq state ++ [0,0] := ⟨_,rfl,rfl,rfl,rfl,rfl⟩
  obtain ⟨between,bytes,width⟩ := syncParams_bytes tlv
  have value : syncValue now state = [tlv.nextAwChannel] ++ (le16 (awdlSyncNextAwTu now state.sync) ++
      (between ++ (le16 (awdlSyncCurrentAw now state.sync) ++ (le16 tlv.apAlignment ++
        (awdlInitChanseq state ++ [0,0]))))) := by
    rw [syncValue,laid,bytes,down,seq]
    simp only [List.append_assoc]
    rfl
  refine ⟨tlv.nextAwChannel,between,_,width,?_,value,?_⟩
  · simp only [List.length_append,le16_length,List.length_cons,List.length_nil]
    omega
  · rw [value,laid,bytes,type,length,down,seq]
    simp only [List.append_assoc]

theorem sync_length (now : UInt64) (state : AwdlState) :
    (syncValue now state).length = 35 + (awdlInitChanseq state).length := by
  obtain ⟨_,_,_,width,long,value,_⟩ := sync_layout now state
  rw [value]
  simp only [List.length_append,le16_length,List.length_cons,List.length_nil,width,long]
  omega

theorem sync_fits (now : UInt64) (state : AwdlState) : (syncValue now state).length < 65536 := by
  have slots := slot_bytes state.channel.enc
  rw [sync_length,chanseq_length,awdlChanseqLength]
  omega

theorem sync_tlv (now : UInt64) (state : AwdlState) :
    awdlInitSyncParamsTlv now state = tlvBytes awdlSynchronizationParametersTlv (syncValue now state) := by
  obtain ⟨_,_,_,_,_,_,laid⟩ := sync_layout now state
  have length : AwdlSyncParamsTlv.size + (awdlInitChanseq state).length + 2 - Tl.size =
      (syncValue now state).length := by
    rw [sync_length,AwdlSyncParamsTlv.size,Tl.size]
    omega
  rw [laid,tlvBytes,length]
  rfl

theorem election_tlv (state : AwdlState) :
    awdlInitElectionParamsTlv state = tlvBytes awdlElectionParametersTlv (electionValue state) := rfl

theorem chanseq_tlv (state : AwdlState) : awdlInitChanseqTlv state = tlvBytes awdlChanSeqTlv (chanseqValue state) := by
  have length : (chanseqValue state).length = Tl.size + (awdlInitChanseq state).length + 3 - Tl.size := by
    rw [chanseqValue,List.length_append,Tl.size,List.length_cons,List.length_cons,List.length_singleton]
    omega
  rw [tlvBytes,length,awdlInitChanseqTlv,chanseqValue]
  rfl

theorem electionV2_tlv (state : AwdlState) :
    awdlInitElectionParamsV2Tlv state = tlvBytes awdlElectionParametersV2Tlv (electionV2Value state) := rfl

theorem service_tlv : awdlInitServiceParamsTlv = tlvBytes awdlServiceParametersTlv serviceValue := rfl

theorem ht_tlv : awdlInitHtCapabilitiesTlv = tlvBytes awdlEnhancedDataRateCapabilitiesTlv htValue := rfl

theorem arpa_tlv (state : AwdlState) : awdlInitArpaTlv state = tlvBytes awdlArpaTlv (arpaValue state) := by
  have length : (arpaValue state).length = AwdlArpaTlv.size - Tl.size + state.name.strlen + 1 := by
    rw [arpaValue,List.length_append,List.length_append,CharArray.strlen,be16_length,AwdlArpaTlv.size,Tl.size]
    simp only [List.length_cons,List.length_nil]
    omega
  rw [tlvBytes,length,awdlInitArpaTlv,arpaValue]
  rfl

theorem dataPath_tlv (state : AwdlState) :
    awdlInitDataPathStateTlv state = tlvBytes awdlDataPathStateTlv (dataPathValue state) := rfl

theorem version_tlv (state : AwdlState) :
    awdlInitVersionTlv state = tlvBytes awdlVersionTlv (versionValue state) := rfl

end Encoding

-- What each handler makes of the value that a sender wrote.
section Handling

theorem sync_mode (src : AwdlPeer) (val : Buf) (state : AwdlState) (now : UInt64) :
    (awdlHandleSyncParamsTlv src val state now).2.sync.presenceMode = state.sync.presenceMode := by
  unfold awdlHandleSyncParamsTlv
  split
  · rfl
  · refine checkedRead_holds (motive := fun (run : RxResult × AwdlState) =>
      run.2.sync.presenceMode = state.sync.presenceMode) rfl fun _ _ => ?_
    refine checkedRead_holds (motive := fun (run : RxResult × AwdlState) =>
      run.2.sync.presenceMode = state.sync.presenceMode) rfl fun _ _ => ?_
    dsimp only
    split <;> rfl

theorem sync_accepted (src : AwdlPeer) (sent : UInt64) (sender state : AwdlState) (now : UInt64) :
    ¬ (awdlHandleSyncParamsTlv src (syncValue sent sender) state now).1.code < 0 := by
  have long := sync_length sent sender
  have first : readLe16 (syncValue sent sender) 1 = some _ := readWord_long _ (by omega)
  have second : readLe16 (syncValue sent sender) 29 = some _ := readWord_long _ (by omega)
  unfold awdlHandleSyncParamsTlv
  split
  · exact (by decide : ¬ RxResult.ignore.code < 0)
  · rw [first,second]
    exact (by decide : ¬ RxResult.ok.code < 0)

-- The four reads of the handler succeed; the third has the metric.
theorem election_reads (sender : AwdlState) : ∃ height master metric, readU8 (electionValue sender) 3 = some height ∧
    readEtherAddr (electionValue sender) 5 = some master ∧
    readLe32 (electionValue sender) 11 = some sender.election.masterMetric ∧
    readLe32 (electionValue sender) 15 = some metric := by
  have long : (electionValue sender).length = 21 := rfl
  have third : readLe32 (electionValue sender) 11 = some sender.election.masterMetric :=
    readLe32_at ([0] ++ le16 0 ++ [sender.election.height.toUInt8,0] ++ sender.election.masterAddr.bytes) 11 rfl _
      (le32 sender.election.selfMetric ++ [0,0])
  exact ⟨_,_,_,readWord_long _ (by omega),readWord_long _ (by rw [etherAddrLen]; omega),third,readWord_long _ (by omega)⟩

theorem election_accepted (src : AwdlPeer) (sender : AwdlState) :
    (awdlHandleElectionParamsTlv src (electionValue sender)).1 = .ok := by
  obtain ⟨_,_,_,first,second,third,fourth⟩ := election_reads sender
  unfold awdlHandleElectionParamsTlv
  split
  · rfl
  · rw [first,second,third,fourth]
    rfl

def learnElection (sender : AwdlState) (src : AwdlPeer) : AwdlPeer :=
  {src with
    election := {src.election with
      height := sender.election.height
      masterAddr := sender.election.masterAddr
      syncAddr := sender.election.syncAddr
      masterCounter := sender.election.masterCounter
      masterMetric := sender.election.masterMetric
      selfMetric := sender.election.selfMetric
      selfCounter := sender.election.selfCounter}
    supportsV2 := true}

theorem electionV2_handled (src : AwdlPeer) (sender : AwdlState) :
    awdlHandleElectionParamsV2Tlv src (electionV2Value sender) = (.ok,learnElection sender src) := by
  unfold awdlHandleElectionParamsV2Tlv electionV2Value learnElection
  generalize sender.election = e
  have masterAddr := readEtherAddr_at [] 0 rfl e.masterAddr (e.syncAddr.bytes ++ (le32 e.masterCounter ++
    (le32 e.height ++ (le32 e.masterMetric ++ (le32 e.selfMetric ++ (le32 0 ++ (le32 0 ++ le32 e.selfCounter)))))))
  have syncAddr := readEtherAddr_at e.masterAddr.bytes 6 rfl e.syncAddr (le32 e.masterCounter ++
    (le32 e.height ++ (le32 e.masterMetric ++ (le32 e.selfMetric ++ (le32 0 ++ (le32 0 ++ le32 e.selfCounter))))))
  have masterCounter := readLe32_at (e.masterAddr.bytes ++ e.syncAddr.bytes) 12 rfl e.masterCounter
    (le32 e.height ++ (le32 e.masterMetric ++ (le32 e.selfMetric ++ (le32 0 ++ (le32 0 ++ le32 e.selfCounter)))))
  have height := readLe32_at (e.masterAddr.bytes ++ (e.syncAddr.bytes ++ le32 e.masterCounter)) 16 rfl e.height
    (le32 e.masterMetric ++ (le32 e.selfMetric ++ (le32 0 ++ (le32 0 ++ le32 e.selfCounter))))
  have masterMetric := readLe32_at
    (e.masterAddr.bytes ++ (e.syncAddr.bytes ++ (le32 e.masterCounter ++ le32 e.height))) 20 rfl e.masterMetric
    (le32 e.selfMetric ++ (le32 0 ++ (le32 0 ++ le32 e.selfCounter)))
  have selfMetric := readLe32_at
    (e.masterAddr.bytes ++ (e.syncAddr.bytes ++ (le32 e.masterCounter ++ (le32 e.height ++ le32 e.masterMetric))))
    24 rfl e.selfMetric (le32 0 ++ (le32 0 ++ le32 e.selfCounter))
  have selfCounter := readLe32_at
    (e.masterAddr.bytes ++ (e.syncAddr.bytes ++ (le32 e.masterCounter ++ (le32 e.height ++
      (le32 e.masterMetric ++ (le32 e.selfMetric ++ (le32 0 ++ le32 0))))))) 36 rfl e.selfCounter []
  simp only [List.append_assoc,List.nil_append] at masterAddr masterCounter height masterMetric selfMetric
  simp only [List.append_assoc,List.append_nil] at selfCounter
  simp only [masterAddr,syncAddr,height,masterCounter,masterMetric,selfMetric,selfCounter,checkedRead_some]

theorem dataPath_handled (src : AwdlPeer) (sender : AwdlState) :
    awdlHandleDataPathStateTlv src (dataPathValue sender) =
      (.ok,{src with countryCode := src.countryCode.overwrite [0x58,0x30,0]}) := by
  have flags : readLe16 (dataPathValue sender) 0 = some 0x8f24 := readLe16_at [] 0 rfl _ _
  have country : readBytesCopy (dataPathValue sender) 2 3 = some [0x58,0x30,0] := rfl
  have social : readLe16 (dataPathValue sender) 5 = some (socialChannels sender) :=
    readLe16_at (le16 0x8f24 ++ [0x58,0x30,0]) 5 rfl _ _
  have addr : readEtherAddr (dataPathValue sender) 7 = some sender.selfAddress :=
    readEtherAddr_at (le16 0x8f24 ++ ([0x58,0x30,0] ++ le16 (socialChannels sender))) 7 rfl _ _
  have present : (0x8f24 : UInt16) &&& awdlDataPathFlagCountryCode ≠ 0 ∧
      (0x8f24 : UInt16) &&& awdlDataPathFlagSocialChannelMap ≠ 0 ∧
      (0x8f24 : UInt16) &&& awdlDataPathFlagAwdlAddress ≠ 0 := by decide
  have absent : (0x8f24 : UInt16) &&& awdlDataPathFlagInfraInfo = 0 ∧
      (0x8f24 : UInt16) &&& awdlDataPathFlagInfraAddress = 0 := by decide
  simp only [awdlHandleDataPathStateTlv,flags,checkedRead_some,if_pos present.1,if_pos present.2.1,
    if_pos present.2.2,absent.1,absent.2,country,social,addr,Option.map_some,ne_eq,not_true_eq_false,if_false]

theorem version_handled (src : AwdlPeer) (sender : AwdlState) :
    awdlHandleVersionTlv src (versionValue sender) =
      (.ok,{src with version := sender.version,devclass := sender.devClass}) := rfl

theorem arpa_handled (src : AwdlPeer) (sender : AwdlState) (short : sender.name.strlen ≤ hostNameLengthMax) :
    awdlHandleArpaTlv src (arpaValue sender) =
      (.ok,{src with name := src.name.overwrite (sender.name.text ++ [0])}) := by
  have first : readU8 (arpaValue sender) 1 = some (UInt8.ofNat sender.name.strlen) :=
    readWord_at (fun bytes => bytes.getD 0 0) [3] [UInt8.ofNat sender.name.strlen] _ rfl
  have length : (UInt8.ofNat sender.name.strlen).toNat = sender.name.strlen :=
    UInt8.toNat_ofNat_of_lt (Nat.lt_of_le_of_lt short (by decide))
  have second : readBytesCopy (arpaValue sender) (1 + 1) sender.name.strlen = some sender.name.text :=
    readWord_at id [3,UInt8.ofNat sender.name.strlen] sender.name.text (be16 awdlDnsShortLocal) rfl
  simp only [awdlHandleArpaTlv,readIntString,first,checkedRead_some,length,if_neg (Nat.not_lt.mpr short),second]

-- The three encodings that have a length.
def Supported (enc : AwdlChanEncoding) : Prop := enc = .simple ∨ enc = .legacy ∨ enc = .opclass

theorem supported_round_trip (supported : Supported enc) : AwdlChanEncoding.ofByte enc.toByte = enc ∧
    awdlChanEncodingSize enc = awdlChanEncodingLength enc ∧ 0 < awdlChanEncodingLength enc := by
  rcases supported with rfl | rfl | rfl <;> decide

def chanBytes (enc : AwdlChanEncoding) (chan : AwdlChan) : List UInt8 :=
  [chan.val0,chan.val1].take (awdlChanEncodingLength enc)

theorem chanBytes_length (enc : AwdlChanEncoding) (chan : AwdlChan) :
    (chanBytes enc chan).length = awdlChanEncodingLength enc := by cases enc <;> rfl

-- The bytes that are sent are those that the encoding reads the number from.
theorem chanNum_overwrite (supported : Supported enc) (mem chan : AwdlChan) :
    awdlChanNum (mem.overwrite (chanBytes enc chan)) enc = awdlChanNum chan enc := by
  rcases supported with rfl | rfl | rfl <;> rfl

theorem slot_read (sender : AwdlState) (mem : AwdlChan) (i : Fin awdlChanseqLength) :
    readChan (chanseqValue sender) (awdlChanEncodingLength sender.channel.enc) mem i =
      some (mem.overwrite (chanBytes sender.channel.enc (sender.channel.sequence i))) := by
  obtain ⟨header,six,laid⟩ : ∃ header : List UInt8, header.length = 6 ∧ chanseqValue sender =
      header ++ ((List.ofFn sender.channel.sequence).flatMap (chanBytes sender.channel.enc) ++ [0,0,0]) :=
    ⟨_,rfl,List.append_assoc _ _ _⟩
  have inside : 6 + i * awdlChanEncodingLength sender.channel.enc + awdlChanEncodingLength sender.channel.enc ≤
      (chanseqValue sender).length := by
    have rows : (i + 1) * awdlChanEncodingLength sender.channel.enc ≤
        awdlChanseqLength * awdlChanEncodingLength sender.channel.enc := Nat.mul_le_mul_right _ i.isLt
    rw [Nat.add_mul] at rows
    rw [chanseqValue,List.length_append,chanseq_length]
    omega
  have found := slice_flatMap (chanBytes sender.channel.enc) _ (chanBytes_length _) (List.ofFn sender.channel.sequence)
    [0,0,0] i (by simp)
  rw [readChan,readBytesCopy,readWord_long id inside,laid,← six,slice_skip,found]
  simp

def sentChannels (mem : Fin awdlChanseqLength → AwdlChan) (sender : AwdlState) : Fin awdlChanseqLength → AwdlChan :=
  fun i => (mem i).overwrite (chanBytes sender.channel.enc (sender.channel.sequence i))

theorem chanseq_handled (mem : Fin awdlChanseqLength → AwdlChan) (src : AwdlPeer) (sender state : AwdlState)
    (supported : Supported sender.channel.enc) (mode : state.sync.presenceMode = 4) :
    awdlHandleChanseqTlv mem src (chanseqValue sender) state = (.ok,{src with sequence := sentChannels mem sender}) := by
  obtain ⟨named,size,positive⟩ := supported_round_trip supported
  have count : readU8 (chanseqValue sender) 0 = some 15 := rfl
  have encoding : readU8 (chanseqValue sender) 1 = some sender.channel.enc.toByte := rfl
  have duplicates : readU8 (chanseqValue sender) 2 = some 0 := rfl
  have steps : readU8 (chanseqValue sender) 3 = some 3 := rfl
  have fill : readLe16 (chanseqValue sender) 4 = some 0xffff :=
    readLe16_at [15,sender.channel.enc.toByte,0,3] 4 rfl 0xffff _
  have slots : readChans (chanseqValue sender) (awdlChanEncodingLength sender.channel.enc) mem =
      some (sentChannels mem sender) := by
    simp only [readChans,slot_read,Option.isSome_some,implies_true,if_true,Option.getD_some]
    rfl
  have known : ¬ awdlChanEncodingSize sender.channel.enc < 1 := by omega
  simp only [awdlHandleChanseqTlv,count,encoding,duplicates,steps,fill,checkedRead_some,named,known,if_false,mode]
  rw [if_neg (by decide),if_neg (by decide),if_neg (by decide),if_neg (by decide),size,Int.toNat_natCast,slots]
  simp only [checkedRead_some]
  split
  · rfl
  · rename_i same
    rw [← not_not.mp same]

end Handling

-- The same at the dispatcher, at whatever time the frame arrives.
section Receiving
variable (tsft : UInt64)

theorem sync_received (src : AwdlPeer) (sent : UInt64) (sender state : AwdlState) :
    ∃ result changed, (∀ mem, awdlHandleTlv mem src awdlSynchronizationParametersTlv (syncValue sent sender) state tsft =
      (result,src,changed)) ∧ ¬ result.code < 0 ∧ changed.sync.presenceMode = state.sync.presenceMode :=
  ⟨_,_,fun _ => rfl,sync_accepted src sent sender state tsft,sync_mode src _ state tsft⟩

theorem election_received (src : AwdlPeer) (sender state : AwdlState) :
    ∃ after, ∀ mem, awdlHandleTlv mem src awdlElectionParametersTlv (electionValue sender) state tsft =
      (.ok,after,state) := by
  refine ⟨(awdlHandleElectionParamsTlv src (electionValue sender)).2,fun mem => ?_⟩
  rw [← election_accepted src sender]
  rfl

theorem chanseq_received (mem : Fin awdlChanseqLength → AwdlChan) (src : AwdlPeer) (sender state : AwdlState)
    (supported : Supported sender.channel.enc) (mode : state.sync.presenceMode = 4) :
    awdlHandleTlv mem src awdlChanSeqTlv (chanseqValue sender) state tsft =
      (.ok,{src with sequence := sentChannels mem sender},state) :=
  congrArg (fun (run : RxResult × AwdlPeer) => (run.1,run.2,state)) (chanseq_handled mem src sender state supported mode)

theorem electionV2_received (mem : Fin awdlChanseqLength → AwdlChan) (src : AwdlPeer) (sender state : AwdlState) :
    awdlHandleTlv mem src awdlElectionParametersV2Tlv (electionV2Value sender) state tsft =
      (.ok,learnElection sender src,state) :=
  congrArg (fun (run : RxResult × AwdlPeer) => (run.1,run.2,state)) (electionV2_handled src sender)

theorem arpa_received (mem : Fin awdlChanseqLength → AwdlChan) (src : AwdlPeer) (sender state : AwdlState)
    (short : sender.name.strlen ≤ hostNameLengthMax) :
    awdlHandleTlv mem src awdlArpaTlv (arpaValue sender) state tsft =
      (.ok,{src with name := src.name.overwrite (sender.name.text ++ [0])},state) :=
  congrArg (fun (run : RxResult × AwdlPeer) => (run.1,run.2,state)) (arpa_handled src sender short)

theorem dataPath_received (mem : Fin awdlChanseqLength → AwdlChan) (src : AwdlPeer) (sender state : AwdlState) :
    awdlHandleTlv mem src awdlDataPathStateTlv (dataPathValue sender) state tsft =
      (.ok,{src with countryCode := src.countryCode.overwrite [0x58,0x30,0]},state) :=
  congrArg (fun (run : RxResult × AwdlPeer) => (run.1,run.2,state)) (dataPath_handled src sender)

theorem version_received (mem : Fin awdlChanseqLength → AwdlChan) (src : AwdlPeer) (sender state : AwdlState) :
    awdlHandleTlv mem src awdlVersionTlv (versionValue sender) state tsft =
      (.ok,{src with version := sender.version,devclass := sender.devClass},state) :=
  congrArg (fun (run : RxResult × AwdlPeer) => (run.1,run.2,state)) (version_handled src sender)

theorem ignored (type : UInt8) (unknown : type = awdlServiceParametersTlv ∨ type = awdlEnhancedDataRateCapabilitiesTlv)
    (mem : Fin awdlChanseqLength → AwdlChan) (src : AwdlPeer) (val : Buf) (state : AwdlState) :
    awdlHandleTlv mem src type val state tsft = (.ignore,src,state) := by
  rcases unknown with rfl | rfl <;> rfl

end Receiving
end EspOwl.ActionTlvs
