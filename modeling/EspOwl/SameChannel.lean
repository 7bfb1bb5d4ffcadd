import EspOwl.Schedule
import EspOwl.TlvLoop

namespace EspOwl.SameChannel
open ByteCodec

-- The channel number that a channel sequence TLV gives for a slot, in its own encoding.
def numberIn (val : Buf) (i : Fin awdlChanseqLength) : AwdlChanEncoding → Option UInt8
  | .simple => readU8 val (6 + i)
  | .legacy => readU8 val (6 + i * 2 + 1)
  | .opclass => readU8 val (6 + i * 2)
  | .other _ => none

def advertised (val : Buf) (i : Fin awdlChanseqLength) : Option UInt8 :=
  (readU8 val 1).bind fun encoding => numberIn val i (.ofByte encoding)

section Parsing

theorem checkedRead_ok {read : Option α} {before after : σ} {next : α → RxResult × σ}
    (ran : checkedRead read (.tooShort,before) next = (.ok,after)) :
    ∃ value, read = some value ∧ next value = (.ok,after) := by
  cases read with
  | none => cases ran
  | some value => exact ⟨value,rfl,ran⟩

-- A slot has one byte or two, each read where the slot lies.
theorem readChan_one (read : readChan val 1 mem i = some chan) : readU8 val (6 + i) = some chan.val0 := by
  rw [readChan,Nat.mul_one] at read
  obtain ⟨bytes,found,rfl⟩ := Option.map_eq_some_iff.mp read
  have long : 6 + i + 1 ≤ val.length := readWord_inside found
  obtain ⟨b,only⟩ := List.length_eq_one_iff.mp (slice_length long)
  rw [readBytesCopy,readWord_long id long,Option.some.injEq,only] at found
  rw [readU8,readWord_long _ long,only,← found]
  rfl

theorem readChan_two (read : readChan val 2 mem i = some chan) :
    readU8 val (6 + i * 2) = some chan.val0 ∧ readU8 val (6 + i * 2 + 1) = some chan.val1 := by
  rw [readChan] at read
  obtain ⟨bytes,found,rfl⟩ := Option.map_eq_some_iff.mp read
  have long : 6 + i * 2 + 2 ≤ val.length := readWord_inside found
  obtain ⟨a,b,pair⟩ := List.length_eq_two.mp (slice_length long)
  have front : slice (6 + i * 2) 1 val = [a] := by
    have taken := congrArg (List.take 1) pair
    rwa [slice,List.take_take] at taken
  have back : slice (6 + i * 2 + 1) 1 val = [b] := by
    have dropped := congrArg (List.drop 1) pair
    rwa [slice,List.drop_take,List.drop_drop] at dropped
  rw [readBytesCopy,readWord_long id long,Option.some.injEq,pair] at found
  rw [readU8,readU8,readWord_long _ (by omega),readWord_long _ (by omega),front,back,← found]
  exact ⟨rfl,rfl⟩

theorem readChans_each (read : readChans val size mem = some list) (i : Fin awdlChanseqLength) :
    readChan val size (mem i) i = some (list i) := by
  unfold readChans at read
  split at read
  · rename_i all
    cases read
    obtain ⟨chan,found⟩ := Option.isSome_iff_exists.mp (all i)
    change readChan val size (mem i) i = some ((readChan val size (mem i) i).getD (mem i))
    rw [found]
    rfl
  · cases read

theorem slot_number {enc : AwdlChanEncoding} {i : Fin awdlChanseqLength} (known : 1 ≤ awdlChanEncodingSize enc)
    (read : readChan val (awdlChanEncodingSize enc).toNat mem i = some chan) :
    numberIn val i enc = some (awdlChanNum chan enc) := by
  cases enc with
  | simple => exact readChan_one read
  | legacy => exact (readChan_two read).2
  | opclass => exact (readChan_two read).1
  | other code => exact absurd known (by decide : ¬ (1 : Int) ≤ -1)

-- What the parser stores, read in the encoding of the TLV.
theorem chanseq_stored (stored : awdlHandleChanseqTlv mem src val state = (.ok,peer)) :
    ∃ encoding, readU8 val 1 = some encoding ∧ 1 ≤ awdlChanEncodingSize (.ofByte encoding) ∧
      ∀ i, advertised val i = some (awdlChanNum (peer.sequence i) (.ofByte encoding)) := by
  unfold awdlHandleChanseqTlv at stored
  obtain ⟨count,_,stored⟩ := checkedRead_ok stored
  split at stored
  · cases stored
  · obtain ⟨duplicateCount,_,stored⟩ := checkedRead_ok stored
    split at stored
    · cases stored
    · obtain ⟨stepCount,_,stored⟩ := checkedRead_ok stored
      split at stored
      · cases stored
      · obtain ⟨fillChannel,_,stored⟩ := checkedRead_ok stored
        split at stored
        · cases stored
        · obtain ⟨encoding,read,stored⟩ := checkedRead_ok stored
          dsimp only at stored
          split at stored
          · cases stored
          · rename_i known
            obtain ⟨list,chans,stored⟩ := checkedRead_ok stored
            have kept : peer.sequence = list := by
              split at stored
              · cases stored
                rfl
              · rename_i same
                cases stored
                exact not_not.mp same
            refine ⟨encoding,read,Int.not_lt.mp known,fun i => ?_⟩
            rw [advertised,read,kept]
            exact slot_number (Int.not_lt.mp known) (readChans_each chans i)

end Parsing

-- Which of the two bytes of a slot an encoding keeps the channel number in.
def numberByte : AwdlChanEncoding → Bool
  | .legacy => true
  | _ => false

-- Own and peer encodings look at the same byte, or it makes no difference which.
def Comparable (own peer : AwdlChanEncoding) (number : UInt8) (chan : AwdlChan) : Prop :=
  number = 0 ∨ numberByte own = numberByte peer ∨ (chan.val0 = number ↔ chan.val1 = number)

theorem chanNum_byte {enc : AwdlChanEncoding} (known : 1 ≤ awdlChanEncodingSize enc) (chan : AwdlChan) :
    awdlChanNum chan enc = if numberByte enc then chan.val1 else chan.val0 := by
  cases enc with
  | other code => exact absurd known (by decide : ¬ (1 : Int) ≤ -1)
  | _ => rfl

theorem chanNum_unknown {enc : AwdlChanEncoding} (unknown : ¬ 1 ≤ awdlChanEncodingSize enc) (chan : AwdlChan) :
    awdlChanNum chan enc = 0 := by
  cases enc with
  | other code => rfl
  | _ => exact absurd (by decide) unknown

theorem chanNum_supported {enc : AwdlChanEncoding} {chan : AwdlChan} (used : awdlChanNum chan enc ≠ 0) :
    1 ≤ awdlChanEncodingSize enc := by
  by_contra unknown
  exact used (chanNum_unknown unknown _)

theorem sameChannel_stored {state : AwdlState} {now : UInt64} {peer : AwdlPeer} :
    awdlSameChannelAsPeer state now peer = true ↔
      awdlChanNum (state.channel.sequence (eawSlot now state.sync)) state.channel.enc ≠ 0 ∧
        awdlChanNum (state.channel.sequence (eawSlot now state.sync)) state.channel.enc =
          awdlChanNum (peer.sequence (eawSlot (now + peer.syncOffset) state.sync)) state.channel.enc := by
  simp [awdlSameChannelAsPeer]

-- The test compares the own number with the byte the own encoding looks at.
theorem same_byte_iff (ownByte peerByte : Bool) (number : UInt8) (chan : AwdlChan) :
    ((number = if ownByte then chan.val1 else chan.val0) ↔ (if peerByte then chan.val1 else chan.val0) = number) ↔
      ownByte = peerByte ∨ (chan.val0 = number ↔ chan.val1 = number) := by
  cases ownByte <;> cases peerByte <;> simp [eq_comm,iff_comm]

theorem same_channel_iff (stored : awdlHandleChanseqTlv mem src val parsed = (.ok,peer)) (state : AwdlState)
    (now : UInt64) :
    let own := awdlChanNum (state.channel.sequence (eawSlot now state.sync)) state.channel.enc
    let slot := eawSlot (now + peer.syncOffset) state.sync
    (awdlSameChannelAsPeer state now peer = true ↔ own ≠ 0 ∧ advertised val slot = some own) ↔
      ∀ encoding, readU8 val 1 = some encoding →
        Comparable state.channel.enc (.ofByte encoding) own (peer.sequence slot) := by
  intro own slot
  obtain ⟨encoding,read,known,each⟩ := chanseq_stored stored
  have test : awdlSameChannelAsPeer state now peer = true ↔
      own ≠ 0 ∧ own = awdlChanNum (peer.sequence slot) state.channel.enc := sameChannel_stored
  simp only [read,Option.some.injEq,forall_eq',Comparable]
  by_cases unused : own = 0
  · simp [test,unused]
  · have supported := chanNum_supported unused
    rw [test,each slot,chanNum_byte supported,chanNum_byte known,or_iff_right unused,
      ← same_byte_iff]
    simp [unused]

-- A peer and the node itself on channel 6 in all slots.
def legacySix : Buf := [15,1,0,3,0xff,0xff] ++ (List.replicate awdlChanseqLength [0,6]).flatten

def onSix : AwdlState :=
  {(default : AwdlState) with
    sync := awdlSyncStateInit 0
    channel := ⟨.opclass,awdlChanseqInitStatic chanOpclass6,chanOpclass6,chanOpclass6⟩}

def heardSix : AwdlPeer := (awdlHandleChanseqTlv default (awdlPeerNew default default) legacySix onSix).2

theorem heardSix_stored : awdlHandleChanseqTlv default (awdlPeerNew default default) legacySix onSix = (.ok,heardSix) :=
  Prod.ext (by decide) rfl

theorem same_channel_iff_at_six :
    (awdlSameChannelAsPeer onSix 0 heardSix = true ↔ (6 : UInt8) ≠ 0 ∧ advertised legacySix (eawSlot 0 onSix.sync) = some 6) ↔
      ∀ encoding, readU8 legacySix 1 = some encoding →
        Comparable .opclass (.ofByte encoding) 6 (heardSix.sequence (eawSlot 0 onSix.sync)) :=
  same_channel_iff heardSix_stored onSix 0

theorem same_channel_missed : ¬ ∀ (mem : Fin awdlChanseqLength → AwdlChan) (src peer : AwdlPeer) (val : Buf)
    (parsed state : AwdlState) (now : UInt64), awdlHandleChanseqTlv mem src val parsed = (.ok,peer) →
      (awdlSameChannelAsPeer state now peer = true ↔
        awdlChanNum (state.channel.sequence (eawSlot now state.sync)) state.channel.enc ≠ 0 ∧
          advertised val (eawSlot (now + peer.syncOffset) state.sync) =
            some (awdlChanNum (state.channel.sequence (eawSlot now state.sync)) state.channel.enc)) := by
  intro always
  have same := (always _ _ _ _ _ onSix 0 heardSix_stored).mpr ⟨by decide,by decide⟩
  exact absurd same (by decide)

end EspOwl.SameChannel
