import EspOwl.State

namespace EspOwl

def awdlUnicastGuardTu : UInt32 := 3
def awdlMulticastGuardTu : UInt32 := 4

-- The doubles of schedule.c are exact fractions here.
def usecToSec (usec : UInt64) : ℚ := usec.toNat / 1000000

def eawSlot (usec : UInt64) (sync : AwdlSyncState) : Fin awdlChanseqLength :=
  ⟨(awdlSyncCurrentEaw usec sync).toNat % awdlChanseqLength,Nat.mod_lt _ (by decide)⟩

def awdlSameChannelAsPeer (state : AwdlState) (now : UInt64) (peer : AwdlPeer) : Bool :=
  let ownSlot := eawSlot now state.sync
  let peerSlot := eawSlot (now + peer.syncOffset) state.sync
  let ownChan := awdlChanNum (state.channel.sequence ownSlot) state.channel.enc
  let peerChan := awdlChanNum (peer.sequence peerSlot) state.channel.enc
  ownChan != 0 && ownChan == peerChan

def awdlIsMulticastEaw (state : AwdlState) (now : UInt64) : Bool :=
  let slot := (eawSlot now state.sync).val
  slot == 0 || slot == 10

def awdlCanSendIn (state : AwdlState) (now : UInt64) (guardTu : UInt32) : ℚ :=
  let nextAw := awdlSyncNextAwUs now state.sync
  let guardUs := (ieee80211TuToUsec guardTu).toUInt64
  let eaw := (ieee80211TuToUsec 64).toUInt64
  if nextAw < guardUs then -usecToSec (guardUs - nextAw)
  else if eaw - nextAw < guardUs then usecToSec (guardUs - (eaw - nextAw))
  else 0

def awdlCanSendUnicastIn (state : AwdlState) (peer : AwdlPeer) (now : UInt64) (guardTu : UInt32) : ℚ :=
  let nextAw := awdlSyncNextAwUs now state.sync
  let guardUs := (ieee80211TuToUsec guardTu).toUInt64
  let eaw := (ieee80211TuToUsec 64).toUInt64
  if !awdlSameChannelAsPeer state now peer then usecToSec nextAw
  else if nextAw < guardUs then
    if awdlSameChannelAsPeer state (now + eaw) peer then 0 else -usecToSec (guardUs - nextAw)
  else if eaw - nextAw < guardUs then
    if awdlSameChannelAsPeer state (now - eaw) peer then 0 else usecToSec (guardUs - (eaw - nextAw))
  else 0

end EspOwl
