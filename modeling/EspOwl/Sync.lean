import Mathlib

namespace EspOwl

structure AwdlSyncState where
  awCounter : UInt16
  lastUpdate : UInt64
  awPeriod : UInt16
  presenceMode : UInt8
  measErr : UInt64
  measTotal : UInt64
deriving DecidableEq, Repr, Inhabited

-- unsigned long has 32 bits on the target, so a microsecond count of 64 bits is
-- cut before it is converted.
def ieee80211TuToUsec (tu : UInt32) : UInt32 := 1024 * tu
def ieee80211UsecToTu (usec : UInt32) : UInt32 := usec / 1024

def awdlSyncStateInit (now : UInt64) : AwdlSyncState where
  lastUpdate := now
  awCounter := 0
  awPeriod := 16
  presenceMode := 4
  measErr := 0
  measTotal := 0

-- presence_mode * aw_period, an int that fits.
def eawPeriod (state : AwdlSyncState) : UInt64 := state.presenceMode.toUInt64 * state.awPeriod.toUInt64

def timeSince (nowUsec : UInt64) (state : AwdlSyncState) : UInt64 :=
  (ieee80211UsecToTu (nowUsec - state.lastUpdate).toUInt32).toUInt64

def awdlSyncNextAwTu (nowUsec : UInt64) (state : AwdlSyncState) : UInt16 :=
  (eawPeriod state - timeSince nowUsec state % eawPeriod state).toUInt16

def awdlSyncNextAwUs (nowUsec : UInt64) (state : AwdlSyncState) : UInt64 :=
  let eawPeriodUs := (ieee80211TuToUsec (eawPeriod state).toUInt32).toUInt64
  eawPeriodUs - (nowUsec - state.lastUpdate) % eawPeriodUs

def awdlSyncCurrentAw (nowUsec : UInt64) (state : AwdlSyncState) : UInt16 :=
  (state.awCounter.toUInt64 +
    timeSince nowUsec state % eawPeriod state / state.awPeriod.toUInt64 +
    state.presenceMode.toUInt64 * (timeSince nowUsec state / eawPeriod state)).toUInt16

def awdlSyncCurrentEaw (nowUsec : UInt64) (state : AwdlSyncState) : UInt16 :=
  awdlSyncCurrentAw nowUsec state / state.presenceMode.toUInt16

-- int arithmetic on promoted operands.
def awdlSyncErrorTu (nowUsec : UInt64) (timeToNextAw awCounter : UInt16) (state : AwdlSyncState) : Int :=
  ((awCounter / state.presenceMode.toUInt16).toNat - (awdlSyncCurrentEaw nowUsec state).toNat : Int) *
    state.presenceMode.toNat * state.awPeriod.toNat -
      (timeToNextAw.toNat - (awdlSyncNextAwTu nowUsec state).toNat)

def awdlSyncUpdateLast (nowUsec : UInt64) (timeToNextAw awCounter : UInt16) (state : AwdlSyncState) :
    AwdlSyncState :=
  {state with
    lastUpdate := nowUsec - (ieee80211TuToUsec (eawPeriod state - timeToNextAw.toUInt64).toUInt32).toUInt64
    awCounter := awCounter &&& 0xfffc}

end EspOwl
