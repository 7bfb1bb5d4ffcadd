import EspOwl.Ethernet

namespace EspOwl

def awdlElectionTreeMaxHeight : UInt32 := 10
def awdlElectionMetricInit : UInt32 := 60
def awdlElectionCounterInit : UInt32 := 0

structure AwdlElectionState where
  masterAddr : EtherAddr
  syncAddr : EtherAddr
  selfAddr : EtherAddr
  height : UInt32
  masterMetric : UInt32
  selfMetric : UInt32
  masterCounter : UInt32
  selfCounter : UInt32
deriving DecidableEq, Repr, Inhabited

def compare (a b : UInt32) : Int := if a < b then -1 else if a > b then 1 else 0

def awdlElectionIsSyncMaster (state : AwdlElectionState) (addr : EtherAddr) : Bool :=
  compareEtherAddr state.syncAddr addr = 0

def awdlElectionResetMetric (state : AwdlElectionState) : AwdlElectionState :=
  {state with selfCounter := awdlElectionCounterInit,selfMetric := awdlElectionMetricInit}

def awdlElectionResetSelf (state : AwdlElectionState) : AwdlElectionState :=
  {state with
    height := 0
    masterAddr := state.selfAddr
    syncAddr := state.selfAddr
    masterMetric := state.selfMetric
    masterCounter := state.selfCounter}

-- Every field is assigned: the three addresses, then the own metric and counter,
-- then the fields that follow from them.
def awdlElectionStateInit (self : EtherAddr) : AwdlElectionState :=
  awdlElectionResetSelf (awdlElectionResetMetric ⟨self,self,self,0,0,0,0,0⟩)

def awdlElectionCompareMaster (a b : AwdlElectionState) : Int :=
  let result := compare a.masterCounter b.masterCounter
  if result = 0 then compare a.masterMetric b.masterMetric else result

end EspOwl
