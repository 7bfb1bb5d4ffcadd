import EspOwl.Peers
import EspOwl.Champions

namespace EspOwl
open Hashmap

-- One round of the loop. `none` stands for the pointer to the node's own state,
-- which awdl_election_reset_self has just reset to `own`.
def awdlElectionConsider (own : AwdlElectionState) (peer : AwdlPeer)
    (masterState : Option AwdlElectionState) : Option AwdlElectionState :=
  let peerState := peer.election
  let current := masterState.getD own
  if !peer.isValid then masterState
  else if peerState.height + 1 > awdlElectionTreeMaxHeight then masterState
  else if awdlElectionIsSyncMaster peerState own.selfAddr then masterState
  else
    let cmpMetric := awdlElectionCompareMaster peerState current
    if cmpMetric < 0 then masterState
    else if cmpMetric = 0 then
      if peerState.height > current.height then masterState
      else if peerState.height = current.height then
        if compareEtherAddr peerState.selfAddr current.selfAddr ≤ 0 then masterState
        else some peerState
      else some peerState
    else some peerState

-- The master_state that the loop ends with.
def awdlElectionMaster (state : AwdlElectionState) (peers : AwdlPeers) : Option AwdlElectionState :=
  (awdlPeersIterate (fun _ peers peer masterState =>
    (peers,awdlElectionConsider (awdlElectionResetSelf state) peer masterState)) peers none).2

def awdlElectionAdopt (own : AwdlElectionState) (masterState : AwdlElectionState) : AwdlElectionState :=
  {own with
    masterAddr := masterState.masterAddr
    syncAddr := masterState.selfAddr
    masterMetric := masterState.masterMetric
    masterCounter := masterState.masterCounter
    height := masterState.height + 1}

def awdlElectionRun (state : AwdlElectionState) (peers : AwdlPeers) : AwdlElectionState :=
  match awdlElectionMaster state peers with
  | none => awdlElectionResetSelf state
  | some masterState => awdlElectionAdopt (awdlElectionResetSelf state) masterState

end EspOwl
