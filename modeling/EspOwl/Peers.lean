import EspOwl.ElectionState
import EspOwl.Channel
import EspOwl.CharArray
import EspOwl.HashmapInvariant

namespace EspOwl
open Hashmap

def hostNameLengthMax : Nat := 64
def awdlPeersMax : Nat := 64

inductive PeersStatus where
  | update
  | ok
  | missing
  | internal
deriving DecidableEq, Repr

def PeersStatus.code : PeersStatus → Int
  | .update => 1
  | .ok => 0
  | .missing => -1
  | .internal => -2

structure AwdlPeer where
  addr : EtherAddr
  lastUpdate : UInt64
  election : AwdlElectionState
  sequence : Fin awdlChanseqLength → AwdlChan
  syncOffset : UInt64
  name : CharArray (hostNameLengthMax + 1)
  countryCode : CharArray 3
  infraAddr : EtherAddr
  version : UInt8
  devclass : UInt8
  supportsV2 : Bool
  sentMif : Bool
  isValid : Bool
deriving DecidableEq, Inhabited

-- Key and value of a table entry are the peer's own address and record. The C
-- table holds pointers; here it holds the records, and a write through a pointer
-- is a write back into the slot of that address.
abbrev AwdlPeers := HashmapMap EtherAddr AwdlPeer

structure AwdlPeerState where
  etherAddrCount : UInt8
  peers : AwdlPeers
  etherAddrList : Fin awdlPeersMax → EtherAddr
  timeout : UInt64
  cleanInterval : UInt64
deriving DecidableEq, Inhabited

def peersDefaultTimeout : UInt64 := 2000000
def peersDefaultCleanInterval : UInt64 := 1000000

def awdlPeersInit : AwdlPeers := hashmapNew

-- ether_addr_list is not initialised.
def awdlPeerStateInit (mem : AwdlPeerState) : AwdlPeerState :=
  {mem with
    peers := awdlPeersInit
    etherAddrCount := 0
    timeout := peersDefaultTimeout
    cleanInterval := peersDefaultCleanInterval}

def awdlPeersLength (peers : AwdlPeers) : Nat := hashmapLength peers

def awdlPeerIsValid (peer : AwdlPeer) : Bool := peer.sentMif && peer.devclass != 0 && peer.version != 0

-- `mem` is what malloc returned; infra_addr and the tail of name keep its bytes.
def awdlPeerNew (addr : EtherAddr) (mem : AwdlPeer) : AwdlPeer :=
  {mem with
    addr := addr
    lastUpdate := 0
    election := awdlElectionStateInit addr
    sequence := awdlChanseqInitStatic chanNull
    syncOffset := 0
    devclass := 0
    version := 0
    supportsV2 := false
    sentMif := false
    name := mem.name.overwrite [0]
    countryCode := mem.countryCode.overwrite [0x4E,0x41,0]
    isValid := false}

-- Result of awdl_peer_add; `called` is the peer handed to cb, when it turned valid.
structure AddRun where
  status : PeersStatus
  peers : AwdlPeers
  called : Option AwdlPeer
  callocs : List Bool

variable (hash : EtherAddr → UInt64)

def awdlPeerGet (peers : AwdlPeers) (addr : EtherAddr) : PeersStatus × Option AwdlPeer :=
  match hashmapGet hash peers addr false with
  | (.missing,peer,_) => (.missing,peer)
  | (_,peer,_) => (.ok,peer)

-- Writes through the pointer that awdl_peer_get returned for this address.
def awdlPeerStore (peers : AwdlPeers) (addr : EtherAddr) (peer : AwdlPeer) : AwdlPeers :=
  match hashmapFind hash peers addr with
  | none => peers
  | some index => peers.assign index addr peer

-- The part of awdl_peer_add behind its label `out`.
def awdlPeerAddOut (status : PeersStatus) (peers : AwdlPeers) (addr : EtherAddr) (peer : AwdlPeer)
    (callocs : List Bool) : AddRun :=
  if !peer.isValid && awdlPeerIsValid peer then
    let turned := {peer with isValid := true}
    ⟨status,awdlPeerStore hash peers addr turned,some turned,callocs⟩
  else ⟨status,peers,none,callocs⟩

def awdlPeerAdd (fuel : Nat) (callocs : List Bool) (mem : AwdlPeer) (peers : AwdlPeers)
    (addr : EtherAddr) (now : UInt64) : Option AddRun :=
  match hashmapGet hash peers addr false with
  | (.ok,some found,_) =>
    let peer := {found with lastUpdate := now}
    some (awdlPeerAddOut hash .update (awdlPeerStore hash peers addr peer) addr peer callocs)
  | _ =>
    let peer := {awdlPeerNew addr mem with lastUpdate := now}
    match hashmapPut hash fuel peers callocs addr peer with
    | none => none
    | some run =>
      if run.status = .ok then some (awdlPeerAddOut hash .ok run.map addr peer run.callocs)
      else some ⟨.internal,run.map,none,run.callocs⟩

def awdlPeerRemove (peers : AwdlPeers) (addr : EtherAddr) : PeersStatus × AwdlPeers :=
  match hashmapGet hash peers addr true with
  | (.missing,_,_) => (.missing,peers)
  | (_,_,left) => (.ok,left)

def awdlPeersItNext (peers : AwdlPeers) (it : HashmapIt) : PeersStatus × HashmapIt × Option AwdlPeer :=
  match hashmapItNext peers it with
  | (.ok,next,entry) => (.ok,next,entry.map Prod.snd)
  | (_,next,entry) => (.missing,next,entry.map Prod.snd)

def awdlPeersItRemove (peers : AwdlPeers) (it : HashmapIt) : PeersStatus × AwdlPeers :=
  match hashmapItRemove peers it with
  | (.ok,left) => (.ok,left)
  | (_,left) => (.missing,left)

-- while (awdl_peers_it_next(it, &peer) == PEERS_OK) body.
def awdlPeersWalk {σ : Type*} (body : HashmapIt → AwdlPeers → AwdlPeer → σ → AwdlPeers × σ) :
    Nat → HashmapIt → AwdlPeers → σ → AwdlPeers × σ
  | 0,_,peers,s => (peers,s)
  | rounds+1,it,peers,s =>
    match awdlPeersItNext peers it with
    | (.ok,at_peer,some peer) =>
      awdlPeersWalk body rounds at_peer (body at_peer peers peer s).1 (body at_peer peers peer s).2
    | _ => (peers,s)

def awdlPeersIterate {σ : Type*} (body : HashmapIt → AwdlPeers → AwdlPeer → σ → AwdlPeers × σ)
    (peers : AwdlPeers) (s : σ) : AwdlPeers × σ :=
  awdlPeersWalk body (peers.tableSize + 1) hashmapItNew peers s

theorem awdlPeersWalk_hashmap {σ : Type*} (body : HashmapIt → AwdlPeers → AwdlPeer → σ → AwdlPeers × σ)
    (rounds : Nat) (it : HashmapIt) (peers : AwdlPeers) (s : σ) :
    awdlPeersWalk body rounds it peers s =
      hashmapWalk (fun it m entry s => body it m entry.2 s) rounds it peers s := by
  induction rounds generalizing it peers s with
  | zero => rfl
  | succ rounds ih =>
    rw [awdlPeersWalk,hashmapWalk,awdlPeersItNext,hashmapItNext]
    cases SlotArrays.nextUsed (peers.data.drop (it.i + 1).toNat) (it.i + 1).toNat with
    | none => rfl
    | some found => exact ih _ _ _

theorem awdlPeersIterate_hashmap {σ : Type*} (body : HashmapIt → AwdlPeers → AwdlPeer → σ → AwdlPeers × σ)
    (peers : AwdlPeers) (s : σ) :
    awdlPeersIterate body peers s = hashmapIterate (fun it m entry s => body it m entry.2 s) peers s :=
  awdlPeersWalk_hashmap _ _ _ _ _

def awdlPeersRemove (peers : AwdlPeers) (before : UInt64) : AwdlPeers :=
  (hashmapIterate (fun it m entry _ =>
    (if entry.2.lastUpdate < before then (hashmapItRemove m it).2 else m,())) peers ()).1

end EspOwl
