import EspOwl.ByteCodec
import EspOwl.Ethernet
import EspOwl.Histories
import EspOwl.SlotArrays
import EspOwl.PartialMaps
import EspOwl.Hashmap
import EspOwl.HashmapInvariant
import EspOwl.CharArray
import EspOwl.Channel
import EspOwl.ElectionState
import EspOwl.Peers
import EspOwl.PeerMap
import EspOwl.PeerHistory
import EspOwl.Champions
import EspOwl.Election
import EspOwl.ElectionOrder
import EspOwl.ElectionOutcome
import EspOwl.ElectionAgreement
import EspOwl.Wire
import EspOwl.Frame
import EspOwl.Sync
import EspOwl.State
import EspOwl.Crc32
import EspOwl.Tx
import EspOwl.Rx
import EspOwl.DataFrames
import EspOwl.Subframes
import EspOwl.Dispatch
import EspOwl.AmsduCodec
import EspOwl.Delivery
import EspOwl.TlvLoop
import EspOwl.ActionFrames
import EspOwl.SenderRecords
import EspOwl.FrameCheck
import EspOwl.Node
import EspOwl.NodeHistory
import EspOwl.Addressing
import EspOwl.ActionTlvs
import EspOwl.ActionRoundTrip
import EspOwl.SyncTree
import EspOwl.SlotClock
import EspOwl.HandOver
import EspOwl.Consistency
import EspOwl.FrameEffect
import EspOwl.PeerExpiry
import EspOwl.NeighborList
import EspOwl.Console
import EspOwl.ConsoleLines
import EspOwl.Schedule
import EspOwl.CircularBuffer
import EspOwl.Transmit
import EspOwl.TransmitQueues
import EspOwl.Wakeups
import EspOwl.ElectionPrecedence
import EspOwl.SameChannel
import EspOwl.TlvAtomicity
import EspOwl.Classification
import EspOwl.RetryWindow
import EspOwl.DataOutput
import EspOwl.ReceivedPackets
import EspOwl.FailedInsertion
import EspOwl.MapHistory
import EspOwl.PeerStay
import EspOwl.BoundedQueue
import EspOwl.HistoryRing
import EspOwl.RetryBit
import EspOwl.LlcHeader
import EspOwl.SyncError
import EspOwl.TlvBodies
import EspOwl.ConsoleRecall
import EspOwl.ConsoleBounds
import EspOwl.StringEnds
import EspOwl.Sniffer
import EspOwl.StartUp
import EspOwl.WindowClocks
import EspOwl.NeighborRemoval
import EspOwl.HexText
import EspOwl.Opendrop
import EspOwl.Tokens
import EspOwl.CommandLine
import EspOwl.GuardIntervals
import EspOwl.SyncDrift
import EspOwl.RootElection
import EspOwl.Timers
import EspOwl.PacketPath
import EspOwl.FrameChecksums
import EspOwl.SipHash
import EspOwl.Presence
import EspOwl.CellHeaps
import EspOwl.HashmapValues
import EspOwl.PointerMap
import EspOwl.PeerHeap
import EspOwl.TableMemory
import EspOwl.NodeMemory
import EspOwl.Service
import EspOwl.ServiceBounds
import EspOwl.SequenceNumbers
import EspOwl.FrameSizes
import EspOwl.StationRecords
