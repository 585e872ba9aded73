import XSKNet.Runs
import XSKNet.SharedRing
import XSKNet.OnesComplement
import XSKNet.CStrings
import XSKNet.ShellWords
import XSKNet.Multimap
import XSKNet.Packet
import XSKNet.KernelPrograms
import XSKNet.PacketBounds
import XSKNet.EchoReply
import XSKNet.XskSocket
import XSKNet.ReceiveLoop
import XSKNet.FrameConservation
import XSKNet.Turns
import XSKNet.FillRing
import XSKNet.VethList
import XSKNet.Interfaces
import XSKNet.PortCommands
import XSKNet.PortPairs
import XSKNet.Bookkeeping
import XSKNet.RedirectTarget
import XSKNet.CommandSocket
import XSKNet.PortOwnership
import XSKNet.RejectedCommands
import XSKNet.CommandStream
import XSKNet.PhyIfname
import XSKNet.Starvation
import XSKNet.Ledger
import XSKNet.Batching
import XSKNet.Calls
import XSKNet.PortNames
import XSKNet.DeviceOption
import XSKNet.PacketClass
import XSKNet.SavedSuccessor
import XSKNet.Shutdown
import XSKNet.StatsPolling
import XSKNet.ChecksumUpdate
import XSKNet.ReplyEffect
import XSKNet.InPlaceStrtok
import XSKNet.ClientBuffer
import XSKNet.RingHistory
import XSKNet.FillSubmission
import XSKNet.ReserveContract
import XSKNet.StockRetry
import XSKNet.MapDescriptors
import XSKNet.NamingRule
import XSKNet.IntrusiveList
import XSKNet.Uthash
import XSKNet.UthashIntegrity
import XSKNet.UthashTable
import XSKNet.VethHash
import XSKNet.Routing
import XSKNet.DataPath
import XSKNet.WireToWire
import XSKNet.DaemonLife
import XSKNet.Sessions
import XSKNet.AcceptLoop
import XSKNet.Latency
import XSKNet.EchoStorm
import XSKNet.Slots
import XSKNet.DescriptorLeak
import XSKNet.StartupRace
import XSKNet.ClientLife
import XSKNet.ClientPorts
import XSKNet.SocketRouting
