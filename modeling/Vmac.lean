import Vmac.Core.Window
import Vmac.Core.Dack
import Vmac.Theory.Ring
import Vmac.Core.Retransmit
import Vmac.Theory.Chain
import Vmac.Core.Tables
import Vmac.Core.Rx
import Vmac.Core.Clean
import Vmac.Core.Tx
import Vmac.Core.WindowExact
import Vmac.Core.Scan
import Vmac.Core.Resend
import Vmac.Core.Repair
import Vmac.Core.Isolation
import Vmac.Core.Buffer
import Vmac.Core.Ownership
import Vmac.Core.DackSlot
import Vmac.Theory.Resequence
import Vmac.Theory.Serial
import Vmac.Recv.InOrder
import Vmac.Core.Link
import Vmac.Userspace.Library
import Vmac.Recv.Monitor
import Vmac.Userspace.EndToEnd
import Vmac.Recv.Pool
import Vmac.Recv.Conserve
import Vmac.Recv.PoolRun
import Vmac.Security.Aes
import Vmac.Security.Ccmp
import Vmac.Security.Standard
import Vmac.Transmit.Attrib
import Vmac.Transmit.Coalesce
import Vmac.Theory.Michael
import Vmac.Transmit.Mic
import Vmac.Theory.Counter
import Vmac.Transmit.PacketNumber
import Vmac.Transmit.Walkers
import Vmac.Recv.Decap
import Vmac.Transmit.Ethernet
import Vmac.Theory.Service
import Vmac.Transmit.Queues
import Vmac.Transmit.Aggregate
import Vmac.Transmit.QueueSound
import Vmac.Transmit.QueueRun
import Vmac.Theory.Bitmap
import Vmac.Core.AtMostOnce
import Vmac.Core.Pacing
import Vmac.Theory.Run
import Vmac.Theory.Marks
import Vmac.Ap.Protection
import Vmac.Efuse.Stream
import Vmac.Efuse.Readers
import Vmac.Efuse.Write
import Vmac.Efuse.Lossy
import Vmac.Security.KeyCam
import Vmac.Core.Runs
import Vmac.Core.Feedback
import Vmac.Core.Indices
import Vmac.Core.Gap
import Vmac.Recv.Parsing
import Vmac.Core.Unset
import Vmac.Theory.Stream
import Vmac.Theory.Crc
import Vmac.Security.Wep
import Vmac.Security.Tkip
import Vmac.Security.Decryptor
import Vmac.Security.Extent
import Vmac.Theory.Aes
import Vmac.Security.Rijndael
import Vmac.Theory.Cmac
import Vmac.Security.Cmac
import Vmac.Recv.GroupReplay
import Vmac.Ap.StaTable
import Vmac.Ap.Association
import Vmac.Ap.Bookkeeping
import Vmac.Ap.SharedKey
import Vmac.Recv.RadiotapFill
import Vmac.Theory.Elements
import Vmac.Ap.Beacon
import Vmac.Ap.BeaconEdits
import Vmac.Recv.ReorderTimer
import Vmac.Transmit.Dump
import Vmac.Transmit.MgntBuffer
import Vmac.Transmit.Multicast
import Vmac.Recv.Amsdu
import Vmac.Recv.Defrag
import Vmac.Recv.DefragRun
import Vmac.Recv.NonQos
import Vmac.Theory.Framing
import Vmac.Theory.Walk
import Vmac.Ie.Memory
import Vmac.Ie.Parse
import Vmac.Ie.Search
import Vmac.Ie.Attr
import Vmac.Ie.Merge
import Vmac.Ie.Remove
import Vmac.Ie.DelAttr
import Vmac.Bridge.NeighbourDiscovery
import Vmac.Bridge.Checksum
import Vmac.Bridge.Pppoe
import Vmac.Bridge.ClientTx
import Vmac.Theory.Hash
import Vmac.Bridge.Database
import Vmac.Bridge.Delivery
import Vmac.Theory.Action
import Vmac.Mlme.Handlers
import Vmac.Mlme.Bounds
import Vmac.Mlme.ElementBounds
import Vmac.Mlme.Received
import Vmac.Mlme.Scanned
import Vmac.Mlme.ScannedRun
import Vmac.Efuse.FailedWrite
import Vmac.Bridge.SingleClient
import Vmac.Userspace.Network
import Vmac.Userspace.Agreement
import Vmac.Transmit.PowerSave
import Vmac.Transmit.PowerSaveRun
import Vmac.Transmit.ServicePeriod
