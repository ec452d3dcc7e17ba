import AutomatonCore.State.Commit
import AutomatonCore.State.Commitment
import AutomatonCore.State.ChildrenWalk
import AutomatonCore.State.PersistentErasure
import AutomatonCore.Network.ReliableStream
import AutomatonCore.Network.Reassembly
import AutomatonCore.Interop.AbiHexNumbers
import AutomatonCore.Interop.AbiSafety
import AutomatonCore.Interop.DecodedJson
import AutomatonCore.Interop.SignedTransaction
import AutomatonCore.Node.Framing
import AutomatonCore.Network.Scheduler
import AutomatonCore.Storage.PersistentVector
import AutomatonCore.Storage.BlobFreeing
import AutomatonCore.Storage.BlobLog
import AutomatonCore.State.PersistentReopening
import AutomatonCore.State.EmptyKey
import AutomatonCore.Node.WireMessages
import AutomatonCore.Smartproto.SeveralSchemas
import AutomatonCore.Smartproto.Booking
import AutomatonCore.Blockchain.LuaNode
import AutomatonCore.Network.HttpStream
import AutomatonCore.Interop.ChunkedDelivery
import AutomatonCore.Network.HandlingTimes
import AutomatonCore.Network.Cancellation
import AutomatonCore.Network.FailedConnect
import AutomatonCore.Testnet.Isolation
import AutomatonCore.Testnet.Ring
import AutomatonCore.Network.TcpConnection
