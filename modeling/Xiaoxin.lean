import Xiaoxin.Transition
import Xiaoxin.Framing
import Xiaoxin.Packet
import Xiaoxin.PerHandleData
import Xiaoxin.SocketManager
import Xiaoxin.SendOrRecvMngBase
import Xiaoxin.ReceiveManager
import Xiaoxin.Connection
import Xiaoxin.CompletePackets
import Xiaoxin.FastDelivery
import Xiaoxin.Calls
import Xiaoxin.Endpoint
import Xiaoxin.AcceptorConnectorBase
import Xiaoxin.Network
import Xiaoxin.PendingReceive
import Xiaoxin.Flow
import Xiaoxin.MessageOrder
import Xiaoxin.LiveDispatch
import Xiaoxin.NoZombie
import Xiaoxin.Disconnects
import Xiaoxin.Outbox
import Xiaoxin.SendManager
import Xiaoxin.Sending
import Xiaoxin.Exchange
import Xiaoxin.DoublyLinked
import Xiaoxin.SQLPool
import Xiaoxin.PoolCalls
import Xiaoxin.Borrowing
import Xiaoxin.Threads
import Xiaoxin.Database
import Xiaoxin.Borrowers
import Xiaoxin.Requests
import Xiaoxin.WorkerLocks
import Xiaoxin.InfoTransferStation
import Xiaoxin.Stranded
import Xiaoxin.Hands
import Xiaoxin.HandlePools
import Xiaoxin.HandleConservation
import Xiaoxin.Ownership
import Xiaoxin.MessageQueue
import Xiaoxin.ExactlyOnce
import Xiaoxin.LostWakeup
import Xiaoxin.Getline
import Xiaoxin.Memory
import Xiaoxin.Numerals
import Xiaoxin.ServerConfig
import Xiaoxin.ConfigLines
import Xiaoxin.ConfigKeys
import Xiaoxin.ConfigFields
import Xiaoxin.ConfigFile
import Xiaoxin.ConfigChanges
import Xiaoxin.AcceptorManager
import Xiaoxin.AcceptPool
import Xiaoxin.QueueDestructor
import Xiaoxin.ChildServerManager
import Xiaoxin.PoolQuotas
import Xiaoxin.ReceiveLoop
import Xiaoxin.QueueCopy
import Xiaoxin.ReceiveRoom
import Xiaoxin.ServerAddress
import Xiaoxin.AcceptingCall
import Xiaoxin.FirstCalls
import Xiaoxin.Relational
import Xiaoxin.Sessions
import Xiaoxin.Schema
import Xiaoxin.Channels
import Xiaoxin.Friends
import Xiaoxin.Accounts
import Xiaoxin.Teaching
import Xiaoxin.Visits
import Xiaoxin.Procedures
import Xiaoxin.ChatRuns
import Xiaoxin.Races
import Xiaoxin.ChannelRuns
import Xiaoxin.AccountRuns
import Xiaoxin.TeachingRuns
import Xiaoxin.VisitRuns
import Xiaoxin.Odbc
import Xiaoxin.OdbcSql
import Xiaoxin.OdbcCalls
import Xiaoxin.OdbcRuns
import Xiaoxin.Layout
import Xiaoxin.Messages
import Xiaoxin.Wire
import Xiaoxin.ServerList
import Xiaoxin.ServerRegistry
