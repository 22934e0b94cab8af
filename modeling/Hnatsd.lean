import Hnatsd.Conf.Proofs.Blocks
import Hnatsd.Conf.Proofs.Integers
import Hnatsd.Conf.Proofs.KeyStack
import Hnatsd.Conf.Proofs.Resolution
import Hnatsd.Health.Proofs.LeadHistory
import Hnatsd.Health.Proofs.Leases
import Hnatsd.Health.Proofs.LocationOrder
import Hnatsd.Health.Proofs.MemberChanges
import Hnatsd.Health.Proofs.Preferred
import Hnatsd.Health.Proofs.Reconnection
import Hnatsd.Health.Proofs.SameLeader
import Hnatsd.Peers.Proofs.Checkpoints
import Hnatsd.Peers.Proofs.ChunkedTransfer
import Hnatsd.Peers.Proofs.InventoryOrder
import Hnatsd.Peers.Proofs.Replies
import Hnatsd.Server.Proofs.AsyncInfoCount
import Hnatsd.Server.Proofs.AuthGate
import Hnatsd.Server.Proofs.AutoUnsub
import Hnatsd.Server.Proofs.CacheMatcher
import Hnatsd.Server.Proofs.ClosedConnections
import Hnatsd.Server.Proofs.ConnzPages
import Hnatsd.Server.Proofs.FanoutCalls
import Hnatsd.Server.Proofs.InfoUpdates
import Hnatsd.Server.Proofs.PublishCaches
import Hnatsd.Server.Proofs.RefusedInsert
import Hnatsd.Server.Proofs.ResultCacheFresh
import Hnatsd.Server.Proofs.RouteInterest
import Hnatsd.Server.Proofs.RouteRegistry
import Hnatsd.Server.Proofs.RouteSids
import Hnatsd.Server.Proofs.SizeFields
import Hnatsd.Server.Proofs.SubjectFilter
import Hnatsd.Server.Proofs.SublistPruned
import Hnatsd.Swp.Proofs.BytesCap
import Hnatsd.Swp.Proofs.FlowControl
import Hnatsd.Swp.Proofs.HandshakeAgreement
import Hnatsd.Swp.Proofs.HandshakePanics
