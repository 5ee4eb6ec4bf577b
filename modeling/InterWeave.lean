import InterWeave.Human.Chat
import InterWeave.Human.Pages
import InterWeave.Human.Retention
import InterWeave.Human.Schema
import InterWeave.Ipc.Client
import InterWeave.Ipc.Framing
import InterWeave.Libp2p.DirectCodec
import InterWeave.Libp2p.ProbeServer
import InterWeave.Providers.Mdns
import InterWeave.Providers.Static
import InterWeave.Runtime.RetirementQueue
import InterWeave.Runtime.DeliveryQueues
import InterWeave.Runtime.DialQuarantine
import InterWeave.Runtime.DirectRuns
import InterWeave.Runtime.DiscoveryOverflow
import InterWeave.Runtime.DiscoveryIsolation
import InterWeave.Runtime.EndpointLeases
import InterWeave.Runtime.IngressRate
import InterWeave.Runtime.PreAuthEviction
import InterWeave.Runtime.Reachability
import InterWeave.Runtime.RelayLadder
import InterWeave.Runtime.ReservationAccounting
import InterWeave.Runtime.Subscriptions
