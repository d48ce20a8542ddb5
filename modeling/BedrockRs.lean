import BedrockRs.Nethernet.Interleaving
import BedrockRs.Nethernet.Protocol.ServerData
import BedrockRs.Nethernet.Protocol.Negotiation
import BedrockRs.Nethernet.Signaling.LanNetwork
import BedrockRs.Nethernet.Transport.Dispatch
import BedrockRs.Nethernet.Transport.Meeting
import BedrockRs.Nethernet.Transport.Stream
import BedrockRs.Raknet.Delivery.Acknowledged
import BedrockRs.Raknet.Protocol.Codec
import BedrockRs.Raknet.Protocol.VarInt
import BedrockRs.Raknet.Transport.Message
import BedrockRs.Raknet.Delivery.AtLeastOnce
import BedrockRs.Raknet.Delivery.ExactlyOnce
import BedrockRs.Raknet.Delivery.Link
import BedrockRs.Raknet.Session.Accounting
import BedrockRs.Raknet.Session.Weights
import BedrockRs.Raknet.Session.Gaps
import BedrockRs.Raknet.Session.AckSound
import BedrockRs.Raknet.Session.Atomic
import BedrockRs.Raknet.Session.ChannelRuns
import BedrockRs.Raknet.Session.SplitErrors
import BedrockRs.Raknet.Session.SplitBlocking
import BedrockRs.Raknet.Session.Keepalive
import BedrockRs.Raknet.Session.Progress
import BedrockRs.Raknet.Session.SentWindow
import BedrockRs.Raknet.Session.Lifecycle
import BedrockRs.Raknet.Session.Mtu
import BedrockRs.Raknet.Session.OrderingComplete
import BedrockRs.Raknet.Session.SplitExpiry
import BedrockRs.Raknet.Session.SplitRoundTrip
import BedrockRs.Raknet.Session.TrackerRefines
import BedrockRs.Raknet.Transport.Footprint
import BedrockRs.Raknet.Transport.Routing
import BedrockRs.Raknet.Transport.Reclaim
import BedrockRs.Raknet.Transport.Rejection
import BedrockRs.Raknet.Transport.Notice
import BedrockRs.Raknet.Transport.MtuAgreement
