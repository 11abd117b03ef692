import RocketMem.Client.RmpClient
import RocketMem.Engine.Commands.Moving
import RocketMem.Engine.Commands.Removal
import RocketMem.Engine.Commands.Splicing
import RocketMem.Engine.GlobProof
import RocketMem.Engine.ShardCallsProof
import RocketMem.Protocol.Grammar
import RocketMem.Server.AccessControl
import RocketMem.Server.AofWriter
import RocketMem.Server.Batches
import RocketMem.Server.Filled
import RocketMem.Server.FollowerImage
import RocketMem.Server.Permissions
import RocketMem.Server.Publishing
import RocketMem.Server.PushLoop
import RocketMem.Server.Rankings
import RocketMem.Server.ReadOnly
import RocketMem.Server.Redaction
import RocketMem.Server.Restart
import RocketMem.Server.RmpConnection
import RocketMem.Server.Routing
import RocketMem.Server.Scanning
import RocketMem.Server.SharedSessionProof
import RocketMem.Server.Slots
import RocketMem.Server.StoredSets
import RocketMem.Server.SubscriptionCounts
import RocketMem.Server.TopologyText
import RocketMem.Server.UserLines
import RocketMem.Server.WellFramed
