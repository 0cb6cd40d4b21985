import Inngest.DurableEncryption
import Inngest.DurableStacks
import Inngest.Authenticity
import Inngest.SealedResponses
import Inngest.ReplayLogs
import Inngest.ReplayIdentity
import Inngest.GroupReplay
import Inngest.Streaming
import Inngest.Connect.Shutdown
import Inngest.Connect.Closed
import Inngest.Connect.HeartbeatOrder
import Inngest.Connect.Leases
import Inngest.Connect.Replies
import Inngest.Connect.Conversations
import Inngest.Connect.FinalFlush
import Inngest.Connect.HttpExecution
import Inngest.SignedResponses
import Inngest.Dispatch
import Inngest.Inspection
import Inngest.EventEncryption
import Inngest.DataPipeline
import Inngest.Watching
import Inngest.EngineAgreement
import Inngest.MockedRefinement
import Inngest.Signing
import Inngest.RetryDirective
import Inngest.UniqueIds
import Inngest.RunData
import Inngest.Syncing
import Inngest.SendProtocol
import Inngest.HookPairs
import Inngest.Lookup
import Inngest.RuntimeUrls
import Inngest.ParseUrl
import Inngest.Connect.BufferRuns
import Inngest.Connect.StartAttempts
import Inngest.MemoDecoding
import Inngest.Durations
import Inngest.StepData
import Inngest.RemoteStateRuns
