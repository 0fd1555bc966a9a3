import Stackhour.Lib.System
import Stackhour.Lib.Table
import Stackhour.Lib.Numbering
import Stackhour.Lib.Result
import Stackhour.Lib.Broadcast
import Stackhour.Lib.Precedence
import Stackhour.Lib.Mirror
import Stackhour.Lib.Utf8
import Stackhour.Lib.Lines
import Stackhour.Core.FsUtil
import Stackhour.Core.JsNum
import Stackhour.Agent.TornAppends
import Stackhour.Agent.Delivery
import Stackhour.Agent.Tail
import Stackhour.Agent.Lock
import Stackhour.Agent.Batches
import Stackhour.Tracker.Scope
import Stackhour.Tracker.Migrations
import Stackhour.Tracker.Tokens
import Stackhour.Tracker.Credits
import Stackhour.Tracker.ReadGuard
import Stackhour.Core.ConfigSpec
import Stackhour.Tracker.EnrollingSpec
import Stackhour.Tracker.RestoreSpec
import Stackhour.Tracker.BackupSpec
import Stackhour.Tracker.Exclusion
import Stackhour.Tracker.ChargingSpec
import Stackhour.Domain.EventLog
import Stackhour.Domain.Readback
import Stackhour.Domain.TimeOrder
import Stackhour.Domain.Wakes
import Stackhour.Domain.WireSpec
import Stackhour.Hub.Receipts
import Stackhour.Hub.System
import Stackhour.Hub.Projection
import Stackhour.Hub.Links
import Stackhour.Hub.Subscription
import Stackhour.Hub.Dispatch
import Stackhour.Hub.DispatchOrder
import Stackhour.Hub.Retirement
import Stackhour.Hub.References
import Stackhour.Hub.Authority
import Stackhour.Hub.Routing
import Stackhour.Hub.Presence
import Stackhour.Hub.Scheduling
import Stackhour.Hub.WorkerTask
import Stackhour.Hub.Approvals
import Stackhour.Hub.Expiry
import Stackhour.Hub.SettingsSpec
import Stackhour.Node.Relay
import Stackhour.Node.EventOrder
import Stackhour.Node.Commands
import Stackhour.Node.Supervision
import Stackhour.Node.Termination
import Stackhour.Claire.System
import Stackhour.Claire.Steps
import Stackhour.Claire.Threads
import Stackhour.Claire.Running
import Stackhour.Claire.Changes
import Stackhour.Claire.Assessments
import Stackhour.Claire.FollowUps
import Stackhour.Claire.Failures
import Stackhour.Claire.Tracked
import Stackhour.Claire.Wedged
import Stackhour.Claire.TelegramOutput
import Stackhour.Claire.TelegramInput
import Stackhour.Core.Engine
import Stackhour.Core.EngineSpec
import Stackhour.Node.Process
import Stackhour.Node.Bypass
import Stackhour.Lib.Transaction
import Stackhour.Tracker.Batches
import Stackhour.Core.Timeparse
import Stackhour.Core.IsoDates
import Stackhour.Core.CivilDates
import Stackhour.Tracker.DateFilters
import Stackhour.Tracker.Wakatime
import Stackhour.Tracker.Prune
import Stackhour.Tracker.ExportSpec
import Stackhour.Lib.Glob
import Stackhour.Tracker.Actors
import Stackhour.Lib.Runs
import Stackhour.Lib.Sorting
import Stackhour.Lib.Base64
import Stackhour.Core.JsonCompact
import Stackhour.Core.Enrollment
import Stackhour.Core.LenientBase64
import Stackhour.Core.EnrollmentSpec
import Stackhour.Tracker.LenientBase64
import Stackhour.Tracker.Summarize
import Stackhour.Tracker.Segments
import Stackhour.Tracker.Detail
import Stackhour.Install.Options
import Stackhour.Lib.Getopt
import Stackhour.Lib.Shell
import Stackhour.Install.Ssh
import Stackhour.Lib.Expansion
import Stackhour.Lib.UnitFile
import Stackhour.Lib.Xml
import Stackhour.Install.ServiceFiles
import Stackhour.Core.Project
import Stackhour.Core.Checkouts
import Stackhour.Lib.NumericLiteral
import Stackhour.Core.JsNumberStr
import Stackhour.Node.Backoff
import Stackhour.Agent.Health
import Stackhour.Agent.FilesSpec
import Stackhour.Agent.ZedSpec
import Stackhour.Node.Conversations
import Stackhour.Tracker.Now
