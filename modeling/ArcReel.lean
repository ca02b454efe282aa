import ArcReel.Queue.Notification
import ArcReel.Queue.BatchRollback
import ArcReel.Worker.Concurrency
import ArcReel.Worker.Lease
import ArcReel.Billing.SettledOnce
import ArcReel.Episode.Completion
import ArcReel.Agent.CursorReader
import ArcReel.Agent.UserEntries
import ArcReel.Agent.CommandRelease
import ArcReel.Agent.StreamGaps
import ArcReel.Agent.NewSessionOnce
import ArcReel.Agent.OneActor
import ArcReel.Agent.TurnOrder
import ArcReel.Agent.SupersedeRuns
import ArcReel.Review.GateRuns
import ArcReel.Billing.Conservation
import ArcReel.Draft.Reconnect
import ArcReel.Timeline.SubTimelines
import ArcReel.Mention.Editor
import ArcReel.Transcript.Replay
import ArcReel.Profile.Sync
import ArcReel.Prompt.Numbering
import ArcReel.Mention.Header
import ArcReel.Speech.ShotRoundTrip
import ArcReel.Rename.MentionNames
import ArcReel.Migration.Resume
import ArcReel.Rename.Rejection
import ArcReel.Lib.Pieces
import ArcReel.Access.Soundness
import ArcReel.Access.Isolation
import ArcReel.Manifest.Interchange
import ArcReel.Manifest.Pruning
import ArcReel.Archive.Unharmed
import ArcReel.Events.Absorbed
import ArcReel.Grid.Layout
import ArcReel.Script.MediaKept
import ArcReel.Episode.Boundaries
import ArcReel.Episode.Commit
import ArcReel.Episode.FullReset
import ArcReel.Queue.CancelPreview
import ArcReel.Queue.PlainReason
import ArcReel.Queue.CascadeFailure
import ArcReel.Media.CompressionLoop
import ArcReel.Events.SseDelivery
import ArcReel.Storyboard.Agreement
import ArcReel.Migration.Ownership
import ArcReel.Speech.SubtitleExport
import ArcReel.Events.DiffCoverage
import ArcReel.Lib.JsonCanonical
import ArcReel.Provenance.Basis
import ArcReel.Media.AspectSize
import ArcReel.Project.AllOrNothing
import ArcReel.Tasks.Occupancy
import ArcReel.Quote.VideoQuote
import ArcReel.Media.RateLimiter
import ArcReel.Refresh.ProjectStore
import ArcReel.Credentials.Groups
import ArcReel.Credentials.AgentCredentials
