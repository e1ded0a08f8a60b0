import LineWatch.Kpi.Fleet
import LineWatch.Metrics
import LineWatch.Rehearsal.Run
import LineWatch.Settings
import LineWatch.EventStream.Response
import LineWatch.Ticker
import LineWatch.Proofs.Cache.Newest
import LineWatch.Proofs.Remote.ListReply
import LineWatch.Proofs.Sync.Invalidation
import LineWatch.Proofs.Interval.Window
import LineWatch.Proofs.Kpi.DailyAgreement
import LineWatch.Proofs.Connection.Delivery
import LineWatch.Proofs.Connection.Course
import LineWatch.Proofs.Connection.Silence
import LineWatch.Proofs.Connection.Transports
import LineWatch.Proofs.Connection.StatePath
import LineWatch.Proofs.Cache.Replay
import LineWatch.Proofs.Interval.Horizon
import LineWatch.Proofs.Cache.Population
import LineWatch.Proofs.Cache.Listing
import LineWatch.Proofs.Cache.LiveLog
import LineWatch.Proofs.Cache.Agreement
import LineWatch.Proofs.Sync.Removal
import LineWatch.Proofs.Sync.Recovery
import LineWatch.Proofs.Cache.Advance
import LineWatch.Proofs.EventStream.Blocks
import LineWatch.Proofs.Remote.Settling
import LineWatch.Proofs.Decode.Dump
import LineWatch.Proofs.Text.Utf8
import LineWatch.Proofs.Cache.Confluence
import LineWatch.Proofs.Cache.Independence
import LineWatch.Proofs.Cache.Remerge
import LineWatch.Proofs.EventStream.RetryField
import LineWatch.Proofs.Kpi.Pooling
import LineWatch.Proofs.Kpi.Consistency
import LineWatch.Proofs.Kpi.Rows
import LineWatch.Proofs.Kpi.Grouping
import LineWatch.Proofs.Kpi.FirstDay
import LineWatch.Proofs.Interval.ArrivalOrder
import LineWatch.Proofs.Api.NewestFirst
import LineWatch.Proofs.Connection.Isolation
import LineWatch.Proofs.Interval.Nested
import LineWatch.Proofs.Connection.Resumption
import LineWatch.Proofs.Connection.Memory
import LineWatch.Proofs.Time.MillisOrder
import LineWatch.Proofs.Interval.Cut
