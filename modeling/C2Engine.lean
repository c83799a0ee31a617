import C2Engine.Python.Csv
import C2Engine.Pipeline.Indexable
import C2Engine.Ingest.Poison
import C2Engine.Store.Paging
import C2Engine.Elastic.Requests
import C2Engine.Python.Json
import C2Engine.Reason.Engine
import C2Engine.Reason.Refresh
import C2Engine.Reason.Loading
import C2Engine.Pipeline.Content
import C2Engine.Reason.Noninterference
import C2Engine.Reason.Isolation
import C2Engine.Reason.FeedBodies
import C2Engine.Reason.Lag
import C2Engine.Reason.Exactness
import C2Engine.Analyze.Completeness
import C2Engine.Pipeline.Shared
import C2Engine.Ingest.ExactlyOnce
import C2Engine.Ingest.Carriers
import C2Engine.Ingest.Frames
import C2Engine.Feed.Blocklist
import C2Engine.Analyze.Grouping
import C2Engine.Pipeline.Chains
import C2Engine.Analyze.PlaybookText
import C2Engine.Analyze.Rotation
import C2Engine.Ingest.Inlined
import C2Engine.Pipeline.InPlace
import C2Engine.Cli
import C2Engine.Sensor.ExtractUrls
import C2Engine.Sensor.Stingar
import C2Engine.Reason.FirstSeen
import C2Engine.Reason.Freshness
import C2Engine.Ingest.JsonSafe
import C2Engine.Python.Lines
import C2Engine.Feed.Rendering
import C2Engine.Pipeline.RowShape
import C2Engine.Python.Calendar
import C2Engine.Ingest.DailyIndex
import C2Engine.Store.Ranked
import C2Engine.Reason.Signals
import C2Engine.Python.Logged
import C2Engine.Reason.VtLog
import C2Engine.Reason.RejectedKey
import C2Engine.Analyze.Unwrapping
import C2Engine.Python.UrlRequest
import C2Engine.Sensor.UrlFetcher
import C2Engine.Sensor.BytesOnWire
import C2Engine.Sensor.FrameSize
import C2Engine.Sensor.Tags
import C2Engine.Python.CsvWrite
import C2Engine.Python.Rounds
import C2Engine.Reason.Dump
import C2Engine.Sensor.QuotedUrls
import C2Engine.Python.JsonText
import C2Engine.Python.JsonWrite
import C2Engine.Python.Quote
import C2Engine.Python.QueryString
import C2Engine.Elastic.Text
import C2Engine.Feed.Handler
import C2Engine.Python.MsgpackStream
import C2Engine.Elastic.Bootstrap
import C2Engine.Ingest.Stream
import C2Engine.Ingest.Routing
import C2Engine.Ingest.Service
import C2Engine.Sensor.LogBus
import C2Engine.Sensor.Capture
import C2Engine.Sensor.Contract
import C2Engine.System.Acknowledged
import C2Engine.System.Ledger
import C2Engine.System.Run
import C2Engine.System.Download
