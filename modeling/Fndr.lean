import Fndr.Library.Strings
import Fndr.Library.Words
import Fndr.Library.FirstSeen
import Fndr.Library.Runs
import Fndr.Library.References
import Fndr.Library.Durable
import Fndr.Library.Tables
import Fndr.Library.Ddl
import Fndr.Library.Float64
import Fndr.Library.History
import Fndr.Library.Cursor
import Fndr.Library.Flock
import Fndr.Library.Files
import Fndr.Library.Usize
import Fndr.Library.Utf8
import Fndr.Library.Separators
import Fndr.Library.Gaps
import Fndr.Library.Quoted
import Fndr.Privacy.SafetyGate
import Fndr.Privacy.AppRules
import Fndr.Privacy.DomainRules
import Fndr.Privacy.Policy
import Fndr.Privacy.Labels
import Fndr.Store.Store
import Fndr.Store.LanceWriter
import Fndr.Store.Rebuild
import Fndr.Store.FlushTotality
import Fndr.Store.Drain
import Fndr.Store.Deletion
import Fndr.Store.DeletePredicate
import Fndr.Store.Migrations
import Fndr.Store.Search
import Fndr.Store.Evidence
import Fndr.Store.Ledger
import Fndr.Retrieval.MergedSearch
import Fndr.Retrieval.QueryTerms
import Fndr.Mcp.Tools
import Fndr.Mcp.Explanation
import Fndr.Mcp.MergedResults
import Fndr.Mcp.ContextPack
import Fndr.Mcp.Audit
import Fndr.Mcp.Delta
import Fndr.Mcp.Auth
import Fndr.Mcp.Overlap
import Fndr.Memory.Continuity
import Fndr.Memory.Anchor
import Fndr.Memory.WritePath
import Fndr.Store.Faults
import Fndr.Vault.Calls
import Fndr.Vault.Presence
import Fndr.Vault.Shared
import Fndr.Vault.Stories
import Fndr.Vault.Texts
import Fndr.Vault.Keeping
import Fndr.Vault.Coverage
import Fndr.Vault.Freshness
import Fndr.Vault.Domains
import Fndr.Capture.Admission
import Fndr.Capture.Surface
import Fndr.Capture.Dedup
import Fndr.Capture.DedupRuns
import Fndr.Capture.SemanticWindow
import Fndr.Capture.Source
import Fndr.Capture.NativeSample
import Fndr.Capture.Foreground
import Fndr.Capture.Pipeline
import Fndr.Capture.Retry
import Fndr.Shell.CaptureAdapters
import Fndr.Shell.OcrAdapter
import Fndr.Shell.CaptureLifecycle
import Fndr.Shell.RecordIds
import Fndr.Shell.Machine
import Fndr.Shell.Search
import Fndr.Shell.AuditView
import Fndr.Shell.CaptureWorker
import Fndr.Shell.Cadence
import Fndr.Shell.AppState
import Fndr.Shell.AppLifecycle
import Fndr.Privacy.Redaction
import Fndr.Memory.StoryMerge
import Fndr.Store.Timeline
import Fndr.TextSignal.HighSignal
import Fndr.TextSignal.Snippet
import Fndr.TextSignal.Salience
import Fndr.TextSignal.Sentences
import Fndr.Ocr.Vision
import Fndr.Ocr.LowSignal
import Fndr.Ocr.Markers
import Fndr.Inference.ModelWorker
import Fndr.Inference.QueueDiscipline
import Fndr.Inference.Answers
import Fndr.Inference.Shutdown
import Fndr.Inference.GgufEmbedder
import Fndr.Downloader.Download
import Fndr.Store.FlushFaults
import Fndr.Store.OpenRace
import Fndr.Shell.CaptureScheduler
import Fndr.Shell.FlushIsolation
import Fndr.Shell.Backlog
import Fndr.Shell.CaptureThread
import Fndr.Shell.Paging
import Fndr.Mcp.Released
