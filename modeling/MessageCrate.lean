import MessageCrate.Lib.Text
import MessageCrate.Lib.Grouping
import MessageCrate.Lib.Runs
import MessageCrate.Lib.Ops
import MessageCrate.Ir.Identity
import MessageCrate.Ir.OneCopy
import MessageCrate.Ir.Phone
import MessageCrate.Lib.Casing
import MessageCrate.Ir.Handle
import MessageCrate.Dedupe.ContentKey
import MessageCrate.Dedupe.Exact
import MessageCrate.Dedupe.Shown
import MessageCrate.Dedupe.Near
import MessageCrate.Dedupe.Run
import MessageCrate.Dedupe.Chain
import MessageCrate.Search.Value
import MessageCrate.Search.Fields
import MessageCrate.Search.Parse
import MessageCrate.Search.Grammar
import MessageCrate.Lib.SqlText
import MessageCrate.Lib.SqlReader
import MessageCrate.Search.Bridge
import MessageCrate.Search.Emit
import MessageCrate.Search.Lex
import MessageCrate.Lib.Utf8
import MessageCrate.Search.Lexer
import MessageCrate.Search.Spans
import MessageCrate.Search.Compile
import MessageCrate.Search.Closed
import MessageCrate.Search.Binding
import MessageCrate.Search.Built
import MessageCrate.Search.Negation
import MessageCrate.Search.WebPieces
import MessageCrate.Search.WebTerms
import MessageCrate.Search.Respan
import MessageCrate.Search.Pairing
import MessageCrate.Search.Behind
import MessageCrate.Search.WebNarrow
import MessageCrate.Lib.Like
import MessageCrate.Search.Like
import MessageCrate.Lib.SqlTable
import MessageCrate.Import.Tables
import MessageCrate.Import.Promote
import MessageCrate.Import.Phases
import MessageCrate.Import.Again
import MessageCrate.Import.Fts
import MessageCrate.Import.Messages
import MessageCrate.Import.Replace
import MessageCrate.Import.Children
import MessageCrate.Import.Identities
import MessageCrate.Import.TakeOff
import MessageCrate.Import.Stage
import MessageCrate.Import.StagedOrder
import MessageCrate.Import.OneIdentity
import MessageCrate.Import.Runs
import MessageCrate.Import.Lifecycle
import MessageCrate.Push.Journal
import MessageCrate.Push.Claims
import MessageCrate.Push.Pipeline
import MessageCrate.Push.Settle
import MessageCrate.Push.Once
import MessageCrate.Push.Uploads
import MessageCrate.Push.Resume
import MessageCrate.Push.Attachments
import MessageCrate.Push.Sent
import MessageCrate.Push.JournalRows
import MessageCrate.Server.Sessions
import MessageCrate.Server.Tokens
import MessageCrate.Server.OneSession
import MessageCrate.Server.Trail
import MessageCrate.Server.WholeOrNone
import MessageCrate.Server.WholeUpload
import MessageCrate.Server.Guesses
import MessageCrate.Server.Exclusion
import MessageCrate.Server.PageSlices
import MessageCrate.Desktop.Kept
import MessageCrate.Formats.Decoding
import MessageCrate.Formats.RoundTrip
import MessageCrate.Formats.PartsKept
import MessageCrate.Formats.Inside
import MessageCrate.Search.Instants
import MessageCrate.Formats.SbrWriteBack
import MessageCrate.Server.FormulaGuard
import MessageCrate.Server.ResetState
import MessageCrate.Server.ResetPreserved
import MessageCrate.Lib.Aligned
import MessageCrate.Server.Trash
import MessageCrate.Server.ExportRuns
import MessageCrate.Server.ExportPages
import MessageCrate.Server.HandedOver
import MessageCrate.Formats.PduBuilt
import MessageCrate.Formats.SbrStream
import MessageCrate.Formats.SbrGroups
import MessageCrate.Formats.StemReadBack
import MessageCrate.Pull.Downloads
import MessageCrate.Pull.OtherPaths
