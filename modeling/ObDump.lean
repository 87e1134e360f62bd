import ObDump.Base.Bytes
import ObDump.Base.Except
import ObDump.Base.Drive
import ObDump.Base.Groups
import ObDump.Base.Decimal
import ObDump.Base.Floats
import ObDump.Base.SortedWalk
import ObDump.Base.Members
import ObDump.Base.Inserted
import ObDump.Base.Utf8
import ObDump.Base.Handles
import ObDump.Base.Scoped
import ObDump.Base.Device
import ObDump.Json.Value
import ObDump.Json.Text
import ObDump.Json.TextRuns
import ObDump.Json.TextNames
import ObDump.Json.Library
import ObDump.Json.Print
import ObDump.Schema.Model
import ObDump.Schema.Parse
import ObDump.Schema.Declared
import ObDump.Schema.Kept
import ObDump.Schema.IdStrings
import ObDump.Schema.Reordered
import ObDump.FlatBuffers.Wire
import ObDump.FlatBuffers.Stored
import ObDump.FlatBuffers.Verifier
import ObDump.FlatBuffers.Ranges
import ObDump.FlatBuffers.SchemaText
import ObDump.FlexBuffers.Reference
import ObDump.Decode.Values
import ObDump.Decode.Fields
import ObDump.Decode.Object
import ObDump.Decode.Settings
import ObDump.Decode.RoundTrip
import ObDump.Decode.Flex
import ObDump.Decode.Frame
import ObDump.Decode.JsonText
import ObDump.Decode.Bounds
import ObDump.Decode.Blobs
import ObDump.Lmdb.Library
import ObDump.Reader.Keys
import ObDump.Reader.Walks
import ObDump.Reader.Relations
import ObDump.Reader.Ids
import ObDump.Reader.Records
import ObDump.Reader.Handles
import ObDump.Bindings.Records
import ObDump.Bindings.Relations
import ObDump.Bindings.Blobs
import ObDump.Bindings.Cleanup
import ObDump.Bindings.Flex
import ObDump.Fbs.Generate
import ObDump.Fbs.Layout
import ObDump.Fbs.Read
import ObDump.Fbs.Loop
import ObDump.Fbs.Names
import ObDump.Dump.Dumper
import ObDump.Dump.Stream
import ObDump.Dump.Grouped
import ObDump.Dump.Exact
import ObDump.Dump.Complete
import ObDump.Dump.Strings
import ObDump.Dump.Listing
import ObDump.Dump.Slots
import ObDump.Dump.Reordered
import ObDump.Cli.Main
import ObDump.Cli.Written
import ObDump.Cli.Document
import ObDump.Cli.Agree
import ObDump.Cli.Names
import ObDump.Cli.Stdio
import ObDump.Cli.Partial
import ObDump.Base.Bisect
import ObDump.Base.ListCursor
import ObDump.Lmdb.Compare
import ObDump.Lmdb.Pages
import ObDump.Lmdb.Cursor
import ObDump.Lmdb.Tree
import ObDump.Lmdb.Descent
import ObDump.Lmdb.Siblings
import ObDump.Lmdb.Moves
import ObDump.Lmdb.Seek
import ObDump.Lmdb.Runs
import ObDump.Lmdb.Served
import ObDump.Dump.Pages
import ObDump.Base.Versions
import ObDump.Lmdb.Snapshot
import ObDump.Lmdb.Environment
import ObDump.Lmdb.FreeList
import ObDump.Lmdb.Readers
import ObDump.Lmdb.Reclaim
import ObDump.Lmdb.Edits
import ObDump.Lmdb.Commits
import ObDump.Lmdb.Live
import ObDump.Base.Memory
import ObDump.Base.InPlace
import ObDump.Lmdb.Midl
import ObDump.Lmdb.MidlSort
import ObDump.Lmdb.MidlMerge
import ObDump.Lmdb.PgHead
import ObDump.Lmdb.PgHeadRuns
import ObDump.Base.Potential
import ObDump.Lmdb.Progress
