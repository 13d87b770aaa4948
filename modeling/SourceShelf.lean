import SourceShelf.Action
import SourceShelf.Chunk.Basic
import SourceShelf.Chunk.Emission
import SourceShelf.Chunk.Output
import SourceShelf.Chunk.Writing
import SourceShelf.Command.Actions
import SourceShelf.Command.Arguments
import SourceShelf.Command.Backend
import SourceShelf.Command.Line
import SourceShelf.Command.Session
import SourceShelf.Decimal.Binary
import SourceShelf.Decimal.Fixed
import SourceShelf.Decimal.Numeral
import SourceShelf.Decimal.Shortest
import SourceShelf.Digest.Blocks
import SourceShelf.Digest.Sha1
import SourceShelf.Digest.Sha256
import SourceShelf.Embedding.Embedder
import SourceShelf.Embedding.Exchange
import SourceShelf.Embedding.LocalModel
import SourceShelf.Embedding.Ollama
import SourceShelf.Failure
import SourceShelf.Files.Disk
import SourceShelf.Files.Path
import SourceShelf.Ignore.Glob
import SourceShelf.Ignore.Rules
import SourceShelf.Index.Manifest
import SourceShelf.Index.Run
import SourceShelf.Index.Sink
import SourceShelf.Index.Workspace
import SourceShelf.Java.Automaton
import SourceShelf.Java.Grammar
import SourceShelf.Java.Item
import SourceShelf.Java.Lexer
import SourceShelf.Java.Outline
import SourceShelf.Java.Phrase
import SourceShelf.Java.Reader
import SourceShelf.Java.Stack
import SourceShelf.Java.SyntaxTree
import SourceShelf.Java.Token
import SourceShelf.Java.TokenSet
import SourceShelf.Java.Tree
import SourceShelf.Java.Unit
import SourceShelf.Json.Printer
import SourceShelf.Json.Reader
import SourceShelf.Json.Shown
import SourceShelf.Json.Value
import SourceShelf.Limits
import SourceShelf.Log
import SourceShelf.Main
import SourceShelf.Proofs.Action
import SourceShelf.Proofs.Chunk.DocComments
import SourceShelf.Proofs.Chunk.Documented
import SourceShelf.Proofs.Chunk.EditedChunks
import SourceShelf.Proofs.Chunk.Fragments
import SourceShelf.Proofs.Chunk.HandingOut
import SourceShelf.Proofs.Chunk.Lines
import SourceShelf.Proofs.Chunk.LocalTypes
import SourceShelf.Proofs.Chunk.Stream
import SourceShelf.Proofs.Command.Kept
import SourceShelf.Proofs.Command.Outputs
import SourceShelf.Proofs.Command.Rejected
import SourceShelf.Proofs.Decimal.Overflow
import SourceShelf.Proofs.Embedding.Ollama
import SourceShelf.Proofs.Embedding.Shrinking
import SourceShelf.Proofs.Embedding.Transcript
import SourceShelf.Proofs.Entries
import SourceShelf.Proofs.Files.Below
import SourceShelf.Proofs.Files.Folders
import SourceShelf.Proofs.Files.Links
import SourceShelf.Proofs.Files.Steps
import SourceShelf.Proofs.Files.Written
import SourceShelf.Proofs.Index.Alike
import SourceShelf.Proofs.Index.Balance
import SourceShelf.Proofs.Index.Batches
import SourceShelf.Proofs.Index.Completion
import SourceShelf.Proofs.Index.Counting
import SourceShelf.Proofs.Index.Emission
import SourceShelf.Proofs.Index.Failing
import SourceShelf.Proofs.Index.Faithful
import SourceShelf.Proofs.Index.Files
import SourceShelf.Proofs.Index.Filling
import SourceShelf.Proofs.Index.History
import SourceShelf.Proofs.Index.Incremental
import SourceShelf.Proofs.Index.KnownFiles
import SourceShelf.Proofs.Index.Manifest
import SourceShelf.Proofs.Index.Opening
import SourceShelf.Proofs.Index.Orphans
import SourceShelf.Proofs.Index.Outcome
import SourceShelf.Proofs.Index.Plan
import SourceShelf.Proofs.Index.Record
import SourceShelf.Proofs.Index.Retry
import SourceShelf.Proofs.Index.Saved
import SourceShelf.Proofs.Index.SingleFile
import SourceShelf.Proofs.Index.Stable
import SourceShelf.Proofs.Index.Switching
import SourceShelf.Proofs.Index.Visits
import SourceShelf.Proofs.Java.Bodies
import SourceShelf.Proofs.Java.Decisions
import SourceShelf.Proofs.Java.Derivation
import SourceShelf.Proofs.Java.Documents
import SourceShelf.Proofs.Java.EditedTrees
import SourceShelf.Proofs.Java.EditedTypes
import SourceShelf.Proofs.Java.EditedUnits
import SourceShelf.Proofs.Java.Edits
import SourceShelf.Proofs.Java.EmptyText
import SourceShelf.Proofs.Java.Endings
import SourceShelf.Proofs.Java.Faults
import SourceShelf.Proofs.Java.Follows
import SourceShelf.Proofs.Java.Forms
import SourceShelf.Proofs.Java.Items
import SourceShelf.Proofs.Java.Ladders
import SourceShelf.Proofs.Java.Leaves
import SourceShelf.Proofs.Java.MemberSpots
import SourceShelf.Proofs.Java.Places
import SourceShelf.Proofs.Java.PlainWords
import SourceShelf.Proofs.Java.Pruning
import SourceShelf.Proofs.Java.Reading
import SourceShelf.Proofs.Java.Shares
import SourceShelf.Proofs.Java.Siblings
import SourceShelf.Proofs.Java.Spots
import SourceShelf.Proofs.Java.Stacks
import SourceShelf.Proofs.Java.States
import SourceShelf.Proofs.Java.Steps
import SourceShelf.Proofs.Java.TypeHeads
import SourceShelf.Proofs.Java.Units
import SourceShelf.Proofs.Java.Words
import SourceShelf.Proofs.Json.Documents
import SourceShelf.Proofs.Json.Keys
import SourceShelf.Proofs.Json.Objects
import SourceShelf.Proofs.Json.Strings
import SourceShelf.Proofs.Settings.History
import SourceShelf.Proofs.Settings.Update
import SourceShelf.Proofs.Source.Candidates
import SourceShelf.Proofs.Source.Decoding
import SourceShelf.Proofs.Source.Links
import SourceShelf.Proofs.Source.Scan
import SourceShelf.Proofs.Store.Change
import SourceShelf.Proofs.Store.Planned
import SourceShelf.Proofs.Store.RowMap
import SourceShelf.Proofs.Store.Rows
import SourceShelf.Proofs.Store.Search
import SourceShelf.Proofs.Text.Utf8
import SourceShelf.Settings.Loading
import SourceShelf.Settings.Options
import SourceShelf.Source.Decoding
import SourceShelf.Source.Emission
import SourceShelf.Source.Loading
import SourceShelf.Source.Scan
import SourceShelf.Store.Basic
import SourceShelf.Store.Document
import SourceShelf.Store.Handle
import SourceShelf.Store.Record
import SourceShelf.Store.Vector
import SourceShelf.Text.Blank
import SourceShelf.Text.Digits
import SourceShelf.Text.Letters
import SourceShelf.Text.Lowercase
import SourceShelf.Text.Place
import SourceShelf.Text.Printable
import SourceShelf.Text.Quoted
import SourceShelf.Text.Ranges
import SourceShelf.Text.Utf8
