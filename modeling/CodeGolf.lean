import CodeGolf.Admin
import CodeGolf.Board
import CodeGolf.Board.Play
import CodeGolf.Board.Query
import CodeGolf.Board.Restore
import CodeGolf.Board.Sequencer
import CodeGolf.Bytecode
import CodeGolf.Bytes
import CodeGolf.Bytes.Hex
import CodeGolf.Bytes.Sha256
import CodeGolf.Bytes.Utf8
import CodeGolf.CommandLine.Help
import CodeGolf.CommandLine.Invocation
import CodeGolf.CommandLine.Opcode
import CodeGolf.CommandLine.Options
import CodeGolf.CommandLine.Run
import CodeGolf.Commitment.Key
import CodeGolf.Commitment.Ledger
import CodeGolf.Config
import CodeGolf.Config.File
import CodeGolf.Course
import CodeGolf.Course.Record
import CodeGolf.Course.Registry
import CodeGolf.Directory
import CodeGolf.Json
import CodeGolf.Json.Reader
import CodeGolf.Json.Token
import CodeGolf.Main
import CodeGolf.OpcodeSet
import CodeGolf.OpcodeSet.Json
import CodeGolf.Par
import CodeGolf.Player
import CodeGolf.Snapshot
import CodeGolf.Snapshot.Codec
import CodeGolf.Snapshot.Render
import CodeGolf.Snapshot.Store
import CodeGolf.Table
import CodeGolf.Text.Blank
import CodeGolf.Text.Extending
import CodeGolf.Text.Padded
import CodeGolf.Text.Plain
import CodeGolf.Text.Quoted
import CodeGolf.Text.Unprintable
import CodeGolf.Title
import CodeGolf.Word
import CodeGolf.Proofs.Lookup
import CodeGolf.Proofs.Step
import CodeGolf.Proofs.Refusal
import CodeGolf.Proofs.CommitReveal
import CodeGolf.Proofs.History
import CodeGolf.Proofs.Instructions
import CodeGolf.Proofs.Spelling
import CodeGolf.Proofs.RoundTrip
import CodeGolf.Proofs.Reading
import CodeGolf.Proofs.Canonical
import CodeGolf.Proofs.Reveal
import CodeGolf.Proofs.Reachable
import CodeGolf.Proofs.Persistence
import CodeGolf.Proofs.Standings
import CodeGolf.Proofs.Agreement
import CodeGolf.Proofs.Leader
import CodeGolf.Proofs.Listener
import CodeGolf.Proofs.EventLog
import CodeGolf.Proofs.Frame
import CodeGolf.Proofs.Isolation
import CodeGolf.Proofs.Restart
import CodeGolf.Proofs.Reordering
import CodeGolf.Proofs.Monotone
import CodeGolf.Proofs.Acceptance
import CodeGolf.Proofs.Attainable
import CodeGolf.Proofs.Loading
import CodeGolf.Proofs.Numbering
import CodeGolf.Proofs.Gating
import CodeGolf.Proofs.Seeds
import CodeGolf.Proofs.FileNames
import CodeGolf.Proofs.Files
import CodeGolf.Proofs.Views
import CodeGolf.Proofs.Narrowing
import CodeGolf.Proofs.Concatenation
import CodeGolf.Proofs.OpcodeSpelling
import CodeGolf.Proofs.Arguments
import CodeGolf.Proofs.OfflineCheck
import CodeGolf.Proofs.Binding
import CodeGolf.Proofs.Members
import CodeGolf.Proofs.Limbs
import CodeGolf.Proofs.JsonGrammar
import CodeGolf.Proofs.JsonTokens
import CodeGolf.Proofs.JsonReading
import CodeGolf.Proofs.Digits
import CodeGolf.Proofs.Settings
