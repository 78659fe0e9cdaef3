import StreamLexer.Automaton.Assembly
import StreamLexer.Automaton.Basic
import StreamLexer.Automaton.Walk
import StreamLexer.Command.Demo
import StreamLexer.Command.Fuzz
import StreamLexer.Command.Report
import StreamLexer.Command.TableFiles
import StreamLexer.Encoding.Compact
import StreamLexer.Encoding.Json.Token
import StreamLexer.Encoding.Json.Value
import StreamLexer.Encoding.TablesJson
import StreamLexer.Encoding.Word
import StreamLexer.Engine
import StreamLexer.Error
import StreamLexer.Files.Access
import StreamLexer.Files.Path
import StreamLexer.Files.Tree
import StreamLexer.Grammar.RandomText
import StreamLexer.Grammar.Sample
import StreamLexer.Grammar.TokenKind
import StreamLexer.Input.ScanBuffer
import StreamLexer.Input.Source
import StreamLexer.Input.Window
import StreamLexer.Lexing
import StreamLexer.Log
import StreamLexer.Main
import StreamLexer.Program.Basic
import StreamLexer.Program.RunTable
import StreamLexer.Random.Dice
import StreamLexer.Random.SplitMix
import StreamLexer.ResumePoint
import StreamLexer.Rule.Accumulator
import StreamLexer.Rule.Basic
import StreamLexer.Rule.Course
import StreamLexer.Rule.Lexing
import StreamLexer.Rule.Session
import StreamLexer.Settings
import StreamLexer.Symbol
import StreamLexer.Text.Ascii
import StreamLexer.Text.Decimal
import StreamLexer.Text.Hex
import StreamLexer.Text.Printable
import StreamLexer.Text.Quoted
import StreamLexer.Text.Utf8
import StreamLexer.Proofs.Automaton.Walk
import StreamLexer.Proofs.Program.RunTable
import StreamLexer.Proofs.Input.Usage
import StreamLexer.Proofs.Input.Layout
import StreamLexer.Proofs.Engine.Scan
import StreamLexer.Proofs.Engine.Turns
import StreamLexer.Proofs.Lexing.Backends
import StreamLexer.Proofs.Engine.Foresight
import StreamLexer.Proofs.Lexing.Chunking
import StreamLexer.Proofs.Lexing.Tiling
import StreamLexer.Proofs.Rule.PassThrough
import StreamLexer.Proofs.Rule.Chain
import StreamLexer.Proofs.Rule.Schedule
import StreamLexer.Proofs.Encoding.Compact
import StreamLexer.Proofs.Automaton.Stretch
import StreamLexer.Proofs.Engine.LongestMatch
import StreamLexer.Proofs.Assembly.Classes
import StreamLexer.Proofs.Assembly.Construction
import StreamLexer.Proofs.Assembly.Fidelity
import StreamLexer.Proofs.Assembly.Acceptance
import StreamLexer.Proofs.Grammar.Spelling
import StreamLexer.Proofs.Grammar.Phase
import StreamLexer.Proofs.Grammar.States
import StreamLexer.Proofs.Grammar.RandomText
import StreamLexer.Proofs.Rule.EndOfStream
import StreamLexer.Proofs.Rule.Tiling
import StreamLexer.Proofs.Assembly.Completeness
import StreamLexer.Proofs.Assembly.Partition
import StreamLexer.Proofs.Assembly.CatchAll
import StreamLexer.Proofs.Encoding.Truncation
import StreamLexer.Proofs.Lexing.Causality
import StreamLexer.Proofs.Lexing.Units
import StreamLexer.Proofs.Encoding.TablesJson
import StreamLexer.Proofs.Lexing.Refusal
import StreamLexer.Proofs.Lexing.Retries
import StreamLexer.Proofs.Lexing.EagerRefill
import StreamLexer.Proofs.Rule.Lexing
import StreamLexer.Proofs.Rule.Suspension
import StreamLexer.Proofs.Lexing.Reader
import StreamLexer.Proofs.Lexing.Retention
import StreamLexer.Proofs.Grammar.Tokens
import StreamLexer.Proofs.Rule.Staging
import StreamLexer.Proofs.Engine.Resumption
import StreamLexer.Proofs.Program.Rows
import StreamLexer.Proofs.Input.Cuts
