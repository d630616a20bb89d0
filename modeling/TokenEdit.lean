import TokenEdit.Token
import TokenEdit.Token.Lexer
import TokenEdit.Pattern
import TokenEdit.Pattern.Match
import TokenEdit.Bindings
import TokenEdit.Span
import TokenEdit.Template
import TokenEdit.Rule
import TokenEdit.Scan
import TokenEdit.Draft
import TokenEdit.Text.Ranges
import TokenEdit.Text.Blank
import TokenEdit.Text.Graphic
import TokenEdit.Text.ExtendingMark
import TokenEdit.Text.Ignorable
import TokenEdit.Text.Quoted
import TokenEdit.Text.Replaced
import TokenEdit.RuleFile.Line
import TokenEdit.RuleFile
import TokenEdit.Json
import TokenEdit.Token.Listing
import TokenEdit.Report
import TokenEdit.Outline
import TokenEdit.Topic
import TokenEdit.Files.Path
import TokenEdit.Files
import TokenEdit.Files.Tree
import TokenEdit.Command
import TokenEdit.Command.Log
import TokenEdit.Command.Apply
import TokenEdit.Command.Arguments
import TokenEdit.Command.Run
import TokenEdit.Main
import TokenEdit.Proofs.Except
import TokenEdit.Proofs.Rollback
import TokenEdit.Proofs.Runs
import TokenEdit.Proofs.Reachable
import TokenEdit.Proofs.Occurrence
import TokenEdit.Proofs.Edits
import TokenEdit.Proofs.Division
import TokenEdit.Proofs.Provenance
import TokenEdit.Proofs.LayoutMatch
import TokenEdit.Proofs.LayoutRuns
import TokenEdit.Proofs.TokenClass
import TokenEdit.Proofs.Captures
import TokenEdit.Proofs.Trace
import TokenEdit.Proofs.FirstOccurrence
import TokenEdit.Proofs.Scope
import TokenEdit.Proofs.CurlyFree
import TokenEdit.Proofs.EarlyStop
import TokenEdit.Proofs.Isolation
import TokenEdit.Proofs.MaximalMunch
import TokenEdit.Proofs.TextBehind
import TokenEdit.Proofs.Lines
import TokenEdit.Proofs.WrittenPattern
import TokenEdit.Proofs.RuleGrammar
import TokenEdit.Proofs.RuleReading
import TokenEdit.Proofs.OpeningLines
import TokenEdit.Proofs.JoinedFiles
import TokenEdit.Proofs.FaultLines
import TokenEdit.Proofs.PutBack
import TokenEdit.Proofs.Renaming
import TokenEdit.Proofs.Agreement
import TokenEdit.Proofs.OccurrenceGrammar
import TokenEdit.Proofs.ShortFollowUps
import TokenEdit.Proofs.CaptureNames
import TokenEdit.Proofs.TextIdentity
import TokenEdit.Proofs.TemplateMargins
import TokenEdit.Proofs.TreePaths
import TokenEdit.Proofs.FileChanges
import TokenEdit.Proofs.ListingPlaces
import TokenEdit.Proofs.RegionSkipping
