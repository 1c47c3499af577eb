import ThemeOverride.Command.Arguments
import ThemeOverride.Command.Basic
import ThemeOverride.Console.Markup
import ThemeOverride.Console.Prompt
import ThemeOverride.Console.Selection
import ThemeOverride.Disk.Access
import ThemeOverride.Disk.Basic
import ThemeOverride.Disk.Fault
import ThemeOverride.Disk.Follow
import ThemeOverride.Export.Analysis
import ThemeOverride.Export.Record
import ThemeOverride.Failure
import ThemeOverride.Journal
import ThemeOverride.Main
import ThemeOverride.Module.Candidates
import ThemeOverride.Module.Location
import ThemeOverride.Module.Manifest
import ThemeOverride.Output.Style
import ThemeOverride.Output.Writer
import ThemeOverride.Override.CopiedImport
import ThemeOverride.Override.Extension
import ThemeOverride.Override.Naming
import ThemeOverride.Override.Resource
import ThemeOverride.Override.Synthesis
import ThemeOverride.Proofs.Disk.Growth
import ThemeOverride.Proofs.Disk.Proper
import ThemeOverride.Proofs.Run.Report
import ThemeOverride.Proofs.Run.Triple
import ThemeOverride.Proofs.Run.Turns
import ThemeOverride.Proofs.Text.PathText
import ThemeOverride.Proofs.Text.UpperCase
import ThemeOverride.Run.Extend
import ThemeOverride.Run.Lint
import ThemeOverride.Run.Scene
import ThemeOverride.Script.Assertion
import ThemeOverride.Script.Grammar
import ThemeOverride.Script.Grammar.Expressions
import ThemeOverride.Script.Grammar.Markup
import ThemeOverride.Script.Grammar.Rule
import ThemeOverride.Script.Grammar.Statements
import ThemeOverride.Script.Grammar.Types
import ThemeOverride.Script.Kind
import ThemeOverride.Script.Lexeme
import ThemeOverride.Script.Pattern
import ThemeOverride.Script.Reading
import ThemeOverride.Script.Scanner
import ThemeOverride.Script.Recovery
import ThemeOverride.Script.Terminator
import ThemeOverride.Script.Tree
import ThemeOverride.Script.Walk
import ThemeOverride.Settings.Basic
import ThemeOverride.Settings.Layer
import ThemeOverride.Settings.Load
import ThemeOverride.Text.CaseTable
import ThemeOverride.Text.Character
import ThemeOverride.Text.Encoding
import ThemeOverride.Text.LetterTable
import ThemeOverride.Text.Path
import ThemeOverride.Text.Quoted
import ThemeOverride.Text.Split
import ThemeOverride.Value.Basic
import ThemeOverride.Value.Json
import ThemeOverride.Value.Toml
import ThemeOverride.Value.Yaml
import ThemeOverride.Value.Yaml.Cursor
import ThemeOverride.Value.Yaml.Node
import ThemeOverride.Value.Yaml.Scalar
import ThemeOverride.Value.Yaml.Token
import ThemeOverride.Proofs.Export.Kinds
import ThemeOverride.Proofs.Export.Statements
import ThemeOverride.Proofs.Override.Pieces
import ThemeOverride.Proofs.Override.CopiedNames
import ThemeOverride.Proofs.Override.Names
import ThemeOverride.Proofs.Disk.Resolve
import ThemeOverride.Proofs.Module.Roots
import ThemeOverride.Proofs.Module.ParentWalk
import ThemeOverride.Proofs.Module.Candidates
import ThemeOverride.Proofs.Disk.Rewrite
import ThemeOverride.Proofs.Module.Location
import ThemeOverride.Proofs.Module.Stability
import ThemeOverride.Proofs.Script.Depth
import ThemeOverride.Proofs.Script.Template
import ThemeOverride.Proofs.Script.TemplateReading
import ThemeOverride.Proofs.Export.TemplateNames
import ThemeOverride.Proofs.Disk.Additions
import ThemeOverride.Proofs.Run.Again
import ThemeOverride.Proofs.Disk.OneDirectory
import ThemeOverride.Proofs.Run.Prediction
import ThemeOverride.Proofs.Run.Independence
import ThemeOverride.Proofs.Script.Rows
import ThemeOverride.Proofs.Script.Untyped
import ThemeOverride.Proofs.Run.Transcript
import ThemeOverride.Proofs.Run.Tidying
import ThemeOverride.Proofs.Run.Prompts
import ThemeOverride.Proofs.Disk.LastName
import ThemeOverride.Proofs.Run.Contents
import ThemeOverride.Proofs.Override.SourcePath
import ThemeOverride.Proofs.Override.Scaffolds
import ThemeOverride.Proofs.Output.Interference
import ThemeOverride.Proofs.Output.Outcome
import ThemeOverride.Proofs.Run.Inside
import ThemeOverride.Proofs.Console.Markup
import ThemeOverride.Proofs.Console.Selection
import ThemeOverride.Proofs.Console.Dialogue
import ThemeOverride.Proofs.Module.Faults
import ThemeOverride.Proofs.Settings.Faults
import ThemeOverride.Proofs.Command.Ending
import ThemeOverride.Proofs.Override.Words
import ThemeOverride.Proofs.Override.Lists
import ThemeOverride.Proofs.Override.Clauses
import ThemeOverride.Proofs.Override.Reading
import ThemeOverride.Proofs.Override.Exports
import ThemeOverride.Proofs.Run.Untyped
import ThemeOverride.Proofs.Export.Patterns
import ThemeOverride.Proofs.Export.Explicit
import ThemeOverride.Proofs.Script.Halves
import ThemeOverride.Proofs.Script.Recovered
import ThemeOverride.Proofs.Script.Stripping
import ThemeOverride.Proofs.Script.Remaining
import ThemeOverride.Proofs.Script.Errors
import ThemeOverride.Proofs.Export.Wrappers
import ThemeOverride.Proofs.Script.Whole
import ThemeOverride.Proofs.Export.Slices
import ThemeOverride.Proofs.Export.Invariants
import ThemeOverride.Proofs.Override.CopiedImports
import ThemeOverride.Proofs.Override.ModulePaths
import ThemeOverride.Proofs.Override.StyleImports
import ThemeOverride.Proofs.Output.OneName
import ThemeOverride.Proofs.Run.Styles
import ThemeOverride.Proofs.Run.Picks
import ThemeOverride.Proofs.Module.Listing
import ThemeOverride.Proofs.Module.Nearest
import ThemeOverride.Proofs.Settings.Precedence
import ThemeOverride.Proofs.Console.Verbatim
import ThemeOverride.Proofs.Command.Shown
import ThemeOverride.Proofs.Script.Splicing
import ThemeOverride.Proofs.Script.Addresses
import ThemeOverride.Proofs.Override.Aliases
