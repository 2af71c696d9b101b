import ScriptModules.Analysis.Access
import ScriptModules.Analysis.TypeCheck
import ScriptModules.Command.Arguments
import ScriptModules.Command.Session
import ScriptModules.Console.Display
import ScriptModules.Console.Markup
import ScriptModules.Conversion.Report
import ScriptModules.Conversion.Workspace
import ScriptModules.Corpus.Chunks
import ScriptModules.Corpus.Index
import ScriptModules.Corpus.Ingest
import ScriptModules.Corpus.Script
import ScriptModules.Corpus.Trace
import ScriptModules.Dependency.Graph
import ScriptModules.Dependency.Integrity
import ScriptModules.Dependency.Resolution
import ScriptModules.Fault
import ScriptModules.Log
import ScriptModules.Main
import ScriptModules.Module.Basic
import ScriptModules.Module.Draft
import ScriptModules.Module.EntryPoint
import ScriptModules.Path.Corpus
import ScriptModules.Path.FilePath
import ScriptModules.Path.FileTree
import ScriptModules.Settings.Basic
import ScriptModules.Settings.Load
import ScriptModules.Settings.Overrides
import ScriptModules.Settings.Toml
import ScriptModules.Settings.Validation
import ScriptModules.Text.Alphanumeric
import ScriptModules.Text.Blank
import ScriptModules.Text.Identifier
import ScriptModules.Text.Json
import ScriptModules.Text.Ledger
import ScriptModules.Text.Order
import ScriptModules.Text.Parts
import ScriptModules.Text.Quoted
import ScriptModules.Text.Ranges
import ScriptModules.Text.Width
import ScriptModules.Tree.Layout
import ScriptModules.Tree.Letters
import ScriptModules.Tree.Node
import ScriptModules.Tree.Parser
import ScriptModules.Tree.Printer
import ScriptModules.Tree.Scanner
import ScriptModules.Tree.Source
import ScriptModules.Tree.Template
import ScriptModules.Tree.Token
import ScriptModules.Tree.Walk
import ScriptModules.Proofs.Dependency.Integrity
import ScriptModules.Proofs.Task
import ScriptModules.Proofs.Frame
import ScriptModules.Proofs.Stop
import ScriptModules.Proofs.Lockstep
import ScriptModules.Proofs.Text.Fresh
import ScriptModules.Proofs.Text.Order
import ScriptModules.Proofs.Text.Quoted
import ScriptModules.Proofs.Tree.Respelling
import ScriptModules.Proofs.Module.Snippet
import ScriptModules.Proofs.Tree.Names
import ScriptModules.Proofs.Tree.Sound
import ScriptModules.Proofs.Tree.Exchange
import ScriptModules.Proofs.Tree.Scope
import ScriptModules.Proofs.Tree.Grammar
import ScriptModules.Proofs.Tree.Rebuild
import ScriptModules.Proofs.Analysis.TypeCheck
import ScriptModules.Proofs.Analysis.Site
import ScriptModules.Proofs.Analysis.Access
import ScriptModules.Proofs.Analysis.Exchange
import ScriptModules.Proofs.Analysis.Marker
import ScriptModules.Proofs.Analysis.Numbered
import ScriptModules.Proofs.Analysis.Recast
import ScriptModules.Proofs.Analysis.Scope
import ScriptModules.Proofs.Analysis.Verdict
import ScriptModules.Proofs.Dependency.Reachability
import ScriptModules.Proofs.Path.Specifier
import ScriptModules.Proofs.Path.Resolution
import ScriptModules.Proofs.Path.Containment
import ScriptModules.Proofs.Path.FileTree
import ScriptModules.Proofs.Corpus.Chunks
import ScriptModules.Proofs.Tree.Declaration
import ScriptModules.Proofs.Settings.Validation
import ScriptModules.Proofs.Dependency.Resolution
import ScriptModules.Proofs.Module.Redirection
import ScriptModules.Proofs.Module.Imports
import ScriptModules.Proofs.Module.Exports
import ScriptModules.Proofs.Module.Draft
import ScriptModules.Proofs.Module.Exchange
import ScriptModules.Proofs.Module.Locality
import ScriptModules.Proofs.Corpus.Ingest
import ScriptModules.Proofs.Corpus.Growth
import ScriptModules.Proofs.Analysis.Grammar
import ScriptModules.Proofs.Analysis.Inventory
import ScriptModules.Proofs.Module.Grammar
import ScriptModules.Proofs.Module.Scope
import ScriptModules.Proofs.Conversion.Workspace
import ScriptModules.Proofs.Conversion.Merging
import ScriptModules.Proofs.Conversion.Analysis
import ScriptModules.Proofs.Conversion.Rewrite
import ScriptModules.Proofs.Conversion.Checks
import ScriptModules.Proofs.Conversion.Classification
import ScriptModules.Proofs.Conversion.Cycles
import ScriptModules.Proofs.Conversion.Linking
import ScriptModules.Proofs.Conversion.Namespace
import ScriptModules.Proofs.Conversion.Names
import ScriptModules.Proofs.Conversion.Substitution
import ScriptModules.Proofs.Conversion.Trace
import ScriptModules.Proofs.Conversion.Exclusion
import ScriptModules.Proofs.Conversion.Faults
import ScriptModules.Proofs.Conversion.Markers
import ScriptModules.Proofs.Conversion.Order
import ScriptModules.Proofs.Conversion.Recording
import ScriptModules.Proofs.Conversion.Graph
import ScriptModules.Proofs.Conversion.Growth
import ScriptModules.Proofs.Conversion.Dropping
import ScriptModules.Proofs.Conversion.Grammar
import ScriptModules.Proofs.Conversion.Capture
import ScriptModules.Proofs.Command.Delivery
import ScriptModules.Proofs.Command.Outcome
import ScriptModules.Proofs.Conversion.EntryPoint
import ScriptModules.Proofs.Dependency.Search
import ScriptModules.Proofs.Conversion.Root
import ScriptModules.Proofs.Conversion.Completion
import ScriptModules.Proofs.Corpus.Directory
import ScriptModules.Proofs.Corpus.History
import ScriptModules.Proofs.Corpus.Trace
import ScriptModules.Proofs.Tree.Template
import ScriptModules.Proofs.Tree.Relinking
import ScriptModules.Proofs.Tree.Comments
import ScriptModules.Proofs.Analysis.Comments
import ScriptModules.Proofs.Module.Comments
import ScriptModules.Proofs.Module.Reservation
import ScriptModules.Proofs.Conversion.Comments
