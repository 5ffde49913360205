import Recipe.Service.Basic
import Recipe.Workspace.Analyzer
import Recipe.Proofs.Text.Blank
import Recipe.Proofs.Text.LineTable
import Recipe.Proofs.Text.Offset
import Recipe.Proofs.Text.LineSpan
import Recipe.Proofs.Text.LineIndex
import Recipe.Proofs.Text.Utf16
import Recipe.Proofs.Grammar.Reading
import Recipe.Proofs.Grammar.Statement
import Recipe.Proofs.Grammar.Block
import Recipe.Proofs.Tree.Coverage
import Recipe.Proofs.Embedded.Region
import Recipe.Proofs.Embedded.Store
import Recipe.Proofs.Embedded.Router
import Recipe.Proofs.Grammar.Task
import Recipe.Proofs.Tree.Walk
import Recipe.Proofs.Embedded.Body
import Recipe.Proofs.Embedded.Rendering
import Recipe.Proofs.Embedded.Origin
import Recipe.Proofs.Embedded.Faithful
import Recipe.Proofs.Uri.Parts
import Recipe.Proofs.Embedded.Hosts
import Recipe.Proofs.Grammar.Append
import Recipe.Proofs.Tree.Append
import Recipe.Proofs.Workspace.Basic
import Recipe.Proofs.Workspace.Run
import Recipe.Proofs.Workspace.Debounce
import Recipe.Proofs.Workspace.Outcome
import Recipe.Proofs.Workspace.Cancellation
import Recipe.Proofs.Embedded.Listing
import Recipe.Proofs.Server.Act
import Recipe.Proofs.Server.History
import Recipe.Proofs.Server.Mirror
import Recipe.Proofs.Server.Posting
import Recipe.Proofs.Server.Freshness
import Recipe.Proofs.Embedded.Code
import Recipe.Proofs.Embedded.Complete
import Recipe.Proofs.Grammar.Content
import Recipe.Proofs.Tree.Content
import Recipe.Proofs.Text.LineEnding
import Recipe.Proofs.Grammar.LineEnding.Scan
import Recipe.Proofs.Grammar.LineEnding.Statement
import Recipe.Proofs.Grammar.LineEnding.Block
import Recipe.Proofs.Tree.LineEnding
import Recipe.Proofs.Tree.Nodes
import Recipe.Proofs.Server.Columns
import Recipe.Proofs.Server.Recode
import Recipe.Proofs.Server.Meaning
import Recipe.Proofs.Embedded.Place
import Recipe.Proofs.Server.Forwarding
import Recipe.Proofs.Embedded.Dedent
import Recipe.Proofs.Grammar.Keyword
import Recipe.Proofs.Grammar.Written
import Recipe.Proofs.Tree.Line
import Recipe.Proofs.Tree.Sketch
import Recipe.Proofs.Tree.Assignment
import Recipe.Proofs.Grammar.Export
import Recipe.Proofs.Tree.Export
import Recipe.Proofs.Embedded.Append
import Recipe.Proofs.Grammar.WrittenBlock
import Recipe.Proofs.Tree.WrittenBlock
import Recipe.Proofs.Grammar.WrittenDirective
import Recipe.Proofs.Tree.WrittenDirective
import Recipe.Proofs.Grammar.Continuation
import Recipe.Proofs.Grammar.Joint
import Recipe.Proofs.Tree.Continuation
import Recipe.Proofs.Grammar.Filled
import Recipe.Proofs.Tree.Lookup
import Recipe.Proofs.Tree.Filled
import Recipe.Proofs.Tree.Diagnostics
import Recipe.Proofs.Server.Outline
import Recipe.Proofs.Tree.Navigation
import Recipe.Proofs.Server.Warnings
import Recipe.Proofs.Server.Symbols
import Recipe.Proofs.Grammar.Names
import Recipe.Proofs.Tree.LineFeed
import Recipe.Proofs.Server.LineEnd
import Recipe.Proofs.Scanner.Block
import Recipe.Proofs.Tree.Traversal
