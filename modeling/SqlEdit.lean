import SqlEdit.Nesting.Cut
import SqlEdit.Clauses
import SqlEdit.Fragment
import SqlEdit.Statement.Render
import SqlEdit.Statement.Parser
import SqlEdit.Session
import SqlEdit.Stability
import SqlEdit.Json.Printer
import SqlEdit.Sample.Draw
import SqlEdit.Statement.Json
import SqlEdit.Json.Parser
import SqlEdit.Proofs.Stability
import SqlEdit.Proofs.Statement.WellFormed
import SqlEdit.Proofs.Identifier.Skeleton
import SqlEdit.Proofs.Respelling
import SqlEdit.Proofs.Identifier.Outline
import SqlEdit.Proofs.Statement.Outline
import SqlEdit.Proofs.Keyword.Hidden
import SqlEdit.Proofs.Sample.Words
import SqlEdit.Proofs.Sample.Parse
import SqlEdit.Proofs.Sample.Convert
import SqlEdit.Proofs.Sample.Draw
import SqlEdit.Proofs.Statement.Squash
import SqlEdit.Proofs.Statement.Json
import SqlEdit.Proofs.Statement.Degraded
import SqlEdit.Proofs.Statement.Parts
import SqlEdit.Proofs.Session
import SqlEdit.Proofs.Identifier.Plain
import SqlEdit.Proofs.Identifier.Token
import SqlEdit.Proofs.Identifier.Ascii
import SqlEdit.Proofs.Identifier.RoundTrip
import SqlEdit.Proofs.Identifier.Reserved
import SqlEdit.Proofs.Identifier.Columns
import SqlEdit.Proofs.Identifier.Settled
import SqlEdit.Proofs.Statement.Settled
import SqlEdit.Proofs.Statement.Merging
import SqlEdit.Proofs.Checked.Slice
import SqlEdit.Proofs.Checked.Scan
import SqlEdit.Proofs.Checked.Keyword
import SqlEdit.Proofs.Checked.Cut
import SqlEdit.Proofs.Checked.Clauses
import SqlEdit.Proofs.Checked.Fragment
import SqlEdit.Proofs.Checked.Field
import SqlEdit.Proofs.Checked.Chain
import SqlEdit.Proofs.Checked.Statement
import SqlEdit.Proofs.Checked.Edit
import SqlEdit.Proofs.Statement.Condition
import SqlEdit.Proofs.Statement.QuotedName
import SqlEdit.Proofs.Renames.Each
import SqlEdit.Proofs.Renames.History
import SqlEdit.Proofs.Renames.Enumerated
import SqlEdit.Proofs.Nesting.Group
import SqlEdit.Proofs.Clauses.Tiling
import SqlEdit.Proofs.Statement.Phrase
import SqlEdit.Proofs.Nesting.Stretches
import SqlEdit.Proofs.Nesting.Spacing
import SqlEdit.Proofs.Checked.Search
import SqlEdit.Proofs.Sample.Image
import SqlEdit.Proofs.Statement.Alias
