import TextTags.Arguments
import TextTags.Core.Registry
import TextTags.Fill.Text
import TextTags.Host.Memory
import TextTags.Limit
import TextTags.Main
import TextTags.Pool.Serve
import TextTags.Program.Session
import TextTags.Proofs.Arguments
import TextTags.Proofs.Asks
import TextTags.Proofs.Cache.Calls
import TextTags.Proofs.Chain.Grammar
import TextTags.Proofs.Chain.Joining
import TextTags.Proofs.Core
import TextTags.Proofs.Declarations
import TextTags.Proofs.Duration.Formatted
import TextTags.Proofs.Element
import TextTags.Proofs.Fill.Alternatives
import TextTags.Proofs.Fill.Bases
import TextTags.Proofs.Fill.Boxing
import TextTags.Proofs.Fill.Branching
import TextTags.Proofs.Fill.Composition
import TextTags.Proofs.Fill.Concatenation
import TextTags.Proofs.Fill.Containment
import TextTags.Proofs.Fill.Diagnostics
import TextTags.Proofs.Fill.Embedding
import TextTags.Proofs.Fill.Extension
import TextTags.Proofs.Fill.Integers
import TextTags.Proofs.Fill.Interchange
import TextTags.Proofs.Fill.Naming
import TextTags.Proofs.Fill.Products
import TextTags.Proofs.Fill.Provenance
import TextTags.Proofs.Fill.Separated
import TextTags.Proofs.Fill.Timeout
import TextTags.Proofs.Fill.Unfilled
import TextTags.Proofs.Fill.WellFormed
import TextTags.Proofs.Fill.Wrapping
import TextTags.Proofs.Inheritance
import TextTags.Proofs.Locating
import TextTags.Proofs.Number.Grammar
import TextTags.Proofs.Overriding
import TextTags.Proofs.Parsed
import TextTags.Proofs.Pool.Answers
import TextTags.Proofs.Pool.Slots
import TextTags.Proofs.Program
import TextTags.Proofs.Program.Definitions
import TextTags.Proofs.Program.Lines
import TextTags.Proofs.Registry.Distance
import TextTags.Proofs.Registry.History
import TextTags.Proofs.Settings.Lines
import TextTags.Proofs.Text.Escaped
import TextTags.Proofs.Time.Difference
import TextTags.Proofs.Time.Stamp
import TextTags.Proofs.Value.Identity
import TextTags.Proofs.Value.Records
import TextTags.Time.Pattern
import TextTags.Value.Reading
