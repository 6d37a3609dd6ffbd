import SourceGen.Builder.Placeholder
import SourceGen.Builder.Program
import SourceGen.Config.Load
import SourceGen.Stack
import SourceGen.Symbols.Declarations
import SourceGen.Symbols.Resolver
import SourceGen.Proofs.Text.Concatenation
import SourceGen.Proofs.Text.Grammar
import SourceGen.Proofs.Builder.Batch
import SourceGen.Proofs.Builder.Body
import SourceGen.Proofs.Builder.Characters
import SourceGen.Proofs.Builder.Depth
import SourceGen.Proofs.Builder.DepthSteps
import SourceGen.Proofs.Builder.Flush
import SourceGen.Proofs.Builder.LineDocument
import SourceGen.Proofs.Builder.LineStart
import SourceGen.Proofs.Builder.Lineage
import SourceGen.Proofs.Builder.Locality
import SourceGen.Proofs.Builder.Pieces
import SourceGen.Proofs.Builder.Reindent
import SourceGen.Proofs.Builder.Rendering
import SourceGen.Proofs.Builder.Script
import SourceGen.Proofs.Builder.Simulation
import SourceGen.Proofs.Builder.Stroke
import SourceGen.Proofs.Builder.Truncation
import SourceGen.Proofs.Builder.Usings
import SourceGen.Proofs.Stack
import SourceGen.Proofs.Symbols.Ancestors
import SourceGen.Proofs.Symbols.BaseChain
import SourceGen.Proofs.Symbols.Declared
import SourceGen.Proofs.Symbols.Preorder
import SourceGen.Proofs.Toml.DistinctKeys
import SourceGen.Proofs.Config.Described
import SourceGen.Proofs.Config.Label
import SourceGen.Proofs.Config.Order
import SourceGen.Proofs.Config.Source
import SourceGen.Proofs.Config.Width
import SourceGen.Proofs.Config.Written
