import Literate.Main
import Literate.Reading
import Literate.Proofs.Directive.Grammar
import Literate.Proofs.Directive.Lexical
import Literate.Proofs.Text.Lowercase
import Literate.Proofs.Directive.Acceptance
import Literate.Proofs.Outline.Nesting
import Literate.Proofs.Outline.Scope
import Literate.Proofs.Pass.Configuration
import Literate.Proofs.Flavor.Line
import Literate.Proofs.Flavor.Rendering
import Literate.Proofs.Pass.Walk
import Literate.Proofs.Plan.Assembly
import Literate.Proofs.Disk.Flush
import Literate.Proofs.Directive.Skipping
import Literate.Proofs.Pass.Leniency
import Literate.Proofs.Flavor.Shift
import Literate.Proofs.Flavor.Composition
import Literate.Proofs.Pass.Safety
import Literate.Proofs.Disk.Temporary
import Literate.Proofs.Disk.Footprint
import Literate.Proofs.Tangle.Run
import Literate.Proofs.Tangle.Strictness
import Literate.Proofs.Tangle.Containment
import Literate.Proofs.Plan.Weaving
import Literate.Proofs.Tangle.Answer
import Literate.Proofs.Directive.Fault
import Literate.Proofs.Pass.Location
import Literate.Proofs.Command.DryRun
import Literate.Proofs.Flavor.Fence
import Literate.Proofs.Flavor.Placement
import Literate.Proofs.Pass.Steps
import Literate.Proofs.Pass.Depth
import Literate.Proofs.Outline.Destination
import Literate.Proofs.Pass.Declared
import Literate.Proofs.Tangle.Accounting
import Literate.Proofs.Disk.Descent
import Literate.Proofs.Disk.Growth
import Literate.Proofs.Disk.Repetition
import Literate.Proofs.Directive.Inside
import Literate.Proofs.Directive.Span
import Literate.Proofs.Flavor.Progress
import Literate.Proofs.Flavor.Resumption
import Literate.Proofs.Outline.Ancestry
import Literate.Proofs.Outline.Effect
import Literate.Proofs.Outline.Tree
import Literate.Proofs.Path.Reduction
import Literate.Proofs.Path.Spelling
import Literate.Proofs.Path.Outside
import Literate.Proofs.Plan.Replaying
import Literate.Proofs.Flavor.Registration
import Literate.Proofs.Text.Trimming
import Literate.Proofs.Path.Location
import Literate.Proofs.Command.Explicit
