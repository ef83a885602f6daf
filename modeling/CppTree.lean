import CppTree.Census
import CppTree.Draft
import CppTree.Inspect.Tree
import CppTree.Proofs.Census.Coverage
import CppTree.Proofs.Drafts.FirstFault
import CppTree.Proofs.Drafts.RoundTrip
import CppTree.Proofs.Grammar.Faithful
import CppTree.Proofs.Grammar.Shortest
import CppTree.Proofs.Inspect.Faithful
import CppTree.Proofs.Layout.Independence
import CppTree.Proofs.Rendering.Allocations
import CppTree.Proofs.Rendering.Brackets
import CppTree.Proofs.Rendering.DoubledBrackets
import CppTree.Proofs.Rendering.Fragments
import CppTree.Proofs.Rendering.Sequence
import CppTree.Proofs.Rendering.SourceOrder
import CppTree.Proofs.Rendering.Statements
import CppTree.Proofs.Sessions
import CppTree.Proofs.TypeNames
import CppTree.Render.Renderer
import CppTree.Workbench.Report
