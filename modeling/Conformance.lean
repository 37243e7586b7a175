import Conformance.Description.Tree
import Conformance.Pipeline
import Conformance.Value.Equality
import Conformance.ValueType.Scripted
import Conformance.ValueType.Sequence
import Conformance.Proofs.Brackets
import Conformance.Proofs.Termination
import Conformance.Proofs.TypeTree
import Conformance.Proofs.Dispatch
import Conformance.Proofs.Pieces
import Conformance.Proofs.NestedChecks
import Conformance.Proofs.FlatUnion
import Conformance.Proofs.NestedGenerics
import Conformance.Proofs.Disjunction
import Conformance.Proofs.DepthLimit
import Conformance.Proofs.Shorthand
import Conformance.Proofs.Registration
import Conformance.Proofs.Precedence
import Conformance.Proofs.Locality
import Conformance.Proofs.Widening
import Conformance.Proofs.EqualValues
import Conformance.Proofs.DeclarationText
import Conformance.Proofs.Extraction
import Conformance.Proofs.Splitting
import Conformance.Proofs.ReaderSteps
import Conformance.Proofs.Continuation
import Conformance.Proofs.JsonText
import Conformance.Proofs.Spelling
import Conformance.Proofs.WrittenValues
import Conformance.Proofs.ValueReaders
import Conformance.Proofs.ParameterText
import Conformance.Proofs.DecimalText
import Conformance.Proofs.ArgumentText
import Conformance.Proofs.Composition
import Conformance.Proofs.NumericSpelling
import Conformance.Proofs.Occurrences
import Conformance.Proofs.FirstFailure
import Conformance.Proofs.KeyText
import Conformance.Proofs.Equality
import Conformance.Proofs.Lists
import Conformance.Proofs.Trimming
import Conformance.Proofs.Spacing
import Conformance.Proofs.CallChains
import Conformance.Proofs.Pipeline
