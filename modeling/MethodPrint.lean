import MethodPrint.Main
import MethodPrint.Proofs.Analysis.Outcome
import MethodPrint.Proofs.Analysis.Reordering
import MethodPrint.Proofs.Analysis.Return
import MethodPrint.Proofs.CommandLine.Groups
import MethodPrint.Proofs.Digest.Unambiguous
import MethodPrint.Proofs.Feature.Rendering
import MethodPrint.Proofs.Feature.Sequence
import MethodPrint.Proofs.Index.Admission
import MethodPrint.Proofs.Index.Catalogue
import MethodPrint.Proofs.Posting.Common
import MethodPrint.Proofs.Predicate.Acceptance
import MethodPrint.Proofs.Predicate.Conjunction
import MethodPrint.Proofs.Predicate.Faults
import MethodPrint.Proofs.Predicate.Flags
import MethodPrint.Proofs.Predicate.Grouping
import MethodPrint.Proofs.Predicate.Lexing
import MethodPrint.Proofs.Predicate.Meaning
import MethodPrint.Proofs.Predicate.Places
import MethodPrint.Proofs.Predicate.Printing
import MethodPrint.Proofs.Predicate.Reading
import MethodPrint.Proofs.Predicate.Rendering
import MethodPrint.Proofs.Predicate.Writing
import MethodPrint.Proofs.Resolve.Containment
import MethodPrint.Proofs.Search.Distinguishing
import MethodPrint.Proofs.Search.Enumeration
import MethodPrint.Proofs.Search.Finds
import MethodPrint.Proofs.Search.Growth
import MethodPrint.Proofs.Search.Outcome
import MethodPrint.Proofs.Search.Shrinking
import MethodPrint.Proofs.Search.Smallest
import MethodPrint.Proofs.Search.Solve
import MethodPrint.Proofs.Search.Testing
import MethodPrint.Proofs.Search.Truncation
import MethodPrint.Proofs.Search.Window
import MethodPrint.Proofs.Session.Background
import MethodPrint.Proofs.Session.History
import MethodPrint.Proofs.Session.Identity
import MethodPrint.Proofs.Session.Run
import MethodPrint.Session.Desk
