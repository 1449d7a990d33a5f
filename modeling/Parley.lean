import Parley.Fault
import Parley.Record
import Parley.Statement.Compilation
import Parley.Statement.Draft
import Parley.Statement.View
import Parley.Proofs.Text.Speaker
import Parley.Proofs.Text.Balance
import Parley.Proofs.Text.Decomposition
import Parley.Proofs.Text.Recognition
import Parley.Proofs.Text.Numerals
import Parley.Proofs.Statement.Grammar
import Parley.Proofs.Statement.Reachable
import Parley.Proofs.Statement.Recompletion
import Parley.Proofs.Statement.Canonical
import Parley.Proofs.Statement.PhraseText
import Parley.Proofs.Statement.Printing
import Parley.Proofs.Statement.Construction
import Parley.Proofs.Statement.Acceptance
import Parley.Proofs.Statement.ReadBack
import Parley.Proofs.Statement.RoundTrip
import Parley.Proofs.Statement.Stability
import Parley.Proofs.Statement.Equality
import Parley.Proofs.Statement.Congruence
import Parley.Proofs.Statement.Limit
import Parley.Proofs.Statement.Ancestry
import Parley.Proofs.Statement.GrammarText
import Parley.Proofs.Statement.EventLog
import Parley.Proofs.Statement.LooseSpelling
import Parley.Proofs.Statement.Finished
import Parley.Proofs.Statement.WrittenSpeaker
import Parley.Proofs.Statement.CutSpeaker
import Parley.Proofs.Statement.BracketSafety
import Parley.Proofs.Statement.Places
import Parley.Proofs.Statement.BareRequest
import Parley.Proofs.Statement.FreeText
import Parley.Proofs.Wire
import Parley.Proofs.Statement.View
import Parley.Proofs.Statement.EqualViews
import Parley.Proofs.Statement.Size
import Parley.Proofs.Text.Slicing
import Parley.Proofs.Statement.CheckedRun
import Parley.Proofs.Json.RoundTrip
import Parley.Proofs.Record
import Parley.Proofs.Json.Continuation
import Parley.Proofs.Json.ObjectText
import Parley.Proofs.Json.Fields
import Parley.Proofs.RecordMembers
