import StyleCheck.Block
import StyleCheck.Stylesheet
import StyleCheck.Proofs.LetterCase
import StyleCheck.Proofs.Declaring
import StyleCheck.Proofs.Applying
import StyleCheck.Proofs.Cascade
import StyleCheck.Proofs.Boundary
import StyleCheck.Proofs.Nesting
import StyleCheck.Proofs.Recovery
import StyleCheck.Proofs.Rules
import StyleCheck.Proofs.Components
import StyleCheck.Proofs.ValueScan
import StyleCheck.Proofs.Essence
import StyleCheck.Proofs.Spelling
import StyleCheck.Proofs.Importance
import StyleCheck.Proofs.RoundTrip
import StyleCheck.Proofs.CaseBlind
import StyleCheck.Proofs.Lifecycle
import StyleCheck.Proofs.Vocabularies
import StyleCheck.Proofs.Registering
import StyleCheck.Proofs.FirstRegistered
import StyleCheck.Proofs.Calls
import StyleCheck.Proofs.Distinct
import StyleCheck.Proofs.Atomicity
import StyleCheck.Proofs.NormalForm
import StyleCheck.Proofs.Layering
import StyleCheck.Proofs.Faults
import StyleCheck.Proofs.ReadBack
import StyleCheck.Proofs.Reapplying
import StyleCheck.Proofs.Dispatch
import StyleCheck.Proofs.HexColor
import StyleCheck.Proofs.Places
import StyleCheck.Proofs.ColorFunction
import StyleCheck.Proofs.Reading
import StyleCheck.Proofs.Progress
