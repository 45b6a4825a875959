import Ber.Main
import Ber.Program.Walkthrough
import Ber.Proofs.Encoding
import Ber.Proofs.Scan
import Ber.Proofs.Reading
import Ber.Proofs.Siblings
import Ber.Proofs.SignedDataLayout
import Ber.Proofs.Actions
import Ber.Proofs.Sessions
import Ber.Proofs.View
import Ber.Proofs.Relocation
import Ber.Proofs.Inquiry
import Ber.Proofs.Bounds
import Ber.Proofs.Nesting
import Ber.Proofs.Poisoning
import Ber.Proofs.Progress
import Ber.Proofs.Independence
import Ber.Proofs.HexText
import Ber.Proofs.HexGrammar
import Ber.Proofs.SignatureReports
import Ber.Proofs.SignedDataExtent
import Ber.Proofs.HeaderAnswers
import Ber.Proofs.ReaderAgreement
import Ber.Proofs.Descent
import Ber.Proofs.PartialInput
import Ber.Proofs.LengthDecoding
import Ber.Proofs.FirstFault
import Ber.Proofs.ContextRuns
import Ber.Proofs.Provenance
import Ber.Proofs.ArcWriting
