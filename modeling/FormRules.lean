import FormRules.Engine.Session
import FormRules.Main
import FormRules.Proofs.Dependence
import FormRules.Proofs.Misplacement
import FormRules.Proofs.Rendering
import FormRules.Proofs.Caching
import FormRules.Proofs.Limits
import FormRules.Proofs.Munching
import FormRules.Proofs.Segmentation
import FormRules.Proofs.Content
import FormRules.Proofs.Observation
import FormRules.Proofs.Navigation
import FormRules.Proofs.Indistinguishable
import FormRules.Proofs.Relocation
import FormRules.Proofs.ByteOrder
import FormRules.Proofs.Formatting
import FormRules.Proofs.Mentions
import FormRules.Proofs.Agreement
import FormRules.Proofs.Coherence
import FormRules.Proofs.Retention
import FormRules.Proofs.Roundtrip
import FormRules.Proofs.Composition
import FormRules.Proofs.Equivalence
import FormRules.Proofs.Places
import FormRules.Proofs.Reaching
import FormRules.Proofs.LexicalFaults
import FormRules.Proofs.FirstFault
import FormRules.Proofs.Reporting
import FormRules.Proofs.Coercion
import FormRules.Proofs.Views
import FormRules.Proofs.Quotation
import FormRules.Proofs.ShortCircuit
import FormRules.Proofs.Nearest
import FormRules.Proofs.Numerals
import FormRules.Proofs.Literals
import FormRules.Proofs.Readback
import FormRules.Proofs.Preorder
import FormRules.Proofs.Records
import FormRules.Proofs.Balance
import FormRules.Proofs.Printing
