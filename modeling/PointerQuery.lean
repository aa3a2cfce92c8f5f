import PointerQuery.Draft
import PointerQuery.Proofs.AccessLength
import PointerQuery.Proofs.AnswerCoherence
import PointerQuery.Proofs.AnswerText
import PointerQuery.Proofs.AppendOnly
import PointerQuery.Proofs.AssertedAlignment
import PointerQuery.Proofs.CallGraphExact
import PointerQuery.Proofs.CallGraphGrowth
import PointerQuery.Proofs.FactDependence
import PointerQuery.Proofs.FactStore
import PointerQuery.Proofs.KeyNumberGrammar
import PointerQuery.Proofs.KnownAllocation
import PointerQuery.Proofs.LayoutText
import PointerQuery.Proofs.QueryFaults
import PointerQuery.Proofs.Recursion
import PointerQuery.Proofs.RepeatedFields
import PointerQuery.Proofs.SettingsValidity
import PointerQuery.Proofs.StrictReading
import PointerQuery.Proofs.TypeText
import PointerQuery.Registry
