import AbstractScript.Analysis.Changes
import AbstractScript.Analysis.CommandLine
import AbstractScript.Main
import AbstractScript.Proofs.Keeps
import AbstractScript.Proofs.Quiet
import AbstractScript.Proofs.Balance
import AbstractScript.Proofs.FrameLaw
import AbstractScript.Proofs.PossibleAssignment
import AbstractScript.Proofs.Soundness
import AbstractScript.Proofs.Lasting
import AbstractScript.Proofs.Located
import AbstractScript.Proofs.Integrity
import AbstractScript.Proofs.Lawful
import AbstractScript.Proofs.Beginning
import AbstractScript.Proofs.IntactReferences
import AbstractScript.Proofs.JumpScope
import AbstractScript.Proofs.SwitchWeakening
import AbstractScript.Proofs.UnvisitedFunctions
import AbstractScript.Proofs.RecreatedFunctions
import AbstractScript.Proofs.DirectPrograms
import AbstractScript.Proofs.LoopWeakening
import AbstractScript.Proofs.PossibleReturn
import AbstractScript.Proofs.CatchParameter
import AbstractScript.Proofs.VariableWeakening
import AbstractScript.Proofs.Chronicle
import AbstractScript.Proofs.EventStream
import AbstractScript.Proofs.ThrowLedger
import AbstractScript.Proofs.WholeNumbers
import AbstractScript.Proofs.SizedArrays
import AbstractScript.Proofs.LoopGivenUp
import AbstractScript.Proofs.Matching
import AbstractScript.Proofs.TokenShape
import AbstractScript.Proofs.LiteralTexts
import AbstractScript.Proofs.TreeBuilding
import AbstractScript.Proofs.MatchingSteps
import AbstractScript.Proofs.NestedSpans
import AbstractScript.Proofs.Gaps
import AbstractScript.Proofs.Precedence
import AbstractScript.Proofs.PrintedPhrases
import AbstractScript.Proofs.HedgedCalls
import AbstractScript.Proofs.HoistedFunctions
import AbstractScript.Proofs.NativeOperands
import AbstractScript.Proofs.OwnProperty
import AbstractScript.Proofs.OrdinaryAssignment
import AbstractScript.Proofs.Freezing
import AbstractScript.Proofs.Reflection
import AbstractScript.Proofs.ResizedArrays
import AbstractScript.Proofs.VisitedFunctions
import AbstractScript.Proofs.Deeds
import AbstractScript.Proofs.NameLoopPlan
import AbstractScript.Proofs.BoundedPasses
import AbstractScript.Proofs.LoopBound
import AbstractScript.Proofs.LoopVisitedOnce
import AbstractScript.Proofs.SwitchPlan
import AbstractScript.Proofs.SwitchTests
import AbstractScript.Proofs.NameDeletion
import AbstractScript.Proofs.EnumeratedNames
import AbstractScript.Proofs.FunctionEntry
import AbstractScript.Proofs.DescribedProperties
import AbstractScript.Proofs.ReachedReturns
import AbstractScript.Proofs.StringProperties
import AbstractScript.Proofs.PushAndPop
import AbstractScript.Proofs.DecimalLiterals
import AbstractScript.Proofs.Oblivious
import AbstractScript.Proofs.ObliviousRules
import AbstractScript.Proofs.Decrement
import AbstractScript.Proofs.WholeWords
import AbstractScript.Proofs.UnicodeEscapes
import AbstractScript.Proofs.NumberText
import AbstractScript.Proofs.NumericStrings
import AbstractScript.Proofs.FirstOccurrence
import AbstractScript.Proofs.DeclaredVariables
import AbstractScript.Proofs.MissingRules
import AbstractScript.Proofs.ClaimedExits
