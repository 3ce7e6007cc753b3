import Reckoner.Batch
import Reckoner.Calculator.Reading
import Reckoner.Calculator.Session
import Reckoner.Calculator.Store
import Reckoner.Command.Run
import Reckoner.Function.Standard
import Reckoner.Main
import Reckoner.Reduction.Engine
import Reckoner.Table.Csv
import Reckoner.Table.Layout
import Reckoner.Tokenizer.Tokenize
import Reckoner.Proofs.Matching
import Reckoner.Proofs.Leftmost
import Reckoner.Proofs.StandardRules
import Reckoner.Proofs.NumberLine
import Reckoner.Proofs.Comparisons
import Reckoner.Proofs.Statements
import Reckoner.Proofs.Contraction
import Reckoner.Proofs.Potential
import Reckoner.Proofs.OrdinaryFailures
import Reckoner.Proofs.Progress
import Reckoner.Proofs.Termination
import Reckoner.Proofs.Unfolding
import Reckoner.Proofs.Sites
import Reckoner.Proofs.Joining
import Reckoner.Proofs.Brackets
import Reckoner.Proofs.Levels
import Reckoner.Proofs.Chains
import Reckoner.Proofs.Arithmetic
import Reckoner.Proofs.Surplus
import Reckoner.Proofs.Binding
import Reckoner.Proofs.Choices
import Reckoner.Proofs.Conditions
import Reckoner.Proofs.Rewriting
import Reckoner.Proofs.Nesting
import Reckoner.Proofs.Limits
import Reckoner.Proofs.LowerCase
import Reckoner.Proofs.Registration
import Reckoner.Proofs.SingleCalls
import Reckoner.Proofs.RegistrationHistory
import Reckoner.Proofs.RegistrationOrder
import Reckoner.Proofs.UserCalls
import Reckoner.Proofs.SignedSums
import Reckoner.Proofs.Letters
import Reckoner.Proofs.Scanning
import Reckoner.Proofs.Lexemes
import Reckoner.Proofs.RoundedQuotients
import Reckoner.Proofs.NearestDouble
import Reckoner.Proofs.Vocabulary
import Reckoner.Proofs.Seams
import Reckoner.Proofs.Numerals
import Reckoner.Proofs.Words
import Reckoner.Proofs.Sessions
import Reckoner.Proofs.Clauses
import Reckoner.Proofs.ClauseReduction
import Reckoner.Proofs.ComparisonChains
import Reckoner.Proofs.LineEnds
import Reckoner.Proofs.NegatedOperands
import Reckoner.Proofs.Rows
import Reckoner.Proofs.ArgumentLists
import Reckoner.Proofs.VariadicCalls
import Reckoner.Proofs.FixedCalls
import Reckoner.Proofs.TableOrder
import Reckoner.Proofs.Assignments
import Reckoner.Proofs.Tiling
import Reckoner.Proofs.LetterCase
import Reckoner.Proofs.FailureKinds
import Reckoner.Proofs.Batches
import Reckoner.Proofs.RunModes
import Reckoner.Proofs.CalledNames
import Reckoner.Proofs.UnboundVariables
import Reckoner.Proofs.GreedyMatching
import Reckoner.Proofs.Dispatch
import Reckoner.Proofs.LongestRuns
import Reckoner.Proofs.LongIntegers
import Reckoner.Proofs.ContractionEffects
import Reckoner.Proofs.StoredValues
import Reckoner.Proofs.BindingTexts
