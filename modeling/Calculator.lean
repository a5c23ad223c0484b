import Calculator.Command.Completion
import Calculator.Expression.Infix
import Calculator.Main
import Calculator.Proofs.Normalization
import Calculator.Proofs.Substitution
import Calculator.Proofs.Balance
import Calculator.Proofs.Spelling
import Calculator.Proofs.Parsing
import Calculator.Proofs.LeadingTerm
import Calculator.Proofs.Rejection
import Calculator.Proofs.ExpressionLine
import Calculator.Proofs.Observation
import Calculator.Proofs.Reports
import Calculator.Proofs.Canonical
import Calculator.Proofs.Chunks
import Calculator.Proofs.Operands
import Calculator.Proofs.Dependence
import Calculator.Proofs.Commutation
import Calculator.Proofs.Renaming
import Calculator.Proofs.RenamedRun
import Calculator.Proofs.Replay
import Calculator.Proofs.Blanks
import Calculator.Proofs.ConsoleRun
import Calculator.Proofs.Derivation
import Calculator.Proofs.HistoryRun
import Calculator.Proofs.Recognition
import Calculator.Proofs.Rewriting
import Calculator.Proofs.Conservation
import Calculator.Proofs.Arrangement
import Calculator.Proofs.Assignment
import Calculator.Proofs.Segmentation
import Calculator.Proofs.Negation
import Calculator.Proofs.Rereading
import Calculator.Proofs.SingleLine
import Calculator.Proofs.LastWriter
import Calculator.Proofs.Completion
import Calculator.Proofs.Waiting
import Calculator.Proofs.Classification
