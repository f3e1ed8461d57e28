import LinearCongruences.Main
import LinearCongruences.Solution
import LinearCongruences.CommandLine
import LinearCongruences.Proofs.Prime
import LinearCongruences.Proofs.Inverse
import LinearCongruences.Proofs.Entries
import LinearCongruences.Proofs.Congruences
import LinearCongruences.Proofs.RowOperations
import LinearCongruences.Proofs.Elimination
import LinearCongruences.Proofs.Resolution
import LinearCongruences.Proofs.Classification
import LinearCongruences.Proofs.Relations
import LinearCongruences.Proofs.Acceptance
import LinearCongruences.Proofs.Assignment
import LinearCongruences.Proofs.SolutionSet
import LinearCongruences.Proofs.Verdicts
import LinearCongruences.Proofs.Constants
import LinearCongruences.Proofs.Preservation
import LinearCongruences.Proofs.SameSolutions
import LinearCongruences.Proofs.FamilyShape
import LinearCongruences.Proofs.Rearrangement
import LinearCongruences.Session
import LinearCongruences.Proofs.BackSubstitution
import LinearCongruences.Proofs.RearrangedAnswers
import LinearCongruences.Proofs.Sessions
import LinearCongruences.Proofs.Truthfulness
import LinearCongruences.Proofs.Construction
import LinearCongruences.Proofs.Reset
import LinearCongruences.Proofs.Safety
import LinearCongruences.Proofs.Document.SystemFiles
import LinearCongruences.Proofs.Document.Reports
import LinearCongruences.Proofs.RowSpace
import LinearCongruences.Proofs.Repetition
import LinearCongruences.Proofs.Divisions
import LinearCongruences.Proofs.Json.Sizes
import LinearCongruences.Proofs.CommandLine
import LinearCongruences.Proofs.ExactInverses
import LinearCongruences.Proofs.InverseTables
import LinearCongruences.Proofs.RefusedDivisions
import LinearCongruences.Proofs.Document.Recovery
import LinearCongruences.Proofs.Cancellation
import LinearCongruences.Proofs.ExactResidues
