import PolishCalc.Bench
import PolishCalc.Generator
import PolishCalc.Main
import PolishCalc.Service
import PolishCalc.Proofs.TokenForm
import PolishCalc.Proofs.StackValue
import PolishCalc.Proofs.Reassembly
import PolishCalc.Proofs.StackCode
import PolishCalc.Proofs.Names
import PolishCalc.Proofs.RunEndings
import PolishCalc.Proofs.BackEnds
import PolishCalc.Proofs.Reads
import PolishCalc.Proofs.Unchecked
import PolishCalc.Proofs.RunShape
import PolishCalc.Proofs.LeadingWords
import PolishCalc.Proofs.Disassembly
import PolishCalc.Proofs.RunAnswers
import PolishCalc.Proofs.Reached
import PolishCalc.Proofs.Stops
import PolishCalc.Proofs.RunLimits
import PolishCalc.Proofs.Concatenation
import PolishCalc.Proofs.Histories
import PolishCalc.Proofs.OtherNames
import PolishCalc.Proofs.Mistakes
import PolishCalc.Proofs.OnePass
import PolishCalc.Proofs.InfixForm
import PolishCalc.Proofs.Decompiler
import PolishCalc.Proofs.StackDepth
import PolishCalc.Proofs.CompletedPart
import PolishCalc.Proofs.LineMeanings
import PolishCalc.Proofs.OperandCount
import PolishCalc.Proofs.DefiniteAssignment
import PolishCalc.Proofs.EntryPaths
import PolishCalc.Proofs.CursorCalls
import PolishCalc.Proofs.TreeJson
import PolishCalc.Proofs.Complaints
import PolishCalc.Proofs.ExactArithmetic
import PolishCalc.Proofs.FolderRuns
import PolishCalc.Proofs.Literals
import PolishCalc.Proofs.SampleNumbers
import PolishCalc.Proofs.FirstFailure
