import Funge.Main
import Funge.Random.Listed
import Funge.Recording
import Funge.Session
import Funge.Trace
import Funge.Checked
import Funge.Proofs.Halting
import Funge.Proofs.Execution
import Funge.Proofs.Simulation
import Funge.Proofs.Unvisited
import Funge.Proofs.PlayfieldHistory
import Funge.Proofs.Effects
import Funge.Proofs.LastWrite
import Funge.Proofs.Bottomless
import Funge.Proofs.Rerun
import Funge.Proofs.Invariant
import Funge.Proofs.PointerBox
import Funge.Proofs.StopOrigin
import Funge.Proofs.Chance
import Funge.Proofs.Faultless
import Funge.Proofs.Journal
import Funge.Proofs.Arithmetic
import Funge.Proofs.StraightLine
import Funge.Proofs.Expressions
import Funge.Proofs.Literals
import Funge.Proofs.Frame
import Funge.Proofs.Arguments
import Funge.Proofs.Invocations
import Funge.Proofs.LatestWrites
import Funge.Proofs.Circling
import Funge.Proofs.LineEnds
import Funge.Proofs.Phrases
import Funge.Proofs.Division
import Funge.Proofs.Growth
import Funge.Proofs.StackEffects
import Funge.Proofs.WrittenLines
