import TowerOfHanoi.Position
import TowerOfHanoi.Journal
import TowerOfHanoi.Main
import TowerOfHanoi.Proofs.Accumulator
import TowerOfHanoi.Proofs.LegalWalk
import TowerOfHanoi.Proofs.ShortestPlay
import TowerOfHanoi.Proofs.DiskCountSyntax
import TowerOfHanoi.Proofs.Outcome
import TowerOfHanoi.Proofs.ArgumentSyntax
import TowerOfHanoi.Proofs.Listing
import TowerOfHanoi.Proofs.MoveByNumber
import TowerOfHanoi.Proofs.DiskRounds
import TowerOfHanoi.Proofs.FailingOutput
import TowerOfHanoi.Proofs.LogIndependence
import TowerOfHanoi.Proofs.Symmetry
import TowerOfHanoi.Proofs.Traffic
import TowerOfHanoi.Proofs.RoundTrip
import TowerOfHanoi.Proofs.LogPrecedence
import TowerOfHanoi.Proofs.Rephrasing
