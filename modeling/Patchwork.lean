import Patchwork.CallLog
import Patchwork.Http
import Patchwork.Main
import Patchwork.Overview
import Patchwork.Proto.Outline
import Patchwork.Script.World
import Patchwork.Settings.Directory
import Patchwork.Proofs.Acceptance
import Patchwork.Proofs.Bases
import Patchwork.Proofs.CallBound
import Patchwork.Proofs.Catching
import Patchwork.Proofs.Caught
import Patchwork.Proofs.Chains
import Patchwork.Proofs.Conformance
import Patchwork.Proofs.Conservation
import Patchwork.Proofs.Construction
import Patchwork.Proofs.Coverage
import Patchwork.Proofs.Deadlines
import Patchwork.Proofs.Draining
import Patchwork.Proofs.Equivalence
import Patchwork.Proofs.Hops
import Patchwork.Proofs.Independence
import Patchwork.Proofs.Limits
import Patchwork.Proofs.MapOrder
import Patchwork.Proofs.Noninterference
import Patchwork.Proofs.Operations
import Patchwork.Proofs.Partition
import Patchwork.Proofs.RequestTexts
import Patchwork.Proofs.Shadowing
import Patchwork.Proofs.SideEffects
import Patchwork.Proofs.Streams
import Patchwork.Proofs.Transparency
