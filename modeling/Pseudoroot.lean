import Pseudoroot.Library.LinearProbing.Capacity
import Pseudoroot.Library.Codec
import Pseudoroot.Library.Calls.Interleaving
import Pseudoroot.Verification.ShmMap.Refinement
import Pseudoroot.Verification.ShmMap.Tombstones
import Pseudoroot.Verification.ShmMap.Invariant
import Pseudoroot.Verification.ShmMap.Interchange
import Pseudoroot.Verification.ShmMap.FromFd
import Pseudoroot.Verification.ShmMap.Layout
import Pseudoroot.Verification.ShmMap.Writers
import Pseudoroot.Verification.Session.Coherence
import Pseudoroot.Verification.Session.Concurrency
import Pseudoroot.Verification.Session.Credentials
import Pseudoroot.Verification.Session.Startup
import Pseudoroot.Verification.Session.Environment
import Pseudoroot.Verification.Session.Identity
import Pseudoroot.Verification.Session.OwnerRun
import Pseudoroot.Verification.Session.Overflow
import Pseudoroot.Verification.Session.Overlays
import Pseudoroot.Verification.Channel.Answers
import Pseudoroot.Verification.Files.StaleEntries
import Pseudoroot.Verification.Files.KeptEntries
import Pseudoroot.Verification.Files.Modes
import Pseudoroot.Verification.Files.XattrList
import Pseudoroot.Verification.Daemon.Server
import Pseudoroot.Verification.Daemon.Client
import Pseudoroot.Verification.Daemon.Break
import Pseudoroot.Verification.Daemon.CurrentIds
import Pseudoroot.Verification.Daemon.Linearization
import Pseudoroot.Verification.ShmMap.ObjectBytes
import Pseudoroot.Verification.ShmMap.WholeReads
import Pseudoroot.Verification.Session.Generations
import Pseudoroot.Verification.Session.Extraction
