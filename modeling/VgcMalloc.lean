import VgcMalloc.Guarantees.Tiling
import VgcMalloc.Guarantees.Guards
import VgcMalloc.Guarantees.Mmaps
import VgcMalloc.Guarantees.Refusals
import VgcMalloc.Guarantees.Exhaustion
import VgcMalloc.Guarantees.Pointers
import VgcMalloc.Guarantees.Recovery
import VgcMalloc.Guarantees.Distribution
import VgcMalloc.Guarantees.Alignment
import VgcMalloc.Guarantees.Checks
import VgcMalloc.Guarantees.Rollback
import VgcMalloc.Guarantees.Releases
import VgcMalloc.Guarantees.Interruptions
import VgcMalloc.Guarantees.Sessions
import VgcMalloc.Guarantees.Children
import VgcMalloc.Guarantees.Peers
import VgcMalloc.Guarantees.Stacktrace
import VgcMalloc.Guarantees.Response
import VgcMalloc.Guarantees.Sharing
import VgcMalloc.Guarantees.Leaks
import VgcMalloc.Guarantees.Copies
import VgcMalloc.Guarantees.Contents
import VgcMalloc.Guarantees.Progress
import VgcMalloc.Guarantees.Simulation
import VgcMalloc.Guarantees.Isolation
import VgcMalloc.Guarantees.Linear
import VgcMalloc.Guarantees.Capacity
import VgcMalloc.Guarantees.Standstill
import VgcMalloc.Guarantees.Deadlock
import VgcMalloc.Guarantees.Debug
