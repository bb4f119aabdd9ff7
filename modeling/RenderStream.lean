import RenderStream.Main
import RenderStream.Proofs.Attempt
import RenderStream.Proofs.Batch
import RenderStream.Proofs.SlotCache
import RenderStream.Proofs.Encoding
import RenderStream.Proofs.Culling
import RenderStream.Proofs.Requests
import RenderStream.Proofs.Upstream
import RenderStream.Proofs.Afresh
import RenderStream.Proofs.Run
import RenderStream.Proofs.Transparent
import RenderStream.Proofs.Reference
import RenderStream.Proofs.PassThrough
import RenderStream.Proofs.Governor
import RenderStream.Proofs.Isolation
import RenderStream.Proofs.Lockstep
import RenderStream.Proofs.Keys
import RenderStream.Proofs.LastWritten
import RenderStream.Proofs.Ladder
import RenderStream.Proofs.Adaptation
import RenderStream.Proofs.Flow
import RenderStream.Proofs.Coherence
import RenderStream.Proofs.Recency
import RenderStream.Proofs.Course
import RenderStream.Proofs.Ending
import RenderStream.Proofs.Profiles
import RenderStream.Proofs.Escalation
import RenderStream.Proofs.Tally
import RenderStream.Proofs.Accounts
import RenderStream.Proofs.Conservation
import RenderStream.Proofs.Counts
import RenderStream.Proofs.Fallback
import RenderStream.Proofs.Forcing
import RenderStream.Proofs.Rounding
import RenderStream.Proofs.Visible
import RenderStream.Proofs.Nesting
import RenderStream.Proofs.Mapping
import RenderStream.Proofs.Ahead
import RenderStream.Proofs.Repair
import RenderStream.Proofs.Share
import RenderStream.Proofs.Overrides
import RenderStream.Proofs.Window
import RenderStream.Proofs.Coverage
import RenderStream.Proofs.Shutdown
import RenderStream.Proofs.Facing
import RenderStream.Proofs.Rates
import RenderStream.Proofs.Roundtrip
