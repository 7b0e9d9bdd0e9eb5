import SnapList.StampLock.Clients
import SnapList.Retirement.Holder
import SnapList.Slots.Pointwise
import SnapList.Session
import SnapList.Proofs.Search.Linear
import SnapList.Proofs.LiveList.Refinement
import SnapList.Proofs.LiveList.Later
import SnapList.Proofs.Snapshot.Race
import SnapList.Proofs.Snapshot.Freshness
import SnapList.Proofs.Snapshot.Turns
import SnapList.Proofs.Search.Extent
import SnapList.Proofs.LiveList.Opening
import SnapList.Proofs.Search.Crossover
import SnapList.Proofs.LiveList.Reachable
import SnapList.Proofs.LiveList.Alike
import SnapList.Proofs.LiveList.Sights
import SnapList.Proofs.LiveList.Recovery
import SnapList.Proofs.LiveList.Indistinguishable
import SnapList.Proofs.Session.Lists
import SnapList.Proofs.LiveList.Blocks
import SnapList.Proofs.Search.Seat
import SnapList.Proofs.LiveList.SortedIndex
import SnapList.Proofs.LiveList.Turnover
import SnapList.Proofs.LiveList.Growth
import SnapList.Proofs.StampLock.Deeds
import SnapList.Proofs.StampLock.History
import SnapList.Proofs.Retirement.Custody
import SnapList.Proofs.Search.Unordered
import SnapList.Proofs.Search.Straddle
import SnapList.Proofs.LiveList.Presence
import SnapList.Proofs.Slots.Overlap
import SnapList.Proofs.LiveList.Gap
import SnapList.Proofs.Snapshot.Interruption
