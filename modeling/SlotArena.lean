import SlotArena.Proofs.Acceptance
import SlotArena.Proofs.Adding
import SlotArena.Proofs.Aliasing
import SlotArena.Proofs.Conduct
import SlotArena.Proofs.Contents
import SlotArena.Proofs.Counting
import SlotArena.Proofs.Crowding
import SlotArena.Proofs.Exhaustion
import SlotArena.Proofs.FrontOnly
import SlotArena.Proofs.Headroom
import SlotArena.Proofs.Holdings
import SlotArena.Proofs.Lanes
import SlotArena.Proofs.Overflow
import SlotArena.Proofs.Pages
import SlotArena.Proofs.Pieces
import SlotArena.Proofs.Possession
import SlotArena.Proofs.References
import SlotArena.Proofs.Refusals
import SlotArena.Proofs.Restoring
import SlotArena.Proofs.Shape
import SlotArena.Proofs.Shortage
import SlotArena.Proofs.Stacks
import SlotArena.Proofs.Strategies
import SlotArena.Proofs.Teardown
import SlotArena.Proofs.Tenure
import SlotArena.Proofs.Together
import SlotArena.Proofs.World
import SlotArena.Session.Arena
import SlotArena.Session.Chain
import SlotArena.Session.Counter
import SlotArena.Session.Crowd
import SlotArena.Session.Cursor
import SlotArena.Session.Host
import SlotArena.Session.Pools
import SlotArena.Session.Registry
import SlotArena.Session.Roster
import SlotArena.Session.Window
