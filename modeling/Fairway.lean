import Fairway.Command.Workspace
import Fairway.Main
import Fairway.Proofs.Balance.Affinity
import Fairway.Proofs.Balance.Bounds
import Fairway.Proofs.Balance.Cycle
import Fairway.Proofs.Balance.Identity
import Fairway.Proofs.Balance.Requests
import Fairway.Proofs.Failover.Streams
import Fairway.Proofs.Failover.Takeover
import Fairway.Proofs.Registry.Directory
import Fairway.Proofs.Registry.Lapses
import Fairway.Proofs.Registry.Neighbours
import Fairway.Proofs.Registry.Revocation
import Fairway.Proofs.Registry.Withdrawal
import Fairway.Proofs.Resolver.Rounds
import Fairway.Proofs.Store.Prefixes
import Fairway.Proofs.Store.Journal
import Fairway.Proofs.Store.Reception
import Fairway.Text.Quoted
import Fairway.Proofs.Balance.Fairness
import Fairway.Proofs.Balance.Enlistment
import Fairway.Proofs.Balance.Repetition
import Fairway.Proofs.Balance.Insertion
import Fairway.Proofs.Registry.Lifetimes
import Fairway.Proofs.Failover.Claims
import Fairway.Proofs.Registry.Cleanup
import Fairway.Proofs.Registry.Notices
import Fairway.Proofs.Failover.Rivals
import Fairway.Proofs.Json.Forms
import Fairway.Proofs.Deployment.Rounds
import Fairway.Proofs.Deployment.Settling
import Fairway.Proofs.Deployment.Closing
import Fairway.Proofs.Resolver.Exchanges
import Fairway.Proofs.Resolver.Sessions
import Fairway.Proofs.Resolver.Outcomes
import Fairway.Proofs.Resolver.Surroundings
import Fairway.Proofs.Resolver.Seats
import Fairway.Proofs.Resolver.Errands
import Fairway.Proofs.Text.Cuts
import Fairway.Proofs.Target
import Fairway.Proofs.Toml.Texts
import Fairway.Proofs.Toml.Documents
import Fairway.Proofs.Config
