import Abrio.Answers
import Abrio.Backoff
import Abrio.BatchEquivalence
import Abrio.BatchRaces
import Abrio.Budgets
import Abrio.ClaimRuns
import Abrio.Deadline
import Abrio.Deadlocks
import Abrio.DeclaredErrors
import Abrio.Draining
import Abrio.Escrow
import Abrio.Expiry
import Abrio.Gauges
import Abrio.Isolation
import Abrio.Ledger
import Abrio.Pages
import Abrio.PaymentMonitor
import Abrio.Prices
import Abrio.Providers
import Abrio.Publications
import Abrio.RelayClaims
import Abrio.RelayLoop
import Abrio.RequestIds
import Abrio.RowShapes
import Abrio.TimeLimits
import Abrio.UserBuckets
import Abrio.Waiting
import Abrio.Zeroing
