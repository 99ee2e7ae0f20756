import Scinit.Config
import Scinit.Registration
import Scinit.Boot
import Scinit.Invariant
import Scinit.Lifecycle
import Scinit.Attribution
import Scinit.Loading
import Scinit.Counter
import Scinit.Calls
import Scinit.Tracking
import Scinit.Exit
import Scinit.Signals
import Scinit.Wakeup
import Scinit.Attempts
import Scinit.Order
import Scinit.Edges
import Scinit.Declared
import Scinit.Dependency
import Scinit.Precedence
import Scinit.Outcome
import Scinit.Privileges
import Scinit.HostVars
import Scinit.Contents
import Scinit.Whitelist
import Scinit.Output
import Scinit.Chunks
import Scinit.Transcript
import Scinit.Terminals
import Scinit.Users
import Scinit.Shutdown
import Scinit.Progress
import Scinit.Ending
import Scinit.Files
import Scinit.Exec
import Scinit.Confinement
import Scinit.Accounting
import Scinit.Main
import Scinit.Documents
import Scinit.World
import Scinit.Feasible
