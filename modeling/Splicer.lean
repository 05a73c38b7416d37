import Splicer.SpliceIo
import Splicer.Iteration
import Splicer.Invariant
import Splicer.Safety
import Splicer.Interaction.Positional
import Splicer.Kernel
import Splicer.Stream
import Splicer.Copy
import Splicer.File
import Splicer.Delay
import Splicer.Parking
import Splicer.Target
import Splicer.Readiness
import Splicer.Interaction.Joint
import Splicer.Bidi
import Splicer.Representation
import Splicer.Shutdown
import Splicer.Work
import Splicer.Requests
import Splicer.Reuse
import Splicer.Interaction.Handler
import Splicer.Asks
import Splicer.Delivery
import Splicer.Concurrent
import Splicer.Termination
import Splicer.Wakeup
import Splicer.Backpressure
