import Shmfx.Janitor.Convergence
import Shmfx.Janitor.Lifecycle
import Shmfx.Lib.Lts
import Shmfx.Lifecycle.Mappings
import Shmfx.Lifecycle.MapsScan
import Shmfx.Lifecycle.PidReuse
import Shmfx.Lifecycle.StartTime
import Shmfx.Logging.Detach
import Shmfx.Logging.FinalDrain
import Shmfx.Logging.Polling
import Shmfx.Logging.Recreation
import Shmfx.Logging.ServiceName
import Shmfx.Logging.Truncation
import Shmfx.Registry.AnyImage
import Shmfx.Registry.Bootstrap
import Shmfx.Registry.CrashAtomic
import Shmfx.Registry.Listed
import Shmfx.Registry.Locking
import Shmfx.Ring.Batch
import Shmfx.Ring.Image
import Shmfx.Ring.Mortality
import Shmfx.Ring.RaceFree
import Shmfx.Ring.Refinement
import Shmfx.Security.Admission
import Shmfx.Security.Digest
import Shmfx.Security.HeaderBytes
import Shmfx.Security.KeyText
import Shmfx.Security.Quota
import Shmfx.Segment.Handshake
import Shmfx.Segment.Publication
