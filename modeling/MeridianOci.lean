import MeridianOci.Data.Catalog
import MeridianOci.Data.JsonOrder
import MeridianOci.Data.Paging
import MeridianOci.Model.Layout
import MeridianOci.Model.Cursor
import MeridianOci.Model.Sample
import MeridianOci.Model.Stream
import MeridianOci.Service.Declared
import MeridianOci.Service.Flaky
import MeridianOci.Service.Latest
import MeridianOci.Service.Agreement
import MeridianOci.Service.Retention
import MeridianOci.Service.Orphans
import MeridianOci.Service.PublishOnce
import MeridianOci.Service.Verification
import MeridianOci.Service.Buffered
import MeridianOci.Service.Expiry
import MeridianOci.Service.Minimum
import MeridianOci.Service.Redirects
import MeridianOci.Service.Closure
import MeridianOci.Service.Codec
import MeridianOci.Service.Assembly
import MeridianOci.Service.Retry
import MeridianOci.Service.Consumption
import MeridianOci.Service.Deletion
import MeridianOci.Service.ListBound
import MeridianOci.Service.Lost
import MeridianOci.Service.Passes
import MeridianOci.Service.Streams
import MeridianOci.Service.Probe
import MeridianOci.Service.Lifetime
import MeridianOci.Service.Relocation
import MeridianOci.Service.Resolution
import MeridianOci.Service.Equivalence
import MeridianOci.Service.Contention
import MeridianOci.Service.Writers
import MeridianOci.Service.ReadBack
import MeridianOci.Service.Beside
import MeridianOci.Service.Rivals
import MeridianOci.Service.Protection
import MeridianOci.Service.Refinement
