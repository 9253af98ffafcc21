import GoSecs.Secs2.Theorems.Limits
import GoSecs.Secs2.Theorems.Clean
import GoSecs.Hsms.Theorems.Select
import GoSecs.Hsms.Theorems.Abort
import GoSecs.Hsms.Theorems.Lifecycle
import GoSecs.Secs1.Theorems.Split
import GoSecs.Secs1.Theorems.Line
import GoSecs.Sml.Theorems.Comments
import GoSecs.Sml.Theorems.Jis8
import GoSecs.Sml.Theorems.ToSml
import GoSecs.Tracepack.Theorems.FooterRoundTrip
import GoSecs.Tracepack.Theorems.Restore
import GoSecs.Tracepack.Theorems.Verify
import GoSecs.Tracepack.Theorems.BusNames
import GoSecs.Secs1.Theorems.Codec
import GoSecs.Hsms.Theorems.Notify
import GoSecs.Hsmsss.Theorems.Frame
import GoSecs.Hsmsss.Theorems.Linktest
import GoSecs.Hsmsss.Theorems.Handshake
import GoSecs.Tracepack.Theorems.Pairing
import GoSecs.Tracepack.Theorems.ZstdFrame
import GoSecs.Tracepack.Theorems.RegistryView
import GoSecs.Tracepack.Theorems.Hours
import GoSecs.Tracepack.Theorems.TxRuns
import GoSecs.Tracepack.Theorems.Classify
import GoSecs.Secs1.Theorems.Progress
import GoSecs.Tracepack.Theorems.Bus
