import Rtl433.Basic
import Rtl433.Envelope
import Rtl433.Filter
import Rtl433.BitPacket
import Rtl433.Demod
import Rtl433.Transmission
import Rtl433.Analyze
import Rtl433.Callback
import Rtl433.Stream
import Rtl433.Bounds
import Rtl433.Decode
import Rtl433.Timing
import Rtl433.Sensor
import Rtl433.Overflow
import Rtl433.Report
import Rtl433.Silence
import Rtl433.Resync
import Rtl433.Session
import Rtl433.Budget
import Rtl433.Getopt
import Rtl433.Options
import Rtl433.Main
