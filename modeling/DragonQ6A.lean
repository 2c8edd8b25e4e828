import DragonQ6A.Adapter.Specs
import DragonQ6A.Adapter.Revert
import DragonQ6A.Adapter.Onboard
import DragonQ6A.Adapter.StaBinding
import DragonQ6A.Mirror.Keyed
import DragonQ6A.Adapter.Notifications
import DragonQ6A.Adapter.Polls
import DragonQ6A.Mirror.Stretches
import DragonQ6A.Adapter.Insertions
import DragonQ6A.Adapter.Activate
import DragonQ6A.Adapter.PollChain
import DragonQ6A.Image.Gensdimg
import DragonQ6A.Layout.Place
import DragonQ6A.Image.AddPart
import DragonQ6A.Image.Fill
import DragonQ6A.C.Float
import DragonQ6A.Display.ForceMode
import DragonQ6A.C.Scanf
import DragonQ6A.Display.ForceForm
import DragonQ6A.Probe.Table
import DragonQ6A.Qrtr.Map
import DragonQ6A.Qrtr.FiniteMap
import DragonQ6A.Bytes.Little
import DragonQ6A.Calls.Runs
import DragonQ6A.Qrtr.Packet
import DragonQ6A.Qrtr.Ns
import DragonQ6A.Qrtr.NsSpecs
import DragonQ6A.Qrtr.Registry
import DragonQ6A.Mirror.CatchUp
import DragonQ6A.Qrtr.Observers
import DragonQ6A.Qrtr.Agreement
import DragonQ6A.Bytes.Memory
import DragonQ6A.Qmi.Codec
import DragonQ6A.Qmi.Decode
import DragonQ6A.Qmi.Exchange
import DragonQ6A.Qmi.Overrun
import DragonQ6A.Bytes.Footprint
import DragonQ6A.Qmi.Confine
import DragonQ6A.Qrtr.Client
