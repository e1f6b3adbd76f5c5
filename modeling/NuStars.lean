import NuStars.Core.Run
import NuStars.Core.Loop
import NuStars.Core.Ring
import NuStars.Core.Blocks
import NuStars.Core.LittleEndian
import NuStars.Core.Linear
import NuStars.Core.CString
import NuStars.Core.Rounding
import NuStars.Packet
import NuStars.Ground.Queue
import NuStars.Ground.Receiver
import NuStars.Ground.Line
import NuStars.Ground.Hang
import NuStars.Ground.Sound
import NuStars.Ground.Framing
import NuStars.Ground.Capacity
import NuStars.Ground.Resync
import NuStars.Avionics.Packing
import NuStars.Avionics.Flight
import NuStars.Avionics.Radio
import NuStars.Avionics.Flash
import NuStars.Avionics.Log
import NuStars.Avionics.Deployment
import NuStars.Avionics.FailedOpen
import NuStars.Avionics.FireOnce
import NuStars.Avionics.Pass
import NuStars.Avionics.Channels
import NuStars.Avionics.MaxAcc
import NuStars.Parser.Decode
import NuStars.Parser.Match
import NuStars.Parser.Frames
import NuStars.Kalman.Filter
import NuStars.Kalman.Covariance
import NuStars.Kalman.Textbook
import NuStars.Kalman.Tracking
import NuStars.Kalman.Superposition
import NuStars.Kalman.Window
import NuStars.Avionics.Copies
import NuStars.Radio.Driver
import NuStars.Radio.Station
import NuStars.Telemetry.Entries
import NuStars.Avionics.Boot
import NuStars.Parser.FlashLog
import NuStars.Kalman.Optimal
import NuStars.Gps.Accuracy
