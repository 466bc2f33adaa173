import OtaBridge.Logic.Substring
import OtaBridge.Logic.Words
import OtaBridge.Logic.CrashHoare
import OtaBridge.Logic.Simulation
import OtaBridge.Logic.Journal
import OtaBridge.Logic.Systems
import OtaBridge.Logic.Paths
import OtaBridge.Text
import OtaBridge.Apply.Slots
import OtaBridge.Apply.Error
import OtaBridge.Apply.Args
import OtaBridge.Apply.BootConfig
import OtaBridge.Apply.Alternation
import OtaBridge.Apply.Rewrite
import OtaBridge.Apply.Disk
import OtaBridge.Apply.System
import OtaBridge.Apply.Copy
import OtaBridge.Apply.Stages
import OtaBridge.Apply.Course
import OtaBridge.Apply.Layout
import OtaBridge.Apply.KernelRoot
import OtaBridge.Apply.Validation
import OtaBridge.Apply.History
import OtaBridge.Apply.Crash
import OtaBridge.Transfer.Number
import OtaBridge.Transfer.Update
import OtaBridge.Transfer.Receiver
import OtaBridge.Logic.Chunks
import OtaBridge.Transfer.Sender
import OtaBridge.Transfer.Marker
import OtaBridge.Transfer.Broadcast
import OtaBridge.Transfer.Progress
import OtaBridge.Transfer.Lossless
import OtaBridge.Transfer.Client
import OtaBridge.Transfer.Numeral
import OtaBridge.Apply.Grammar
import OtaBridge.Apply.Windows
import OtaBridge.Apply.Schedule
import OtaBridge.Apply.Announce
import OtaBridge.Apply.Outage
import OtaBridge.Apply.Status
import OtaBridge.Apply.Preflight
import OtaBridge.Apply.Frame
import OtaBridge.Apply.Rounds
import OtaBridge.Transfer.Completion
import OtaBridge.Transfer.Agreement
import OtaBridge.Transfer.Files
import OtaBridge.Transfer.Sessions
import OtaBridge.Runtime.Watch
import OtaBridge.Runtime.Channel
import OtaBridge.Runtime.Errors
import OtaBridge.Rollout
