import Patchbay.Main
import Patchbay.Palette
import Patchbay.Store.Disk
import Patchbay.Proofs.Patch.Wiring
import Patchbay.Proofs.Session.Accounts
import Patchbay.Proofs.Session.Failure
import Patchbay.Proofs.Session.Fades
import Patchbay.Proofs.Session.Lives
import Patchbay.Proofs.Session.Origin
import Patchbay.Proofs.Session.Committed
import Patchbay.Proofs.Session.InPlace
import Patchbay.Proofs.Session.Waiting
import Patchbay.Proofs.Patch.Atomic
import Patchbay.Proofs.Document.Import
import Patchbay.Proofs.Document.Panel
import Patchbay.Proofs.Document.RoundTrip
import Patchbay.Proofs.Document.Saved
import Patchbay.Proofs.Patch.Places
import Patchbay.Proofs.Patch.Rising
import Patchbay.Proofs.Program.Agreement
import Patchbay.Proofs.Program.Bodies
import Patchbay.Proofs.Program.Driven
import Patchbay.Proofs.Program.Numbers
import Patchbay.Proofs.Program.Renaming
import Patchbay.Proofs.Program.Sources
import Patchbay.Proofs.Patch.Hidden
import Patchbay.Proofs.Patch.Knobs
import Patchbay.Proofs.Patch.Relocation
import Patchbay.Proofs.Keyboard.Console
import Patchbay.Proofs.Keyboard.Registered
import Patchbay.Proofs.Keyboard.Stages
import Patchbay.Proofs.Sums.Frequency
import Patchbay.Proofs.Sums.Inputs
import Patchbay.Proofs.Graph.Effects
import Patchbay.Proofs.Graph.Naming
import Patchbay.Proofs.Timeline.Bounds
import Patchbay.Proofs.Timeline.Exponential
import Patchbay.Proofs.Timeline.Holding
import Patchbay.Proofs.Timeline.Stable
import Patchbay.Proofs.Timeline.Straight
import Patchbay.Proofs.Noise.Length
import Patchbay.Proofs.Noise.Samples
import Patchbay.Proofs.Noise.States
import Patchbay.Proofs.Settings.RoundTrip
import Patchbay.Proofs.Command.Copies
