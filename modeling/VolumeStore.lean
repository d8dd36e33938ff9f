import VolumeStore.Client.Files
import VolumeStore.Client.Scripted
import VolumeStore.Host.Actions
import VolumeStore.Server.Network
import VolumeStore.Session.Execute
import VolumeStore.Settings.Load
import VolumeStore.Proofs.Host.TreeView
import VolumeStore.Proofs.Host.WellFormed
import VolumeStore.Proofs.Host.Lookup
import VolumeStore.Proofs.Host.Way
import VolumeStore.Proofs.Host.MakeDirectories
import VolumeStore.Proofs.Text.Ascii
import VolumeStore.Proofs.Text.Fields
import VolumeStore.Proofs.Volume.Written
import VolumeStore.Proofs.Volume.Spelling
import VolumeStore.Proofs.Volume.HostPath
import VolumeStore.Proofs.Volume.Confined
import VolumeStore.Proofs.Host.FileChanges
import VolumeStore.Proofs.Host.LinkFree
import VolumeStore.Proofs.Host.Mirror
import VolumeStore.Proofs.Host.MirrorCalls
import VolumeStore.Proofs.Volume.Steps
import VolumeStore.Proofs.Volume.Seated
import VolumeStore.Proofs.Volume.Effects
import VolumeStore.Proofs.Volume.Twins
import VolumeStore.Proofs.Volume.Placement
import VolumeStore.Proofs.Volume.Locality
import VolumeStore.Proofs.Volume.Containment
import VolumeStore.Proofs.Volume.RootKept
import VolumeStore.Proofs.Volume.Addressable
import VolumeStore.Proofs.Volume.Refusals
import VolumeStore.Proofs.Session.Atomicity
import VolumeStore.Proofs.Session.Confinement
import VolumeStore.Proofs.Session.Locality
import VolumeStore.Proofs.Session.Isolation
import VolumeStore.Proofs.Session.Addressable
import VolumeStore.Proofs.Server.Framing
import VolumeStore.Proofs.Server.Refinement
import VolumeStore.Proofs.Text.Cut
import VolumeStore.Proofs.Text.Numerals
import VolumeStore.Proofs.Wire.AnnouncedLengths
import VolumeStore.Proofs.Server.RefusedLines
import VolumeStore.Proofs.Server.SkippedPayloads
import VolumeStore.Proofs.Text.LineEnd
import VolumeStore.Proofs.Wire.RequestLines
import VolumeStore.Proofs.Client.Requests
import VolumeStore.Proofs.Client.Calls
import VolumeStore.Proofs.Text.Words
import VolumeStore.Proofs.Wire.ReplyLines
import VolumeStore.Proofs.Client.Responses
import VolumeStore.Proofs.Client.Refusals
import VolumeStore.Proofs.Client.ForeignReplies
import VolumeStore.Proofs.Session.Steps
import VolumeStore.Proofs.Session.Descriptors
import VolumeStore.Proofs.Server.PendingRename
import VolumeStore.Proofs.Server.Places
import VolumeStore.Proofs.Session.MountGate
import VolumeStore.Proofs.Server.ClientLimit
import VolumeStore.Proofs.Server.FreedPlaces
import VolumeStore.Proofs.Server.HubRuns
import VolumeStore.Proofs.Host.StoredFiles
import VolumeStore.Proofs.Host.FileBytes
import VolumeStore.Proofs.Volume.StoredFiles
import VolumeStore.Proofs.Session.OpenFiles
import VolumeStore.Proofs.Server.LineLimit
import VolumeStore.Proofs.Server.RunningHub
import VolumeStore.Proofs.Server.Deliveries
import VolumeStore.Proofs.Client.Linked
import VolumeStore.Proofs.Session.Transfers
import VolumeStore.Proofs.Client.Write
import VolumeStore.Proofs.Client.Read
import VolumeStore.Proofs.Volume.Appends
import VolumeStore.Proofs.Volume.FileContents
import VolumeStore.Proofs.Session.AppendedFiles
import VolumeStore.Proofs.Client.AppendRequests
import VolumeStore.Proofs.Client.Append
import VolumeStore.Proofs.Client.SideBySide
import VolumeStore.Proofs.Client.AppendTogether
import VolumeStore.Proofs.Client.Streams
import VolumeStore.Proofs.Client.Batches
import VolumeStore.Proofs.Client.Pieces
import VolumeStore.Proofs.Client.CheckedPaths
import VolumeStore.Proofs.Volume.Creation
import VolumeStore.Proofs.Volume.Plain
import VolumeStore.Proofs.Volume.Parts
import VolumeStore.Proofs.Volume.Parents
import VolumeStore.Proofs.Volume.NewDirectories
import VolumeStore.Proofs.Volume.Renaming
import VolumeStore.Proofs.Volume.Removal
import VolumeStore.Proofs.Volume.CutOff
import VolumeStore.Proofs.Volume.NamedRefusals
import VolumeStore.Proofs.Volume.LocalErrors
import VolumeStore.Proofs.Text.Order
import VolumeStore.Proofs.Volume.Listing
import VolumeStore.Proofs.Client.Listing
import VolumeStore.Proofs.Record.StatRecords
import VolumeStore.Proofs.Client.Stat
import VolumeStore.Proofs.Decimal.Nearest
import VolumeStore.Proofs.Settings.Loading
import VolumeStore.Proofs.Host.OutsideActions
