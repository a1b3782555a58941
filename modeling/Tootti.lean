import Tootti.Machine.Run
import Tootti.Machine.Register
import Tootti.Machine.Keyed
import Tootti.Machine.Collection
import Tootti.Machine.Barrier
import Tootti.Machine.Shared
import Tootti.Model.Audio
import Tootti.Model.Session
import Tootti.Model.Phone
import Tootti.Model.Join
import Tootti.Model.RecordingScreen
import Tootti.Model.Process
import Tootti.Sync.Roster
import Tootti.Sync.Tracks
import Tootti.Recording.Screen
import Tootti.Recording.Guest
import Tootti.Recording.HostFlag
import Tootti.Recording.Takes
import Tootti.Recording.Retained
import Tootti.Recording.Release
import Tootti.Recording.Objects
import Tootti.Recording.Rosters
import Tootti.Recording.Leaks
import Tootti.Storage.Tracks
import Tootti.Storage.Mixes
import Tootti.Storage.Library
import Tootti.Storage.Uploads
import Tootti.Sync.ClickTrack
import Tootti.Sync.Readers
import Tootti.Membership.Current
import Tootti.Membership.FailedJoin
import Tootti.Membership.Names
import Tootti.Membership.Joinable
import Tootti.Membership.JoinedSessions
import Tootti.Membership.Devices
import Tootti.Sync.Operations
import Tootti.Recording.Returning
import Tootti.Merge.Rows
import Tootti.Merge.Entries
import Tootti.Merge.Failures
import Tootti.Merge.Mix
import Tootti.Merge.HostOnly
import Tootti.Storage.Compensation
import Tootti.Machine.Selection
import Tootti.Merge.Highlight
import Tootti.Machine.Loop
import Tootti.Waveform.Chunks
import Tootti.Machine.Rounding
import Tootti.Waveform.Pointer
import Tootti.Waveform.Samples
import Tootti.Waveform.Windows
import Tootti.Waveform.Points
import Tootti.Membership.PastSessions
import Tootti.Membership.SameJoin
import Tootti.Merge.Playback
import Tootti.Merge.Refreshes
import Tootti.Waveform.Reader
import Tootti.Sync.Deletions
import Tootti.Waveform.WaveView
import Tootti.Machine.Inbox
import Tootti.Recording.Together
import Tootti.Sync.Agreement
import Tootti.Sync.TrackLists
import Tootti.Model.Accounts
import Tootti.Membership.Identity
import Tootti.Storage.Delivery
import Tootti.Machine.Decimal
import Tootti.Waveform.Ruler
import Tootti.Recording.Timer
import Tootti.Machine.Requests
import Tootti.System.Traffic
import Tootti.System.References
import Tootti.System.Joins
import Tootti.System.Objects
import Tootti.Machine.Components
import Tootti.Storage.Paths
import Tootti.Merge.Buttons
import Tootti.Machine.Budget
import Tootti.System.Calls
import Tootti.Machine.Told
import Tootti.System.Access
import Tootti.System.Lists
