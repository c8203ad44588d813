import PenguinSync.Lib.Lts
import PenguinSync.Lib.Files
import PenguinSync.Lib.Text
import PenguinSync.Lib.Urlencoded
import PenguinSync.Lib.Keyed
import PenguinSync.Lib.Checked
import PenguinSync.Protocol.Link
import PenguinSync.Protocol.Keepalive
import PenguinSync.Protocol.Addr
import PenguinSync.Protocol.Qr
import PenguinSync.Protocol.Hex
import PenguinSync.Net.Drive
import PenguinSync.Net.RoundTrip
import PenguinSync.Net.Events
import PenguinSync.Net.Reconnect
import PenguinSync.Net.Retries
import PenguinSync.Net.Exchange
import PenguinSync.Net.Duplex
import PenguinSync.Daemon.Identity
import PenguinSync.Daemon.Connected
import PenguinSync.Daemon.Durable
import PenguinSync.Daemon.Clips
import PenguinSync.Daemon.Attribution
import PenguinSync.Daemon.Answers
import PenguinSync.Daemon.Window
import PenguinSync.Daemon.Blocked
import PenguinSync.Daemon.Refused
import PenguinSync.Daemon.Sequential
import PenguinSync.Daemon.Echo
import PenguinSync.Daemon.Convergence
import PenguinSync.Daemon.Unpaired
import PenguinSync.Daemon.Residue
import PenguinSync.Daemon.Progress
import PenguinSync.Daemon.Handed
import PenguinSync.Daemon.Heard
import PenguinSync.Store.Saves
import PenguinSync.Store.Identity
import PenguinSync.Store.Devices
import PenguinSync.Daemon.Books
import PenguinSync.Ffi.Slot
import PenguinSync.Ffi.Teardown
import PenguinSync.Ffi.Peers
import PenguinSync.Ffi.Told
import PenguinSync.Ffi.Sessions
import PenguinSync.Android.Moves
import PenguinSync.Android.Status
import PenguinSync.Android.Notification
import PenguinSync.Sync.World
import PenguinSync.Sync.Lines
import PenguinSync.Sync.Pasted
import PenguinSync.Cli.Refresh
import PenguinSync.Cli.Draw
import PenguinSync.Cli.Selection
import PenguinSync.Cli.Display
import PenguinSync.Cli.Prompts
