import AdbShare.DirPages
import AdbShare.Downloads
import AdbShare.ProxyFile
import AdbShare.Readdir
import AdbShare.LookupCount
import AdbShare.OpenFile
import AdbShare.StatFresh
import AdbShare.ListingFresh
import AdbShare.JobPlaces
import AdbShare.JobStates
import AdbShare.Wakeups
import AdbShare.Completed
import AdbShare.Preserved
import AdbShare.Leftovers
import AdbShare.TreeReport
import AdbShare.TreeBounds
import AdbShare.TreeParents
import AdbShare.Records
import AdbShare.Handshake
import AdbShare.ProxyFraming
import AdbShare.ReaderEnd
import AdbShare.StreamBytes
import AdbShare.OpenCalls
import AdbShare.PoolCapacity
import AdbShare.ReplySize
import AdbShare.Logcat
import AdbShare.QrSessions
import AdbShare.Recordings
import AdbShare.Mountpoints
import AdbShare.Watcher
import AdbShare.IdleWatchdog
import AdbShare.CopyExact
import AdbShare.TreeRequests
import AdbShare.MdnsDiscover
import AdbShare.ManifestReads
import AdbShare.Resources
import AdbShare.TextInput
import AdbShare.Paste
import AdbShare.DebloatView
import AdbShare.BrowserView
import AdbShare.HostPort
import AdbShare.BrokenPackages
import AdbShare.Thumbnails
import AdbShare.LedgerFile
