import Linux011.PipeFaults
import Linux011.TaskMemory
import Linux011.WaitQueue
import Linux011.Scheduler
import Linux011.RequestQueue
import Linux011.InodeLocks
import Linux011.BufferHeads
import Linux011.SyncRuns
import Linux011.ConsoleScrolling
import Linux011.Parenthood
import Linux011.SuperImages
import Linux011.ForkRuns
import Linux011.Floppy
import Linux011.FsOpens
import Linux011.TerminatorCount
import Linux011.AufsAccounting
import Linux011.AufsRemount
import Linux011.AccessChecks
import Linux011.FileOffsets
import Linux011.MinixDirectory
import Linux011.AufsRelocation
import Linux011.AufsRename
import Linux011.MkdirTraces
import Linux011.ProcessIds
import Linux011.Kill
import Linux011.Timers
import Linux011.HardDiskSectors
import Linux011.ExecScripts
import Linux011.BufferLinks
import Linux011.BootTime
import Linux011.ConsoleCursor
import Linux011.TtyAlarm
import Linux011.FormatStrings
import Linux011.LineEditor
import Linux011.ExecPages
import Linux011.ReadAhead
import Linux011.MallocRuns
import Linux011.FileViews
import Linux011.FileRuns
