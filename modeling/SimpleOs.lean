import SimpleOs.Device.IdeCommands
import SimpleOs.Device.PartLayout
import SimpleOs.Fs.Init
import SimpleOs.Fs.Fd.Checked
import SimpleOs.Fs.Fd.Pipes
import SimpleOs.Fs.Fd.Writers
import SimpleOs.Thread.Pids
import SimpleOs.Thread.Semaphore
import SimpleOs.Thread.Lock
import SimpleOs.Device.IoqueueWait
import SimpleOs.Device.Pipe
import SimpleOs.Device.Console
import SimpleOs.Thread.Zombies
import SimpleOs.Mem.SegmentLoad
import SimpleOs.Mem.PoolLayout
import SimpleOs.Mem.HeapConserve
import SimpleOs.Mem.FailedPages
import SimpleOs.Mem.DirSafety
import SimpleOs.Fs.Path.NameLength
import SimpleOs.Fs.Path.Named
import SimpleOs.Fs.Path.OpenTrace
import SimpleOs.Fs.InodeBuffers
import SimpleOs.Fs.Dir.LastEntry
import SimpleOs.Fs.Dir.Size
import SimpleOs.Fs.File.Within
import SimpleOs.Fs.File.Deliver
import SimpleOs.Shell.Readline
import SimpleOs.Shell.CmdParse
