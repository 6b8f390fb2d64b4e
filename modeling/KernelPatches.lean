import KernelPatches.Xvmalloc.Objects
import KernelPatches.Xvmalloc.Search
import KernelPatches.Ramzswap.Statistics
import KernelPatches.Ramzswap.Pages
import KernelPatches.Ramzswap.Exit
import KernelPatches.Aufs.XibFailures
import KernelPatches.Aufs.XibSearch
import KernelPatches.Aufs.TruncMarks
import KernelPatches.Aufs.TestEmpty
import KernelPatches.Aufs.ListingLookup
import KernelPatches.Aufs.ReaddirRuns
import KernelPatches.Aufs.VdirSeek
import KernelPatches.Aufs.VdirAppend
import KernelPatches.Aufs.VdirShwh
import KernelPatches.Aufs.MfsCache
import KernelPatches.Aufs.Export
import KernelPatches.Aufs.ReinitWh
import KernelPatches.Aufs.OptionsBranch
import KernelPatches.Aufs.OptionsRoundTrip
import KernelPatches.Aufs.NewInode
import KernelPatches.Aufs.CpupRevert
import KernelPatches.Aufs.RemoveRevert
import KernelPatches.Aufs.RemoveHidden
import KernelPatches.Aufs.RenameRevert
import KernelPatches.Aufs.RenameFailed
import KernelPatches.Aufs.PolicyChoice
import KernelPatches.Aufs.WhtmpLkup
import KernelPatches.Aufs.CopyExact
import KernelPatches.Aufs.RefreshInode
import KernelPatches.Aufs.CpdownDir
import KernelPatches.Aufs.Setattr
import KernelPatches.Aufs.OpenCounts
import KernelPatches.Cpufreq.GovStop
import KernelPatches.Aufs.WrDirVisible
import KernelPatches.Cpufreq.Vsel
import KernelPatches.Aufs.RevalDpath
import KernelPatches.Aufs.RevalLocks
import KernelPatches.Aufs.LinkLocks
import KernelPatches.Aufs.DecodeFh
import KernelPatches.Aufs.RefreshFile
import KernelPatches.Aufs.HinGen
import KernelPatches.Aufs.Dcsub
import KernelPatches.Aufs.BuildPath
import KernelPatches.Aufs.OptionFlags
import KernelPatches.Aufs.StatfsSum
import KernelPatches.Uloop.Served
import KernelPatches.Uloop.Wakeups
import KernelPatches.Aufs.Fault
import KernelPatches.Aufs.Generations
import KernelPatches.Aufs.Wkq
import KernelPatches.Aufs.Nowait
import KernelPatches.Aufs.PlinkRuns
