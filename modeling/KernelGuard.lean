import KernelGuard.Lib.Run
import KernelGuard.Lib.Bytes
import KernelGuard.Lib.Ring
import KernelGuard.Lib.Lru
import KernelGuard.Lib.StableSort
import KernelGuard.Lib.Verdict
import KernelGuard.Lib.Clusters
import KernelGuard.Lib.Hex
import KernelGuard.Lib.Search
import KernelGuard.Lib.Loops
import KernelGuard.Lib.FirstWins
import KernelGuard.Lib.TokenBucket
import KernelGuard.Lib.Majority
import KernelGuard.Lib.Sweep
import KernelGuard.Lib.TreeWalk
import KernelGuard.Lib.Slots
import KernelGuard.Lib.Sha256
import KernelGuard.Lib.Tokens
import KernelGuard.Lib.Memory
import KernelGuard.Lib.Compact
import KernelGuard.Lib.Rundown
import KernelGuard.Lib.Csv
import KernelGuard.Model.Uapi
import KernelGuard.Model.Guard
import KernelGuard.Model.Comms
import KernelGuard.Model.Posture
import KernelGuard.Model.Drain
import KernelGuard.Model.Seqlock
import KernelGuard.Model.Policy
import KernelGuard.Model.PolicyParse
import KernelGuard.Model.Monitor
import KernelGuard.Model.Poll
import KernelGuard.Model.AckFile
import KernelGuard.Model.Modules
import KernelGuard.Model.Modgate
import KernelGuard.Model.Regions
import KernelGuard.Model.Image
import KernelGuard.Model.Modid
import KernelGuard.Model.Authenticode
import KernelGuard.Model.TextPatch
import KernelGuard.Model.SecureComms
import KernelGuard.Model.PyData
import KernelGuard.Model.LolDrivers
import KernelGuard.Model.DigestTable
import KernelGuard.Model.BlocklistDb
import KernelGuard.Model.Pmu
import KernelGuard.Model.CpuState
import KernelGuard.Model.KbdScan
import KernelGuard.Model.AllowList
import KernelGuard.Model.Uevent
import KernelGuard.Model.PciScan
import KernelGuard.Model.DmaAudit
import KernelGuard.Model.Hmac
import KernelGuard.Model.ModidMem
import KernelGuard.Model.LogWindow
import KernelGuard.Model.LoadGuard
import KernelGuard.Model.GuardUnload
import KernelGuard.Model.SensPages
import KernelGuard.Model.Helpers
import KernelGuard.Model.CsvLog
import KernelGuard.Model.ModidCmd
import KernelGuard.Proofs.Comms
import KernelGuard.Proofs.Guard
import KernelGuard.Proofs.Posture
import KernelGuard.Proofs.Decay
import KernelGuard.Proofs.Response
import KernelGuard.Proofs.Drain
import KernelGuard.Proofs.Writer
import KernelGuard.Proofs.RateLimit
import KernelGuard.Proofs.Seqlock
import KernelGuard.Proofs.Accepted
import KernelGuard.Spec.Tokenizer
import KernelGuard.Proofs.Tokenizer
import KernelGuard.Proofs.AlertList
import KernelGuard.Proofs.PolicyLoad
import KernelGuard.Proofs.Engine
import KernelGuard.Proofs.Remember
import KernelGuard.Proofs.Monitor
import KernelGuard.Proofs.Forged
import KernelGuard.Proofs.Poll
import KernelGuard.Proofs.Modgate
import KernelGuard.Proofs.Modules
import KernelGuard.Proofs.Regions
import KernelGuard.Proofs.Incidents
import KernelGuard.Proofs.Unacked
import KernelGuard.Proofs.Offenders
import KernelGuard.Proofs.AckFile
import KernelGuard.Spec.Episodes
import KernelGuard.Proofs.Refinement
import KernelGuard.Proofs.GateList
import KernelGuard.Proofs.Modinfo
import KernelGuard.Proofs.Modid
import KernelGuard.Spec.Authenticode
import KernelGuard.Proofs.PeHeaders
import KernelGuard.Proofs.Authenticode
import KernelGuard.Proofs.PeFields
import KernelGuard.Proofs.SameDigest
import KernelGuard.Proofs.CertBlob
import KernelGuard.Proofs.Signing
import KernelGuard.Lib.Hoare
import KernelGuard.Proofs.PeBounds
import KernelGuard.Spec.TextPatch
import KernelGuard.Proofs.TextPass
import KernelGuard.Proofs.TextChunks
import KernelGuard.Proofs.TextSite
import KernelGuard.Proofs.Breakpoint
import KernelGuard.Proofs.TextMerge
import KernelGuard.Proofs.TextMergeRun
import KernelGuard.Proofs.SecureComms
import KernelGuard.Proofs.LolTable
import KernelGuard.Proofs.VulnHeader
import KernelGuard.Proofs.DenyList
import KernelGuard.Proofs.BlocklistRows
import KernelGuard.Proofs.Blocklist
import KernelGuard.Proofs.BlocklistTable
import KernelGuard.Proofs.Pmu
import KernelGuard.Proofs.PmuLevels
import KernelGuard.Proofs.PmuVotes
import KernelGuard.Proofs.PmuRate
import KernelGuard.Proofs.PmuCore
import KernelGuard.Proofs.CpuState
import KernelGuard.Proofs.KbdScan
import KernelGuard.Proofs.Uevent
import KernelGuard.Proofs.PciWalk
import KernelGuard.Proofs.PciHonest
import KernelGuard.Proofs.Suspects
import KernelGuard.Proofs.DmaAudit
import KernelGuard.Proofs.PciWire
import KernelGuard.Proofs.Hmac
import KernelGuard.Proofs.ModidMem
import KernelGuard.Proofs.LogWindow
import KernelGuard.Proofs.LoadGuard
import KernelGuard.Proofs.GuardUnload
import KernelGuard.Proofs.PackName
import KernelGuard.Proofs.AllowList
import KernelGuard.Proofs.SensPages
import KernelGuard.Proofs.Helpers
import KernelGuard.Proofs.CsvLog
import KernelGuard.Proofs.ModidCmd
import KernelGuard.Proofs.KbdReports
import KernelGuard.Proofs.ModuleLife
import KernelGuard.Proofs.CleanSystem
