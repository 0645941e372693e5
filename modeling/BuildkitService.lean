import BuildkitService.Archive.Accepted
import BuildkitService.Archive.Written
import BuildkitService.Batch.Accounts
import BuildkitService.Batch.FailureLine
import BuildkitService.Batch.Modes
import BuildkitService.Batch.Outcomes
import BuildkitService.Batch.OutputCapture
import BuildkitService.Batch.Preheat
import BuildkitService.Batch.Resume
import BuildkitService.Batch.Selection
import BuildkitService.Batch.SourceHash
import BuildkitService.Batch.Substitution
import BuildkitService.BatchDaemon.Ownership
import BuildkitService.Daemon.BuildArgs
import BuildkitService.Daemon.Durations
import BuildkitService.Daemon.Failover
import BuildkitService.Daemon.LastBuild
import BuildkitService.Daemon.Modes
import BuildkitService.Daemon.Naming
import BuildkitService.Daemon.Reaper
import BuildkitService.Daemon.RegistryCheck
import BuildkitService.Daemon.Requests
import BuildkitService.Daemon.Shutdown
import BuildkitService.Daemon.SizeAdmission
import BuildkitService.Daemon.TwoFormats
import BuildkitService.Dockerfile.Idempotent
import BuildkitService.GitCache.Collect
import BuildkitService.GitCache.Eviction
import BuildkitService.GitCache.Separation
import BuildkitService.GitCache.SingleFlight
