import Gebr.Flow.RevisionTree
import Gebr.Flow.RevisionRemove
import Gebr.Flow.RemovalInStep
import Gebr.Daemon.Output
import Gebr.Daemon.OutputKept
import Gebr.Maestro.Job
import Gebr.Maestro.JobAggregation
import Gebr.Maestro.JobRuns
import Gebr.Comm.Server
import Gebr.Comm.ServerRuns
import Gebr.Maestro.App
import Gebr.Maestro.RunQueue
import Gebr.Maestro.Children
import Gebr.Maestro.ChildrenRuns
import Gebr.Lib.DefinedFirst
import Gebr.Maestro.Announce
import Gebr.Maestro.AnnounceRuns
import Gebr.Flow.LoopDivision
import Gebr.Comm.Runner
import Gebr.Comm.RunnerShares
import Gebr.Comm.RunnerDivision
import Gebr.Comm.HttpMsg
import Gebr.Comm.Protocol
import Gebr.Comm.ProtocolParams
import Gebr.Comm.ProtocolSocket
import Gebr.Comm.ProtocolLag
import Gebr.Comm.ProtocolChunks
import Gebr.Comm.ProtocolDrain
import Gebr.Maestro.Proxy
import Gebr.Comm.HttpHeaders
import Gebr.Comm.HttpStream
import Gebr.Comm.Demultiplex
import Gebr.Geoxml.DictSplit
import Gebr.Geoxml.SplitAtomic
import Gebr.Geoxml.ParameterGroup
import Gebr.Geoxml.ParameterTable
import Gebr.Geoxml.ParameterGroupRuns
import Gebr.Validator.Documents
import Gebr.Validator.Described
import Gebr.Validator.DocumentRuns
import Gebr.Maestro.Gebrm
import Gebr.Maestro.TaskAccount
import Gebr.Maestro.TaskCounts
import Gebr.Maestro.Disconnection
import Gebr.Maestro.LiveJobs
import Gebr.Daemon.Client
import Gebr.Auth.UsedOnce
import Gebr.Geoxml.CanonizeDict
import Gebr.Flow.ChainValidate
import Gebr.Flow.FlowTree
import Gebr.Flow.SnapshotRestore
import Gebr.Validator.StringExpr
import Gebr.Validator.TwoParsers
import Gebr.Validator.Dictionaries
import Gebr.Lib.Redirect
import Gebr.Daemon.LoopOutput
import Gebr.Validator.BcOutput
import Gebr.Validator.Evaluate
import Gebr.Validator.ExtractedVars
import Gebr.Daemon.ParseParameters
import Gebr.Daemon.ValidAssembles
import Gebr.Validator.Substitution
import Gebr.Comm.RunnerTotals
import Gebr.Flow.ProportionalN
import Gebr.Daemon.LoopRange
import Gebr.Comm.ProtocolSplit
import Gebr.Comm.ReadTotal
import Gebr.Comm.Uri
import Gebr.Daemon.RangeClamp
import Gebr.Lib.Separated
import Gebr.Comm.MpiFlavours
import Gebr.Interface.QueuesModel
import Gebr.Daemon.BcProgram
import Gebr.Daemon.AssemblyWalks
import Gebr.Daemon.BcIndex
import Gebr.Daemon.IterDependence
import Gebr.Validator.ReferenceCheck
import Gebr.Validator.FailedEdits
import Gebr.Validator.OrderedRuns
import Gebr.Validator.BcReading
import Gebr.Geoxml.FixHeader
import Gebr.Geoxml.VersionSteps
import Gebr.Daemon.QuotedValues
import Gebr.Geoxml.Selection
import Gebr.Geoxml.ExclusiveGroup
import Gebr.Geoxml.ResetToDefault
import Gebr.Lib.Siblings
import Gebr.Geoxml.SequenceMoves
import Gebr.Lib.TextSplit
import Gebr.Geoxml.ListValues
import Gebr.Geoxml.HomePath
import Gebr.Lib.NamedTable
import Gebr.Geoxml.MpiTags
import Gebr.Geoxml.LinePaths
import Gebr.Geoxml.PathList
import Gebr.Geoxml.Tmpl
import Gebr.Lib.PartialSteps
import Gebr.Lib.PrefixRewriting
import Gebr.Geoxml.PathAliases
import Gebr.Geoxml.AliasEnds
import Gebr.Geoxml.RelativisePath
import Gebr.Geoxml.MountPrefix
import Gebr.Geoxml.Bookmarks
import Gebr.Lib.KeyFile
import Gebr.Lib.SeparatedList
import Gebr.Maestro.GroupTags
import Gebr.Maestro.Settings
import Gebr.Maestro.NodeSettings
import Gebr.Maestro.TaskMessages
import Gebr.Interface.JobServers
import Gebr.Flow.DotCode
import Gebr.Flow.ModifyPaths
import Gebr.Comm.PortProvider
import Gebr.Daemon.SysInfo
import Gebr.Validator.TrailingZeros
import Gebr.Validator.CleanString
import Gebr.Comm.MpiContrib
import Gebr.Menu.ValidateCase
import Gebr.Lib.Passes
import Gebr.Lib.Squeeze
import Gebr.Lib.Gaps
import Gebr.Menu.CaseFix
import Gebr.Menu.TextGaps
import Gebr.Menu.FixEnds
import Gebr.Menu.Hotkeys
import Gebr.Menu.ReportAgreement
import Gebr.Menu.MenuFaults
import Gebr.Comm.SshOutput
import Gebr.Comm.SshAnswers
import Gebr.Comm.SshTranscript
import Gebr.Maestro.JobMirror
import Gebr.Maestro.JobMirrorRuns
import Gebr.Flow.OldDictValues
import Gebr.Maestro.ParentFirst
import Gebr.Interface.LogFile
import Gebr.Maestro.DaemonMirror
import Gebr.Json.Generator
import Gebr.Json.Parser
import Gebr.Json.RoundTrip
import Gebr.Comm.JsonContent
import Gebr.Interface.ProjectFiles
import Gebr.Interface.ProjectRuns
