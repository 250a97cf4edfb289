import SchedulingUtil.InterruptedAppend
import SchedulingUtil.LastRunTruncation
import SchedulingUtil.LastRunLocalTime
import SchedulingUtil.ConcurrentAttempts
import SchedulingUtil.HistoryContent
import SchedulingUtil.HistoryReset
import SchedulingUtil.ScheduleForcedRuns
import SchedulingUtil.ScheduleBusy
import SchedulingUtil.ScheduleCli
import SchedulingUtil.ClickOptions
import SchedulingUtil.ScheduleReports
import SchedulingUtil.ControllerSocketFraming
import SchedulingUtil.ControllerSocket
import SchedulingUtil.ControllerSocketPath
import SchedulingUtil.RunPredicateSnapshot
import SchedulingUtil.RollingWindowPersistence
import SchedulingUtil.RateLimiter
import SchedulingUtil.RepeatTrace
import SchedulingUtil.HistoryQueries
import SchedulingUtil.HistoryBound
import SchedulingUtil.LimiterProtocol
import SchedulingUtil.ControllerResponseSize
import SchedulingUtil.RedactedLog
import SchedulingUtil.SlackRateLimit
import SchedulingUtil.JsonLogFile
import SchedulingUtil.RedactedLogFile
import SchedulingUtil.ScheduleClients
import SchedulingUtil.ScheduleControl
import SchedulingUtil.Lib.Traced
import SchedulingUtil.ScheduleHistory
import SchedulingUtil.ScheduleEnds
import SchedulingUtil.ScheduleHealthCheck
