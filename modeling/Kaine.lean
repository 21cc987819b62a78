import Kaine.Cycle.RatesSafety
import Kaine.Cycle.Pause
import Kaine.Workspace.FeedbackSafety
import Kaine.Lifecycle.MaturationGate
import Kaine.Lifecycle.SleepCountSafety
import Kaine.Lifecycle.MergeFaults
import Kaine.Lifecycle.Spending
import Kaine.Lifecycle.LivedHistorySafety
import Kaine.Lifecycle.ResumeCheckpointerSafety
import Kaine.Lifecycle.StageSafety
import Kaine.Cycle.RestPhasesSafety
import Kaine.Cycle.WelfareAnswerSafety
import Kaine.Cycle.ConsumeSafety
import Kaine.Lifecycle.LivedTimeSafety
import Kaine.Cycle.DivergenceMonitorSafety
import Kaine.Lifecycle.IndividuationStatsSafety
import Kaine.Cycle.SupervisorLadderSafety
import Kaine.Lifecycle.IndicatorHistorySafety
import Kaine.Workspace.ReportPacingSafety
import Kaine.Effectors.StimulusSafety
import Kaine.Sleep.RestRequestSafety
import Kaine.Sleep.StateCycleSafety
import Kaine.EpisodicMemory.RecallSafety
import Kaine.Bus.Broadcast
import Kaine.Persistence.EncryptedJsonlSafety
import Kaine.Lifecycle.ReviveSafety
import Kaine.Cycle.AccessRate
import Kaine.Residency.InflightSafety
import Kaine.Workspace.ProposalOutcomesSafety
import Kaine.Experiment.CompletenessSafety
import Kaine.Cycle.DevelopmentProbesSafety
import Kaine.Vision.PerceptionTransitionSafety
import Kaine.Cycle.TimeScaleSafety
import Kaine.Lifecycle.UnionMerge
import Kaine.Affect.LearningProgressSafety
import Kaine.Affect.RegulationSafety
import Kaine.Affect.DrivesSafety
import Kaine.Affect.GoalsSafety
import Kaine.Cycle.LogicalClock
import Kaine.Lifecycle.SustainedThresholdSafety
import Kaine.EpisodicMemory.LinkCapSafety
import Kaine.Lifecycle.RestScheduler
import Kaine.Remote.AudioStream
import Kaine.Residency.FitSafety
import Kaine.Experiment.SignVerdictSafety
import Kaine.Experiment.HolmBonferroni
import Kaine.Experiment.RdRobustSafety
import Kaine.Experiment.NearestNeighbor
import Kaine.Persistence.SinkRunsSafety
import Kaine.Setup.MergeOwnedSafety
import Kaine.Security.StateKey
import Kaine.Vision.VideoDecoder
import Kaine.Affect.Fatigue
import Kaine.Experiment.PrincipalComponent
import Kaine.Cycle.InconclusiveAlertSafety
import Kaine.Effectors.AuditTampering
import Kaine.Effectors.Provenance
import Kaine.EpisodicMemory.DownscaleSafety
