import ZedSecure.Rtl.AeadEngine
import ZedSecure.Rtl.CompleteTop
import ZedSecure.Proofs.SessionAnswers
import ZedSecure.Proofs.SessionCounters
import ZedSecure.Proofs.RejectedTags
import ZedSecure.Spec.SharedHash
import ZedSecure.Proofs.LinkNonces
import ZedSecure.Proofs.InstallChecked
import ZedSecure.Proofs.InstallOwners
import ZedSecure.Proofs.HandshakeIsolation
import ZedSecure.Proofs.AeadRfc
import ZedSecure.Proofs.SpongeRuns
import ZedSecure.Proofs.HashRuns
import ZedSecure.Proofs.OneChannel
import ZedSecure.Proofs.SchedulerRuns
import ZedSecure.Proofs.HandshakeReports
import ZedSecure.Proofs.NoFalseAlarms
import ZedSecure.Proofs.FreshHandshake
import ZedSecure.Proofs.DriverCalls
import ZedSecure.Proofs.SessionRuns
import ZedSecure.Proofs.UartText
import ZedSecure.Proofs.PolyWidths
import ZedSecure.Proofs.ArbiterRuns
import ZedSecure.Proofs.ManagersAgree
import ZedSecure.Proofs.ConfigLatch
import ZedSecure.Proofs.WindowRuns
import ZedSecure.Proofs.HostReads
import ZedSecure.Proofs.PortTransfers
import ZedSecure.Proofs.Completions
import ZedSecure.Proofs.AddsubRuns
import ZedSecure.Proofs.UnpackRuns
import ZedSecure.Pc.DemoController
import ZedSecure.Proofs.LostSessions
import ZedSecure.Proofs.LostAnswers
import ZedSecure.Proofs.SessionIds
import ZedSecure.Proofs.SampleRuns
import ZedSecure.Proofs.PolyProducts
import ZedSecure.Proofs.KpkeRuns
