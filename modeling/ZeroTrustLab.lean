import ZeroTrustLab.Lib.Contract
import ZeroTrustLab.Controller.SubjectName
import ZeroTrustLab.Controller.Serial
import ZeroTrustLab.Controller.Admission
import ZeroTrustLab.Controller.Confinement
import ZeroTrustLab.Controller.Ownership
import ZeroTrustLab.Controller.Race
import ZeroTrustLab.Agent.HttpClient
import ZeroTrustLab.Controller.Conflict
import ZeroTrustLab.Controller.Sequential
import ZeroTrustLab.Controller.Turns
import ZeroTrustLab.Controller.Replay
import ZeroTrustLab.Controller.Containment
import ZeroTrustLab.Lib.Url
import ZeroTrustLab.Controller.Routes
import ZeroTrustLab.Controller.Activation
import ZeroTrustLab.Controller.Ledger
import ZeroTrustLab.Controller.Freshness
import ZeroTrustLab.Agent.PeerName
import ZeroTrustLab.Controller.Readback
import ZeroTrustLab.Lib.Tally
import ZeroTrustLab.Controller.Counters
import ZeroTrustLab.Controller.AuthMetrics
import ZeroTrustLab.Controller.AuditMetrics
import ZeroTrustLab.Controller.SerialText
import ZeroTrustLab.Agent.MetricsServer
import ZeroTrustLab.Controller.Gauges
import ZeroTrustLab.Controller.AuditPages
import ZeroTrustLab.Agent.Heartbeat
import ZeroTrustLab.Agent.CertGuard
import ZeroTrustLab.Lib.Shell
import ZeroTrustLab.Scripts.RenewCerts
import ZeroTrustLab.Lib.UriPath
import ZeroTrustLab.Nginx.FrontDoor
import ZeroTrustLab.Nginx.Behind
import ZeroTrustLab.Controller.Progress
import ZeroTrustLab.Lib.Network
import ZeroTrustLab.Agent.Conduct
import ZeroTrustLab.System.Fleet
import ZeroTrustLab.System.Convergence
import ZeroTrustLab.Lib.Lease
import ZeroTrustLab.Agent.RenewCert
import ZeroTrustLab.Controller.Reading
import ZeroTrustLab.Controller.Numbering
import ZeroTrustLab.Agent.Main
import ZeroTrustLab.Controller.Lifespan
