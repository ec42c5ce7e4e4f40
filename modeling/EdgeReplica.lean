import EdgeReplica.Auth.Keyring
import EdgeReplica.Auth.RoundTrip
import EdgeReplica.Middleware.Bearer
import EdgeReplica.Protocol.Frame
import EdgeReplica.Repo.ParityRuns
import EdgeReplica.Services.Accounts
import EdgeReplica.Services.BatchMatch
import EdgeReplica.Services.DatabaseRaces
import EdgeReplica.Services.Expiries
import EdgeReplica.Services.FailedSend
import EdgeReplica.Services.OAuthRaces
import EdgeReplica.Services.OneAccount
import EdgeReplica.Services.PersonalOrgs
import EdgeReplica.Services.PushClaims
import EdgeReplica.Services.SqlTokens
import EdgeReplica.Services.Tenants
import EdgeReplica.Sync.ClaimOrder
import EdgeReplica.Sync.Concurrent
import EdgeReplica.Sync.Fleet
import EdgeReplica.Sync.PullReplica
import EdgeReplica.Sync.Termination
import EdgeReplica.Worker.CallbackPage
import EdgeReplica.Worker.Conversation
import EdgeReplica.Worker.DeployedSession
import EdgeReplica.Worker.DoGate
import EdgeReplica.Worker.Hosted
import EdgeReplica.Worker.PullWrites
import EdgeReplica.Worker.TenantPages
import EdgeReplica.Worker.UrlDecode
import EdgeReplica.Sync.Remote
