import Himitsu.Secrets.DotenvRoundTrip
import Himitsu.Secrets.JsonRoundTrip
import Himitsu.Secrets.AuditTrail
import Himitsu.Secrets.ShellExport
import Himitsu.Imports.DotenvRejection
import Himitsu.Audit.Paging
import Himitsu.Client.Retry
import Himitsu.Crypto.KeyCacheSafety
import Himitsu.Crypto.KeyFailure
import Himitsu.Crypto.ContextBinding
import Himitsu.Api.PoolUse
import Himitsu.Auth.Throttle
import Himitsu.Auth.AddressThrottle
import Himitsu.Consistency.Matrix
import Himitsu.Operator.Sync
import Himitsu.Operator.Drift
import Himitsu.Operator.DotenvTemplate
import Himitsu.Operator.MergePolicy
import Himitsu.Operator.PolicyHistory
import Himitsu.Operator.Ownership
import Himitsu.Lifecycle.Limit
import Himitsu.Lifecycle.LastEnvironment
import Himitsu.Protection.ProtectedEnvironments
import Himitsu.Tenancy.InvitationProtocol
import Himitsu.Tenancy.Members
import Himitsu.Action.CommandFiles
import Himitsu.Action.Masking
import Himitsu.Terraform.Resources
import Himitsu.Projects.Outcomes
import Himitsu.Library.Commits
import Himitsu.Secrets.VersionWrites
import Himitsu.Audit.Export
import Himitsu.Api.RateLimit
import Himitsu.Api.RuntimeConfig
import Himitsu.Secrets.ImportPreview
import Himitsu.Secrets.PromotionOverlay
import Himitsu.Client.Listing
import Himitsu.Api.Confinement
import Himitsu.Api.KeyHolders
