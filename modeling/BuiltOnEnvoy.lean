import BuiltOnEnvoy.AzureContentSafety.Inspection
import BuiltOnEnvoy.Bedrock.Dedup
import BuiltOnEnvoy.Bedrock.MaskingRoundTrip
import BuiltOnEnvoy.Bedrock.Totality
import BuiltOnEnvoy.Cli.ExtensionOrder
import BuiltOnEnvoy.ClusterRouter.Argmin
import BuiltOnEnvoy.ClusterRouter.Convergence
import BuiltOnEnvoy.ClusterRouter.NextHop
import BuiltOnEnvoy.ClusterRouter.Withdrawal
import BuiltOnEnvoy.Dns.AllocationHistory
import BuiltOnEnvoy.Dns.CaseFolding
import BuiltOnEnvoy.Dns.IdleEviction
import BuiltOnEnvoy.Dns.RangeContainment
import BuiltOnEnvoy.Dns.RateLimit
import BuiltOnEnvoy.EnvoyConfig.Terminal
import BuiltOnEnvoy.Extensions.EnvoyVersions
import BuiltOnEnvoy.Extensions.LatestTag
import BuiltOnEnvoy.FaultInjection.Delays
import BuiltOnEnvoy.FaultInjection.FloatPercentiles
import BuiltOnEnvoy.FaultInjection.InFlight
import BuiltOnEnvoy.FileServer.Query
import BuiltOnEnvoy.FileServer.Ranges
import BuiltOnEnvoy.ImageFetcher.Extraction
import BuiltOnEnvoy.IpRestriction.Membership
import BuiltOnEnvoy.LlmProxy.Accounting
import BuiltOnEnvoy.Oci.RoundTrip
import BuiltOnEnvoy.OpenApiValidator.DryRun
import BuiltOnEnvoy.OpenFga.Decision
import BuiltOnEnvoy.PolicyDryRun
import BuiltOnEnvoy.Saml.Counters
import BuiltOnEnvoy.Saml.OpenRedirect
import BuiltOnEnvoy.Saml.RoundTrip
import BuiltOnEnvoy.Sse.AnthropicFilter
import BuiltOnEnvoy.Sse.BlockDeltas
import BuiltOnEnvoy.Sse.ChoiceSlots
import BuiltOnEnvoy.Sse.FieldSyntax
import BuiltOnEnvoy.TokenExchange.Config
import BuiltOnEnvoy.Ui.Store
import BuiltOnEnvoy.Waf.Inspection
import BuiltOnEnvoy.Waf.SharedWaf
