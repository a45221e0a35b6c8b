import Fedservice.Lib.ExState
import Fedservice.Lib.Tandem
import Fedservice.Lib.KeyedSet
import Fedservice.Lib.Dict
import Fedservice.Lib.WildcardOrder
import Fedservice.Lib.Acyclic
import Fedservice.Lib.Routes
import Fedservice.Lib.BoundedDepth
import Fedservice.Lib.Scan
import Fedservice.Py.Json
import Fedservice.Py.Exc
import Fedservice.Py.Url
import Fedservice.EntityStatement.Statement
import Fedservice.EntityStatement.Create
import Fedservice.EntityStatement.Pack
import Fedservice.EntityStatement.CriticalExtensions
import Fedservice.EntityStatement.SaveTrustChains
import Fedservice.EntityStatement.TrustChainStore
import Fedservice.EntityStatement.Constraints
import Fedservice.EntityStatement.NamesInForce
import Fedservice.EntityStatement.HostNames
import Fedservice.EntityStatement.MeetsRestrictions
import Fedservice.EntityStatement.PathLength
import Fedservice.EntityStatement.ConstraintLookups
import Fedservice.EntityStatement.Narrowing
import Fedservice.Crypto.KeyJar
import Fedservice.Entity.Client.EntityConfiguration
import Fedservice.Entity.Function.PolicyOperator
import Fedservice.Entity.Function.Policy
import Fedservice.Entity.Function.PolicySemantics
import Fedservice.Entity.Function.PolicyCombination
import Fedservice.Entity.Function.PolicyEnforcement
import Fedservice.Entity.Function.TrustChainPolicy
import Fedservice.Entity.Function.PolicyApplication
import Fedservice.Entity.Function.PolicyRestriction
import Fedservice.Entity.Function.PolicyConflicts
import Fedservice.Entity.Function.PolicyGathering
import Fedservice.Entity.Function.PolicyOnTop
import Fedservice.Entity.Function.SuperiorMetadata
import Fedservice.Entity.Function.GatheringVerdict
import Fedservice.Entity.Function.PolicyLikeness
import Fedservice.Entity.Function.PolicyRepetition
import Fedservice.Entity.Function.PolicyLoop
import Fedservice.Entity.Function.SingleValue
import Fedservice.Entity.Function.PolicyReapplication
import Fedservice.Entity.Function.PolicyHashOrder
import Fedservice.Entity.Function.EvidenceKept
import Fedservice.Entity.Function.TrustChainCollector
import Fedservice.Entity.Function.CollectTrustChains
import Fedservice.Entity.Function.Federation
import Fedservice.Entity.Function.SteadyFederation
import Fedservice.Entity.Function.TreeOfSuperiors
import Fedservice.Entity.Function.CollectionTermination
import Fedservice.Entity.Function.CompleteChains
import Fedservice.Entity.Function.PathsOfTree
import Fedservice.Entity.Function.RoutesOfTree
import Fedservice.Entity.Function.RouteVerification
import Fedservice.Entity.Function.CachedTree
import Fedservice.Entity.Function.KnownStatements
import Fedservice.Entity.Function.StatementKeys
import Fedservice.Entity.Function.ConfigCache
import Fedservice.Entity.Function.ConfigIdentity
import Fedservice.Entity.Function.Verifier
import Fedservice.Entity.Function.ChainLinkage
import Fedservice.Entity.Function.KeyAdditions
import Fedservice.Entity.Function.RejectedChain
import Fedservice.Entity.Function.TrustAnchoring
import Fedservice.Entity.FederationEntity
import Fedservice.Entity.VerifiedTrustChains
import Fedservice.Entity.TrustChainsOfRoutes
import Fedservice.Entity.Server.ResolvedRoutes
import Fedservice.Entity.TrustChainExpiry
import Fedservice.Entity.RootedTrust
import Fedservice.Entity.OwnConfigurations
import Fedservice.Entity.TwoHashOrders
import Fedservice.Entity.FailingBranches
import Fedservice.Entity.StandingChains
import Fedservice.Entity.Trawl
import Fedservice.Entity.TrawledSubtree
import Fedservice.Entity.FreshnessTests
import Fedservice.Entity.CacheLifetimes
import Fedservice.Entity.Context
import Fedservice.Entity.Server.Fetch
import Fedservice.Entity.Server.FetchAnswers
import Fedservice.Entity.Server.EntityConfiguration
import Fedservice.Entity.Server.List
import Fedservice.Entity.Server.Resolve
import Fedservice.Entity.Server.Who
import Fedservice.Entity.ServedFederation
import Fedservice.AppServer.Server
import Fedservice.AppServer.AutomaticRegistration
import Fedservice.AppServer.ExplicitRegistration
import Fedservice.AppServer.ClientBinding
import Fedservice.AppServer.AttestedMetadata
import Fedservice.AppServer.ClientRegistrationSetup
import Fedservice.AppServer.RedirectUris
import Fedservice.AppServer.RegisteredClients
import Fedservice.Entity.TrustMarkVerifier
import Fedservice.Entity.CheckedTrustMarks
import Fedservice.Entity.KeptKeys
import Fedservice.AppClient.Registration
import Fedservice.TrustMarkEntity.FileDB
import Fedservice.TrustMarkEntity.SimpleDB
import Fedservice.TrustMarkEntity.Entity
import Fedservice.TrustMarkEntity.Lifecycle
