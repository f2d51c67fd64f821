import SnapUrl.Lib.Run
import SnapUrl.Webhooks.Attempts
import SnapUrl.Redirect.ClickReservation
import SnapUrl.Redirect.ForwardedQuery
import SnapUrl.Domain.ChainReach
import SnapUrl.Domain.EstimateOrder
import SnapUrl.Domain.ClientIp
import SnapUrl.Links.DeniedHosts
import SnapUrl.Webhooks.SafePost
import SnapUrl.Webhooks.Ladder
import SnapUrl.Forms.Keys
import SnapUrl.Links.BulkOutcomes
import SnapUrl.Edge.Agreement
import SnapUrl.Billing.Redelivery
import SnapUrl.Billing.Activation
import SnapUrl.Billing.EventOrder
import SnapUrl.Billing.Coupons
import SnapUrl.Billing.CouponRules
import SnapUrl.Billing.Revenue
import SnapUrl.Billing.PendingChange
import SnapUrl.Billing.Enforcement
import SnapUrl.Plans.Grandfathering
import SnapUrl.Plans.LiveSubscription
import SnapUrl.Rollup.Batches
import SnapUrl.Links.Paging
import SnapUrl.Links.GeneratedSlugs
import SnapUrl.Projection.BatchRefinement
import SnapUrl.Projection.Claims
import SnapUrl.Projection.Expiry
import SnapUrl.Projection.MetaRegister
import SnapUrl.Projection.Convergence
import SnapUrl.Public.Preview
import SnapUrl.Jobs.WithLease
import SnapUrl.Projection.Resolvers
import SnapUrl.Links.Rescan
import SnapUrl.Billing.Reconcile
import SnapUrl.Settings.KillSwitches
import SnapUrl.Settings.Store
import SnapUrl.Settings.DomainCaps
import SnapUrl.Auth.RefreshTokens
import SnapUrl.Members.Roles
import SnapUrl.Members.Invitations
import SnapUrl.Members.AccountDeletion
import SnapUrl.Auth.Totp
import SnapUrl.Projection.OwnerHold
import SnapUrl.Links.Edit
import SnapUrl.Links.Export
import SnapUrl.Links.BulkReport
import SnapUrl.Links.Targets
import SnapUrl.Links.UnprovenDomains
import SnapUrl.Links.ConcurrentEdits
import SnapUrl.Redirect.CacheBust
import SnapUrl.Projection.EdgeAgreement
import SnapUrl.Redirect.LimitCounts
import SnapUrl.Rollup.Provisioning
import SnapUrl.Rollup.ProvisionSafety
import SnapUrl.Rollup.Backfill
import SnapUrl.Rollup.Retention
import SnapUrl.Rollup.RetentionPasses
import SnapUrl.Rollup.BotTraffic
import SnapUrl.Rollup.Uniques
import SnapUrl.Analytics.Overview
import SnapUrl.Cache.Refinement
import SnapUrl.Redirect.DailySalt
import SnapUrl.Redirect.ClickDelivery
import SnapUrl.Projection.DomainConvergence
import SnapUrl.Bio.Takedowns
import SnapUrl.Forms.Columns
import SnapUrl.Reports.Quarantine
import SnapUrl.Bio.ClickCounts
import SnapUrl.Bio.InStep
import SnapUrl.Conversions.Booking
import SnapUrl.Auth.NewestLink
import SnapUrl.Auth.LockedOut
import SnapUrl.Billing.Refunds
import SnapUrl.Plans.Proration
import SnapUrl.Plans.Usage
import SnapUrl.Domain.AppIntent
import SnapUrl.Admin.AnalyticsCsv
import SnapUrl.Import.Imported
