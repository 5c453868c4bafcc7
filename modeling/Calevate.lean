import Calevate.Lib.Tx
import Calevate.Lib.Decimal
import Calevate.Lib.Apportion
import Calevate.Lib.Table
import Calevate.Lib.Run
import Calevate.Lib.RowStore
import Calevate.Billing.Account
import Calevate.Billing.Ledger
import Calevate.Billing.Lots
import Calevate.Lib.Calendar
import Calevate.Billing.Credit
import Calevate.Billing.Helpers.Lots
import Calevate.Billing.Operations
import Calevate.Billing.Helpers.Credit
import Calevate.Billing.Disputes
import Calevate.Billing.Helpers.Operations
import Calevate.Billing.Helpers.Disputes
import Calevate.Billing.Wallet
import Calevate.Billing.Helpers.Rounds
import Calevate.Billing.DisputeMoney
import Calevate.Billing.Refunds
import Calevate.Billing.Helpers.Refunds
import Calevate.Billing.RefundCeiling
import Calevate.Billing.Overage
import Calevate.Billing.Helpers.Overage
import Calevate.Billing.MeteredMonth
import Calevate.Billing.Contention
import Calevate.Billing.NoDoubleSpend
import Calevate.Campaigns.Schedule
import Calevate.Campaigns.Scheduler
import Calevate.Campaigns.Waiting
import Calevate.Campaigns.Occurrences
import Calevate.Campaigns.Contacts
import Calevate.Campaigns.Dispatch
import Calevate.Campaigns.Ladder
import Calevate.Campaigns.Rungs
import Calevate.Billing.Helpers.Movements
import Calevate.Billing.Helpers.LotSteps
import Calevate.Billing.LotLife
import Calevate.Lib.Chain
import Calevate.Billing.Repricing
import Calevate.Billing.Helpers.Queue
import Calevate.Billing.Helpers.Effects
import Calevate.Billing.Helpers.Figures
import Calevate.Billing.Helpers.Lapses
import Calevate.Lib.Reference
import Calevate.Billing.Reversals
import Calevate.Lib.Replay
import Calevate.Billing.Replays
import Calevate.Billing.Corrections
import Calevate.Billing.Drawdown
import Calevate.Lib.Tally
import Calevate.Billing.Statement
import Calevate.Billing.Reconciliation
import Calevate.Billing.Caps
import Calevate.Billing.SpendGate
import Calevate.Lib.Crossing
import Calevate.Billing.WalletAlerts
import Calevate.Lib.Part
import Calevate.Billing.Helpers.Roots
import Calevate.Billing.LapsedCredit
import Calevate.Lib.ClockText
import Calevate.Callbacks.CallingWindow
import Calevate.Reliability.Idempotency
import Calevate.Reliability.KeyExclusion
import Calevate.Reliability.Inbox
import Calevate.Reliability.InboxClaims
import Calevate.Reliability.Outbox
import Calevate.Reliability.MessageLife
import Calevate.Lib.Journal
import Calevate.Campaigns.CallingHours
import Calevate.Callbacks.Service
import Calevate.Callbacks.Dispatch
import Calevate.Callbacks.Turns
import Calevate.Callbacks.Claims
import Calevate.Callbacks.Consents
import Calevate.Callbacks.Pauses
import Calevate.Callbacks.Blocks
import Calevate.Callbacks.Deferrals
import Calevate.Callbacks.Openings
import Calevate.Campaigns.Pausing
import Calevate.Campaigns.AutomaticResume
import Calevate.Campaigns.LineBudget
import Calevate.Campaigns.LinesSpent
import Calevate.Trials.Trial
import Calevate.Trials.Newest
import Calevate.Trials.Coverage
import Calevate.Trials.Erasure
import Calevate.AutoRecharge.Recharge
import Calevate.AutoRecharge.Mandate
import Calevate.AutoRecharge.MonthlyCap
import Calevate.Compliance.DoNotCall
import Calevate.Compliance.OptOuts
import Calevate.Lib.Text
import Calevate.Agents.OpeningNotices
import Calevate.Agents.CallScript
import Calevate.Agents.WovenNotices
import Calevate.Agents.FirstWords
import Calevate.Agents.NoticesSaid
import Calevate.Agents.DialOpenings
import Calevate.Lib.Occurs
import Calevate.Lib.Months
import Calevate.Lib.Arrivals
import Calevate.Agents.Markers
import Calevate.Agents.EnginePrompt
import Calevate.Agents.Fence
import Calevate.Agents.Floors
import Calevate.Agents.CallValues
import Calevate.Agents.FilledFence
import Calevate.Rentals.Periods
import Calevate.Rentals.Collection
import Calevate.FollowUps.Definition
import Calevate.FollowUps.Runs
import Calevate.FollowUps.Exits
import Calevate.Pipeline.CallRows
import Calevate.Pipeline.Leads
import Calevate.Billing.SpendCounters
import Calevate.Lib.Statement
import Calevate.Authn.OneTimeCodes
import Calevate.Authn.ChallengeVersions
import Calevate.Authn.LiveChallenges
import Calevate.Authn.GuessCeiling
import Calevate.Compliance.Erasures
import Calevate.Compliance.CertificateOnce
import Calevate.Platform.LoadShed
import Calevate.Platform.StatusAge
import Calevate.Platform.Maintenance
import Calevate.Platform.WindowNotices
import Calevate.Platform.LastNotice
import Calevate.Campaigns.WindowMarks
import Calevate.Platform.MaintenanceTicks
import Calevate.Platform.PutBack
import Calevate.Integrations.Deliveries
import Calevate.Integrations.RetriedBody
import Calevate.Authn.Sessions
import Calevate.Authn.SessionTransactions
import Calevate.Authn.SessionTurns
import Calevate.Authn.SessionBounds
import Calevate.Authn.SwitchedOff
import Calevate.Authn.ExpiredSessions
import Calevate.Lib.Lineage
import Calevate.Authn.Revocations
import Calevate.Billing.Allocation
import Calevate.Billing.Consumption
import Calevate.Billing.BonusClawback
import Calevate.Billing.BillingMonths
import Calevate.Lib.IndianTime
import Calevate.Billing.OverageSplit
import Calevate.Campaigns.FirstDial
import Calevate.Lib.IsoText
import Calevate.Campaigns.Repeats
import Calevate.Compliance.Recalls
import Calevate.FollowUps.NewLeads
import Calevate.Agents.LentNumbers
import Calevate.Lib.Ladder
import Calevate.Billing.Runway
import Calevate.Billing.CardPricing
import Calevate.Billing.Invoice
import Calevate.Lib.Bisection
import Calevate.Billing.CartesiaPlans
import Calevate.Billing.Breakeven
import Calevate.FollowUps.Starts
import Calevate.Agents.Upgrade
import Calevate.Platform.AlertAdmission
import Calevate.Lib.Rotation
import Calevate.Platform.FleetWalk
import Calevate.Lib.Weekly
import Calevate.Agents.BusinessHours
import Calevate.Rentals.Holds
import Calevate.Lib.Aead
import Calevate.Platform.Envelopes
import Calevate.FollowUps.NeededCalls
import Calevate.Lib.Cutting
import Calevate.Knowledge.Chunks
import Calevate.Agents.MarkerFree
import Calevate.Lib.Sections
import Calevate.Agents.ArmKnowledge
import Calevate.Compliance.SpokenOptOut
import Calevate.Lib.Like
import Calevate.Lib.Digits
import Calevate.Lib.Uuid
import Calevate.FollowUps.CallbackKeys
import Calevate.Lib.DotSegments
import Calevate.Engine.VendorPath
import Calevate.Ingest.PhoneKeys
import Calevate.Copilot.Plan
import Calevate.Copilot.PlanRuns
import Calevate.Copilot.PlanFinish
import Calevate.Ingest.LeadClock
import Calevate.Reliability.InCallOnce
