import RestoreEngine.Effects.Pool
import RestoreEngine.Model.Records
import RestoreEngine.Model.Text
import RestoreEngine.Model.World
import RestoreEngine.Model.PveClient
import RestoreEngine.Model.Allocation
import RestoreEngine.Model.Jobs
import RestoreEngine.Model.Worker
import RestoreEngine.Model.Assurance
import RestoreEngine.Model.Plans
import RestoreEngine.Model.Rules
import RestoreEngine.Assurance.Verdict
import RestoreEngine.Model.Footprints
import RestoreEngine.Runs.Finalize
import RestoreEngine.Teardown.Undisturbed
import RestoreEngine.Model.Listing
import RestoreEngine.Runs.Ending
import RestoreEngine.Runs.Ticks
import RestoreEngine.Runs.Settling
import RestoreEngine.Runs.Turns
import RestoreEngine.Runs.Record
import RestoreEngine.Runs.Writers
import RestoreEngine.Enqueue.Jobs
import RestoreEngine.Runs.Steps
import RestoreEngine.Runs.System
import RestoreEngine.Runs.Ended
import RestoreEngine.Runs.Once
import RestoreEngine.Assurance.Soundness
import RestoreEngine.Model.Api
import RestoreEngine.Runs.FailedStart
import RestoreEngine.Enqueue.Steps
import RestoreEngine.Enqueue.ListingLost
import RestoreEngine.Enqueue.Overwrite
import RestoreEngine.Effects.Census
import RestoreEngine.Model.Slots
import RestoreEngine.Slots.Admission
import RestoreEngine.Model.Changes
import RestoreEngine.Slots.Reconcile
import RestoreEngine.Effects.Trace
import RestoreEngine.Jobs.Isolation
import RestoreEngine.Model.Schedule
import RestoreEngine.Model.Members
import RestoreEngine.Model.Readiness
import RestoreEngine.Model.Registry
import RestoreEngine.Readiness.Locations
import RestoreEngine.Readiness.FailClosed
import RestoreEngine.Readiness.Asks
import RestoreEngine.Members.Tags
import RestoreEngine.Gates.Starting
import RestoreEngine.Enqueue.Vacant
import RestoreEngine.Enqueue.Dealing
import RestoreEngine.Enqueue.Cases
import RestoreEngine.Lists.Newest
import RestoreEngine.Members.Select
import RestoreEngine.Runs.Underway
import RestoreEngine.Runs.Alike
import RestoreEngine.Runs.Cancel
import RestoreEngine.Gates.Isolation
import RestoreEngine.Gates.Confirmed
import RestoreEngine.Effects.History
import RestoreEngine.Plans.Footprint
import RestoreEngine.Readiness.Overlap
import RestoreEngine.Plans.Verified
import RestoreEngine.Plans.Scheduled
import RestoreEngine.Plans.Spacing
import RestoreEngine.Runs.Expired
import RestoreEngine.Model.Queue
import RestoreEngine.Queue.Pause
import RestoreEngine.Effects.Ledger
import RestoreEngine.Jobs.Completion
import RestoreEngine.Runs.Underway
import RestoreEngine.Members.Agree
import RestoreEngine.Time.Calendar
import RestoreEngine.Time.Stamp
import RestoreEngine.Time.IsoFormat
import RestoreEngine.Model.Sources
import RestoreEngine.Model.Backups
import RestoreEngine.Backups.Epoch
import RestoreEngine.Backups.Cutoffs
import RestoreEngine.Backups.Refs
import RestoreEngine.Model.Credentials
import RestoreEngine.Sources.Slugs
import RestoreEngine.Sources.Resave
import RestoreEngine.Sources.Ids
import RestoreEngine.Model.Reports
import RestoreEngine.Reports.Trim
import RestoreEngine.Effects.Interpret
import RestoreEngine.Model.Hygiene
import RestoreEngine.Hygiene.Purge
import RestoreEngine.Hygiene.Logs
import RestoreEngine.Lists.Balanced
import RestoreEngine.Enqueue.Balance
import RestoreEngine.Texts.Split
import RestoreEngine.Texts.Lines
import RestoreEngine.Guests.Config
import RestoreEngine.Guests.Devices
import RestoreEngine.Guests.Marker
import RestoreEngine.Tasks.Log
import RestoreEngine.Tasks.Ticks
import RestoreEngine.Model.Json
import RestoreEngine.Model.Dicts
import RestoreEngine.Registry.Rules
import RestoreEngine.Registry.PlanFields
import RestoreEngine.Enqueue.Placement
import RestoreEngine.Registry.Locations
import RestoreEngine.Queue.Drain
import RestoreEngine.Texts.Regex
import RestoreEngine.Model.ProgressLines
import RestoreEngine.Tasks.Lines
import RestoreEngine.Tasks.PbsLines
import RestoreEngine.Tasks.LiveLines
import RestoreEngine.Tasks.Batch
import RestoreEngine.Guests.Vmids
import RestoreEngine.Bytes.Layout
import RestoreEngine.Model.PbsWire
import RestoreEngine.Usage.FixedIndex
import RestoreEngine.Usage.Additive
import RestoreEngine.Reports.Listing
import RestoreEngine.Compliance.Overdue
import RestoreEngine.Lists.Window
import RestoreEngine.Lists.Unseen
import RestoreEngine.Compliance.LastRuns
import RestoreEngine.Model.TagCache
import RestoreEngine.Members.TagCache
import RestoreEngine.Effects.Parts
import RestoreEngine.Effects.Holdings
import RestoreEngine.Model.Engine
import RestoreEngine.Engine.Parts
import RestoreEngine.Engine.Dispatch
import RestoreEngine.Effects.Views
import RestoreEngine.Engine.States
import RestoreEngine.Lists.Groups
import RestoreEngine.Engine.Records
import RestoreEngine.Engine.Evidence
import RestoreEngine.Engine.Pending
import RestoreEngine.Engine.Origins
import RestoreEngine.Effects.Server
import RestoreEngine.Model.Settings
import RestoreEngine.Model.Sessions
import RestoreEngine.Settings.Access
import RestoreEngine.Settings.Secrets
import RestoreEngine.Model.Rendering
import RestoreEngine.Reports.Pages
import RestoreEngine.Bytes.Delivery
import RestoreEngine.Model.Reader
import RestoreEngine.Usage.Reader
import RestoreEngine.Model.Audit
import RestoreEngine.Audit.Newest
