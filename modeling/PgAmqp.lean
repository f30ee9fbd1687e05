import PgAmqp.ProgramLogic
import PgAmqp.Transition
import PgAmqp.State
import PgAmqp.Library
import PgAmqp.Connect
import PgAmqp.Publish
import PgAmqp.Callbacks
import PgAmqp.Session
import PgAmqp.Moves
import PgAmqp.ConnectPaths
import PgAmqp.Drain
import PgAmqp.PublishPaths
import PgAmqp.ChannelOne
import PgAmqp.CallbackEffects
import PgAmqp.Phases
import PgAmqp.EntryInvariants
import PgAmqp.Delivery
import PgAmqp.Writes
import PgAmqp.CleanSlate
import PgAmqp.Outbox
import PgAmqp.OutboxRuns
import PgAmqp.OutboxRows
import PgAmqp.Relay
import PgAmqp.Enqueue
import PgAmqp.Changes
import PgAmqp.HostCache
import PgAmqp.ChangePaths
import PgAmqp.Trails
import PgAmqp.HostLists
import PgAmqp.Attempts
import PgAmqp.Cyclic
import PgAmqp.Rounds
import PgAmqp.Failover
import PgAmqp.Passes
import PgAmqp.Returning
import PgAmqp.Backoff
import PgAmqp.Rotation
import PgAmqp.Replacement
import PgAmqp.Verdicts
import PgAmqp.LastWord
import PgAmqp.Timeouts
import PgAmqp.Representation
import PgAmqp.PrivilegeUpdate
import PgAmqp.FrontService
import PgAmqp.Starvation
import PgAmqp.Outputs
import PgAmqp.Unroutable
import PgAmqp.Handles
import PgAmqp.Lifetimes
import PgAmqp.Sends
import PgAmqp.Fleet
import PgAmqp.FleetRuns
import PgAmqp.Deliveries
import PgAmqp.Charges
import PgAmqp.Metered
import PgAmqp.Limits
import PgAmqp.Budgets
import PgAmqp.Dialogue
import PgAmqp.DialogueRuns
import PgAmqp.RelayCall
import PgAmqp.Spread
import PgAmqp.Sockets
import PgAmqp.Cautions
import PgAmqp.Poisoned
import PgAmqp.Mailbox
import PgAmqp.Refinement
import PgAmqp.Caching
import PgAmqp.BrokerTable
import PgAmqp.Configuration
import PgAmqp.Projection
import PgAmqp.Isolation
