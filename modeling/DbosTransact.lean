import DbosTransact.Foundation.Session
import DbosTransact.Foundation.Logic
import DbosTransact.Foundation.Run
import DbosTransact.Foundation.System
import DbosTransact.Foundation.Alone
import DbosTransact.Foundation.Solo
import DbosTransact.Foundation.Statement
import DbosTransact.Foundation.Unique
import DbosTransact.Foundation.FirstError
import DbosTransact.Foundation.Script
import DbosTransact.Foundation.Answers
import DbosTransact.Foundation.SqlHoles
import DbosTransact.Foundation.Effects
import DbosTransact.Foundation.Traces
import DbosTransact.Foundation.WriteOnce
import DbosTransact.Foundation.Budget
import DbosTransact.Error
import DbosTransact.Integers
import DbosTransact.Serialize
import DbosTransact.Serialize.Values
import DbosTransact.Serialize.Errors
import DbosTransact.Serialize.Tokens
import DbosTransact.Serialize.PlainJson
import DbosTransact.Serialize.Inputs
import DbosTransact.Serialize.SortedMap
import DbosTransact.Serialize.JsValue
import DbosTransact.Serialize.Superjson
import DbosTransact.JsonText
import DbosTransact.Config
import DbosTransact.Config.Masking
import DbosTransact.Db.Schema
import DbosTransact.Db.Statements
import DbosTransact.Db.Server
import DbosTransact.Db.Operations
import DbosTransact.Db.Workflows
import DbosTransact.Db.Migrate
import DbosTransact.Db.Rules
import DbosTransact.Db.Alone
import DbosTransact.Db.Streams
import DbosTransact.Db.SharedSchema
import DbosTransact.Db.Launches
import DbosTransact.Db.LaunchRuns
import DbosTransact.Db.Management
import DbosTransact.Db.Pages
import DbosTransact.Db.Polls
import DbosTransact.Db.MigrationFiles
import DbosTransact.Db.SchemaNames
import DbosTransact.Queue.Dequeue
import DbosTransact.Queue.Runs
import DbosTransact.Queue.Exclusive
import DbosTransact.Queue.Concurrency
import DbosTransact.Queue.RateLimit
import DbosTransact.Queue.Workers
import DbosTransact.Queue.Alone
import DbosTransact.Queue.ClaimCount
import DbosTransact.Queue.Order
import DbosTransact.Runtime.Calls
import DbosTransact.Runtime.Workflow
import DbosTransact.Runtime.Outcome
import DbosTransact.Runtime.Start
import DbosTransact.Runtime.Handler
import DbosTransact.Runtime.Context
import DbosTransact.Runtime.Executors
import DbosTransact.Runtime.Cancel
import DbosTransact.Runtime.Durable
import DbosTransact.Runtime.Launch
import DbosTransact.Runtime.Invoke
import DbosTransact.Runtime.Await
import DbosTransact.Runtime.Reinvoke
import DbosTransact.Runtime.Identity
import DbosTransact.Runtime.Replay
import DbosTransact.Runtime.Rows
import DbosTransact.Runtime.Collect
import DbosTransact.Runtime.Listener
import DbosTransact.Runtime.Readers
import DbosTransact.Runtime.Streams
import DbosTransact.Runtime.Hanging
import DbosTransact.Runtime.Deduplication
import DbosTransact.Runtime.Visible
import DbosTransact.Runtime.Mailbox
import DbosTransact.Runtime.StoredErrors
import DbosTransact.Runtime.Retention
import DbosTransact.Runtime.Durations
import DbosTransact.Runtime.WaiterKeys
import DbosTransact.Runtime.Scheduler
import DbosTransact.Runtime.Refusals
import DbosTransact.Runtime.Retries
import DbosTransact.Runtime.Transactions
import DbosTransact.Runtime.Attempts
import DbosTransact.Runtime.Forks
import DbosTransact.Runtime.TimedCalls
import DbosTransact.Runtime.Waits
import DbosTransact.Runtime.Cancelled
import DbosTransact.Runtime.DeadLetter
import DbosTransact.Runtime.Delivery
