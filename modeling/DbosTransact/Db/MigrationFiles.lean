/-!
# The migration files

The files that `migrate.rs` embeds, each as the list of its lines. A file that ends with a line
break has an empty last line.
-/

namespace Dbos.MigrationFiles

/-- `1_initial_dbos_schema.sql` -/
def m1Schema : List String := [
  "CREATE TABLE %s.workflow_status (",
  "    workflow_uuid TEXT PRIMARY KEY,",
  "    status TEXT,",
  "    name TEXT,",
  "    authenticated_user TEXT,",
  "    assumed_role TEXT,",
  "    authenticated_roles TEXT,",
  "    request TEXT,",
  "    output TEXT,",
  "    error TEXT,",
  "    executor_id TEXT,",
  "    created_at BIGINT NOT NULL DEFAULT (EXTRACT(epoch FROM now())::numeric * 1000)::bigint,",
  "    updated_at BIGINT NOT NULL DEFAULT (EXTRACT(epoch FROM now())::numeric * 1000)::bigint,",
  "    application_version TEXT,",
  "    application_id TEXT,",
  "    class_name VARCHAR(255) DEFAULT NULL,",
  "    config_name VARCHAR(255) DEFAULT NULL,",
  "    recovery_attempts BIGINT DEFAULT 0,",
  "    queue_name TEXT,",
  "    workflow_timeout_ms BIGINT,",
  "    workflow_deadline_epoch_ms BIGINT,",
  "    inputs TEXT,",
  "    started_at_epoch_ms BIGINT,",
  "    deduplication_id TEXT,",
  "    priority INTEGER NOT NULL DEFAULT 0",
  ");",
  "",
  "CREATE INDEX workflow_status_created_at_index ON %s.workflow_status (created_at);",
  "CREATE INDEX workflow_status_executor_id_index ON %s.workflow_status (executor_id);",
  "CREATE INDEX workflow_status_status_index ON %s.workflow_status (status);",
  "",
  "ALTER TABLE %s.workflow_status",
  "ADD CONSTRAINT uq_workflow_status_queue_name_dedup_id",
  "UNIQUE (queue_name, deduplication_id);",
  "",
  "CREATE TABLE %s.operation_outputs (",
  "    workflow_uuid TEXT NOT NULL,",
  "    function_id INTEGER NOT NULL,",
  "    function_name TEXT NOT NULL DEFAULT '',",
  "    output TEXT,",
  "    error TEXT,",
  "    child_workflow_id TEXT,",
  "    PRIMARY KEY (workflow_uuid, function_id),",
  "    FOREIGN KEY (workflow_uuid) REFERENCES %s.workflow_status(workflow_uuid) ",
  "        ON UPDATE CASCADE ON DELETE CASCADE",
  ");",
  "",
  "CREATE TABLE %s.notifications (",
  "    destination_uuid TEXT NOT NULL,",
  "    topic TEXT,",
  "    message TEXT NOT NULL,",
  "    created_at_epoch_ms BIGINT NOT NULL DEFAULT (EXTRACT(epoch FROM now())::numeric * 1000)::bigint,",
  "    message_uuid TEXT NOT NULL DEFAULT gen_random_uuid() PRIMARY KEY, -- Built-in function",
  "    FOREIGN KEY (destination_uuid) REFERENCES %s.workflow_status(workflow_uuid) ",
  "        ON UPDATE CASCADE ON DELETE CASCADE",
  ");",
  "CREATE INDEX idx_workflow_topic ON %s.notifications (destination_uuid, topic);",
  "",
  "CREATE TABLE %s.workflow_events (",
  "    workflow_uuid TEXT NOT NULL,",
  "    key TEXT NOT NULL,",
  "    value TEXT NOT NULL,",
  "    PRIMARY KEY (workflow_uuid, key),",
  "    FOREIGN KEY (workflow_uuid) REFERENCES %s.workflow_status(workflow_uuid) ",
  "        ON UPDATE CASCADE ON DELETE CASCADE",
  ");",
  "",
  "CREATE TABLE %s.streams (",
  "    workflow_uuid TEXT NOT NULL,",
  "    key TEXT NOT NULL,",
  "    value TEXT NOT NULL,",
  "    \"offset\" INTEGER NOT NULL,",
  "    PRIMARY KEY (workflow_uuid, key, \"offset\"),",
  "    FOREIGN KEY (workflow_uuid) REFERENCES %s.workflow_status(workflow_uuid)",
  "        ON UPDATE CASCADE ON DELETE CASCADE",
  ");",
  "",
  "CREATE TABLE %s.event_dispatch_kv (",
  "    service_name TEXT NOT NULL,",
  "    workflow_fn_name TEXT NOT NULL,",
  "    key TEXT NOT NULL,",
  "    value TEXT,",
  "    update_seq NUMERIC(38,0),",
  "    update_time NUMERIC(38,15),",
  "    PRIMARY KEY (service_name, workflow_fn_name, key)",
  ");"]

/-- `1_initial_dbos_schema_listen_notify.sql` -/
def m1ListenNotify : List String := [
  "-- Create notification function",
  "CREATE OR REPLACE FUNCTION %s.notifications_function() RETURNS TRIGGER AS $$",
  "DECLARE",
  "    payload text := NEW.destination_uuid || '::' || NEW.topic;",
  "BEGIN",
  "    PERFORM pg_notify('dbos_notifications_channel', payload);",
  "    RETURN NEW;",
  "END;",
  "$$ LANGUAGE plpgsql;",
  "",
  "-- Create notification trigger",
  "CREATE TRIGGER dbos_notifications_trigger",
  "AFTER INSERT ON %s.notifications",
  "FOR EACH ROW EXECUTE FUNCTION %s.notifications_function();",
  "",
  "-- Create events function",
  "CREATE OR REPLACE FUNCTION %s.workflow_events_function() RETURNS TRIGGER AS $$",
  "DECLARE",
  "    payload text := NEW.workflow_uuid || '::' || NEW.key;",
  "BEGIN",
  "    PERFORM pg_notify('dbos_workflow_events_channel', payload);",
  "    RETURN NEW;",
  "END;",
  "$$ LANGUAGE plpgsql;",
  "",
  "-- Create events trigger",
  "CREATE TRIGGER dbos_workflow_events_trigger",
  "AFTER INSERT ON %s.workflow_events",
  "FOR EACH ROW EXECUTE FUNCTION %s.workflow_events_function();",
  "",
  ""]

/-- `10_add_notifications_pkey.sql` -/
def m10 : List String := [
  "-- Migration 10: Add primary key to notifications table",
  "-- An earlier version of DBOS had a bug where this table was created without a primary key.",
  "-- The initial migration has been changed to create a key, and this migration creates the key",
  "-- for existing applications.",
  "",
  "DO $$",
  "BEGIN",
  "    IF NOT EXISTS (",
  "        SELECT 1 FROM pg_constraint c",
  "        JOIN pg_class cl ON c.conrelid = cl.oid",
  "        JOIN pg_namespace n ON cl.relnamespace = n.oid",
  "        WHERE n.nspname = '%s'",
  "          AND cl.relname = 'notifications'",
  "          AND c.contype = 'p'",
  "    ) THEN",
  "        ALTER TABLE %s.notifications ADD PRIMARY KEY (message_uuid);",
  "    END IF;",
  "END $$;",
  ""]

/-- `38_update_enqueue_workflow.sql` -/
def m38Base : List String := [
  "-- Migration 38: Replace enqueue_workflow with a signature that also accepts",
  "-- authenticated_user, authenticated_roles, and delay_until_epoch_ms. A",
  "-- non-NULL delay enqueues the workflow in the DELAYED state. The old 13-arg",
  "-- function is dropped first so only the new signature remains.",
  "",
  "DROP FUNCTION IF EXISTS %s.enqueue_workflow(",
  "    TEXT, TEXT, JSON[], JSON, TEXT, TEXT, TEXT, TEXT, BIGINT, BIGINT, TEXT, INTEGER, TEXT",
  ");",
  "",
  "CREATE OR REPLACE FUNCTION %s.enqueue_workflow(",
  "    workflow_name TEXT,",
  "    queue_name TEXT,",
  "    positional_args JSON[] DEFAULT ARRAY[]::JSON[],",
  "    named_args JSON DEFAULT '\x7b\x7d'::JSON,",
  "    class_name TEXT DEFAULT NULL,",
  "    config_name TEXT DEFAULT NULL,",
  "    workflow_id TEXT DEFAULT NULL,",
  "    app_version TEXT DEFAULT NULL,",
  "    timeout_ms BIGINT DEFAULT NULL,",
  "    deadline_epoch_ms BIGINT DEFAULT NULL,",
  "    deduplication_id TEXT DEFAULT NULL,",
  "    priority INT4 DEFAULT NULL,",
  "    queue_partition_key TEXT DEFAULT NULL,",
  "    authenticated_user TEXT DEFAULT NULL,",
  "    authenticated_roles TEXT DEFAULT NULL,",
  "    delay_until_epoch_ms BIGINT DEFAULT NULL",
  ") RETURNS TEXT AS $$",
  "DECLARE",
  "    v_workflow_id TEXT;",
  "    v_serialized_inputs TEXT;",
  "    v_owner_xid TEXT;",
  "    v_now BIGINT;",
  "    v_recovery_attempts INT4 := 0;",
  "    v_priority INT4;",
  "    v_status TEXT;",
  "BEGIN",
  "",
  "    -- Validate required parameters",
  "    IF workflow_name IS NULL OR workflow_name = '' THEN",
  "        RAISE EXCEPTION 'Workflow name cannot be null or empty';",
  "    END IF;",
  "    IF queue_name IS NULL OR queue_name = '' THEN",
  "        RAISE EXCEPTION 'Queue name cannot be null or empty';",
  "    END IF;",
  "    IF named_args IS NOT NULL AND jsonb_typeof(named_args::jsonb) != 'object' THEN",
  "        RAISE EXCEPTION 'Named args must be a JSON object';",
  "    END IF;",
  "    IF workflow_id IS NOT NULL AND workflow_id = '' THEN",
  "        RAISE EXCEPTION 'Workflow ID cannot be an empty string if provided.';",
  "    END IF;",
  "    IF delay_until_epoch_ms IS NOT NULL AND delay_until_epoch_ms < 0 THEN",
  "        RAISE EXCEPTION 'delay_until_epoch_ms must be >= 0';",
  "    END IF;",
  "",
  "    v_workflow_id := COALESCE(workflow_id, gen_random_uuid()::TEXT);",
  "    v_owner_xid := gen_random_uuid()::TEXT;",
  "    v_priority := COALESCE(priority, 0);",
  "    v_serialized_inputs := json_build_object(",
  "        'positionalArgs', positional_args,",
  "        'namedArgs', named_args",
  "    )::TEXT;",
  "    v_now := EXTRACT(epoch FROM now()) * 1000;",
  "    v_status := CASE WHEN delay_until_epoch_ms IS NULL THEN 'ENQUEUED' ELSE 'DELAYED' END;",
  "",
  "    INSERT INTO %s.workflow_status (",
  "        workflow_uuid, status, inputs,",
  "        name, class_name, config_name,",
  "        queue_name, deduplication_id, priority, queue_partition_key,",
  "        application_version,",
  "        created_at, updated_at, recovery_attempts,",
  "        workflow_timeout_ms, workflow_deadline_epoch_ms,",
  "        parent_workflow_id, owner_xid, serialization,",
  "        authenticated_user, authenticated_roles,",
  "        delay_until_epoch_ms",
  "    ) VALUES (",
  "        v_workflow_id, v_status, v_serialized_inputs,",
  "        workflow_name, class_name, config_name,",
  "        queue_name, deduplication_id, v_priority, queue_partition_key,",
  "        app_version,",
  "        v_now, v_now, v_recovery_attempts,",
  "        timeout_ms, deadline_epoch_ms,",
  "        NULL, v_owner_xid, 'portable_json',",
  "        authenticated_user, authenticated_roles,",
  "        delay_until_epoch_ms",
  "    )",
  "    ON CONFLICT (workflow_uuid)",
  "    DO UPDATE SET",
  "        updated_at = EXCLUDED.updated_at;",
  "",
  "    RETURN v_workflow_id;",
  "",
  "EXCEPTION",
  "    WHEN unique_violation THEN",
  "        RAISE EXCEPTION 'DBOS queue duplicated'",
  "            USING DETAIL = format('Workflow %%s with queue %%s and deduplication ID %%s already exists', v_workflow_id, queue_name, deduplication_id),",
  "                ERRCODE = 'unique_violation';",
  "END;",
  "$$ LANGUAGE plpgsql;",
  ""]

/-- `38_set_enqueue_workflow_search_path.sql` -/
def m38SearchPath : List String := [
  "-- Migration 38 (Postgres-only tail): pin search_path on the new",
  "-- enqueue_workflow overload, matching the hardening applied in migration 20.",
  "-- Skipped on CockroachDB, which does not support ALTER FUNCTION ... SET.",
  "",
  "ALTER FUNCTION %s.enqueue_workflow(",
  "    TEXT, TEXT, JSON[], JSON, TEXT, TEXT, TEXT, TEXT, BIGINT, BIGINT, TEXT, INT4, TEXT, TEXT, TEXT, BIGINT",
  ") SET search_path = pg_catalog, pg_temp;",
  ""]

/-- `2_add_queue_partition_key.sql` -/
def addQueuePartitionKey : List String := [
  "-- Migration 2: Add queue_partition_key column to workflow_status table",
  "-- This enables partitioned queues where workflows can be distributed across",
  "-- dynamically created queue partitions with separate concurrency limits per partition.",
  "",
  "ALTER TABLE %s.workflow_status",
  "ADD COLUMN queue_partition_key TEXT;",
  "",
  ""]

/-- `3_add_workflow_status_index.sql` -/
def addWorkflowStatusIndex : List String := [
  "-- Migration 3: Add index on workflow_status for queue, status, and started_at_epoch_ms",
  "-- This index improves query performance for queue operations that filter by queue_name, status, and started_at_epoch_ms",
  "",
  "CREATE INDEX \"idx_workflow_status_queue_status_started\" ON %s.\"workflow_status\" (\"queue_name\", \"status\", \"started_at_epoch_ms\");",
  "",
  ""]

/-- `4_add_forked_from.sql` -/
def addForkedFrom : List String := [
  "-- Migration 4: Add forked_from column to workflow_status table",
  "-- This enables tracking workflow fork lineage",
  "",
  "ALTER TABLE %s.workflow_status",
  "ADD COLUMN forked_from TEXT;",
  "",
  "CREATE INDEX \"idx_workflow_status_forked_from\" ON %s.\"workflow_status\" (\"forked_from\");",
  "",
  ""]

/-- `5_add_step_timestamps.sql` -/
def addStepTimestamps : List String := [
  "-- Migration 5: Add started_at_epoch_ms and completed_at_epoch_ms columns to operation_outputs table",
  "-- This enables visualization of step duration",
  "",
  "ALTER TABLE %s.operation_outputs",
  "ADD COLUMN started_at_epoch_ms BIGINT, ADD COLUMN completed_at_epoch_ms BIGINT;",
  "",
  ""]

/-- `6_add_workflow_events_history.sql` -/
def addWorkflowEventsHistory : List String := [
  "-- Migration 6: Add workflow_events_history table and function_id to streams table",
  "-- This enables tracking event history by step ID and copying events during workflow forking",
  "",
  "CREATE TABLE %s.workflow_events_history (",
  "    workflow_uuid TEXT NOT NULL,",
  "    function_id INTEGER NOT NULL,",
  "    key TEXT NOT NULL,",
  "    value TEXT NOT NULL,",
  "    PRIMARY KEY (workflow_uuid, function_id, key),",
  "    FOREIGN KEY (workflow_uuid) REFERENCES %s.workflow_status(workflow_uuid) ",
  "        ON UPDATE CASCADE ON DELETE CASCADE",
  ");",
  "",
  "ALTER TABLE %s.streams ADD COLUMN function_id INTEGER NOT NULL DEFAULT 0;",
  "",
  ""]

/-- `7_add_owner_xid.sql` -/
def addOwnerXid : List String := [
  "-- Migration 7: Add owner_xid column to workflow_status table",
  "",
  "ALTER TABLE %s.workflow_status ADD COLUMN owner_xid TEXT DEFAULT NULL;",
  ""]

/-- `8_add_parent_workflow_id.sql` -/
def addParentWorkflowId : List String := [
  "-- Migration 8: Add parent_workflow_id column to workflow_status table",
  "-- This enables tracking child workflow lineage for workflows spawned from within other workflows.",
  "",
  "ALTER TABLE %s.workflow_status",
  "ADD COLUMN parent_workflow_id TEXT DEFAULT NULL;",
  "",
  "CREATE INDEX \"idx_workflow_status_parent_workflow_id\" ON %s.\"workflow_status\" (\"parent_workflow_id\");",
  ""]

/-- `9_add_workflow_schedules.sql` -/
def addWorkflowSchedules : List String := [
  "-- Migration 9: Add workflow_schedules table",
  "-- Stores schedule metadata for workflow cron/interval scheduling.",
  "",
  "CREATE TABLE %s.workflow_schedules (",
  "    schedule_id TEXT PRIMARY KEY,",
  "    schedule_name TEXT NOT NULL UNIQUE,",
  "    workflow_name TEXT NOT NULL,",
  "    workflow_class_name TEXT,",
  "    schedule TEXT NOT NULL,",
  "    status TEXT NOT NULL DEFAULT 'ACTIVE',",
  "    context TEXT NOT NULL",
  ");",
  ""]

/-- `11_add_serialization_columns.sql` -/
def addSerializationColumns : List String := [
  "-- Migration 11: Add serialization column to workflow and event tables",
  "-- Stores serialization format/metadata for workflow data.",
  "",
  "ALTER TABLE %s.workflow_status ADD COLUMN serialization TEXT DEFAULT NULL;",
  "ALTER TABLE %s.notifications ADD COLUMN serialization TEXT DEFAULT NULL;",
  "ALTER TABLE %s.workflow_events ADD COLUMN serialization TEXT DEFAULT NULL;",
  "ALTER TABLE %s.workflow_events_history ADD COLUMN serialization TEXT DEFAULT NULL;",
  "ALTER TABLE %s.operation_outputs ADD COLUMN serialization TEXT DEFAULT NULL;",
  "ALTER TABLE %s.streams ADD COLUMN serialization TEXT DEFAULT NULL;",
  ""]

/-- `12_add_notifications_consumed.sql` -/
def addNotificationsConsumed : List String := [
  "-- Migration 12: Add consumed column to notifications and index for unconsumed lookups.",
  "",
  "ALTER TABLE %s.notifications ADD COLUMN consumed BOOLEAN NOT NULL DEFAULT FALSE;",
  "CREATE INDEX \"idx_notifications\" ON %s.notifications (destination_uuid, topic);",
  ""]

/-- `13_add_application_versions.sql` -/
def addApplicationVersions : List String := [
  "-- Migration 13: Add application_versions table for version tracking.",
  "",
  "CREATE TABLE %s.application_versions (",
  "    version_id TEXT NOT NULL PRIMARY KEY,",
  "    version_name TEXT NOT NULL UNIQUE,",
  "    version_timestamp BIGINT NOT NULL DEFAULT (EXTRACT(epoch FROM now())::numeric * 1000)::bigint,",
  "    created_at BIGINT NOT NULL DEFAULT (EXTRACT(epoch FROM now())::numeric * 1000)::bigint",
  ");",
  ""]

/-- `14_add_pgsql_client_functions.sql` -/
def addPgsqlClientFunctions : List String := [
  "-- Migration 14: Add plpgsql stored functions for direct SQL client access.",
  "",
  "CREATE FUNCTION %s.enqueue_workflow(",
  "    workflow_name TEXT,",
  "    queue_name TEXT,",
  "    positional_args JSON[] DEFAULT ARRAY[]::JSON[],",
  "    named_args JSON DEFAULT '\x7b\x7d'::JSON,",
  "    class_name TEXT DEFAULT NULL,",
  "    config_name TEXT DEFAULT NULL,",
  "    workflow_id TEXT DEFAULT NULL,",
  "    app_version TEXT DEFAULT NULL,",
  "    timeout_ms BIGINT DEFAULT NULL,",
  "    deadline_epoch_ms BIGINT DEFAULT NULL,",
  "    deduplication_id TEXT DEFAULT NULL,",
  "    priority INTEGER DEFAULT NULL,",
  "    queue_partition_key TEXT DEFAULT NULL",
  ") RETURNS TEXT AS $$",
  "DECLARE",
  "    v_workflow_id TEXT;",
  "    v_serialized_inputs TEXT;",
  "    v_owner_xid TEXT;",
  "    v_now BIGINT;",
  "    v_recovery_attempts INTEGER := 0;",
  "    v_priority INTEGER;",
  "BEGIN",
  "",
  "    -- Validate required parameters",
  "    IF workflow_name IS NULL OR workflow_name = '' THEN",
  "        RAISE EXCEPTION 'Workflow name cannot be null or empty';",
  "    END IF;",
  "    IF queue_name IS NULL OR queue_name = '' THEN",
  "        RAISE EXCEPTION 'Queue name cannot be null or empty';",
  "    END IF;",
  "    IF named_args IS NOT NULL AND jsonb_typeof(named_args::jsonb) != 'object' THEN",
  "        RAISE EXCEPTION 'Named args must be a JSON object';",
  "    END IF;",
  "    IF workflow_id IS NOT NULL AND workflow_id = '' THEN",
  "        RAISE EXCEPTION 'Workflow ID cannot be an empty string if provided.';",
  "    END IF;",
  "",
  "    v_workflow_id := COALESCE(workflow_id, gen_random_uuid()::TEXT);",
  "    v_owner_xid := gen_random_uuid()::TEXT;",
  "    v_priority := COALESCE(priority, 0);",
  "    v_serialized_inputs := json_build_object(",
  "        'positionalArgs', positional_args,",
  "        'namedArgs', named_args",
  "    )::TEXT;",
  "    v_now := EXTRACT(epoch FROM now()) * 1000;",
  "",
  "    INSERT INTO %s.workflow_status (",
  "        workflow_uuid, status, inputs,",
  "        name, class_name, config_name,",
  "        authenticated_user, assumed_role,",
  "        queue_name, deduplication_id, priority, queue_partition_key,",
  "        application_version,",
  "        created_at, updated_at, recovery_attempts,",
  "        workflow_timeout_ms, workflow_deadline_epoch_ms,",
  "        parent_workflow_id, owner_xid, serialization",
  "    ) VALUES (",
  "        v_workflow_id, 'ENQUEUED', v_serialized_inputs,",
  "        workflow_name, class_name, config_name,",
  "        '', '',",
  "        queue_name, deduplication_id, v_priority, queue_partition_key,",
  "        app_version,",
  "        v_now, v_now, v_recovery_attempts,",
  "        timeout_ms, deadline_epoch_ms,",
  "        NULL, v_owner_xid, 'portable_json'",
  "    )",
  "    ON CONFLICT (workflow_uuid)",
  "    DO UPDATE SET",
  "        updated_at = EXCLUDED.updated_at;",
  "",
  "    RETURN v_workflow_id;",
  "",
  "EXCEPTION",
  "    WHEN unique_violation THEN",
  "        RAISE EXCEPTION 'DBOS queue duplicated'",
  "            USING DETAIL = format('Workflow %%s with queue %%s and deduplication ID %%s already exists', v_workflow_id, queue_name, deduplication_id),",
  "                ERRCODE = 'unique_violation';",
  "END;",
  "$$ LANGUAGE plpgsql;",
  "",
  "CREATE FUNCTION %s.send_message(",
  "    destination_id TEXT,",
  "    message JSON,",
  "    topic TEXT DEFAULT NULL,",
  "    message_id TEXT DEFAULT NULL",
  ") RETURNS VOID AS $$",
  "DECLARE",
  "    v_topic TEXT := COALESCE(topic, '__null__topic__');",
  "    v_message_id TEXT := COALESCE(message_id, gen_random_uuid()::TEXT);",
  "BEGIN",
  "    INSERT INTO %s.notifications (",
  "        destination_uuid, topic, message, message_uuid, serialization",
  "    ) VALUES (",
  "        destination_id, v_topic, message, v_message_id, 'portable_json'",
  "    )",
  "    ON CONFLICT (message_uuid) DO NOTHING;",
  "EXCEPTION",
  "    WHEN foreign_key_violation THEN",
  "        RAISE EXCEPTION 'DBOS non-existent workflow'",
  "            USING DETAIL = format('Destination workflow %%s does not exist', destination_id),",
  "                ERRCODE = 'foreign_key_violation';",
  "END;",
  "$$ LANGUAGE plpgsql;",
  ""]

/-- `15_add_workflow_schedule_columns.sql` -/
def addWorkflowScheduleColumns : List String := [
  "-- Migration 15: Add columns to workflow_schedules for enhanced scheduling",
  "-- Adds last_fired_at, automatic_backfill, and cron_timezone columns.",
  "",
  "ALTER TABLE %s.workflow_schedules ADD COLUMN \"last_fired_at\" TEXT DEFAULT NULL;",
  "ALTER TABLE %s.workflow_schedules ADD COLUMN \"automatic_backfill\" BOOLEAN NOT NULL DEFAULT FALSE;",
  "ALTER TABLE %s.workflow_schedules ADD COLUMN \"cron_timezone\" TEXT DEFAULT NULL;"]

/-- `16_add_delay_until.sql` -/
def addDelayUntil : List String := [
  "-- Migration 16: Add delay_until_epoch_ms column for delayed queue execution",
  "-- Workflows with this set start in DELAYED status and transition to ENQUEUED after the delay expires.",
  "",
  "ALTER TABLE %s.workflow_status ADD COLUMN \"delay_until_epoch_ms\" BIGINT DEFAULT NULL;",
  "CREATE INDEX \"idx_workflow_status_delayed\" ON %s.workflow_status (\"delay_until_epoch_ms\") WHERE status = 'DELAYED';"]

/-- `17_add_workflow_schedule_queue_name.sql` -/
def addWorkflowScheduleQueueName : List String := [
  "-- Migration 17: Add queue_name column to workflow_schedules",
  "-- Lets schedules target a user-defined queue; NULL falls back to the internal queue.",
  "",
  "ALTER TABLE %s.workflow_schedules ADD COLUMN \"queue_name\" TEXT DEFAULT NULL;",
  ""]

/-- `18_add_was_forked_from.sql` -/
def addWasForkedFrom : List String := [
  "-- Migration 18: Add was_forked_from column to workflow_status. Marks workflows",
  "-- that have been forked at least once, so the fork query can avoid scanning",
  "-- rows that have never been a fork source.",
  "",
  "ALTER TABLE %s.\"workflow_status\" ADD COLUMN \"was_forked_from\" BOOLEAN NOT NULL DEFAULT FALSE;",
  ""]

/-- `19_add_operation_outputs_completed_at_index.sql` -/
def addOperationOutputsCompletedAtIndex : List String := [
  "-- Migration 19: Index operation_outputs on (completed_at_epoch_ms, function_name)",
  "-- to speed up queries that filter or sort step outputs by completion time.",
  "",
  "CREATE INDEX \"idx_operation_outputs_completed_at_function_name\" ON %s.\"operation_outputs\" (\"completed_at_epoch_ms\", \"function_name\");",
  ""]

/-- `20_set_function_search_path.sql` -/
def setFunctionSearchPath : List String := [
  "-- Migration 20: Pin search_path on the plpgsql functions installed by the",
  "-- earlier migrations. Without this, a function's search_path resolves at",
  "-- call time against whatever the caller has set, which lets an attacker with",
  "-- CREATE-on-schema privileges shadow built-ins. Setting it to",
  "-- pg_catalog, pg_temp ensures references resolve only to the system catalog.",
  "--",
  "-- This migration is skipped on CockroachDB, which does not support",
  "-- ALTER FUNCTION ... SET. The runner passes the empty string in that case.",
  "",
  "ALTER FUNCTION %s.enqueue_workflow(",
  "    TEXT, TEXT, JSON[], JSON, TEXT, TEXT, TEXT, TEXT, BIGINT, BIGINT, TEXT, INTEGER, TEXT",
  ") SET search_path = pg_catalog, pg_temp;",
  "",
  "ALTER FUNCTION %s.send_message(",
  "    TEXT, JSON, TEXT, TEXT",
  ") SET search_path = pg_catalog, pg_temp;",
  "",
  "ALTER FUNCTION %s.notifications_function() SET search_path = pg_catalog, pg_temp;",
  "ALTER FUNCTION %s.workflow_events_function() SET search_path = pg_catalog, pg_temp;",
  ""]

/-- `21_create_queues_table.sql` -/
def createQueuesTable : List String := [
  "-- Migration 21: Create the queues registry table. Persists per-queue",
  "-- configuration (concurrency limits, rate limits, priority, partitioning,",
  "-- polling cadence) so it can be inspected and updated independently of any",
  "-- particular running executor.",
  "",
  "CREATE TABLE %s.queues (",
  "    queue_id TEXT PRIMARY KEY DEFAULT gen_random_uuid()::TEXT,",
  "    name TEXT NOT NULL UNIQUE,",
  "    concurrency INTEGER,",
  "    worker_concurrency INTEGER,",
  "    rate_limit_max INTEGER,",
  "    rate_limit_period_sec DOUBLE PRECISION,",
  "    priority_enabled BOOLEAN NOT NULL DEFAULT FALSE,",
  "    partition_queue BOOLEAN NOT NULL DEFAULT FALSE,",
  "    polling_interval_sec DOUBLE PRECISION NOT NULL DEFAULT 1.0,",
  "    created_at BIGINT NOT NULL DEFAULT (EXTRACT(epoch FROM now()) * 1000.0)::bigint,",
  "    updated_at BIGINT NOT NULL DEFAULT (EXTRACT(epoch FROM now()) * 1000.0)::bigint",
  ");",
  ""]

/-- `22_drop_forked_from_index.sql` -/
def dropForkedFromIndex : List String := [
  "-- Migration 18: Drop the non-partial index on forked_from in preparation for",
  "-- recreating it as a partial index (only on non-NULL values).",
  "",
  "DROP INDEX %s IF EXISTS %s.\"idx_workflow_status_forked_from\";",
  ""]

/-- `23_create_partial_forked_from_index.sql` -/
def createPartialForkedFromIndex : List String := [
  "-- Migration 19: Recreate idx_workflow_status_forked_from as a partial index.",
  "-- The full index was rarely useful since most workflows have a NULL forked_from",
  "-- value, so this avoids index maintenance on every workflow insert.",
  "",
  "CREATE INDEX %s IF NOT EXISTS \"idx_workflow_status_forked_from\" ON %s.\"workflow_status\" (\"forked_from\") WHERE \"forked_from\" IS NOT NULL;",
  ""]

/-- `24_drop_parent_workflow_id_index.sql` -/
def dropParentWorkflowIdIndex : List String := [
  "-- Migration 20: Drop the non-partial index on parent_workflow_id in preparation",
  "-- for recreating it as a partial index (only on non-NULL values).",
  "",
  "DROP INDEX %s IF EXISTS %s.\"idx_workflow_status_parent_workflow_id\";",
  ""]

/-- `25_create_partial_parent_workflow_id_index.sql` -/
def createPartialParentWorkflowIdIndex : List String := [
  "-- Migration 21: Recreate idx_workflow_status_parent_workflow_id as a partial",
  "-- index. The full index was rarely useful since most workflows have a NULL",
  "-- parent_workflow_id, so this avoids index maintenance on every workflow insert.",
  "",
  "CREATE INDEX %s IF NOT EXISTS \"idx_workflow_status_parent_workflow_id\" ON %s.\"workflow_status\" (\"parent_workflow_id\") WHERE \"parent_workflow_id\" IS NOT NULL;",
  ""]

/-- `26_drop_executor_id_index.sql` -/
def dropExecutorIdIndex : List String := [
  "-- Migration 22: Drop the index on executor_id. The recovery query that used",
  "-- this index no longer relies on it.",
  "",
  "DROP INDEX %s IF EXISTS %s.\"workflow_status_executor_id_index\";",
  ""]

/-- `27_create_partial_dedup_id_index.sql` -/
def createPartialDedupIdIndex : List String := [
  "-- Migration 23: Create a partial unique index on (queue_name, deduplication_id)",
  "-- restricted to non-NULL deduplication_id. The new index uses a different name",
  "-- than the original unique constraint (uq_workflow_status_queue_name_dedup_id)",
  "-- to avoid a naming collision; the old constraint is dropped in migration 24.",
  "",
  "CREATE UNIQUE INDEX %s IF NOT EXISTS \"uq_workflow_status_dedup_id\" ON %s.\"workflow_status\" (\"queue_name\", \"deduplication_id\") WHERE \"deduplication_id\" IS NOT NULL;",
  ""]

/-- `28_drop_dedup_id_constraint.sql` -/
def dropDedupIdConstraint : List String := [
  "-- Migration 24: Drop the original full unique constraint on",
  "-- (queue_name, deduplication_id). The partial-index replacement",
  "-- (uq_workflow_status_dedup_id) was created in migration 23.",
  "--",
  "-- This is a fast catalog operation, so CONCURRENTLY is not needed.",
  "-- CockroachDB implements unique constraints as indexes and rejects",
  "-- ALTER TABLE DROP CONSTRAINT for them; PostgreSQL rejects DROP INDEX",
  "-- on a constraint-backed index. The runner picks the right statement",
  "-- based on the dialect.",
  "",
  "ALTER TABLE %s.workflow_status DROP CONSTRAINT IF EXISTS uq_workflow_status_queue_name_dedup_id;",
  ""]

/-- `29_create_pending_index.sql` -/
def createPendingIndex : List String := [
  "-- Migration 25: Create a partial index on workflow_status restricted to",
  "-- PENDING workflows. Used by the recovery query. Splitting the old",
  "-- workflow_status_status_index into two partial indexes (this and",
  "-- idx_workflow_status_failed) reduces the number of times the index is",
  "-- updated during a typical workflow lifetime",
  "-- (ENQUEUED -> PENDING -> SUCCESS only updates this index on entry/exit",
  "-- of PENDING).",
  "",
  "CREATE INDEX %s IF NOT EXISTS \"idx_workflow_status_pending\" ON %s.\"workflow_status\" (\"created_at\") WHERE \"status\" = 'PENDING';",
  ""]

/-- `30_create_failed_index.sql` -/
def createFailedIndex : List String := [
  "-- Migration 26: Create a partial index on workflow_status restricted to",
  "-- failed workflows (ERROR, CANCELLED, MAX_RECOVERY_ATTEMPTS_EXCEEDED) for",
  "-- rapid troubleshooting queries.",
  "",
  "CREATE INDEX %s IF NOT EXISTS \"idx_workflow_status_failed\" ON %s.\"workflow_status\" (\"status\", \"created_at\") WHERE \"status\" IN ('ERROR', 'CANCELLED', 'MAX_RECOVERY_ATTEMPTS_EXCEEDED');",
  ""]

/-- `31_drop_status_index.sql` -/
def dropStatusIndex : List String := [
  "-- Migration 27: Drop the original full index on workflow_status.status.",
  "-- Replaced by the two partial indexes idx_workflow_status_pending and",
  "-- idx_workflow_status_failed.",
  "",
  "DROP INDEX %s IF EXISTS %s.\"workflow_status_status_index\";",
  ""]

/-- `32_create_in_flight_index.sql` -/
def createInFlightIndex : List String := [
  "-- Migration 28: Create a partial composite index used by the main dequeue",
  "-- query. Indexes on (queue_name, status, priority, created_at) — the exact",
  "-- predicates and sort order of the dequeue query — restricted to in-flight",
  "-- (ENQUEUED or PENDING) workflows.",
  "",
  "CREATE INDEX %s IF NOT EXISTS \"idx_workflow_status_in_flight\" ON %s.\"workflow_status\" (\"queue_name\", \"status\", \"priority\", \"created_at\") WHERE \"status\" IN ('ENQUEUED', 'PENDING');",
  ""]

/-- `33_add_rate_limited.sql` -/
def addRateLimited : List String := [
  "-- Migration 29: Add a rate_limited column to workflow_status. Workflows",
  "-- dequeued from a queue with a rate limiter are marked rate_limited = TRUE",
  "-- so the rate-limiter count can use a partial index restricted to those rows",
  "-- (see idx_workflow_status_rate_limited in migration 30).",
  "--",
  "-- ALTER TABLE ADD COLUMN with a constant default is fast on Postgres because",
  "-- it is a catalog-only update (attmissingval), so CONCURRENTLY is not needed.",
  "",
  "ALTER TABLE %s.\"workflow_status\" ADD COLUMN IF NOT EXISTS \"rate_limited\" BOOLEAN NOT NULL DEFAULT FALSE;",
  ""]

/-- `34_create_rate_limited_index.sql` -/
def createRateLimitedIndex : List String := [
  "-- Migration 30: Create a partial index used by the rate-limiter count query",
  "-- to quickly find recent workflows in a rate-limited queue. The index is only",
  "-- maintained for workflows actually dequeued under a rate limiter.",
  "",
  "CREATE INDEX %s IF NOT EXISTS \"idx_workflow_status_rate_limited\" ON %s.\"workflow_status\" (\"queue_name\", \"started_at_epoch_ms\") WHERE \"rate_limited\" = TRUE;",
  ""]

/-- `35_drop_queue_status_started_index.sql` -/
def dropQueueStatusStartedIndex : List String := [
  "-- Migration 31: Drop the original queue-status-started index. Superseded by",
  "-- the partial in-flight index (idx_workflow_status_in_flight) and the partial",
  "-- rate-limited index (idx_workflow_status_rate_limited).",
  "",
  "DROP INDEX %s IF EXISTS %s.\"idx_workflow_status_queue_status_started\";",
  ""]

/-- `36_add_completed_at.sql` -/
def addCompletedAt : List String := [
  "-- Migration 36: Add completed_at column to workflow_status, recording when a",
  "-- workflow reached a terminal state. ADD COLUMN with no default is catalog-only;",
  "-- the partial index built in the same transaction covers zero rows, so no",
  "-- CONCURRENTLY is needed.",
  "",
  "ALTER TABLE %s.\"workflow_status\" ADD COLUMN IF NOT EXISTS \"completed_at\" BIGINT;",
  "CREATE INDEX IF NOT EXISTS \"idx_workflow_status_completed_at\" ON %s.\"workflow_status\" (\"completed_at\") WHERE \"completed_at\" IS NOT NULL;",
  ""]

/-- `37_create_started_at_index.sql` -/
def createStartedAtIndex : List String := [
  "-- Migration 37: Create a partial index on started_at_epoch_ms to speed up",
  "-- queries filtering workflows by dequeue time.",
  "",
  "CREATE INDEX %s IF NOT EXISTS \"idx_workflow_status_started_at\" ON %s.\"workflow_status\" (\"started_at_epoch_ms\") WHERE \"started_at_epoch_ms\" IS NOT NULL;",
  ""]

/-- `39_create_streams_trigger.sql` -/
def createStreamsTrigger : List String := [
  "-- Migration 39: Notify a blocked stream reader as soon as a value is written,",
  "-- mirroring the notifications/workflow_events triggers from migration 1. Gated",
  "-- on LISTEN/NOTIFY support; deployments without it (e.g. CockroachDB) use the",
  "-- polling fallback and skip this migration.",
  "",
  "CREATE OR REPLACE FUNCTION %s.streams_function() RETURNS TRIGGER AS $$",
  "DECLARE",
  "    payload text := NEW.workflow_uuid || '::' || NEW.key;",
  "BEGIN",
  "    PERFORM pg_notify('dbos_streams_channel', payload);",
  "    RETURN NEW;",
  "END;",
  "$$ LANGUAGE plpgsql;",
  "",
  "ALTER FUNCTION %s.streams_function() SET search_path = pg_catalog, pg_temp;",
  "",
  "DROP TRIGGER IF EXISTS dbos_streams_trigger ON %s.streams;",
  "CREATE TRIGGER dbos_streams_trigger",
  "AFTER INSERT ON %s.streams",
  "FOR EACH ROW EXECUTE FUNCTION %s.streams_function();",
  ""]

/-- `40_add_attributes.sql` -/
def addAttributes : List String := [
  "-- Migration 40: Add a JSONB attributes column to workflow_status for arbitrary",
  "-- user-supplied workflow metadata. ADD COLUMN with no default is catalog-only;",
  "-- the partial index built in the same transaction covers zero rows, so no",
  "-- CONCURRENTLY is needed. The index supports containment (@>) filters; on",
  "-- CockroachDB, USING GIN creates an inverted index.",
  "",
  "ALTER TABLE %s.\"workflow_status\" ADD COLUMN IF NOT EXISTS \"attributes\" JSONB;",
  "CREATE INDEX IF NOT EXISTS \"idx_workflow_status_attributes\" ON %s.\"workflow_status\" USING GIN (\"attributes\") WHERE \"attributes\" IS NOT NULL;",
  ""]

end Dbos.MigrationFiles
