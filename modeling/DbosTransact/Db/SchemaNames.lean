import DbosTransact.Db.MigrationFiles
import DbosTransact.Foundation.SqlHoles
import Mathlib.Data.List.Forall2

/-!
# The schema name in the migrations

`build_migrations` puts the name of the schema into the migration files: in double quotes nearly
everywhere, and as it is in a string of migration 10. Rendering is defined for texts with holes as
well, so that one run of the lexer over each file (`check_of_mem`) speaks of every name: all of them
are embedded as long as the name has no single quote and no two dollars in a row, which end the
string and the body that it is in. Then `schemaEmbedded_iff` says that they are embedded for no
other name.
-/

namespace Dbos.SchemaNames

open SqlText MigrationFiles

/-- What `include_str!` reads. -/
def fileText (lines : List String) : List Char := ['\n'].intercalate (lines.map String.toList)

/-! ### Rendering -/

/-- Wrap in double quotes, doubling any embedded double quote. -/
def sanitizeIdent (ident : List Char) : List Char :=
  '"' :: (ident.flatMap fun c ↦ if c = '"' then ['"', '"'] else [c]) ++ ['"']

section

variable {α σ : Type} (lit : Char → α)

/-- `%%` becomes a `%`, and `%s` the next argument. The closure of the source has its variable in
the state. -/
def render (arg : σ → List α × σ) : σ → List Char → List α
  | _, [] => []
  | st, '%' :: '%' :: rest => lit '%' :: render arg st rest
  | st, '%' :: 's' :: rest => (arg st).1 ++ render arg (arg st).2 rest
  | st, c :: rest => lit c :: render arg st rest

/-- Every `%s` becomes `schema`. -/
def renderUniform (template : List Char) (schema : List α) : List α :=
  render lit (fun st ↦ (schema, st)) () template

/-- The first `%s` becomes `first`, and every other one `rest`. -/
def renderFirstRest (template : List Char) (first rest : List α) : List α :=
  render lit (fun used ↦ if used then (rest, used) else (first, true)) false template

structure Migration (α : Type) where
  version : ℤ
  sql : List α
  online : Bool

/-- The migrations of one file each, with their versions and whether they are online. -/
def simple : List (ℤ × List String × Bool) := [
  (2, addQueuePartitionKey, false),
  (3, addWorkflowStatusIndex, false),
  (4, addForkedFrom, false),
  (5, addStepTimestamps, false),
  (6, addWorkflowEventsHistory, false),
  (7, addOwnerXid, false),
  (8, addParentWorkflowId, false),
  (9, addWorkflowSchedules, false),
  (11, addSerializationColumns, false),
  (12, addNotificationsConsumed, false),
  (13, addApplicationVersions, false),
  (14, addPgsqlClientFunctions, false),
  (15, addWorkflowScheduleColumns, false),
  (16, addDelayUntil, false),
  (17, addWorkflowScheduleQueueName, false),
  (18, addWasForkedFrom, false),
  (19, addOperationOutputsCompletedAtIndex, false),
  (20, setFunctionSearchPath, false),
  (21, createQueuesTable, false),
  (22, dropForkedFromIndex, true),
  (23, createPartialForkedFromIndex, true),
  (24, dropParentWorkflowIdIndex, true),
  (25, createPartialParentWorkflowIdIndex, true),
  (26, dropExecutorIdIndex, true),
  (27, createPartialDedupIdIndex, true),
  (28, dropDedupIdConstraint, false),
  (29, createPendingIndex, true),
  (30, createFailedIndex, true),
  (31, dropStatusIndex, true),
  (32, createInFlightIndex, true),
  (33, addRateLimited, false),
  (34, createRateLimitedIndex, true),
  (35, dropQueueStatusStartedIndex, true),
  (36, addCompletedAt, false),
  (37, createStartedAtIndex, true),
  (39, createStreamsTrigger, false),
  (40, addAttributes, false)]

/-- A migration of one file. -/
def renderOne (s : List α) : ℤ × List String × Bool → Migration α
  | (version, template, online) =>
    ⟨version,
      if online then renderFirstRest lit (fileText template) ("CONCURRENTLY".toList.map lit) s
      else renderUniform lit (fileText template) s,
      online⟩

/-- Render all files, for the name as it is and the name in quotes. -/
def renderAll (schema s : List α) : List (Migration α) :=
  let v1 := fileText m1Schema ++ '\n' :: fileText m1ListenNotify
  let v38 := fileText m38Base ++ '\n' :: fileText m38SearchPath
  ⟨1, renderUniform lit v1 s, false⟩ :: simple.map (renderOne lit s) ++
    -- the catalog comparison uses the raw schema, the `ALTER` the sanitized one
    [⟨10, renderFirstRest lit (fileText m10) schema s, false⟩, ⟨38, renderUniform lit v38 s, false⟩]

def sortByVersion (migrations : List (Migration α)) : List (Migration α) :=
  migrations.mergeSort fun m m' ↦ m.version ≤ m'.version

end

def buildMigrations (schema : List Char) : List (Migration Char) :=
  sortByVersion (renderAll id schema (sanitizeIdent schema))

/-- The migrations with holes for the name. -/
def markedMigrations : List (Migration Item) := sortByVersion (renderAll .char [.value] [.name])

/-! ### Filling in the name

Rendering a file with holes and filling them in comes to rendering it with the name. -/

theorem sanitizeIdent_eq (ident : List Char) : sanitizeIdent ident = Quote.name.enclose ident := rfl

def Migration.fill (s : List Char) (m : Migration Item) : Migration Char :=
  ⟨m.version, SqlText.fill s m.sql, m.online⟩

section

variable (s : List Char)

theorem render_fill {σ : Type} (arg : σ → List Item × σ) (st : σ) (template : List Char) :
    render id (fun st ↦ (fill s (arg st).1, (arg st).2)) st template =
      fill s (render .char arg st template) := by
  fun_induction render Item.char arg st template with
  | case1 => rfl
  | case2 st rest ih => rw [render, ih]; rfl
  | case3 st rest ih => rw [render, ih, fill_append]
  | case4 st c rest hpercent hs ih => rw [render, ih]; rfl; exact hpercent; exact hs

theorem renderUniform_fill (template : List Char) (schema : List Item) :
    renderUniform id template (fill s schema) = fill s (renderUniform .char template schema) :=
  render_fill s (fun st ↦ (schema, st)) () template

theorem renderFirstRest_fill (template : List Char) (first rest : List Item) :
    renderFirstRest id template (fill s first) (fill s rest) =
      fill s (renderFirstRest .char template first rest) := by
  rw [renderFirstRest, renderFirstRest, ← render_fill]
  congr 1
  funext used
  cases used <;> rfl

theorem fill_map_char (l : List Char) : fill s (l.map .char) = l := by
  induction l with
  | nil => rfl
  | cons c l ih => rw [List.map_cons, fill_cons, ih]; rfl

theorem renderOne_fill (name : List Item) (t : ℤ × List String × Bool) :
    renderOne id (fill s name) t = (renderOne .char name t).fill s := by
  obtain ⟨version, template, online⟩ := t
  have hfirst := renderFirstRest_fill s (fileText template) ("CONCURRENTLY".toList.map .char) name
  rw [fill_map_char] at hfirst
  rw [renderOne, renderOne, Migration.fill, List.map_id, hfirst, renderUniform_fill]
  split_ifs <;> rfl

theorem renderAll_fill (schema name : List Item) :
    renderAll id (fill s schema) (fill s name) =
      (renderAll .char schema name).map (Migration.fill s) := by
  have hsimple : simple.map (renderOne id (fill s name)) =
      (simple.map (renderOne .char name)).map (Migration.fill s) := by
    rw [List.map_map]
    exact List.map_congr_left fun t _ ↦ renderOne_fill s name t
  simp only [renderAll, List.map_cons, List.map_append, List.map_nil, Migration.fill, hsimple,
    renderUniform_fill, renderFirstRest_fill]

/-- **The migrations for a name** are the ones with holes, filled in. -/
theorem buildMigrations_eq : buildMigrations s = markedMigrations.map (Migration.fill s) := by
  have hfill := renderAll_fill s [.value] [.name]
  rw [show fill s [.value] = s by simp [Item.fill],
    show fill s [.name] = sanitizeIdent s by simp [sanitizeIdent_eq, Item.fill]] at hfill
  rw [buildMigrations, markedMigrations, sortByVersion, sortByVersion, hfill]
  exact (List.map_mergeSort (f := Migration.fill s) fun _ _ _ _ ↦ rfl).symm

end

/-! ### The check of the files -/

/-- The lines of a file, character by character. -/
inductive Spells : List String → List (List Char) → Prop
  | nil : Spells [] []
  | cons (c : List Char) {lines cs} : Spells lines cs → Spells (String.ofList c :: lines) (c :: cs)

theorem Spells.fileText_eq {lines : List String} {cs : List (List Char)} (h : Spells lines cs) :
    fileText lines = ['\n'].intercalate cs := by
  have heq : lines.map String.toList = cs := by
    induction h with
    | nil => rfl
    | cons c _ ih => rw [List.map_cons, ih, String.toList_ofList]
  rw [fileText, heq]

theorem check_m10 :
    check (.outside .plain) (renderFirstRest .char (fileText m10) [.value] [.name]) = true ∧
      Item.value ∈ renderFirstRest .char (fileText m10) [.value] [.name] := by
  have hlines : ∃ cs, Spells m10 cs ∧ check (.outside .plain)
      (renderFirstRest .char (['\n'].intercalate cs) [.value] [.name]) = true ∧
      Item.value ∈ renderFirstRest .char (['\n'].intercalate cs) [.value] [.name] := by
    apply Exists.intro
    apply And.intro
    · repeat constructor
    · decide +kernel
  obtain ⟨cs, hcs, hcheck⟩ := hlines
  rwa [hcs.fileText_eq]

theorem check_renderOne {lines : List String} {cs : List (List Char)} (h : Spells lines cs)
    {version : ℤ} {online : Bool}
    (hcheck : check (.outside .plain)
      (if online then renderFirstRest .char (['\n'].intercalate cs)
          ("CONCURRENTLY".toList.map .char) [.name]
        else renderUniform .char (['\n'].intercalate cs) [.name]) = true) :
    check (.outside .plain) (renderOne .char [.name] (version, lines, online)).sql = true := by
  rw [renderOne, h.fileText_eq]
  exact hcheck

theorem check_simple :
    ∀ t ∈ simple, check (.outside .plain) (renderOne .char [.name] t).sql = true := by
  rw [simple]
  repeat' refine List.forall_mem_cons.2 ⟨?_, ?_⟩
  rotate_right
  · exact List.forall_mem_nil _
  all_goals
    apply check_renderOne
    · repeat constructor
    · decide +kernel

theorem check_joined {lines lines' : List String} {cs cs' : List (List Char)} (h : Spells lines cs)
    (h' : Spells lines' cs')
    (hcheck : check (.outside .plain) (renderUniform .char
      (['\n'].intercalate cs ++ '\n' :: ['\n'].intercalate cs') [.name]) = true) :
    check (.outside .plain)
      (renderUniform .char (fileText lines ++ '\n' :: fileText lines') [.name]) = true := by
  rw [h.fileText_eq, h'.fileText_eq]
  exact hcheck

theorem check_v1 : check (.outside .plain)
    (renderUniform .char (fileText m1Schema ++ '\n' :: fileText m1ListenNotify) [.name]) =
      true := by
  apply check_joined
  · repeat constructor
  · repeat constructor
  · decide +kernel

theorem check_v38 : check (.outside .plain)
    (renderUniform .char (fileText m38Base ++ '\n' :: fileText m38SearchPath) [.name]) = true := by
  apply check_joined
  · repeat constructor
  · repeat constructor
  · decide +kernel

/-- **Every migration passes the check.** -/
theorem check_of_mem {m : Migration Item} (hm : m ∈ markedMigrations) :
    check (.outside .plain) m.sql = true := by
  rw [markedMigrations, sortByVersion, List.mem_mergeSort, renderAll] at hm
  simp only [List.cons_append, List.mem_cons, List.mem_append, List.mem_map, List.not_mem_nil,
    or_false] at hm
  obtain rfl | ⟨t, ht, rfl⟩ | rfl | rfl := hm
  · exact check_v1
  · exact check_simple t ht
  · exact check_m10.1
  · exact check_v38

theorem mem_renderAll {α : Type} (lit : Char → α) (schema s : List α) :
    ⟨10, renderFirstRest lit (fileText m10) schema s, false⟩ ∈ renderAll lit schema s :=
  List.mem_append_right _ List.mem_cons_self

/-- Migration 10 has a string with the name in it. -/
theorem exists_value : ∃ m ∈ markedMigrations, Item.value ∈ m.sql := by
  have hm := mem_renderAll Item.char [.value] [.name]
  rw [← List.mem_mergeSort, ← sortByVersion] at hm
  exact ⟨_, hm, check_m10.2⟩

/-! ### The names that are embedded -/

/-- The name of the schema unless another one is set. -/
def defaultSchema : List Char := ['d', 'b', 'o', 's']

/-- The text with the name in its holes is split as it is for `dbos`, and each hole is in one token,
which denotes the name. Also the name in quotes is read back. -/
def SchemaEmbedded (schema : List Char) : Prop :=
  List.Forall₂ (fun m marked ↦ m = marked.fill schema ∧ Embeds schema defaultSchema marked.sql)
      (buildMigrations schema) markedMigrations ∧
    Quote.name.unquote (sanitizeIdent schema) = some schema

theorem schemaEmbedded_iff_forall (schema : List Char) : SchemaEmbedded schema ↔
    ∀ m ∈ markedMigrations, Embeds schema defaultSchema m.sql := by
  rw [SchemaEmbedded, buildMigrations_eq, List.forall₂_map_left_iff, List.forall₂_same]
  constructor
  · exact fun h m hm ↦ (h.1 m hm).2
  · exact fun h ↦ ⟨fun m hm ↦ ⟨rfl, h m hm⟩, Quote.unquote_enclose .name schema⟩

theorem tame_defaultSchema : Tame defaultSchema := by
  constructor <;> decide

/-- The string of migration 10 is embedded for tame names only. -/
theorem tame_of_schemaEmbedded {schema : List Char} (h : SchemaEmbedded schema) : Tame schema := by
  obtain ⟨m, hm, hvalue⟩ := exists_value
  exact tame_of_embeds tame_defaultSchema (by decide) (check_of_mem hm) hvalue
    ((schemaEmbedded_iff_forall schema).1 h m hm)

/-- **The schema name is embedded safely** in the migrations if and only if it has no single quote
and no two dollars in a row. -/
theorem schemaEmbedded_iff (schema : List Char) :
    SchemaEmbedded schema ↔ '\'' ∉ schema ∧ ¬['$', '$'] <:+: schema := by
  constructor
  · exact tame_of_schemaEmbedded
  · intro hs
    rw [schemaEmbedded_iff_forall]
    exact fun m hm ↦ embeds_of_check (check_of_mem hm) hs tame_defaultSchema

/-- A name with a single quote ends the string of migration 10. -/
theorem quote_not_embedded : ¬SchemaEmbedded ['a', '\'', 'b'] :=
  fun h ↦ (tame_of_schemaEmbedded h).1 (by simp)

end Dbos.SchemaNames
