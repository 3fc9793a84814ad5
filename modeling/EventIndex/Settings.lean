import EventIndex.Index.Engine
import EventIndex.Text.Decimal
import EventIndex.Toml.Document

/-! # Settings — what a user can adjust

Settings come from a TOML file with the sections `storage`, `index` and
`logging`; what a file leaves out has a default, and unknown keys are ignored.
A section may also be written as an array, whose items are then taken for the
settings of the section in their order. Environment variables override what
the file says; a number among them that cannot be read is ignored.
-/

namespace EventIndex

open Text Toml

/-- What the defaults depend on. -/
structure Surroundings where
  /-- The directory that holds the user's data. -/
  dataHome : String
  /-- The number of processor cores. -/
  cores : Nat
deriving Repr

structure StorageSettings where
  dataDir : String
  pageSize : Nat
  pageBufferSize : Nat
  pageCachePages : Nat
deriving DecidableEq, Repr

structure IndexSettings where
  taskSize : Nat
  useThreshold : Nat
  workerThreads : Nat
  behaviorCount : Nat
deriving DecidableEq, Repr

structure LoggingSettings where
  level : String
  format : String
deriving DecidableEq, Repr

/-- All settings. -/
structure Settings where
  storage : StorageSettings
  index : IndexSettings
  logging : LoggingSettings
deriving DecidableEq, Repr

/-- Why there are no settings. -/
inductive SettingsError where
  /-- The file cannot be read. -/
  | unreadable
  /-- The file is no TOML, or a setting has the wrong type. -/
  | malformed
deriving DecidableEq, Repr

namespace Settings

/-- The largest size that a setting can have. -/
def maxSize : Nat := 18446744073709551615

/-- The largest use threshold. -/
def maxThreshold : Nat := 4294967295

/-- The settings of an empty file. -/
def defaults (s : Surroundings) : Settings where
  storage :=
    { dataDir := s.dataHome ++ "/tracedex"
      pageSize := 4096
      pageBufferSize := 67108864
      pageCachePages := 1024 }
  index := { taskSize := 1024, useThreshold := 10, workerThreads := s.cores, behaviorCount := 200000 }
  logging := { level := "info", format := "pretty" }

/-! ## Typed reading -/

/-- The item of each of some keys, in their order, that a section holds. A date where a section is
expected holds nothing; anything else that is neither a table nor an array is an error. -/
def sectionItems (keys : List String) : Option Item → Option (List (Option Item))
  | none => some (keys.map fun _ => none)
  | some .moment => some (keys.map fun _ => none)
  | some (.table _ es) => some (keys.map (Entries.item? es))
  | some (.array items) => some ((List.range keys.length).map (items[·]?))
  | some (.tables elements) =>
    some ((List.range keys.length).map fun i => (elements[i]?).map (Item.table .header))
  | some _ => none

/-- A number no larger than `bound`. -/
def numberOr (bound default : Nat) : Option Item → Option Nat
  | none => some default
  | some (.integer n) => if 0 ≤ n ∧ n ≤ bound then some n.toNat else none
  | some _ => none

/-- A text. -/
def textOr (default : String) : Option Item → Option String
  | none => some default
  | some (.text s) => some s
  | some _ => none

/-- Reads the section `storage`. -/
def storageOf (d : StorageSettings) (item : Option Item) : Option StorageSettings := do
  match ← sectionItems ["data_dir", "page_size", "page_buffer_size", "page_cache_pages"] item with
  | [dir, size, buffer, cache] =>
    return {
      dataDir := ← textOr d.dataDir dir
      pageSize := ← numberOr maxSize d.pageSize size
      pageBufferSize := ← numberOr maxSize d.pageBufferSize buffer
      pageCachePages := ← numberOr maxSize d.pageCachePages cache }
  | _ => none

/-- Reads the section `index`. -/
def indexOf (d : IndexSettings) (item : Option Item) : Option IndexSettings := do
  match ← sectionItems ["task_size", "use_threshold", "worker_threads", "behavior_count"] item with
  | [task, threshold, workers, behaviors] =>
    return {
      taskSize := ← numberOr maxSize d.taskSize task
      useThreshold := ← numberOr maxThreshold d.useThreshold threshold
      workerThreads := ← numberOr maxSize d.workerThreads workers
      behaviorCount := ← numberOr maxSize d.behaviorCount behaviors }
  | _ => none

/-- Reads the section `logging`. -/
def loggingOf (d : LoggingSettings) (item : Option Item) : Option LoggingSettings := do
  match ← sectionItems ["level", "format"] item with
  | [level, format] =>
    return { level := ← textOr d.level level, format := ← textOr d.format format }
  | _ => none

/-- The settings that a document holds. -/
def ofDocument (d : Settings) (es : Entries) : Option Settings := do
  return {
    storage := ← storageOf d.storage (es.item? "storage")
    index := ← indexOf d.index (es.item? "index")
    logging := ← loggingOf d.logging (es.item? "logging") }

/-- The settings in a file, `none` being a file that cannot be read. -/
def load (s : Surroundings) : Option String → Except SettingsError Settings
  | none => .error .unreadable
  | some text =>
    match (Toml.document text).bind (ofDocument (defaults s)) with
    | none => .error .malformed
    | some settings => .ok settings

/-! ## Environment -/

/-- The variables of an environment. -/
abbrev Environment := List (String × String)

/-- The number in a variable, if it holds one. -/
def numberIn (env : Environment) (name : String) : Option Nat :=
  (env.lookup name).bind fun text => unsigned? maxSize text.toList

/-- The settings after the variables of an environment have had their say. -/
def override (env : Environment) (c : Settings) : Settings where
  storage :=
    { c.storage with
      dataDir := (env.lookup "TRACEDEX_DATA_DIR").getD c.storage.dataDir
      pageSize := (numberIn env "TRACEDEX_PAGE_SIZE").getD c.storage.pageSize
      pageBufferSize := (numberIn env "TRACEDEX_PAGE_BUFFER_SIZE").getD c.storage.pageBufferSize }
  index :=
    { c.index with
      workerThreads := (numberIn env "TRACEDEX_WORKER_THREADS").getD c.index.workerThreads
      taskSize := (numberIn env "TRACEDEX_TASK_SIZE").getD c.index.taskSize }
  logging :=
    { level := (env.lookup "TRACEDEX_LOG_LEVEL").getD c.logging.level
      format := (env.lookup "TRACEDEX_LOG_FORMAT").getD c.logging.format }

/-- The settings of an environment alone. -/
def ofEnvironment (s : Surroundings) (env : Environment) : Settings := override env (defaults s)

/-- The settings in a file, overridden by an environment. -/
def loadWith (s : Surroundings) (env : Environment) (file : Option String) :
    Except SettingsError Settings :=
  (load s file).map (override env)

/-- The settings in the first of some files that can be used, overridden by an environment; those of
the environment alone if there is no such file. Files that do not exist are `none`. -/
def loadFirst (s : Surroundings) (env : Environment) : List (Option String) → Settings
  | [] => ofEnvironment s env
  | none :: files => loadFirst s env files
  | file :: files =>
    match loadWith s env file with
    | .ok c => c
    | .error _ => loadFirst s env files

/-- The settings handed to an engine. -/
def engineConfig (c : Settings) : EngineConfig where
  pageSize := c.storage.pageSize
  pageBufferSize := c.storage.pageBufferSize
  pageCachePages := c.storage.pageCachePages
  taskSize := c.index.taskSize
  useThreshold := c.index.useThreshold
  workerThreads := max c.index.workerThreads 1
  behaviorCount := c.index.behaviorCount

/-- The lines of a settings file that holds the defaults and says what they mean. -/
def defaultLines : List String :=
  ["# Tracedex Configuration",
   "#",
   "# Environment variables override these settings:",
   "# - TRACEDEX_DATA_DIR",
   "# - TRACEDEX_PAGE_SIZE",
   "# - TRACEDEX_PAGE_BUFFER_SIZE",
   "# - TRACEDEX_WORKER_THREADS",
   "# - TRACEDEX_TASK_SIZE",
   "# - TRACEDEX_LOG_LEVEL",
   "# - TRACEDEX_LOG_FORMAT",
   "",
   "[storage]",
   "# Directory holding the index file",
   "data_dir = \"~/.local/share/tracedex\"",
   "",
   "# Page size of the index file (bytes)",
   "page_size = 4096",
   "",
   "# Memory budget for resident indexes (bytes)",
   "page_buffer_size = 67108864",
   "",
   "# Decoded pages kept in the page cache",
   "page_cache_pages = 1024",
   "",
   "[index]",
   "# Tuples collected before a write batch is handed to the workers",
   "task_size = 1024",
   "",
   "# Accesses before an index is promoted in the residency order",
   "use_threshold = 10",
   "",
   "# Worker threads applying write batches (default: available cores)",
   "# worker_threads = 8",
   "",
   "# Initial size of the per-behavior counter array",
   "behavior_count = 200000",
   "",
   "[logging]",
   "# Log level: trace, debug, info, warn, error",
   "level = \"info\"",
   "",
   "# Log format: pretty (for development) or json (for production)",
   "format = \"pretty\""]

/-- The text of a settings file that holds the defaults and says what they mean. -/
def defaultFile : String := "\n".intercalate defaultLines ++ "\n"

end Settings

end EventIndex
