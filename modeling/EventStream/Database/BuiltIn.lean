/-! Tables that every database answers to without anyone creating them: those that hold its
schema, the readers of JSON and of text, and one for each setting that can be asked for. -/

namespace EventStream.Database

def schemaColumns : List String := ["type", "name", "tbl_name", "rootpage", "sql"]

def jsonColumns : List String :=
  ["key", "value", "type", "atom", "id", "parent", "fullkey", "path"]

/-- Settings whose table has one column, which is named after the setting. -/
def settings : List String :=
  ["analysis_limit", "application_id", "auto_vacuum", "automatic_index", "cache_size",
    "cache_spill", "cell_size_check", "checkpoint_fullfsync", "compile_options",
    "count_changes", "data_version", "defer_foreign_keys", "empty_result_callbacks",
    "encoding", "foreign_keys", "freelist_count", "full_column_names", "fullfsync",
    "hard_heap_limit", "ignore_check_constraints", "integrity_check", "journal_mode",
    "journal_size_limit", "legacy_alter_table", "locking_mode", "max_page_count", "optimize",
    "page_count", "page_size", "query_only", "quick_check", "read_uncommitted",
    "recursive_triggers", "reverse_unordered_selects", "schema_version", "secure_delete",
    "short_column_names", "soft_heap_limit", "synchronous", "temp_store", "threads",
    "trusted_schema", "user_version", "writable_schema"]

/-- Settings and reports whose table has other columns. -/
def reports : List (String × List String) :=
  [("busy_timeout", ["timeout"]),
    ("collation_list", ["seq", "name"]),
    ("database_list", ["seq", "name", "file"]),
    ("default_cache_size", ["cache_size"]),
    ("foreign_key_check", ["table", "rowid", "parent", "fkid"]),
    ("foreign_key_list",
      ["id", "seq", "table", "from", "to", "on_update", "on_delete", "match"]),
    ("function_list", ["name", "builtin", "type", "enc", "narg", "flags"]),
    ("index_info", ["seqno", "cid", "name"]),
    ("index_list", ["seq", "name", "unique", "origin", "partial"]),
    ("index_xinfo", ["seqno", "cid", "name", "desc", "coll", "key"]),
    ("module_list", ["name"]),
    ("pragma_list", ["name"]),
    ("table_info", ["cid", "name", "type", "notnull", "dflt_value", "pk"]),
    ("table_list", ["schema", "name", "type", "ncol", "wr", "strict"]),
    ("table_xinfo", ["cid", "name", "type", "notnull", "dflt_value", "pk", "hidden"])]

/-- Each such table with its columns. -/
def builtIn : List (String × List String) :=
  [("sqlite_master", schemaColumns),
    ("sqlite_schema", schemaColumns),
    ("sqlite_temp_master", schemaColumns),
    ("sqlite_temp_schema", schemaColumns),
    ("json_each", jsonColumns),
    ("json_tree", jsonColumns),
    ("fts3tokenize", ["input", "token", "start", "end", "position"]),
    ("dbstat",
      ["name", "path", "pageno", "pagetype", "ncell", "payload", "unused", "mx_payload",
        "pgoffset", "pgsize"])] ++
    settings.map (fun setting => ("pragma_" ++ setting, [setting])) ++
    reports.map fun (report, columns) => ("pragma_" ++ report, columns)

/-- The table that lists the columns of others. -/
def columnLister : String := "pragma_table_info"

/-- A table that is made for an index of words; it has no columns to list without one. -/
def indexReader : String := "fts4aux"

end EventStream.Database
