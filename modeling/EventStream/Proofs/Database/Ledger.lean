import EventStream.Database.Migration

/-! The names that a table keeps, and of these the record of the migrations carried out: what
writes to it, what it takes to read it, and the rest of the database. -/

namespace EventStream

namespace Database

variable {db db' : Database} {table name : String} {names old : List (Option String)}

@[simp] theorem sameName_self (name : String) : sameName name name = true := by
  simp [sameName]

theorem names?_eq_some : db.names? table = some names ↔
    ∃ t, db.table? table = some t ∧ hasColumn t.columns "name" = true ∧ t.names = names := by
  simp only [names?, Option.bind_eq_bind, Option.bind_eq_some_iff]
  refine exists_congr fun t => and_congr_right fun _ => ?_
  split <;> simp_all

theorem hasRelation_of_table? {t : Table} (h : db.table? table = some t) :
    db.hasRelation table = true := by
  obtain ⟨entry, hf, -⟩ := Option.map_eq_some_iff.mp h
  have hn : sameName table entry.1 = true := by simpa using List.find?_some hf
  simp only [hasRelation, Bool.or_eq_true, List.any_eq_true]
  exact .inl ⟨entry, List.mem_of_find?_eq_some hf, hn⟩

/-! ### Writing names -/

@[simp] theorem setNames_setNames (db : Database) (table : String)
    (names old : List (Option String)) :
    (db.setNames table old).setNames table names = db.setNames table names := by
  simp only [setNames, List.map_map, Database.mk.injEq, and_true]
  refine List.map_congr_left fun entry _ => ?_
  simp only [Function.comp_apply]
  split <;> simp

/-- The tables keep their own names. -/
theorem sameName_comp_setNames (table name : String) (names : List (Option String)) :
    ((sameName name ·.1) ∘ fun entry : String × Table =>
      if sameName table entry.1 then (entry.1, { entry.2 with names }) else entry) =
      (sameName name ·.1) := by
  funext entry
  simp only [Function.comp_apply]
  split <;> rfl

theorem table?_setNames (db : Database) (table : String) (names : List (Option String)) :
    (db.setNames table names).table? table = (db.table? table).map ({ · with names }) := by
  simp only [table?, setNames, List.find?_map, sameName_comp_setNames, Option.map_map]
  cases hf : db.tables.find? (sameName table ·.1) with
  | none => rfl
  | some entry =>
    have hn : sameName table entry.1 = true := by simpa using List.find?_some hf
    simp [hn]

theorem map_columns_setNames (db : Database) (table name : String)
    (names : List (Option String)) :
    ((db.setNames table names).table? name).map (·.columns) =
      (db.table? name).map (·.columns) := by
  simp only [table?, setNames, List.find?_map, sameName_comp_setNames, Option.map_map]
  congr 1
  funext entry
  simp only [Function.comp_apply]
  split <;> rfl

@[simp] theorem hasRelation_setNames (db : Database) (table name : String)
    (names : List (Option String)) :
    (db.setNames table names).hasRelation name = db.hasRelation name := by
  simp only [hasRelation, setNames, List.any_map, sameName_comp_setNames]
  rfl

theorem names?_setNames (h : db.names? table = some old) :
    (db.setNames table names).names? table = some names := by
  obtain ⟨t, ht, hc, -⟩ := names?_eq_some.mp h
  exact names?_eq_some.mpr ⟨{ t with names }, by rw [table?_setNames, ht]; rfl, hc, rfl⟩

theorem insertName?_of_notMem (h : db.names? table = some names) (hn : some name ∉ names) :
    db.insertName? table (some name) = some (db.setNames table (names ++ [some name])) := by
  obtain ⟨t, ht, -⟩ := names?_eq_some.mp h
  simp [insertName?, ht, h, hn]

/-! ### Making a table -/

theorem table?_of_addTable? {t : Table} (h : db.addTable? name t = some db') :
    db'.table? name = some t := by
  unfold addTable? at h
  split at h
  · next hv =>
    cases h
    have hr : db.tables.find? (sameName name ·.1) = none := by
      rw [List.find?_eq_none]
      simp only [isFree, hasRelation, Bool.and_eq_true, Bool.not_eq_true', Bool.or_eq_false_iff,
        List.any_eq_false] at hv
      exact hv.1.1.1.2.1
    simp [table?, List.find?_append, hr]
  · cases h

/-- New tables stand behind those that are there. -/
theorem table?_addTable? {t t' : Table} {other : String} (h : db.addTable? name t = some db')
    (ht : db.table? other = some t') : db'.table? other = some t' := by
  obtain ⟨entry, hf, he⟩ := Option.map_eq_some_iff.mp ht
  unfold addTable? at h
  split at h
  · cases h
    simp [table?, List.find?_append, hf, he]
  · cases h

theorem names?_addTable? {t : Table} (h : db.addTable? name t = some db')
    (hn : db.names? table = some names) : db'.names? table = some names := by
  obtain ⟨t', ht', hc⟩ := names?_eq_some.mp hn
  exact names?_eq_some.mpr ⟨t', table?_addTable? h ht', hc⟩

theorem names?_ensureTable? {t : Table} (h : db.ensureTable? name t = some db')
    (hn : db.names? table = some names) : db'.names? table = some names := by
  unfold ensureTable? at h
  split at h
  · cases h
    exact hn
  · exact names?_addTable? h hn

theorem names?_ensureIndex? {indexed : String} {columns : List String}
    (h : db.ensureIndex? name indexed columns = some db')
    (hn : db.names? table = some names) : db'.names? table = some names := by
  simp only [ensureIndex?, Option.bind_eq_bind, Option.bind_eq_some_iff] at h
  obtain ⟨t, -, h⟩ := h
  split at h
  · cases h
  · split at h
    · cases h
      exact hn
    · split at h
      · cases h
        exact hn
      · cases h

theorem ensureTable?_of_table? {t t' : Table} (h : db.table? table = some t) :
    db.ensureTable? table t' = some db := by
  rw [ensureTable?, if_pos (hasRelation_of_table? h)]

end Database

namespace Migration

open Database

variable {db db' : Database} {done : List String} {names : List (Option String)}

theorem mapM_id_eq_some : names.mapM id = some done ↔ names = done.map some := by
  induction names generalizing done with
  | nil => cases done <;> simp
  | cons x xs ih =>
    cases x with
    | none => cases done <;> simp
    | some x =>
      simp only [List.mapM_cons, id_eq, Option.bind_eq_bind, Option.bind_some,
        Option.bind_eq_some_iff, ih, Option.pure_def, Option.some.injEq]
      constructor
      · rintro ⟨xs', rfl, rfl⟩
        rfl
      · intro h
        cases done with
        | nil => cases h
        | cons d done =>
          obtain ⟨hd, h⟩ := List.cons.inj h
          exact ⟨done, h, by rw [Option.some.inj hd]⟩

/-- The record can be read just if each of its rows holds a name. -/
theorem recorded?_eq_some : recorded? db = some done ↔
    db.names? ledger = some (done.map some) := by
  simp [recorded?, Option.bind_eq_some_iff, mapM_id_eq_some]

/-! ### The ledger and the names on it -/

/-- The database once it has a ledger, and the names there. -/
def open? (db : Database) : Option (Database × List String) := do
  let db ← db.ensureTable? ledger ledgerTable
  return (db, ← recorded? db)

theorem open?_of_recorded? (h : recorded? db = some done) : open? db = some (db, done) := by
  obtain ⟨t, ht, -⟩ := names?_eq_some.mp (recorded?_eq_some.mp h)
  simp [open?, ensureTable?_of_table? ht, h]

theorem recorded?_of_open? {base : Database} (h : open? db = some (base, done)) :
    recorded? base = some done := by
  simp only [open?, Option.bind_eq_bind, Option.bind_eq_some_iff, Option.pure_def,
    Option.some.injEq, Prod.mk.injEq] at h
  obtain ⟨_, -, _, hr, rfl, rfl⟩ := h
  exact hr

theorem recorded?_of_addTable? (h : db.addTable? ledger ledgerTable = some db') :
    recorded? db' = some [] :=
  recorded?_eq_some.mpr (names?_eq_some.mpr ⟨_, table?_of_addTable? h, by decide +kernel, rfl⟩)

/-- A ledger that was just made can be read: where none can be read none was made. -/
theorem ensureTable?_of_open?_eq_none (h : open? db = none)
    (he : db.ensureTable? ledger ledgerTable = some db') : db' = db ∧ recorded? db = none := by
  have hr : recorded? db' = none := by
    cases hr : recorded? db' with
    | none => rfl
    | some done => simp [open?, he, hr] at h
  unfold ensureTable? at he
  split at he
  · cases he
    exact ⟨rfl, hr⟩
  · rw [recorded?_of_addTable? he] at hr
    cases hr

end Migration

end EventStream
