import EventStream.Proofs.Database.EventLog
import EventStream.Database.Statement

/-! The schema of the event log once its migrations have been carried out, and what the log's
statements then find there. -/

namespace EventStream

namespace Table

/-- The table has every column that the event log names, whatever else it has. -/
def HoldsEvents (t : Table) : Prop :=
  ∀ column ∈ Migration.eventsTable.columns, Database.hasColumn t.columns column

instance (t : Table) : Decidable t.HoldsEvents :=
  inferInstanceAs (Decidable (∀ column ∈ Migration.eventsTable.columns, _))

theorem holdsEvents_eventsTable : Migration.eventsTable.HoldsEvents := by decide +kernel

end Table

namespace Database

variable {db db' : Database} {name other : String} {t : Table}

/-! ### Tables of other names -/

theorem table?_setNames_of_ne (h : sameName name other = false)
    (names : List (Option String)) :
    (db.setNames name names).table? other = db.table? other := by
  simp only [table?, setNames, List.find?_map, sameName_comp_setNames, Option.map_map]
  cases hf : db.tables.find? (sameName other ·.1) with
  | none => rfl
  | some entry =>
    have hn : sameName other entry.1 = true := by simpa using List.find?_some hf
    have hne : sameName name entry.1 = false := by
      simp only [sameName, decide_eq_true_eq, decide_eq_false_iff_not] at h hn ⊢
      rwa [← hn]
    simp [hne]

/-- The table of the numbers given last can come with a table that is made. -/
theorem table?_addTable?_of_ne (h : db.addTable? name t = some db')
    (hname : sameName other name = false) (hseq : sameName other sequence.1 = false) :
    db'.table? other = db.table? other := by
  unfold addTable? at h
  split at h
  · cases h
    simp only [table?, List.find?_append, List.find?_cons, hname]
    split <;> simp [hseq]
  · cases h

theorem table?_ensureTable?_of_ne (h : db.ensureTable? name t = some db')
    (hname : sameName other name = false) (hseq : sameName other sequence.1 = false) :
    db'.table? other = db.table? other := by
  unfold ensureTable? at h
  split at h
  · cases h
    rfl
  · exact table?_addTable?_of_ne h hname hseq

/-! ### The table itself and its indexes -/

theorem table?_eq_none_of_hasRelation (h : db.hasRelation name = false) :
    db.table? name = none := by
  cases ht : db.table? name with
  | none => rfl
  | some t => simp [hasRelation_of_table? ht] at h

/-- An index is made on a table that is there, and leaves the tables alone. -/
theorem table?_of_ensureIndex? {columns : List String}
    (h : db.ensureIndex? other name columns = some db') :
    ∃ t, db.table? name = some t ∧ db'.tables = db.tables := by
  simp only [ensureIndex?, Option.bind_eq_bind, Option.bind_eq_some_iff] at h
  obtain ⟨t, ht, h⟩ := h
  refine ⟨t, ht, ?_⟩
  split at h
  · cases h
  · split at h
    · cases h
      rfl
    · split at h
      · cases h
        rfl
      · cases h

/-- A table that is indexed as soon as it is ensured is the one that was there, or else the new
one: nothing of it is a view. -/
theorem table?_of_ensureTable?_ensureIndex? {u : Database} {columns : List String}
    (ht : db.ensureTable? name t = some u) (hi : u.ensureIndex? other name columns = some db') :
    db'.table? name = some ((db.table? name).getD t) := by
  obtain ⟨t', ht', htables⟩ := table?_of_ensureIndex? hi
  have hkeep : db'.table? name = u.table? name := by rw [table?, htables, table?]
  rw [hkeep]
  unfold ensureTable? at ht
  split at ht
  · cases ht
    rw [ht', Option.getD_some]
  · next hr =>
    rw [table?_of_addTable? ht, table?_eq_none_of_hasRelation (by simpa using hr),
      Option.getD_none]

end Database

namespace Migration

open Database

variable {db db' : Database} {ms : List Migration} {done : List String}

/-- No name on record is the migration's, so that a call will come to it. -/
def IsPending (m : Migration) (db : Database) : Prop :=
  ∀ done ∈ recorded? db, m.name ∉ done

instance (m : Migration) (db : Database) : Decidable (m.IsPending db) :=
  inferInstanceAs (Decidable (∀ done ∈ recorded? db, m.name ∉ done))

theorem open?_eq_some_iff {base : Database} :
    open? db = some (base, done) ↔
      db.ensureTable? ledger ledgerTable = some base ∧ recorded? base = some done := by
  simp only [open?, Option.bind_eq_bind, Option.bind_eq_some_iff, Option.pure_def,
    Option.some.injEq, Prod.mk.injEq]
  constructor
  · rintro ⟨_, hu, _, hr, rfl, rfl⟩
    exact ⟨hu, hr⟩
  · rintro ⟨hu, hr⟩
    exact ⟨base, hu, done, hr, rfl, rfl⟩

/-- A ledger that had to be made first has no name on record. -/
theorem IsPending.notMem {m : Migration} {base : Database} (h : m.IsPending db)
    (ho : open? db = some (base, done)) : m.name ∉ done := by
  obtain ⟨hbase, hdone⟩ := open?_eq_some_iff.mp ho
  unfold ensureTable? at hbase
  split at hbase
  · cases hbase
    exact h done hdone
  · cases (recorded?_of_addTable? hbase).symm.trans hdone
    exact List.not_mem_nil

/-! ### What the migrations do to the table of events -/

/-- The migration's own statements leave the table of events alone. -/
def KeepsEvents (m : Migration) : Prop :=
  ∀ db db', m.run db = some db' → db'.table? "system_events" = db.table? "system_events"

theorem table?_of_ensureTable?_ledger (h : db.ensureTable? ledger ledgerTable = some db') :
    db'.table? "system_events" = db.table? "system_events" :=
  table?_ensureTable?_of_ne h (by decide +kernel) (by decide +kernel)

theorem keepsEvents_init : init.KeepsEvents := fun _ _ => table?_of_ensureTable?_ledger

theorem table?_of_open? {base : Database} (h : open? db = some (base, done)) :
    base.table? "system_events" = db.table? "system_events" :=
  table?_of_ensureTable?_ledger (open?_eq_some_iff.mp h).1

theorem table?_setNames_ledger (names : List (Option String)) :
    (db.setNames ledger names).table? "system_events" = db.table? "system_events" :=
  table?_setNames_of_ne (by decide +kernel) names

theorem Carries.table? (h : Carries ms db db') (hk : ∀ m ∈ ms, m.KeepsEvents) :
    db'.table? "system_events" = db.table? "system_events" := by
  induction h with
  | nil => rfl
  | cons hrun _ _ ih =>
    rw [ih fun m hm => hk m (List.mem_cons_of_mem _ hm), table?_setNames_ledger,
      hk _ List.mem_cons_self _ _ hrun]

/-- The table of events is the one that was there, if there was one. -/
theorem table?_of_systemEvents (h : systemEvents.run db = some db') :
    db'.table? "system_events" = some ((db.table? "system_events").getD eventsTable) := by
  simp only [systemEvents, Option.bind_eq_bind, Option.bind_eq_some_iff] at h
  obtain ⟨u, hu, v, hv, h⟩ := h
  obtain ⟨_, -, htables⟩ := table?_of_ensureIndex? h
  rw [Database.table?, htables]
  exact table?_of_ensureTable?_ensureIndex? hu hv

theorem table?_of_carries_systemEvents (h : Carries [systemEvents] db db') :
    db'.table? "system_events" = some ((db.table? "system_events").getD eventsTable) := by
  cases h with
  | cons hrun hnames hrest =>
    rw [carries_nil_iff.mp hrest, table?_setNames_ledger, table?_of_systemEvents hrun]

/-- The events migration stands last, so that nothing touches the table after it. -/
theorem table?_of_runAll {n : Nat} (h : runAll db = (db', .ok n))
    (hp : systemEvents.IsPending db) :
    db'.table? "system_events" = some ((db.table? "system_events").getD eventsTable) := by
  obtain ⟨base, done, ho⟩ := open?_of_ok h
  obtain ⟨-, hc⟩ := (applyPending_eq_ok_iff (by decide) keepsRecord_of_mem_all ho).mp h
  have hlast : pending all done = pending [init] done ++ [systemEvents] := by
    rw [all, ← List.singleton_append, pending_append, pending_cons_of_notMem (hp.notMem ho)]
    rfl
  rw [hlast] at hc
  obtain ⟨u, hinit, hevents⟩ := carries_append_iff.mp hc
  have hkeep : ∀ m ∈ pending [init] done, m.KeepsEvents := fun m hm => by
    cases List.mem_singleton.mp (mem_pending.mp hm).1
    exact keepsEvents_init
  rw [table?_of_carries_systemEvents hevents, hinit.table? hkeep, table?_of_open? ho]

end Migration

/-! ### A database without a ledger -/

namespace Migration

open Database

variable {ms : List Migration} {done : List String} {db base u : Database}

theorem open?_of_addTable? (hr : db.hasRelation ledger = false)
    (h : db.addTable? ledger ledgerTable = some base) : open? db = some (base, []) :=
  open?_eq_some_iff.mpr ⟨by simp [ensureTable?, hr, h], recorded?_of_addTable? h⟩

/-- A call succeeds if the statements that it has to carry out do, without a record in between. -/
theorem exists_applyPending_eq_ok (hd : (ms.map (·.name)).Nodup) (hk : ∀ m ∈ ms, m.KeepsRecord)
    (hi : ∀ m ∈ ms, m.IgnoresRecord) (ho : open? db = some (base, done))
    (hrun : compose? (pending ms done) base = some u) :
    ∃ db', applyPending ms db = (db', .ok (pending ms done).length) := by
  have hp := arePending_pending hd hk (recorded?_of_open? ho)
  have hi' : ∀ m ∈ pending ms done, m.IgnoresRecord := fun m hm => hi m (mem_pending.mp hm).1
  obtain ⟨db', hc, -⟩ := (hp.compose?_iff (x := withoutRecord u) hi' rfl).mp (by rw [hrun]; rfl)
  exact ⟨db', (applyPending_eq_ok_iff hd hk ho).mpr ⟨rfl, hc⟩⟩

/-- The events migration decides, since the ledger is there when its own migration comes. -/
theorem exists_runAll_eq_ok (hr : db.hasRelation ledger = false)
    (h : ((db.addTable? ledger ledgerTable).bind systemEvents.run).isSome) :
    ∃ db', runAll db = (db', .ok 2) := by
  obtain ⟨u, hu⟩ := Option.isSome_iff_exists.mp h
  obtain ⟨base, hb, hrun⟩ := Option.bind_eq_some_iff.mp hu
  have hinit : init.run base = some base := ensureTable?_of_table? (table?_of_addTable? hb)
  exact exists_applyPending_eq_ok (by decide) keepsRecord_of_mem_all ignoresRecord_of_mem_all
    (open?_of_addTable? hr hb)
    (show ((init.run base).bind fun base => (systemEvents.run base).bind some) = some u by
      rw [hinit, Option.bind_some, hrun, Option.bind_some])

end Migration

/-! ### The log's statements -/

namespace Statement

variable {s : Statement} {db : Database} {t : Table}

theorem columns?_of_table? (h : db.table? s.table = some t) :
    s.columns? db = some t.columns := by
  unfold columns?
  split
  · simp [Database.created?, h]
  · simp [h]

/-- With the table there, what a statement can lack is a column. -/
theorem lack?_eq_none_iff (h : db.table? s.table = some t) :
    s.lack? db = none ↔ ∀ column ∈ s.written ++ s.read, Database.hasColumn t.columns column := by
  simp [lack?, columns?_of_table? h, or_imp, forall_and]

/-- To add an event and to read those there are takes the very columns of the events' table. -/
theorem lack?_eq_none_iff_holdsEvents (h : db.table? "system_events" = some t) :
    append.lack? db = none ∧ eventsAfter.lack? db = none ↔ t.HoldsEvents := by
  have hmem (column : String) : column ∈ append.written ++ append.read ∨
      column ∈ eventsAfter.written ++ eventsAfter.read ↔
        column ∈ Migration.eventsTable.columns := by
    simp only [append, eventsAfter, Migration.eventsTable, List.mem_append, List.mem_cons,
      List.not_mem_nil, or_false]
    tauto
  rw [lack?_eq_none_iff h, lack?_eq_none_iff h, Table.HoldsEvents]
  simp only [← hmem, or_imp, forall_and]

end Statement

namespace Migration

open Database

variable {db db' : Database}

/-- After a call that carried out the events migration itself there is a table of events: the one
that was there before, or else a new one. The log can add events to it and read them, and it has
all the columns for that, just if no table was there before or that one had all of them. -/
theorem runAll_usable_iff {n : Nat} (h : runAll db = (db', .ok n))
    (hp : systemEvents.IsPending db) :
    db'.table? "system_events" = some ((db.table? "system_events").getD eventsTable) ∧
      ((∃ t, db'.table? "system_events" = some t ∧ t.HoldsEvents) ↔
        ∀ old ∈ db.table? "system_events", old.HoldsEvents) ∧
      (Statement.append.lack? db' = none ∧ Statement.eventsAfter.lack? db' = none ↔
        ∀ old ∈ db.table? "system_events", old.HoldsEvents) := by
  have ht := table?_of_runAll h hp
  have hold : ((db.table? "system_events").getD eventsTable).HoldsEvents ↔
      ∀ old ∈ db.table? "system_events", old.HoldsEvents := by
    cases db.table? "system_events" with
    | none => simp [Table.holdsEvents_eventsTable]
    | some old => simp
  refine ⟨ht, ?_, ?_⟩
  · rw [ht, ← hold]
    simp
  · rw [Statement.lack?_eq_none_iff_holdsEvents ht, hold]

/-- There is a table with one column more and the others in another order. -/
theorem runAll_usable_of_widened :
    let columns := ["note", "created_at_us", "event_data", "event_type", "policy_id",
      "public_key", "id"]
    let db : Database := { tables := [("system_events", { columns })] }
    ∃ db', runAll db = (db', .ok 2) ∧ systemEvents.IsPending db ∧
      db'.table? "system_events" = some { columns } ∧
      Statement.append.lack? db' = none ∧ Statement.eventsAfter.lack? db' = none := by
  intro columns db
  have hp : systemEvents.IsPending db := by decide +kernel
  have ht : db.table? "system_events" = some { columns } := by decide +kernel
  have hall : ∀ old ∈ db.table? "system_events", old.HoldsEvents := by decide +kernel
  obtain ⟨db', h⟩ : ∃ db', runAll db = (db', .ok 2) :=
    exists_runAll_eq_ok (by decide +kernel) (by decide +kernel)
  obtain ⟨ht', -, hlacks⟩ := runAll_usable_iff h hp
  exact ⟨db', h, hp, by rw [ht', ht, Option.getD_some], hlacks.mpr hall⟩

/-- A table of that name with three of the columns takes the place of the new one: the indexes can
be made and the migration goes on record, but the log lacks a column. -/
theorem runAll_unusable :
    let columns := ["id", "policy_id", "created_at_us"]
    ∃ db db', Database.createTable? {} "system_events" columns = some db ∧
      systemEvents.IsPending db ∧ runAll db = (db', .ok 2) ∧
      db'.table? "system_events" = some { columns } ∧ ¬ Table.HoldsEvents { columns } ∧
      Statement.append.lack? db' = some (.column "public_key") ∧
      Statement.eventsAfter.lack? db' = some (.column "public_key") := by
  intro columns
  let db : Database := { tables := [("system_events", { columns })] }
  have hp : systemEvents.IsPending db := by decide +kernel
  have ht : db.table? "system_events" = some { columns } := by decide +kernel
  obtain ⟨db', h⟩ : ∃ db', runAll db = (db', .ok 2) :=
    exists_runAll_eq_ok (by decide +kernel) (by decide +kernel)
  have ht' : db'.table? "system_events" = some { columns } := by
    rw [table?_of_runAll h hp, ht, Option.getD_some]
  refine ⟨db, db', by decide +kernel, hp, h, ht', by decide +kernel, ?_, ?_⟩
  · rw [Statement.lack?, Statement.columns?_of_table? ht']
    decide +kernel
  · rw [Statement.lack?, Statement.columns?_of_table? ht']
    decide +kernel

end Migration

end EventStream
