import EventStream.Proofs.Database.Upgrade

/-! The event log's own migrations leave the record alone, so that what holds of such lists holds
of theirs. -/

namespace EventStream

namespace Database

theorem isFree_setNames (db : Database) (table name : String) (names : List (Option String)) :
    (db.setNames table names).isFree name = db.isFree name := by
  simp only [isFree, hasRelation_setNames]
  rfl

/-- Once they are set, it is the same what names a table had when another was added. -/
theorem map_addTable?_setNames (db : Database) (table name : String)
    (names : List (Option String)) (t : Table) :
    ((db.setNames table names).addTable? name t).map (·.setNames table names) =
      (db.addTable? name t).map (·.setNames table names) := by
  unfold addTable?
  rw [isFree_setNames, hasRelation_setNames]
  split
  · have h := setNames_setNames db table names names
    simp only [setNames, Database.mk.injEq, and_true] at h
    simp [setNames, h]
  · rfl

theorem map_ensureTable?_setNames (db : Database) (table name : String)
    (names : List (Option String)) (t : Table) :
    ((db.setNames table names).ensureTable? name t).map (·.setNames table names) =
      (db.ensureTable? name t).map (·.setNames table names) := by
  unfold ensureTable?
  rw [hasRelation_setNames]
  split
  · simp
  · exact map_addTable?_setNames db table name names t

theorem map_ensureIndex?_setNames (db : Database) (table name indexed : String)
    (names : List (Option String)) (columns : List String) :
    ((db.setNames table names).ensureIndex? name indexed columns).map (·.setNames table names) =
      (db.ensureIndex? name indexed columns).map (·.setNames table names) := by
  have hcolumns := map_columns_setNames db table indexed names
  have hindex : (db.setNames table names).hasIndex name = db.hasIndex name := rfl
  simp only [ensureIndex?, hasRelation_setNames, hindex, Option.bind_eq_bind]
  cases ht : db.table? indexed with
  | none =>
    rw [ht, Option.map_none, Option.map_eq_none_iff] at hcolumns
    simp [hcolumns]
  | some t =>
    rw [ht, Option.map_some, Option.map_eq_some_iff] at hcolumns
    obtain ⟨t', ht', hc⟩ := hcolumns
    simp only [ht', hc, Option.bind_some]
    split
    · rfl
    · split
      · simp
      · split
        · have h := setNames_setNames db table names names
          simp only [setNames, Database.mk.injEq, and_true] at h
          simp [setNames, h]
        · rfl

end Database

namespace Migration

open Database

variable {db db' : Database}

theorem keepsRecord_of_mem_all : ∀ m ∈ all, m.KeepsRecord := by
  simp only [all, List.forall_mem_cons]
  refine ⟨fun db db' names hn h => names?_ensureTable? h hn, fun db db' names hn h => ?_, nofun⟩
  simp only [systemEvents, Option.bind_eq_bind, Option.bind_eq_some_iff] at h
  obtain ⟨u, hu, v, hv, h⟩ := h
  exact names?_ensureIndex? h (names?_ensureIndex? hv (names?_ensureTable? hu hn))

/-- A change of a database does the same to the rest of it whatever names are on record, if it does
so for none. -/
theorem map_withoutRecord_eq {f : Database → Option Database}
    (hf : ∀ db, (f (withoutRecord db)).map withoutRecord = (f db).map withoutRecord)
    {d : Database} (h : withoutRecord db = withoutRecord d) :
    (f db).map withoutRecord = (f d).map withoutRecord := by
  rw [← hf db, h, hf d]

/-- One change after the other. -/
theorem map_withoutRecord_bind {f g : Database → Option Database} {d : Database}
    (hf : (f db).map withoutRecord = (f d).map withoutRecord)
    (hg : ∀ u v, withoutRecord u = withoutRecord v →
      (g u).map withoutRecord = (g v).map withoutRecord) :
    ((f db).bind g).map withoutRecord = ((f d).bind g).map withoutRecord := by
  cases hu : f db with
  | none =>
    rw [hu, Option.map_none, eq_comm, Option.map_eq_none_iff] at hf
    simp [hf]
  | some u =>
    rw [hu, Option.map_some, eq_comm, Option.map_eq_some_iff] at hf
    obtain ⟨v, hv, huv⟩ := hf
    simpa [hv] using hg u v huv.symm

theorem ignoresRecord_of_mem_all : ∀ m ∈ all, m.IgnoresRecord := by
  have htable (name : String) (t : Table) (u v : Database)
      (h : withoutRecord u = withoutRecord v) :
      (u.ensureTable? name t).map withoutRecord = (v.ensureTable? name t).map withoutRecord :=
    map_withoutRecord_eq (f := (·.ensureTable? name t))
      (fun db => map_ensureTable?_setNames db ledger name [] t) h
  have hindex (name table : String) (columns : List String) (u v : Database)
      (h : withoutRecord u = withoutRecord v) :
      (u.ensureIndex? name table columns).map withoutRecord =
        (v.ensureIndex? name table columns).map withoutRecord :=
    map_withoutRecord_eq (f := (·.ensureIndex? name table columns))
      (fun db => map_ensureIndex?_setNames db ledger name table [] columns) h
  simp only [all, List.forall_mem_cons]
  refine ⟨htable _ _, fun u v h => ?_, nofun⟩
  refine map_withoutRecord_bind (f := (·.ensureTable? _ _)) (htable _ _ u v h) fun u v h => ?_
  exact map_withoutRecord_bind (f := (·.ensureIndex? _ _ _)) (hindex _ _ _ u v h) (hindex _ _ _)

end Migration

end EventStream
