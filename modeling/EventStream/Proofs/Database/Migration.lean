import Mathlib.Data.List.Basic
import EventStream.Proofs.Database.Ledger

/-! What a call to bring a database up to date leaves behind, whether it gets to the end of the
list or stops at a migration that fails, and what a later call then has left to do. -/

namespace EventStream

namespace Migration

open Database

/-- The migration's own statements leave the names on record as they are. -/
def KeepsRecord (m : Migration) : Prop :=
  ∀ db db' names, db.names? ledger = some names → m.run db = some db' →
    db'.names? ledger = some names

/-- A database apart from the names on record. -/
def withoutRecord (db : Database) : Database := db.setNames ledger []

/-- The migration's own statements do the same to the rest of a database whatever names are on
record. -/
def IgnoresRecord (m : Migration) : Prop :=
  ∀ db d, withoutRecord db = withoutRecord d →
    (m.run db).map withoutRecord = (m.run d).map withoutRecord

/-- The migrations that are not on record. -/
def pending (ms : List Migration) (done : List String) : List Migration :=
  ms.filter fun m => !done.contains m.name

/-- The statements of the migrations one after the other, without any record. -/
def compose? (ms : List Migration) (db : Database) : Option Database :=
  ms.foldlM (fun db m => m.run db) db

/-- From the first database to the second, each migration succeeds in its turn and its name then
comes to those on record. -/
inductive Carries : List Migration → Database → Database → Prop where
  | nil {db : Database} : Carries [] db db
  | cons {m : Migration} {ms : List Migration} {db u db' : Database}
      {names : List (Option String)} (hrun : m.run db = some u)
      (hnames : u.names? ledger = some names)
      (hrest : Carries ms (u.setNames ledger (names ++ [some m.name])) db') :
      Carries (m :: ms) db db'

/-- How a call with these migrations to carry out can end, and where it leaves the database:
all of them have succeeded, or those before one that fails. -/
inductive Ends (ms : List Migration) (db : Database) :
    Database → Except Failure Nat → Prop where
  | all {db' : Database} (hc : Carries ms db db') : Ends ms db db' (.ok ms.length)
  | stopped {before after : List Migration} {m : Migration} {db' : Database}
      (hms : ms = before ++ m :: after) (hc : Carries before db db') (hm : m.run db' = none) :
      Ends ms db db' (.error (.executionFailed m.name))

/-- Migrations that can follow on the names that are on record. -/
structure ArePending (ms : List Migration) (done : List String) (db : Database) : Prop where
  recorded : recorded? db = some done
  nodup : (ms.map (·.name)).Nodup
  notMem : ∀ m ∈ ms, m.name ∉ done
  keeps : ∀ m ∈ ms, m.KeepsRecord

/-! ### The pending part of a list -/

section Pending

variable {ms pre post before after : List Migration} {m m' : Migration} {done : List String}

theorem mem_pending : m ∈ pending ms done ↔ m ∈ ms ∧ m.name ∉ done := by
  simp [pending]

theorem pending_append (pre post : List Migration) (done : List String) :
    pending (pre ++ post) done = pending pre done ++ pending post done :=
  List.filter_append ..

theorem pending_eq_nil_iff : pending ms done = [] ↔ ∀ m ∈ ms, m.name ∈ done := by
  simp [pending]

theorem nodup_pending (hd : (ms.map (·.name)).Nodup) :
    ((pending ms done).map (·.name)).Nodup :=
  hd.sublist (List.filter_sublist.map _)

theorem pending_append_of_mem (h : ∀ m ∈ ms, m.name ∈ done) :
    pending (ms ++ post) done = pending post done := by
  rw [pending_append, pending_eq_nil_iff.mpr h, List.nil_append]

theorem pending_cons_of_notMem (h : m.name ∉ done) :
    pending (m :: ms) done = m :: pending ms done := by
  simp [pending, h]

/-- Names of other migrations make no difference. -/
theorem pending_append_of_disjoint {names : List String} (h : ∀ m ∈ ms, m.name ∉ names) :
    pending ms (done ++ names) = pending ms done :=
  List.filter_congr fun m hm => by simp [h m hm]

theorem mem_append_pending (h : m ∈ ms) :
    m.name ∈ done ++ (pending ms done).map (·.name) := by
  by_cases hm : m.name ∈ done
  · exact List.mem_append_left _ hm
  · exact List.mem_append_right _ (List.mem_map_of_mem (mem_pending.mpr ⟨h, hm⟩))

/-- Once the pending migrations before `m` are on record, `m` is the first that is pending. -/
theorem pending_of_stopped (hd : ((pre ++ m :: post).map (·.name)).Nodup)
    (hp : pending (pre ++ m :: post) done = before ++ m :: after) (hn : m'.name = m.name) :
    pending (pre ++ m' :: post) (done ++ before.map (·.name)) = m' :: after := by
  have hm : m.name ∉ done :=
    (mem_pending.mp (hp ▸ List.mem_append_right _ List.mem_cons_self)).2
  simp only [List.map_append, List.map_cons, List.nodup_append, List.nodup_cons,
    List.mem_cons, List.mem_map] at hd
  obtain ⟨-, ⟨hmpost, -⟩, hpre⟩ := hd
  rw [pending_append, pending_cons_of_notMem hm, List.append_cons_inj_of_notMem] at hp
  · obtain ⟨rfl, -, rfl⟩ := hp
    have hnames : ∀ x ∈ m' :: post, x.name ∉ (pending pre done).map (·.name) := by
      intro x hx hmem
      obtain ⟨y, hy, hyx⟩ := List.mem_map.mp hmem
      refine hpre _ ⟨y, (mem_pending.mp hy).1, rfl⟩ _ ?_ hyx
      exact (List.mem_cons.mp hx).imp (fun h => by rw [h, hn]) (fun h => ⟨x, h, rfl⟩)
    rw [pending_append_of_mem fun x hx => mem_append_pending hx,
      pending_append_of_disjoint hnames, pending_cons_of_notMem (hn ▸ hm)]
  · exact fun h => hpre _ ⟨m, (mem_pending.mp h).1, rfl⟩ _ (.inl rfl) rfl
  · exact fun h => hmpost ⟨m, (mem_pending.mp h).1, rfl⟩

end Pending

/-! ### One migration, and then all -/

section Carries

variable {ms before after : List Migration} {m : Migration} {done : List String}
  {db db' u : Database}

theorem ArePending.names?_of_run (h : ArePending (m :: ms) done db)
    (hrun : m.run db = some u) : u.names? ledger = some (done.map some) :=
  h.keeps m List.mem_cons_self _ _ _ (recorded?_eq_some.mp h.recorded) hrun

theorem ArePending.carryOut?_eq_some (h : ArePending (m :: ms) done db) (hrun : m.run db = some u) :
    m.carryOut? db = some (u.setNames ledger (done.map some ++ [some m.name])) := by
  have hn : some m.name ∉ done.map some := by
    simpa using h.notMem m List.mem_cons_self
  simp [carryOut?, hrun, insertName?_of_notMem (h.names?_of_run hrun) hn]

/-- What follows a migration stays pending when its name has come to those on record. -/
theorem ArePending.tail (h : ArePending (m :: ms) done db) (hrun : m.run db = some u) :
    ArePending ms (done ++ [m.name]) (u.setNames ledger (done.map some ++ [some m.name])) where
  recorded := recorded?_eq_some.mpr (by
    rw [names?_setNames (h.names?_of_run hrun), List.map_append]
    rfl)
  nodup := (List.nodup_cons.mp h.nodup).2
  notMem := by
    intro x hx hmem
    rcases List.mem_append.mp hmem with hdone | hm
    · exact h.notMem x (List.mem_cons_of_mem _ hx) hdone
    · rw [List.mem_singleton] at hm
      exact (List.nodup_cons.mp h.nodup).1 (List.mem_map.mpr ⟨x, hx, hm⟩)
  keeps := fun x hx => h.keeps x (List.mem_cons_of_mem _ hx)

theorem carries_nil_iff : Carries [] db db' ↔ db' = db :=
  ⟨fun h => by cases h; rfl, fun h => h ▸ .nil⟩

theorem ArePending.carries_cons_iff (h : ArePending (m :: ms) done db) :
    Carries (m :: ms) db db' ↔ ∃ u, m.run db = some u ∧
      Carries ms (u.setNames ledger (done.map some ++ [some m.name])) db' := by
  constructor
  · rintro (_ | ⟨hrun, hnames, hrest⟩)
    cases (h.names?_of_run hrun).symm.trans hnames
    exact ⟨_, hrun, hrest⟩
  · rintro ⟨u, hrun, hrest⟩
    exact .cons hrun (h.names?_of_run hrun) hrest

theorem Carries.append (h : Carries before db u) (h' : Carries after u db') :
    Carries (before ++ after) db db' := by
  induction h with
  | nil => exact h'
  | cons hrun hnames _ ih => exact .cons hrun hnames (ih h')

theorem carries_append_iff :
    Carries (before ++ after) db db' ↔ ∃ u, Carries before db u ∧ Carries after u db' := by
  refine ⟨fun h => ?_, fun ⟨_, h, h'⟩ => h.append h'⟩
  induction before generalizing db with
  | nil => exact ⟨db, .nil, h⟩
  | cons m before ih =>
    cases h with
    | cons hrun hnames hrest =>
      obtain ⟨u, hb, ha⟩ := ih hrest
      exact ⟨u, .cons hrun hnames hb, ha⟩

theorem ArePending.left (h : ArePending (before ++ after) done db) :
    ArePending before done db where
  recorded := h.recorded
  nodup := h.nodup.sublist ((List.sublist_append_left ..).map _)
  notMem := fun m hm => h.notMem m (List.mem_append_left _ hm)
  keeps := fun m hm => h.keeps m (List.mem_append_left _ hm)

/-- The names of the migrations come to those on record, in their order. -/
theorem ArePending.of_carries (h : ArePending (before ++ after) done db)
    (hc : Carries before db db') : ArePending after (done ++ before.map (·.name)) db' := by
  induction before generalizing done db with
  | nil =>
    rw [carries_nil_iff.mp hc]
    simpa using h
  | cons m before ih =>
    rw [List.cons_append] at h
    cases hc with
    | cons hrun hnames hrest =>
      cases (h.names?_of_run hrun).symm.trans hnames
      simpa using ih (h.tail hrun) hrest

/-- Apart from the record, migrations one after the other do what their statements do. -/
theorem ArePending.compose?_iff {d x : Database} (h : ArePending ms done db)
    (hi : ∀ m ∈ ms, m.IgnoresRecord) (hd : withoutRecord db = withoutRecord d) :
    (compose? ms d).map withoutRecord = some x ↔
      ∃ db', Carries ms db db' ∧ withoutRecord db' = x := by
  induction ms generalizing done db d with
  | nil => simp [compose?, carries_nil_iff, hd]
  | cons m ms ih =>
    have hrun := hi m List.mem_cons_self db d hd
    have hi' : ∀ m ∈ ms, m.IgnoresRecord := fun m hm => hi m (List.mem_cons_of_mem _ hm)
    simp only [h.carries_cons_iff, compose?, List.foldlM_cons, Option.bind_eq_bind]
    cases hu : m.run db with
    | none =>
      rw [hu, Option.map_none] at hrun
      simp [Option.map_eq_none_iff.mp hrun.symm]
    | some u =>
      rw [hu, Option.map_some] at hrun
      obtain ⟨v, hv, huv⟩ := Option.map_eq_some_iff.mp hrun.symm
      simp only [hv, Option.bind_some, Option.some.injEq, exists_eq_left']
      exact ih (h.tail hu) hi' (by rw [withoutRecord, setNames_setNames]; exact huv.symm)

end Carries

/-! ### The end of a call -/

section Ends

variable {ms : List Migration} {m : Migration} {done : List String} {db db' u : Database}
  {r : Except Failure Nat}

theorem ends_ok_iff {n : Nat} : Ends ms db db' (.ok n) ↔ n = ms.length ∧ Carries ms db db' := by
  constructor
  · rintro ⟨hc⟩
    exact ⟨rfl, hc⟩
  · rintro ⟨rfl, hc⟩
    exact .all hc

theorem ends_nil_iff : Ends [] db db' r ↔ db' = db ∧ r = .ok 0 := by
  constructor
  · intro h
    cases h with
    | all hc => exact ⟨carries_nil_iff.mp hc, rfl⟩
    | stopped hms => simp at hms
  · rintro ⟨rfl, rfl⟩
    exact .all .nil

theorem ends_cons_of_none (hrun : m.run db = none) :
    Ends (m :: ms) db db' r ↔ db' = db ∧ r = .error (.executionFailed m.name) := by
  constructor
  · intro h
    cases h with
    | all hc =>
      cases hc with
      | cons hrun' => cases hrun.symm.trans hrun'
    | @stopped before _ _ _ hms hc hm =>
      cases before with
      | nil =>
        cases hms
        exact ⟨carries_nil_iff.mp hc, rfl⟩
      | cons =>
        cases hms
        cases hc with
        | cons hrun' => cases hrun.symm.trans hrun'
  · rintro ⟨rfl, rfl⟩
    exact .stopped (show m :: ms = [] ++ m :: ms from rfl) .nil hrun

theorem ArePending.ends_cons_of_some (h : ArePending (m :: ms) done db)
    (hrun : m.run db = some u) :
    Ends (m :: ms) db db' r ↔
      ∃ q, Ends ms (u.setNames ledger (done.map some ++ [some m.name])) db' q ∧
        q.map (· + 1) = r := by
  have hn := h.names?_of_run hrun
  constructor
  · intro he
    cases he with
    | all hc =>
      cases hc with
      | cons hrun' hn' hc =>
        cases hrun.symm.trans hrun'
        cases hn.symm.trans hn'
        exact ⟨_, .all hc, rfl⟩
    | @stopped before _ _ _ hms hc hm =>
      cases before with
      | nil =>
        cases hms
        rw [carries_nil_iff.mp hc, hrun] at hm
        cases hm
      | cons =>
        cases hms
        cases hc with
        | cons hrun' hn' hc =>
          cases hrun.symm.trans hrun'
          cases hn.symm.trans hn'
          exact ⟨_, .stopped rfl hc hm, rfl⟩
  · rintro ⟨q, he, rfl⟩
    cases he with
    | all hc => exact .all (.cons hrun hn hc)
    | @stopped before after x _ hms hc hm =>
      subst hms
      exact .stopped (show m :: (before ++ x :: after) = (m :: before) ++ x :: after from rfl)
        (.cons hrun hn hc) hm

theorem applyAll_cons_of_some (h : m.carryOut? db = some u) (ms : List Migration) :
    applyAll (m :: ms) db = ((applyAll ms u).1, (applyAll ms u).2.map (· + 1)) := by
  simp only [applyAll, h]
  rcases applyAll ms u with ⟨d, _ | n⟩ <;> rfl

theorem ArePending.applyAll_eq_iff (h : ArePending ms done db) :
    applyAll ms db = (db', r) ↔ Ends ms db db' r := by
  induction ms generalizing done db r with
  | nil => simp [applyAll, ends_nil_iff, eq_comm]
  | cons m ms ih =>
    cases hrun : m.run db with
    | none => simp [applyAll, carryOut?, hrun, ends_cons_of_none hrun, eq_comm]
    | some u =>
      rw [applyAll_cons_of_some (h.carryOut?_eq_some hrun), h.ends_cons_of_some hrun]
      simp only [← ih (h.tail hrun), Prod.ext_iff]
      constructor
      · rintro ⟨hd, hr⟩
        exact ⟨_, ⟨hd, rfl⟩, hr⟩
      · rintro ⟨q, ⟨hd, rfl⟩, hr⟩
        exact ⟨hd, hr⟩

end Ends

/-! ### Calls -/

section Calls

variable {ms : List Migration} {done : List String} {db base db' : Database}

theorem applyPending_of_open?_eq_none (h : open? db = none) (ms : List Migration) :
    applyPending ms db = (db, .error .stateQuery) := by
  unfold applyPending
  cases he : db.ensureTable? ledger ledgerTable with
  | none => rfl
  | some base =>
    obtain ⟨rfl, hr⟩ := ensureTable?_of_open?_eq_none h he
    simp [hr]

theorem applyPending_of_open? (h : open? db = some (base, done)) (ms : List Migration) :
    applyPending ms db = applyAll (pending ms done) base := by
  simp only [open?, Option.bind_eq_bind, Option.bind_eq_some_iff, Option.pure_def,
    Option.some.injEq, Prod.mk.injEq] at h
  obtain ⟨_, he, _, hr, rfl, rfl⟩ := h
  simp [applyPending, he, hr, pending]

theorem arePending_pending (hd : (ms.map (·.name)).Nodup) (hk : ∀ m ∈ ms, m.KeepsRecord)
    (h : recorded? base = some done) : ArePending (pending ms done) done base where
  recorded := h
  nodup := nodup_pending hd
  notMem := fun _ hm => (mem_pending.mp hm).2
  keeps := fun m hm => hk m (mem_pending.mp hm).1

theorem applyPending_eq_iff (hd : (ms.map (·.name)).Nodup) (hk : ∀ m ∈ ms, m.KeepsRecord)
    (h : open? db = some (base, done)) {r : Except Failure Nat} :
    applyPending ms db = (db', r) ↔ Ends (pending ms done) base db' r := by
  rw [applyPending_of_open? h]
  exact (arePending_pending hd hk (recorded?_of_open? h)).applyAll_eq_iff

end Calls

section Resumption

variable {pre post before after : List Migration} {m m' : Migration} {done : List String}
  {base u db' : Database}

theorem keepsRecord_replaced (hk : ∀ x ∈ pre ++ m :: post, x.KeepsRecord)
    (hm : m'.KeepsRecord) : ∀ x ∈ pre ++ m' :: post, x.KeepsRecord := by
  simp only [List.forall_mem_append, List.forall_mem_cons] at hk ⊢
  exact ⟨hk.1, hm, hk.2.2⟩

/-- Where a call has stopped at `m`, the list with `m` put right has that and the rest left. -/
theorem arePending_of_stopped (hd : ((pre ++ m :: post).map (·.name)).Nodup)
    (hk : ∀ x ∈ pre ++ m :: post, x.KeepsRecord) (hr : recorded? base = some done)
    (hp : pending (pre ++ m :: post) done = before ++ m :: after) (hc : Carries before base u)
    (hn : m'.name = m.name) (hm : m'.KeepsRecord) :
    ArePending (m' :: after) (done ++ before.map (·.name)) u := by
  have hu := ((hp ▸ arePending_pending hd hk hr).of_carries hc).recorded
  have hd' : ((pre ++ m' :: post).map (·.name)).Nodup := by simpa [hn] using hd
  rw [← pending_of_stopped hd hp hn]
  exact arePending_pending hd' (keepsRecord_replaced hk hm) hu

theorem applyPending_of_stopped_iff (hd : ((pre ++ m :: post).map (·.name)).Nodup)
    (hk : ∀ x ∈ pre ++ m :: post, x.KeepsRecord) (hr : recorded? base = some done)
    (hp : pending (pre ++ m :: post) done = before ++ m :: after) (hc : Carries before base u)
    (hn : m'.name = m.name) (hm : m'.KeepsRecord) {r : Except Failure Nat} :
    applyPending (pre ++ m' :: post) u = (db', r) ↔ Ends (m' :: after) u db' r := by
  have hrest := arePending_of_stopped hd hk hr hp hc hn hm
  rw [applyPending_of_open? (open?_of_recorded? hrest.recorded), pending_of_stopped hd hp hn]
  exact hrest.applyAll_eq_iff

end Resumption

/-- A call leaves the database as the pending migrations make it that succeed before one fails,
with their names on record and no trace of the one that fails. With that one put right, the next
call has it and what comes after to carry out, and no other. -/
theorem applyPending_exact {ms : List Migration} (hd : (ms.map (·.name)).Nodup)
    (hk : ∀ m ∈ ms, m.KeepsRecord) (db : Database) :
    (open? db = none → applyPending ms db = (db, .error .stateQuery)) ∧
    ∀ base done, open? db = some (base, done) →
      (∀ db' r, applyPending ms db = (db', r) ↔ Ends (pending ms done) base db' r) ∧
      (∀ before after, pending ms done = before ++ after →
        (∀ db', Carries before base db' →
          recorded? db' = some (done ++ before.map (·.name))) ∧
        ((∀ m ∈ before, m.IgnoresRecord) → ∀ x,
          ((compose? before base).map withoutRecord = some x ↔
            ∃ db', Carries before base db' ∧ withoutRecord db' = x))) ∧
      ∀ before m after u, pending ms done = before ++ m :: after → Carries before base u →
        ∀ pre post m', ms = pre ++ m :: post → m'.name = m.name → m'.KeepsRecord →
          ∀ db', (∀ r, applyPending (pre ++ m' :: post) u = (db', r) ↔
              Ends (m' :: after) u db' r) ∧
            (Carries (m' :: after) u db' →
              recorded? db' = some (done ++ (pending ms done).map (·.name))) := by
  refine ⟨fun h => applyPending_of_open?_eq_none h ms, fun base done ho => ⟨?_, ?_, ?_⟩⟩
  · exact fun db' r => applyPending_eq_iff hd hk ho
  · intro before after hp
    have hpend := arePending_pending hd hk (recorded?_of_open? ho)
    rw [hp] at hpend
    exact ⟨fun db' hc => (hpend.of_carries hc).recorded,
      fun hi x => hpend.left.compose?_iff hi rfl⟩
  · rintro before m after u hp hc pre post m' rfl hn hm db'
    have hr := recorded?_of_open? ho
    have hrest := arePending_of_stopped hd hk hr hp hc hn hm
    refine ⟨fun r => applyPending_of_stopped_iff hd hk hr hp hc hn hm, fun hc' => ?_⟩
    rw [← List.append_nil (m' :: after)] at hrest
    rw [(hrest.of_carries hc').recorded, hp]
    simp [hn]

theorem keepsRecord_createTable (name table : String) (columns : List String) :
    KeepsRecord { name, run := (·.createTable? table columns) } :=
  fun _ _ _ hn h => names?_addTable? h hn

theorem keepsRecord_fail (name : String) : KeepsRecord { name, run := fun _ => none } :=
  fun _ _ _ _ h => nomatch h

/-- Of four migrations the third is on record; the second fails and is put right. -/
theorem applyPending_exact_of_broken :
    let first : Migration := ⟨"000_first", (·.createTable? "first" ["id"])⟩
    let broken : Migration := ⟨"001_second", fun _ => none⟩
    let second : Migration := ⟨"001_second", (·.createTable? "second" ["id"])⟩
    let third : Migration := ⟨"002_third", (·.createTable? "third" ["id"])⟩
    let fourth : Migration := ⟨"003_fourth", (·.createTable? "fourth" ["id"])⟩
    let db : Database := { tables := [(ledger, { ledgerTable with names := [some "002_third"] })] }
    ∃ u, applyPending [first, broken, third, fourth] db =
        (u, .error (.executionFailed "001_second")) ∧
      recorded? u = some ["002_third", "000_first"] ∧
      ∀ db' r, applyPending [first, second, third, fourth] u = (db', r) ↔
        Ends [second, fourth] u db' r := by
  intro first broken second third fourth db
  have hd : ([first, broken, third, fourth].map (·.name)).Nodup := by decide
  have hk : ∀ m ∈ [first, broken, third, fourth], m.KeepsRecord := by
    simp only [List.forall_mem_cons]
    exact ⟨keepsRecord_createTable _ _ _, keepsRecord_fail _, keepsRecord_createTable _ _ _,
      keepsRecord_createTable _ _ _, nofun⟩
  have ho : open? db = some (db, ["002_third"]) := by decide +kernel
  obtain ⟨hends, hcarries, hrest⟩ := (applyPending_exact hd hk db).2 db _ ho
  have hp : pending [first, broken, third, fourth] ["002_third"] = [first, broken, fourth] := rfl
  let made : Database := { tables := [
    (ledger, { ledgerTable with names := [some "002_third"] }), ("first", { columns := ["id"] })] }
  let u : Database := made.setNames ledger [some "002_third", some "000_first"]
  have hrun : first.run db = some made := by decide +kernel
  have hnames : made.names? ledger = some [some "002_third"] := by decide +kernel
  have hc : Carries [first] db u := .cons hrun hnames .nil
  refine ⟨u, (hends _ _).mpr (.stopped hp hc rfl), (hcarries [first] _ hp).1 u hc, ?_⟩
  exact fun db' r => (hrest [first] broken [fourth] u hp hc [first] [third, fourth] second rfl rfl
    (keepsRecord_createTable _ _ _) db').1 r

end Migration

end EventStream
