import EventStream.Proofs.Database.Migration

/-! A database that is brought up to date twice, with a list and later with a longer one, against
one that is brought up to date with the longer list from the start. -/

namespace EventStream

namespace Migration

open Database

variable {ps qs ms : List Migration} {done : List String} {base db db' : Database}

/-- A call that succeeds says how much of the list was pending, and all of that is carried out. -/
theorem applyPending_eq_ok_iff (hd : (ms.map (·.name)).Nodup) (hk : ∀ m ∈ ms, m.KeepsRecord)
    (h : open? db = some (base, done)) {n : Nat} :
    applyPending ms db = (db', .ok n) ↔
      n = (pending ms done).length ∧ Carries (pending ms done) base db' := by
  rw [applyPending_eq_iff hd hk h, ends_ok_iff]

theorem open?_of_ok {n : Nat} (h : applyPending ms db = (db', .ok n)) :
    ∃ base done, open? db = some (base, done) := by
  cases ho : open? db with
  | none =>
    rw [applyPending_of_open?_eq_none ho] at h
    cases h
  | some found => exact ⟨found.1, found.2, rfl⟩

theorem recorded?_of_carries (hd : (ms.map (·.name)).Nodup) (hk : ∀ m ∈ ms, m.KeepsRecord)
    (h : recorded? base = some done) (hc : Carries (pending ms done) base db') :
    recorded? db' = some (done ++ (pending ms done).map (·.name)) := by
  have hp := arePending_pending hd hk h
  rw [← List.append_nil (pending ms done)] at hp
  exact (hp.of_carries hc).recorded

/-- With the names of a list on record, what is pending of a longer one is its own part. -/
theorem pending_append_of_recorded (hd : ((ps ++ qs).map (·.name)).Nodup) :
    pending (ps ++ qs) (done ++ (pending ps done).map (·.name)) = pending qs done := by
  rw [pending_append_of_mem fun m hm => mem_append_pending hm]
  refine pending_append_of_disjoint fun m hm hmem => ?_
  rw [List.map_append, List.nodup_append] at hd
  obtain ⟨x, hx, hxm⟩ := List.mem_map.mp hmem
  exact hd.2.2 _ (List.mem_map_of_mem (mem_pending.mp hx).1) _ (List.mem_map_of_mem hm) hxm

/-- After a call that succeeds, one with a longer list has the rest of that to carry out. -/
theorem applyPending_append_iff (hd : ((ps ++ qs).map (·.name)).Nodup)
    (hk : ∀ m ∈ ps ++ qs, m.KeepsRecord) (hr : recorded? base = some done) {db₁ db₂ : Database}
    (hc : Carries (pending ps done) base db₁) {n : Nat} :
    applyPending (ps ++ qs) db₁ = (db₂, .ok n) ↔
      n = (pending qs done).length ∧ Carries (pending qs done) db₁ db₂ := by
  have hdps : (ps.map (·.name)).Nodup := hd.sublist ((List.sublist_append_left ..).map _)
  have hkps : ∀ m ∈ ps, m.KeepsRecord := fun m hm => hk m (List.mem_append_left _ hm)
  have hr₁ := recorded?_of_carries hdps hkps hr hc
  rw [applyPending_eq_ok_iff hd hk (open?_of_recorded? hr₁), pending_append_of_recorded hd]

/-- A call that has succeeded has nothing left to do. -/
theorem applyPending_again (hd : (ms.map (·.name)).Nodup) (hk : ∀ m ∈ ms, m.KeepsRecord) {n : Nat}
    (h : applyPending ms db = (db', .ok n)) : applyPending ms db' = (db', .ok 0) := by
  obtain ⟨base, done, ho⟩ := open?_of_ok h
  obtain ⟨-, hc⟩ := (applyPending_eq_ok_iff hd hk ho).mp h
  rw [← List.append_nil ms] at hd hk ⊢
  exact (applyPending_append_iff hd hk (recorded?_of_open? ho) hc).mpr ⟨rfl, .nil⟩

/-- A database that is brought up to date with a list and then with a longer one comes out like
one that is brought up to date with the longer list at once, and the counts add up. -/
theorem upgrade_iff_install (hd : ((ps ++ qs).map (·.name)).Nodup)
    (hk : ∀ m ∈ ps ++ qs, m.KeepsRecord) (db : Database) :
    (∀ db₂ n, applyPending (ps ++ qs) db = (db₂, .ok n) ↔
      ∃ db₁ a b, applyPending ps db = (db₁, .ok a) ∧
        applyPending (ps ++ qs) db₁ = (db₂, .ok b) ∧ a + b = n) ∧
    ∀ db₁ a, applyPending ps db = (db₁, .ok a) → applyPending ps db₁ = (db₁, .ok 0) := by
  have hdps : (ps.map (·.name)).Nodup := hd.sublist ((List.sublist_append_left ..).map _)
  have hkps : ∀ m ∈ ps, m.KeepsRecord := fun m hm => hk m (List.mem_append_left _ hm)
  constructor
  · intro db₂ n
    constructor
    · intro h
      obtain ⟨base, done, ho⟩ := open?_of_ok h
      obtain ⟨rfl, hc⟩ := (applyPending_eq_ok_iff hd hk ho).mp h
      rw [pending_append] at hc ⊢
      obtain ⟨db₁, hps, hqs⟩ := carries_append_iff.mp hc
      refine ⟨db₁, _, _, (applyPending_eq_ok_iff hdps hkps ho).mpr ⟨rfl, hps⟩,
        (applyPending_append_iff hd hk (recorded?_of_open? ho) hps).mpr ⟨rfl, hqs⟩, ?_⟩
      rw [List.length_append]
    · rintro ⟨db₁, a, b, h, h', rfl⟩
      obtain ⟨base, done, ho⟩ := open?_of_ok h
      obtain ⟨rfl, hps⟩ := (applyPending_eq_ok_iff hdps hkps ho).mp h
      obtain ⟨rfl, hqs⟩ := (applyPending_append_iff hd hk (recorded?_of_open? ho) hps).mp h'
      rw [applyPending_eq_ok_iff hd hk ho, pending_append, List.length_append]
      exact ⟨rfl, hps.append hqs⟩
  · exact fun db₁ a h => applyPending_again hdps hkps h

/-- The second migration of a list and the last of a longer one are on record to begin with. -/
theorem upgrade_iff_install_of_recorded :
    let a : Migration := ⟨"000_a", (·.createTable? "a" ["id"])⟩
    let b : Migration := ⟨"001_b", (·.createTable? "b" ["id"])⟩
    let c : Migration := ⟨"002_c", (·.createTable? "c" ["id"])⟩
    let d : Migration := ⟨"003_d", (·.createTable? "d" ["id"])⟩
    let names := [some "003_d", some "001_b"]
    let db : Database := { tables := [(ledger, { ledgerTable with names })] }
    ∃ db₁ db₂ : Database, applyPending [a, b] db = (db₁, .ok 1) ∧
      applyPending [a, b, c, d] db₁ = (db₂, .ok 1) ∧
      applyPending [a, b, c, d] db = (db₂, .ok 2) ∧ applyPending [a, b] db₁ = (db₁, .ok 0) := by
  intro a b c d names db
  have hd : (([a, b] ++ [c, d]).map (·.name)).Nodup := by decide
  have hk : ∀ m ∈ [a, b] ++ [c, d], m.KeepsRecord := by
    simp only [List.forall_mem_append, List.forall_mem_cons]
    exact ⟨⟨keepsRecord_createTable _ _ _, keepsRecord_createTable _ _ _, nofun⟩,
      keepsRecord_createTable _ _ _, keepsRecord_createTable _ _ _, nofun⟩
  have h := upgrade_iff_install hd hk db
  let db₁ : Database := { tables := [
    (ledger, { ledgerTable with names := names ++ [some "000_a"] }), ("a", { columns := ["id"] })] }
  let db₂ : Database := { tables := [
    (ledger, { ledgerTable with names := names ++ [some "000_a", some "002_c"] }),
    ("a", { columns := ["id"] }), ("c", { columns := ["id"] })] }
  have h₁ : applyPending [a, b] db = (db₁, .ok 1) := by decide +kernel
  have h₂ : applyPending [a, b, c, d] db₁ = (db₂, .ok 1) := by decide +kernel
  exact ⟨db₁, db₂, h₁, h₂, (h.1 db₂ 2).mpr ⟨db₁, 1, 1, h₁, h₂, rfl⟩, h.2 db₁ 1 h₁⟩

end Migration

end EventStream
