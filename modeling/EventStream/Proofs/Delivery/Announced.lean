import EventStream.Proofs.Delivery.Order

/-! Runs whose log only grows. What has once been in the log stays there, and what ticks have
announced is in it. -/

namespace EventStream

namespace World

/-- Rows are only added, and ids are announced by ticks only. -/
structure Steady (w : World) (m : Move) : Prop where
  possible : w.Possible m
  appends : w.Appends m
  unannounced : m.isAnnounce = false

instance (w : World) (m : Move) : Decidable (w.Steady m) :=
  decidable_of_iff (w.Possible m ∧ w.Appends m ∧ m.isAnnounce = false)
    ⟨fun ⟨hp, ha, hu⟩ => ⟨hp, ha, hu⟩, fun h => ⟨h.possible, h.appends, h.unannounced⟩⟩

section Run

variable {capacity replays : Nat} {start : Instant} {past : List (World × Move)} {w : World}

theorem possible_of_steady (run : Run Steady (.new capacity replays start) past w) :
    Run Possible (.new capacity replays start) past w :=
  run.mono fun _ _ h => h.possible

theorem grows_of_visited (run : Run Steady (.new capacity replays start) past w) {v : World}
    (hv : Visited past w v) : v.log.Grows w.log := by
  induction run with
  | nil =>
      rcases hv with rfl | ⟨m, hm⟩
      · exact .refl _
      · cases hm
  | cons run hm ih =>
      rcases visited_cons_iff.mp hv with rfl | hv
      · exact .refl _
      · exact (ih hv).trans (grows_apply hm.appends)

theorem holds_of_logged (run : Run Steady (.new capacity replays start) past w) {e : Event}
    (h : Logged past w e) : w.log.Holds e := by
  obtain ⟨v, hv, he⟩ := h
  exact (grows_of_visited run hv).holds he

theorem holds_of_mem_events (run : Run Steady (.new capacity replays start) past w)
    {k : TaskId} {e : Event} (he : e ∈ (w.hub.task k).events) : w.log.Holds e :=
  holds_of_logged run (logged_of_mem_events (possible_of_steady run) he)

theorem id_pos_of_appends (run : Run Appends (.new capacity replays start) past w) {e : Event}
    (he : w.log.Holds e) : 0 < e.id := by
  induction run with
  | nil =>
      obtain ⟨r, hr, -⟩ := he
      cases hr
  | @cons past w m run hm ih =>
      rcases (grows_apply hm).holds_or_lt he with hold | hlt
      · exact ih hold
      · exact Int.lt_of_le_of_lt w.log.lastId_nonneg hlt

theorem id_pos_of_holds (run : Run Steady (.new capacity replays start) past w) {e : Event}
    (he : w.log.Holds e) : 0 < e.id :=
  id_pos_of_appends (run.mono fun _ _ h => h.appends) he

/-- What has been announced is in the log. -/
theorem announced_le_lastId (run : Run Steady (.new capacity replays start) past w) :
    w.hub.checkpoint.announced ≤ w.log.lastId := by
  induction run with
  | nil => exact Int.le_refl 0
  | @cons past w m run hm ih =>
      refine Int.le_trans ?_ (grows_apply hm.appends).lastId_le
      rcases (effect (tidy_of_run (possible_of_steady run)) hm.possible).announced with
        heq | ⟨k, batch, last, ht, hl, -, heq⟩ | ⟨id, rfl⟩
      · rw [heq]
        exact ih
      · have hlast : last ∈ (w.hub.task k).events := by
          rw [ht]
          exact List.mem_of_getLast? hl
        have hle := (holds_of_mem_events run hlast).id_le
        rw [heq]
        omega
      · exact nomatch hm.unannounced

end Run

end World

end EventStream
