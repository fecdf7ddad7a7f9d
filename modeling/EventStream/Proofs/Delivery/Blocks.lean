import EventStream.Proofs.Delivery.Failed
import EventStream.Proofs.Delivery.Transcript
import EventStream.Proofs.Delivery.Turns

/-! The frames of a connection come in blocks, one for each replay that has begun: its events,
and one frame that tells how it has ended. What ticks queue stands between the blocks. -/

namespace EventStream

namespace World

/-- What has been queued on a connection from one replay to the next. -/
structure Block where
  replay : TaskId
  events : List Message := []
  /-- The frame that tells how the replay has ended. -/
  terminal : Option Frame := none
  /-- Events that ticks have queued after that, each with the tick. -/
  live : List (TaskId × Message) := []

namespace Block

def frames (b : Block) : List (TaskId × Frame) :=
  b.events.map (fun m => (b.replay, .event m)) ++ b.terminal.toList.map (b.replay, ·) ++
    b.live.map fun x => (x.1, .event x.2)

theorem frames_event {b : Block} (ht : b.terminal = none) (hl : b.live = []) (m : Message) :
    { b with events := b.events ++ [m] }.frames = b.frames ++ [(b.replay, .event m)] := by
  simp [frames, ht, hl]

theorem frames_terminal {b : Block} (ht : b.terminal = none) (hl : b.live = []) (f : Frame) :
    { b with terminal := some f }.frames = b.frames ++ [(b.replay, f)] := by
  simp [frames, ht, hl]

theorem frames_live (b : Block) (k : TaskId) (m : Message) :
    { b with live := b.live ++ [(k, m)] }.frames = b.frames ++ [(k, .event m)] := by
  simp [frames]

/-- The block of a replay that is under way: no more than events, until it has told that its
history failed. -/
structure Unfinished (past : List (World × Move)) (r : Replay) (b : Block) : Prop where
  terminal : r.stage.progress = .underway ∧ b.terminal = none ∨
    r.stage.progress = .told ∧ HistoryFailed past b.replay ∧ b.terminal = some .historyFailed
  live : b.live = []
  alone : r.request.lastSeen = none → b.events = []

/-- The block of a replay that has ended: its last frame is an error just if the history has
failed, and the confirmation stands alone if no history was asked for. -/
structure Finished (c : ConnectionId) (past : List (World × Move)) (r : Replay) (b : Block) :
    Prop where
  ended : r.stage = .ended
  failed : HistoryFailed past b.replay → b.terminal = some .historyFailed
  confirmed : ¬ HistoryFailed past b.replay →
    b.terminal = some (.subscriptionConfirmed r.request.channel)
  alone : r.request.lastSeen = none →
    b.events = [] ∧ b.terminal = some (.subscriptionConfirmed r.request.channel)
  live : ∀ x ∈ b.live, ∃ v stage, (v, .advance x.1) ∈ past ∧ v.hub.task x.1 = .tick stage ∧
    queued c v (.advance x.1) = [(x.1, .event x.2)]

end Block

/-- Where the replays of the connection stand in its blocks: the one that has begun has the block
under way, and those that have ended have theirs done. -/
structure Placed (c : ConnectionId) (past : List (World × Move)) (w : World) (done : List Block)
    (current : Option Block) : Prop where
  begun : ∀ k r, w.hub.task k = .replay r → r.connection = c → r.stage.hasBegun = true →
    ∃ b ∈ current, b.replay = k
  ended : ∀ k r, w.hub.task k = .replay r → r.connection = c → r.stage = .ended →
    ∃ b ∈ done, b.replay = k
  unfinished : ∀ b ∈ current, ∃ r, w.hub.task b.replay = .replay r ∧ r.connection = c ∧
    b.Unfinished past r
  finished : ∀ b ∈ done, ∃ r, w.hub.task b.replay = .replay r ∧ r.connection = c ∧
    b.Finished c past r

/-- The replays of the connection are as far as they were. -/
def Still (c : ConnectionId) (w w' : World) : Prop :=
  ∀ k r, w.hub.task k = .replay r → r.connection = c →
    ∃ stage, w'.hub.task k = .replay { r with stage } ∧ stage.progress = r.stage.progress

section Place

variable {c : ConnectionId} {w : World} {m : Move} {past : List (World × Move)}
  {done : List Block} {current : Option Block} {k : TaskId} {r : Replay}

theorem Block.Finished.cons {b : Block} (h : b.Finished c past r)
    (hk : w.hub.task b.replay = .replay r) : b.Finished c ((w, m) :: past) r := by
  have hiff : HistoryFailed ((w, m) :: past) b.replay ↔ HistoryFailed past b.replay :=
    historyFailed_cons_of_not_asking hk fun purpose => by simp [h.ended]
  refine ⟨h.ended, fun hf => h.failed (hiff.mp hf), fun hf => h.confirmed (hf ∘ hiff.mpr), h.alone,
    fun x hx => ?_⟩
  obtain ⟨v, stage, hv, hrest⟩ := h.live x hx
  exact ⟨v, stage, List.mem_cons_of_mem _ hv, hrest⟩

theorem SameReplays.still {w' : World} (h : SameReplays c w w') : Still c w w' :=
  fun k r hk hr => ⟨r.stage, (h k r hr).mpr hk, rfl⟩

theorem still_of_update {w' : World} {stage : Replay.Stage} (hk : w.hub.task k = .replay r)
    (ht : w'.hub.task = update w.hub.task k (.replay { r with stage }))
    (hp : stage.progress = r.stage.progress) : Still c w w' := by
  intro j q hj _
  by_cases hjk : j = k
  · subst hjk
    rw [hk] at hj
    cases hj
    exact ⟨stage, by rw [ht, update_self], hp⟩
  · exact ⟨q.stage, by rw [ht, update_of_ne _ _ hjk]; exact hj, rfl⟩

theorem Placed.still (h : Placed c past w done current) (he : Effect w m (w.apply m))
    (hs : Still c w (w.apply m)) : Placed c ((w, m) :: past) (w.apply m) done current := by
  have hback {j : TaskId} {q : Replay} (hj : (w.apply m).hub.task j = .replay q)
      (hq : q.connection = c) : q.stage.progress = .waiting ∨
        ∃ q₀, w.hub.task j = .replay q₀ ∧ q₀.connection = c ∧
          q.stage.progress = q₀.stage.progress := by
    rcases he.replay_cases hj with ⟨q₀, hold, hconn, -⟩ | ⟨-, d, request, -, rfl⟩
    · obtain ⟨stage, hnew, hp⟩ := hs j q₀ hold (hconn.symm.trans hq)
      rw [hj] at hnew
      cases hnew
      exact .inr ⟨q₀, hold, hq, hp⟩
    · exact .inl rfl
  refine ⟨fun j q hj hq hb => ?_, fun j q hj hq hend => ?_, fun b hb => ?_, fun b hb => ?_⟩
  · rw [Replay.Stage.hasBegun_eq] at hb
    rcases hback hj hq with hp | ⟨q₀, hold, hconn, hp⟩
    · simp [hp] at hb
    · refine h.begun j q₀ hold hconn ?_
      rwa [Replay.Stage.hasBegun_eq, ← hp]
  · rcases hback hj hq with hp | ⟨q₀, hold, hconn, hp⟩
    · rw [hend] at hp
      cases hp
    · refine h.ended j q₀ hold hconn (Replay.Stage.eq_ended_of_progress ?_)
      rw [← hp, hend]
      rfl
  · obtain ⟨q, hq, hconn, hu⟩ := h.unfinished b hb
    obtain ⟨stage, hnew, hp⟩ := hs _ q hq hconn
    refine ⟨_, hnew, hconn, ?_, hu.live, hu.alone⟩
    rw [hp]
    exact hu.terminal.imp_right fun ⟨ht, hf, hb⟩ => ⟨ht, historyFailed_cons.mpr (.inl hf), hb⟩
  · obtain ⟨q, hq, hconn, hf⟩ := h.finished b hb
    obtain ⟨stage, hnew, hp⟩ := hs _ q hq hconn
    rw [hf.ended] at hp
    obtain rfl := Replay.Stage.eq_ended_of_progress hp
    have hsame : { q with stage := .ended } = q := by rw [← hf.ended]
    rw [hsame] at hnew
    exact ⟨q, hnew, hconn, hf.cons hq⟩

/-- Beside the replay that holds the lock none has begun. -/
theorem Locked.eq_of_hasBegun (hl : w.Locked) (hk : w.hub.task k = .replay r)
    (hlock : r.stage.holdsLock = true) {j : TaskId} {q : Replay} (hj : w.hub.task j = .replay q)
    (hc : q.connection = r.connection) (hb : q.stage.hasBegun = true) : j = k :=
  hl.unique hj hk (Replay.Stage.holdsLock_of_hasBegun hb) hlock hc

/-- The blocks that are done stay when another replay moves. -/
theorem Placed.finished_of_update (h : Placed c past w done current)
    (hk : w.hub.task k = .replay r) (hlock : r.stage.holdsLock = true) {w' : World}
    {stage : Replay.Stage} (ht : w'.hub.task = update w.hub.task k (.replay { r with stage })) :
    ∀ b ∈ done, ∃ q, w'.hub.task b.replay = .replay q ∧ q.connection = c ∧
      b.Finished c ((w, m) :: past) q := by
  intro b hb
  obtain ⟨q, hq, hconn, hf⟩ := h.finished b hb
  have hne : b.replay ≠ k := by
    rintro rfl
    rw [hk] at hq
    cases hq
    rw [hf.ended] at hlock
    cases hlock
  exact ⟨q, by rw [ht, update_of_ne _ _ hne]; exact hq, hconn, hf.cons hq⟩

/-- The replay that holds the lock goes on with block `b`. -/
theorem Placed.under (h : Placed c past w done current) (hl : w.Locked)
    (hk : w.hub.task k = .replay r) (hc : r.connection = c) (hlock : r.stage.holdsLock = true)
    {w' : World} {stage : Replay.Stage}
    (ht : w'.hub.task = update w.hub.task k (.replay { r with stage }))
    (hb : stage.hasBegun = true) {b : Block} (hr : b.replay = k)
    (hu : b.Unfinished ((w, m) :: past) { r with stage }) :
    Placed c ((w, m) :: past) w' done (some b) := by
  refine ⟨fun j q hj hq hbegun => ?_, fun j q hj hq hend => ?_, fun d hd => ?_,
    h.finished_of_update hk hlock ht⟩
  · rw [ht] at hj
    rcases eq_or_of_update_eq hj with ⟨rfl, -⟩ | ⟨hjk, hj⟩
    · exact ⟨b, rfl, hr⟩
    · exact absurd (hl.eq_of_hasBegun hk hlock hj (hq.trans hc.symm) hbegun) hjk
  · rw [ht] at hj
    rcases eq_or_of_update_eq hj with ⟨-, heq⟩ | ⟨-, hj⟩
    · cases heq
      rw [show stage = .ended from hend] at hb
      cases hb
    · exact h.ended j q hj hq hend
  · cases hd
    exact ⟨{ r with stage }, by rw [ht, hr, update_self], hc, hu⟩

/-- The replay that holds the lock ends, and has its block `b` done. -/
theorem Placed.finish (h : Placed c past w done current) (hl : w.Locked)
    (hk : w.hub.task k = .replay r) (hc : r.connection = c) (hlock : r.stage.holdsLock = true)
    {w' : World} (ht : w'.hub.task = update w.hub.task k (.replay { r with stage := .ended }))
    {b : Block} (hr : b.replay = k)
    (hf : b.Finished c ((w, m) :: past) { r with stage := .ended }) :
    Placed c ((w, m) :: past) w' (done ++ [b]) none := by
  refine ⟨fun j q hj hq hbegun => ?_, fun j q hj hq hend => ?_, fun d hd => (nomatch hd),
    fun d hd => ?_⟩
  · rw [ht] at hj
    rcases eq_or_of_update_eq hj with ⟨-, heq⟩ | ⟨hjk, hj⟩
    · cases heq
      cases hbegun
    · exact absurd (hl.eq_of_hasBegun hk hlock hj (hq.trans hc.symm) hbegun) hjk
  · rw [ht] at hj
    rcases eq_or_of_update_eq hj with ⟨rfl, -⟩ | ⟨-, hj⟩
    · exact ⟨b, List.mem_append_right _ List.mem_cons_self, hr⟩
    · obtain ⟨d, hd, heq⟩ := h.ended j q hj hq hend
      exact ⟨d, List.mem_append_left _ hd, heq⟩
  · rcases List.mem_append.mp hd with hd | hd
    · exact h.finished_of_update hk hlock ht d hd
    · obtain rfl := List.mem_singleton.mp hd
      exact ⟨{ r with stage := .ended }, by rw [ht, hr, update_self], hc, hf⟩

end Place

/-- The transcript of the connection in blocks, in the order in which its replays have got in
line. -/
structure Told (c : ConnectionId) (past : List (World × Move)) (w : World) (done : List Block)
    (current : Option Block) : Prop where
  frames : transcript c past = (done ++ current.toList).flatMap Block.frames
  line : arrivals c past = done.map Block.replay ++ w.hub.lockLine c
  placed : Placed c past w done current

section Tell

variable {c : ConnectionId} {w : World} {past : List (World × Move)} {done : List Block}
  {current : Option Block} {k : TaskId} {r : Replay}

theorem Told.frames_cons {m : Move} (h : Told c past w done current) {done' : List Block}
    {current' : Option Block} (hq : (done' ++ current'.toList).flatMap Block.frames =
      (done ++ current.toList).flatMap Block.frames ++ queued c w m) :
    transcript c ((w, m) :: past) = (done' ++ current'.toList).flatMap Block.frames := by
  rw [transcript, h.frames, hq]

theorem Told.line_cons {m : Move} (h : Told c past w done current)
    (hl : (w.apply m).hub.lockLine c = w.hub.lockLine c) :
    arrivals c ((w, m) :: past) = done.map Block.replay ++ (w.apply m).hub.lockLine c := by
  rw [arrivals, joins_of_eq hl, List.append_nil, hl, h.line]

/-- A move that queues nothing and gets no replay further. -/
theorem Told.still {m : Move} (h : Told c past w done current) (he : Effect w m (w.apply m))
    (hs : Still c w (w.apply m)) (hq : queued c w m = [])
    (hl : (w.apply m).hub.lockLine c = w.hub.lockLine c) :
    Told c ((w, m) :: past) (w.apply m) done current :=
  ⟨h.frames_cons (by rw [hq, List.append_nil]), h.line_cons hl, h.placed.still he hs⟩

/-- A tick queues an event after the last block that is done. -/
theorem Told.live (h : Told c past w done none) (hdone : done ≠ [])
    (he : Effect w (.advance k) (w.apply (.advance k))) (hs : Still c w (w.apply (.advance k)))
    {stage : Tick.Stage} (hk : w.hub.task k = .tick stage) {n : Message}
    (hq : queued c w (.advance k) = [(k, .event n)])
    (hl : (w.apply (.advance k)).hub.lockLine c = w.hub.lockLine c) :
    ∃ done', Told c ((w, .advance k) :: past) (w.apply (.advance k)) done' none := by
  obtain ⟨init, b, rfl⟩ : ∃ init b, done = init ++ [b] :=
    ⟨_, _, (List.dropLast_concat_getLast hdone).symm⟩
  have hplaced := h.placed.still he hs
  refine ⟨init ++ [{ b with live := b.live ++ [(k, n)] }], h.frames_cons ?_, ?_, ?_⟩
  · simp [hq, Block.frames_live]
  · simpa using h.line_cons hl
  · refine ⟨hplaced.begun, fun j q hj hc hend => ?_, hplaced.unfinished, fun d hd => ?_⟩
    · obtain ⟨d, hd, heq⟩ := hplaced.ended j q hj hc hend
      rcases List.mem_append.mp hd with hd | hd
      · exact ⟨d, List.mem_append_left _ hd, heq⟩
      · obtain rfl := List.mem_singleton.mp hd
        exact ⟨_, List.mem_append_right _ List.mem_cons_self, heq⟩
    · rcases List.mem_append.mp hd with hd | hd
      · exact hplaced.finished d (List.mem_append_left _ hd)
      · obtain rfl := List.mem_singleton.mp hd
        obtain ⟨q, hq', hc, hf⟩ :=
          hplaced.finished b (List.mem_append_right _ List.mem_cons_self)
        refine ⟨q, hq', hc, hf.ended, hf.failed, hf.confirmed, hf.alone, fun x hx => ?_⟩
        rcases List.mem_append.mp hx with hx | hx
        · exact hf.live x hx
        · obtain rfl := List.mem_singleton.mp hx
          exact ⟨w, stage, List.mem_cons_self, hk, hq⟩

/-- A replay that has not ended gets further, with block `b` under way. -/
theorem Told.under (h : Told c past w done current) (hlocked : w.Locked)
    (hk : w.hub.task k = .replay r) (hc : r.connection = c) (hlock : r.stage.holdsLock = true)
    {stage : Replay.Stage} (ht : (w.apply (.advance k)).hub.task =
      update w.hub.task k (.replay { r with stage }))
    (hb : stage.hasBegun = true) {b : Block} (hr : b.replay = k)
    (hu : b.Unfinished ((w, .advance k) :: past) { r with stage })
    (hq : b.frames = current.toList.flatMap Block.frames ++ queued c w (.advance k))
    (hl : (w.apply (.advance k)).hub.lockLine c = w.hub.lockLine c) :
    Told c ((w, .advance k) :: past) (w.apply (.advance k)) done (some b) :=
  ⟨h.frames_cons (by simp [hq]), h.line_cons hl,
    h.placed.under hlocked hk hc hlock ht hb hr hu⟩

/-- The replay ends, and leaves the line. -/
theorem Told.finish (h : Told c past w done current) (hlocked : w.Locked)
    (hlined : Lined c past w) (hk : w.hub.task k = .replay r) (hc : r.connection = c)
    (hlock : r.stage.holdsLock = true)
    (ht : (w.apply (.advance k)).hub.task =
      update w.hub.task k (.replay { r with stage := .ended })) {b : Block} (hr : b.replay = k)
    (hf : b.Finished c ((w, .advance k) :: past) { r with stage := .ended })
    (hq : b.frames = current.toList.flatMap Block.frames ++ queued c w (.advance k))
    (hl : (w.apply (.advance k)).hub.lockLine c = (w.hub.lockLine c).filter (· ≠ k)) :
    Told c ((w, .advance k) :: past) (w.apply (.advance k)) (done ++ [b]) none := by
  refine ⟨h.frames_cons (by simp [hq]), ?_, h.placed.finish hlocked hk hc hlock ht hr hf⟩
  have hhead := hlocked k r hk hlock
  have hnodup := hlined.nodup
  rw [hc] at hhead
  rw [arrivals, joins_of_filter hl, List.append_nil, hl, h.line]
  rw [h.line] at hnodup
  cases hline : w.hub.lockLine c with
  | nil => rw [hline] at hhead; cases hhead
  | cons i rest =>
      rw [hline] at hhead hnodup
      cases hhead
      have hrest : rest.filter (· ≠ k) = rest := by
        have hnot := (List.nodup_cons.mp (List.nodup_append.mp hnodup).2.1).1
        exact List.filter_eq_self.mpr fun j hj => decide_eq_true fun heq => hnot (heq ▸ hj)
      rw [List.filter_cons_of_neg (by simp), hrest]
      simp [hr]

end Tell

section Act

variable {c : ConnectionId} {w : World} {past : List (World × Move)} {done : List Block}
  {current : Option Block} {k : TaskId} {request : Subscription} {stage stage' : Replay.Stage}

/-- The block of a replay that has begun is the one under way. -/
theorem Told.current_eq (h : Told c past w done current)
    (hk : w.hub.task k = .replay ⟨c, request, stage⟩) (hb : stage.hasBegun = true) :
    ∃ b, current = some b ∧ b.replay = k ∧ b.Unfinished past ⟨c, request, stage⟩ := by
  obtain ⟨b, hb, hr⟩ := h.placed.begun k _ hk rfl hb
  obtain ⟨q, hq, -, hu⟩ := h.placed.unfinished b hb
  rw [hr, hk] at hq
  cases hq
  exact ⟨b, hb, hr, hu⟩

/-- A replay is under way if a block is. -/
theorem Told.hasBegun_of_mem (h : Told c past w done current) {b : Block} (hb : b ∈ current) :
    ∃ r, w.hub.task b.replay = .replay r ∧ r.connection = c ∧ r.stage.hasBegun = true := by
  obtain ⟨r, hk, hc, hu⟩ := h.placed.unfinished b hb
  refine ⟨r, hk, hc, ?_⟩
  rw [Replay.Stage.hasBegun_eq]
  rcases hu.terminal with ⟨hp, -⟩ | ⟨hp, -⟩ <;> rw [hp]

/-- No block is under way when the replay that holds the lock has not begun. -/
theorem Told.current_eq_none (h : Told c past w done current) (hl : w.Locked)
    (hk : w.hub.task k = .replay ⟨c, request, stage⟩) (hlock : stage.holdsLock = true)
    (hb : stage.hasBegun = false) : current = none := by
  refine Option.eq_none_iff_forall_ne_some.mpr fun b hcurrent => ?_
  obtain ⟨q, hq, hc, hbegun⟩ := h.hasBegun_of_mem hcurrent
  obtain hsame := hl.eq_of_hasBegun hk hlock hq hc hbegun
  rw [hsame, hk] at hq
  cases hq
  rw [hb] at hbegun
  cases hbegun

theorem Block.Unfinished.terminal_of_underway {r : Replay} {b : Block}
    (h : b.Unfinished past r) (hp : r.stage.progress = .underway) : b.terminal = none := by
  rcases h.terminal with ⟨-, ht⟩ | ⟨htold, -⟩
  · exact ht
  · rw [hp] at htold
    cases htold

theorem queue_of_underway (hp : stage.progress = .underway) (line : List TaskId) :
    Replay.queue k stage line = line := by
  cases stage <;> first | rfl | cases hp

section Frames

variable (h : Told c past w done current) (hlocked : w.Locked)
  (hk : w.hub.task k = .replay ⟨c, request, stage⟩)
  (ht : (w.apply (.advance k)).hub.task = update w.hub.task k (.replay ⟨c, request, stage'⟩))

include h hlocked hk ht

/-- The replay begins, and a block with it. -/
theorem Told.begin (hlock : stage.holdsLock = true) (hb : stage.hasBegun = false)
    (hp' : stage'.progress = .underway) (hq : queued c w (.advance k) = [])
    (hl : (w.apply (.advance k)).hub.lockLine c = w.hub.lockLine c) :
    Told c ((w, .advance k) :: past) (w.apply (.advance k)) done (some { replay := k }) := by
  obtain rfl := h.current_eq_none hlocked hk hlock hb
  refine h.under hlocked hk rfl hlock ht ?_ rfl ?_ ?_ hl
  · simp [Replay.Stage.hasBegun_eq, hp']
  · exact ⟨.inl ⟨hp', rfl⟩, rfl, fun _ => rfl⟩
  · simp [hq, Block.frames]

/-- The replay queues an event of its history. -/
theorem Told.event (hd : stage.isDelivering = true) (hd' : stage'.isDelivering = true)
    (hseen : request.lastSeen ≠ none) {n : Message}
    (hq : queued c w (.advance k) = [(k, .event n)])
    (hl : (w.apply (.advance k)).hub.lockLine c = w.hub.lockLine c) :
    ∃ b, Told c ((w, .advance k) :: past) (w.apply (.advance k)) done (some b) := by
  have hb := Replay.Stage.hasBegun_of_isDelivering hd
  have hp' := (Replay.progress_of_isDelivering hd').1
  obtain ⟨b, rfl, rfl, hu⟩ := h.current_eq hk hb
  have hterminal := hu.terminal_of_underway (Replay.progress_of_isDelivering hd).1
  refine ⟨{ b with events := b.events ++ [n] }, h.under hlocked hk rfl
    (Replay.Stage.holdsLock_of_hasBegun hb) ht (Replay.Stage.hasBegun_of_isDelivering hd') rfl ?_ ?_
    hl⟩
  · exact ⟨.inl ⟨hp', hterminal⟩, hu.live, fun hnone => absurd hnone hseen⟩
  · rw [Block.frames_event hterminal hu.live, hq]
    simp

/-- The replay tells of its failure. -/
theorem Told.report (hp : stage.progress = .underway) (hp' : stage'.progress = .told)
    (hfail : HistoryFailed past k) (hq : queued c w (.advance k) = [(k, .historyFailed)])
    (hl : (w.apply (.advance k)).hub.lockLine c = w.hub.lockLine c) :
    ∃ b, Told c ((w, .advance k) :: past) (w.apply (.advance k)) done (some b) := by
  have hb : stage.hasBegun = true := by simp [Replay.Stage.hasBegun_eq, hp]
  obtain ⟨b, rfl, rfl, hu⟩ := h.current_eq hk hb
  refine ⟨{ b with terminal := some .historyFailed }, h.under hlocked hk rfl
    (Replay.Stage.holdsLock_of_hasBegun hb) ht ?_ rfl ?_ ?_ hl⟩
  · simp [Replay.Stage.hasBegun_eq, hp']
  · exact ⟨.inr ⟨hp', historyFailed_advance.mpr hfail, rfl⟩, hu.live, hu.alone⟩
  · rw [Block.frames_terminal (hu.terminal_of_underway hp) hu.live, hq]
    simp

section Ends

variable (hlined : Lined c past w) (hended : stage' = .ended)
  (hl : (w.apply (.advance k)).hub.lockLine c = (w.hub.lockLine c).filter (· ≠ k))

include hlined hended hl

/-- The replay confirms its subscription and ends. -/
theorem Told.confirm (hp : stage.progress = .underway) (hnot : ¬ HistoryFailed past k)
    (hq : queued c w (.advance k) = [(k, .subscriptionConfirmed request.channel)]) :
    ∃ b, Told c ((w, .advance k) :: past) (w.apply (.advance k)) (done ++ [b]) none := by
  subst hended
  have hb : stage.hasBegun = true := by simp [Replay.Stage.hasBegun_eq, hp]
  obtain ⟨b, rfl, rfl, hu⟩ := h.current_eq hk hb
  refine ⟨{ b with terminal := some (.subscriptionConfirmed request.channel) },
    h.finish hlocked hlined hk rfl (Replay.Stage.holdsLock_of_hasBegun hb) ht rfl ?_ ?_ hl⟩
  · refine ⟨rfl, fun hfail => absurd (historyFailed_advance.mp hfail) hnot, fun _ => rfl,
      fun hseen => ⟨hu.alone hseen, rfl⟩, fun x hx => ?_⟩
    rw [hu.live] at hx
    cases hx
  · rw [Block.frames_terminal (hu.terminal_of_underway hp) hu.live, hq]
    simp

/-- The replay has told of its failure, and ends. -/
theorem Told.abort (hp : stage.progress = .told) (hseen : request.lastSeen ≠ none)
    (hq : queued c w (.advance k) = []) :
    ∃ b, Told c ((w, .advance k) :: past) (w.apply (.advance k)) (done ++ [b]) none := by
  subst hended
  have hb : stage.hasBegun = true := by simp [Replay.Stage.hasBegun_eq, hp]
  obtain ⟨b, rfl, rfl, hu⟩ := h.current_eq hk hb
  obtain ⟨hfail, hterminal⟩ : HistoryFailed past b.replay ∧ b.terminal = some .historyFailed := by
    rcases hu.terminal with ⟨hunder, -⟩ | ⟨-, hfail, hterminal⟩
    · rw [hp] at hunder
      cases hunder
    · exact ⟨hfail, hterminal⟩
  refine ⟨b, h.finish hlocked hlined hk rfl (Replay.Stage.holdsLock_of_hasBegun hb) ht rfl ?_ ?_ hl⟩
  · refine ⟨rfl, fun _ => hterminal, fun hnot => absurd (historyFailed_advance.mpr hfail) hnot,
      fun hnone => absurd hnone hseen, fun x hx => ?_⟩
    rw [hu.live] at hx
    cases hx
  · simp [hq]

end Ends

end Frames

theorem told_of_act (h : Told c past w done current) (hlocked : w.Locked)
    (hlined : Lined c past w) (hknows : Knows past k stage)
    (hplain : request.lastSeen = none → stage.isPlain = true)
    (he : Effect w (.advance k) (w.apply (.advance k))) (haccepts : w.Accepts c (.advance k))
    (hk : w.hub.task k = .replay ⟨c, request, stage⟩)
    (ha : Replay.Act request (w.hub.puts? k c) stage (w.hub.subscriber c) stage'
      ((w.apply (.advance k)).hub.subscriber c))
    (ht : (w.apply (.advance k)).hub.task = update w.hub.task k (.replay ⟨c, request, stage'⟩))
    (hl : (w.apply (.advance k)).hub.lockLine c = Replay.queue k stage' (w.hub.lockLine c)) :
    ∃ done' current',
      Told c ((w, .advance k) :: past) (w.apply (.advance k)) done' current' := by
  have hq := queued_advance haccepts
  have hstill (hp : stage'.progress = stage.progress) : Still c w (w.apply (.advance k)) :=
    still_of_update hk ht hp
  have hseen (hnot : stage.isPlain = false) : request.lastSeen ≠ none := fun hnone => by
    rw [hplain hnone] at hnot
    cases hnot
  generalize w.hub.puts? k c = put at ha hq
  generalize w.hub.subscriber c = s at ha
  generalize (w.apply (.advance k)).hub.subscriber c = t at ha
  cases ha with
  | arrive =>
      have hnew := hlined.not_mem_of_arriving hk rfl
      have hjoins := joins_of_append hl fun hmem => hnew (hlined.line k hmem)
      refine ⟨done, current, h.frames_cons (by simp [hq]), ?_, h.placed.still he (hstill rfl)⟩
      rw [arrivals, hjoins, hl, h.line, List.append_assoc]
      rfl
  | lock => exact ⟨done, current, h.still he (hstill rfl) hq hl⟩
  | grant => exact ⟨done, current, h.still he (hstill rfl) hq hl⟩
  | begin hp' =>
      exact ⟨done, _, h.begin hlocked hk ht rfl rfl hp' hq (hl.trans (queue_of_underway hp' _))⟩
  | goOn hp hp' =>
      exact ⟨done, current, h.still he (hstill (hp'.trans hp.symm)) hq
        (hl.trans (queue_of_underway hp' _))⟩
  | event hd hd' =>
      have hp' := (Replay.progress_of_isDelivering hd').1
      obtain ⟨b, hb⟩ := h.event hlocked hk ht hd hd' (hseen (Replay.isPlain_of_isDelivering hd)) hq
        (hl.trans (queue_of_underway hp' _))
      exact ⟨done, some b, hb⟩
  | confirm hp hf =>
      have hnot : ¬ HistoryFailed past k := by
        rw [hknows.underway hp, hf]
        exact Bool.false_ne_true
      obtain ⟨b, hb⟩ := h.confirm hlocked hk ht hlined rfl hl hp hnot hq
      exact ⟨_, none, hb⟩
  | report =>
      obtain ⟨b, hb⟩ :=
        h.report hlocked hk ht rfl rfl ((hknows.underway rfl).mpr rfl) hq hl
      exact ⟨done, some b, hb⟩
  | abort =>
      obtain ⟨b, hb⟩ := h.abort hlocked hk ht hlined rfl hl rfl (hseen rfl) hq
      exact ⟨_, none, hb⟩

end Act

theorem told_step {c : ConnectionId} {w : World} {m : Move} {past : List (World × Move)}
    {done : List Block} {current : Option Block} (h : Told c past w done current)
    (hlocked : w.Locked) (hwith : w.Withheld) (hlined : Lined c past w)
    (hattested : Attested c past w) (hw : w.hub.Tidy)
    (hknows : ∀ k r, w.hub.task k = .replay r → r.connection = c → Knows past k r.stage)
    (hplain : ∀ k r, w.hub.task k = .replay r → r.request.lastSeen = none →
      r.stage.isPlain = true)
    (he : Effect w m (w.apply m)) (haccepts : w.Accepts c m) (hm : Concerns c w (w.apply m) m) :
    ∃ done' current', Told c ((w, m) :: past) (w.apply m) done' current' := by
  cases hm with
  | aside hput _ _ ht hl =>
      exact ⟨done, current, h.still he ht.still (queued_of_not_puts haccepts hput) hl⟩
  | @subscribe request _ ht hl =>
      refine ⟨done, current, h.still he (fun k r hk hr => ⟨r.stage, ?_, rfl⟩) rfl hl⟩
      rw [ht, update_of_ne _ _ (Nat.ne_of_lt (hw.lt_started_of_replay hk))]
      exact hk
  | answer hk _ hask _ ht hl =>
      exact ⟨done, current, h.still he (still_of_update hk ht (by rw [hask]; rfl)) rfl hl⟩
  | @act k r stage hk hc ha ht hl =>
      obtain ⟨d, request, old⟩ := r
      subst hc
      exact told_of_act h hlocked hlined (hknows k _ hk rfl) (hplain k _ hk) he haccepts hk ha ht hl
  | @live k stage n hk hpicked hput hnot _ _ ht hl =>
      have hcurrent : current = none := by
        refine Option.eq_none_iff_forall_ne_some.mpr fun b hb => ?_
        obtain ⟨r, hr, hc, hbegun⟩ := h.hasBegun_of_mem hb
        exact hwith.not_isReplaying hnot ⟨_, r, hr, hc, hbegun⟩
      subst hcurrent
      have hdone : done ≠ [] := by
        rintro rfl
        obtain ⟨j, channel, hmem⟩ := hattested.picked k stage hk hpicked
        rw [h.frames] at hmem
        cases hmem
      have hq : queued c w (.advance k) = [(k, .event n)] := by
        rw [queued_advance haccepts, hput]
        rfl
      obtain ⟨done', h'⟩ := h.live hdone he ht.still hk hq hl
      exact ⟨done', none, h'⟩

section Run

variable {capacity replays : Nat} {start : Instant} {past : List (World × Move)} {w : World}
  {c : ConnectionId}

theorem told_of_run (run : Run (Hears c) (.new capacity replays start) past w) :
    ∃ done current, Told c past w done current := by
  induction run with
  | nil =>
      refine ⟨[], none, rfl, rfl, fun k r hk => ?_, fun k r hk => ?_, fun b hb => (nomatch hb),
        fun b hb => (nomatch hb)⟩
      · cases hk
      · cases hk
  | @cons past w m run hm ih =>
      obtain ⟨done, current, h⟩ := ih
      have hposs := possible_of_hears run
      have hw := tidy_of_run hposs
      exact told_step h (locked_of_run hposs) (withheld_of_run hposs) (lined_of_run hposs c)
        (attested_of_run run) hw (fun k r hk hc => knows_of_run run hk hc)
        (fun k r hk hseen => isPlain_of_run hposs hk hseen) (effect hw hm.possible) hm.accepts
        (concerns_of_run run hm)

/-- The blocks are those of the first who have got in line, in that order. -/
theorem Told.isPrefix {done : List Block} {current : Option Block}
    (h : Told c past w done current) (hl : w.Locked) :
    (done ++ current.toList).map Block.replay <+: arrivals c past := by
  rw [h.line, List.map_append]
  refine (List.prefix_append_right_inj _).mpr ?_
  cases current with
  | none => exact List.nil_prefix
  | some b =>
      obtain ⟨r, hk, hc, hb⟩ := h.hasBegun_of_mem rfl
      have hhead := hl _ r hk (Replay.Stage.holdsLock_of_hasBegun hb)
      rw [hc] at hhead
      cases hline : w.hub.lockLine c with
      | nil => rw [hline] at hhead; cases hhead
      | cons i rest =>
          rw [hline] at hhead
          cases hhead
          exact ⟨rest, rfl⟩

end Run

/-- If a connection is refused no frame and never cancelled, what its replays and the ticks queue
on it falls into blocks, one for each replay that has begun, in the order in which the replays have
got in line for the connection's lock; and that is the order in which they were asked for, if they
get in line in that order. A block that is done is what its replay has queued, events and then one
frame that tells how it has ended. What a tick queues comes after that and before the next block,
while the connection is confirmed and live and none of its replays is under way. -/
theorem transcript_eq_blocks {capacity replays : Nat} {start : Instant}
    {past : List (World × Move)} {w : World} {c : ConnectionId}
    (run : Run Possible (.new capacity replays start) past w)
    (hcancel : (w.hub.subscriber c).cancelled = false)
    (haccepts : ∀ p ∈ past, p.1.Accepts c p.2) :
    (∃ (done : List Block) (current : Option Block),
      transcript c past = (done ++ current.toList).flatMap Block.frames ∧
      (done ++ current.toList).map Block.replay <+: arrivals c past ∧
      (arrivals c past).Nodup ∧
      ((∀ p ∈ past, InTurn c p.1 p.2) →
        ((done ++ current.toList).map Block.replay).Pairwise (· < ·)) ∧
      (∀ b ∈ done, ∃ r, w.hub.task b.replay = .replay r ∧ r.connection = c ∧
        b.Finished c past r) ∧
      (∀ b ∈ current, ∃ r, w.hub.task b.replay = .replay r ∧ r.connection = c ∧
        b.Unfinished past r) ∧
      ∀ k r, w.hub.task k = .replay r → r.connection = c →
        (r.stage = .ended → ∃ b ∈ done, b.replay = k) ∧
          (r.stage.hasBegun = true → ∃ b ∈ current, b.replay = k)) ∧
    ∀ before after v k stage, past = after ++ (v, .advance k) :: before →
      v.hub.task k = .tick stage → queued c v (.advance k) ≠ [] →
      Confirmed c before ∧ (v.hub.subscriber c).phase = .live ∧
        (v.hub.subscriber c).isSubscribed .systemEvents = true ∧ ¬ v.IsReplaying c := by
  have hears := hears_of_accepts run (fun _ => hcancel) haccepts
  obtain ⟨done, current, h⟩ := told_of_run hears
  have hlined := lined_of_run run c
  have hprefix := h.isPrefix (locked_of_run run)
  refine ⟨⟨done, current, h.frames, hprefix, hlined.nodup, fun hturn => ?_, h.placed.finished,
    h.placed.unfinished, fun k r hk hc => ⟨h.placed.ended k r hk hc, h.placed.begun k r hk hc⟩⟩, ?_⟩
  · exact (sorted_of_run run hturn).ascending.sublist hprefix.sublist
  · rintro before after v k stage rfl hk hq
    obtain ⟨reach, hm⟩ := hears.before
    exact live_of_queued reach hm hk hq

/-- A connection is confirmed, a tick comes by, and then a history fails. -/
def failedWhenLive : List Move :=
  [Move.connect, .subscribe 0 ⟨.systemEvents, none⟩] ++ List.replicate 5 (Move.advance 0) ++
  [Move.append (policyAt 100000), .startTick, .advance 1,
    .answer 1 (.ok [(policyAt 100000).event 1])] ++
  List.replicate 7 (Move.advance 1) ++
  [Move.subscribe 0 ⟨.systemEvents, some .epoch⟩] ++ List.replicate 5 (Move.advance 2) ++
  [Move.answer 2 (.error .aborted)] ++ List.replicate 3 (Move.advance 2)

theorem transcript_eq_blocks_of_failedWhenLive :
    let past := (new 8 8 .epoch).history [] failedWhenLive
    (transcript 0 past).map (·.1) = [0, 1, 2] ∧ arrivals 0 past = [0, 2] ∧
      ∃ (done : List Block) (current : Option Block),
        transcript 0 past = (done ++ current.toList).flatMap Block.frames ∧
        (done ++ current.toList).map Block.replay <+: [0, 2] := by
  intro past
  have run : Run Possible (new 8 8 .epoch) past ((new 8 8 .epoch).applyAll failedWhenLive) :=
    Follows.run (by decide +kernel) .nil
  have harrivals : arrivals 0 past = [0, 2] := by decide +kernel
  obtain ⟨⟨done, current, hframes, hprefix, -⟩, -⟩ :=
    transcript_eq_blocks (c := 0) run (by decide +kernel) (by decide +kernel)
  rw [harrivals] at hprefix
  exact ⟨by decide +kernel, harrivals, done, current, hframes, hprefix⟩

end World

end EventStream
