import EventStream.Proofs.Delivery.Order
import EventStream.Session

/-! Sessions and runs. Whatever a session does to its server is made of possible moves, so what
holds of every run of a hub holds of every session. -/

namespace EventStream

namespace World

/-- A run of possible moves leads from `w` to `w'`. -/
def Leads (w w' : World) : Prop := ∃ past, Run Possible w past w'

theorem Leads.refl (w : World) : Leads w w := ⟨[], .nil⟩

theorem Leads.move {w w' : World} (h : Leads w w') {m : Move} (hm : w'.Possible m) :
    Leads w (w'.apply m) := by
  obtain ⟨past, run⟩ := h
  exact ⟨_, run.cons hm⟩

theorem leads_apply {w : World} {m : Move} (hm : w.Possible m) : Leads w (w.apply m) :=
  (Leads.refl w).move hm

theorem Leads.trans {w w' w'' : World} (h : Leads w w') (h' : Leads w' w'') : Leads w w'' := by
  obtain ⟨past, run⟩ := h'
  induction run with
  | nil => exact h
  | cons _ hm ih => exact ih.move hm

theorem Leads.opened_le {w w' : World} (h : Leads w w') : w.hub.opened ≤ w'.hub.opened := by
  obtain ⟨past, run⟩ := h
  exact run.opened_le

end World

open World (Leads)

/-! ### The server -/

/-- What the gate lets through or makes up is an answer that the log may give. -/
theorem Gate.mayAnswer_ask (g : Gate) (log : Log) (k : TaskId) (after : Instant) :
    World.MayAnswer (log.eventsAfter after) (g.ask log k after).2 := by
  simp only [Gate.ask]
  cases g.script.headD .pass with
  | fail => trivial
  | crash => trivial
  | pass =>
      cases hfound : log.eventsAfter after with
      | error e => trivial
      | ok events =>
          have hperm : (if g.reversed then events.reverse else events).Perm events := by
            split
            · exact events.reverse_perm
            · exact .refl _
          cases g.armed <;> exact hperm

namespace Server

def world (s : Server) : World := ⟨s.log, s.hub⟩

theorem leads_step (s : Server) (k : TaskId) : Leads s.world (s.step k).world := by
  unfold step
  split
  · next after hq =>
    exact World.leads_apply (m := .answer k _) ⟨after, hq, s.gate.mayAnswer_ask s.log k after⟩
  · exact (World.leads_apply (m := .toss (s.cancelFirst k)) trivial).move (m := .advance k) trivial

theorem leads_run (fuel : Nat) (k : TaskId) (s : Server) :
    Leads s.world (run fuel k s).world := by
  induction fuel generalizing k s with
  | zero => exact .refl _
  | succ fuel ih =>
      simp only [run]
      split
      · exact (s.leads_step k).trans (ih k _)
      · split
        · next j _ => exact (s.leads_step j).trans (ih j _)
        · exact .refl _

theorem leads_settle (s : Server) : Leads s.world s.settle.world := by
  have h := leads_run s.stepBound s.hub.started s
  simpa [settle, onHub, world] using h

theorem leads_poll (fuel : Nat) (s : Server) : Leads s.world (poll fuel s).world := by
  induction fuel generalizing s with
  | zero => exact .refl _
  | succ fuel ih =>
      have htick : Leads s.world { s with hub := s.hub.startTick.2 }.settle.world :=
        (World.leads_apply (m := .startTick) trivial).trans
          (leads_settle { s with hub := s.hub.startTick.2 })
      simp only [poll]
      split
      · exact htick.trans (ih _)
      · exact htick

theorem leads_foldlM {f : List Int × Log → Draft → Except LogError (List Int × Log)}
    (hf : ∀ p d p', f p d = .ok p' → ∃ id, p.2.append d = .ok (id, p'.2)) {drafts : List Draft}
    {p p' : List Int × Log} (h : drafts.foldlM f p = .ok p') (hub : Hub) :
    Leads ⟨p.2, hub⟩ ⟨p'.2, hub⟩ := by
  induction drafts generalizing p with
  | nil =>
      cases h
      exact .refl _
  | cons d drafts ih =>
      rw [List.foldlM_cons] at h
      cases hd : f p d with
      | error e => simp [hd, bind, Except.bind] at h
      | ok q =>
          rw [hd] at h
          obtain ⟨id, happ⟩ := hf p d q hd
          have hmove : Leads ⟨p.2, hub⟩ (World.apply ⟨p.2, hub⟩ (.append d)) :=
            World.leads_apply trivial
          simp only [World.apply, happ, World.withLog] at hmove
          exact hmove.trans (ih h)

theorem leads_shutdown (s : Server) : Leads s.world (s.onHub Hub.shutdown).world :=
  World.leads_apply (m := .shutdown) trivial

theorem leads_runPoller {s s' : Server} {clock : Instant} {drafts : List Draft} {ids : List Int}
    (h : s.runPoller clock drafts = .ok (ids, s')) : Leads s.world s'.world := by
  let started := s.onHub (·.mapCheckpoint (·.reset clock))
  have hstart : Leads s.world started.world :=
    World.leads_apply (m := .resetCursor clock) trivial
  let polled := started.poll (started.gate.script.length + 1)
  have hpoll : Leads started.world polled.world := started.leads_poll _
  simp only [runPoller, bind, Except.bind] at h
  split at h
  · cases h
  · next p hp =>
    cases h
    let filled : Server := { polled with log := p.2 }
    have hfill : Leads polled.world filled.world := by
      refine leads_foldlM (fun q d q' hd => ?_) hp polled.hub
      cases happ : q.2.append d with
      | error e => simp [happ] at hd
      | ok found =>
          simp only [happ] at hd
          cases hd
          exact ⟨found.1, rfl⟩
    have hagain : Leads filled.world (filled.poll (filled.gate.script.length + 1)).world :=
      filled.leads_poll _
    exact (((hstart.trans hpoll).trans hfill).trans hagain).trans (leads_shutdown _)

end Server

/-! ### The session -/

namespace Session

/-- The connection that a command is about. -/
def Command.connection? : Command → Option ConnectionId
  | subscribe c _ => some c
  | receive c _ => some c
  | closeReceiver c => some c
  | sendFrame c _ => some c
  | enqueueLive c _ _ => some c
  | disconnect c => some c
  | register c => some c
  | deregister c => some c
  | isRegistered c => some c
  | _ => none

/-- The connections that names and sockets stand for. -/
def handles (s : Session) : List ConnectionId :=
  s.connections.map (·.2) ++ s.sockets.map (·.2.connection)

/-- Names and sockets stand for connections that have been opened. -/
def Known (s : Session) : Prop := ∀ c ∈ s.handles, c < s.hub.opened

/-- From `s` the session has come to `t` by possible moves of its server. -/
structure Follows (s t : Session) : Prop where
  leads : Leads s.server.world t.server.world
  known : t.Known

theorem Follows.trans {s t u : Session} (h : Follows s t) (h' : Follows t u) : Follows s u :=
  ⟨h.leads.trans h'.leads, h'.known⟩

theorem Known.follows {s t : Session} (h : s.Known) (hl : Leads s.server.world t.server.world)
    (hh : t.handles ⊆ s.handles) : Follows s t :=
  ⟨hl, fun c hc => Nat.lt_of_lt_of_le (h c (hh hc)) hl.opened_le⟩

theorem Known.refl {s : Session} (h : s.Known) : Follows s s := h.follows (.refl _) (.refl _)

theorem Known.move {s t : Session} (h : s.Known) (m : World.Move)
    (hm : s.server.world.Possible m) (hw : t.server.world = s.server.world.apply m)
    (hh : t.handles ⊆ s.handles) : Follows s t :=
  h.follows (hw ▸ World.leads_apply hm) hh

theorem handles_map {s t : Session} {f : String × Socket → String × Socket}
    (hc : t.connections = s.connections) (hs : t.sockets = s.sockets.map f)
    (hf : ∀ p, (f p).2.connection = p.2.connection) : t.handles ⊆ s.handles := by
  have hmap : t.sockets.map (·.2.connection) = s.sockets.map (·.2.connection) := by
    simp only [hs, List.map_map]
    exact List.map_congr_left fun p _ => hf p
  simp only [handles, hc, hmap]
  exact List.Subset.refl _

theorem handles_filter {s t : Session} {p : String × Socket → Bool}
    (hc : t.connections = s.connections) (hs : t.sockets = s.sockets.filter p) :
    t.handles ⊆ s.handles := by
  simp only [handles, hc, hs]
  exact List.append_subset.mpr ⟨List.subset_append_left _ _,
    List.subset_append_of_subset_right _ (List.map_subset _ List.filter_sublist.subset)⟩

theorem mem_handles_of_lookup {s : Session} {name : String} {socket : Socket}
    (h : s.sockets.lookup name = some socket) : socket.connection ∈ s.handles := by
  obtain ⟨before, after, heq, -⟩ := List.lookup_eq_some_iff.mp h
  simp [handles, heq]

/-! ### Sockets -/

theorem Known.pump {s : Session} (h : s.Known) : Follows s s.pump := by
  unfold Session.pump
  refine List.foldlRecOn (motive := Follows s) _ _ h.refl fun t ht p hp => ?_
  have hmem : p.2.connection ∈ s.handles :=
    List.mem_append_right _ (List.mem_map_of_mem hp)
  have hc : p.2.connection < t.hub.opened :=
    Nat.lt_of_lt_of_le (h _ hmem) ht.leads.opened_le
  refine ht.trans ?_
  dsimp only
  split
  · exact ht.known.move (.disconnect _) hc rfl (.refl _)
  · refine ht.known.move (.receive p.2.connection none) hc rfl (handles_map rfl rfl fun q => ?_)
    split <;> rfl

theorem Known.settle {s : Session} (h : s.Known) : Follows s s.settle := by
  have hs : Follows s { s with server := s.server.settle } :=
    h.follows s.server.leads_settle (.refl _)
  exact hs.trans hs.known.pump

theorem Known.readSocket {s : Session} (h : s.Known) (name : String)
    (split : List Frame → List Frame × List Frame) : Follows s (s.readSocket name split).1 := by
  unfold Session.readSocket
  split
  · exact h.refl
  · refine h.follows (.refl _) (handles_map rfl rfl fun q => ?_)
    dsimp only
    split <;> rfl

theorem Known.dispatch {s : Session} (h : s.Known) {c : ConnectionId} (hc : c < s.hub.opened)
    (text : String) : Follows s (s.dispatch c text) := by
  unfold Session.dispatch
  split
  · exact h.refl
  · split
    · next request _ => exact h.move (.subscribe c request) hc rfl (.refl _)
    · next refusal _ => exact h.move (.send c (.error refusal.message)) ⟨hc, rfl⟩ rfl (.refl _)

theorem Known.dropSocket {s : Session} (h : s.Known) (name : String) :
    Follows s (s.dropSocket name) := by
  unfold Session.dropSocket
  split
  · exact h.refl
  · next socket hs =>
    exact h.move (.disconnect socket.connection) (h _ (mem_handles_of_lookup hs)) rfl
      (handles_filter rfl rfl)

/-! ### New connections -/

/-- A connection is opened for a name or a socket. -/
theorem Known.opened {s t : Session} (h : s.Known)
    (hw : t.server.world = s.server.world.apply .connect)
    (hc : ∀ p ∈ t.connections, p ∈ s.connections ∨ p.2 = s.hub.opened)
    (hs : ∀ p ∈ t.sockets, p ∈ s.sockets ∨ p.2.connection = s.hub.opened) : Follows s t := by
  have hl : Leads s.server.world t.server.world := hw ▸ World.leads_apply trivial
  have hopened : t.hub.opened = s.hub.opened + 1 := congrArg (·.hub.opened) hw
  have hnew : ∀ c, c ∈ s.handles ∨ c = s.hub.opened → c < t.hub.opened := by
    rw [hopened]
    rintro c (hc | rfl)
    · exact Nat.lt_succ_of_lt (h c hc)
    · exact Nat.lt_succ_self _
  refine ⟨hl, fun c hmem => hnew c ?_⟩
  rcases List.mem_append.mp hmem with hmem | hmem
  · obtain ⟨p, hp, rfl⟩ := List.mem_map.mp hmem
    exact (hc p hp).imp_left fun hp => List.mem_append_left _ (List.mem_map_of_mem hp)
  · obtain ⟨p, hp, rfl⟩ := List.mem_map.mp hmem
    exact (hs p hp).imp_left fun hp => List.mem_append_right _ (List.mem_map_of_mem hp)

theorem Known.named {s t : Session} {name : String} (h : s.Known)
    (hw : t.server.world = s.server.world.apply .connect)
    (hc : t.connections = s.connections.filter (·.1 ≠ name) ++ [(name, s.hub.opened)])
    (hs : t.sockets = s.sockets) : Follows s t := by
  refine h.opened hw (fun p hp => ?_) fun p hp => .inl (hs ▸ hp)
  rcases List.mem_append.mp (hc ▸ hp) with hp | hp
  · exact .inl (List.mem_filter.mp hp).1
  · exact .inr (congrArg (·.2) (List.mem_singleton.mp hp))

theorem Known.connect {s : Session} (h : s.Known) (name : String) :
    Follows s (s.connect name) := by
  unfold Session.connect
  cases hc : s.connection? name with
  | none => exact h.named rfl rfl rfl
  | some c =>
      obtain ⟨before, after, heq, -⟩ := List.lookup_eq_some_iff.mp hc
      have hclosed : Follows s (s.perform (.closeReceiver c)).1 :=
        h.move (.closeReceiver c) (h c (by simp [handles, heq])) rfl (.refl _)
      exact hclosed.trans (hclosed.known.named rfl rfl rfl)

theorem Known.openSocket {s : Session} (h : s.Known) (name : String) :
    Follows s (s.openSocket name) := by
  have hdropped := h.dropSocket name
  refine hdropped.trans (hdropped.known.opened rfl (fun p hp => .inl hp) fun p hp => ?_)
  rcases List.mem_append.mp hp with hp | hp
  · exact .inl hp
  · exact .inr (congrArg (·.2.connection) (List.mem_singleton.mp hp))

/-! ### Commands -/

theorem Known.onLog {α : Type} {s : Session} (h : s.Known) {answer : Except LogError (α × Log)}
    (reply : α → Reply) (m : World.Move) (hm : s.server.world.Possible m)
    (hw : s.server.world.withLog answer = s.server.world.apply m) :
    Follows s (s.onLog answer reply).1 := by
  cases answer with
  | error e => exact h.refl
  | ok found => exact h.move m hm hw (.refl _)

/-- A command that is about no connection but an opened one is made of possible moves. -/
theorem Known.perform {s : Session} (h : s.Known) {command : Command}
    (hc : ∀ c ∈ command.connection?, c < s.hub.opened) : Follows s (s.perform command).1 := by
  cases command with
  | append draft => exact h.onLog _ (.append draft) trivial rfl
  | insertRow id row => exact h.onLog _ (.insertRow id row) trivial rfl
  | deleteRow id => exact h.onLog _ (.deleteRow id) trivial rfl
  | connect name => exact h.connect name
  | release name =>
      cases hg : s.server.gate.release? name with
      | none => simpa only [Session.perform, hg] using h.refl
      | some gate =>
          simp only [Session.perform, hg]
          exact h.follows (.refl _) (.refl _)
  | subscribe c lastSeen =>
      simp only [Session.perform]
      split
      · exact h.refl
      · exact h.move (.subscribe c ⟨.systemEvents, lastSeen⟩) (hc c rfl) rfl (.refl _)
  | tick => exact h.move .startTick trivial rfl (.refl _)
  | receive c limit =>
      simp only [Session.perform]
      split
      · exact h.move (.receive c limit) (hc c rfl) rfl (.refl _)
      · exact h.refl
  | closeReceiver c => exact h.move (.closeReceiver c) (hc c rfl) rfl (.refl _)
  | sendFrame c text => exact h.move (.send c (.verbatim text)) ⟨hc c rfl, rfl⟩ rfl (.refl _)
  | enqueueLive c id text =>
      exact h.move (.offerLive c id (.verbatim text)) ⟨hc c rfl, rfl⟩ rfl (.refl _)
  | disconnect c =>
      simp only [Session.perform]
      split
      · exact h.refl
      · exact h.move (.disconnect c) (hc c rfl) rfl (.refl _)
  | register c => exact h.move (.register c) (hc c rfl) rfl (.refl _)
  | deregister c => exact h.move (.deregister c) (hc c rfl) rfl (.refl _)
  | resetCursor time => exact h.move (.resetCursor time) trivial rfl (.refl _)
  | advanceCursor time => exact h.move (.advanceCursor time) trivial rfl (.refl _)
  | announce id => exact h.move (.announce id) trivial rfl (.refl _)
  | markBroadcast id => exact h.move (.markBroadcast id) trivial rfl (.refl _)
  | shutdown =>
      simp only [Session.perform]
      split
      · exact h.refl
      · exact h.move .shutdown trivial rfl (.refl _)
  | runPoller drafts =>
      simp only [Session.perform]
      split
      · exact h.refl
      · split
        · next hp => exact h.follows (Server.leads_runPoller hp) (.refl _)
        · exact h.refl
  | openSocket name => exact h.openSocket name
  | sendText name text =>
      cases hs : s.sockets.lookup name with
      | none => simpa only [Session.perform, hs] using h.refl
      | some socket =>
          simp only [Session.perform, hs]
          have hsent := h.dispatch (h _ (mem_handles_of_lookup hs)) text
          have hsettled := hsent.trans hsent.known.settle
          exact hsettled.trans (hsettled.known.readSocket name _)
  | drainSocket name => exact h.readSocket name fun inbox => (inbox, [])
  | closeSocket name => exact h.dropSocket name
  | endSocket name => exact h.dropSocket name
  | _ => exact h.follows (.refl _) (.refl _)

theorem Known.conclude {s : Session} (h : s.Known) : Follows s s.conclude.1 :=
  h.settle.trans (h.settle.known.follows (.refl _) (.refl _))

/-! ### Sessions -/

/-- A session comes from `start` to what it is by commands about opened connections, each of
which may be concluded. -/
inductive Reaches (start : Session) : Session → Prop where
  | start : Reaches start start
  | perform {s : Session} {command : Command} (h : Reaches start s)
      (hc : ∀ c ∈ command.connection?, c < s.hub.opened) : Reaches start (s.perform command).1
  | conclude {s : Session} (h : Reaches start s) : Reaches start s.conclude.1

theorem Reaches.follows {start s : Session} (hstart : start.Known) (h : Reaches start s) :
    Follows start s := by
  induction h with
  | start => exact hstart.refl
  | perform _ hc ih => exact ih.trans (ih.known.perform hc)
  | conclude _ ih => exact ih.trans ih.known.conclude

variable {capacity replays : Nat} {start : Instant} {s : Session}

/-- Every session is a run: its log and its hub stand in a world that possible moves reach. -/
theorem exists_run_of_reaches (h : Reaches (new capacity replays start) s) :
    ∃ past, World.Run World.Possible (.new capacity replays start) past s.server.world := by
  refine (h.follows fun c hc => ?_).leads
  cases hc

/-- In every session the events that a connection is sent have ids that ascend strictly. -/
theorem messages_ascending_of_reaches (h : Reaches (new capacity replays start) s)
    (c : ConnectionId) : (s.hub.subscriber c).messages.Pairwise (·.id < ·.id) := by
  obtain ⟨past, run⟩ := exists_run_of_reaches h
  exact (World.gated_of_run run c).ascending

end Session

end EventStream
