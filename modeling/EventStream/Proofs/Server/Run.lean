import EventStream.Proofs.Server.Settle

/-! Runs of a server: clients and producers, the gate's own commands, and the server's steps, one
by one or until it has settled. -/

namespace EventStream.Server

/-- An empty log, an open gate and a hub without connections. -/
def new (capacity replays : Nat) (start : Instant) : Server :=
  { log := .empty, hub := .new capacity replays start }

inductive Move where
  /-- What clients and producers do. -/
  | outside (m : World.Move)
  | script (verdicts : List Verdict)
  | reverse (on : Bool)
  | hold (name : String)
  | release (name : String)
  /-- Which of the next replays that could be dropped see their cancellation first. -/
  | draw (draws : List Bool)
  /-- One step of a task that can go on. -/
  | step (k : TaskId)
  | settle

def withWorld (s : Server) (w : World) : Server := { s with log := w.log, hub := w.hub }

def apply (s : Server) : Move → Server
  | .outside m => s.withWorld (s.world.apply m)
  | .script verdicts => s.onGate fun g => { g with script := verdicts }
  | .reverse on => s.onGate fun g => { g with reversed := on }
  | .hold name => s.onGate fun g => { g with armed := g.armed ++ [name] }
  | .release name => s.onGate fun g => (g.release? name).getD g
  | .draw draws => { s with draws }
  | .step k => s.step k
  | .settle => s.settle

/-- Nobody outside moves the tasks or answers their queries. -/
def Possible (s : Server) : Move → Prop
  | .outside m => m.advanced? = none ∧ m.answered? = none ∧ s.world.Possible m
  | .step k => s.canStep k = true
  | _ => True

/-- The tasks run until all of them wait before anybody else has a turn. -/
def Cooperative (s : Server) : Move → Prop
  | .step _ => False
  | m => s.Possible m

/-- From `start` allowed moves lead to the server on the right. -/
inductive Reaches (allowed : Server → Move → Prop) (start : Server) : Server → Prop where
  | start : Reaches allowed start start
  | move {s : Server} {m : Move} :
      Reaches allowed start s → allowed s m → Reaches allowed start (s.apply m)

theorem Cooperative.possible {s : Server} {m : Move} (h : s.Cooperative m) : s.Possible m := by
  cases m with
  | step k => exact h.elim
  | _ => exact h

theorem Reaches.mono {allowed allowed' : Server → Move → Prop} {start s : Server}
    (h : ∀ s m, allowed s m → allowed' s m) (hr : Reaches allowed start s) :
    Reaches allowed' start s := by
  induction hr with
  | start => exact .start
  | move _ hm ih => exact ih.move (h _ _ hm)

/-! ### What steps preserve -/

theorem run_induction {P : Server → Prop}
    (hstep : ∀ s k, s.canStep k = true → P s → P (s.step k)) (fuel : Nat) (k : TaskId) {s : Server}
    (h : P s) : P (run fuel k s) := by
  induction fuel generalizing k s with
  | zero => exact h
  | succ fuel ih =>
      simp only [run]
      split
      · next hk => exact ih k (hstep s k hk h)
      · split
        · next j hj => exact ih j (hstep s j (List.find?_some hj) h)
        · exact h

/-- What every step preserves holds of a server that has settled if it held before. -/
theorem settle_induction {P : Server → Prop}
    (hstep : ∀ s k, s.canStep k = true → P s → P (s.step k)) {s : Server} (h : P s) :
    P s.settle := by
  simpa [settle, onHub] using run_induction hstep s.stepBound s.hub.started h

theorem leads_apply {s : Server} {m : Move} (hm : s.Possible m) :
    World.Leads s.world (s.apply m).world := by
  cases m with
  | outside m => exact World.leads_apply hm.2.2
  | step k => exact s.leads_step k
  | settle => exact s.leads_settle
  | _ => exact .refl _

/-- Whatever a server does, its log and its hub run. -/
theorem Reaches.leads {start s : Server} (h : Reaches Possible start s) :
    World.Leads start.world s.world := by
  induction h with
  | start => exact .refl _
  | move _ hm ih => exact ih.trans (leads_apply hm)

/-- What holds at first and is preserved by every possible move but settling, which is steps, holds
of every server reached. -/
theorem Reaches.induction {capacity replays : Nat} {start : Instant} {P : Server → Prop}
    (hnew : P (.new capacity replays start))
    (hmove : ∀ s m, World.Leads (.new capacity replays start) s.world → s.Possible m →
      m ≠ .settle → P s → P (s.apply m)) {s : Server}
    (h : Reaches Possible (.new capacity replays start) s) : P s := by
  induction h with
  | start => exact hnew
  | @move s m hs hm ih =>
      by_cases hsettle : m = .settle
      · subst hsettle
        have hboth := settle_induction
          (P := fun t => World.Leads (.new capacity replays start) t.world ∧ P t)
          (fun t k hk ht => ⟨ht.1.trans (t.leads_step k), hmove t (.step k) ht.1 hk nofun ht.2⟩)
          ⟨hs.leads, ih⟩
        exact hboth.2
      · exact hmove s m hs.leads hm hsettle ih

/-! ### Scripted runs -/

/-- Where a list of moves leads. -/
def applyAll (s : Server) : List Move → Server
  | [] => s
  | m :: ms => (s.apply m).applyAll ms

/-- All moves of the list are allowed where they are made. -/
def Follows (allowed : Server → Move → Prop) (s : Server) : List Move → Prop
  | [] => True
  | m :: ms => allowed s m ∧ Follows allowed (s.apply m) ms

instance Follows.decidable {allowed : Server → Move → Prop} [∀ s m, Decidable (allowed s m)] :
    (s : Server) → (ms : List Move) → Decidable (Follows allowed s ms)
  | _, [] => .isTrue trivial
  | s, m :: ms =>
    have : Decidable (Follows allowed (s.apply m) ms) := Follows.decidable (s.apply m) ms
    inferInstanceAs (Decidable (allowed s m ∧ Follows allowed (s.apply m) ms))

theorem Follows.reaches {allowed : Server → Move → Prop} {start s : Server} {ms : List Move}
    (h : Follows allowed s ms) (hs : Reaches allowed start s) :
    Reaches allowed start (s.applyAll ms) := by
  induction ms generalizing s with
  | nil => exact hs
  | cons m ms ih => exact ih h.2 (hs.move h.1)

instance (s : Server) : (m : Move) → Decidable (s.Possible m)
  | .outside m => inferInstanceAs (Decidable (_ ∧ _ ∧ s.world.Possible m))
  | .step k => inferInstanceAs (Decidable (s.canStep k = true))
  | .script _ | .reverse _ | .hold _ | .release _ | .draw _ | .settle => .isTrue trivial

instance (s : Server) : (m : Move) → Decidable (s.Cooperative m)
  | .step _ => .isFalse id
  | .outside m => inferInstanceAs (Decidable (s.Possible (.outside m)))
  | .script _ | .reverse _ | .hold _ | .release _ | .draw _ | .settle => .isTrue trivial

end EventStream.Server
