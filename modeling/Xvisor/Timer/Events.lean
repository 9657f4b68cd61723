import Mathlib.Data.Fintype.Basic
import Xvisor.Lib.System
import Xvisor.Lib.Word

/-!
# Timer events

The clockchip interrupt of a host CPU chooses the first expired event under the
list lock, drops the lock, stops the event under the event's own lock and calls
the handler.
-/

namespace Xvisor.Timer

open Function Lib

universe u v

structure TimerEvent (H : Type u) where
  expiryTstamp : Nat
  durationNsecs : Nat
  activeState : Bool
  activeHcpu : H

inductive Phase (E : Type v) where
  | idle
  | looping
  | selected (e : E)
  | stopped (e : E)
  deriving DecidableEq, Repr

/-- The event that was chosen and whose handler has not yet been called. -/
def Phase.chosen {E : Type v} : Phase E → Option E
  | .idle => none
  | .looping => none
  | .selected e => some e
  | .stopped e => some e

inductive Entry (E : Type v) where
  | started (e : E) (expiry : Nat)
  | stopped (e : E)
  | called (e : E) (tstamp : Nat)
  deriving DecidableEq, Repr

namespace Entry

variable {E : Type v}

def event : Entry E → E
  | .started e _ => e
  | .stopped e => e
  | .called e _ => e

end Entry

/-- The timestamps, lists and interrupts of the host CPUs, with the newest entry first in `log`. -/
structure Timers (H : Type u) (E : Type v) where
  now : H → Nat
  event : E → TimerEvent H
  eventList : H → List E
  phase : H → Phase E
  log : List (Entry E)

variable {H : Type u} {E : Type v} [DecidableEq H] [DecidableEq E]

namespace Timers

variable (s : Timers H E)

def eventStop (e : E) : Timers H E :=
  if !(s.event e).activeState then s
  else
    let hcpu := (s.event e).activeHcpu
    { s with
      event := update s.event e
        { s.event e with activeState := false, expiryTstamp := 0 }
      eventList := update s.eventList hcpu ((s.eventList hcpu).erase e) }

/-- The list position that `vmm_timer_event_start2` finds: before the first later event. -/
def insertEvent (expiry : E → Nat) (e : E) : List E → List E
  | [] => [e]
  | e' :: rest => if expiry e < expiry e' then e :: e' :: rest else e' :: insertEvent expiry e rest

/-- `vmm_timer_event_start2` without the clockchip. -/
def eventStart (h : H) (e : E) (duration : Nat) : Timers H E :=
  let s := s.eventStop e
  let event := update s.event e
    { expiryTstamp := Word.add (s.now h) duration
      durationNsecs := duration
      activeState := true
      activeHcpu := h }
  { s with
    event := event
    eventList := update s.eventList h
      (insertEvent (fun e => (event e).expiryTstamp) e (s.eventList h)) }

def setPhase (h : H) (phase : Phase E) : Timers H E :=
  { s with phase := update s.phase h phase }

def record (entry : Entry E) : Timers H E := { s with log := entry :: s.log }

def select (h : H) : Timers H E :=
  match s.eventList h with
  | [] => s.setPhase h .idle
  | e :: _ =>
    if (s.event e).expiryTstamp ≤ s.now h then s.setPhase h (.selected e) else s.setPhase h .idle

end Timers

inductive Action (H : Type u) (E : Type v) where
  | tick (h : H) (delta : Nat)
  | start (h : H) (e : E) (duration : Nat)
  | stop (h : H) (e : E)
  | interrupt (h : H)
  | select (h : H)
  | stopExpired (h : H)
  | callHandler (h : H)
  deriving DecidableEq, Repr

namespace Action

variable (s : Timers H E)

def run : Action H E → Option (Timers H E)
  | .tick h delta => some { s with now := update s.now h (s.now h + delta) }
  | .start h e duration =>
    let s := s.eventStart h e duration
    some (s.record (.started e (s.event e).expiryTstamp))
  | .stop _ e => some ((s.eventStop e).record (.stopped e))
  | .interrupt h =>
    match s.phase h with
    | .idle => some (s.setPhase h .looping)
    | _ => none
  | .select h =>
    match s.phase h with
    | .looping => some (s.select h)
    | _ => none
  | .stopExpired h =>
    match s.phase h with
    | .selected e => some ((s.eventStop e).setPhase h (.stopped e))
    | _ => none
  | .callHandler h =>
    match s.phase h with
    | .stopped e => some ((s.setPhase h .looping).record (.called e (s.now h)))
    | _ => none

/-- A host CPU runs nothing else between choosing an event and calling its handler, and an expiry
does not wrap. -/
def Enabled : Action H E → Prop
  | .start h _ duration => (s.phase h).chosen = none ∧ s.now h + duration < 2 ^ 64
  | .stop h _ => (s.phase h).chosen = none
  | _ => True

def Settled (e : E) : Prop := ∀ h, (s.phase h).chosen ≠ some e

def Orderly : Action H E → Prop
  | .start _ e _ => Settled s e
  | .stop _ e => Settled s e
  | _ => True

end Action

structure Boot (s : Timers H E) : Prop where
  inactive : ∀ e, (s.event e).activeState = false
  empty : ∀ h, s.eventList h = []
  idle : ∀ h, s.phase h = .idle
  noLog : s.log = []

def timerSystem (H : Type u) (E : Type v) [DecidableEq H] [DecidableEq E] :
    System (Timers H E) (Action H E) where
  init := Boot
  step s action s' := action.Enabled s ∧ action.run s = some s'

/-! ## What the log may say -/

def last (e : E) (log : List (Entry E)) : Option (Entry E) :=
  log.find? fun entry => entry.event = e

/-- A handler is called only when the last that was observed of its event is a start, so neither a
stop nor another call followed that start, and the expiry it set has passed. -/
def Exact : List (Entry E) → Prop
  | [] => True
  | .called e tstamp :: log =>
    (∃ expiry ≤ tstamp, last e log = some (.started e expiry)) ∧ Exact log
  | _ :: log => Exact log

omit [DecidableEq H] in
@[simp] theorem last_cons_self (entry : Entry E) (log : List (Entry E)) :
    last entry.event (entry :: log) = some entry := by
  simp [last]

omit [DecidableEq H] in
theorem last_cons_of_ne {e : E} {entry : Entry E} (other : entry.event ≠ e)
    (log : List (Entry E)) : last e (entry :: log) = last e log := by
  simp [last, other]

/-! ## The lists -/

/-- Every list holds active events of its host CPU, each once. -/
structure Listed (s : Timers H E) : Prop where
  active : ∀ h e, e ∈ s.eventList h → (s.event e).activeState = true ∧ (s.event e).activeHcpu = h
  nodup : ∀ h, (s.eventList h).Nodup

namespace Timers

variable (s : Timers H E) (e : E)

@[simp] theorem eventStop_now : (s.eventStop e).now = s.now := by
  unfold eventStop
  split <;> rfl

@[simp] theorem eventStop_phase : (s.eventStop e).phase = s.phase := by
  unfold eventStop
  split <;> rfl

@[simp] theorem eventStop_log : (s.eventStop e).log = s.log := by
  unfold eventStop
  split <;> rfl

@[simp] theorem eventStop_activeState : ((s.eventStop e).event e).activeState = false := by
  unfold eventStop
  split
  next inactive => simpa using inactive
  next => simp

omit [DecidableEq E] in
theorem setPhase_phase_self (h : H) (phase : Phase E) : (s.setPhase h phase).phase h = phase :=
  update_self ..

theorem setPhase_eventStop_setPhase (h : H) (phase phase' : Phase E) :
    ((s.setPhase h phase).eventStop e).setPhase h phase' = (s.eventStop e).setPhase h phase' := by
  unfold eventStop setPhase
  dsimp only
  split <;> simp

variable {s e}

omit [DecidableEq E] in
theorem setPhase_phase_of_ne {h h' : H} (other : h' ≠ h) {phase : Phase E} :
    (s.setPhase h phase).phase h' = s.phase h' :=
  update_of_ne other ..

theorem eventStop_event_of_ne {e' : E} (other : e' ≠ e) :
    (s.eventStop e).event e' = s.event e' := by
  unfold eventStop
  split
  · rfl
  · exact update_of_ne other ..

end Timers

open Timers

omit [DecidableEq H] [DecidableEq E] in
theorem mem_insertEvent {expiry : E → Nat} {e e' : E} {list : List E} :
    e' ∈ Timers.insertEvent expiry e list ↔ e' = e ∨ e' ∈ list := by
  induction list with
  | nil => simp [Timers.insertEvent]
  | cons head tail ih =>
    unfold Timers.insertEvent
    split
    · simp
    · simp only [List.mem_cons, ih]
      tauto

omit [DecidableEq H] [DecidableEq E] in
theorem nodup_insertEvent {expiry : E → Nat} {e : E} {list : List E} (nodup : list.Nodup)
    (fresh : e ∉ list) : (Timers.insertEvent expiry e list).Nodup := by
  induction list with
  | nil => simp [Timers.insertEvent]
  | cons head tail ih =>
    unfold Timers.insertEvent
    split
    · exact List.nodup_cons.mpr ⟨fresh, nodup⟩
    · obtain ⟨headFresh, tailNodup⟩ := List.nodup_cons.mp nodup
      obtain ⟨other, tailFresh⟩ := not_or.mp (mt List.mem_cons.mpr fresh)
      refine List.nodup_cons.mpr ⟨?_, ih tailNodup tailFresh⟩
      rw [mem_insertEvent, not_or]
      exact ⟨Ne.symm other, headFresh⟩

namespace Listed

variable {s : Timers H E} {e : E}

theorem mem_eventStop (listed : Listed s) {h : H} {e' : E}
    (member : e' ∈ (s.eventStop e).eventList h) : e' ≠ e ∧ e' ∈ s.eventList h := by
  unfold Timers.eventStop at member
  split at member
  next inactive =>
    refine ⟨?_, member⟩
    rintro rfl
    simp [(listed.active h e' member).1] at inactive
  next =>
    dsimp only at member
    by_cases own : h = (s.event e).activeHcpu
    · rw [own, update_self, (listed.nodup _).mem_erase_iff] at member
      rw [own]
      exact member
    · rw [update_of_ne own] at member
      refine ⟨?_, member⟩
      rintro rfl
      exact own (listed.active h e' member).2.symm

theorem eventStop (listed : Listed s) (e : E) : Listed (s.eventStop e) where
  active h e' member := by
    obtain ⟨other, before⟩ := listed.mem_eventStop member
    rw [eventStop_event_of_ne other]
    exact listed.active h e' before
  nodup h := by
    unfold Timers.eventStop
    split
    · exact listed.nodup h
    · dsimp only
      by_cases own : h = (s.event e).activeHcpu
      · rw [own, update_self]
        exact (listed.nodup _).erase e
      · rw [update_of_ne own]
        exact listed.nodup h

theorem eventStart (listed : Listed s) (h : H) (e : E) (duration : Nat) :
    Listed (s.eventStart h e duration) where
  active h' e' member := by
    have stopped := listed.eventStop e
    unfold Timers.eventStart at member ⊢
    dsimp only at member ⊢
    by_cases own : h' = h
    · rw [own, update_self, mem_insertEvent] at member
      rcases member with rfl | member
      · rw [update_self, own]
        exact ⟨rfl, rfl⟩
      · rw [update_of_ne (listed.mem_eventStop member).1, own]
        exact stopped.active h e' member
    · rw [update_of_ne own] at member
      rw [update_of_ne (listed.mem_eventStop member).1]
      exact stopped.active h' e' member
  nodup h' := by
    unfold Timers.eventStart
    dsimp only
    by_cases own : h' = h
    · rw [own, update_self]
      refine nodup_insertEvent ((listed.eventStop e).nodup h) fun member => ?_
      exact (listed.mem_eventStop member).1 rfl
    · rw [update_of_ne own]
      exact (listed.eventStop e).nodup h'

end Listed

/-! ## Runs without a start or stop in the gap -/

/-- The last start of an event is the one its state, or the interrupt that has chosen it, stands
for. -/
structure Tracked (s : Timers H E) : Prop where
  listed : Listed s
  armed : ∀ e, (s.event e).activeState = true →
    last e s.log = some (.started e (s.event e).expiryTstamp)
  selected : ∀ h e, s.phase h = .selected e → (s.event e).activeState = true ∧
    (s.event e).activeHcpu = h ∧ (s.event e).expiryTstamp ≤ s.now h
  stopped : ∀ h e, s.phase h = .stopped e → (s.event e).activeState = false ∧
    ∃ expiry ≤ s.now h, last e s.log = some (.started e expiry)
  single : ∀ h h' e, s.phase h = .stopped e → s.phase h' = .stopped e → h = h'
  exact : Exact s.log

namespace Tracked

variable {s : Timers H E}

theorem tick (tracked : Tracked s) (h : H) (delta : Nat) :
    Tracked { s with now := update s.now h (s.now h + delta) } := by
  have later : ∀ h', s.now h' ≤ update s.now h (s.now h + delta) h' := fun h' => by
    by_cases own : h' = h
    · rw [own, update_self]
      exact Nat.le_add_right ..
    · rw [update_of_ne own]
  refine ⟨⟨tracked.listed.active, tracked.listed.nodup⟩, tracked.armed, ?_, ?_, tracked.single,
    tracked.exact⟩
  · intro h' e phase
    obtain ⟨active, hcpu, expired⟩ := tracked.selected h' e phase
    exact ⟨active, hcpu, Nat.le_trans expired (later h')⟩
  · intro h' e phase
    obtain ⟨inactive, expiry, expired, start⟩ := tracked.stopped h' e phase
    exact ⟨inactive, expiry, Nat.le_trans expired (later h'), start⟩

theorem setPhase (tracked : Tracked s) (h : H) (phase : Phase E)
    (selected : ∀ e, phase = .selected e → (s.event e).activeState = true ∧
      (s.event e).activeHcpu = h ∧ (s.event e).expiryTstamp ≤ s.now h)
    (stopped : ∀ e, phase = .stopped e → ((s.event e).activeState = false ∧
      ∃ expiry ≤ s.now h, last e s.log = some (.started e expiry)) ∧
      ∀ h' ≠ h, s.phase h' ≠ .stopped e) : Tracked (s.setPhase h phase) := by
  refine ⟨⟨tracked.listed.active, tracked.listed.nodup⟩, tracked.armed, ?_, ?_, ?_, tracked.exact⟩
  · intro h' e held
    by_cases own : h' = h
    · subst own
      rw [setPhase_phase_self] at held
      exact selected e held
    · rw [setPhase_phase_of_ne own] at held
      exact tracked.selected h' e held
  · intro h' e held
    by_cases own : h' = h
    · subst own
      rw [setPhase_phase_self] at held
      exact (stopped e held).1
    · rw [setPhase_phase_of_ne own] at held
      exact tracked.stopped h' e held
  · intro h₁ h₂ e held₁ held₂
    by_cases own₁ : h₁ = h <;> by_cases own₂ : h₂ = h
    · rw [own₁, own₂]
    · rw [own₁, setPhase_phase_self] at held₁
      rw [setPhase_phase_of_ne own₂] at held₂
      exact absurd held₂ ((stopped e held₁).2 h₂ own₂)
    · rw [own₂, setPhase_phase_self] at held₂
      rw [setPhase_phase_of_ne own₁] at held₁
      exact absurd held₁ ((stopped e held₂).2 h₁ own₁)
    · rw [setPhase_phase_of_ne own₁] at held₁
      rw [setPhase_phase_of_ne own₂] at held₂
      exact tracked.single h₁ h₂ e held₁ held₂

theorem select (tracked : Tracked s) (h : H) : Tracked (s.select h) := by
  unfold Timers.select
  split
  · exact tracked.setPhase h .idle (by simp) (by simp)
  next e rest list =>
    split
    · next expired =>
      obtain ⟨active, hcpu⟩ := tracked.listed.active h e (by simp [list])
      refine tracked.setPhase h _ ?_ (by simp)
      rintro e' ⟨⟩
      exact ⟨active, hcpu, expired⟩
    · exact tracked.setPhase h .idle (by simp) (by simp)

variable {e : E}

theorem eventStop (tracked : Tracked s) (unselected : ∀ h, s.phase h ≠ .selected e) :
    Tracked (s.eventStop e) := by
  refine ⟨tracked.listed.eventStop e, ?_, ?_, ?_, ?_, ?_⟩
  · intro e' active
    by_cases own : e' = e
    · rw [own, eventStop_activeState] at active
      cases active
    · rw [eventStop_event_of_ne own] at active ⊢
      rw [eventStop_log]
      exact tracked.armed e' active
  · intro h e' held
    rw [eventStop_phase] at held
    have other : e' ≠ e := fun own => unselected h (own ▸ held)
    rw [eventStop_event_of_ne other, eventStop_now]
    exact tracked.selected h e' held
  · intro h e' held
    rw [eventStop_phase] at held
    obtain ⟨inactive, start⟩ := tracked.stopped h e' held
    rw [eventStop_now, eventStop_log]
    refine ⟨?_, start⟩
    by_cases own : e' = e
    · rw [own, eventStop_activeState]
    · rw [eventStop_event_of_ne own]
      exact inactive
  · rw [eventStop_phase]
    exact tracked.single
  · rw [eventStop_log]
    exact tracked.exact

section

variable (tracked : Tracked s)
include tracked

theorem stopExpired {h : H} (held : s.phase h = .selected e) :
    Tracked ((s.eventStop e).setPhase h (.stopped e)) := by
  obtain ⟨active, hcpu, expired⟩ := tracked.selected h e held
  -- Forget the choice, stop the event, and take on the next phase.
  have looping := tracked.setPhase h .looping (by simp) (by simp)
  have stopped := looping.eventStop (e := e) fun h' held' => by
    by_cases own : h' = h
    · rw [own, setPhase_phase_self] at held'
      cases held'
    · rw [setPhase_phase_of_ne own] at held'
      exact own ((tracked.selected h' e held').2.1.symm.trans hcpu)
  rw [← setPhase_eventStop_setPhase s e h .looping]
  refine stopped.setPhase h _ (by simp) ?_
  rintro e' ⟨⟩
  refine ⟨⟨eventStop_activeState .., (s.event e).expiryTstamp, ?_, ?_⟩, ?_⟩
  · rw [eventStop_now]
    exact expired
  · rw [eventStop_log]
    exact tracked.armed e active
  · intro h' own held'
    rw [eventStop_phase, setPhase_phase_of_ne own] at held'
    rw [(tracked.stopped h' e held').1] at active
    cases active

omit [DecidableEq H] in
theorem observe {s' : Timers H E} (entry : Entry E) (listed : Listed s')
    (settled : Action.Settled s entry.event) (others : ∀ e ≠ entry.event, s'.event e = s.event e)
    (armed : (s'.event entry.event).activeState = true →
      entry = .started entry.event (s'.event entry.event).expiryTstamp)
    (now : s'.now = s.now) (phase : s'.phase = s.phase) (log : s'.log = entry :: s.log)
    (exact : Exact (entry :: s.log)) : Tracked s' := by
  refine ⟨listed, ?_, ?_, ?_, ?_, ?_⟩
  · intro e active
    rw [log]
    by_cases own : e = entry.event
    · subst own
      rw [last_cons_self, ← armed active]
    · rw [last_cons_of_ne (Ne.symm own)]
      rw [others e own] at active ⊢
      exact tracked.armed e active
  · intro h e held
    rw [phase] at held
    have other : e ≠ entry.event := fun own => settled h (by rw [held, own]; rfl)
    rw [others e other, now]
    exact tracked.selected h e held
  · intro h e held
    rw [phase] at held
    have other : e ≠ entry.event := fun own => settled h (by rw [held, own]; rfl)
    rw [others e other, now, log, last_cons_of_ne (Ne.symm other)]
    exact tracked.stopped h e held
  · rw [phase]
    exact tracked.single
  · rw [log]
    exact exact

theorem start (settled : Action.Settled s e) (h : H) (duration : Nat) :
    Tracked ((s.eventStart h e duration).record
      (.started e ((s.eventStart h e duration).event e).expiryTstamp)) := by
  obtain ⟨active, nodup⟩ := tracked.listed.eventStart h e duration
  refine tracked.observe (.started e ((s.eventStart h e duration).event e).expiryTstamp)
    ⟨active, nodup⟩ settled ?_ (fun _ => rfl) ?_ ?_ ?_ tracked.exact
  · intro e' other
    exact (update_of_ne other ..).trans (eventStop_event_of_ne other)
  · exact eventStop_now ..
  · exact eventStop_phase ..
  · exact congrArg (_ :: ·) (eventStop_log ..)

theorem stop (settled : Action.Settled s e) : Tracked ((s.eventStop e).record (.stopped e)) := by
  obtain ⟨active, nodup⟩ := tracked.listed.eventStop e
  refine tracked.observe (.stopped e) ⟨active, nodup⟩ settled ?_ ?_ ?_ ?_ ?_ tracked.exact
  · exact fun e' other => eventStop_event_of_ne other
  · intro active
    exact absurd ((eventStop_activeState s e).symm.trans active) Bool.false_ne_true
  · exact eventStop_now ..
  · exact eventStop_phase ..
  · exact congrArg (_ :: ·) (eventStop_log ..)

theorem callHandler {h : H} (held : s.phase h = .stopped e) :
    Tracked ((s.setPhase h .looping).record (.called e (s.now h))) := by
  obtain ⟨inactive, expiry, expired, start⟩ := tracked.stopped h e held
  have looping := tracked.setPhase h .looping (by simp) (by simp)
  refine looping.observe (.called e (s.now h)) ⟨looping.listed.active, looping.listed.nodup⟩ ?_
    (fun _ _ => rfl) ?_ rfl rfl rfl ⟨⟨expiry, expired, start⟩, tracked.exact⟩
  · intro h'
    by_cases own : h' = h
    · rw [own, setPhase_phase_self]
      exact (Option.some_ne_none _).symm
    · rw [setPhase_phase_of_ne own]
      intro chosen
      cases phase : s.phase h' with
      | idle | looping => rw [phase] at chosen; cases chosen
      | selected e' =>
        rw [phase] at chosen
        cases chosen
        exact absurd (inactive.symm.trans (tracked.selected h' e phase).1) Bool.false_ne_true
      | stopped e' =>
        rw [phase] at chosen
        cases chosen
        exact own (tracked.single h' h e phase held)
  · intro active
    exact absurd (inactive.symm.trans active) Bool.false_ne_true

end

end Tracked

omit [DecidableEq H] in
theorem Boot.tracked {s : Timers H E} (boot : Boot s) : Tracked s := by
  refine ⟨⟨?_, ?_⟩, ?_, ?_, ?_, ?_, ?_⟩
  · simp [boot.empty]
  · simp [boot.empty]
  · simp [boot.inactive]
  · simp [boot.idle]
  · simp [boot.idle]
  · simp [boot.idle]
  · simp [boot.noLog, Exact]

theorem Action.run_tracked {s s' : Timers H E} {action : Action H E} (tracked : Tracked s)
    (orderly : action.Orderly s) (result : action.run s = some s') : Tracked s' := by
  cases action <;> simp only [Action.run] at result
  case tick h delta =>
    cases result
    exact tracked.tick h delta
  case start h e duration =>
    cases result
    exact tracked.start orderly h duration
  case stop h e =>
    cases result
    exact tracked.stop orderly
  case interrupt h =>
    split at result
    · cases result
      exact tracked.setPhase h .looping (by simp) (by simp)
    · cases result
  case select h =>
    split at result
    · cases result
      exact tracked.select h
    · cases result
  case stopExpired h =>
    split at result
    · next held =>
      cases result
      exact tracked.stopExpired held
    · cases result
  case callHandler h =>
    split at result
    · next held =>
      cases result
      exact tracked.callHandler held
    · cases result

/-- In every run in which no event is started or stopped between the moment an interrupt chooses it
and the call of its handler, every call is the one that the last start asked for. -/
theorem timerSystem_exact {s : Timers H E}
    (reached : ((timerSystem H E).restrict fun s action => action.Orderly s).Reachable s) :
    Exact s.log := by
  have tracked : Tracked s := by
    refine reached.invariant Tracked (fun s boot => Boot.tracked boot) ?_
    exact fun s action s' tracked taken => Action.run_tracked tracked taken.1 taken.2.2
  exact tracked.exact

/-! ## A stop in the gap -/

def oneEvent : Timers Bool Unit where
  now _ := 0
  event _ := ⟨0, 0, false, false⟩
  eventList _ := []
  phase _ := .idle
  log := []

theorem oneEvent_boot : Boot oneEvent :=
  ⟨fun _ => rfl, fun _ => rfl, fun _ => rfl, rfl⟩

instance (s : Timers H E) : (action : Action H E) → Decidable (action.Enabled s)
  | .start h _ duration =>
    inferInstanceAs (Decidable ((s.phase h).chosen = none ∧ s.now h + duration < 2 ^ 64))
  | .stop h _ => inferInstanceAs (Decidable ((s.phase h).chosen = none))
  | .tick .. => isTrue trivial
  | .interrupt _ => isTrue trivial
  | .select _ => isTrue trivial
  | .stopExpired _ => isTrue trivial
  | .callHandler _ => isTrue trivial

instance [Fintype H] (s : Timers H E) : (action : Action H E) → Decidable (action.Orderly s)
  | .start _ e _ => inferInstanceAs (Decidable (∀ h, (s.phase h).chosen ≠ some e))
  | .stop _ e => inferInstanceAs (Decidable (∀ h, (s.phase h).chosen ≠ some e))
  | .tick .. => isTrue trivial
  | .interrupt _ => isTrue trivial
  | .select _ => isTrue trivial
  | .stopExpired _ => isTrue trivial
  | .callHandler _ => isTrue trivial

theorem timerSystem_exact_called :
    ∃ s : Timers Bool Unit, s.log = [.started () 12, .called () 7, .started () 5] ∧
      Exact s.log := by
  refine ⟨_, ?_, timerSystem_exact (.replay (.start oneEvent_boot)
    (fun s action => action.Enabled s ∧ action.Orderly s) Action.run
    [.start false () 5, .tick false 7, .interrupt false, .select false, .stopExpired false,
      .callHandler false, .start false () 5]
    ?_ (by decide))⟩
  · decide
  · exact fun allowed result => ⟨allowed.2, allowed.1, result⟩

/-- One host CPU stops an event after the interrupt of the other one has chosen it; the handler is
called all the same. -/
theorem stop_before_called :
    ∃ s : Timers Bool Unit, (timerSystem Bool Unit).Reachable s ∧
      s.log = [.called () 5, .stopped (), .started () 5] ∧ ¬Exact s.log := by
  refine ⟨_, .replay (.start oneEvent_boot)
    (fun s action => action.Enabled s) Action.run
    [.start false () 5, .tick false 5, .interrupt false, .select false, .stop true (),
      .stopExpired false, .callHandler false]
    And.intro (by decide), ?_, ?_⟩
  · decide
  · rintro ⟨⟨expiry, _, start⟩, _⟩
    cases start

end Xvisor.Timer
