import Xvisor.Timer.Events

/-!
# The order of the timer queues

The clockchip of a host CPU is programmed for the first event of its list. Its
interrupt delivers expired events one by one; their handlers start and stop
events and leave the programming to the end of the interrupt. One turn of the
interrupt is one step.
-/

namespace Xvisor.Timer

open Function List Lib Timers

universe u v

variable {H : Type u} {E : Type v}

/-- An event delivered by the interrupt, with the expiry and the number of the start it was
delivered for. -/
structure Delivery (E : Type v) where
  event : E
  expiryTstamp : Nat
  number : Nat
  deriving DecidableEq, Repr

/-- `struct vmm_timer_local_ctrl` of each host CPU, with `inprocess` as a phase other than `idle`.
Every start has a number, `starts` keeps that of the last start of each event, and `delivered` what
was delivered, newest first. -/
structure TimerQueues (H : Type u) (E : Type v) where
  timers : Timers H E
  started : H → Bool
  nextEvent : H → Nat
  curr : H → Option E
  starts : E → Nat
  count : Nat
  delivered : H → List (Delivery E)

namespace TimerQueues

variable [DecidableEq H] [DecidableEq E]

def advance (s : TimerQueues H E) (h : H) (delta : Nat) : TimerQueues H E :=
  { s with timers :=
      { s.timers with now := update s.timers.now h (s.timers.now h + delta) } }

def scheduleNextEvent (s : TimerQueues H E) (h : H) : TimerQueues H E :=
  if s.started h = false ∨ s.timers.phase h ≠ .idle then s
  else
    match s.timers.eventList h with
    | [] => s
    | e :: _ =>
      let expiry := (s.timers.event e).expiryTstamp
      let tstamp := s.timers.now h
      { s with
        curr := update s.curr h (some e)
        nextEvent := update s.nextEvent h (if tstamp < expiry then expiry else tstamp) }

def eventStop (s : TimerQueues H E) (e : E) : TimerQueues H E :=
  { s with timers := s.timers.eventStop e }

section

variable (s : TimerQueues H E) (h : H)

/-- `vmm_timer_event_start2` on a host CPU. The clock is read for the expiry, and again `delay`
later for the clockchip. -/
def eventStart2 (e : E) (durationNsecs delay : Nat) : TimerQueues H E :=
  ({ s with
      timers := s.timers.eventStart h e durationNsecs
      starts := update s.starts e s.count
      count := s.count + 1 }.advance h delay).scheduleNextEvent h

def eventRestart (e : E) (delay : Nat) : TimerQueues H E :=
  s.eventStart2 h e (s.timers.event e).durationNsecs delay

def handlerEnd (delay : Nat) : TimerQueues H E :=
  ({ s with timers := s.timers.setPhase h .idle }.advance h delay).scheduleNextEvent h

def deliver (e : E) : TimerQueues H E :=
  { s with
    timers := s.timers.eventStop e
    curr := update s.curr h none
    delivered := update s.delivered h
      (⟨e, (s.timers.event e).expiryTstamp, s.starts e⟩ :: s.delivered h) }

def handlerTurn (delay : Nat) : TimerQueues H E :=
  match s.timers.eventList h with
  | [] => s.handlerEnd h delay
  | e :: _ =>
    if (s.timers.event e).expiryTstamp ≤ s.timers.now h then s.deliver h e
    else s.handlerEnd h delay

end

end TimerQueues

/-- The operations on a host CPU. What the handlers do stands between two turns. -/
inductive QueueAction (H : Type u) (E : Type v) where
  | tick (h : H) (delta : Nat)
  | start (h : H) (e : E) (durationNsecs delay : Nat)
  | restart (h : H) (e : E) (delay : Nat)
  | stop (e : E)
  | interrupt (h : H)
  | turn (h : H) (delay : Nat)
  deriving DecidableEq, Repr

namespace QueueAction

variable [DecidableEq H] [DecidableEq E]

def run (s : TimerQueues H E) : QueueAction H E → Option (TimerQueues H E)
  | .tick h delta => some (s.advance h delta)
  | .start h e durationNsecs delay => some (s.eventStart2 h e durationNsecs delay)
  | .restart h e delay => some (s.eventRestart h e delay)
  | .stop e => some (s.eventStop e)
  | .interrupt h =>
    match s.timers.phase h with
    | .idle => some { s with timers := s.timers.setPhase h .looping }
    | _ => none
  | .turn h delay =>
    match s.timers.phase h with
    | .looping => some (s.handlerTurn h delay)
    | _ => none

def Enabled (s : TimerQueues H E) : QueueAction H E → Prop
  | .start h _ durationNsecs _ => s.timers.now h + durationNsecs < 2 ^ 64
  | .restart h e _ => s.timers.now h + (s.timers.event e).durationNsecs < 2 ^ 64
  | _ => True

end QueueAction

structure QueueBoot (s : TimerQueues H E) : Prop where
  inactive : ∀ e, (s.timers.event e).activeState = false
  empty : ∀ h, s.timers.eventList h = []
  idle : ∀ h, s.timers.phase h = .idle
  nothing : ∀ h, s.delivered h = []

def queueSystem (H : Type u) (E : Type v) [DecidableEq H] [DecidableEq E] :
    System (TimerQueues H E) (QueueAction H E) where
  init := QueueBoot
  step s action s' := action.Enabled s ∧ action.run s = some s'

/-! ## The order of starts -/

/-- The earlier expiry comes first, and of two equal ones the earlier start. -/
def Before (a b : Nat × Nat) : Prop := a.1 < b.1 ∨ a.1 = b.1 ∧ a.2 < b.2

instance (a b : Nat × Nat) : Decidable (Before a b) :=
  inferInstanceAs (Decidable (_ ∨ _))

theorem Before.le {a b : Nat × Nat} (before : Before a b) : a.1 ≤ b.1 := by
  rcases before with less | ⟨same, -⟩
  · exact less.le
  · exact same.le

theorem insertEvent_pairwise {expiry number : E → Nat} {e : E} {list : List E}
    (sorted : list.Pairwise fun a b => Before (expiry a, number a) (expiry b, number b))
    (newest : ∀ e' ∈ list, number e' < number e) :
    (Timers.insertEvent expiry e list).Pairwise
      fun a b => Before (expiry a, number a) (expiry b, number b) := by
  induction list with
  | nil => exact pairwise_singleton _ _
  | cons head tail ih =>
    obtain ⟨fromHead, sortedTail⟩ := pairwise_cons.mp sorted
    unfold Timers.insertEvent
    split
    · next earlier =>
      refine pairwise_cons.mpr ⟨fun e' member => ?_, sorted⟩
      rcases mem_cons.mp member with rfl | inTail
      · exact .inl earlier
      · exact .inl (earlier.trans_le (fromHead e' inTail).le)
    · next notEarlier =>
      refine pairwise_cons.mpr ⟨fun e' member => ?_, ?_⟩
      · rcases mem_insertEvent.mp member with rfl | inTail
        · rcases (Nat.le_of_not_lt notEarlier).lt_or_eq with less | same
          · exact .inl less
          · exact .inr ⟨same, newest head mem_cons_self⟩
        · exact fromHead e' inTail
      · exact ih sortedTail fun e' inTail =>
          newest e' (mem_cons_of_mem _ inTail)

namespace TimerQueues

def key (s : TimerQueues H E) (e : E) : Nat × Nat :=
  ((s.timers.event e).expiryTstamp, s.starts e)

end TimerQueues

def Delivery.key (delivery : Delivery E) : Nat × Nat := (delivery.expiryTstamp, delivery.number)

/-- The lists hold the active events in order, behind everything that was delivered. -/
structure Queued (s : TimerQueues H E) : Prop where
  listed : Listed s.timers
  onList : ∀ e, (s.timers.event e).activeState = true →
    e ∈ s.timers.eventList (s.timers.event e).activeHcpu
  sorted : ∀ h, (s.timers.eventList h).Pairwise fun a b => Before (s.key a) (s.key b)
  numbered : ∀ h, ∀ e ∈ s.timers.eventList h, s.starts e < s.count
  deliveredSorted : ∀ h, (s.delivered h).Pairwise fun later earlier =>
    Before earlier.key later.key
  deliveredPast : ∀ h, ∀ delivery ∈ s.delivered h,
    delivery.expiryTstamp ≤ s.timers.now h ∧ delivery.number < s.count
  deliveredBefore : ∀ h, ∀ delivery ∈ s.delivered h, ∀ e ∈ s.timers.eventList h,
    Before delivery.key (s.key e)

/-- The clockchip of a started timer is programmed for no later than any event of the list, or for
no later than the clock. -/
def Programmed (s : TimerQueues H E) (h : H) : Prop :=
  s.started h = true → s.timers.phase h = .idle → ∀ e ∈ s.timers.eventList h,
    s.nextEvent h ≤ max (s.timers.event e).expiryTstamp (s.timers.now h)

namespace Timers

variable [DecidableEq H] [DecidableEq E] {s : Timers H E}

theorem eventStop_sublist (s : Timers H E) (e : E) (h : H) :
    ((s.eventStop e).eventList h).Sublist (s.eventList h) := by
  unfold eventStop
  split
  · exact List.Sublist.refl _
  · dsimp only
    by_cases own : h = (s.event e).activeHcpu
    · rw [own, update_self]
      exact erase_sublist
    · rw [update_of_ne own]

theorem mem_eventStop_of_ne {e e' : E} (other : e' ≠ e) {h : H} (member : e' ∈ s.eventList h) :
    e' ∈ (s.eventStop e).eventList h := by
  unfold eventStop
  split
  · exact member
  · dsimp only
    by_cases own : h = (s.event e).activeHcpu
    · rw [own, update_self]
      rw [own] at member
      exact (mem_erase_of_ne other).mpr member
    · rw [update_of_ne own]
      exact member

@[simp] theorem eventStart_now (s : Timers H E) (h : H) (e : E) (duration : Nat) :
    (s.eventStart h e duration).now = s.now := eventStop_now s e

@[simp] theorem eventStart_phase (s : Timers H E) (h : H) (e : E) (duration : Nat) :
    (s.eventStart h e duration).phase = s.phase := eventStop_phase s e

theorem eventStart_event_of_ne {e e' : E} (other : e' ≠ e) (h : H) (duration : Nat) :
    (s.eventStart h e duration).event e' = s.event e' :=
  (update_of_ne other ..).trans (eventStop_event_of_ne other)

theorem eventStart_eventList_self (s : Timers H E) (h : H) (e : E) (duration : Nat) :
    (s.eventStart h e duration).eventList h =
      insertEvent (fun e' => ((s.eventStart h e duration).event e').expiryTstamp) e
        ((s.eventStop e).eventList h) :=
  update_self ..

theorem eventStart_eventList_of_ne {h h' : H} (other : h' ≠ h) (e : E) (duration : Nat) :
    (s.eventStart h e duration).eventList h' = (s.eventStop e).eventList h' :=
  update_of_ne other ..

theorem mem_eventStart {h h' : H} {e e' : E} {duration : Nat} :
    e' ∈ (s.eventStart h e duration).eventList h' ↔
      e' = e ∧ h' = h ∨ e' ∈ (s.eventStop e).eventList h' := by
  by_cases own : h' = h
  · subst own
    rw [eventStart_eventList_self, mem_insertEvent]
    simp
  · rw [eventStart_eventList_of_ne own]
    simp [own]

end Timers

namespace TimerQueues

variable [DecidableEq H] [DecidableEq E] (s : TimerQueues H E) (h : H)

theorem scheduleNextEvent_eq : ∃ curr nextEvent, s.scheduleNextEvent h =
    { s with curr := curr, nextEvent := nextEvent } ∧
      ∀ h' ≠ h, nextEvent h' = s.nextEvent h' := by
  unfold scheduleNextEvent
  split
  · exact ⟨s.curr, s.nextEvent, rfl, fun _ _ => rfl⟩
  · split
    · exact ⟨s.curr, s.nextEvent, rfl, fun _ _ => rfl⟩
    · exact ⟨_, _, rfl, fun h' other => update_of_ne other ..⟩

omit [DecidableEq E] in
theorem advance_now_le (delta : Nat) (h' : H) :
    s.timers.now h' ≤ (s.advance h delta).timers.now h' := by
  show s.timers.now h' ≤ update s.timers.now h (s.timers.now h + delta) h'
  by_cases own : h' = h
  · rw [own, update_self]
    exact Nat.le_add_right ..
  · rw [update_of_ne own]

end TimerQueues

namespace Queued

variable {s : TimerQueues H E}

theorem program (queued : Queued s) (curr : H → Option E) (nextEvent : H → Nat) :
    Queued { s with curr := curr, nextEvent := nextEvent } :=
  ⟨queued.listed, queued.onList, queued.sorted, queued.numbered, queued.deliveredSorted,
    queued.deliveredPast, queued.deliveredBefore⟩

variable [DecidableEq H]

theorem setPhase (queued : Queued s) (h : H) (phase : Phase E) :
    Queued { s with timers := s.timers.setPhase h phase } :=
  ⟨⟨queued.listed.active, queued.listed.nodup⟩, queued.onList, queued.sorted, queued.numbered,
    queued.deliveredSorted, queued.deliveredPast, queued.deliveredBefore⟩

theorem advance (queued : Queued s) (h : H) (delta : Nat) : Queued (s.advance h delta) := by
  refine ⟨⟨queued.listed.active, queued.listed.nodup⟩, queued.onList, queued.sorted,
    queued.numbered, queued.deliveredSorted, ?_, queued.deliveredBefore⟩
  intro h' delivery member
  obtain ⟨past, number⟩ := queued.deliveredPast h' delivery member
  exact ⟨past.trans (s.advance_now_le h delta h'), number⟩

variable [DecidableEq E]

section

variable (queued : Queued s)
include queued

theorem scheduleNextEvent (h : H) : Queued (s.scheduleNextEvent h) := by
  obtain ⟨curr, nextEvent, result, -⟩ := s.scheduleNextEvent_eq h
  rw [result]
  exact queued.program curr nextEvent

theorem key_eventStop {e e' : E} {h : H}
    (member : e' ∈ (s.timers.eventStop e).eventList h) : (s.eventStop e).key e' = s.key e' := by
  have other := (queued.listed.mem_eventStop member).1
  unfold TimerQueues.key TimerQueues.eventStop
  rw [eventStop_event_of_ne other]

theorem eventStop (e : E) : Queued (s.eventStop e) := by
  refine ⟨queued.listed.eventStop e, ?_, ?_, ?_, queued.deliveredSorted, ?_, ?_⟩
  · intro e' active
    have other : e' ≠ e := by
      rintro rfl
      exact Bool.false_ne_true ((eventStop_activeState s.timers e').symm.trans active)
    unfold TimerQueues.eventStop at active ⊢
    rw [eventStop_event_of_ne other] at active ⊢
    exact mem_eventStop_of_ne other (queued.onList e' active)
  · intro h
    refine ((queued.sorted h).sublist (s.timers.eventStop_sublist e h)).imp_of_mem ?_
    intro a b memberA memberB before
    rw [queued.key_eventStop memberA, queued.key_eventStop memberB]
    exact before
  · intro h e' member
    exact queued.numbered h e' ((s.timers.eventStop_sublist e h).subset member)
  · intro h delivery member
    unfold TimerQueues.eventStop
    rw [eventStop_now]
    exact queued.deliveredPast h delivery member
  · intro h delivery member e' onList
    rw [queued.key_eventStop onList]
    exact queued.deliveredBefore h delivery member e'
      ((s.timers.eventStop_sublist e h).subset onList)

theorem deliver {h : H} {e : E} {rest : List E} (list : s.timers.eventList h = e :: rest)
    (expired : (s.timers.event e).expiryTstamp ≤ s.timers.now h) : Queued (s.deliver h e) := by
  have stopped := queued.eventStop e
  have member : e ∈ s.timers.eventList h := by
    rw [list]
    exact mem_cons_self
  have delivered : ∀ {h' delivery}, delivery ∈ (s.deliver h e).delivered h' →
      delivery ∈ s.delivered h' ∨
        h' = h ∧ delivery = ⟨e, (s.timers.event e).expiryTstamp, s.starts e⟩ := by
    intro h' delivery isDelivered
    simp only [TimerQueues.deliver, update_apply] at isDelivered
    split_ifs at isDelivered with own
    · subst own
      exact (mem_cons.mp isDelivered).symm.imp_right (And.intro rfl)
    · exact .inl isDelivered
  refine ⟨stopped.listed, stopped.onList, stopped.sorted, stopped.numbered, ?_, ?_, ?_⟩
  · intro h'
    unfold TimerQueues.deliver
    dsimp only
    by_cases own : h' = h
    · subst own
      rw [update_self]
      refine pairwise_cons.mpr ⟨fun delivery earlier => ?_, queued.deliveredSorted h'⟩
      exact queued.deliveredBefore h' delivery earlier e member
    · rw [update_of_ne own]
      exact queued.deliveredSorted h'
  · intro h' delivery isDelivered
    rcases delivered isDelivered with earlier | ⟨rfl, rfl⟩
    · exact stopped.deliveredPast h' delivery earlier
    · exact ⟨(congrFun (eventStop_now s.timers e) h').symm ▸ expired, queued.numbered h' e member⟩
  · intro h' delivery isDelivered e' onList
    rcases delivered isDelivered with earlier | ⟨rfl, rfl⟩
    · exact stopped.deliveredBefore h' delivery earlier e' onList
    · obtain ⟨other, before⟩ := queued.listed.mem_eventStop onList
      rw [list, mem_cons] at before
      have inOrder := queued.sorted h'
      rw [list] at inOrder
      have behind := (pairwise_cons.mp inOrder).1 e' (before.resolve_left other)
      exact (queued.key_eventStop onList).symm ▸ behind

theorem start {h : H} {durationNsecs : Nat} (e : E)
    (noWrap : s.timers.now h + durationNsecs < 2 ^ 64) :
    Queued { s with
      timers := s.timers.eventStart h e durationNsecs
      starts := update s.starts e s.count
      count := s.count + 1 } := by
  have stopped := queued.eventStop e
  let new : TimerQueues H E :=
    { s with
      timers := s.timers.eventStart h e durationNsecs
      starts := update s.starts e s.count
      count := s.count + 1 }
  -- the events that stay on their lists keep their keys
  have staying : ∀ {h' e'}, e' ∈ (s.timers.eventStop e).eventList h' →
      e' ≠ e ∧ new.key e' = (s.eventStop e).key e' := by
    intro h' e' member
    have other := (queued.listed.mem_eventStop member).1
    refine ⟨other, ?_⟩
    show (((s.timers.eventStart h e durationNsecs).event e').expiryTstamp,
      update s.starts e s.count e') = _
    rw [eventStart_event_of_ne other, update_of_ne other]
    exact (queued.key_eventStop member).symm
  have ownKey : new.key e = (s.timers.now h + durationNsecs, s.count) := by
    show (((s.timers.eventStart h e durationNsecs).event e).expiryTstamp,
      update s.starts e s.count e) = _
    simp [Timers.eventStart, Word.add_of_lt noWrap]
  have sortedAs : ∀ h', ((s.timers.eventStop e).eventList h').Pairwise
      fun a b => Before (new.key a) (new.key b) := by
    intro h'
    refine (stopped.sorted h').imp_of_mem ?_
    intro a b memberA memberB before
    rw [(staying memberA).2, (staying memberB).2]
    exact before
  refine ⟨queued.listed.eventStart h e durationNsecs, ?_, ?_, ?_, queued.deliveredSorted, ?_, ?_⟩
  · intro e' active
    rw [mem_eventStart]
    by_cases own : e' = e
    · subst own
      left
      exact ⟨rfl, by simp [Timers.eventStart]⟩
    · right
      dsimp only at active ⊢
      rw [eventStart_event_of_ne own] at active ⊢
      exact mem_eventStop_of_ne own (queued.onList e' active)
  · intro h'
    by_cases own : h' = h
    · subst own
      dsimp only
      rw [eventStart_eventList_self]
      refine insertEvent_pairwise (sortedAs h') fun e' member => ?_
      show update s.starts e s.count e' < update s.starts e s.count e
      rw [update_of_ne (staying member).1, update_self]
      exact stopped.numbered h' e' member
    · dsimp only
      rw [eventStart_eventList_of_ne own]
      exact sortedAs h'
  · intro h' e' member
    show update s.starts e s.count e' < s.count + 1
    rcases mem_eventStart.mp member with ⟨rfl, -⟩ | member
    · rw [update_self]
      exact Nat.lt_succ_self _
    · rw [update_of_ne (staying member).1]
      exact Nat.lt_succ_of_lt (stopped.numbered h' e' member)
  · intro h' delivery earlier
    obtain ⟨past, number⟩ := queued.deliveredPast h' delivery earlier
    dsimp only
    rw [eventStart_now]
    exact ⟨past, Nat.lt_succ_of_lt number⟩
  · intro h' delivery earlier e' member
    rcases mem_eventStart.mp member with ⟨rfl, rfl⟩ | member
    · obtain ⟨past, number⟩ := queued.deliveredPast h' delivery earlier
      show Before delivery.key (new.key e')
      rw [ownKey]
      rcases past.lt_or_eq with less | same
      · exact .inl (less.trans_le (Nat.le_add_right ..))
      · rcases Nat.eq_zero_or_pos durationNsecs with rfl | pos
        · exact .inr ⟨same, number⟩
        · exact .inl (same.trans_lt (Nat.lt_add_of_pos_right pos))
    · show Before delivery.key (new.key e')
      rw [(staying member).2]
      exact stopped.deliveredBefore h' delivery earlier e' member

end

end Queued

/-! ## Programming the clockchip -/

namespace Programmed

variable {s s' : TimerQueues H E} {h : H}

theorem of_subset (programmed : Programmed s h) (started : s'.started h = s.started h)
    (nextEvent : s'.nextEvent h = s.nextEvent h)
    (phase : s'.timers.phase h = .idle → s.timers.phase h = .idle)
    (now : s.timers.now h ≤ s'.timers.now h)
    (events : ∀ e ∈ s'.timers.eventList h, e ∈ s.timers.eventList h ∧
      (s'.timers.event e).expiryTstamp = (s.timers.event e).expiryTstamp) : Programmed s' h := by
  intro isStarted idle e member
  obtain ⟨before, expiry⟩ := events e member
  rw [started] at isStarted
  have early := programmed isStarted (phase idle) e before
  rw [nextEvent, expiry]
  exact early.trans (max_le_max le_rfl now)

variable [DecidableEq H] [DecidableEq E]

theorem scheduleNextEvent (sorted : (s.timers.eventList h).Pairwise
    fun a b => Before (s.key a) (s.key b)) : Programmed (s.scheduleNextEvent h) h := by
  unfold TimerQueues.scheduleNextEvent
  split
  · next off =>
    intro isStarted idle
    rcases off with stopped | processing
    · exact absurd (stopped.symm.trans isStarted) Bool.false_ne_true
    · exact absurd idle processing
  · split
    · next list =>
      intro _ _ e member
      rw [list] at member
      cases member
    · next first rest list =>
      intro _ _ e member
      dsimp only at member ⊢
      have notLater : (s.timers.event first).expiryTstamp ≤ (s.timers.event e).expiryTstamp := by
        rw [list] at sorted member
        rcases mem_cons.mp member with rfl | inRest
        · exact le_rfl
        · exact ((pairwise_cons.mp sorted).1 e inRest).le
      rw [update_self]
      split
      · exact le_max_of_le_left notLater
      · exact le_max_right _ _

theorem scheduleNextEvent_of_ne {h' : H} (programmed : Programmed s h') (other : h' ≠ h) :
    Programmed (s.scheduleNextEvent h) h' := by
  obtain ⟨curr, nextEvent, result, others⟩ := s.scheduleNextEvent_eq h
  rw [result]
  exact programmed.of_subset rfl (others h' other) id le_rfl fun e member => ⟨member, rfl⟩

omit [DecidableEq E] in
theorem advance (programmed : Programmed s h) (h' : H) (delta : Nat) :
    Programmed (s.advance h' delta) h :=
  programmed.of_subset rfl rfl id (s.advance_now_le h' delta h) fun _ member => ⟨member, rfl⟩

theorem eventStop (programmed : Programmed s h) (queued : Queued s) (e : E) :
    Programmed (s.eventStop e) h := by
  refine programmed.of_subset rfl rfl ?_ ?_ fun e' member => ?_
  · exact fun idle => (congrFun (eventStop_phase s.timers e) h).symm.trans idle
  · exact (congrFun (eventStop_now s.timers e) h).ge
  · obtain ⟨other, before⟩ := queued.listed.mem_eventStop member
    exact ⟨before, congrArg _ (eventStop_event_of_ne other)⟩

theorem start_of_ne (programmed : Programmed s h) (queued : Queued s) {h' : H} (other : h ≠ h')
    (e : E) (durationNsecs : Nat) (starts : E → Nat) (count : Nat) :
    Programmed { s with
      timers := s.timers.eventStart h' e durationNsecs, starts := starts, count := count } h := by
  refine (programmed.eventStop queued e).of_subset rfl rfl ?_ ?_ fun e' member => ?_
  · exact fun idle => (congrFun (eventStop_phase s.timers e) h).trans
      ((congrFun (eventStart_phase s.timers h' e durationNsecs) h).symm.trans idle)
  · show (s.timers.eventStop e).now h ≤ (s.timers.eventStart h' e durationNsecs).now h
    rw [eventStop_now, eventStart_now]
  · rcases mem_eventStart.mp member with ⟨-, same⟩ | member
    · exact absurd same other
    · have changed := (queued.listed.mem_eventStop member).1
      refine ⟨member, ?_⟩
      show ((s.timers.eventStart h' e durationNsecs).event e').expiryTstamp =
        ((s.timers.eventStop e).event e').expiryTstamp
      rw [eventStart_event_of_ne changed, eventStop_event_of_ne changed]

end Programmed

/-! ## Runs -/

structure QueueInvariant (s : TimerQueues H E) : Prop where
  queued : Queued s
  programmed : ∀ h, Programmed s h

namespace QueueInvariant

variable [DecidableEq H] [DecidableEq E] {s : TimerQueues H E}

section

variable (invariant : QueueInvariant s)
include invariant

theorem eventStart2 {h : H} {durationNsecs : Nat} (e : E)
    (noWrap : s.timers.now h + durationNsecs < 2 ^ 64) (delay : Nat) :
    QueueInvariant (s.eventStart2 h e durationNsecs delay) := by
  have started := (invariant.queued.start e noWrap).advance h delay
  refine ⟨started.scheduleNextEvent h, fun h' => ?_⟩
  by_cases own : h' = h
  · subst own
    exact Programmed.scheduleNextEvent (started.sorted h')
  · have others := (invariant.programmed h').start_of_ne invariant.queued own e durationNsecs
      (update s.starts e s.count) (s.count + 1)
    exact (others.advance h delay).scheduleNextEvent_of_ne own

theorem handlerEnd (h : H) (delay : Nat) : QueueInvariant (s.handlerEnd h delay) := by
  have idle := (invariant.queued.setPhase h .idle).advance h delay
  refine ⟨idle.scheduleNextEvent h, fun h' => ?_⟩
  by_cases own : h' = h
  · subst own
    exact Programmed.scheduleNextEvent (idle.sorted h')
  · have others : Programmed { s with timers := s.timers.setPhase h .idle } h' :=
      (invariant.programmed h').of_subset rfl rfl
        (fun phase => (setPhase_phase_of_ne own).symm.trans phase) le_rfl
        fun e member => ⟨member, rfl⟩
    exact (others.advance h delay).scheduleNextEvent_of_ne own

theorem deliver {h : H} {e : E} {rest : List E} (list : s.timers.eventList h = e :: rest)
    (expired : (s.timers.event e).expiryTstamp ≤ s.timers.now h) :
    QueueInvariant (s.deliver h e) := by
  refine ⟨invariant.queued.deliver list expired, fun h' => ?_⟩
  exact ((invariant.programmed h').eventStop invariant.queued e).of_subset rfl rfl id le_rfl
    fun e' member => ⟨member, rfl⟩

theorem handlerTurn (h : H) (delay : Nat) : QueueInvariant (s.handlerTurn h delay) := by
  unfold TimerQueues.handlerTurn
  split
  · exact invariant.handlerEnd h delay
  · next e rest list =>
    split
    · next expired => exact invariant.deliver list expired
    · exact invariant.handlerEnd h delay

theorem run {s' : TimerQueues H E} {action : QueueAction H E}
    (enabled : action.Enabled s) (result : action.run s = some s') : QueueInvariant s' := by
  cases action with
  | tick h delta =>
    cases result
    exact ⟨invariant.queued.advance h delta, fun h' => (invariant.programmed h').advance h delta⟩
  | start h e durationNsecs delay =>
    cases result
    exact invariant.eventStart2 e enabled delay
  | restart h e delay =>
    cases result
    exact invariant.eventStart2 e enabled delay
  | stop e =>
    cases result
    exact ⟨invariant.queued.eventStop e,
      fun h => (invariant.programmed h).eventStop invariant.queued e⟩
  | interrupt h =>
    simp only [QueueAction.run] at result
    split at result
    · cases result
      refine ⟨invariant.queued.setPhase h .looping, fun h' => ?_⟩
      by_cases own : h' = h
      · subst own
        intro _ idle
        exact absurd ((s.timers.setPhase_phase_self h' .looping).symm.trans idle) (by simp)
      · exact (invariant.programmed h').of_subset rfl rfl
          (fun phase => (setPhase_phase_of_ne own).symm.trans phase) le_rfl
          fun e member => ⟨member, rfl⟩
    · cases result
  | turn h delay =>
    simp only [QueueAction.run] at result
    split at result
    · cases result
      exact invariant.handlerTurn h delay
    · cases result

end

end QueueInvariant

variable {s : TimerQueues H E}

theorem QueueBoot.invariant (boot : QueueBoot s) : QueueInvariant s := by
  refine ⟨⟨⟨?_, ?_⟩, ?_, ?_, ?_, ?_, ?_, ?_⟩, ?_⟩
  · simp [boot.empty]
  · simp [boot.empty]
  · simp [boot.inactive]
  · simp [boot.empty]
  · simp [boot.empty]
  · simp [boot.nothing]
  · simp [boot.nothing]
  · simp [boot.nothing]
  · intro h _ _ e member
    rw [boot.empty] at member
    cases member

variable [DecidableEq H] [DecidableEq E]

theorem Queued.handlerTurn_delivers (queued : Queued s) (h : H)
    (delay : Nat) :
    (∃ e rest, s.timers.eventList h = e :: rest ∧
      (s.timers.event e).expiryTstamp ≤ s.timers.now h ∧ s.handlerTurn h delay = s.deliver h e) ∨
    (∀ e ∈ s.timers.eventList h, s.timers.now h < (s.timers.event e).expiryTstamp) ∧
      s.handlerTurn h delay = s.handlerEnd h delay := by
  unfold TimerQueues.handlerTurn
  cases list : s.timers.eventList h with
  | nil => exact .inr ⟨nofun, rfl⟩
  | cons first rest =>
    dsimp only
    split
    · next expired => exact .inl ⟨first, rest, rfl, expired, rfl⟩
    · next pending =>
      refine .inr ⟨fun e member => ?_, rfl⟩
      have sorted := queued.sorted h
      rw [list] at sorted
      have notYet := Nat.lt_of_not_le pending
      rcases mem_cons.mp member with rfl | inRest
      · exact notYet
      · exact notYet.trans_le ((pairwise_cons.mp sorted).1 e inRest).le

/-- In every run, the active events are those on a list, each on one; every list is in the order
of expiry and start; every host CPU delivers expired events in that order, and ends its interrupt
only when none is left; and the clockchip of a started timer that is not processing is programmed
for no later than the first event, or than the clock. -/
theorem timerQueue_ordered {s : TimerQueues H E} (reached : (queueSystem H E).Reachable s) :
    (∀ e, (s.timers.event e).activeState = true ↔ ∃ h, e ∈ s.timers.eventList h) ∧
    (∀ e h h', e ∈ s.timers.eventList h → e ∈ s.timers.eventList h' → h = h') ∧
    (∀ h, (s.timers.eventList h).Nodup ∧
      (s.timers.eventList h).Pairwise fun a b => Before (s.key a) (s.key b)) ∧
    (∀ h, (s.delivered h).Pairwise fun later earlier => Before earlier.key later.key) ∧
    (∀ h delay,
      (∃ e rest, s.timers.eventList h = e :: rest ∧
        (s.timers.event e).expiryTstamp ≤ s.timers.now h ∧
        s.handlerTurn h delay = s.deliver h e) ∨
      (∀ e ∈ s.timers.eventList h, s.timers.now h < (s.timers.event e).expiryTstamp) ∧
        s.handlerTurn h delay = s.handlerEnd h delay) ∧
    ∀ h, s.started h = true → s.timers.phase h = .idle →
      ∀ e rest, s.timers.eventList h = e :: rest →
        s.nextEvent h ≤ max (s.timers.event e).expiryTstamp (s.timers.now h) := by
  obtain ⟨queued, programmed⟩ : QueueInvariant s := by
    refine reached.invariant QueueInvariant (fun s boot => QueueBoot.invariant boot) ?_
    exact fun s action s' invariant taken => invariant.run taken.1 taken.2
  refine ⟨fun e => ⟨fun active => ⟨_, queued.onList e active⟩, ?_⟩, ?_, ?_,
    queued.deliveredSorted, queued.handlerTurn_delivers, ?_⟩
  · rintro ⟨h, member⟩
    exact (queued.listed.active h e member).1
  · intro e h h' member member'
    exact (queued.listed.active h e member).2.symm.trans (queued.listed.active h' e member').2
  · exact fun h => ⟨queued.listed.nodup h, queued.sorted h⟩
  · intro h isStarted idle e rest list
    refine programmed h isStarted idle e ?_
    rw [list]
    exact mem_cons_self

def twoEvents : TimerQueues Bool Bool where
  timers :=
    { now := fun _ => 0
      event := fun _ => ⟨0, 0, false, false⟩
      eventList := fun _ => []
      phase := fun _ => .idle
      log := [] }
  started _ := true
  nextEvent _ := 0
  curr _ := none
  starts _ := 0
  count := 0
  delivered _ := []

instance (s : TimerQueues H E) : (action : QueueAction H E) → Decidable (action.Enabled s)
  | .start h _ durationNsecs _ =>
    inferInstanceAs (Decidable (s.timers.now h + durationNsecs < 2 ^ 64))
  | .restart h e _ =>
    inferInstanceAs (Decidable (s.timers.now h + (s.timers.event e).durationNsecs < 2 ^ 64))
  | .tick .. => isTrue trivial
  | .stop _ => isTrue trivial
  | .interrupt _ => isTrue trivial
  | .turn .. => isTrue trivial

/-- Two events with one expiry are delivered in the order of their starts. The handler of the
first one restarts it, for which the clockchip is programmed at the end of the interrupt. -/
theorem timerQueue_ordered_restart :
    ∃ s : TimerQueues Bool Bool, s.timers.eventList false = [true] ∧
      s.delivered false = [⟨false, 5, 1⟩, ⟨true, 5, 0⟩] ∧ s.nextEvent false = 11 ∧
      ((s.delivered false).Pairwise fun later earlier => Before earlier.key later.key) := by
  have start : (queueSystem Bool Bool).Reachable twoEvents :=
    .start ⟨fun _ => rfl, fun _ => rfl, fun _ => rfl, fun _ => rfl⟩
  have ordered := timerQueue_ordered (start.replay
    (fun s action => action.Enabled s) QueueAction.run
    [.start false true 5 0, .start false false 5 1, .tick false 5, .interrupt false,
      .turn false 0, .restart false true 0, .turn false 0, .turn false 0]
    And.intro (by decide))
  exact ⟨_, by decide, by decide, by decide, ordered.2.2.2.1 false⟩

end Xvisor.Timer
