import Mathlib.Logic.Function.Basic
import Xvisor.Lib.System

/-!
# Lazy transfers

The bottom half of a CPU takes a packet and a lazy request off its queues at once. A packet whose
port has left its switch ends the iteration, and a port that leaves takes its requests off the
queues without touching their counters.
-/

namespace Xvisor.Net

open Function List Lib Relation

universe u v w

/-- The queues of every CPU, what its bottom half has taken from them, which ports belong to a
switch, and the counters of the requests. A packet is known by its port. -/
structure Netswitch (C : Type u) (P : Type v) (L : Type w) where
  mbufList : C → List P := fun _ => []
  lazyList : C → List L := fun _ => []
  mbuf : C → Option P := fun _ => none
  lazy : C → Option L := fun _ => none
  attached : P → Bool := fun _ => false
  schedCount : L → Nat := fun _ => 0

/-- `netswitch_port_remove` detaches the port and then flushes the queues one by one. -/
inductive NetEvent (C : Type u) (P : Type v) (L : Type w) where
  | portAdd (port : P)
  | portDetach (port : P)
  | portFlush (cpu : C) (port : P)
  | xferMbuf (cpu : C) (port : P)
  | xferLazy (cpu : C) (lazy : L)
  | bhDequeue (cpu : C)
  | bhMbuf (cpu : C)
  | bhLazy (cpu : C)

variable {C : Type u} {P : Type v} {L : Type w} [DecidableEq C] [DecidableEq P] [DecidableEq L]

namespace Netswitch

inductive Step (port : L → P) (s : Netswitch C P L) : NetEvent C P L → Netswitch C P L → Prop where
  | portAdd {p} : Step port s (.portAdd p) { s with attached := update s.attached p true }
  | portDetach {p} : Step port s (.portDetach p) { s with attached := update s.attached p false }
  | portFlush {c p} : s.attached p = false → Step port s (.portFlush c p) { s with
      mbufList := update s.mbufList c ((s.mbufList c).filter (· ≠ p))
      lazyList := update s.lazyList c ((s.lazyList c).filter (port · ≠ p)) }
  | xferMbuf {c p} : s.attached p = true → Step port s (.xferMbuf c p)
      { s with mbufList := update s.mbufList c (s.mbufList c ++ [p]) }
  | enqueue {c l} : s.attached (port l) = true → s.schedCount l = 0 →
    Step port s (.xferLazy c l) { s with
      lazyList := update s.lazyList c (s.lazyList c ++ [l])
      schedCount := update s.schedCount l 1 }
  | busy {c l} : s.attached (port l) = true → 0 < s.schedCount l → Step port s (.xferLazy c l)
      { s with schedCount := update s.schedCount l (s.schedCount l + 1) }
  | dequeue {c} : s.mbuf c = none → s.lazy c = none → Step port s (.bhDequeue c) { s with
      mbufList := update s.mbufList c (s.mbufList c).tail
      lazyList := update s.lazyList c (s.lazyList c).tail
      mbuf := update s.mbuf c (s.mbufList c).head?
      lazy := update s.lazy c (s.lazyList c).head? }
  | mbuf {c p} : s.mbuf c = some p → Step port s (.bhMbuf c) { s with
      mbuf := update s.mbuf c none
      lazy := if s.attached p then s.lazy else update s.lazy c none }
  | lazy {c l} : s.mbuf c = none → s.lazy c = some l → Step port s (.bhLazy c) { s with
      lazyList :=
        if 1 < s.schedCount l then update s.lazyList c (s.lazyList c ++ [l]) else s.lazyList
      lazy := update s.lazy c none
      schedCount := update s.schedCount l (s.schedCount l - 1) }

/-- A port is flushed when none of its requests is queued, and a packet taken together with a
request is of a port that still belongs to a switch. -/
def KeepsLazy (port : L → P) (s : Netswitch C P L) : NetEvent C P L → Prop
  | .portFlush c p => ∀ l ∈ s.lazyList c, port l ≠ p
  | .bhMbuf c => ∀ p, s.mbuf c = some p → s.attached p = true ∨ s.lazy c = none
  | _ => True

@[grind] def places (s : Netswitch C P L) (l : L) (c : C) : Nat :=
  (s.lazyList c).count l + if s.lazy c = some l then 1 else 0

/-- A request is counted exactly when it is in one place, and there once. -/
def Placed (s : Netswitch C P L) (l : L) : Prop :=
  ∃ home : Option C, (home ≠ none ↔ 0 < s.schedCount l) ∧
    ∀ c, s.places l c = if home = some c then 1 else 0

variable {port : L → P} {s s' : Netswitch C P L}

theorem Placed.step {e : NetEvent C P L} {l : L} (placed : s.Placed l)
    (keeps : s.KeepsLazy port e) (taken : s.Step port e s') : s'.Placed l := by
  obtain ⟨home, counted, located⟩ := placed
  cases taken with
  | portAdd | portDetach | xferMbuf => exact ⟨home, counted, located⟩
  | busy =>
    refine ⟨home, by grind, fun c => ?_⟩
    have old := located c
    grind
  | @portFlush c p =>
    have kept : (s.lazyList c).filter (port · ≠ p) = s.lazyList c :=
      filter_eq_self.mpr fun l member => decide_eq_true (keeps l member)
    refine ⟨home, counted, fun c => ?_⟩
    have old := located c
    grind
  | @enqueue c l' =>
    refine ⟨if l = l' then some c else home, by grind, fun c' => ?_⟩
    have old := located c'
    by_cases same : l = l' <;> by_cases here : c' = c <;> grind
  | @dequeue c =>
    refine ⟨home, counted, fun c' => ?_⟩
    have old := located c'
    cases isList : s.lazyList c <;> by_cases here : c' = c <;> grind
  | @mbuf c p isMbuf =>
    refine ⟨home, counted, fun c' => ?_⟩
    have old := located c'
    rcases keeps p isMbuf with live | nothing <;> grind
  | @lazy c l' =>
    have held := located c
    refine ⟨if l = l' ∧ s.schedCount l = 1 then none else home, by grind, fun c' => ?_⟩
    have old := located c'
    by_cases same : l = l' <;> by_cases here : c' = c <;> grind

/-- The bottom half of a CPU goes on by itself. -/
def Proceeds (port : L → P) (c : C) (s s' : Netswitch C P L) : Prop :=
  s.Step port (.bhDequeue c) s' ∨ s.Step port (.bhMbuf c) s' ∨ s.Step port (.bhLazy c) s'

/-- The bottom half is idle, and the packets before it are of ports of live switches. -/
def Ready (s : Netswitch C P L) (c : C) : Prop :=
  s.mbuf c = none ∧ s.lazy c = none ∧ ∀ p ∈ s.mbufList c, s.attached p = true

variable (port) in
theorem Ready.takes {c : C} {l : L} {rest : List L} (ready : s.Ready c)
    (isList : s.lazyList c = l :: rest) : ∃ s', ReflTransGen (Proceeds port c) s s' ∧
      (s'.mbuf c = none ∧ s'.lazy c = some l) ∧ s'.lazyList c = rest ∧
      ∀ p ∈ s'.mbufList c, s'.attached p = true := by
  obtain ⟨noMbuf, noLazy, live⟩ := ready
  have first : s.Step port (.bhDequeue c) _ := .dequeue noMbuf noLazy
  cases isMbufs : s.mbufList c with
  | nil => exact ⟨_, .single (.inl first), by grind⟩
  | cons p mbufs =>
    exact ⟨_, .tail (.single (.inl first)) (.inr (.inl (.mbuf (p := p) (by grind)))), by grind⟩

/-- It comes to every request of its queue, and executes it. -/
theorem Ready.served {c : C} {l : L} (ready : s.Ready c) {before after : List L}
    (waits : s.lazyList c = before ++ l :: after) :
    ∃ s', ReflTransGen (Proceeds port c) s s' ∧ s'.mbuf c = none ∧ s'.lazy c = some l := by
  induction before generalizing s after with
  | nil =>
    obtain ⟨s', path, held, -⟩ := ready.takes port waits
    exact ⟨s', path, held⟩
  | cons head before ih =>
    obtain ⟨s₁, path, ⟨noMbuf, isLazy⟩, isList, live⟩ := ready.takes port waits
    obtain ⟨s₂, done, ready₂, again, isList₂⟩ : ∃ s₂, Proceeds port c s₁ s₂ ∧ s₂.Ready c ∧
        ∃ again, s₂.lazyList c = before ++ l :: (after ++ again) := by
      refine ⟨_, .inr (.inr (.lazy noMbuf isLazy)), ⟨noMbuf, update_self .., live⟩,
        if 1 < s₁.schedCount head then [head] else [], ?_⟩
      split <;> simp [isList]
    obtain ⟨s', path', held⟩ := ih ready₂ isList₂
    exact ⟨s', path.trans (.head done path'), held⟩

end Netswitch

open Netswitch

def netSystem (port : L → P) : System (Netswitch C P L) (NetEvent C P L) :=
  ⟨(· = {}), Step port⟩

end Xvisor.Net
