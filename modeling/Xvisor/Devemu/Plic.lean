import Mathlib.Logic.Function.Basic
import Mathlib.Tactic.SplitIfs
import Xvisor.Lib.System

/-!
# The PLIC emulator

Every context has its own enable, pending and claimed bits. A line that changes is
looked up in the first context that enables its source, and in no other.
-/

namespace Xvisor.Devemu

open Function List Lib

/-! ## Contexts -/

/-- `struct plic_context`, with a bit for each source. -/
structure PlicContext where
  threshold : BitVec 32
  enable : Nat → Bool
  pending : Nat → Bool
  pendingPriority : Nat → BitVec 32
  claimed : Nat → Bool

namespace PlicContext

def reset : PlicContext := ⟨0, fun _ => false, fun _ => false, fun _ => 0, fun _ => false⟩

variable (c : PlicContext)

def bestPendingIrq (numIrq : Nat) : Nat :=
  ((List.range numIrq).foldl (fun best irq =>
    if !c.pending irq || c.claimed irq then best
    else if best.1 = 0 ∨ best.2 < c.pendingPriority irq then (irq, c.pendingPriority irq)
    else best) (0, 0)).1

def irqClaim (numIrq : Nat) : PlicContext :=
  let best := c.bestPendingIrq numIrq
  if best ≠ 0 then { c with claimed := update c.claimed best true } else c

/-- What `plic_irq_handle` does to the context it stops at. -/
def setLine (irq : Nat) (level : Bool) (prio : BitVec 32) : PlicContext :=
  { c with
    pending := update c.pending irq level
    pendingPriority := update c.pendingPriority irq (if level then prio else 0)
    claimed := if level then c.claimed else update c.claimed irq false }

/-- `plic_context_enable_write`, which looks at the bits of a word one by one. -/
def enableWrite (level : Nat → Bool) (priority : Nat → BitVec 32) (word : Nat)
    (mask src : BitVec 32) : PlicContext :=
  let new irq :=
    if irq / 32 = word then
      (if mask.getLsbD (irq % 32) then c.enable irq else src.getLsbD (irq % 32)) && irq != 0
    else c.enable irq
  let rises irq := new irq && !c.enable irq && level irq
  let falls irq := !new irq && c.enable irq
  { c with
    enable := new
    pending irq := !falls irq && (rises irq || c.pending irq)
    pendingPriority irq :=
      if falls irq then 0 else if rises irq then priority irq else c.pendingPriority irq
    claimed irq := !falls irq && c.claimed irq }

end PlicContext

/-! ## The emulator -/

structure PlicConfig where
  baseIrq : Nat
  numIrq : Nat
  maxPrio : BitVec 32

structure Plic where
  priority : Nat → BitVec 32
  level : Nat → Bool
  contexts : List PlicContext

/-- The four bits of a priority that a masked write leaves. -/
def writePrio (old mask src : BitVec 32) : BitVec 32 :=
  ((old &&& mask) ||| (src &&& ~~~mask)) &&& 15

def markFirst (irq : Nat) (level : Bool) (prio : BitVec 32) : List PlicContext → List PlicContext
  | [] => []
  | c :: contexts =>
    if c.enable irq then c.setLine irq level prio :: contexts
    else c :: markFirst irq level prio contexts

namespace Plic

variable (config : PlicConfig)

/-- `plic_irq_handle`. The loop counts the contexts with 8 bits, and does not end if there are
more and none of the first 256 enables the source. -/
def irqHandle (s : Plic) (irq : Nat) (level : Bool) : Option Plic :=
  if irq < config.baseIrq ∨ config.baseIrq + config.numIrq ≤ irq then some s
  else
    let irq := irq - config.baseIrq
    if irq = 0 then some s
    else if 256 ≤ s.contexts.length ∧ (s.contexts.take 256).all (!·.enable irq) then none
    else
      some { s with
        level := update s.level irq level
        contexts := markFirst irq level (s.priority irq) s.contexts }

/-- What `plic_emulator_read` changes: reading the claim register claims an interrupt. -/
def emulatorRead (s : Plic) (offset : Nat) : Plic :=
  let offset := offset / 4 * 4
  if 0x200000 ≤ offset ∧ offset < 0x1000000 ∧ (offset - 0x200000) % 0x1000 = 4 then
    { s with
      contexts := s.contexts.modify ((offset - 0x200000) / 0x1000) (·.irqClaim config.numIrq) }
  else s

/-- `plic_emulator_write`; writing the claim register changes nothing. -/
def emulatorWrite (s : Plic) (offset : Nat) (mask src : BitVec 32) : Plic :=
  let offset := offset / 4 * 4
  if offset < 0x2000 then
    let irq := offset / 4
    if irq = 0 ∨ config.numIrq ≤ irq then s
    else { s with priority := update s.priority irq (writePrio (s.priority irq) mask src) }
  else if offset < 0x200000 then
    let word := (offset - 0x2000) % 0x80 / 4
    if (config.numIrq + 31) / 32 < word then s
    else
      { s with
        contexts := s.contexts.modify ((offset - 0x2000) / 0x80)
          (·.enableWrite s.level s.priority word mask src) }
  else if offset < 0x1000000 ∧ (offset - 0x200000) % 0x1000 = 0 then
    { s with
      contexts := s.contexts.modify ((offset - 0x200000) / 0x1000) fun c =>
        let val := writePrio c.threshold mask src
        if val ≤ config.maxPrio then { c with threshold := val } else c }
  else s

end Plic

inductive PlicAction where
  | line (irq : Nat) (level : Bool)
  | read (offset : Nat)
  | write (offset : Nat) (mask src : BitVec 32)

def plicSystem (config : PlicConfig) : System Plic PlicAction where
  init s := s.priority = (fun _ => 0) ∧ s.level = (fun _ => false) ∧ ∀ c ∈ s.contexts, c = .reset
  step s action s' :=
    match action with
    | .line irq level => s.irqHandle config irq level = some s'
    | .read offset => s' = s.emulatorRead config offset
    | .write offset mask src => s' = s.emulatorWrite config offset mask src

/-! ## Lines and contexts -/

def PlicContext.Follows (level : Nat → Bool) (c : PlicContext) : Prop :=
  ∀ irq, (c.pending irq → c.enable irq ∧ level irq) ∧ (c.claimed irq → c.pending irq) ∧
    (level irq → c.enable irq → c.pending irq)

/-- A line that changes has its source enabled in one context at most. -/
def PlicAction.Single (config : PlicConfig) (s : Plic) : PlicAction → Prop
  | .line irq level => s.level (irq - config.baseIrq) = level ∨
      s.contexts.countP (·.enable (irq - config.baseIrq)) ≤ 1
  | _ => True

namespace PlicContext

variable {level : Nat → Bool} {c : PlicContext} {irq : Nat} {value : Bool}

theorem Follows.update (follows : c.Follows level)
    (stays : level irq = value ∨ c.enable irq = false) :
    c.Follows (Function.update level irq value) := by
  intro other
  by_cases same : other = irq
  · subst same
    rw [update_self]
    rcases stays with rfl | off
    · exact follows other
    · obtain ⟨isOn, isPending, -⟩ := follows other
      rw [off] at isOn ⊢
      exact ⟨fun live => absurd (isOn live).1 (by decide), isPending,
        fun _ live => absurd live (by decide)⟩
  · rw [update_of_ne same]
    exact follows other

theorem Follows.setLine (follows : c.Follows level) (live : c.enable irq = true)
    (prio : BitVec 32) : (c.setLine irq value prio).Follows (Function.update level irq value) := by
  intro other
  have old := follows other
  by_cases same : other = irq
  · subst same
    cases value <;> simp [PlicContext.setLine, live]
  · cases value <;> simpa [PlicContext.setLine, update_of_ne same] using old

theorem Follows.enableWrite (follows : c.Follows level) (priority : Nat → BitVec 32) (word : Nat)
    (mask src : BitVec 32) : (c.enableWrite level priority word mask src).Follows level := by
  intro irq
  obtain ⟨isOn, isPending, isHigh⟩ := follows irq
  simp only [PlicContext.enableWrite]
  generalize (if irq / 32 = word then _ else c.enable irq : Bool) = new
  cases new <;> cases live : c.enable irq <;> simp_all

theorem bestPendingIrq_pending (c : PlicContext) (numIrq : Nat) :
    c.bestPendingIrq numIrq = 0 ∨ c.pending (c.bestPendingIrq numIrq) = true := by
  unfold bestPendingIrq
  generalize (List.range numIrq) = irqs
  refine List.foldlRecOn irqs _
    (motive := fun best : Nat × BitVec 32 => best.1 = 0 ∨ c.pending best.1 = true) (.inl rfl)
    fun best old irq _ => ?_
  split
  · exact old
  · next isPending =>
    split
    · exact .inr (by simp_all)
    · exact old

theorem Follows.irqClaim (follows : c.Follows level) (numIrq : Nat) :
    (c.irqClaim numIrq).Follows level := by
  simp only [PlicContext.irqClaim]
  split
  · next best =>
    intro irq
    obtain ⟨isOn, isPending, isHigh⟩ := follows irq
    refine ⟨isOn, ?_, isHigh⟩
    by_cases same : irq = c.bestPendingIrq numIrq
    · intro _
      rw [same]
      exact (bestPendingIrq_pending c numIrq).resolve_left best
    · simpa [update_of_ne same] using isPending
  · exact follows

end PlicContext

variable {contexts : List PlicContext}

theorem markFirst_follows {level : Nat → Bool} {irq : Nat} {value : Bool} (prio : BitVec 32)
    (follow : ∀ c ∈ contexts, c.Follows level)
    (single : level irq = value ∨ contexts.countP (·.enable irq) ≤ 1) :
    ∀ c ∈ markFirst irq value prio contexts, c.Follows (Function.update level irq value) := by
  induction contexts with
  | nil => simp [markFirst]
  | cons c contexts ih =>
    rw [forall_mem_cons] at follow
    simp only [markFirst]
    split
    · next live =>
      refine forall_mem_cons.mpr ⟨follow.1.setLine live prio, fun other later => ?_⟩
      refine (follow.2 other later).update (single.imp_right fun few => ?_)
      simp only [countP_cons, live, if_true] at few
      have none : contexts.countP (·.enable irq) = 0 := by omega
      simpa using countP_eq_zero.mp none other later
    · next off =>
      simp only [countP_cons, off] at single
      exact forall_mem_cons.mpr
        ⟨follow.1.update (.inr (Bool.eq_false_iff.mpr off)), ih follow.2 single⟩

theorem forall_mem_modify {P : PlicContext → Prop}
    {f : PlicContext → PlicContext} (all : ∀ c ∈ contexts, P c) (kept : ∀ c, P c → P (f c))
    (k : Nat) : ∀ c ∈ contexts.modify k f, P c := by
  intro c mem
  obtain ⟨i, below, rfl⟩ := mem_iff_getElem.mp mem
  rw [getElem_modify]
  split
  · exact kept _ (all _ (getElem_mem _))
  · exact all _ (getElem_mem _)

def oneIrq : PlicConfig := ⟨0, 2, 15⟩

/-- Source 1 is enabled in all contexts, and its line is low. -/
def enabledPlic (count : Nat) : Plic :=
  ⟨fun _ => 0, fun _ => false, List.replicate count
    (PlicContext.reset.enableWrite (fun _ => false) (fun _ => 0) 0 0 2)⟩

theorem reachable_enabledPlic : (plicSystem oneIrq).Reachable (enabledPlic 2) := by
  have start : (plicSystem oneIrq).Reachable ⟨fun _ => 0, fun _ => false, [.reset, .reset]⟩ :=
    .start ⟨rfl, rfl, by simp⟩
  exact (start.step (.write 0x2000 0 2) rfl).step (.write 0x2080 0 2) rfl

/-! ## Reset -/

/-- A round of `plic_emulator_reset`, whose inner loops use the number of the context as index. -/
def PlicContext.resetAt (c : PlicContext) (i : Nat) : PlicContext where
  threshold := 0
  enable irq := irq / 32 != i && c.enable irq
  pending irq := irq / 32 != i && c.pending irq
  pendingPriority := update c.pendingPriority i 0
  claimed irq := irq / 32 != i && c.claimed irq

/-- `plic_emulator_reset`. The bits of a context are 32 words. -/
def Plic.emulatorReset (s : Plic) : Option Plic :=
  if 32 < s.contexts.length then none
  else some ⟨fun _ => 0, fun _ => false, s.contexts.mapIdx fun i c => c.resetAt i⟩

/-- The context is blank apart from the word and the priority of that number. -/
def PlicContext.OnlyAt (c : PlicContext) (i : Nat) : Prop :=
  ∀ irq, (irq / 32 ≠ i → (c.enable irq || c.pending irq || c.claimed irq) = false) ∧
    (irq ≠ i → c.pendingPriority irq = 0)

theorem PlicContext.resetAt_eq_reset_iff {c : PlicContext} {i : Nat} :
    c.resetAt i = reset ↔ c.OnlyAt i := by
  simp only [resetAt, reset, OnlyAt, mk.injEq, funext_iff, update_apply]
  constructor <;> intro blank
  · grind
  · grind

/-- A reset stays inside the arrays and restores the initial state exactly if there are few contexts
and each is blank where its round does not look. -/
theorem emulatorReset_restores_iff (config : PlicConfig) (s : Plic) :
    (∃ s', s.emulatorReset = some s' ∧ (plicSystem config).init s' ∧
      s'.contexts.length = s.contexts.length) ↔
    s.contexts.length ≤ 32 ∧ ∀ i (below : i < s.contexts.length), s.contexts[i].OnlyAt i := by
  unfold Plic.emulatorReset
  split
  · next many => simp [Nat.not_le.mpr many]
  · next few =>
    simp only [Option.some.injEq, exists_eq_left', plicSystem, length_mapIdx, and_true,
      true_and, mem_mapIdx, forall_exists_index, ← PlicContext.resetAt_eq_reset_iff]
    refine ⟨fun blank => ⟨Nat.not_lt.mp few, fun i below => blank _ i below rfl⟩, ?_⟩
    rintro ⟨-, blank⟩ _ i below rfl
    exact blank i below

theorem emulatorReset_keeps : ∃ s, (plicSystem oneIrq).Reachable s ∧ ∃ s',
    s.emulatorReset = some s' ∧ ∃ c ∈ s'.contexts, c.enable 1 = true :=
  ⟨_, reachable_enabledPlic, _, rfl, _, mem_of_getElem? (i := 1) rfl, rfl⟩

end Xvisor.Devemu
