import Mathlib.Data.List.Pairwise
import Xvisor.Lib.System
import Xvisor.Lib.Word

/-!
# Timecounters

Every CPU converts the cycles of one clocksource to nanoseconds in its own
timecounter. A read converts the cycles since the last read, so what is cut off
in one conversion is lost.
-/

namespace Xvisor.Timer

open Function List Lib Word Nat

structure Clocksource where
  bits : Nat
  mask : Nat
  mult : Nat
  shift : Nat
  bits_le : bits ≤ 64
  mask_lt : mask < 2 ^ bits
  mult_lt : mult < 2 ^ 32

theorem Clocksource.fullBits_le : 64 ≤ 64 := le_refl 64

theorem Clocksource.fullMask_lt : 2 ^ 64 - 1 < 2 ^ 64 := by decide

def hz2mult (hz shift : Nat) : Nat :=
  toU32 (add (1000000000 * 2 ^ shift % 2 ^ 64) (hz / 2) / hz)

def delta2nsecs (cycles mult shift : Nat) : Nat := cycles * mult % 2 ^ 64 / 2 ^ shift

structure Timecounter where
  cyclesLast : Nat
  nsec : Nat
  deriving DecidableEq, Repr

namespace Clocksource

variable (cs : Clocksource)

def read (cycles : Nat) : Nat := cycles % 2 ^ cs.bits

def nsecs (cycles : Nat) : Nat := delta2nsecs (cycles &&& cs.mask) cs.mult cs.shift

end Clocksource

namespace Timecounter

def init (cs : Clocksource) (cycles startNsec : Nat) : Timecounter := ⟨cs.read cycles, startNsec⟩

def read (cs : Clocksource) (tc : Timecounter) (cycles : Nat) : Timecounter :=
  let cyclesNow := cs.read cycles
  let cyclesDelta := sub cyclesNow tc.cyclesLast &&& cs.mask
  ⟨cyclesNow, add tc.nsec (delta2nsecs cyclesDelta cs.mult cs.shift)⟩

end Timecounter

/-! ## Schedules of reads -/

structure Observed where
  tc : Timecounter
  seen : Nat

namespace Observed

/-- The counter has advanced by at most the mask, and the product does not overflow. -/
def Readable (cs : Clocksource) (counter : Observed) (now : Nat) : Prop :=
  now - counter.seen ≤ cs.mask ∧ (now - counter.seen &&& cs.mask) * cs.mult < 2 ^ 64

instance (cs : Clocksource) (counter : Observed) (now : Nat) :
    Decidable (counter.Readable cs now) :=
  inferInstanceAs (Decidable (_ ∧ _))

def read (cs : Clocksource) (counter : Observed) (now : Nat) : Observed :=
  ⟨counter.tc.read cs now, now⟩

end Observed

/-- The cycles that have passed, the reference timecounter and those of the CPUs. -/
structure TimeState where
  cycles : Nat
  ref : Observed
  cpus : Nat → Option Observed

inductive TimeStep where
  | advance (cycles : Nat)
  | readRef
  | read (cpu : Nat)
  | startup (cpu gap : Nat)

variable (cs : Clocksource)

def timeSystem : System TimeState TimeStep where
  init s := s.ref = ⟨.init cs s.cycles 0, s.cycles⟩ ∧ s.cpus = fun _ => none
  step s label s' :=
    match label with
    | .advance cycles => s' = { s with cycles := s.cycles + cycles }
    | .readRef => s.ref.Readable cs s.cycles ∧ s' = { s with ref := s.ref.read cs s.cycles }
    | .read cpu => ∃ counter, s.cpus cpu = some counter ∧ counter.Readable cs s.cycles ∧
        s' = { s with cpus := update s.cpus cpu (some (counter.read cs s.cycles)) }
    | .startup cpu gap => s.ref.Readable cs s.cycles ∧
        s' =
          { cycles := s.cycles + gap
            ref := s.ref.read cs s.cycles
            cpus := update s.cpus cpu (some
              ⟨.init cs (s.cycles + gap) (s.ref.read cs s.cycles).tc.nsec, s.cycles + gap⟩) }

/-- No cycle passes between the two reads of `timer_startup`. -/
def TimeStep.noGap : TimeStep → Prop
  | .startup _ gap => gap = 0
  | _ => True

namespace TimeState

def Has (s : TimeState) (counter : Observed) : Prop :=
  counter = s.ref ∨ ∃ cpu, s.cpus cpu = some counter

def Agree (s : TimeState) : Prop :=
  ∀ a b, s.Has a → s.Has b → a.Readable cs s.cycles → b.Readable cs s.cycles →
    (a.read cs s.cycles).tc.nsec = (b.read cs s.cycles).tc.nsec

end TimeState

/-! ## Conversion -/

def Clocksource.Linear : Prop :=
  ∀ cycles ≤ cs.mask, (cycles &&& cs.mask) * cs.mult < 2 ^ 64 →
    cs.nsecs cycles = cycles * cs.nsecs 1 % 2 ^ 64

variable {cs : Clocksource}

theorem and_mask_mod (cs : Clocksource) (x : Nat) :
    x % 2 ^ cs.bits &&& cs.mask = x &&& cs.mask := by
  have whole : (2 ^ cs.bits - 1) &&& cs.mask = cs.mask := by
    rw [Nat.and_comm, Nat.and_two_pow_sub_one_eq_mod, Nat.mod_eq_of_lt cs.mask_lt]
  rw [← Nat.and_two_pow_sub_one_eq_mod, Nat.and_assoc, whole]

variable {now base : Nat}

/-- The counter may wrap around between two reads. -/
theorem masked_delta (cs : Clocksource) {last : Nat} (order : last ≤ now) :
    sub (cs.read now) (cs.read last) &&& cs.mask = now - last &&& cs.mask := by
  have sameClass : sub (cs.read now) (cs.read last) ≡ now - last [MOD 2 ^ cs.bits] := by
    obtain ⟨turns, isTurns⟩ : 2 ^ cs.bits ∣ 2 ^ 64 := pow_dvd_pow 2 cs.bits_le
    have small : cs.read last < 2 ^ 64 :=
      (mod_lt _ (Nat.two_pow_pos _)).trans_le (Nat.pow_le_pow_right (by omega) cs.bits_le)
    have shifted : cs.read now + (2 ^ 64 - cs.read last) + last =
        cs.read now + 2 ^ cs.bits * (turns + last / 2 ^ cs.bits) := by
      have parts := div_add_mod last (2 ^ cs.bits)
      rw [mul_add, ← isTurns]
      simp only [Clocksource.read] at small parts ⊢
      omega
    have unwrapped : sub (cs.read now) (cs.read last) ≡
        cs.read now + (2 ^ 64 - cs.read last) [MOD 2 ^ cs.bits] := by
      rw [sub, mod_eq_of_lt small]
      exact mod_mod_of_dvd _ (pow_dvd_pow 2 cs.bits_le)
    apply unwrapped.trans
    apply Nat.ModEq.add_right_cancel' last
    rw [shifted, Nat.sub_add_cancel order]
    calc cs.read now + 2 ^ cs.bits * (turns + last / 2 ^ cs.bits)
        ≡ cs.read now [MOD 2 ^ cs.bits] := add_mul_mod_self_left _ _ _
      _ ≡ now [MOD 2 ^ cs.bits] := mod_mod _ _
  rw [← and_mask_mod, sameClass, and_mask_mod]

variable {counter : Observed}

theorem read_nsec (order : counter.seen ≤ now)
    (last : counter.tc.cyclesLast = cs.read counter.seen) :
    (counter.read cs now).tc.nsec = add counter.tc.nsec (cs.nsecs (now - counter.seen)) := by
  simp only [Observed.read, Timecounter.read, last, masked_delta cs order]
  rfl

/-! ## Linear conversions agree -/

/-- The timestamp of every timecounter is the number of cycles since the start, converted
linearly. -/
structure Elapsed (cs : Clocksource) (base now : Nat) (counter : Observed) : Prop where
  started : base ≤ counter.seen
  past : counter.seen ≤ now
  last : counter.tc.cyclesLast = cs.read counter.seen
  nsec : counter.tc.nsec = (counter.seen - base) * cs.nsecs 1 % 2 ^ 64

theorem Elapsed.read_nsec_eq (linear : cs.Linear) (elapsed : Elapsed cs base now counter)
    (readable : counter.Readable cs now) :
    (counter.read cs now).tc.nsec = (now - base) * cs.nsecs 1 % 2 ^ 64 := by
  have started := elapsed.started
  have past := elapsed.past
  have whole : (counter.seen - base) + (now - counter.seen) = now - base := by omega
  rw [read_nsec past elapsed.last, elapsed.nsec, linear _ readable.1 readable.2, add,
    ← add_mod, ← add_mul, whole]

theorem Elapsed.read (linear : cs.Linear) (elapsed : Elapsed cs base now counter)
    (readable : counter.Readable cs now) : Elapsed cs base now (counter.read cs now) where
  started := elapsed.started.trans elapsed.past
  past := le_refl now
  last := rfl
  nsec := elapsed.read_nsec_eq linear readable

theorem Elapsed.later (elapsed : Elapsed cs base now counter)
    (cycles : Nat) : Elapsed cs base (now + cycles) counter :=
  ⟨elapsed.started, elapsed.past.trans (le_add_right _ _), elapsed.last, elapsed.nsec⟩

theorem has_update {s : TimeState} {cpu : Nat} {new : Observed} {cycles : Nat} {ref : Observed}
    (has : (TimeState.mk cycles ref (update s.cpus cpu (some new))).Has counter) :
    counter = ref ∨ counter = new ∨ s.Has counter := by
  rcases has with isRef | ⟨other, isCounter⟩
  · exact .inl isRef
  · by_cases same : other = cpu
    · subst same
      dsimp only at isCounter
      rw [update_self] at isCounter
      cases isCounter
      exact .inr (.inl rfl)
    · dsimp only at isCounter
      rw [update_of_ne same] at isCounter
      exact .inr (.inr (.inr ⟨other, isCounter⟩))

theorem timeSystem_elapsed (linear : cs.Linear) {s : TimeState}
    (reached : ((timeSystem cs).restrict fun _ label => label.noGap).Reachable s) :
    ∃ base, ∀ counter, s.Has counter → Elapsed cs base s.cycles counter := by
  apply reached.invariant fun s => ∃ base, ∀ counter, s.Has counter →
    Elapsed cs base s.cycles counter
  · rintro s ⟨isRef, noCpus⟩
    refine ⟨s.cycles, ?_⟩
    rintro counter (rfl | ⟨cpu, isCounter⟩)
    · rw [isRef]
      exact ⟨le_refl _, le_refl _, rfl, by simp [Timecounter.init]⟩
    · rw [noCpus] at isCounter
      cases isCounter
  · rintro s label s' ⟨base, elapsed⟩ ⟨noGap, taken⟩
    refine ⟨base, ?_⟩
    cases label with
    | advance cycles =>
      cases taken
      intro counter has
      exact (elapsed counter has).later cycles
    | readRef =>
      obtain ⟨readable, rfl⟩ := taken
      rintro counter (rfl | isCpu)
      · exact (elapsed s.ref (.inl rfl)).read linear readable
      · exact elapsed counter (.inr isCpu)
    | read cpu =>
      obtain ⟨old, isOld, readable, rfl⟩ := taken
      intro counter has
      rcases has_update has with rfl | rfl | before
      · exact elapsed s.ref (.inl rfl)
      · exact (elapsed old (.inr ⟨cpu, isOld⟩)).read linear readable
      · exact elapsed counter before
    | startup cpu gap =>
      obtain ⟨readable, rfl⟩ := taken
      cases noGap
      have fresh := (elapsed s.ref (.inl rfl)).read linear readable
      intro counter has
      rcases has_update has with rfl | rfl | before
      · exact fresh
      · exact ⟨fresh.started, le_refl _, rfl, fresh.nsec⟩
      · exact elapsed counter before

/-! ## Other conversions do not -/

theorem Clocksource.nsecs_zero (cs : Clocksource) : cs.nsecs 0 = 0 := by
  simp [nsecs, delta2nsecs]

theorem Clocksource.nsecs_lt (cs : Clocksource) (cycles : Nat) : cs.nsecs cycles < 2 ^ 64 :=
  (div_le_self _ _).trans_lt (mod_lt _ (by decide))

theorem Observed.readable_soon (soon : now - counter.seen ≤ 1)
    (inMask : now - counter.seen ≤ cs.mask) : counter.Readable cs now := by
  refine ⟨inMask, ?_⟩
  have small : (now - counter.seen &&& cs.mask) ≤ 1 := Nat.and_le_left.trans soon
  calc (now - counter.seen &&& cs.mask) * cs.mult
      ≤ 1 * cs.mult := mul_le_mul_right _ small
    _ = cs.mult := one_mul _
    _ < 2 ^ 64 := cs.mult_lt.trans (by decide)

theorem unequal_reads (cs : Clocksource) (pos : 0 < cs.mask) (n : Nat) :
    ∃ s often, ((timeSystem cs).restrict fun _ label => label.noGap).Reachable s ∧
      s.cycles = n ∧ s.cpus 0 = some often ∧ often.seen = n ∧
      often.tc.cyclesLast = cs.read n ∧ often.tc.nsec = n * cs.nsecs 1 % 2 ^ 64 ∧
      s.cpus 1 = some ⟨.init cs 0 0, 0⟩ := by
  induction n with
  | zero =>
    let ref : Observed := ⟨.init cs 0 0, 0⟩
    have again : ref.read cs 0 = ref := by
      have same : (ref.read cs 0).tc.nsec = 0 := by
        rw [read_nsec (le_refl 0) rfl, Nat.sub_zero, cs.nsecs_zero]
        rfl
      exact congrArg (fun nsec => (⟨⟨cs.read 0, nsec⟩, 0⟩ : Observed)) same
    have readable : ref.Readable cs 0 := Observed.readable_soon (by simp) (by simp)
    have started : ((timeSystem cs).restrict fun _ label => label.noGap).Reachable
        ⟨0, ref, fun _ => none⟩ := .start ⟨rfl, rfl⟩
    have first := started.step (.startup 0 0) ⟨rfl, readable, rfl⟩
    have second := first.step (.startup 1 0) ⟨rfl, by rw [again]; exact readable, rfl⟩
    refine ⟨_, ref, second, rfl, ?_, rfl, rfl, by simp [ref, Timecounter.init], ?_⟩
    · simp only [again]
      rfl
    · simp only [again]
      rfl
  | succ n ih =>
    obtain ⟨s, often, reached, rfl, isOften, seen, last, nsec, isSeldom⟩ := ih
    have later := reached.step (.advance 1) ⟨trivial, rfl⟩
    have readable : often.Readable cs (s.cycles + 1) :=
      Observed.readable_soon (by omega) (by omega)
    have again := later.step (.read 0) ⟨trivial, often, isOften, readable, rfl⟩
    refine ⟨_, often.read cs (s.cycles + 1), again, rfl, ?_, rfl, rfl, ?_, ?_⟩
    · exact update_self 0 _ s.cpus
    · rw [read_nsec (by omega) (by rw [last, seen]), nsec, seen, Nat.add_sub_cancel_left,
        add, mod_add_mod, add_mul, one_mul]
    · dsimp only
      rw [update_of_ne (by decide), isSeldom]

/-- In all runs in which no cycle passes between the two reads of `timer_startup`, timestamps
agree across CPUs exactly if the conversion is linear. -/
theorem timestamps_agree_iff (cs : Clocksource) :
    (∀ s, ((timeSystem cs).restrict fun _ label => label.noGap).Reachable s → s.Agree cs) ↔
      cs.Linear := by
  constructor
  · intro agree cycles inRange noOverflow
    rcases Nat.eq_zero_or_pos cycles with rfl | positive
    · simp [cs.nsecs_zero]
    · obtain ⟨s, often, reached, isNow, isOften, seen, last, nsec, isSeldom⟩ :=
        unequal_reads cs (by omega) cycles
      have oftenReadable : often.Readable cs s.cycles :=
        Observed.readable_soon (by omega) (by omega)
      have seldomReadable : (⟨.init cs 0 0, 0⟩ : Observed).Readable cs s.cycles := by
        rw [isNow]
        exact ⟨inRange, noOverflow⟩
      have same := agree s reached often _ (.inr ⟨0, isOften⟩) (.inr ⟨1, isSeldom⟩)
        oftenReadable seldomReadable
      rw [read_nsec (by omega) (by rw [last, seen]), read_nsec (Nat.zero_le _) rfl, nsec, seen,
        isNow, Nat.sub_self, cs.nsecs_zero] at same
      simp only [add, Timecounter.init, Nat.add_zero, Nat.zero_add, Nat.mod_mod,
        Nat.sub_zero, Nat.mod_eq_of_lt (cs.nsecs_lt cycles)] at same
      exact same.symm
  · intro linear s reached a b hasA hasB readableA readableB
    obtain ⟨base, elapsed⟩ := timeSystem_elapsed linear reached
    rw [(elapsed a hasA).read_nsec_eq linear readableA,
      (elapsed b hasB).read_nsec_eq linear readableB]

def sun4i : Clocksource where
  bits := 64
  mask := 2 ^ 64 - 1
  mult := hz2mult 24000000 10
  shift := 10
  bits_le := Clocksource.fullBits_le
  mask_lt := Clocksource.fullMask_lt
  mult_lt := by decide

/-- Three cycles are 125 ns. A CPU that was read after each of them shows 123 ns. -/
theorem timestamps_differ :
    ∃ s often seldom, ((timeSystem sun4i).restrict fun _ label => label.noGap).Reachable s ∧
      s.cpus 0 = some often ∧ s.cpus 1 = some seldom ∧
      often.Readable sun4i s.cycles ∧ seldom.Readable sun4i s.cycles ∧
      (often.read sun4i s.cycles).tc.nsec = 123 ∧ (seldom.read sun4i s.cycles).tc.nsec = 125 := by
  obtain ⟨s, often, reached, isNow, isOften, seen, last, nsec, isSeldom⟩ :=
    unequal_reads sun4i (by decide) 3
  have oftenReadable : often.Readable sun4i s.cycles :=
    Observed.readable_soon (by omega) (by omega)
  refine ⟨s, often, _, reached, isOften, isSeldom, oftenReadable, ?_, ?_, ?_⟩
  · rw [isNow]
    decide
  · rw [read_nsec (by omega) (by rw [last, seen]), nsec, seen, isNow]
    decide
  · rw [isNow]
    decide

/-! ## Many reads

A read cuts off less than a nanosecond, so a timecounter that was read `n` times
is at most `n` nanoseconds behind. The nanoseconds are kept in 64 bits. -/

namespace Clocksource

variable (cs : Clocksource)

/-- Reads at these cycles, none of which comes too late for the counter or the product. -/
def Paced (seen : Nat) : List Nat → Prop
  | [] => True
  | now :: later =>
    seen ≤ now ∧ now - seen ≤ cs.mask ∧ (now - seen) * cs.mult < 2 ^ 64 ∧ Paced now later

/-- The nanoseconds of the intervals between the reads, each one rounded down. -/
def elapsed (seen : Nat) : List Nat → Nat
  | [] => 0
  | now :: later => (now - seen) * cs.mult / 2 ^ cs.shift + elapsed now later

/-- The nanoseconds of all cycles since the start, rounded down once. -/
def exactNsec (start startNsec now : Nat) : Nat :=
  startNsec + (now - start) * cs.mult / 2 ^ cs.shift

end Clocksource

def Timecounter.reads (cs : Clocksource) (tc : Timecounter) : List Nat → List Nat
  | [] => []
  | now :: later => (tc.read cs now).nsec :: (tc.read cs now).reads cs later

/-- Every timestamp is at most as many nanoseconds behind as there were reads, counted from
`done`. -/
def Behind (cs : Clocksource) (start startNsec done : Nat) (readings timestamps : List Nat) :
    Prop :=
  ∀ (n now nsec : Nat), readings[n]? = some now → timestamps[n]? = some nsec →
    nsec ≤ cs.exactNsec start startNsec now ∧
      cs.exactNsec start startNsec now ≤ nsec + (done + n + 1)

/-- The timestamps of a timecounter never go back, and the `n`-th is at most `n` nanoseconds
behind the cycles. -/
structure KeepsTime (cs : Clocksource) (start startNsec : Nat) (readings : List Nat) : Prop where
  monotone : ((Timecounter.init cs start startNsec).reads cs readings).Pairwise (· ≤ ·)
  behind : Behind cs start startNsec 0 readings
    ((Timecounter.init cs start startNsec).reads cs readings)

section Reads

variable {cs : Clocksource} {k start startNsec seen now : Nat} {readings : List Nat}

variable (tc : Timecounter)

theorem Timecounter.read_nsec_of_paced (isMask : cs.mask = 2 ^ k - 1)
    (last : tc.cyclesLast = cs.read seen) (order : seen ≤ now) (inMask : now - seen ≤ cs.mask)
    (noOverflow : (now - seen) * cs.mult < 2 ^ 64) :
    (tc.read cs now).nsec =
      add tc.nsec ((now - seen) * cs.mult / 2 ^ cs.shift) := by
  have unmasked : now - seen &&& cs.mask = now - seen := by
    rw [isMask, and_two_pow_sub_one_eq_mod]
    apply mod_eq_of_lt
    have := Nat.two_pow_pos k
    omega
  have added : (tc.read cs now).nsec = add tc.nsec (cs.nsecs (now - seen)) :=
    Timer.read_nsec (show (⟨tc, seen⟩ : Observed).seen ≤ now from order) last
  rw [added, Clocksource.nsecs, unmasked, delta2nsecs, mod_eq_of_lt noOverflow]

theorem exactNsec_step (cs : Clocksource) (startNsec : Nat) (started : start ≤ seen)
    (order : seen ≤ now) :
    cs.exactNsec start startNsec seen + (now - seen) * cs.mult / 2 ^ cs.shift ≤
        cs.exactNsec start startNsec now ∧
      cs.exactNsec start startNsec now ≤
        cs.exactNsec start startNsec seen + (now - seen) * cs.mult / 2 ^ cs.shift + 1 := by
  have parts : (now - start) * cs.mult = (seen - start) * cs.mult + (now - seen) * cs.mult := by
    rw [← add_mul]
    congr 1
    omega
  unfold Clocksource.exactNsec
  rw [parts, Nat.add_div (Nat.two_pow_pos cs.shift)]
  split <;> omega

theorem reads_of_fits (done : Nat) (isMask : cs.mask = 2 ^ k - 1)
    (paced : cs.Paced seen readings) (last : tc.cyclesLast = cs.read seen) (started : start ≤ seen)
    (notAhead : tc.nsec ≤ cs.exactNsec start startNsec seen)
    (close : cs.exactNsec start startNsec seen ≤ tc.nsec + done)
    (fits : tc.nsec + cs.elapsed seen readings < 2 ^ 64) :
    (tc.nsec :: tc.reads cs readings).Pairwise (· ≤ ·) ∧
      Behind cs start startNsec done readings (tc.reads cs readings) := by
  induction readings generalizing seen tc done with
  | nil =>
    refine ⟨pairwise_singleton _ _, ?_⟩
    intro n now nsec isNow
    cases isNow
  | cons now later ih =>
    obtain ⟨order, inMask, noOverflow, pacedLater⟩ := paced
    simp only [Clocksource.elapsed] at fits
    have step := exactNsec_step cs startNsec started order
    have added := tc.read_nsec_of_paced isMask last order inMask noOverflow
    rw [add_of_lt (by omega)] at added
    obtain ⟨sorted, behind⟩ := ih (tc.read cs now) (done + 1)
      pacedLater rfl (started.trans order) (by omega) (by omega) (by omega)
    constructor
    · exact pairwise_cons_cons_iff_of_trans.mpr ⟨added ▸ le_add_right _ _, sorted⟩
    · intro n moment nsec isNow isNsec
      cases n with
      | zero =>
        cases isNow
        cases isNsec
        omega
      | succ n =>
        have rest := behind n moment nsec isNow isNsec
        omega

theorem fits_of_sorted (isMask : cs.mask = 2 ^ k - 1)
    (paced : cs.Paced seen readings) (last : tc.cyclesLast = cs.read seen)
    (isNsec : tc.nsec < 2 ^ 64)
    (sorted : (tc.nsec :: tc.reads cs readings).Pairwise (· ≤ ·)) :
    tc.nsec + cs.elapsed seen readings < 2 ^ 64 := by
  induction readings generalizing seen tc with
  | nil => exact isNsec
  | cons now later ih =>
    obtain ⟨order, inMask, noOverflow, pacedLater⟩ := paced
    have added := tc.read_nsec_of_paced isMask last order inMask noOverflow
    have small : (now - seen) * cs.mult / 2 ^ cs.shift < 2 ^ 64 :=
      (div_le_self _ _).trans_lt noOverflow
    have notBack : tc.nsec ≤ (tc.read cs now).nsec :=
      rel_of_pairwise_cons sorted mem_cons_self
    have unwrapped : (tc.read cs now).nsec =
        tc.nsec + (now - seen) * cs.mult / 2 ^ cs.shift := by
      unfold add at added
      generalize (now - seen) * cs.mult / 2 ^ cs.shift = nsecs at small added ⊢
      omega
    have fits := ih (tc.read cs now) pacedLater rfl
      (by rw [added]; exact add_lt _ _) (pairwise_cons.mp sorted).2
    simp only [Clocksource.elapsed]
    omega

end Reads

/-- A timecounter keeps time exactly as long as its nanoseconds fit into 64 bits. -/
theorem timecounter_keepsTime_iff (cs : Clocksource) {k start startNsec : Nat}
    {readings : List Nat} (isMask : cs.mask = 2 ^ k - 1) (isNsec : startNsec < 2 ^ 64)
    (paced : cs.Paced start readings) :
    KeepsTime cs start startNsec readings ↔
      startNsec + cs.elapsed start readings < 2 ^ 64 := by
  constructor
  · intro keeps
    apply fits_of_sorted (.init cs start startNsec) isMask paced rfl isNsec
    -- the first timestamp is compared with the start by the bound on its error
    cases readings with
    | nil => exact pairwise_singleton _ _
    | cons now later =>
      obtain ⟨order, inMask, noOverflow, _⟩ := paced
      have first := (keeps.behind 0 now _ rfl rfl).2
      have added := (Timecounter.init cs start startNsec).read_nsec_of_paced isMask rfl order
        inMask noOverflow
      have notBack : startNsec ≤ ((Timecounter.init cs start startNsec).read cs now).nsec := by
        rw [added] at first ⊢
        simp only [Timecounter.init, add, Clocksource.exactNsec] at first ⊢
        generalize (now - start) * cs.mult / 2 ^ cs.shift = nsecs at first ⊢
        omega
      exact pairwise_cons_cons_iff_of_trans.mpr ⟨notBack, keeps.monotone⟩
  · intro fits
    have atStart : cs.exactNsec start startNsec start = startNsec := by
      simp [Clocksource.exactNsec]
    obtain ⟨sorted, behind⟩ := reads_of_fits (.init cs start startNsec) 0 isMask paced rfl
      (le_refl start) atStart.ge atStart.le fits
    exact ⟨(pairwise_cons.mp sorted).2, behind⟩

theorem Clocksource.halfBits_le : 32 ≤ 64 := by decide

theorem Clocksource.halfMask_lt : 2 ^ 32 - 1 < 2 ^ 32 := by decide

/-- The same timer with a counter of 32 bits. -/
def sun4iHalf : Clocksource where
  bits := 32
  mask := 2 ^ 32 - 1
  mult := sun4i.mult
  shift := 10
  bits_le := Clocksource.halfBits_le
  mask_lt := Clocksource.halfMask_lt
  mult_lt := sun4i.mult_lt

/-- The counter wraps around between the two reads. -/
theorem timecounter_keepsTime_wrapping :
    sun4iHalf.Paced 4294967290 [4294967293, 4294967299] ∧
      KeepsTime sun4iHalf 4294967290 7 [4294967293, 4294967299] := by
  have paced : sun4iHalf.Paced 4294967290 [4294967293, 4294967299] := by
    simp [Clocksource.Paced, sun4iHalf, sun4i, hz2mult, toU32, add]
  exact ⟨paced, (timecounter_keepsTime_iff sun4iHalf (k := 32) rfl (by decide) paced).mpr
    (by decide)⟩

/-- A cycle takes 41 nanoseconds, and the second read wraps around. -/
theorem timecounter_goes_back :
    sun4iHalf.Paced 0 [1, 2] ∧
      (Timecounter.init sun4iHalf 0 (2 ^ 64 - 50)).reads sun4iHalf [1, 2] = [2 ^ 64 - 9, 32] ∧
      ¬ KeepsTime sun4iHalf 0 (2 ^ 64 - 50) [1, 2] := by
  have timestamps : (Timecounter.init sun4iHalf 0 (2 ^ 64 - 50)).reads sun4iHalf [1, 2] =
      [2 ^ 64 - 9, 32] := by decide
  refine ⟨?_, timestamps, ?_⟩
  · simp [Clocksource.Paced, sun4iHalf, sun4i, hz2mult, toU32, add]
  · intro keeps
    have sorted := keeps.monotone
    rw [timestamps] at sorted
    exact absurd sorted (by decide)

end Xvisor.Timer
