import Xvisor.Timer.Events
import Xvisor.Timer.Timecounter

/-!
# The timer of a RISC-V guest

Without Sstc, the timer comparator of a guest is a timer event of the host.
`cpu_vcpu_timer_start` converts the distance to the clocksource counter to
nanoseconds; the handler raises the interrupt without looking at the time.
-/

namespace Xvisor.Timer

open Lib Word Nat

universe u v

/-! ## The clocksource -/

/-- The first loop of `vmm_clocks_calc_mult_shift`; a value of 64 bits is shifted out within 64
turns. -/
def limitShift : Nat → Nat → Nat → Nat
  | 0, _, sftacc => sftacc
  | turns + 1, tmp, sftacc => if tmp = 0 then sftacc else limitShift turns (tmp / 2) (sftacc - 1)

/-- The second loop of `vmm_clocks_calc_mult_shift`, from a shift downwards: the multiplier and the
shift. -/
def findMultShift (fromHz toHz sftacc : Nat) : Nat → Nat → Nat × Nat
  | 0, tmp => (tmp, 0)
  | sft + 1, _ =>
    let tmp := add (toHz * 2 ^ (sft + 1) % 2 ^ 64) (fromHz / 2) / fromHz
    if tmp / 2 ^ sftacc = 0 then (tmp, sft + 1) else findMultShift fromHz toHz sftacc sft tmp

def clocksCalcMultShift (fromHz toHz maxsec : Nat) : Nat × Nat :=
  let tmp := maxsec * fromHz / 2 ^ 32
  let found := findMultShift fromHz toHz (limitShift 64 tmp 32) 32 tmp
  (toU32 found.1, found.2)

/-- The clocksource that the `riscv-timer` driver registers for a timebase frequency. -/
def riscvTimer (hz : Nat) : Clocksource where
  bits := 64
  mask := 2 ^ 64 - 1
  mult := (clocksCalcMultShift hz 1000000000 10).1
  shift := (clocksCalcMultShift hz 1000000000 10).2
  bits_le := Clocksource.fullBits_le
  mask_lt := Clocksource.fullMask_lt
  mult_lt := Nat.mod_lt _ (by decide)

/-- `vmm_timer_delta_cycles_to_ns` where the clocksource reads `cyclesNow`. -/
def timerDeltaCyclesToNs (cs : Clocksource) (cyclesNow cycles : Nat) : Nat :=
  let cyclesDelta := if cycles > cyclesNow then (cycles - cyclesNow) &&& cs.mask else 0
  delta2nsecs cyclesDelta cs.mult cs.shift

/-! ## Starting the timer -/

structure TimerVcpu where
  sstc : Bool
  nestedVirt : Bool
  timeDelta : Nat
  htimedelta : Nat
  deriving DecidableEq, Repr

def cpuVcpuTimerDelta (vcpu : TimerVcpu) (nestedVirt : Bool) : Nat :=
  add vcpu.timeDelta (if nestedVirt then vcpu.htimedelta else 0)

/-- What `cpu_vcpu_timer_start` does with the comparator value. -/
inductive TimerProgram where
  | vstimecmp (nextCycle : Nat)
  | eventStop
  | eventStart (durationNsecs : Nat)
  deriving DecidableEq, Repr

/-- `cpu_vcpu_timer_start` where the clocksource reads `cyclesNow`. Nothing is the `BUG_ON` of a
VCPU that runs its own guest. -/
def cpuVcpuTimerStart (vcpu : TimerVcpu) (cs : Clocksource) (cyclesNow nextCycle : Nat) :
    Option TimerProgram :=
  if vcpu.nestedVirt then none
  else if vcpu.sstc then some (.vstimecmp nextCycle)
  else if nextCycle = 2 ^ 64 - 1 then some .eventStop
  else
    let nextCycle := sub nextCycle (cpuVcpuTimerDelta vcpu false)
    some (.eventStart (timerDeltaCyclesToNs cs cyclesNow nextCycle))

/-- The effect on the timer event `time_ev` of the VCPU, on the host CPU it runs on. -/
def TimerProgram.run {H : Type u} {E : Type v} [DecidableEq H] [DecidableEq E]
    (timers : Timers H E) (hcpu : H) (timeEv : E) : TimerProgram → Timers H E
  | .vstimecmp _ => timers
  | .eventStop => timers.eventStop timeEv
  | .eventStart durationNsecs => timers.eventStart hcpu timeEv durationNsecs

/-- A call of `cpu_vcpu_timer_start` for a VCPU without Sstc. The clocksource is read at cycle
`cycles` and, `gap` cycles later, the timecounter of the host CPU for the timestamp. -/
structure TimerCall (H : Type u) (E : Type v) where
  hz : Nat
  timeDelta : Nat
  nextCycle : Nat
  cycles : Nat
  gap : Nat
  counter : Observed
  timers : Timers H E
  hcpu : H
  timeEv : E
  timeDelta_lt : timeDelta < 2 ^ 64
  nextCycle_lt : nextCycle < 2 ^ 64
  nextCycle_ne : nextCycle ≠ 2 ^ 64 - 1
  counter_past : counter.seen ≤ cycles + gap
  counter_last : counter.tc.cyclesLast = (riscvTimer hz).read counter.seen
  timers_now : timers.now hcpu = (counter.read (riscvTimer hz) (cycles + gap)).tc.nsec

namespace TimerCall

variable {H : Type u} {E : Type v} (call : TimerCall H E)

def cs : Clocksource := riscvTimer call.hz

def cyclesNow : Nat := call.cs.read call.cycles

def guestTime : Nat := add call.cyclesNow call.timeDelta

/-- The cycles that pass until the time of the guest reaches the value it wrote. -/
def wait : Nat := call.nextCycle - call.guestTime

/-- The cycles by which the host counter is short of the value that stands for it. -/
def hostWait : Nat := sub call.nextCycle call.timeDelta - call.cyclesNow

/-- The timestamp when the event is started, and the timecounter after that read. -/
def tstamp : Nat := call.timers.now call.hcpu

def started : Observed := call.counter.read call.cs (call.cycles + call.gap)

def program : Option TimerProgram :=
  cpuVcpuTimerStart ⟨false, false, call.timeDelta, 0⟩ call.cs call.cyclesNow call.nextCycle

def result [DecidableEq H] [DecidableEq E] : Option (Timers H E) :=
  call.program.map (TimerProgram.run call.timers call.hcpu call.timeEv)

/-- The event does not expire before the guest's time reaches the value it wrote. The conversion
of cycles is monotone as far as it is used, and the expiry does not wrap. At any later read of
the timecounter that finds the event expired, less than one nanosecond is missing. -/
structure NotEarly (timers : Timers H E) : Prop where
  expiry : call.tstamp + call.wait * call.cs.mult / 2 ^ call.cs.shift ≤
    (timers.event call.timeEv).expiryTstamp
  noWrap : (timers.event call.timeEv).expiryTstamp =
    call.tstamp + (timers.event call.timeEv).durationNsecs
  monotone : ∀ first second, first ≤ second → second ≤ call.cyclesNow + call.hostWait →
    timerDeltaCyclesToNs call.cs call.cyclesNow first ≤
      timerDeltaCyclesToNs call.cs call.cyclesNow second
  moment : ∀ reads, ((call.cycles + call.gap) :: reads).Pairwise (· ≤ ·) →
    (timers.event call.timeEv).expiryTstamp ≤
      (reads.foldl (Observed.read call.cs) call.started).tc.nsec →
    call.wait * call.cs.mult <
      ((reads.foldl (Observed.read call.cs) call.started).seen - call.cycles) * call.cs.mult +
        2 ^ call.cs.shift

/-- The host counter stands before the value that the guest waits for whenever the guest does, and
neither the conversion of the distance nor the expiry overflows. -/
structure InRange : Prop where
  ahead : call.wait ≤ call.hostWait ∨ call.wait * call.cs.mult < 2 ^ call.cs.shift
  product : call.hostWait * call.cs.mult < 2 ^ 64
  sum : call.tstamp + call.hostWait * call.cs.mult / 2 ^ call.cs.shift < 2 ^ 64

end TimerCall

/-! ## The conversion of cycles -/

theorem findMultShift_shift_le (fromHz toHz sftacc sft tmp : Nat) :
    (findMultShift fromHz toHz sftacc sft tmp).2 ≤ sft := by
  induction sft generalizing tmp with
  | zero => exact le_rfl
  | succ sft ih =>
    unfold findMultShift
    dsimp only
    split
    · exact le_rfl
    · exact (ih _).trans (le_succ sft)

theorem riscvTimer_shift_le (hz : Nat) : (riscvTimer hz).shift ≤ 32 :=
  findMultShift_shift_le ..

theorem timerDeltaCyclesToNs_riscv (hz cyclesNow : Nat) {cycles : Nat} (word : cycles < 2 ^ 64) :
    timerDeltaCyclesToNs (riscvTimer hz) cyclesNow cycles =
      (cycles - cyclesNow) * (riscvTimer hz).mult % 2 ^ 64 / 2 ^ (riscvTimer hz).shift := by
  have masked : (cycles - cyclesNow) &&& (riscvTimer hz).mask = cycles - cyclesNow := by
    show (cycles - cyclesNow) &&& (2 ^ 64 - 1) = _
    rw [and_two_pow_sub_one_eq_mod, mod_eq_of_lt (by omega)]
  unfold timerDeltaCyclesToNs delta2nsecs
  dsimp only
  split
  · rw [masked]
  · rw [Nat.sub_eq_zero_of_le (by omega)]

theorem exists_last_product {mult : Nat} (pos : 0 < mult) :
    ∃ last, last * mult < 2 ^ 64 ∧ 2 ^ 64 ≤ (last + 1) * mult := by
  refine ⟨(2 ^ 64 - 1) / mult, ?_, ?_⟩
  · exact (div_mul_le_self (2 ^ 64 - 1) mult).trans_lt (by decide)
  · rw [add_mul, one_mul]
    exact lt_div_mul_add pos

/-- The first product that does not fit a word is cut to less than the multiplier. -/
theorem timerDeltaCyclesToNs_monotone_iff (hz cyclesNow distance : Nat)
    (word : cyclesNow + distance < 2 ^ 64) :
    (∀ first second, first ≤ second → second ≤ cyclesNow + distance →
      timerDeltaCyclesToNs (riscvTimer hz) cyclesNow first ≤
        timerDeltaCyclesToNs (riscvTimer hz) cyclesNow second) ↔
      distance * (riscvTimer hz).mult < 2 ^ 64 := by
  have mult_lt := (riscvTimer hz).mult_lt
  constructor
  · intro monotone
    by_contra overflow
    have pos : 0 < (riscvTimer hz).mult := by
      refine pos_of_ne_zero fun zero => overflow ?_
      rw [zero, Nat.mul_zero]
      decide
    obtain ⟨last, below, above⟩ := exists_last_product pos
    have reaches : last + 1 ≤ distance := by
      by_contra short
      exact overflow ((Nat.mul_le_mul_right _ (by omega)).trans_lt below)
    have drop := monotone (cyclesNow + last) (cyclesNow + (last + 1)) (by omega) (by omega)
    rw [timerDeltaCyclesToNs_riscv hz cyclesNow (by omega),
      timerDeltaCyclesToNs_riscv hz cyclesNow (by omega), Nat.add_sub_cancel_left,
      Nat.add_sub_cancel_left, Nat.mod_eq_of_lt below] at drop
    rw [add_mul, one_mul] at above drop
    have unit : 2 ^ (riscvTimer hz).shift ≤ 2 ^ 32 :=
      Nat.pow_le_pow_right (by decide) (riscvTimer_shift_le hz)
    have cut : (last * (riscvTimer hz).mult + (riscvTimer hz).mult) % 2 ^ 64 +
        2 ^ (riscvTimer hz).shift ≤ last * (riscvTimer hz).mult := by
      omega
    have less := Nat.div_le_div_right (c := 2 ^ (riscvTimer hz).shift) cut
    rw [add_div_right _ (Nat.two_pow_pos _)] at less
    omega
  · intro fits first second order bound
    have smaller : (first - cyclesNow) * (riscvTimer hz).mult ≤
        (second - cyclesNow) * (riscvTimer hz).mult := mul_le_mul_right _ (by omega)
    have larger : (second - cyclesNow) * (riscvTimer hz).mult ≤
        distance * (riscvTimer hz).mult := mul_le_mul_right _ (by omega)
    rw [timerDeltaCyclesToNs_riscv hz cyclesNow (by omega),
      timerDeltaCyclesToNs_riscv hz cyclesNow (by omega), mod_eq_of_lt (by omega),
      mod_eq_of_lt (by omega)]
    exact Nat.div_le_div_right smaller

/-! ## Later reads -/

theorem Clocksource.nsecs_mul_le (cs : Clocksource) (cycles : Nat) :
    cs.nsecs cycles * 2 ^ cs.shift ≤ cycles * cs.mult :=
  calc cs.nsecs cycles * 2 ^ cs.shift
      ≤ (cycles &&& cs.mask) * cs.mult % 2 ^ 64 := div_mul_le_self _ _
    _ ≤ (cycles &&& cs.mask) * cs.mult := mod_le _ _
    _ ≤ cycles * cs.mult := mul_le_mul_right _ and_le_left

theorem reads_nsec_le (cs : Clocksource) {counter : Observed} (reads : List Nat)
    (last : counter.tc.cyclesLast = cs.read counter.seen)
    (order : (counter.seen :: reads).Pairwise (· ≤ ·)) :
    counter.seen ≤ (reads.foldl (Observed.read cs) counter).seen ∧
      (reads.foldl (Observed.read cs) counter).tc.nsec * 2 ^ cs.shift ≤
        counter.tc.nsec * 2 ^ cs.shift +
          ((reads.foldl (Observed.read cs) counter).seen - counter.seen) * cs.mult := by
  induction reads generalizing counter with
  | nil => exact ⟨le_rfl, le_add_right _ _⟩
  | cons now reads ih =>
    obtain ⟨fromSeen, later⟩ := List.pairwise_cons.mp order
    have past : counter.seen ≤ now := fromSeen now List.mem_cons_self
    obtain ⟨seen, nsec⟩ := @ih (counter.read cs now) rfl later
    rw [List.foldl_cons]
    generalize reads.foldl (Observed.read cs) (counter.read cs now) = final at seen nsec
    replace seen : now ≤ final.seen := seen
    refine ⟨past.trans seen, nsec.trans ?_⟩
    rw [read_nsec past last]
    have added : add counter.tc.nsec (cs.nsecs (now - counter.seen)) ≤
        counter.tc.nsec + cs.nsecs (now - counter.seen) := mod_le _ _
    have passed : now - counter.seen + (final.seen - now) = final.seen - counter.seen := by omega
    calc add counter.tc.nsec (cs.nsecs (now - counter.seen)) * 2 ^ cs.shift +
          (final.seen - now) * cs.mult
        ≤ (counter.tc.nsec + cs.nsecs (now - counter.seen)) * 2 ^ cs.shift +
            (final.seen - now) * cs.mult :=
          Nat.add_le_add_right (Nat.mul_le_mul_right _ added) _
      _ = counter.tc.nsec * 2 ^ cs.shift + (cs.nsecs (now - counter.seen) * 2 ^ cs.shift +
            (final.seen - now) * cs.mult) := by rw [add_mul, add_assoc]
      _ ≤ counter.tc.nsec * 2 ^ cs.shift + ((now - counter.seen) * cs.mult +
            (final.seen - now) * cs.mult) :=
          Nat.add_le_add_left (Nat.add_le_add_right (cs.nsecs_mul_le _) _) _
      _ = counter.tc.nsec * 2 ^ cs.shift + (final.seen - counter.seen) * cs.mult := by
          rw [← add_mul, passed]

/-! ## When the timer is not early -/

namespace TimerCall

variable {H : Type u} {E : Type v} (call : TimerCall H E)

theorem cyclesNow_lt : call.cyclesNow < 2 ^ 64 := mod_lt _ (Nat.two_pow_pos 64)

theorem hostWait_word : call.cyclesNow + call.hostWait < 2 ^ 64 := by
  have now := call.cyclesNow_lt
  have target := sub_lt call.nextCycle call.timeDelta
  unfold hostWait
  omega

/-- The host counter is short by as much as the time of the guest, unless the subtraction of the
time delta has wrapped. -/
theorem wait_le_or : call.wait ≤ call.hostWait ∨ call.hostWait = 0 := by
  have next := call.nextCycle_lt
  unfold wait hostWait guestTime add sub
  omega

theorem program_eq : call.program = some (.eventStart
    (call.hostWait * call.cs.mult % 2 ^ 64 / 2 ^ call.cs.shift)) := by
  have delta : cpuVcpuTimerDelta ⟨false, false, call.timeDelta, 0⟩ false = call.timeDelta :=
    mod_eq_of_lt call.timeDelta_lt
  have duration := timerDeltaCyclesToNs_riscv call.hz call.cyclesNow
    (sub_lt call.nextCycle call.timeDelta)
  simp only [program, cpuVcpuTimerStart, call.nextCycle_ne, delta, cs, duration, if_false,
    Bool.false_eq_true]
  rfl

theorem result_event [DecidableEq H] [DecidableEq E] : ∃ timers, call.result = some timers ∧
    timers.event call.timeEv =
      ⟨add call.tstamp (call.hostWait * call.cs.mult % 2 ^ 64 / 2 ^ call.cs.shift),
        call.hostWait * call.cs.mult % 2 ^ 64 / 2 ^ call.cs.shift, true, call.hcpu⟩ := by
  unfold result
  rw [program_eq]
  exact ⟨_, rfl, by simp [TimerProgram.run, Timers.eventStart, tstamp]⟩

variable {call} {timers : Timers H E} (event : timers.event call.timeEv =
  ⟨add call.tstamp (call.hostWait * call.cs.mult % 2 ^ 64 / 2 ^ call.cs.shift),
    call.hostWait * call.cs.mult % 2 ^ 64 / 2 ^ call.cs.shift, true, call.hcpu⟩)
include event

theorem InRange.notEarly (inRange : call.InRange) : call.NotEarly timers := by
  rw [mod_eq_of_lt inRange.product, add_of_lt inRange.sum] at event
  have enough : call.wait * call.cs.mult / 2 ^ call.cs.shift ≤
      call.hostWait * call.cs.mult / 2 ^ call.cs.shift := by
    rcases inRange.ahead with ahead | small
    · exact Nat.div_le_div_right (mul_le_mul_right _ ahead)
    · rw [div_eq_of_lt small]
      exact zero_le _
  refine ⟨?_, ?_, ?_, ?_⟩
  · rw [event]
    exact Nat.add_le_add_left enough _
  · rw [event]
  · exact (timerDeltaCyclesToNs_monotone_iff call.hz call.cyclesNow call.hostWait
      call.hostWait_word).mpr inRange.product
  · intro reads order expired
    rw [event] at expired
    have last : call.started.tc.cyclesLast = call.cs.read call.started.seen := rfl
    obtain ⟨seen, nsec⟩ := reads_nsec_le call.cs reads last order
    generalize reads.foldl (Observed.read call.cs) call.started = final at seen nsec expired ⊢
    replace seen : call.cycles + call.gap ≤ final.seen := seen
    have tstamp : call.started.tc.nsec = call.tstamp := call.timers_now.symm
    have rounded := lt_div_mul_add (Nat.two_pow_pos call.cs.shift)
      (a := call.wait * call.cs.mult)
    have passed : (final.seen - call.started.seen) * call.cs.mult ≤
        (final.seen - call.cycles) * call.cs.mult :=
      Nat.mul_le_mul_right _ (Nat.sub_le_sub_left (Nat.le_add_right _ _) _)
    have due : (call.tstamp + call.wait * call.cs.mult / 2 ^ call.cs.shift) * 2 ^ call.cs.shift ≤
        final.tc.nsec * 2 ^ call.cs.shift :=
      Nat.mul_le_mul_right _ ((Nat.add_le_add_left enough _).trans expired)
    rw [tstamp] at nsec
    rw [add_mul] at due
    omega

theorem NotEarly.inRange (notEarly : call.NotEarly timers) : call.InRange := by
  have product : call.hostWait * call.cs.mult < 2 ^ 64 :=
    (timerDeltaCyclesToNs_monotone_iff call.hz call.cyclesNow call.hostWait
      call.hostWait_word).mp notEarly.monotone
  have expiry := notEarly.expiry
  have noWrap := notEarly.noWrap
  rw [event, mod_eq_of_lt product] at expiry noWrap
  dsimp only at expiry noWrap
  refine ⟨?_, product, ?_⟩
  · rcases call.wait_le_or with ahead | behind
    · exact .inl ahead
    · right
      rw [noWrap, behind, Nat.zero_mul, Nat.zero_div] at expiry
      have none_left : call.wait * call.cs.mult / 2 ^ call.cs.shift = 0 :=
        Nat.le_zero.mp (le_of_add_le_add_left expiry)
      exact (div_eq_zero_iff_lt (Nat.two_pow_pos _)).mp none_left
  · rw [← noWrap]
    exact add_lt _ _

end TimerCall

/-- The timer of a guest without Sstc is not early exactly if the host counter stands before the
value the guest waits for and the conversion and the expiry do not overflow. -/
theorem guestTimer_notEarly_iff {H : Type u} {E : Type v} [DecidableEq H] [DecidableEq E]
    (call : TimerCall H E) :
    (∃ timers, call.result = some timers ∧ call.NotEarly timers) ↔ call.InRange := by
  obtain ⟨timers, result, event⟩ := call.result_event
  constructor
  · rintro ⟨timers', result', notEarly⟩
    obtain rfl := Option.some.inj (result.symm.trans result')
    exact notEarly.inRange event
  · exact fun inRange => ⟨timers, result, inRange.notEarly event⟩

/-! ## Early timers -/

def quietTimers : Timers Unit Unit where
  now _ := 0
  event _ := ⟨0, 0, false, ()⟩
  eventList _ := []
  phase _ := .idle
  log := []

/-- A call at cycle 1005 of a host with a timebase of 10 MHz, by a guest whose time started at
cycle 1000. -/
def callAt1005 (nextCycle : Nat) (nextCycle_lt : nextCycle < 2 ^ 64)
    (nextCycle_ne : nextCycle ≠ 2 ^ 64 - 1) : TimerCall Unit Unit where
  hz := 10000000
  timeDelta := 2 ^ 64 - 1000
  nextCycle := nextCycle
  cycles := 1005
  gap := 0
  counter := ⟨⟨1005, 0⟩, 1005⟩
  timers := quietTimers
  hcpu := ()
  timeEv := ()
  timeDelta_lt := by decide
  nextCycle_lt := nextCycle_lt
  nextCycle_ne := nextCycle_ne
  counter_past := by decide
  counter_last := by decide
  timers_now := by decide

/-- The guest waits for the last cycle but one, which is not reached for 2^64 - 7 cycles. -/
def lastButOne : TimerCall Unit Unit := callAt1005 (2 ^ 64 - 2) (by decide) (by decide)

def quarterHour : TimerCall Unit Unit := callAt1005 (2 ^ 33 + 5) (by decide) (by decide)

/-- The event of a guest that waits for the last cycle but one expires at once, because the host
cycle that stands for it wraps. That of a guest that waits for 859 seconds expires after 309
seconds, because the product wraps; a wait of half as many cycles is converted to more. -/
theorem guestTimer_early :
    (∃ timers, lastButOne.result = some timers ∧ lastButOne.wait = 2 ^ 64 - 7 ∧
      (timers.event ()).expiryTstamp = lastButOne.tstamp) ∧
    (∃ timers, quarterHour.result = some timers ∧ quarterHour.wait = 2 ^ 33 ∧
      quarterHour.wait * quarterHour.cs.mult / 2 ^ quarterHour.cs.shift = 858993459200 ∧
      (timers.event ()).expiryTstamp = quarterHour.tstamp + 309237645312) ∧
    timerDeltaCyclesToNs quarterHour.cs 1005 (1005 + 2 ^ 33) <
      timerDeltaCyclesToNs quarterHour.cs 1005 (1005 + 2 ^ 32) := by
  refine ⟨⟨_, (Option.some_get (by decide)).symm, by decide, by decide⟩,
    ⟨_, (Option.some_get (by decide)).symm, by decide, by decide, by decide⟩, by decide⟩

end Xvisor.Timer
