import Xvisor.Nested.Vsstage

/-!
# Fault reports of nested translations

A VS-stage translation makes a G-stage translation for every page table it reads
and one for the address it finds. Each of them starts without a cause, so at
most one sets it, and htval and stval belong to that fault.
-/

namespace Xvisor.Nested

open Lib Mmu

variable {config : Config} {world : World} {setting : Setting}

structure Report where
  setting : Setting
  scause : Option Cause
  stval : Nat
  htval : Nat
  deriving DecidableEq, Repr

def XlateContext.report (xc : XlateContext) : Report :=
  ⟨xc.toSetting, xc.scause, xc.stval, xc.htval⟩

namespace Report

def fresh (setting : Setting) : Report := ⟨setting, none, 0, 0⟩

def pageFault (setting : Setting) (guestGva : Nat) : Report :=
  ⟨setting, some (.pageFault setting.originalAccess), guestGva, 0⟩

def guestPageFault (setting : Setting) (guestGva guestGpa : Nat) : Report :=
  ⟨setting, some (.guestPageFault setting.originalAccess), guestGva, guestGpa / 4⟩

end Report

inductive Outcome {σ α : Type} (report : σ → Report) (setting : Setting) (fault : Report)
    (reason : Prop) : Call σ α → Prop
  | returns {st : σ} {result : Except Code α} (notFault : result ≠ .error .efault)
      (fresh : report st = .fresh setting) : Outcome report setting fault reason (.ok (st, result))
  | faults {st : σ} (faulted : report st = fault) :
      Outcome report setting fault reason (.ok (st, .error .efault))
  | hangs : Outcome report setting fault reason (.error .hangs)
  | panics (because : reason) : Outcome report setting fault reason (.error .panics)

section Outcome

variable {σ α : Type} {report : σ → Report} {fault : Report} {reason : Prop} {call : Call σ α}
  {st : σ}

theorem Outcome.fresh {value : α} (outcome : Outcome report setting fault reason call)
    (returns : call = .ok (st, .ok value)) : report st = .fresh setting := by
  cases outcome with
  | returns _ fresh =>
    cases returns
    exact fresh
  | faults => cases returns
  | hangs => cases returns
  | panics => cases returns

theorem Outcome.faulted (outcome : Outcome report setting fault reason call)
    (returns : call = .ok (st, .error .efault)) : report st = fault := by
  cases outcome with
  | returns notFault =>
    cases returns
    exact absurd rfl notFault
  | faults faulted =>
    cases returns
    exact faulted
  | hangs => cases returns
  | panics => cases returns

variable {β : Type} {fault' : Report} {reason' : Prop}

theorem Outcome.stop {σ' : Type} {report' : σ' → Report} {stop : Stop}
    (outcome : Outcome report setting fault reason call) (isStop : call = .error stop)
    (because : reason → reason') :
    Outcome report' setting fault' reason' (.error stop : Call σ' β) := by
  subst isStop
  cases outcome with
  | hangs => exact .hangs
  | panics isReason => exact .panics (because isReason)

theorem Outcome.fail {code : Code} (outcome : Outcome report setting fault reason call)
    (isCode : call = .ok (st, .error code)) (same : code = .efault → fault = fault') :
    Outcome report setting fault' reason' (.ok (st, .error code) : Call σ β) := by
  subst isCode
  cases outcome with
  | returns notFault fresh => exact .returns (by simpa using notFault) fresh
  | faults faulted => exact .faults (faulted.trans (same rfl))

end Outcome

/-! ## The G-stage -/

section Gstage

variable {st : XlateState config} {xc xc' : XlateContext} {guestGpa : Nat} {access : Access}

theorem nestedGstageWriteFault_fresh (fresh : xc.report = .fresh setting) (guestGpa : Nat) :
    ∃ xc', nestedGstageWriteFault xc guestGpa = .ok xc' ∧
      xc'.report = .guestPageFault setting 0 guestGpa := by
  obtain ⟨rfl, noCause, noStval, _⟩ := Report.mk.inj fresh
  refine ⟨{ xc with scause := some (.guestPageFault xc.originalAccess), htval := guestGpa / 4 },
    ?_, congrArg (Report.mk _ _ · _) noStval⟩
  rw [nestedGstageWriteFault, noCause]
  rfl

theorem gstageFault_outcome {reason : Prop} (fresh : xc.report = .fresh setting)
    (st : XlateState config) (guestGpa : Nat) :
    Outcome (fun st => st.xc.report) setting (.guestPageFault setting 0 guestGpa) reason
      (st.gstageFault xc guestGpa) := by
  obtain ⟨xc', written, faulted⟩ := nestedGstageWriteFault_fresh fresh guestGpa
  rw [XlateState.gstageFault, written]
  exact .faults faulted

variable {guestHpa level : Nat}

theorem nestedXlateNostageSingle_hangs {stop : Stop}
    (stops : nestedXlateNostageSingle world guestHpa level access = .error stop) :
    stop = .hangs := by
  unfold nestedXlateNostageSingle at stops
  split at stops
  · cases stops
    rfl
  · cases stops
  · split_ifs at stops

theorem nestedGstageGpa2hpa_cases (world : World) (xc : XlateContext) (guestHpa : Nat) :
    nestedGstageGpa2hpa world xc guestHpa = .error .hangs ∨
    nestedGstageGpa2hpa world xc guestHpa = .ok (xc, .error .efault) ∨
    ∃ pa, nestedGstageGpa2hpa world xc guestHpa = .ok (xc, .ok pa) := by
  unfold nestedGstageGpa2hpa
  cases single : nestedXlateNostageSingle world guestHpa 0 .load with
  | error stop =>
    cases nestedXlateNostageSingle_hangs single
    exact .inl rfl
  | ok found =>
    cases found with
    | none => exact .inr (.inl rfl)
    | some mapping => exact .inr (.inr ⟨_, rfl⟩)

theorem nestedGstageGpa2hpa_xc {answer : Except Code Nat}
    (returns : nestedGstageGpa2hpa world xc guestHpa = .ok (xc', answer)) : xc' = xc := by
  rcases nestedGstageGpa2hpa_cases world xc guestHpa with hangs | faults | ⟨pa, translates⟩
  · cases returns.symm.trans hangs
  · cases returns.symm.trans faults
    rfl
  · cases returns.symm.trans translates
    rfl

theorem visits_gstage {root table₀ table : Nat}
    (visits : Visits config world.memory (nestedXlateGstageOps world) guestGpa root xc table₀
      level xc' table) : xc' = xc := by
  induction visits with
  | start => rfl
  | next before isLevel translates isPte valid isTable ih =>
    exact (nestedGstageGpa2hpa_xc translates).trans ih

theorem gstagePage_outcome (config : Config) (world : World) (guestGpa : Nat)
    (fresh : xc.report = .fresh setting) :
    Outcome XlateContext.report setting (.guestPageFault setting 0 guestGpa) False
      (gstagePage config world xc guestGpa) := by
  unfold gstagePage
  split
  · exact .returns nofun fresh
  split
  · exact .returns (by decide) fresh
  next root _ =>
  have faults : ∀ level, Outcome XlateContext.report setting (.guestPageFault setting 0 guestGpa)
      False ((nestedXlateGstageOps world).fault xc level guestGpa) := by
    intro level
    obtain ⟨xc', written, faulted⟩ := nestedGstageWriteFault_fresh
      (show ({ xc with gstagePageSz := blockSize level } : XlateContext).report = _ from fresh)
      guestGpa
    change Outcome _ _ _ _ ((nestedGstageWriteFault _ guestGpa).map _)
    rw [written]
    exact .faults faulted
  obtain ⟨level, xc₁, table, visits, ends⟩ := mmuGetGuestPage_ends (.start : Visits config
    world.memory (nestedXlateGstageOps world) guestGpa root xc (atpTable world.hgatp) _ _ _)
  cases visits_gstage visits
  generalize Mmu.mmuGetGuestPage config world.memory _ root xc _ guestGpa = result at ends ⊢
  cases ends with
  | tooDeep => exact .returns (by decide) fresh
  | stops _ isStop =>
    rcases nestedGstageGpa2hpa_cases world xc table with hangs | isFault | ⟨pa, translates⟩
    · cases isStop.symm.trans hangs
      exact .hangs
    · cases isStop.symm.trans isFault
    · cases isStop.symm.trans translates
  | fails _ notFault isCode =>
    rcases nestedGstageGpa2hpa_cases world xc table with hangs | isFault | ⟨pa, translates⟩
    · cases isCode.symm.trans hangs
    · cases isCode.symm.trans isFault
      exact absurd rfl notFault
    · cases isCode.symm.trans translates
  | faults _ isFault =>
    cases nestedGstageGpa2hpa_xc isFault
    exact faults level
  | notes _ isPa =>
    cases nestedGstageGpa2hpa_xc isPa
    exact faults level
  | leaf _ isPa =>
    cases nestedGstageGpa2hpa_xc isPa
    exact .returns nofun fresh

/-- The translation gets as far as `nested_swtlb_update`, which panics. -/
def UpdateFails (world : World) (st : XlateState config) (guestGpa : Nat) (access : Access) :
    Prop :=
  ∃ xc page host, (nestedSwtlbLookup st.npriv.swtlb guestGpa).1 = none ∧
    gstagePage config world st.xc guestGpa = .ok (xc, .ok page) ∧
    nestedXlateNostage world (page.oa ||| guestGpa % page.sz) access = .ok (some host) ∧
    nestedSwtlbUpdate st.npriv (access = .fetch) page
      (shadowPage page guestGpa (fitHost page (page.oa ||| guestGpa % page.sz) host))
      (fitHost page (page.oa ||| guestGpa % page.sz) host).regFlags = none

theorem nestedXlateNostage_hangs {stop : Stop}
    (stops : nestedXlateNostage world guestHpa access = .error stop) : stop = .hangs := by
  rcases nestedXlateNostage_cases world guestHpa access with ⟨level, _, single, isStop⟩ | isNone |
    ⟨_, _, _, _, isSome⟩
  · cases stops.symm.trans isStop
    exact nestedXlateNostageSingle_hangs single
  · cases stops.symm.trans isNone
  · cases stops.symm.trans isSome

/-- On a context without a cause the only panic left is the one of the software TLB. -/
theorem nestedXlateGstage_outcome (world : World) (guestGpa : Nat) (access : Access)
    (fresh : st.xc.report = .fresh setting) :
    Outcome (fun st => st.xc.report) setting (.guestPageFault setting 0 guestGpa)
      (UpdateFails world st guestGpa access) (nestedXlateGstage world st guestGpa access) := by
  unfold nestedXlateGstage
  split
  · dsimp only
    split
    · exact gstageFault_outcome (by exact fresh) _ guestGpa
    · unfold gstageHit
      dsimp only
      split
      · exact .returns nofun fresh
      · exact gstageFault_outcome (by exact fresh) _ guestGpa
  · next swtlb miss =>
    have outcome := gstagePage_outcome config world guestGpa fresh
    split
    · next isStop => exact outcome.stop isStop False.elim
    · next isError =>
      rw [isError] at outcome
      cases outcome with
      | returns notFault fresh => exact .returns (by simpa using notFault) fresh
      | faults faulted => exact .faults faulted
    · next xc page isPage =>
      have fresh' := outcome.fresh isPage
      dsimp only
      split
      · exact gstageFault_outcome (by exact fresh') _ guestGpa
      · unfold gstageMiss
        dsimp only
        split
        · next isStop =>
          cases nestedXlateNostage_hangs isStop
          exact .hangs
        · exact gstageFault_outcome (by exact fresh') _ guestGpa
        · next host isHost =>
          split
          · next fails => exact .panics ⟨xc, page, host, by rw [miss], isPage, isHost, fails⟩
          · exact .returns nofun fresh'

end Gstage

/-! ## The VS-stage -/

section Vsstage

variable {stage1 : Config} {st st' : XlateState config} {guestGva guestGpa addr : Nat}
  {access stage : Access}

def ReadsTable (stage1 : Config) (world : World) (st : XlateState config) (guestGva level : Nat)
    (st' : XlateState config) (table : Nat) : Prop :=
  ∃ root, modeLevel (atpMode world.vsatp) = some root ∧ level ≤ stage1.start ∧
    Visits stage1 world.memory (nestedXlateVsstageOps world) guestGva root st
      (atpTable world.vsatp) level st' table

/-- The G-stage translations that a VS-stage translation makes: starting state, address and access,
and the address that the guest accesses. -/
inductive GstageCall (stage1 : Config) (world : World) (st : XlateState config) (guestGva : Nat)
    (access : Access) : XlateState config → Nat → Access → Nat → Prop
  | table {level : Nat} {st' : XlateState config} {table : Nat}
      (reads : ReadsTable stage1 world st guestGva level st' table) :
      GstageCall stage1 world st guestGva access st' table .load
        (table + stage1.levelIndex level guestGva * 8)
  | page {st' : XlateState config} {page : Page}
      (found : vsstagePage stage1 world st guestGva = .ok (st', .ok page))
      (permitted : st'.xc.vsstagePermFault access page.flags = false) :
      GstageCall stage1 world st guestGva access st' (page.oa ||| guestGva % page.sz) access
        (page.oa ||| guestGva % page.sz)

def GstageRefuses (world : World) (st : XlateState config) (guestGpa : Nat) (access : Access) :
    Prop :=
  ∃ st', nestedXlateGstage world st guestGpa access = .ok (st', .error .efault)

theorem nestedVsstageGpa2hpa_outcome (world : World) (guestGpa : Nat)
    (fresh : st.xc.report = .fresh setting) :
    Outcome (fun st => st.xc.report) setting (.guestPageFault setting 0 guestGpa)
      (UpdateFails world st guestGpa .load) (nestedVsstageGpa2hpa world st guestGpa) := by
  have outcome := nestedXlateGstage_outcome world guestGpa .load fresh
  unfold nestedVsstageGpa2hpa
  split
  · next isStop => exact outcome.stop isStop id
  · next isCode => exact outcome.fail isCode fun _ => rfl
  · next isOk => exact .returns nofun (outcome.fresh isOk)

theorem nestedVsstageGpa2hpa_refused
    (fails : nestedVsstageGpa2hpa world st guestGpa = .ok (st', .error .efault)) :
    GstageRefuses world st guestGpa .load := by
  unfold nestedVsstageGpa2hpa at fails
  split at fails
  · cases fails
  · next refused =>
    cases fails
    exact ⟨_, refused⟩
  · cases fails

theorem visits_vsstage_fresh {root table₀ level table : Nat} (fresh : st.xc.report = .fresh setting)
    (visits : Visits stage1 world.memory (nestedXlateVsstageOps world) guestGva root st table₀
      level st' table) : st'.xc.report = .fresh setting := by
  induction visits with
  | start => exact fresh
  | next before isLevel translates isPte valid isTable ih =>
    exact (nestedVsstageGpa2hpa_outcome world _ ih).fresh translates

theorem nestedVsstageWriteFault_fresh {xc : XlateContext} (fresh : xc.report = .fresh setting)
    (guestGva : Nat) :
    (nestedVsstageWriteFault xc guestGva).report = .pageFault setting guestGva := by
  obtain ⟨rfl, noCause, _, noHtval⟩ := Report.mk.inj fresh
  simp only [nestedVsstageWriteFault, XlateContext.report, Report.pageFault, noCause, noHtval,
    Option.getD_none]

theorem nestedVsstageWriteFault_keeps {xc : XlateContext}
    (faulted : xc.report = .guestPageFault setting 0 guestGpa) (guestGva : Nat) :
    (nestedVsstageWriteFault xc guestGva).report = .guestPageFault setting guestGva guestGpa := by
  obtain ⟨rfl, isCause, _, isHtval⟩ := Report.mk.inj faulted
  simp only [nestedVsstageWriteFault, XlateContext.report, Report.guestPageFault, isCause, isHtval,
    Option.getD_some]

theorem ReadsTable.refused {level table : Nat}
    (reads : ReadsTable stage1 world st guestGva level st' table)
    (fresh : st'.xc.report = .fresh setting) (refuses : GstageRefuses world st' table .load) :
    ∃ st₁, vsstagePage stage1 world st guestGva = .ok (st₁, .error .efault) ∧
      st₁.xc.report = .guestPageFault setting guestGva table := by
  obtain ⟨root, isRoot, isLevel, visits⟩ := reads
  obtain ⟨st₁, refused⟩ := refuses
  have isOn : atpMode world.vsatp ≠ 0 := by
    intro isOff
    rw [isOff] at isRoot
    cases isRoot
  have fails : (nestedXlateVsstageOps world).gpa2hpa st' table = .ok (st₁, .error .efault) := by
    change nestedVsstageGpa2hpa world st' table = _
    rw [nestedVsstageGpa2hpa, refused]
  have faulted : ({ st₁.xc with vsstagePageSz := blockSize level } : XlateContext).report = _ :=
    (nestedXlateGstage_outcome world table .load fresh).faulted refused
  refine ⟨⟨st₁.npriv, _⟩, ?_, nestedVsstageWriteFault_keeps faulted guestGva⟩
  rw [vsstagePage, if_neg isOn, isRoot]
  dsimp only
  rw [visits.resumes, Mmu.mmuGetGuestPage, if_neg (Nat.not_lt.mpr isLevel), fails]
  rfl

theorem vsstagePage_outcome (stage1 : Config) (world : World) (guestGva : Nat)
    (fresh : st.xc.report = .fresh setting) :
    (∃ level st₁ table, ReadsTable stage1 world st guestGva level st₁ table ∧
      GstageRefuses world st₁ table .load) ∨
    Outcome (fun st => st.xc.report) setting (.pageFault setting guestGva)
      (∃ level st₁ table, ReadsTable stage1 world st guestGva level st₁ table ∧
        UpdateFails world st₁ table .load) (vsstagePage stage1 world st guestGva) := by
  unfold vsstagePage
  split
  · exact .inr (.returns nofun fresh)
  split
  · exact .inr (.returns (by decide) fresh)
  next root isRoot =>
  obtain ⟨level, st₁, table, visits, ends⟩ := mmuGetGuestPage_ends (.start : Visits stage1
    world.memory (nestedXlateVsstageOps world) guestGva root st (atpTable world.vsatp) _ _ _)
  have before := visits_vsstage_fresh fresh visits
  have outcome := nestedVsstageGpa2hpa_outcome world table before
  generalize Mmu.mmuGetGuestPage stage1 world.memory _ root st _ guestGva = result at ends ⊢
  cases ends with
  | tooDeep => exact .inr (.returns (by decide) before)
  | stops isLevel isStop =>
    refine .inr (outcome.stop isStop fun because => ?_)
    exact ⟨level, st₁, table, ⟨root, isRoot, isLevel, visits⟩, because⟩
  | fails isLevel notFault isCode =>
    exact .inr (outcome.fail isCode fun isFault => absurd isFault notFault)
  | faults isLevel isFault =>
    exact .inl ⟨level, st₁, table, ⟨root, isRoot, isLevel, visits⟩,
      nestedVsstageGpa2hpa_refused isFault⟩
  | notes isLevel isPa =>
    exact .inr (.faults (nestedVsstageWriteFault_fresh (by exact outcome.fresh isPa) guestGva))
  | leaf isLevel isPa => exact .inr (.returns nofun (outcome.fresh isPa))

theorem GstageCall.fresh (fresh : st.xc.report = .fresh setting)
    (call : GstageCall stage1 world st guestGva access st' guestGpa stage addr) :
    st'.xc.report = .fresh setting := by
  cases call with
  | table reads =>
    obtain ⟨root, _, _, visits⟩ := reads
    exact visits_vsstage_fresh fresh visits
  | page found permitted =>
    rcases vsstagePage_outcome stage1 world guestGva fresh with ⟨_, _, _, reads, refuses⟩ | outcome
    · obtain ⟨root, _, _, visits⟩ := id reads
      obtain ⟨_, fails, _⟩ := reads.refused (visits_vsstage_fresh fresh visits) refuses
      cases found.symm.trans fails
    · exact outcome.fresh found

theorem GstageCall.refused (fresh : st.xc.report = .fresh setting)
    (call : GstageCall stage1 world st guestGva access st' guestGpa stage addr)
    (refuses : GstageRefuses world st' guestGpa stage) :
    ∃ st₁, nestedXlateVsstage stage1 world st guestGva access = .ok (st₁, .error .efault) ∧
      st₁.xc.report = .guestPageFault setting guestGva guestGpa := by
  have before := call.fresh fresh
  cases call with
  | table reads =>
    obtain ⟨st₁, fails, faulted⟩ := reads.refused before refuses
    exact ⟨st₁, by rw [nestedXlateVsstage, fails], faulted⟩
  | page found permitted =>
    obtain ⟨st₁, refused⟩ := refuses
    have faulted := (nestedXlateGstage_outcome world _ access before).faulted refused
    refine ⟨⟨st₁.npriv, _⟩, ?_, nestedVsstageWriteFault_keeps faulted guestGva⟩
    rw [nestedXlateVsstage, found]
    dsimp only
    rw [if_neg (Bool.eq_false_iff.mp permitted), refused]
    rfl

theorem nestedXlateVsstage_outcome (stage1 : Config) (world : World) (guestGva : Nat)
    (access : Access) (fresh : st.xc.report = .fresh setting) :
    (∃ st₁ guestGpa stage addr, GstageCall stage1 world st guestGva access st₁ guestGpa stage addr ∧
      GstageRefuses world st₁ guestGpa stage) ∨
    Outcome (fun st => st.xc.report) setting (.pageFault setting guestGva)
      (∃ st₁ guestGpa stage addr,
        GstageCall stage1 world st guestGva access st₁ guestGpa stage addr ∧
        UpdateFails world st₁ guestGpa stage) (nestedXlateVsstage stage1 world st guestGva access) := by
  rcases vsstagePage_outcome stage1 world guestGva fresh with ⟨_, st₁, table, reads, refuses⟩ | walk
  · exact .inl ⟨st₁, table, .load, _, .table reads, refuses⟩
  unfold nestedXlateVsstage
  split
  · next isStop =>
    refine .inr (walk.stop isStop ?_)
    rintro ⟨_, st₁, table, reads, fails⟩
    exact ⟨st₁, table, .load, _, .table reads, fails⟩
  · next isCode => exact .inr (walk.fail isCode fun _ => rfl)
  · next st₁ page found =>
    have before := walk.fresh found
    split
    · exact .inr (.faults (nestedVsstageWriteFault_fresh (by exact before) guestGva))
    · next permitted =>
      have call : GstageCall stage1 world st guestGva access st₁ _ access _ :=
        .page found (Bool.eq_false_iff.mpr permitted)
      have outcome := nestedXlateGstage_outcome world (page.oa ||| guestGva % page.sz) access before
      dsimp only
      split
      · next isStop =>
        exact .inr (outcome.stop isStop fun because => ⟨st₁, _, access, _, call, because⟩)
      · next refused => exact .inl ⟨st₁, _, access, _, call, _, refused⟩
      · next notFault isCode =>
        exact .inr (outcome.fail isCode fun isFault => absurd isFault notFault)
      · next isOk =>
        refine .inr (.returns nofun ?_)
        have after := outcome.fresh isOk
        unfold XlateContext.fitPage
        split
        · exact after
        · exact after

end Vsstage

/-! ## What is reported -/

structure GstageReports (world : World) (st : XlateState config) (guestGpa : Nat)
    (access : Access) : Prop where
  bugOn : nestedXlateGstage world st guestGpa access = .error .panics →
    UpdateFails world st guestGpa access
  efault : ∀ st' result, nestedXlateGstage world st guestGpa access = .ok (st', result) →
    (result = .error .efault ↔ st'.xc.scause ≠ none)
  fault : ∀ st' cause result, nestedXlateGstage world st guestGpa access = .ok (st', result) →
    st'.xc.scause = some cause → cause = .guestPageFault st.xc.originalAccess ∧
      st'.xc.htval = guestGpa / 4 ∧ st'.xc.stval = st.xc.stval

structure VsstageReport (stage1 : Config) (world : World) (st : XlateState config)
    (guestGva : Nat) (access : Access) (result : Except Code Unit) (xc : XlateContext) : Prop where
  efault : result = .error .efault ↔ xc.scause ≠ none
  stval : xc.scause ≠ none → xc.stval = guestGva
  pageFault : ∀ stage, xc.scause = some (.pageFault stage) →
    stage = st.xc.originalAccess ∧ xc.htval = 0
  guestPageFault : ∀ stage, xc.scause = some (.guestPageFault stage) →
    stage = st.xc.originalAccess ∧
    (∃ st₁ guestGpa stage addr, GstageCall stage1 world st guestGva access st₁ guestGpa stage addr ∧
      GstageRefuses world st₁ guestGpa stage) ∧
    ∀ st₁ guestGpa stage addr, GstageCall stage1 world st guestGva access st₁ guestGpa stage addr →
      GstageRefuses world st₁ guestGpa stage → xc.htval = addr / 4

/-- A VS-stage translation, together with the G-stage translations it makes. -/
structure VsstageReports (stage1 : Config) (world : World) (st : XlateState config)
    (guestGva : Nat) (access : Access) : Prop where
  once : ∀ st' guestGpa stage addr,
    GstageCall stage1 world st guestGva access st' guestGpa stage addr → st'.xc.scause = none
  bugOn : nestedXlateVsstage stage1 world st guestGva access = .error .panics →
    ∃ st' guestGpa stage addr, GstageCall stage1 world st guestGva access st' guestGpa stage addr ∧
      UpdateFails world st' guestGpa stage
  report : ∀ st' result, nestedXlateVsstage stage1 world st guestGva access = .ok (st', result) →
    VsstageReport stage1 world st guestGva access result st'.xc

section Main

variable {stage1 : Config} {st : XlateState config} {guestGva : Nat} {access : Access}

theorem gstageReports_of_fresh (world : World) (guestGpa : Nat) (access : Access)
    (fresh : st.xc.report = .fresh setting) : GstageReports world st guestGpa access := by
  obtain ⟨isSetting, _, isStval, _⟩ := Report.mk.inj fresh
  have outcome := nestedXlateGstage_outcome world guestGpa access fresh
  refine ⟨fun panics => ?_, fun st' result returns => ?_, fun st' cause result returns isCause => ?_⟩
  · rw [panics] at outcome
    cases outcome
    assumption
  · rw [returns] at outcome
    cases outcome with
    | returns notFault fresh => simp [notFault, (Report.mk.inj fresh).2.1]
    | faults faulted => simp [(Report.mk.inj faulted).2.1]
  · rw [returns] at outcome
    cases outcome with
    | returns notFault fresh => cases isCause.symm.trans (Report.mk.inj fresh).2.1
    | faults faulted =>
      obtain ⟨_, alsoCause, alsoStval, isHtval⟩ := Report.mk.inj faulted
      cases isCause.symm.trans alsoCause
      exact ⟨by rw [isSetting], isHtval, alsoStval.trans isStval.symm⟩

def RefusesFirst (stage1 : Config) (world : World) (st : XlateState config) (guestGva : Nat) :
    Prop :=
  ∀ level st' table, ReadsTable stage1 world st guestGva level st' table →
    GstageRefuses world st' table .load → stage1.levelIndex level guestGva = 0

variable {st' : XlateState config}

section

variable (fresh : st.xc.report = .fresh setting)
include fresh

theorem vsstageReport_of_first {result : Except Code Unit}
    (first : RefusesFirst stage1 world st guestGva)
    (returns : nestedXlateVsstage stage1 world st guestGva access = .ok (st', result)) :
    VsstageReport stage1 world st guestGva access result st'.xc := by
  obtain ⟨isSetting, _⟩ := Report.mk.inj fresh
  have guestFault : ∀ {st₁ guestGpa stage addr},
      GstageCall stage1 world st guestGva access st₁ guestGpa stage addr →
      GstageRefuses world st₁ guestGpa stage →
      result = .error .efault ∧ st'.xc.report = .guestPageFault setting guestGva addr := by
    intro st₁ guestGpa stage addr call refuses
    obtain ⟨st₂, alsoReturns, faulted⟩ := call.refused fresh refuses
    cases returns.symm.trans alsoReturns
    have isAddr : addr = guestGpa := by
      cases call with
      | table reads => rw [first _ _ _ reads refuses, Nat.zero_mul, Nat.add_zero]
      | page found permitted => rfl
    rw [isAddr]
    exact ⟨rfl, faulted⟩
  rcases nestedXlateVsstage_outcome stage1 world guestGva access fresh with refused | outcome
  · obtain ⟨st₁, guestGpa, stage, addr, call, refuses⟩ := id refused
    obtain ⟨rfl, faulted⟩ := guestFault call refuses
    obtain ⟨_, isCause, isStval, _⟩ := Report.mk.inj faulted
    refine ⟨by simp [isCause], fun _ => isStval, fun stage alsoCause => ?_,
      fun stage alsoCause => ⟨?_, refused, fun _ _ _ _ call refuses => ?_⟩⟩
    · cases isCause.symm.trans alsoCause
    · cases isCause.symm.trans alsoCause
      rw [isSetting]
    · exact (Report.mk.inj (guestFault call refuses).2).2.2.2
  · rw [returns] at outcome
    cases outcome with
    | returns notFault fresh =>
      obtain ⟨_, noCause, _⟩ := Report.mk.inj fresh
      refine ⟨by simp [noCause, notFault], fun faulted => absurd noCause faulted, ?_, ?_⟩
      all_goals
        intro stage isCause
        cases isCause.symm.trans noCause
    | faults faulted =>
      obtain ⟨_, isCause, isStval, isHtval⟩ := Report.mk.inj faulted
      refine ⟨by simp [isCause], fun _ => isStval, ?_, ?_⟩
      · intro stage alsoCause
        cases isCause.symm.trans alsoCause
        exact ⟨by rw [isSetting], isHtval⟩
      · intro stage alsoCause
        cases isCause.symm.trans alsoCause

theorem vsstageReports_of_first (first : RefusesFirst stage1 world st guestGva) :
    VsstageReports stage1 world st guestGva access where
  once _ _ _ _ call := (Report.mk.inj (call.fresh fresh)).2.1
  bugOn panics := by
    rcases nestedXlateVsstage_outcome stage1 world guestGva access fresh with
      ⟨_, _, _, _, call, refuses⟩ | outcome
    · obtain ⟨_, returns, _⟩ := call.refused fresh refuses
      cases returns.symm.trans panics
    · rw [panics] at outcome
      cases outcome
      assumption
  report _ _ := vsstageReport_of_first fresh first

theorem VsstageReports.refusesFirst (reports : VsstageReports stage1 world st guestGva access) :
    RefusesFirst stage1 world st guestGva := by
  intro level st' table reads refuses
  have call : GstageCall stage1 world st guestGva access st' table .load _ := .table reads
  obtain ⟨st₁, returns, faulted⟩ := call.refused fresh refuses
  obtain ⟨_, isCause, _, isTable⟩ := Report.mk.inj faulted
  obtain ⟨_, _, isEntry⟩ := (reports.report _ _ returns).guestPageFault _ isCause
  have same : table / 4 = (table + stage1.levelIndex level guestGva * 8) / 4 :=
    isTable.symm.trans (isEntry _ _ _ _ call refuses)
  omega

end

/-- A G-stage translation on a fresh context always reports as it should. A VS-stage translation
does, unless a page table that cannot be read is read at another entry than its first. -/
theorem nestedXlate_reports_iff (stage1 : Config) (world : World) (npriv : Npriv config)
    (setting : Setting) (guestGva : Nat) (access : Access) :
    (∀ guestGpa, GstageReports world ⟨npriv, nestedXlateContextInit setting⟩ guestGpa access) ∧
    (VsstageReports stage1 world ⟨npriv, nestedXlateContextInit setting⟩ guestGva access ↔
      RefusesFirst stage1 world ⟨npriv, nestedXlateContextInit setting⟩ guestGva) := by
  have fresh : (nestedXlateContextInit setting).report = .fresh setting := rfl
  refine ⟨fun guestGpa => gstageReports_of_fresh world guestGpa access fresh, ?_, ?_⟩
  · intro reports
    exact reports.refusesFirst fresh
  · intro first
    exact vsstageReports_of_first fresh first

end Main

/-- The root table of the VS-stage, at 0x1000, is not in the memory of the guest. -/
def lostTableWorld : World := { oneLeafWorld 0 with hgatp := 0, vsatp := 0x8000000000000001 }

/-- The second entry of the lost table is read, at 0x1008, and the address of the table is
reported. -/
theorem nestedXlate_reports_table :
    GstageCall sv39 lostTableWorld ⟨freshNpriv, sload false⟩ 0x40000000 .load
      ⟨freshNpriv, sload false⟩ 0x1000 .load 0x1008 ∧
    GstageRefuses lostTableWorld ⟨freshNpriv, sload false⟩ 0x1000 .load ∧
    (∃ st', nestedXlateVsstage sv39 lostTableWorld ⟨freshNpriv, sload false⟩ 0x40000000 .load =
        .ok (st', .error .efault) ∧
      st'.xc.scause = some (.guestPageFault .load) ∧ st'.xc.htval = 0x1000 / 4) ∧
    ¬ VsstageReports sv39 lostTableWorld ⟨freshNpriv, sload false⟩ 0x40000000 .load := by
  have reads : ReadsTable sv39 lostTableWorld ⟨freshNpriv, sload false⟩ 0x40000000 2
      ⟨freshNpriv, sload false⟩ 0x1000 := ⟨2, by decide, by decide, .start⟩
  have call : GstageCall sv39 lostTableWorld ⟨freshNpriv, sload false⟩ 0x40000000 .load
      ⟨freshNpriv, sload false⟩ 0x1000 .load 0x1008 := .table reads
  have refuses : GstageRefuses lostTableWorld ⟨freshNpriv, sload false⟩ 0x1000 .load := ⟨_, rfl⟩
  have fresh : (sload false).report = .fresh ⟨.load, true, false, false, false⟩ := rfl
  refine ⟨call, refuses, ?_, ?_⟩
  · obtain ⟨st', returns, faulted⟩ := call.refused fresh refuses
    obtain ⟨_, isCause, _, isHtval⟩ := Report.mk.inj faulted
    exact ⟨st', returns, isCause, isHtval⟩
  · intro reports
    have isFirst := reports.refusesFirst fresh _ _ _ reads refuses
    revert isFirst
    decide

end Xvisor.Nested
