import Xvisor.Nested.Hits

/-!
# The code's decision

With an empty software TLB the code decides an access step by step. The only
memory that it keeps from one step to the next are the entries which the reads of
the tables leave in the software TLB.
-/

namespace Xvisor.Nested

open List Lib Mmu World Setting Nat

variable {stage1 config : Config} {world : World} {setting : Setting} {access : Access}
  {guestGva guestGpa n : Nat} {earlier : List Step} {st : XlateState config}

def verdictOf (call : Call (XlateState config) Unit) : Option Verdict :=
  match call with
  | .ok (_, .ok ()) => some .allowed
  | .ok (st, .error .efault) => st.xc.scause.map .raises
  | _ => none

def Setting.codeVerdict (world : World) (setting : Setting) (access : Access)
    (earlier steps : List Step) : Verdict :=
  judge (Step.admitted world setting access)
    (fun step => .raises (step.cause setting.originalAccess)) .allowed earlier steps

theorem Setting.codeVerdict_cons (step : Step) (rest : List Step) :
    setting.codeVerdict world access earlier (step :: rest) =
      if step.admitted world setting access earlier then
        setting.codeVerdict world access (step :: earlier) rest
      else .raises (step.cause setting.originalAccess) :=
  rfl

/-! ## One G-stage translation -/

/-- The state between two steps: the entries in use are those that the reads have left, and there
is room for `n` more of them. -/
structure OnTheWay (world : World) (setting : Setting) (earlier : List Step) (n : Nat)
    (st : XlateState config) : Prop where
  sound : Sound world st.npriv
  fenced : AllFenced world st.npriv
  setting : st.xc.toSetting = setting
  noCause : st.xc.scause = none
  remembers : ∀ gpa, Remembers st.npriv gpa ↔ earlier.any (Step.covers world gpa)
  room : n ≤ (st.npriv.swtlb.xtlb false).freeList.length
  supplied : st.npriv.pgtbl.alloc.Supplied ((n + 1) * config.start)

theorem gstageAnswer_of_noPage (regular : Regular world.aspace world.fuel)
    (supported : world.Supported stage1 config) {xc : XlateContext} (noCause : xc.scause = none)
    (missing : world.guestPage config guestGpa = none) :
    world.gstageAnswer config xc guestGpa access = some (gstageRefusal xc.toSetting guestGpa) := by
  unfold guestPage at missing
  rcases supported.1 with off | ⟨level, isLevel, isMode⟩
  · rw [if_pos off] at missing
    cases missing
  · have on : atpMode world.hgatp ≠ 0 := by
      intro off
      rw [off] at isMode
      cases isMode
    rw [if_neg on, isMode] at missing
    dsimp only at missing
    rw [if_neg (Nat.not_lt.mpr isLevel)] at missing
    unfold gstageAnswer gstagePage
    rw [if_neg on, isMode]
    dsimp only
    rw [(nestedXlateGstageOps_reads regular).mmuGetGuestPage isLevel]
    cases found : walk config world.gstageEntry level (atpTable world.hgatp) guestGpa with
    | ok page =>
      rw [found] at missing
      cases missing
    | error low =>
      dsimp only
      rw [nestedXlateGstageOps_fault noCause]
      rfl

theorem hostAnswer_eq (page : Page) :
    world.hostAnswer setting page guestGpa access =
      match world.memoryAt access ⟨guestGpa, page⟩ with
      | none => gstageRefusal setting guestGpa
      | some host => .host host.pa host.sz := by
  unfold hostAnswer memoryAt
  cases (world.hostBlock (page.oa ||| guestGpa % page.sz)).filter
      fun host => nestedNostagePermCheck access host.regFlags with
  | none => rfl
  | some host => rfl

theorem OnTheWay.next (onTheWay : OnTheWay world setting earlier (n + 1) st) {page : Page}
    (isPage : world.guestPage config guestGpa = some page) {st' : XlateState config}
    (translated : Translated world st.npriv st.xc guestGpa .load st' (.ok ())) :
    OnTheWay world setting (.read ⟨guestGpa, page⟩ :: earlier) n st' := by
  obtain ⟨room, remembers⟩ := translated.remembers n (lt_of_succ_le onTheWay.room) rfl
  refine ⟨translated.sound, translated.fenced, translated.setting.trans onTheWay.setting,
    translated.noCause rfl, ?_, room, ?_⟩
  · intro gpa
    rw [remembers page isPage, onTheWay.remembers, any_cons, Bool.or_eq_true, or_comm]
    rfl
  · apply translated.supplied
    rw [add_comm, ← succ_mul]
    exact onTheWay.supplied

theorem OnTheWay.pass (onTheWay : OnTheWay world setting earlier n st) {step : Step}
    (noEntry : ∀ gpa, step.covers world gpa = false) :
    OnTheWay world setting (step :: earlier) n st :=
  { onTheWay with
    remembers := by
      intro gpa
      rw [any_cons, noEntry, Bool.false_or]
      exact onTheWay.remembers gpa }

/-- The G-stage has no page for the address, does not admit the access, or there is no memory. -/
def Refused (config : Config) (world : World) (setting : Setting) (access : Access)
    (earlier : List Step) (gpa : Nat) : Prop :=
  ∀ page, world.guestPage config gpa = some page →
    setting.gstageAdmits world access earlier ⟨gpa, page⟩ → world.memoryAt access ⟨gpa, page⟩ = none

section Translate

variable (isStage2 : config.stage = .stage2) (isStart : 2 ≤ config.start)
  (regular : Regular world.aspace world.fuel) (supported : world.Supported stage1 config)

include isStage2 isStart regular supported

theorem OnTheWay.translate (onTheWay : OnTheWay world setting earlier n st)
    (inRange : guestGpa < config.span config.start) (access : Access) :
    ∃ st' result, nestedXlateGstage world st guestGpa access = .ok (st', result) ∧
      Translated world st.npriv st.xc guestGpa access st' result ∧
      answer st' result =
        match world.guestPage config guestGpa with
        | none => gstageRefusal setting guestGpa
        | some page =>
          if setting.gstageAdmits world access earlier ⟨guestGpa, page⟩ then
            world.hostAnswer setting page guestGpa access
          else gstageRefusal setting guestGpa := by
  obtain ⟨npriv, xc⟩ := st
  obtain ⟨sound, fenced, rfl, noCause, remembers, _, supplied⟩ := onTheWay
  have supplied : npriv.pgtbl.alloc.Supplied config.start :=
    supplied.mono (Nat.le_mul_of_pos_left _ (succ_pos n))
  obtain ⟨st', result, returns, translated⟩ := nestedXlateGstage_translated isStage2 isStart regular
    sound fenced noCause inRange supplied access
  refine ⟨st', result, returns, translated, ?_⟩
  cases isPage : world.guestPage config guestGpa with
  | none =>
    have plain : PlainAccess config world xc.toSetting guestGpa access := by
      intro page isPage'
      rw [isPage] at isPage'
      cases isPage'
    have isAnswer := translated.answers fun _ => plain
    rw [gstageAnswer_of_noPage regular supported noCause isPage] at isAnswer
    exact Option.some.inj isAnswer
  | some page =>
    have tables := gstagePage_of_guestPage regular noCause isPage
    have plain : (xc.gstagePermFault access page.flags = false → shadowPermits access page.flags) →
        PlainAccess config world xc.toSetting guestGpa access := by
      intro granted page' isPage'
      rw [isPage] at isPage'
      cases isPage'
      exact granted
    have expected : (Remembers npriv guestGpa →
          PlainAccess config world xc.toSetting guestGpa access) →
        answer st' result = if xc.gstagePermFault access page.flags then
          gstageRefusal xc.toSetting guestGpa
        else world.hostAnswer xc.toSetting page guestGpa access := by
      intro isPlain
      have isAnswer := translated.answers isPlain
      rw [gstageAnswer, tables] at isAnswer
      apply Option.some.inj
      rw [isAnswer, apply_ite some]
    dsimp only
    unfold gstageAdmits
    cases faults : xc.gstagePermFault access page.flags with
    | true =>
      rw [expected fun _ => plain fun passes => absurd (faults.symm.trans passes) (by decide), faults]
      rfl
    | false =>
      cases granted : shadowPermits access page.flags with
      | true =>
        rw [expected fun _ => plain fun _ => granted, faults]
        rfl
      | false =>
        by_cases remembered : Remembers npriv guestGpa
        · rw [translated.refuses remembered page isPage granted]
          rw [remembers] at remembered
          rw [remembered]
          rfl
        · rw [expected fun isRemembered => absurd isRemembered remembered, faults]
          rw [remembers, Bool.not_eq_true] at remembered
          rw [remembered]
          rfl

theorem OnTheWay.visit (onTheWay : OnTheWay world setting earlier n st)
    (inRange : guestGpa < config.span config.start) (access : Access) :
    (∃ page host st', world.guestPage config guestGpa = some page ∧
      setting.gstageAdmits world access earlier ⟨guestGpa, page⟩ ∧
      world.memoryAt access ⟨guestGpa, page⟩ = some host ∧
      nestedXlateGstage world st guestGpa access = .ok (st', .ok ()) ∧
      Translated world st.npriv st.xc guestGpa access st' (.ok ()) ∧
      st'.xc.hostPa = host.pa ∧ st'.xc.hostSz = host.sz) ∨
    (Refused config world setting access earlier guestGpa ∧
      ∃ st', nestedXlateGstage world st guestGpa access = .ok (st', .error .efault) ∧
        st'.xc.scause = some (.guestPageFault setting.originalAccess)) := by
  obtain ⟨st', result, returns, translated, isAnswer⟩ :=
    onTheWay.translate isStage2 isStart regular supported inRange access
  have fault : answer st' result = gstageRefusal setting guestGpa →
      ∃ st', nestedXlateGstage world st guestGpa access = .ok (st', .error .efault) ∧
        st'.xc.scause = some (.guestPageFault setting.originalAccess) := by
    intro isRefusal
    cases result with
    | ok _ => cases isRefusal
    | error code =>
      obtain ⟨rfl, isCause, _⟩ := Answer.fails.inj isRefusal
      exact ⟨st', returns, isCause⟩
  cases isPage : world.guestPage config guestGpa with
  | none =>
    rw [isPage] at isAnswer
    refine .inr ⟨?_, fault isAnswer⟩
    intro page isPage'
    rw [isPage] at isPage'
    cases isPage'
  | some page =>
    have same : ∀ page', world.guestPage config guestGpa = some page' → page = page' := by
      intro page' isPage'
      exact Option.some.inj (isPage.symm.trans isPage')
    rw [isPage] at isAnswer
    dsimp only at isAnswer
    cases admits : setting.gstageAdmits world access earlier ⟨guestGpa, page⟩ with
    | false =>
      rw [admits] at isAnswer
      refine .inr ⟨?_, fault isAnswer⟩
      intro page' isPage' admits'
      rw [← same page' isPage', admits] at admits'
      cases admits'
    | true =>
      rw [admits, if_pos rfl, hostAnswer_eq] at isAnswer
      cases isMemory : world.memoryAt access ⟨guestGpa, page⟩ with
      | none =>
        rw [isMemory] at isAnswer
        refine .inr ⟨?_, fault isAnswer⟩
        intro page' isPage' _
        rw [← same page' isPage']
        exact isMemory
      | some host =>
        rw [isMemory] at isAnswer
        cases result with
        | error code => cases isAnswer
        | ok _ =>
          obtain ⟨isPa, isSz⟩ := Answer.host.inj isAnswer
          exact .inl ⟨page, host, st', rfl, admits, isMemory, returns, translated, isPa, isSz⟩

end Translate

/-! ## Steps that are refused -/

theorem codeVerdict_tableSteps_refused {table : Nat}
    (refused : Refused config world setting .load earlier table) (level : Nat)
    (below : Nat → List Step) :
    setting.codeVerdict world access earlier
        (world.tableSteps stage1 config access guestGva level below table) =
      .raises (.guestPageFault setting.originalAccess) := by
  unfold tableSteps
  cases isPage : world.guestPage config table with
  | none => rfl
  | some page =>
    dsimp only
    rw [codeVerdict_cons, Step.admitted]
    split
    · next admits =>
      rw [refused page isPage admits]
      rfl
    · rfl

theorem codeVerdict_accessSteps_refused
    (refused : Refused config world setting access earlier guestGpa) :
    setting.codeVerdict world access earlier (world.accessSteps config access guestGpa) =
      .raises (.guestPageFault setting.originalAccess) := by
  unfold accessSteps
  cases isPage : world.guestPage config guestGpa with
  | none => rfl
  | some page =>
    dsimp only
    rw [codeVerdict_cons, Step.admitted]
    split
    · next admits =>
      rw [refused page isPage admits]
      rfl
    · rfl

/-! ## The VS-stage page -/

/-- `nested_xlate_vsstage` once it has the VS-stage page. -/
def vsstageFinish (world : World) (guestGva : Nat) (access : Access) (st : XlateState config)
    (page : Page) : Call (XlateState config) Unit :=
  if st.xc.vsstagePermFault access page.flags then
    .ok ({ st with
      xc := nestedVsstageWriteFault { st.xc with vsstagePageSz := page.sz } guestGva },
      .error .efault)
  else
    let guestGpa := page.oa ||| guestGva % page.sz
    match nestedXlateGstage world st guestGpa access with
    | .error stop => .error stop
    | .ok (st, .error .efault) =>
      .ok ({ st with xc := nestedVsstageWriteFault st.xc guestGva }, .error .efault)
    | .ok (st, .error code) => .ok (st, .error code)
    | .ok (st, .ok ()) => .ok ({ st with xc := st.xc.fitPage page guestGpa }, .ok ())

def withPage (world : World) (guestGva : Nat) (access : Access) :
    Call (XlateState config) Page → Call (XlateState config) Unit
  | .error stop => .error stop
  | .ok (st, .error code) => .ok (st, .error code)
  | .ok (st, .ok page) => vsstageFinish world guestGva access st page

theorem nestedXlateVsstage_eq (st : XlateState config) :
    nestedXlateVsstage stage1 world st guestGva access =
      withPage world guestGva access (vsstagePage stage1 world st guestGva) := by
  unfold nestedXlateVsstage withPage vsstageFinish
  rcases vsstagePage stage1 world st guestGva with stop | ⟨st, code | page⟩ <;> rfl

/-- Without an entry the access ends with the fault of the G-stage if there was one, and with a
page fault otherwise. -/
theorem verdictOf_vsstageFault (st : XlateState config) (level : Nat) :
    verdictOf (withPage world guestGva access
        ((nestedXlateVsstageOps world).fault st level guestGva)) =
      some (.raises (st.xc.scause.getD (.pageFault st.xc.originalAccess))) :=
  rfl

section Walk

variable (isStage2 : config.stage = .stage2) (isStart : 2 ≤ config.start)
  (regular : Regular world.aspace world.fuel) (supported : world.Supported stage1 config)

include isStage2 isStart regular supported

theorem OnTheWay.finish (onTheWay : OnTheWay world setting earlier n st) {page : Page} {step : Step}
    (decides : step.admitted world setting access earlier =
      !setting.vsstagePermFault access page.flags)
    (isCause : step.cause setting.originalAccess = .pageFault setting.originalAccess)
    (noEntry : ∀ gpa, step.covers world gpa = false)
    (isGpa : page.oa ||| guestGva % page.sz = guestGpa)
    (inRange : ∀ step ∈ world.accessSteps config access guestGpa, step.InRange config) :
    verdictOf (vsstageFinish world guestGva access st page) =
      some (setting.codeVerdict world access earlier
        (step :: world.accessSteps config access guestGpa)) := by
  have inRange : guestGpa < config.span config.start := by
    unfold accessSteps at inRange
    split at inRange
    · exact inRange _ mem_cons_self
    · exact inRange _ mem_cons_self
  rw [codeVerdict_cons, decides, isCause]
  unfold vsstageFinish
  rw [onTheWay.setting, isGpa]
  cases setting.vsstagePermFault access page.flags with
  | true =>
    have noCause := onTheWay.noCause
    simp [verdictOf, nestedVsstageWriteFault, noCause, ← onTheWay.setting]
  | false =>
    simp only [reduceCtorEq, reduceIte]
    rcases (onTheWay.pass noEntry).visit isStage2 isStart regular supported inRange access with
      ⟨page, host, st', isPage, admits, isMemory, returns, _⟩ | ⟨refused, st', returns, isFault⟩
    · rw [returns, accessSteps, isPage]
      dsimp only
      rw [codeVerdict_cons, Step.admitted, admits, isMemory]
      rfl
    · rw [returns, codeVerdict_accessSteps_refused refused]
      simp [verdictOf, nestedVsstageWriteFault, isFault]

/-- One table of the VS-stage; `continues` is about the tables below it. -/
theorem OnTheWay.table {level table : Nat} (isLevel : level ≤ stage1.start)
    (onTheWay : OnTheWay world setting earlier (n + 1) st) {below : Nat → List Step}
    (inRange : ∀ step ∈ world.tableSteps stage1 config access guestGva level below table,
      step.InRange config)
    (continues : ∀ (step : Step) (st' : XlateState config) (next : Nat),
      OnTheWay world setting (step :: earlier) n st' →
      (∀ step ∈ below next, step.InRange config) →
      verdictOf (withPage world guestGva access
          (match level with
          | 0 => (nestedXlateVsstageOps world).fault st' 0 guestGva
          | level + 1 => mmuGetGuestPage stage1 world.memory (nestedXlateVsstageOps world) level st'
              next guestGva)) =
        some (setting.codeVerdict world access (step :: earlier) (below next))) :
    verdictOf (withPage world guestGva access
        (mmuGetGuestPage stage1 world.memory (nestedXlateVsstageOps world) level st table
          guestGva)) =
      some (setting.codeVerdict world access earlier
        (world.tableSteps stage1 config access guestGva level below table)) := by
  have tableInRange : table < config.span config.start := by
    unfold tableSteps at inRange
    split at inRange
    · exact inRange _ mem_cons_self
    · exact inRange _ mem_cons_self
  have isOps : (nestedXlateVsstageOps world).gpa2hpa st table =
      nestedVsstageGpa2hpa world st table := rfl
  rw [mmuGetGuestPage, if_neg (Nat.not_lt.mpr isLevel), isOps, nestedVsstageGpa2hpa]
  rcases onTheWay.visit isStage2 isStart regular supported tableInRange .load with
    ⟨page, host, st', isPage, admits, isMemory, returns, translated, isPa, isSz⟩ |
    ⟨refused, st', returns, isFault⟩
  · have onTheWay := onTheWay.next isPage translated
    have isSteps : world.tableSteps stage1 config access guestGva level below table =
        .read ⟨table, page⟩ :: world.entrySteps config access guestGva level below (world.memory
          (Word.add (host.pa ||| table % host.sz) (stage1.levelIndex level guestGva * 8))) := by
      rw [tableSteps, isPage]
      dsimp only
      rw [isMemory]
    rw [isSteps] at inRange ⊢
    have restInRange := (forall_mem_cons.mp inRange).2
    have noEntry : ∀ low, verdictOf (withPage world guestGva access
        ((nestedXlateVsstageOps world).fault st' low guestGva)) =
        some (setting.codeVerdict world access (.read ⟨table, page⟩ :: earlier) [.noPage]) := by
      intro low
      rw [verdictOf_vsstageFault, onTheWay.noCause, ← onTheWay.setting]
      rfl
    rw [returns, codeVerdict_cons, Step.admitted, admits, if_pos rfl]
    dsimp only
    rw [isPa, isSz]
    generalize world.memory
      (Word.add (host.pa ||| table % host.sz) (stage1.levelIndex level guestGva * 8)) = entry
      at restInRange ⊢
    cases entry with
    | none => exact noEntry level
    | some pte =>
      unfold entrySteps at restInRange ⊢
      dsimp only at restInRange ⊢
      cases isValid : pteValid pte with
      | false => exact noEntry level
      | true =>
        rw [isValid] at restInRange
        cases isTable : pteIsTable pte with
        | true =>
          rw [isTable] at restInRange
          exact continues _ st' (pteAddr pte) onTheWay restInRange
        | false =>
          rw [isTable] at restInRange
          refine onTheWay.finish isStage2 isStart regular supported rfl rfl (fun _ => rfl) rfl ?_
          exact fun step mem => restInRange step (mem_cons_of_mem _ mem)
  · rw [returns, codeVerdict_tableSteps_refused refused]
    dsimp only
    rw [verdictOf_vsstageFault, isFault]
    rfl

theorem OnTheWay.walk {level table : Nat} (isLevel : level ≤ stage1.start)
    (onTheWay : OnTheWay world setting earlier (level + 1) st)
    (inRange : ∀ step ∈ world.walkSteps stage1 config access guestGva level table,
      step.InRange config) :
    verdictOf (withPage world guestGva access
        (mmuGetGuestPage stage1 world.memory (nestedXlateVsstageOps world) level st table
          guestGva)) =
      some (setting.codeVerdict world access earlier
        (world.walkSteps stage1 config access guestGva level table)) := by
  induction level generalizing table earlier st with
  | zero =>
    refine onTheWay.table isStage2 isStart regular supported isLevel inRange ?_
    intro step st' next onTheWay _
    dsimp only
    rw [verdictOf_vsstageFault, onTheWay.noCause, ← onTheWay.setting]
    rfl
  | succ level ih =>
    refine onTheWay.table isStage2 isStart regular supported isLevel inRange ?_
    intro step st' next onTheWay inRange
    exact ih (le_of_succ_le isLevel) onTheWay inRange

omit isStage2 isStart regular supported in
theorem OnTheWay.start {npriv : Npriv config} (sound : Sound world npriv)
    (fenced : AllFenced world npriv) (isEmpty : npriv.swtlb.active = []) (setting : Setting)
    (isRoom : n ≤ xtlbMaxEntry) (supplied : npriv.pgtbl.alloc.Supplied ((n + 1) * config.start)) :
    OnTheWay world setting [] n ⟨npriv, nestedXlateContextInit setting⟩ := by
  have noEntry : (npriv.swtlb.xtlb false).activeList = [] := (append_eq_nil_iff.mp isEmpty).2
  have free := (sound.lists false).length_eq
  rw [Xtlb.slots, noEntry, nil_append] at free
  refine ⟨sound, fenced, rfl, rfl, ?_, ?_, supplied⟩
  · intro gpa
    simp [Remembers, isEmpty]
  · rw [free]
    simpa [slotsOf] using isRoom

omit isStage2 isStart regular supported in
theorem OnTheWay.mono {m : Nat} (onTheWay : OnTheWay world setting earlier n st) (le : m ≤ n) :
    OnTheWay world setting earlier m st :=
  { onTheWay with
    room := le.trans onTheWay.room
    supplied := onTheWay.supplied.mono (mul_le_mul_right _ (succ_le_succ le)) }

omit isStage2 isStart regular supported in
theorem offPage_address (addr : Nat) : (offPage addr).oa ||| addr % (offPage addr).sz = addr := by
  show addr / 2 ^ 30 * 2 ^ 30 ||| addr % 2 ^ 30 = addr
  rw [mul_comm, ← two_pow_add_eq_or_of_lt (mod_lt _ (Nat.two_pow_pos 30)),
    div_add_mod]

theorem nestedXlateVsstage_judged {npriv : Npriv config} (sound : Sound world npriv)
    (fenced : AllFenced world npriv) (isEmpty : npriv.swtlb.active = [])
    (supplied : npriv.pgtbl.alloc.Supplied ((stage1.start + 2) * config.start))
    (inRange : ∀ step ∈ world.steps stage1 config access guestGva, step.InRange config) :
    verdictOf (nestedXlateVsstage stage1 world ⟨npriv, nestedXlateContextInit setting⟩ guestGva
        access) =
      some (setting.codeVerdict world access [] (world.steps stage1 config access guestGva)) := by
  have small := stage1.start_le
  have onTheWay := OnTheWay.start sound fenced isEmpty setting
    (show stage1.start + 1 ≤ xtlbMaxEntry by unfold xtlbMaxEntry; omega) supplied
  rw [nestedXlateVsstage_eq]
  unfold steps at inRange ⊢
  unfold vsstagePage
  rcases supported.2 with off | ⟨level, isLevel, isMode⟩
  · rw [if_pos off] at inRange ⊢
    rw [if_pos off]
    refine onTheWay.finish isStage2 isStart regular supported rfl rfl (fun _ => rfl)
      (offPage_address guestGva) ?_
    exact fun step mem => inRange step (mem_cons_of_mem _ mem)
  · have on : atpMode world.vsatp ≠ 0 := by
      intro off
      rw [off] at isMode
      cases isMode
    rw [if_neg on, isMode] at inRange ⊢
    rw [if_neg on]
    exact (onTheWay.mono (succ_le_succ isLevel)).walk isStage2 isStart regular supported isLevel
      inRange

end Walk

/-- With an empty software TLB, the code's verdict on an access is the one of the privileged
specification exactly if at the first step that they decide differently, the one that goes on is
refused later with the same cause. -/
theorem nestedXlateVsstage_meets_iff (isStage2 : config.stage = .stage2)
    (isStart : 2 ≤ config.start) (regular : Regular world.aspace world.fuel)
    (supported : world.Supported stage1 config) {npriv : Npriv config}
    (isEmpty : EmptyTlb config world npriv)
    (supplied : npriv.pgtbl.alloc.Supplied ((stage1.start + 2) * config.start))
    (inRange : ∀ step ∈ world.steps stage1 config access guestGva, step.InRange config) :
    verdictOf (nestedXlateVsstage stage1 world ⟨npriv, nestedXlateContextInit setting⟩ guestGva
        access) =
        some (setting.specVerdict access (world.steps stage1 config access guestGva)) ↔
      setting.Meets world access (world.steps stage1 config access guestGva) := by
  obtain ⟨sound, fenced⟩ := translationRun_current isStage2 isStart regular isEmpty.reached
  rw [nestedXlateVsstage_judged isStage2 isStart regular supported sound fenced isEmpty.empty
    supplied inRange, Option.some_inj]
  exact judge_eq_iff [] _

/-! ## One table and one page -/

def sv39 : Config := ⟨.stage1, 2, 0, 0, 0, Config.threeLevels_le⟩

variable (tableBits leafBits dataBits : Nat)

/-- The guest RAM of the one-leaf world with both stages on. The first GiB of guest physical
addresses is mapped to it with `dataBits`, the second with `tableBits`; the VS-stage root lies in the
second and has one leaf, with `leafBits`, to the first. -/
def twoStageWorld : World :=
  { oneLeafWorld 0 with
    memory := fun addr =>
      if addr = 0x90200000 then some (0x20000000 + dataBits)
      else if addr = 0x90200008 then some (0x20000000 + tableBits)
      else if addr = 0x90204000 then some leafBits
      else some 0
    vsatp := 0x8000000000040004 }

def suppliedNpriv : Npriv sv39x4 :=
  { freshNpriv with
    pgtbl := ⟨.fresh 0x1000 2, ⟨[], 0, [0x1000], [some 2, some 3, some 4, some 5, some 6, some 7,
      some 8, some 9]⟩, .empty⟩ }

theorem suppliedNpriv_empty (world : World) : EmptyTlb sv39x4 world suppliedNpriv := by
  refine ⟨.start ⟨⟨_, rfl⟩, ⟨_, rfl⟩, ⟨by decide, by decide, by decide, by decide,
    by simp [sv39x4], ?_⟩, rfl⟩, rfl⟩
  intro _
  decide

theorem suppliedNpriv_supplied :
    suppliedNpriv.pgtbl.alloc.Supplied ((sv39.start + 2) * sv39x4.start) := by
  refine ⟨[2, 3, 4, 5, 6, 7, 8, 9], [], rfl, rfl, by decide, ?_⟩
  intro page isPage old isOld
  obtain rfl : old = 0x1000 := mem_singleton.mp isOld
  simp only [mem_cons, not_mem_nil, or_false] at isPage
  rcases isPage with rfl | rfl | rfl | rfl | rfl | rfl | rfl | rfl <;> decide

theorem twoStageWorld_supported :
    (twoStageWorld tableBits leafBits dataBits).Supported sv39 sv39x4 :=
  ⟨.inr ⟨2, by decide, show modeLevel (atpMode 0x8000000000080000) = some 2 by decide⟩,
    .inr ⟨2, by decide, show modeLevel (atpMode 0x8000000000040004) = some 2 by decide⟩⟩

def uload : Setting := ⟨.load, false, false, false, false⟩

/-- A load of user mode through pages with all permissions. -/
theorem nestedXlateVsstage_meets_uload :
    verdictOf (nestedXlateVsstage sv39 (twoStageWorld 0xDF 0xDF 0xDF)
        ⟨suppliedNpriv, nestedXlateContextInit uload⟩ 0x5000 .load) =
      some (uload.specVerdict .load
        ((twoStageWorld 0xDF 0xDF 0xDF).steps sv39 sv39x4 .load 0x5000)) := by
  have aligned : ∀ step ∈ (twoStageWorld 0xDF 0xDF 0xDF).steps sv39 sv39x4 .load 0x5000,
      step.Aligned := by decide +kernel
  have inRange : ∀ step ∈ (twoStageWorld 0xDF 0xDF 0xDF).steps sv39 sv39x4 .load 0x5000,
      step.InRange sv39x4 := by decide +kernel
  have meets : uload.Meets (twoStageWorld 0xDF 0xDF 0xDF) .load
      ((twoStageWorld 0xDF 0xDF 0xDF).steps sv39 sv39x4 .load 0x5000) :=
    meets_plain rfl rfl rfl (by decide) _ aligned
  have regular : Regular (twoStageWorld 0xDF 0xDF 0xDF).aspace _ := oneLeafWorld_regular 0
  exact (nestedXlateVsstage_meets_iff rfl (by decide) regular (twoStageWorld_supported _ _ _)
    (suppliedNpriv_empty _) suppliedNpriv_supplied inRange).mpr meets

/-- A load of supervisor mode from a user page is refused with SUM and allowed without. An HLVX
load is refused because the page of a table is not executable. A fetch from a page whose A bit is
clear is allowed. -/
theorem nestedXlateVsstage_differs :
    (verdictOf (nestedXlateVsstage sv39 (twoStageWorld 0xDF 0xDF 0xDF)
        ⟨suppliedNpriv, nestedXlateContextInit ⟨.load, true, true, false, false⟩⟩ 0x5000 .load) =
        some (.raises (.pageFault .load)) ∧
      specVerdict ⟨.load, true, true, false, false⟩ .load
        ((twoStageWorld 0xDF 0xDF 0xDF).steps sv39 sv39x4 .load 0x5000) = .allowed) ∧
    (verdictOf (nestedXlateVsstage sv39 (twoStageWorld 0xDF 0xDF 0xDF)
        ⟨suppliedNpriv, nestedXlateContextInit ⟨.load, true, false, false, false⟩⟩ 0x5000 .load) =
        some .allowed ∧
      specVerdict ⟨.load, true, false, false, false⟩ .load
        ((twoStageWorld 0xDF 0xDF 0xDF).steps sv39 sv39x4 .load 0x5000) =
        .raises (.pageFault .load)) ∧
    (verdictOf (nestedXlateVsstage sv39 (twoStageWorld 0xD7 0xDF 0xDF)
        ⟨suppliedNpriv, nestedXlateContextInit ⟨.load, false, false, false, true⟩⟩ 0x5000 .load) =
        some (.raises (.guestPageFault .load)) ∧
      specVerdict ⟨.load, false, false, false, true⟩ .load
        ((twoStageWorld 0xD7 0xDF 0xDF).steps sv39 sv39x4 .load 0x5000) = .allowed) ∧
    (verdictOf (nestedXlateVsstage sv39 (twoStageWorld 0xDF 0x9F 0xDF)
        ⟨suppliedNpriv, nestedXlateContextInit ⟨.fetch, false, false, false, false⟩⟩ 0x5000 .fetch) =
        some .allowed ∧
      specVerdict ⟨.fetch, false, false, false, false⟩ .fetch
        ((twoStageWorld 0xDF 0x9F 0xDF).steps sv39 sv39x4 .fetch 0x5000) =
        .raises (.pageFault .fetch)) := by
  decide +kernel

end Xvisor.Nested
