import Xvisor.Nested.Invariant

/-!
# G-stage translations

Without an entry of the software TLB, the answer of `nested_xlate_gstage` is a
function of the page tables and of the guest address space. While the entries
in use are current, a hit gives the same answer to every access that the guest
page grants by itself.
-/

namespace Xvisor.Nested

open Lib Mmu Guest World Nat

inductive Answer where
  | host (pa sz : Nat)
  | fails (code : Code) (scause : Option Cause) (htval : Nat)
  deriving DecidableEq, Repr

variable {config : Config}

def answer (st : XlateState config) : Except Code Unit → Answer
  | .ok () => .host st.xc.hostPa st.xc.hostSz
  | .error code => .fails code st.xc.scause st.xc.htval

def gstageRefusal (setting : Setting) (guestGpa : Nat) : Answer :=
  .fails .efault (some (.guestPageFault setting.originalAccess)) (guestGpa / 4)

variable (world : World)

def World.hostAnswer (setting : Setting) (page : Page) (guestGpa : Nat)
    (access : Access) : Answer :=
  match (world.hostBlock (page.oa ||| guestGpa % page.sz)).filter
      fun host => nestedNostagePermCheck access host.regFlags with
  | none => gstageRefusal setting guestGpa
  | some host =>
    let host := fitHost page (page.oa ||| guestGpa % page.sz) host
    .host host.pa host.sz

def World.gstageAnswer (config : Config) (world : World) (xc : XlateContext) (guestGpa : Nat)
    (access : Access) : Option Answer :=
  match gstagePage config world xc guestGpa with
  | .error _ => none
  | .ok (xc, .error code) => some (.fails code xc.scause xc.htval)
  | .ok (xc, .ok page) =>
    if xc.gstagePermFault access page.flags then some (gstageRefusal xc.toSetting guestGpa)
    else some (world.hostAnswer xc.toSetting page guestGpa access)

/-- The guest page, as far as it permits the access, does so without the help of MXR or HLVX. -/
def PlainAccess (config : Config) (world : World) (setting : Setting) (guestGpa : Nat)
    (access : Access) : Prop :=
  ∀ page, world.guestPage config guestGpa = some page →
    setting.gstagePermFault access page.flags = false → shadowPermits access page.flags

theorem plainAccess_of_setting {setting : Setting} {access : Access} (noHlvx : setting.hlvx = false)
    (noMxr : access = .load → setting.mxr = false) (config : Config) (world : World)
    (guestGpa : Nat) : PlainAccess config world setting guestGpa access := by
  intro page _ permitted
  cases access with
  | load =>
    have allowed : page.flags.user ∧ page.flags.read ∧ page.flags.accessed := by
      simpa [Setting.gstagePermFault, Setting.permFault, noHlvx, noMxr rfl] using permitted
    exact allowed.2.1
  | store =>
    have allowed : page.flags.user ∧ ((page.flags.read ∧ page.flags.write) ∧ page.flags.accessed) ∧
        page.flags.dirty := by
      simpa [Setting.gstagePermFault, Setting.permFault, noHlvx] using permitted
    exact Bool.and_eq_true_iff.mpr allowed.2.1.1
  | fetch =>
    have allowed : page.flags.user ∧ page.flags.execute := by
      simpa [Setting.gstagePermFault, Setting.permFault] using permitted
    exact allowed.2

/-- The entries in use agree with the page tables of the guest hypervisor. -/
def AllFenced (s : Npriv config) : Prop :=
  ∀ slot ∈ s.swtlb.active, Fenced config world (s.swtlb.entries slot)

/-- The shadow page that a miss at `guestGpa` installs has the address `other` as well. -/
def World.covers (page : Page) (guestGpa other : Nat) : Bool :=
  match world.fill page guestGpa with
  | none => false
  | some (shadow, _) => other / shadow.sz = guestGpa / shadow.sz

/-- A translation takes at most one entry off a free list, and those in use stay while there is
one. -/
structure Translated (world : World) (before : Npriv config) (xc : XlateContext) (guestGpa : Nat)
    (access : Access) (st' : XlateState config) (result : Except Code Unit) : Prop where
  sound : Sound world st'.npriv
  fenced : AllFenced world st'.npriv
  setting : st'.xc.toSetting = xc.toSetting
  noCause : result = .ok () → st'.xc.scause = none
  supplied : ∀ n, before.pgtbl.alloc.Supplied (config.start + n) → st'.npriv.pgtbl.alloc.Supplied n
  answers : (Remembers before guestGpa → PlainAccess config world xc.toSetting guestGpa access) →
    some (answer st' result) = world.gstageAnswer config xc guestGpa access
  refuses : Remembers before guestGpa → ∀ page, world.guestPage config guestGpa = some page →
    shadowPermits access page.flags = false →
      answer st' result = gstageRefusal xc.toSetting guestGpa
  remembers : ∀ n, n < (before.swtlb.xtlb (access = .fetch)).freeList.length → result = .ok () →
    n ≤ (st'.npriv.swtlb.xtlb (access = .fetch)).freeList.length ∧
      ∀ page, world.guestPage config guestGpa = some page → ∀ other, Remembers st'.npriv other ↔
          Remembers before other ∨ world.covers page guestGpa other

variable {world : World} {st : XlateState config} {guestGpa : Nat} {access : Access}

theorem error_ne_ok {code : Code} : (Except.error code : Except Code Unit) ≠ .ok () := by
  rintro ⟨⟩

variable {before : Npriv config} {xc : XlateContext}

theorem gstageFault_translated (samePgtbl : st.npriv.pgtbl = before.pgtbl)
    (sound : Sound world st.npriv) (fenced : AllFenced world st.npriv) (noCause : xc.scause = none)
    (sameSetting : xc.toSetting = st.xc.toSetting) (refused : (Remembers before guestGpa →
        PlainAccess config world st.xc.toSetting guestGpa access) →
      world.gstageAnswer config st.xc guestGpa access =
        some (gstageRefusal st.xc.toSetting guestGpa)) :
    ∃ st' result, st.gstageFault xc guestGpa = .ok (st', result) ∧
      Translated world before st.xc guestGpa access st' result := by
  have isRefusal : gstageRefusal xc.toSetting guestGpa = gstageRefusal st.xc.toSetting guestGpa := by
    rw [sameSetting]
  unfold XlateState.gstageFault nestedGstageWriteFault
  rw [noCause]
  refine ⟨_, _, rfl, sound, fenced, sameSetting, fun isOk => absurd isOk error_ne_ok, ?_, ?_,
    fun _ _ _ _ => isRefusal, fun _ _ isOk => absurd isOk error_ne_ok⟩
  · intro n supplied
    rw [← samePgtbl] at supplied
    exact supplied.mono (le_add_left n _)
  · intro plain
    rw [refused plain, ← isRefusal]
    rfl

theorem covers_iff (isStage2 : config.stage = .stage2) {e : SwtlbEntry}
    (placed : Placed config e.shadowPage)
    (filled : world.fill e.page guestGpa = some (e.shadowPage, e.shadowRegFlags))
    (around : e.shadows guestGpa) (other : Nat) :
    world.covers e.page guestGpa other ↔ e.shadows other := by
  rw [covers, filled, decide_eq_true_eq, placed.shadows_iff isStage2,
    (placed.shadows_iff isStage2 guestGpa).mp around]

/-! ## Hits -/

variable {page : Page}

theorem shadowPermits_shadowPage {host : HostBlock} (memory : host.regFlags.any (.isram ||| .isrom))
    (granted : shadowPermits access page.flags) :
    shadowPermits access (shadowPage page guestGpa host).flags =
      nestedNostagePermCheck access host.regFlags := by
  cases access with
  | load =>
    have read : page.flags.read = true := granted
    simp [shadowPermits, shadowPage, nestedNostagePermCheck, memory, read]
  | store =>
    obtain ⟨read, write⟩ := Bool.and_eq_true_iff.mp granted
    simp [shadowPermits, shadowPage, nestedNostagePermCheck, memory, read, write]
  | fetch =>
    have execute : page.flags.execute = true := granted
    simp [shadowPermits, shadowPage, nestedNostagePermCheck, memory, execute]

theorem Filled.host {e : SwtlbEntry} (filled : Filled world e) (shadows : e.shadows guestGpa) :
    ∃ host, world.hostBlock (e.page.oa ||| guestGpa % e.page.sz) = some host ∧
      e.shadowPage = shadowPage e.page guestGpa
        (fitHost e.page (e.page.oa ||| guestGpa % e.page.sz) host) ∧
      e.shadowRegFlags = host.regFlags :=
  fill_some (filled.shadow guestGpa shadows)

theorem fitHost_regFlags (page : Page) (guestHpa : Nat) (host : HostBlock) :
    (fitHost page guestHpa host).regFlags = host.regFlags := by
  unfold fitHost
  split <;> rfl

theorem shadowPermits_of_shadowPage {host : HostBlock}
    (permitted : shadowPermits access (shadowPage page guestGpa host).flags) :
    shadowPermits access page.flags := by
  cases access with
  | load => exact (Bool.and_eq_true_iff.mp permitted).2
  | fetch => exact permitted
  | store =>
    obtain ⟨read, write⟩ := Bool.and_eq_true_iff.mp permitted
    exact Bool.and_eq_true_iff.mpr
      ⟨(Bool.and_eq_true_iff.mp read).2, (Bool.and_eq_true_iff.mp write).2⟩

theorem AllFenced.touch (fenced : AllFenced world before) {itlb : Bool} {slot : Nat}
    (isActive : slot ∈ (before.swtlb.xtlb itlb).activeList) :
    AllFenced world (before.touch itlb slot) := by
  intro other mem
  rw [Npriv.touch, Swtlb.entries_setXtlb]
  exact fenced other ((mem_active_touch isActive).mp mem)

theorem gstageHit_translated (isStage2 : config.stage = .stage2)
    (regular : Regular world.aspace world.fuel) (noCause : xc.scause = none)
    (sound : Sound world before) (fenced : AllFenced world before) {itlb : Bool} {slot : Nat}
    (isActive : slot ∈ (before.swtlb.xtlb itlb).activeList)
    (shadows : (before.swtlb.entries slot).shadows guestGpa)
    (permitted : xc.gstagePermFault access (before.swtlb.entries slot).page.flags = false) :
    ∃ st' result, gstageHit ⟨before.touch itlb slot, xc⟩ (before.swtlb.entries slot) guestGpa
        access = .ok (st', result) ∧
      Translated world before xc guestGpa access st' result := by
  have inUse : slot ∈ before.swtlb.active := Swtlb.mem_active.mpr ⟨itlb, isActive⟩
  have remembered : ∀ gpa, (before.swtlb.entries slot).shadows gpa → Remembers before gpa :=
    fun _ shadows => ⟨slot, inUse, shadows⟩
  have isPage := fenced slot inUse guestGpa shadows
  have filled := sound.filled slot inUse
  have placed := sound.shadowed.placed slot inUse
  generalize before.swtlb.entries slot = e at shadows remembered permitted isPage filled placed ⊢
  obtain ⟨host, isHost, isShadow, isFlags⟩ := filled.host shadows
  have tables := gstagePage_of_guestPage regular noCause isPage
  have memory : host.regFlags.any (.isram ||| .isrom) := isFlags ▸ filled.memory
  have same : shadowPermits access e.page.flags → shadowPermits access e.shadowPage.flags =
      nestedNostagePermCheck access host.regFlags := by
    intro granted
    rw [isShadow, shadowPermits_shadowPage _ granted, fitHost_regFlags]
    rw [fitHost_regFlags]
    exact memory
  unfold gstageHit
  by_cases allowed : shadowPermits access e.shadowPage.flags
  · rw [if_pos allowed]
    have granted : shadowPermits access e.page.flags := by
      rw [isShadow] at allowed
      exact shadowPermits_of_shadowPage allowed
    refine ⟨_, _, rfl, sound.touch isActive, fenced.touch isActive, rfl, fun _ => noCause, ?_, ?_,
      ?_, ?_⟩
    · exact fun n supplied => supplied.mono (le_add_left n _)
    · intro _
      rw [same granted] at allowed
      rw [gstageAnswer, tables]
      simp only [permitted, Bool.false_eq_true, if_false, hostAnswer, isHost,
        Option.filter_some, allowed, if_true, answer, isShadow]
      rfl
    · intro _ page isPage' lacking
      rw [isPage] at isPage'
      cases isPage'
      rw [granted] at lacking
      cases lacking
    · intro n room _
      rw [freeList_touch]
      refine ⟨room.le, ?_⟩
      intro page isPage' other
      rw [isPage] at isPage'
      cases isPage'
      rw [remembers_touch isActive, covers_iff isStage2 placed (filled.shadow _ shadows) shadows]
      refine ⟨.inl, ?_⟩
      rintro (wasRemembered | isShadowed)
      · exact wasRemembered
      · exact remembered other isShadowed
  · rw [if_neg allowed]
    refine gstageFault_translated rfl (sound.touch isActive) (fenced.touch isActive) noCause rfl ?_
    intro plain
    rw [same (plain (remembered _ shadows) e.page isPage permitted)] at allowed
    rw [gstageAnswer, tables]
    simp only [permitted, Bool.false_eq_true, if_false, hostAnswer, isHost,
      Option.filter_some, allowed]

/-! ## Misses -/

section

variable (isStage2 : config.stage = .stage2) (isStart : 2 ≤ config.start)
include isStage2 isStart

theorem miss_placed (inRange : guestGpa < config.span config.start) {shadow : Page}
    {flags : RegionFlags} (isPage : world.guestPage config guestGpa = some page)
    (filled : world.fill page guestGpa = some (shadow, flags)) (leaf : shadow.flags.leaf)
    (valid : shadow.flags.valid) :
    Placed config shadow ∧ (SwtlbEntry.mk page shadow flags).shadows guestGpa := by
  obtain ⟨level, size, base⟩ := guestPage_block isPage
  obtain ⟨low, small, _, shadowSize, shadowBase⟩ := fill_block filled size base
  obtain ⟨blocks, isSpan⟩ : blockSize low ∣ config.span config.start :=
    (Mmu.blockSize_dvd (small.trans isStart)).trans (dvd_mul_right _ _)
  have placed : Placed config shadow := by
    refine ⟨⟨low, small, shadowSize⟩, ?_, ?_, leaf, valid⟩
    · rw [shadowSize, shadowBase]
      exact dvd_mul_left _ _
    · rw [shadowSize, shadowBase, mapMask, isSpan]
      rw [isSpan] at inRange
      have last : guestGpa / blockSize low + 1 ≤ blocks := Nat.div_lt_of_lt_mul inRange
      calc guestGpa / blockSize low * blockSize low + blockSize low
          = blockSize low * (guestGpa / blockSize low + 1) := by ring
        _ ≤ blockSize low * blocks := mul_le_mul_left _ last
  refine ⟨placed, ?_⟩
  have around : guestGpa / shadow.sz = shadow.ia / shadow.sz := by
    rw [shadowSize, shadowBase, mapMask_div]
  exact (placed.shadows_iff isStage2 guestGpa).mpr around

theorem gstageMiss_translated (regular : Regular world.aspace world.fuel)
    (sound : Sound world st.npriv) (fenced : AllFenced world st.npriv)
    (noCause : st.xc.scause = none) (inRange : guestGpa < config.span config.start)
    (supplied : st.npriv.pgtbl.alloc.Supplied config.start)
    (missed : ∀ slot ∈ st.npriv.swtlb.active, ¬ (st.npriv.swtlb.entries slot).shadows guestGpa)
    (isPage : world.guestPage config guestGpa = some page)
    (tables : gstagePage config world st.xc guestGpa = .ok (st.xc, .ok page))
    (permitted : st.xc.gstagePermFault access page.flags = false) :
    ∃ st' result, gstageMiss world st page guestGpa access = .ok (st', result) ∧
      Translated world st.npriv st.xc guestGpa access st' result := by
  have expected : world.gstageAnswer config st.xc guestGpa access =
      some (world.hostAnswer st.xc.toSetting page guestGpa access) := by
    rw [gstageAnswer, tables]
    simp only [permitted, reduceCtorEq, reduceIte]
  unfold gstageMiss
  dsimp only
  rw [nestedXlateNostage_eq regular]
  cases found : (world.hostBlock (page.oa ||| guestGpa % page.sz)).filter
      fun host => nestedNostagePermCheck access host.regFlags with
  | none =>
    refine gstageFault_translated rfl sound fenced noCause rfl fun _ => ?_
    rw [expected, hostAnswer, found]
  | some host =>
    obtain ⟨isHost, isMemory⟩ := Option.filter_eq_some_iff.mp found
    dsimp only
    rw [← fitHost_regFlags page (page.oa ||| guestGpa % page.sz)] at isMemory
    generalize isFit : fitHost page (page.oa ||| guestGpa % page.sz) host = fit at isMemory ⊢
    let e : SwtlbEntry := ⟨page, shadowPage page guestGpa fit, fit.regFlags⟩
    have filled : world.fill page guestGpa = some (e.shadowPage, e.shadowRegFlags) := by
      simp only [fill, isHost, Option.map_some, isFit, e]
    obtain ⟨leaf, memory⟩ := shadowPage_leaf guestGpa permitted isMemory
    obtain ⟨isFenced, isFilled⟩ := regular.miss_current isPage filled memory
    obtain ⟨placed, around⟩ := miss_placed isStage2 isStart inRange isPage filled leaf rfl
    have apart : ∀ other ∈ st.npriv.swtlb.active, ∀ gpa, e.shadows gpa →
        ¬ (st.npriv.swtlb.entries other).shadows gpa := by
      intro other isOther gpa isNew isOld
      -- An entry that shadows a common address is the new one, and was found by the lookup.
      have same := (eq_of_shadows isFenced isFilled (fenced other isOther)
        (sound.filled other isOther) isNew isOld).2
      apply missed other isOther
      unfold SwtlbEntry.shadows
      rw [← same]
      exact around
    obtain ⟨npriv, updated, sound', entries, left⟩ :=
      sound.nestedSwtlbUpdate isStage2 isStart (access = .fetch) placed isFilled apart supplied
    have returns := updated
    dsimp only [e] at returns
    simp only [returns]
    refine ⟨_, _, rfl, sound', ?_, rfl, fun _ => noCause, left, ?_, ?_, ?_⟩
    · intro slot isActive
      rcases entries slot isActive with isNew | ⟨wasActive, isOld⟩
      · rw [isNew]
        exact isFenced
      · rw [isOld]
        exact fenced slot wasActive
    · intro _
      rw [expected, hostAnswer, found]
      simp only [isFit, answer]
    · rintro ⟨slot, isActive, shadows⟩
      exact absurd shadows (missed slot isActive)
    · intro n room _
      cases isFree : (st.npriv.swtlb.xtlb (access = .fetch)).freeList with
      | nil =>
        rw [isFree] at room
        cases room
      | cons slot rest =>
        rw [isFree] at room
        refine ⟨?_, ?_⟩
        · rw [nestedSwtlbUpdate_of_free isFree updated, Swtlb.xtlb_setXtlb]
          exact le_of_lt_succ room
        · intro page' isPage' other
          rw [isPage] at isPage'
          cases isPage'
          rw [sound.remembers_update (e := e) isFree updated]
          exact or_congr_right (covers_iff isStage2 placed filled around other).symm

/-- Where the guest page grants the access by itself, the answer is the one without a software TLB.
-/
theorem nestedXlateGstage_translated {npriv : Npriv config}
    (regular : Regular world.aspace world.fuel) (sound : Sound world npriv)
    (fenced : AllFenced world npriv) (noCause : xc.scause = none)
    (inRange : guestGpa < config.span config.start)
    (supplied : npriv.pgtbl.alloc.Supplied config.start) (access : Access) :
    ∃ st' result, nestedXlateGstage world ⟨npriv, xc⟩ guestGpa access = .ok (st', result) ∧
      Translated world npriv xc guestGpa access st' result := by
  unfold nestedXlateGstage
  rcases nestedSwtlbLookup_cases npriv.swtlb guestGpa with
    ⟨itlb, slot, isActive, shadows, lookup⟩ | ⟨missed, lookup⟩
  · rw [lookup]
    have isFenced := fenced slot (Swtlb.mem_active.mpr ⟨itlb, isActive⟩)
    dsimp only
    cases permitted : xc.gstagePermFault access (npriv.swtlb.entries slot).page.flags with
    | true =>
      rw [if_pos rfl]
      refine gstageFault_translated rfl (sound.touch isActive) (fenced.touch isActive) noCause rfl
        fun _ => ?_
      rw [gstageAnswer, gstagePage_of_guestPage regular noCause (isFenced guestGpa shadows)]
      simp only [permitted, if_true]
    | false =>
      rw [if_neg Bool.false_ne_true]
      exact gstageHit_translated isStage2 regular noCause sound fenced isActive shadows permitted
  · rw [lookup]
    dsimp only
    rcases gstagePage_cases regular noCause guestGpa with
      ⟨page, isPage, tables⟩ | ⟨noPage, xc', code, tables, sameSetting⟩
    · rw [tables]
      dsimp only
      cases permitted : xc.gstagePermFault access page.flags with
      | true =>
        rw [if_pos rfl]
        refine gstageFault_translated rfl sound fenced noCause rfl fun _ => ?_
        rw [gstageAnswer, tables]
        simp only [permitted, if_true]
      | false =>
        rw [if_neg Bool.false_ne_true]
        exact gstageMiss_translated isStage2 isStart regular sound fenced noCause inRange supplied
          missed isPage tables permitted
    · rw [tables]
      refine ⟨_, _, rfl, sound, fenced, sameSetting, fun isOk => absurd isOk error_ne_ok,
        fun n supplied => supplied.mono (le_add_left n _), fun _ => ?_, ?_,
        fun _ _ isOk => absurd isOk error_ne_ok⟩
      · rw [gstageAnswer, tables]
        rfl
      · intro _ page isPage
        rw [noPage] at isPage
        cases isPage

end

end Xvisor.Nested
