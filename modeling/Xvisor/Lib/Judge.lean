/-!
# Checks in order

An operation that passes a list of checks ends at the first one that refuses it.
Two judges of one list come to the same end unless they part at some check: then
the one that goes on has to be refused later, with the same result.
-/

namespace Xvisor.Lib

universe u v

variable {α : Type u} {β : Type v}

/-- The result of the first check that refuses, or `done`; the checks that were passed before are
given last first. -/
def judge (passes : List α → α → Bool) (refusal : α → β) (done : β) : List α → List α → β
  | _, [] => done
  | earlier, check :: rest =>
    if passes earlier check then judge passes refusal done (check :: earlier) rest
    else refusal check

/-- Where the two judges part, if they do, the one that goes on is refused with the same result. -/
def SameEnd (passes passes' : List α → α → Bool) (refusal : α → β) (done : β) :
    List α → List α → Prop
  | _, [] => True
  | earlier, check :: rest =>
    match passes earlier check, passes' earlier check with
    | true, true => SameEnd passes passes' refusal done (check :: earlier) rest
    | true, false => judge passes refusal done (check :: earlier) rest = refusal check
    | false, true => judge passes' refusal done (check :: earlier) rest = refusal check
    | false, false => True

variable {passes passes' : List α → α → Bool} {refusal : α → β} {done : β}

theorem judge_eq_iff (earlier checks : List α) :
    judge passes refusal done earlier checks = judge passes' refusal done earlier checks ↔
      SameEnd passes passes' refusal done earlier checks := by
  induction checks generalizing earlier with
  | nil => exact iff_of_true rfl trivial
  | cons check rest ih =>
    unfold judge SameEnd
    cases passes earlier check with
    | true =>
      cases passes' earlier check with
      | true => exact ih (check :: earlier)
      | false => exact Iff.rfl
    | false =>
      cases passes' earlier check with
      | true => exact eq_comm
      | false => exact iff_of_true rfl trivial

theorem SameEnd.of_alike {earlier checks : List α}
    (alike : ∀ check ∈ checks, ∀ earlier, passes earlier check = passes' earlier check) :
    SameEnd passes passes' refusal done earlier checks := by
  induction checks generalizing earlier with
  | nil => exact trivial
  | cons check rest ih =>
    unfold SameEnd
    rw [alike check List.mem_cons_self earlier]
    cases passes' earlier check with
    | true =>
      exact ih fun other mem =>
        alike other (List.mem_cons_of_mem check mem)
    | false => exact trivial

end Xvisor.Lib
