/-!
# Worklists that sink

A worklist is processed from the front.  A step takes the first item off, puts any number of new
items in its place, and may drop items anywhere behind it.  If every new item lies on a lower level
than the one it came from, this cannot go on forever — however many items a step adds.

`Worklist.Sinks` is that relation, and `Worklist.sinks_wellFounded` the fact.  The proof needs no
count of anything: a list is accessible as soon as its tail is (`acc_cons`, by induction on the
level of the head), and dropping items only takes steps away (`acc_of_sublist`).
-/

set_option autoImplicit false

namespace ShaderKit
namespace Worklist

variable {α : Type}

/-- One step from `old` to `new`: the head of `old` is replaced by items of lower level, and the
rest of it thinned out. -/
def Sinks (level : α → Nat) (new old : List α) : Prop :=
  ∃ head tail fresh kept, old = head :: tail ∧ new = fresh ++ kept ∧
    (∀ x ∈ fresh, level x < level head) ∧ kept.Sublist tail

variable {level : α → Nat}

theorem acc_of_sublist {l s : List α} (h : Acc (Sinks level) l) (hs : s.Sublist l) :
    Acc (Sinks level) s := by
  cases hs with
  | slnil => exact h
  | @cons s l b hs => exact h.inv ⟨b, l, [], s, rfl, rfl, by simp, hs⟩
  | @cons_cons s l b hs =>
    refine Acc.intro _ fun new hnew => h.inv ?_
    obtain ⟨head, tail, fresh, kept, hold, hfresh, hlt, hkept⟩ := hnew
    obtain ⟨rfl, rfl⟩ := List.cons.inj hold
    exact ⟨b, l, fresh, kept, rfl, hfresh, hlt, hkept.trans hs⟩

theorem acc_cons (n : Nat) (a : α) (ha : level a = n) (l : List α) (h : Acc (Sinks level) l) :
    Acc (Sinks level) (a :: l) := by
  induction n using Nat.strongRecOn generalizing a l with
  | ind n ih =>
    refine Acc.intro _ fun new hnew => ?_
    obtain ⟨head, tail, fresh, kept, hold, rfl, hlt, hkept⟩ := hnew
    obtain ⟨rfl, rfl⟩ := List.cons.inj hold
    induction fresh with
    | nil => exact acc_of_sublist h hkept
    | cons x fresh ihf =>
      exact ih (level x) (ha ▸ hlt x (by simp)) x rfl (fresh ++ kept)
        (ihf fun y hy => hlt y (by simp [hy]))

/-- No worklist can be processed forever. -/
theorem sinks_wellFounded (level : α → Nat) : WellFounded (Sinks level) := by
  refine ⟨fun l => ?_⟩
  induction l with
  | nil =>
    refine Acc.intro _ fun new hnew => ?_
    obtain ⟨head, tail, fresh, kept, hold, _⟩ := hnew
    cases hold
  | cons a l ih => exact acc_cons _ a rfl l ih

end Worklist
end ShaderKit
