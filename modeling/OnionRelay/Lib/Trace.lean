import Mathlib.Data.List.Basic
import Mathlib.Tactic.Common

/-!
# What has happened so far

A trace is the list of what happened, the latest at its end.  `Since starts ends` says
that something of `starts` happened and nothing of `ends` has happened since then;
`Throughout p` that `p` held of each thing that happened, with what had happened before.

Both are kept up as the trace grows: `Since` by what does not end it (`Since.append`),
`Throughout` by what meets `p` when it happens (`throughout_append`).
-/

namespace OnionRelay.Lib.Trace

variable {α : Type} {starts ends : α → Prop} {p : List α → α → Prop} {trace more : List α} {a : α}

def Since (starts ends : α → Prop) (trace : List α) : Prop :=
  ∃ before a behind, trace = before ++ a :: behind ∧ starts a ∧ ∀ b ∈ behind, ¬ ends b

/-- Each thing that happened met `p` of what had happened before it. -/
def Throughout (p : List α → α → Prop) (trace : List α) : Prop :=
  ∀ before a behind, trace = before ++ a :: behind → p before a

theorem since_concat (trace : List α) (h : starts a) : Since starts ends (trace ++ [a]) :=
  ⟨trace, a, [], rfl, h, fun _ hb => absurd hb List.not_mem_nil⟩

theorem Since.append (h : Since starts ends trace) (hmore : ∀ b ∈ more, ¬ ends b) :
    Since starts ends (trace ++ more) := by
  obtain ⟨before, a, behind, rfl, ha, hbehind⟩ := h
  refine ⟨before, a, behind ++ more, by rw [List.append_assoc, List.cons_append], ha, fun b hb => ?_⟩
  exact (List.mem_append.mp hb).elim (hbehind b) (hmore b)

theorem throughout_nil : Throughout p [] := fun before a behind h => absurd h (by simp)

theorem throughout_append :
    Throughout p (trace ++ more) ↔
      Throughout p trace ∧ Throughout (fun before a => p (trace ++ before) a) more := by
  constructor
  · intro h
    refine ⟨fun before a behind htrace => ?_, fun before a behind hmore => ?_⟩
    · exact h before a (behind ++ more) (by rw [htrace, List.append_assoc, List.cons_append])
    · exact h (trace ++ before) a behind (by rw [hmore, List.append_assoc])
  · rintro ⟨htrace, hmore⟩ before a behind h
    rcases List.append_eq_append_iff.mp h with ⟨rest, rfl, hrest⟩ | ⟨rest, rfl, hrest⟩
    · exact hmore rest a behind hrest
    · cases rest with
      | nil => simpa only [List.append_nil] using hmore [] a behind hrest.symm
      | cons b rest =>
        obtain ⟨rfl, -⟩ := List.cons.inj hrest
        exact htrace before a rest rfl

theorem throughout_concat : Throughout p (trace ++ [a]) ↔ Throughout p trace ∧ p trace a := by
  rw [throughout_append]
  refine and_congr_right fun _ => ⟨fun h => ?_, fun h before b _ hb => ?_⟩
  · exact List.append_nil trace ▸ h [] a [] rfl
  · rcases before with - | ⟨c, before⟩
    · obtain ⟨rfl, -⟩ := List.cons.inj hb
      exact (List.append_nil trace).symm ▸ h
    · exact absurd (List.cons.inj hb).2 (by simp)

/-- What is only about the thing itself. -/
theorem throughout_of_forall (h : ∀ before, ∀ a ∈ trace, p before a) : Throughout p trace :=
  fun before a _ htrace => h before a (htrace ▸ List.mem_append_right before List.mem_cons_self)

/-- What is about the thing and those of the trace before it. -/
theorem throughout_of_mem (h : ∀ before, (∀ b ∈ before, b ∈ trace) → ∀ a ∈ trace, p before a) :
    Throughout p trace := by
  rintro before a behind rfl
  exact h before (fun b hb => List.mem_append_left _ hb) a (List.mem_append_right _ List.mem_cons_self)

theorem throughout_cons :
    Throughout p (a :: trace) ↔ p [] a ∧ Throughout (fun before b => p (a :: before) b) trace := by
  rw [show a :: trace = [a] ++ trace from rfl, throughout_append]
  refine and_congr_left fun _ => ?_
  rw [show [a] = [] ++ [a] from rfl, throughout_concat]
  exact and_iff_right throughout_nil

theorem Throughout.mono {q : List α → α → Prop} (h : Throughout p trace)
    (hpq : ∀ before, ∀ b ∈ trace, p before b → q before b) : Throughout q trace :=
  fun before b behind htrace =>
    hpq before b (htrace ▸ List.mem_append_right before List.mem_cons_self) (h before b behind htrace)

end OnionRelay.Lib.Trace
