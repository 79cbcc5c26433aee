import Mathlib.Data.List.Basic

/-!
# Logs

A log is the list of the events of a run, the first one first. A property of an event may speak of
what was logged before it; `Along` says that every event of a log has it. A run that appends its
events one by one keeps `Along` if each new event has the property after the log so far
(`along_append_singleton`).
-/

namespace Log

variable {α : Type} {Q : List α → α → Prop} {log : List α}

/-- Every event of a log has a property, given the log before it. -/
def Along (Q : List α → α → Prop) (log : List α) : Prop :=
  ∀ l₁ e l₂, log = l₁ ++ e :: l₂ → Q l₁ e

theorem along_nil : Along Q [] := by
  intro l₁ e l₂ h
  exact absurd h.symm (by simp)

/-- A log with one more event. -/
theorem along_append_singleton {e : α} : Along Q (log ++ [e]) ↔ Along Q log ∧ Q log e := by
  refine ⟨fun h => ⟨fun l₁ x l₂ hlog => ?_, h log e [] rfl⟩, ?_⟩
  · refine h l₁ x (l₂ ++ [e]) ?_
    rw [hlog, List.append_assoc, List.cons_append]
  · rintro ⟨h, he⟩ l₁ x l₂ hlog
    -- the last event is the new one, or it is behind the one that is looked at
    rcases List.eq_nil_or_concat l₂ with rfl | ⟨l₂, y, rfl⟩
    · obtain ⟨rfl, hx⟩ := List.append_inj' hlog rfl
      cases hx
      exact he
    · rw [List.concat_eq_append, ← List.cons_append, ← List.append_assoc] at hlog
      obtain ⟨hlog, -⟩ := List.append_inj' hlog rfl
      exact h l₁ x l₂ hlog

/-- A log with two more events. -/
theorem along_append_pair {a b : α} :
    Along Q (log ++ [a, b]) ↔ Along Q log ∧ Q log a ∧ Q (log ++ [a]) b := by
  rw [List.append_cons, along_append_singleton, along_append_singleton, and_assoc]

/-- What follows from a property of every event. -/
theorem Along.mono {Q' : List α → α → Prop} (h : Along Q log) (hQ : ∀ l e, Q l e → Q' l e) :
    Along Q' log :=
  fun l₁ e l₂ hlog => hQ l₁ e (h l₁ e l₂ hlog)

/-- Two logs, one after the other. -/
theorem along_append {l l' : List α} :
    Along Q (l ++ l') ↔ Along Q l ∧ Along (fun m => Q (l ++ m)) l' := by
  refine ⟨fun h => ⟨fun l₁ x l₂ hl => ?_, fun l₁ x l₂ hl => ?_⟩, ?_⟩
  · refine h l₁ x (l₂ ++ l') ?_
    rw [hl, List.append_assoc, List.cons_append]
  · refine h (l ++ l₁) x l₂ ?_
    rw [hl, List.append_assoc]
  · rintro ⟨h, h'⟩ l₁ x l₂ hl
    -- the event is in the first log, or in the second one
    rcases List.append_eq_append_iff.1 hl with ⟨m, rfl, hm⟩ | ⟨m, hm, hm'⟩
    · exact h' m x l₂ hm
    · cases m with
      | nil =>
        rw [List.append_nil] at hm
        subst hm
        have hx : Q (l ++ []) x := h' [] x l₂ hm'.symm
        rwa [List.append_nil] at hx
      | cons y m =>
        rw [List.cons_append, List.cons.injEq] at hm'
        obtain ⟨rfl, rfl⟩ := hm'
        exact h l₁ x m hm

end Log
