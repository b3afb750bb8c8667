import Mathlib.Data.Nat.Notation
import Mathlib.Tactic.Common
import OrderRelay.Link.Basic

/-!
# Closing a link that tasks share

Any number of tasks share one link. Each use of the link takes effect at one moment, and which task
makes its next use is up to a schedule. Whatever the schedule, the uses are those of one sequence,
and what a use gives depends only on whether the link has been closed before it.

* `Step.given`: what a use gives, by whether the link has been closed before.
* `link_run`, `outcomes_run`, `releases_run`: the link after a sequence of uses, what each of them
  gives, and how many of them have released the link.
* `Sharing`, `Sharing.run`: tasks that share a link, under a schedule.
* `Sharing.run_traced`: **whatever the schedule, the uses are those of one sequence**, in which each
  task makes its own uses in their order.
* `Traced.outcome_eq`, `Traced.releases_eq`: what each use gives, and that the link is released
  exactly once if it is closed at the end.
-/

namespace OrderRelay.Link

/-! ## A sequence of uses -/

/-- Whether a use closes the link. -/
@[simp]
def Step.closes : Step → Bool
  | .close => true
  | .look | .handle => false

/-- What a use gives of a link that has been closed before, or has not. -/
def Step.given (closed : Bool) : Step → Outcome
  | .look => .state !closed
  | .handle => .handle (if closed then .error .linkClosed else .ok ())
  | .close => .closed !closed

/-- Whether a use has released the link. -/
def Outcome.isRelease : Outcome → Bool
  | .closed first => first
  | .state _ | .handle _ => false

theorem outcome_step (l : Link) (s : Step) : (l.step s).2 = s.given !l.isOpen := by
  cases s with
  | look => simp [step, Step.given]
  | handle =>
    simp only [step, Step.given, handle]
    cases l.isOpen <;> rfl
  | close => simp [step, Step.given, close]

theorem link_step (l : Link) (s : Step) :
    (l.step s).1 = { l with isOpen := l.isOpen && !s.closes } := by
  cases s <;> simp [step, close]

theorem run_append (l : Link) (steps more : List Step) :
    l.run (steps ++ more) =
      (((l.run steps).1.run more).1, (l.run steps).2 ++ ((l.run steps).1.run more).2) := by
  induction steps generalizing l with
  | nil => rfl
  | cons s steps ih => simp only [List.cons_append, run, ih]

/-- The link after one more use, and what it gives. -/
theorem run_concat (l : Link) (steps : List Step) (s : Step) :
    l.run (steps ++ [s]) =
      (((l.run steps).1.step s).1, (l.run steps).2 ++ [((l.run steps).1.step s).2]) :=
  run_append l steps [s]

/-- **The link after a sequence of uses**: it is open until the first close. -/
theorem link_run (l : Link) (steps : List Step) :
    (l.run steps).1 = { l with isOpen := l.isOpen && !steps.any Step.closes } := by
  induction steps generalizing l with
  | nil => simp [run]
  | cons s steps ih =>
    simp only [run, ih, link_step, List.any_cons, Bool.not_or, Bool.and_assoc]

/-- **What each of a sequence of uses gives** depends on whether the link has been closed before. -/
theorem outcomes_run (l : Link) (steps : List Step) (n : ℕ) :
    (l.run steps).2[n]? =
      steps[n]?.map (Step.given (!l.isOpen || (steps.take n).any Step.closes)) := by
  induction steps generalizing l n with
  | nil => rfl
  | cons s steps ih =>
    cases n with
    | zero => simp [run, outcome_step]
    | succ n =>
      simp only [run, List.getElem?_cons_succ, ih, link_step, List.take_succ_cons, List.any_cons,
        Bool.not_and, Bool.not_not, Bool.or_assoc]

/-- **A link is released at most once**, namely when it is closed. -/
theorem releases_run (l : Link) (steps : List Step) :
    (l.run steps).2.countP Outcome.isRelease = (l.isOpen && steps.any Step.closes).toNat := by
  induction steps generalizing l with
  | nil => simp [run]
  | cons s steps ih =>
    simp only [run, List.countP_cons, ih, link_step, outcome_step]
    -- only a close of an open link releases it, and then no other does
    cases s <;> cases l.isOpen <;> simp [Step.given, Outcome.isRelease]

/-! ## Tasks that share a link -/

/-- A use of the link by one of the tasks, and what it has given. -/
structure Use where
  task : ℕ
  step : Step
  outcome : Outcome

/-- Whether a link has been closed in the course of some uses. -/
def closedBy (uses : List Use) : Bool := (uses.map (·.step)).any Step.closes

/-- Tasks that share a link. -/
structure Sharing where
  link : Link
  /-- What each task has still to do. -/
  left : List (List Step)
  /-- The uses so far, in their order. -/
  uses : List Use

namespace Sharing

/-- Tasks that have not begun. -/
def start (link : Link) (tasks : List (List Step)) : Sharing := ⟨link, tasks, []⟩

/-- One of the tasks makes its next use, unless it has none left. -/
def step (s : Sharing) (i : ℕ) : Sharing :=
  match s.left[i]? with
  | some (use :: rest) =>
    ⟨(s.link.step use).1, s.left.set i rest, s.uses ++ [⟨i, use, (s.link.step use).2⟩]⟩
  | _ => s

/-- The tasks make their uses as the schedule says. -/
def run (s : Sharing) (schedule : List ℕ) : Sharing := schedule.foldl step s

/-- What a task has done. -/
def doneBy (s : Sharing) (i : ℕ) : List Step :=
  (s.uses.filter fun use => use.task = i).map (·.step)

/-- **The uses are those of one sequence**: the link and what each use has given are as they would
be in that sequence, and each task has made its own uses in their order. -/
structure Traced (link : Link) (tasks : List (List Step)) (s : Sharing) : Prop where
  sequence : link.run (s.uses.map (·.step)) = (s.link, s.uses.map (·.outcome))
  tasks : ∀ i, s.doneBy i ++ s.left[i]?.getD [] = tasks[i]?.getD []

variable {link : Link} {tasks : List (List Step)} {s : Sharing}

theorem start_traced (link : Link) (tasks : List (List Step)) :
    (start link tasks).Traced link tasks :=
  ⟨rfl, fun _ => rfl⟩

/-- The next use of a task goes on with the sequence. -/
theorem step_traced (h : s.Traced link tasks) (i : ℕ) : (s.step i).Traced link tasks := by
  unfold step
  split
  · rename_i use rest hleft
    refine ⟨?_, fun j => ?_⟩
    · simp only [List.map_append, List.map_cons, List.map_nil]
      rw [run_concat, h.sequence]
    · have hj := h.tasks j
      simp only [doneBy, List.filter_append, List.map_append] at hj ⊢
      by_cases hij : i = j
      · -- what the task has done has moved from what it had left
        subst hij
        have hlt : i < s.left.length := (List.getElem?_eq_some_iff.1 hleft).1
        rw [hleft] at hj
        rw [← hj]
        simp [hlt]
      · rw [← hj, List.getElem?_set_ne hij]
        simp [hij]
  · exact h

/-- **Whatever the schedule, the uses are those of one sequence.** -/
theorem run_traced (link : Link) (tasks : List (List Step)) (schedule : List ℕ) :
    ((start link tasks).run schedule).Traced link tasks := by
  have hrun : ∀ (schedule : List ℕ) (s : Sharing), s.Traced link tasks →
      (s.run schedule).Traced link tasks := by
    intro schedule
    induction schedule with
    | nil => exact fun s h => h
    | cons i schedule ih => exact fun s h => ih _ (step_traced h i)
  exact hrun schedule _ (start_traced link tasks)

/-- The link is open until it has been closed. -/
theorem Traced.link_eq (h : s.Traced link tasks) :
    s.link = { link with isOpen := link.isOpen && !closedBy s.uses } := by
  have hlink := link_run link (s.uses.map (·.step))
  rw [h.sequence] at hlink
  exact hlink

/-- **What each use gives** depends on whether the link has been closed before it. -/
theorem Traced.outcome_eq (h : s.Traced link tasks) {n : ℕ} {use : Use}
    (hn : s.uses[n]? = some use) :
    use.outcome = use.step.given (!link.isOpen || closedBy (s.uses.take n)) := by
  have houtcome := outcomes_run link (s.uses.map (·.step)) n
  rw [h.sequence, List.getElem?_map, List.getElem?_map, hn, ← List.map_take] at houtcome
  exact Option.some.inj houtcome

/-- **A link is released exactly once** if it is closed at the end, which one of the tasks may have
done before. -/
theorem Traced.releases_eq (h : s.Traced link tasks) :
    s.uses.countP (·.outcome.isRelease) + s.link.close.2.toNat = link.isOpen.toNat := by
  have hreleases := releases_run link (s.uses.map (·.step))
  rw [h.sequence, List.countP_map] at hreleases
  have hclose : s.link.close.2 = (link.isOpen && !closedBy s.uses) := by
    rw [h.link_eq]
    rfl
  have hcount : s.uses.countP (·.outcome.isRelease) = (link.isOpen && closedBy s.uses).toNat :=
    hreleases
  rw [hcount, hclose]
  cases link.isOpen <;> cases closedBy s.uses <;> rfl

end Sharing

end OrderRelay.Link
