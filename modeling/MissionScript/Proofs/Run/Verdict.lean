import MissionScript.Proofs.Run.Replay

/-!
# Verdicts

The verdict of a run can be worked out from its trace and the level alone (`run_judged`): what the
frames say is the text spoken, an error is told by the last frame, and without an error the rover's
path and the text decide.

A level whose issues name a target other than the start is never solved (`run_unsolved_of_issue`):
such a target is not a free cell, and the rover only comes to free cells.
-/

namespace MissionScript

namespace Outcome

variable {level : Level} {limits : Limits} {t : Trace}

theorem initial_eq (h : Outcome level limits t) : t.initial = level.opening := by
  cases h <;> rfl

theorem output_eq (h : Outcome level limits t) :
    t.output = "\n".intercalate (spokenIn t.frames) := by
  cases h with
  | finished log hlen houtput => exact houtput
  | failed line log hlen houtput => simpa [spokenIn] using houtput

/-- Without an error, the path of the rover and the text spoken decide. -/
theorem verdict_cases (h : Outcome level limits t) :
    (∃ e, t.verdict = .failed e)
      ∨ (t.verdict = .met ∧ level.Solved (t.path t.frames.length) t.output)
      ∨ (∃ message, t.verdict = .unmet message)
        ∧ ¬ level.Solved (t.path t.frames.length) t.output := by
  cases h with
  | finished log hlen houtput hverdict =>
    unfold Trace.path
    rw [List.take_length]
    exact .inr hverdict
  | failed line log => exact .inl ⟨_, rfl⟩

theorem reason_eq_error_iff (h : Outcome level limits t) :
    t.verdict.reason = .error ↔ t.verdict.error ≠ none := by
  rcases h.verdict_cases with ⟨e, he⟩ | ⟨hmet, -⟩ | ⟨⟨m, hunmet⟩, -⟩
  · rw [he]
    exact iff_of_true rfl (Option.some_ne_none e)
  · simp [hmet, Verdict.met]
  · simp [hunmet, Verdict.unmet]

end Outcome

/-- The verdict of a trace follows from the level and from the rest of the trace. -/
structure Trace.Judged (level : Level) (t : Trace) : Prop where
  output : t.output = "\n".intercalate (t.frames.filterMap (·.log))
  fails : t.verdict.reason = .error ↔ ∃ f ∈ t.frames, f.error ≠ none
  /-- An error is told by the last frame in the words of the verdict. -/
  tells {i : Nat} {f : Frame} {message : String} : t.frames[i]? = some f →
    f.error = some message →
    i + 1 = t.frames.length ∧ t.verdict.message = some message ∧ t.verdict.success = false
      ∧ ∃ e, t.verdict.error = some e ∧ e.message = message
  /-- Without an error the goals decide: the rover has been on every target, and the text spoken is
  the one wanted, if any is. -/
  succeeds : t.verdict.reason ≠ .error →
    (t.verdict.success = true
      ↔ (∀ q ∈ level.targets, q = t.initial.pos ∨ ∃ f ∈ t.frames, q = f.snapshot.pos)
        ∧ ∀ wanted, level.requiredOutput = some wanted → t.output = wanted)
  reason : t.verdict.reason ≠ .error →
    t.verdict.reason = if t.verdict.success then .success else .incomplete

theorem run_judged (p : Program) (level : Level) (limits : Limits) :
    (run p level limits).Judged level := by
  have h := run_outcome p level limits
  have hpath (q : Position) : q ∈ (run p level limits).path (run p level limits).frames.length
      ↔ q = (run p level limits).initial.pos
        ∨ ∃ f ∈ (run p level limits).frames, q = f.snapshot.pos := by
    simp [Trace.path, Snapshot.path, eq_comm]
  constructor
  case output => exact h.output_eq
  case fails =>
    constructor
    · intro hreason
      have herror := h.reason_eq_error_iff.mp hreason
      obtain ⟨i, f, hf, -, e, d, line, rfl, -⟩ := h.endsAt_of_error herror
      exact ⟨_, List.mem_of_getElem? hf, Option.some_ne_none _⟩
    · rintro ⟨f, hf, herror⟩
      obtain ⟨i, hi⟩ := List.getElem?_of_mem hf
      obtain ⟨-, e, d, line, -, hverdict, -⟩ := h.endsAt_of_frame hi herror
      rw [hverdict]
      rfl
  case tells =>
    intro i f message hf herror
    obtain ⟨hlast, e, d, line, rfl, hverdict, -⟩ := h.endsAt_of_frame hf (by simp [herror])
    cases herror
    rw [hverdict]
    exact ⟨hlast, rfl, rfl, _, rfl, rfl⟩
  case succeeds =>
    intro hreason
    simp only [← hpath]
    rcases h.verdict_cases with ⟨e, he⟩ | ⟨hmet, hsolved⟩ | ⟨⟨m, hunmet⟩, hsolved⟩
    · exact absurd (he ▸ rfl) hreason
    · rw [hmet]
      exact iff_of_true rfl hsolved
    · rw [hunmet]
      exact iff_of_false Bool.false_ne_true hsolved
  case reason =>
    intro hreason
    rcases h.verdict_cases with ⟨e, he⟩ | ⟨hmet, -⟩ | ⟨⟨m, hunmet⟩, -⟩
    · exact absurd (he ▸ rfl) hreason
    · rw [hmet]
      rfl
    · rw [hunmet]
      rfl

namespace Level

variable {level : Level} {p q : Position}

theorem targetIssue?_eq_none_iff : level.targetIssue? p = none ↔ level.IsFree p := by
  unfold targetIssue? IsFree
  by_cases hgrid : level.grid.contains p <;> simp [hgrid]

theorem targetIssue?_eq_some {issue : LevelIssue} (h : level.targetIssue? p = some issue) :
    issue = .targetOutOfBounds p ∨ issue = .targetOnObstacle p := by
  unfold targetIssue? at h
  split at h
  · exact .inl (Option.some.inj h).symm
  · split at h
    · exact .inr (Option.some.inj h).symm
    · cases h

theorem mem_issues_iff_targetIssue? {issue : LevelIssue}
    (h : issue = .targetOutOfBounds q ∨ issue = .targetOnObstacle q) :
    issue ∈ level.issues ↔ ∃ p ∈ level.targets, level.targetIssue? p = some issue := by
  have hstart : issue ∉ level.startIssues := by
    unfold startIssues
    rcases h with rfl | rfl <;> split <;> split <;> simp
  have hrocks : issue ∉ level.obstacles.filterMap level.obstacleIssue? := by
    rcases h with rfl | rfl <;> simp [List.mem_filterMap, obstacleIssue?]
  have hgoal : issue ∉ level.goalIssues := by
    unfold goalIssues
    rcases h with rfl | rfl <;> split <;> simp
  unfold issues
  simp only [List.mem_append, hstart, hrocks, hgoal, or_false, false_or, List.mem_filterMap]

/-- The targets that issues name are those on which a rover cannot come to stand. -/
theorem target_named_iff :
    (.targetOutOfBounds q ∈ level.issues ∨ .targetOnObstacle q ∈ level.issues)
      ↔ q ∈ level.targets ∧ ¬ level.IsFree q := by
  rw [mem_issues_iff_targetIssue? (.inl rfl), mem_issues_iff_targetIssue? (.inr rfl)]
  constructor
  · rintro (⟨p, hp, hissue⟩ | ⟨p, hp, hissue⟩) <;>
    · have hpq : p = q := by
        rcases targetIssue?_eq_some hissue with heq | heq <;> cases heq
        rfl
      subst hpq
      exact ⟨hp, fun hfree => by rw [targetIssue?_eq_none_iff.mpr hfree] at hissue; cases hissue⟩
  · rintro ⟨hq, hfree⟩
    rcases hissue : level.targetIssue? q with _ | issue
    · exact absurd (targetIssue?_eq_none_iff.mp hissue) hfree
    · rcases targetIssue?_eq_some hissue with rfl | rfl
      · exact .inl ⟨q, hq, hissue⟩
      · exact .inr ⟨q, hq, hissue⟩

end Level

/-- A run has success only if the rover can come to all targets but the one that it starts on. -/
theorem Outcome.targets_free {level : Level} {limits : Limits} {t : Trace}
    (h : Outcome level limits t) (hsuccess : t.verdict.success = true) {q : Position}
    (hq : q ∈ level.targets) : q = level.start ∨ level.IsFree q := by
  rcases h.verdict_cases with ⟨e, he⟩ | ⟨-, hsolved⟩ | ⟨⟨m, hunmet⟩, -⟩
  · rw [he] at hsuccess
    cases hsuccess
  · rcases List.mem_cons.mp (hsolved.1 q hq) with hstart | hlater
    · rw [h.initial_eq] at hstart
      exact .inl hstart
    · obtain ⟨f, hf, rfl⟩ := List.mem_map.mp hlater
      rw [List.take_length] at hf
      exact h.pos_free hf
  · rw [hunmet] at hsuccess
    cases hsuccess

theorem run_unsolved_of_issue (p : Program) (level : Level) (limits : Limits) {q : Position}
    (hstart : q ≠ level.start)
    (hissue : .targetOutOfBounds q ∈ level.issues ∨ .targetOnObstacle q ∈ level.issues) :
    (run p level limits).verdict.success = false := by
  obtain ⟨hq, hblocked⟩ := Level.target_named_iff.mp hissue
  by_contra hsuccess
  rcases (run_outcome p level limits).targets_free (eq_true_of_ne_false hsuccess) hq with h | hfree
  · exact hstart h
  · exact hblocked hfree

/-- In a lane of two cells the target is under a rock: the rover that is sent there is stopped, and
one that stays where it is has not been there either. -/
theorem run_unsolved_of_issue_lane :
    let sent : Program :=
      ⟨[.expr (.call ⟨"move_right", default⟩ [] default) default], default⟩
    let lane : Level := { (default : Level) with
      grid := ⟨1, 2⟩
      startDirection := .right
      targets := [⟨1, 0⟩]
      obstacles := [⟨1, 0⟩] }
    (⟨1, 0⟩ : Position) ≠ lane.start ∧ .targetOnObstacle ⟨1, 0⟩ ∈ lane.issues
      ∧ (run sent lane .standard).verdict.success = false
      ∧ (run ⟨[], default⟩ lane .standard).verdict.success = false := by
  intro sent lane
  have hstart : (⟨1, 0⟩ : Position) ≠ lane.start := by decide
  have hissue : .targetOnObstacle ⟨1, 0⟩ ∈ lane.issues := by decide
  exact ⟨hstart, hissue, run_unsolved_of_issue sent lane .standard hstart (.inr hissue),
    run_unsolved_of_issue ⟨[], default⟩ lane .standard hstart (.inr hissue)⟩

end MissionScript
