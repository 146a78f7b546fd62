import MissionScript.Proofs.Mission.Log
import MissionScript.Proofs.Run.Trail

/-!
# The log mirrors the session

A session that a script can reach is mirrored by its frames: they are a log of the level, they end
in the world as it is, there are as many of them as steps were taken, and the lines spoken are the
ones that they carry. A run leaves these frames and, if an error ends it, one more (`run_outcome`).
-/

namespace MissionScript

theorem StepBudget.consume?_eq_some {b b' : StepBudget} (h : b.consume? = some b') :
    b.taken < b.limit ∧ b' = { b with taken := b.taken + 1 } := by
  unfold consume? at h
  split at h
  · cases h
    exact ⟨‹_›, rfl⟩
  · cases h

theorem Recorder.record_of_unsealed {r : Recorder} (h : r.isSealed = false) (w : World)
    (line : Nat) (log error : Option String) :
    r.record w line log error =
      ⟨r.initial, r.frames.push (r.next w line log error), error.isSome⟩ := by
  simp [record, h]

/-- How many steps a run may take: as many as the level has moves, if it sets any, and no more than
the ceiling. -/
def Limits.steps (limits : Limits) (level : Level) : Nat :=
  match level.maxMoves with
  | some m => min m limits.stepCeiling
  | none => limits.stepCeiling

/-- The lines spoken in some frames. -/
def spokenIn (frames : List Frame) : List String := frames.filterMap (·.log)

namespace Session

/-- The frames of the session and the limit on its steps mirror all else in it. -/
structure Mirrors (level : Level) (limits : Limits) (s : Session) : Prop where
  grid : s.world.grid = level.grid
  obstacles : s.world.obstacles = level.obstacles
  initial : s.recorder.initial = level.opening
  unsealed : s.recorder.isSealed = false
  log : Log level s.recorder.frames.toList s.world.snapshot
  taken : s.steps.taken = s.recorder.frames.size
  within : s.steps.taken ≤ s.steps.limit
  limit : s.steps.limit = limits.steps level
  output : s.output.toList = spokenIn s.recorder.frames.toList

variable {level : Level} {limits : Limits} {s s' : Session}

theorem Mirrors.ahead_ok (h : s.Mirrors level limits) {d : Direction} {p : Position}
    (hp : ahead s.world d = .ok p) : s.world.pos.step? d = some p ∧ level.IsFree p := by
  unfold ahead at hp
  rcases hq : s.world.pos.step? d with _ | q <;> rw [hq] at hp
  · cases hp
  · dsimp only at hp
    unfold World.obstruction? at hp
    rw [h.grid, h.obstacles] at hp
    split_ifs at hp with hg hr
    cases hp
    simp only [Bool.not_eq_true, Bool.not_eq_false'] at hg
    simp only [List.contains_iff_mem] at hr
    exact ⟨rfl, hg, hr⟩

theorem Mirrors.ahead_error (h : s.Mirrors level limits) {d : Direction} {o : Obstruction}
    (ho : ahead s.world d = .error o) : level.Blocks s.world.pos d o := by
  unfold ahead at ho
  rcases hq : s.world.pos.step? d with _ | q <;> rw [hq] at ho
  · cases ho
    exact .outOfBounds fun q hq' => by rw [hq] at hq'; cases hq'
  · dsimp only at ho
    unfold World.obstruction? at ho
    rw [h.grid, h.obstacles] at ho
    split_ifs at ho with hg hr
    · cases ho
      refine .outOfBounds fun q' hq' => ?_
      rw [hq] at hq'
      cases hq'
      simpa using hg
    · cases ho
      exact .rock hq (by simpa using hg) (by simpa using hr)

theorem start_mirrors (level : Level) (limits : Limits) :
    (start level limits.stepCeiling limits.gasLimit).Mirrors level limits := by
  have hb : StepBudget.start level.maxMoves limits.stepCeiling = ⟨0, limits.steps level⟩ := by
    unfold StepBudget.start Limits.steps
    rcases level.maxMoves with _ | m <;> rfl
  unfold start
  rw [hb]
  exact ⟨rfl, rfl, rfl, rfl, .start, rfl, Nat.zero_le _, rfl, rfl⟩

/-- A frame that comes next, recorded, with the step that was taken for it. -/
theorem Mirrors.record (h : s.Mirrors level limits) {b : StepBudget}
    (hb : s.steps.consume? = some b) (w : World) (log : Option String)
    (hgrid : w.grid = level.grid) (hobstacles : w.obstacles = level.obstacles)
    (hnext : Next level s.recorder.frames.size s.world.snapshot
      (s.recorder.next w s.line log none)) :
    Mirrors level limits
      { s with
        steps := b
        world := w
        output := s.output ++ log.toArray
        recorder := s.recorder.record w s.line log none } := by
  obtain ⟨hlt, rfl⟩ := StepBudget.consume?_eq_some hb
  rw [Recorder.record_of_unsealed h.unsealed]
  refine ⟨hgrid, hobstacles, h.initial, rfl, ?_, ?_, hlt, h.limit, ?_⟩
  · rw [Array.toList_push]
    exact h.log.next (by simpa using hnext)
  · simp [h.taken]
  · simp only [Array.toList_append, Array.toList_push, spokenIn, List.filterMap_append, h.output]
    cases log <;> rfl

theorem Step.mirrors (hs : Step s s') (h : s.Mirrors level limits) :
    s'.Mirrors level limits := by
  cases hs with
  | charge n => exact ⟨h.1, h.2, h.3, h.4, h.5, h.6, h.7, h.8, h.9⟩
  | setLine line => exact ⟨h.1, h.2, h.3, h.4, h.5, h.6, h.7, h.8, h.9⟩
  | @move b d p hb hp =>
    obtain ⟨hstep, hfree⟩ := h.ahead_ok hp
    have := h.record hb ((s.world.place p d).collect p) none h.grid h.obstacles
      (.move s.line hstep hfree)
    simpa [moved] using this
  | speak hb text =>
    have := h.record hb s.world (some text) h.grid h.obstacles (.speak text s.line)
    simpa [said] using this

theorem Reached.mirrors (h : s.Reached level limits) : s.Mirrors level limits := by
  induction h with
  | refl => exact start_mirrors level limits
  | tail _ hs ih => exact hs.mirrors ih

theorem Mirrors.spoken_eq (h : s.Mirrors level limits) :
    s.spoken = "\n".intercalate (spokenIn s.recorder.frames.toList) := by
  unfold spoken
  rw [h.output]

theorem Mirrors.crystalsUnmet_eq_nil_iff (h : s.Mirrors level limits) :
    s.crystalsUnmet = []
      ↔ ∀ q ∈ level.targets, q ∈ level.opening.path s.recorder.frames.toList := by
  rw [← h.log.all_collected_iff]
  have hcount := s.world.collectedCount_lt_iff
  unfold crystalsUnmet
  split
  · rename_i hlt
    exact iff_of_false (by simp) (hcount.mp hlt)
  · rename_i hlt
    exact iff_of_true rfl (not_not.mp fun hall => hlt (hcount.mpr hall))

theorem outputUnmet_eq_nil_iff (wanted : Option String) :
    s.outputUnmet wanted = [] ↔ ∀ w, wanted = some w → s.spoken = w := by
  unfold outputUnmet
  rcases wanted with _ | w
  · simp
  · simp only [Option.some.injEq, forall_eq']
    split <;> simp_all

/-- A script that finished is judged by its frames. -/
theorem Mirrors.completion_cases (h : s.Mirrors level limits) :
    (s.completion level = .met
        ∧ level.Solved (level.opening.path s.recorder.frames.toList) s.spoken)
      ∨ (∃ message, s.completion level = .unmet message)
        ∧ ¬ level.Solved (level.opening.path s.recorder.frames.toList) s.spoken := by
  unfold Level.Solved
  rw [← h.crystalsUnmet_eq_nil_iff, ← outputUnmet_eq_nil_iff, ← List.append_eq_nil_iff]
  unfold completion
  split
  · exact .inl ⟨rfl, ‹_›⟩
  · exact .inr ⟨⟨_, rfl⟩, ‹_›⟩

theorem Mirrors.length_le (h : s.Mirrors level limits) :
    s.recorder.frames.toList.length ≤ limits.steps level := by
  have := h.within
  rw [h.taken, h.limit] at this
  simpa using this

theorem fail_eq (h : s.recorder.isSealed = false) (e : RuntimeError) :
    s.fail e =
      ⟨s.recorder.initial,
        s.recorder.frames.toList
          ++ [⟨s.recorder.frames.toList.length, s.world.snapshot, none, some s.line,
            some e.message⟩],
        s.spoken, .failed ⟨e.kind, e.message, if 0 < s.line then some s.line else none⟩⟩ := by
  unfold fail
  rw [Recorder.record_of_unsealed h]
  simp [Recorder.finish, Recorder.next]

end Session

/-- How a run comes out: the script finishes and its frames decide on the verdict, or an error adds
one frame. The rover has turned in that frame only if it was blocked. -/
inductive Outcome (level : Level) (limits : Limits) : Trace → Prop
  | finished {frames : List Frame} {w : Snapshot} {output : String} {verdict : Verdict}
      (log : Log level frames w) (hlen : frames.length ≤ limits.steps level)
      (houtput : output = "\n".intercalate (spokenIn frames))
      (hverdict : (verdict = .met ∧ level.Solved (level.opening.path frames) output)
        ∨ (∃ message, verdict = .unmet message)
          ∧ ¬ level.Solved (level.opening.path frames) output) :
      Outcome level limits ⟨level.opening, frames, output, verdict⟩
  | failed {frames : List Frame} {w : Snapshot} {output : String} {e : RuntimeError}
      {d : Direction} (line : Nat)
      (log : Log level frames w) (hlen : frames.length ≤ limits.steps level)
      (houtput : output = "\n".intercalate (spokenIn frames))
      (hturn : (∀ o, e ≠ .blocked o) → d = w.dir)
      (hblock : ∀ o, e = .blocked o → level.Blocks w.pos d o) :
      Outcome level limits
        ⟨level.opening,
          frames ++ [⟨frames.length, { w with dir := d }, none, some line, some e.message⟩], output,
          .failed ⟨e.kind, e.message, if 0 < line then some line else none⟩⟩

theorem run_outcome (p : Program) (level : Level) (limits : Limits) :
    Outcome level limits (run p level limits) := by
  rcases run_cases p level limits with ⟨s, hs, hrun⟩ | ⟨s, e, s', hs, he, hrun⟩ <;> rw [hrun]
  · have h := hs.mirrors
    unfold Session.finish Recorder.finish
    rw [h.initial]
    exact .finished h.log h.length_le h.spoken_eq h.completion_cases
  · have h := hs.mirrors
    cases he with
    | still he =>
      rw [Session.fail_eq h.unsealed, h.initial]
      exact .failed s.line h.log h.length_le h.spoken_eq (fun _ => rfl)
        fun o ho => absurd ho (he o)
    | @blocked b d o hb ho =>
      rw [Session.fail_eq (s := s.turned b d) h.unsealed]
      unfold Session.turned
      rw [h.initial]
      refine .failed s.line h.log h.length_le h.spoken_eq (fun hne => absurd rfl (hne o)) ?_
      rintro _ ⟨⟩
      exact h.ahead_error ho

end MissionScript
