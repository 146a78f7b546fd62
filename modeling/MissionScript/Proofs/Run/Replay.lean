import MissionScript.Proofs.Run.Mirror

/-!
# Traces replay

The frames of a run, looked at from the world before each of them, are steps of a rover on the level
(`run_replays`). They are numbered without a gap and no more than the steps allow (`run_numbered`),
and a rover that starts on a free cell stays on free cells; an error of movement names what is ahead
of the rover (`run_stays_free`).
-/

namespace MissionScript

namespace Trace

/-- The world after the first `n` frames, which is the one before the frame numbered `n`. -/
def worldAt (t : Trace) (n : Nat) : Snapshot := t.initial.after (t.frames.take n)

/-- The cells that the rover has been on in the initial world and in the first `n` frames. -/
def path (t : Trace) (n : Nat) : List Position := t.initial.path (t.frames.take n)

variable {t : Trace}

theorem worldAt_zero : t.worldAt 0 = t.initial := rfl

theorem worldAt_succ {i : Nat} {f : Frame} (hf : t.frames[i]? = some f) :
    t.worldAt (i + 1) = f.snapshot := by
  unfold worldAt
  rw [List.take_add_one, hf]
  exact Snapshot.after_concat _ _ _

end Trace

/-- The frame numbered `i` tells of the error that ended the run. -/
def Trace.EndsAt (level : Level) (t : Trace) (i : Nat) (f : Frame) : Prop :=
  i + 1 = t.frames.length ∧ ∃ (e : RuntimeError) (d : Direction) (line : Nat),
    f = ⟨i, { t.worldAt i with dir := d }, none, some line, some e.message⟩
      ∧ t.verdict = .failed ⟨e.kind, e.message, if 0 < line then some line else none⟩
      ∧ ((∀ o, e ≠ .blocked o) → d = (t.worldAt i).dir)
      ∧ ∀ o, e = .blocked o → level.Blocks (t.worldAt i).pos d o

namespace Outcome

variable {level : Level} {limits : Limits} {t : Trace}

/-- A frame comes next after the world before it, or it tells of the error at the end. -/
theorem frame_cases (h : Outcome level limits t) {i : Nat} {f : Frame}
    (hf : t.frames[i]? = some f) : Next level i (t.worldAt i) f ∨ t.EndsAt level i f := by
  cases h with
  | finished log => exact .inl (log.next_of_getElem? hf).2
  | @failed frames w output e d line log hlen houtput hturn hblock =>
    rcases Nat.lt_trichotomy i frames.length with hi | rfl | hi
    · rw [List.getElem?_append_left hi] at hf
      unfold Trace.worldAt
      rw [List.take_append_of_le_length hi.le]
      exact .inl (log.next_of_getElem? hf).2
    · rw [List.getElem?_concat_length, Option.some.injEq] at hf
      have hw : Trace.worldAt ⟨level.opening, frames ++ [f], output,
          .failed ⟨e.kind, e.message, if 0 < line then some line else none⟩⟩ frames.length = w := by
        unfold Trace.worldAt
        rw [List.take_left', ← log.eq_after]
        rfl
      rw [hf]
      refine .inr ⟨by simp, e, d, line, ?_⟩
      rw [hw]
      exact ⟨hf.symm, rfl, hturn, hblock⟩
    · rw [List.getElem?_eq_none (by simp; omega)] at hf
      cases hf

theorem next_of_frame (h : Outcome level limits t) {i : Nat} {f : Frame}
    (hf : t.frames[i]? = some f) (herror : f.error = none) : Next level i (t.worldAt i) f := by
  rcases h.frame_cases hf with hnext | ⟨-, e, d, line, rfl, -⟩
  · exact hnext
  · cases herror

theorem endsAt_of_frame (h : Outcome level limits t) {i : Nat} {f : Frame}
    (hf : t.frames[i]? = some f) (herror : f.error ≠ none) : t.EndsAt level i f := by
  rcases h.frame_cases hf with hnext | hends
  · exact absurd hnext.error_eq herror
  · exact hends

theorem step_eq (h : Outcome level limits t) {i : Nat} {f : Frame}
    (hf : t.frames[i]? = some f) : f.step = i := by
  rcases h.frame_cases hf with hnext | ⟨-, e, d, line, rfl, -⟩
  · exact hnext.step_eq
  · rfl

/-- In every frame the rover is on a free cell or on the one that it started on. -/
theorem pos_free (h : Outcome level limits t) {f : Frame} (hf : f ∈ t.frames) :
    f.snapshot.pos = level.start ∨ level.IsFree f.snapshot.pos := by
  have mem_path {frames : List Frame} (hf : f ∈ frames) :
      f.snapshot.pos ∈ level.opening.path frames :=
    List.mem_cons_of_mem _ (List.mem_map_of_mem hf)
  cases h with
  | finished log => exact log.path_free (mem_path hf)
  | failed line log =>
    rcases List.mem_append.mp hf with hf | hf
    · exact log.path_free (mem_path hf)
    · cases List.mem_singleton.mp hf
      exact log.path_free log.pos_mem_path

/-- A verdict with an error comes with the frame that tells of it. -/
theorem endsAt_of_error (h : Outcome level limits t) (herror : t.verdict.error ≠ none) :
    ∃ i f, t.frames[i]? = some f ∧ t.EndsAt level i f := by
  have hcases := fun i f (hf : t.frames[i]? = some f) => h.frame_cases hf
  cases h with
  | finished log hlen houtput hverdict =>
    rcases hverdict with ⟨rfl, -⟩ | ⟨⟨_, rfl⟩, -⟩ <;> exact absurd rfl herror
  | failed line log =>
    rcases hcases _ _ List.getElem?_concat_length with hnext | hends
    · cases hnext.error_eq
    · exact ⟨_, _, List.getElem?_concat_length, hends⟩

/-- In every world of a trace the crystals on the path so far are collected, and nothing else has
changed since the start of the level. -/
theorem objects_worldAt (h : Outcome level limits t) {n : Nat} (hn : n ≤ t.frames.length) :
    (t.worldAt n).objects = level.things.map (·.visited (t.path n)) := by
  cases h with
  | finished log => exact (log.take n).objects
  | @failed frames w output e d line log hlen houtput hturn hblock =>
    unfold Trace.worldAt Trace.path
    dsimp only
    rcases Nat.lt_or_ge frames.length n with hlt | hle
    · rw [List.take_of_length_le (by simp; omega), Snapshot.after_concat, Snapshot.path_concat,
        log.objects]
      exact List.map_congr_left fun o _ => (log.visited_stay o).symm
    · rw [List.take_append_of_le_length hle]
      exact (log.take n).objects

/-- Frames without an error are actions, and each action takes a step. -/
theorem actions_le (h : Outcome level limits t) :
    t.frames.countP (·.error.isNone) ≤ limits.steps level := by
  cases h with
  | finished log hlen => exact List.countP_le_length.trans hlen
  | failed line log hlen =>
    rw [List.countP_append]
    exact (Nat.add_le_add_right List.countP_le_length _).trans hlen

theorem length_le (h : Outcome level limits t) : t.frames.length ≤ limits.steps level + 1 := by
  cases h with
  | finished log hlen => exact Nat.le_succ_of_le hlen
  | failed line log hlen => simpa using hlen

end Outcome

/-- What a trace shows of the rover and of the things around it replays as a journey on the
level. -/
structure Trace.Replays (level : Level) (t : Trace) : Prop where
  /-- In a frame without a line and an error the rover has gone to the cell ahead. -/
  moves {i : Nat} {f : Frame} : t.frames[i]? = some f → f.log = none → f.error = none →
    (t.worldAt i).pos.step? f.snapshot.dir = some f.snapshot.pos
  /-- In a frame with a line and without an error nothing has changed. -/
  stays {i : Nat} {f : Frame} : t.frames[i]? = some f → f.log ≠ none → f.error = none →
    f.snapshot = t.worldAt i
  /-- In a frame with an error nothing is said and nothing has changed, except that a rover that is
  blocked may have turned. -/
  halts {i : Nat} {f : Frame} : t.frames[i]? = some f → f.error ≠ none →
    f.log = none ∧ f.snapshot.pos = (t.worldAt i).pos
      ∧ f.snapshot.objects = (t.worldAt i).objects
      ∧ (f.snapshot.dir ≠ (t.worldAt i).dir →
        ∃ e, t.verdict.error = some e ∧ e.kind = .movement)
  /-- The things are those of the level, in their order and on their cells. -/
  things {n : Nat} : n ≤ t.frames.length →
    (t.worldAt n).objects.map (fun o => (o.id, o.kind, o.pos))
      = level.things.map (fun o => (o.id, o.kind, o.pos))
  rocks {n : Nat} {o : WorldObject} : n ≤ t.frames.length → o ∈ (t.worldAt n).objects →
    o.kind = .rock → o.state = .idle
  /-- A crystal is collected as soon as the rover has been on its cell, and not before. -/
  crystals {n : Nat} {o : WorldObject} : n ≤ t.frames.length → o ∈ (t.worldAt n).objects →
    o.kind = .crystal → (o.state = .collected ↔ o.pos ∈ t.path n)

theorem run_replays (p : Program) (level : Level) (limits : Limits) :
    (run p level limits).Replays level := by
  have h := run_outcome p level limits
  constructor
  case moves =>
    intro i f hf hlog herror
    exact ((h.next_of_frame hf herror).moved hlog).1
  case stays =>
    intro i f hf hlog herror
    exact (h.next_of_frame hf herror).stayed hlog
  case halts =>
    intro i f hf herror
    obtain ⟨-, e, d, line, rfl, hverdict, hturn, -⟩ := h.endsAt_of_frame hf herror
    refine ⟨rfl, rfl, rfl, fun hdir => ?_⟩
    rw [hverdict]
    refine ⟨_, rfl, ?_⟩
    by_contra hkind
    refine hdir (hturn fun o ho => hkind ?_)
    rw [ho]
    rfl
  case things =>
    intro n hn
    rw [h.objects_worldAt hn, List.map_map]
    exact List.map_congr_left fun o _ => by simp
  case rocks =>
    intro n o hn ho hrock
    rw [h.objects_worldAt hn] at ho
    obtain ⟨o, hthing, rfl⟩ := List.mem_map.mp ho
    rw [WorldObject.visited_kind] at hrock
    simp [WorldObject.visited, WorldObject.isCrystal, hrock, Level.things_idle hthing]
  case crystals =>
    intro n o hn ho hcrystal
    rw [h.objects_worldAt hn] at ho
    obtain ⟨o, hthing, rfl⟩ := List.mem_map.mp ho
    rw [WorldObject.visited_kind] at hcrystal
    rw [WorldObject.visited_state _ _ (Level.things_idle hthing), WorldObject.visited_pos]
    simp [WorldObject.isCrystal, hcrystal]

/-- Frames are numbered from zero without a gap, only the last one may tell of an error, and without
it there are at most as many as steps may be taken. So no number is greater than that. -/
structure Trace.Numbered (most : Nat) (t : Trace) : Prop where
  numbers {i : Nat} {f : Frame} : t.frames[i]? = some f → f.step = i
  fits {f : Frame} : f ∈ t.frames → f.step ≤ most
  errors {i : Nat} {f : Frame} : t.frames[i]? = some f → f.error ≠ none →
    i + 1 = t.frames.length ∧ f.log = none
  actions : t.frames.countP (·.error.isNone) ≤ most
  length : t.frames.length ≤ most + 1

theorem run_numbered (p : Program) (level : Level) (limits : Limits) :
    (run p level limits).Numbered (limits.steps level) := by
  have h := run_outcome p level limits
  constructor
  case numbers => exact fun hf => h.step_eq hf
  case fits =>
    intro f hf
    obtain ⟨i, hi, rfl⟩ := List.getElem_of_mem hf
    have := h.length_le
    rw [h.step_eq (List.getElem?_eq_getElem hi)]
    omega
  case errors =>
    intro i f hf herror
    obtain ⟨hlast, e, d, line, rfl, -⟩ := h.endsAt_of_frame hf herror
    exact ⟨hlast, rfl⟩
  case actions => exact h.actions_le
  case length => exact h.length_le

theorem RuntimeError.kind_eq_movement {e : RuntimeError} (h : e.kind = .movement) :
    ∃ o, e = .blocked o := by
  cases e <;> first | exact ⟨_, rfl⟩ | cases h

/-- The rover only comes to free cells, and an error of movement names what is ahead of it. -/
structure Trace.StaysFree (level : Level) (t : Trace) : Prop where
  arrives {i : Nat} {f : Frame} : t.frames[i]? = some f → f.snapshot.pos ≠ (t.worldAt i).pos →
    level.IsFree f.snapshot.pos
  stays : level.IsFree level.start → ∀ f ∈ t.frames, level.IsFree f.snapshot.pos
  /-- The last frame of a run that an error of movement ended explains it. -/
  explains {e : RunError} : t.verdict.error = some e → e.kind = .movement →
    ∃ f, t.frames.getLast? = some f ∧ f.error = some e.message
      ∧ (e.message = "out of bounds" ∨ e.message = "blocked by rock")
      ∧ (e.message = "out of bounds" ↔ f.snapshot.pos.step? f.snapshot.dir = none
        ∨ ∃ q, f.snapshot.pos.step? f.snapshot.dir = some q ∧ ¬ level.grid.contains q)
      ∧ (e.message = "blocked by rock" ↔ ∃ q, f.snapshot.pos.step? f.snapshot.dir = some q
        ∧ level.grid.contains q ∧ q ∈ level.obstacles)

theorem run_stays_free (p : Program) (level : Level) (limits : Limits) :
    (run p level limits).StaysFree level := by
  have h := run_outcome p level limits
  constructor
  case arrives =>
    intro i f hf hmoved
    rcases h.frame_cases hf with hnext | ⟨-, e, d, line, rfl, -⟩
    · rcases hlog : f.log with _ | text
      · exact (hnext.moved hlog).2
      · exact absurd (by rw [hnext.stayed (by simp [hlog])]) hmoved
    · exact absurd rfl hmoved
  case stays =>
    intro hstart f hf
    rcases h.pos_free hf with hpos | hfree
    · rw [hpos]
      exact hstart
    · exact hfree
  case explains =>
    intro e herror hkind
    obtain ⟨i, f, hf, hlast, e', d, line, rfl, hverdict, -, hblock⟩ :=
      h.endsAt_of_error (by simp [herror])
    rw [hverdict] at herror
    cases herror
    obtain ⟨o, rfl⟩ := RuntimeError.kind_eq_movement hkind
    have hb := hblock o rfl
    have hnamed (o' : Obstruction) :
        o = o' ↔ level.Blocks ((run p level limits).worldAt i).pos d o' :=
      ⟨fun ho => ho ▸ hb, hb.unique⟩
    refine ⟨_, by rw [List.getLast?_eq_getElem?, ← hlast]; exact hf, rfl, ?_⟩
    rw [← Level.blocks_outOfBounds_iff, ← Level.blocks_rock_iff, ← hnamed, ← hnamed]
    dsimp only
    cases o <;> decide

/-- Sent two cells along a lane of two cells, the rover takes one step and stops at the end. -/
example :
    let sent : Program :=
      ⟨[.expr (.call ⟨"move_right", default⟩ [.int 2 default] default) default], default⟩
    let lane : Level := { (default : Level) with
      grid := ⟨1, 2⟩
      startDirection := .right
      targets := [⟨1, 0⟩] }
    (run sent lane .standard).frames.map (fun f => (f.snapshot.pos, f.error))
      = [(⟨1, 0⟩, none), (⟨1, 0⟩, some "out of bounds")] := by
  decide

end MissionScript
