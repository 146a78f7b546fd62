import MissionScript.Proofs.Run.Mirror

/-!
# Raised limits

The limits of a run are looked at for one thing only, to stop it. So under higher limits a script
does the same as under lower ones up to the point at which one of the lower limits stops it, and all
that it has done by then is done under the higher ones too (`run_raised`).

The two runs are kept side by side: what the left one does from a machine, the right one does from
the machine with more to spend. Calls may be nested deeper on the right.
-/

namespace MissionScript

/-- Limits none of which is lower than its counterpart. -/
instance : LE Limits where
  le l l' :=
    l.stepCeiling ≤ l'.stepCeiling ∧ l.gasLimit ≤ l'.gasLimit ∧ l.callDepth ≤ l'.callDepth

namespace RuntimeError

/-- Whether a limit on the run has been come to. -/
def isLimit : RuntimeError → Bool
  | budgetSpent | recursionTooDeep => true
  | _ => false

theorem isLimit_iff (e : RuntimeError) :
    e.isLimit = true ↔ e.kind = .stepLimit ∨ e.kind = .recursion := by
  cases e <;> simp [isLimit, kind]

end RuntimeError

theorem Gas.isSpent_iff (g : Gas) : g.isSpent = true ↔ g.limit < g.used := decide_eq_true_iff

namespace Session

/-- The session with so much more to spend. -/
def raised (steps gas : Nat) (s : Session) : Session :=
  { s with
    steps := ⟨s.steps.taken, s.steps.limit + steps⟩
    gas := ⟨s.gas.used, s.gas.limit + gas⟩ }

/-- Frames are never taken back. -/
theorem Step.frames_prefix {s s' : Session} (h : Step s s') : s.frames <+: s'.frames := by
  cases h with
  | charge n => exact List.prefix_rfl
  | setLine line => exact List.prefix_rfl
  | move hb hp => exact (frames_record _ _ _ _ _).imp fun _ h => h.1.symm
  | speak hb text => exact (frames_record _ _ _ _ _).imp fun _ h => h.1.symm

theorem Trail.frames_prefix {s s' : Session} (h : Trail s s') : s.frames <+: s'.frames := by
  induction h with
  | refl => exact List.prefix_rfl
  | tail _ hs ih => exact ih.trans hs.frames_prefix

theorem Halt.recorder_eq {s s' : Session} {e : RuntimeError} (h : Halt s e s') :
    s'.recorder = s.recorder := by
  cases h <;> rfl

theorem Halt.frames_eq {s s' : Session} {e : RuntimeError} (h : Halt s e s') :
    s'.frames = s.frames := by
  rw [frames, h.recorder_eq, frames]

end Session

theorem StepBudget.consume?_raised {b b' : StepBudget} (h : b.consume? = some b') (n : Nat) :
    consume? ⟨b.taken, b.limit + n⟩ = some ⟨b'.taken, b'.limit + n⟩ := by
  obtain ⟨hlt, rfl⟩ := consume?_eq_some h
  exact if_pos (Nat.lt_add_right n hlt)

/-- The machine with so much more to spend. -/
def Machine.raised (steps gas : Nat) (m : Machine) : Machine :=
  { m with session := m.session.raised steps gas }

namespace Eval

/-- The frames recorded when an action has ended. -/
def framesAfter {α : Type} (x : Eval α) (m : Machine) : List Frame :=
  match x m with
  | .ok _ m' | .error _ m' => m'.session.frames

theorem Tracked.frames_prefix {α : Type} {x : Eval α} (h : Tracked x) (m : Machine) :
    m.session.frames <+: framesAfter x m := by
  have hm := h m
  unfold framesAfter
  rcases hx : x m with ⟨a, m'⟩ | ⟨e, m'⟩ <;> rw [hx] at hm
  · exact Session.Trail.frames_prefix hm
  · obtain ⟨s, hs, he⟩ := hm
    dsimp only
    rw [he.frames_eq]
    exact Session.Trail.frames_prefix hs

/-- With more to spend `y` does what `x` does, up to a limit that stops `x`; `y` never takes a frame
back. -/
structure Lockstep (steps gas : Nat) {α : Type} (x y : Eval α) : Prop where
  tracked : Tracked y
  follows (m : Machine) :
    match x m with
    | .ok a m' => y (m.raised steps gas) = .ok a (m'.raised steps gas)
    | .error e m' =>
      y (m.raised steps gas) = .error e (m'.raised steps gas)
        ∨ e.isLimit = true ∧ m'.session.frames <+: framesAfter y (m.raised steps gas)

namespace Lockstep

variable {steps gas : Nat} {α β : Type}

/-- An action that never comes to a limit is in step with itself if raising commutes with it. -/
theorem of_eq {x : Eval α} (hx : Tracked x)
    (h : ∀ m, x (m.raised steps gas) =
      match x m with
      | .ok a m' => .ok a (m'.raised steps gas)
      | .error e m' => .error e (m'.raised steps gas)) : Lockstep steps gas x x := by
  refine ⟨hx, fun m => ?_⟩
  have hm := h m
  rcases hxm : x m with ⟨a, m'⟩ | ⟨e, m'⟩ <;> rw [hxm] at hm
  · exact hm
  · exact .inl hm

/-- Where a limit stops the left side at once, the right side may go on in any way. -/
theorem limit {e : RuntimeError} {x y : Eval α} (hy : Tracked y) (he : e.isLimit = true)
    {m m' : Machine} (hx : x m = .error e m') (hframes : m'.session.frames = m.session.frames) :
    match x m with
    | .ok a m' => y (m.raised steps gas) = .ok a (m'.raised steps gas)
    | .error e m' =>
      y (m.raised steps gas) = .error e (m'.raised steps gas)
        ∨ e.isLimit = true ∧ m'.session.frames <+: framesAfter y (m.raised steps gas) := by
  rw [hx]
  refine .inr ⟨he, ?_⟩
  rw [hframes]
  exact hy.frames_prefix (m.raised steps gas)

theorem bind {x y : Eval α} {f g : α → Eval β} (h : Lockstep steps gas x y)
    (hf : ∀ a, Lockstep steps gas (f a) (g a)) : Lockstep steps gas (x >>= f) (y >>= g) := by
  refine ⟨h.tracked.bind fun a => (hf a).tracked, fun m => ?_⟩
  have hm := h.follows m
  simp only [bind_apply]
  rcases hx : x m with ⟨a, m'⟩ | ⟨e, m'⟩ <;> rw [hx] at hm <;> dsimp only at hm ⊢
  · have hm' := (hf a).follows m'
    unfold framesAfter at hm' ⊢
    simp only [bind_apply, hm]
    exact hm'
  · rcases hm with hm | ⟨he, hframes⟩
    · rw [hm]
      exact .inl rfl
    · refine .inr ⟨he, hframes.trans ?_⟩
      -- the right side may have gone on, and then its rest only adds frames
      unfold framesAfter
      simp only [bind_apply]
      rcases y (m.raised steps gas) with ⟨a, n⟩ | ⟨e', n⟩
      · exact (hf a).tracked.frames_prefix n
      · exact List.prefix_rfl

theorem onSession {act : Act α} (hact : Tracked (Eval.onSession act))
    (h : ∀ s,
      act (s.raised steps gas) =
          (match act s with
          | .ok a s' => .ok a (s'.raised steps gas)
          | .error e s' => .error e (s'.raised steps gas))
        ∨ ∃ e s', act s = .error e s' ∧ e.isLimit = true ∧ s'.frames = s.frames) :
    Lockstep steps gas (Eval.onSession act) (Eval.onSession act) := by
  refine ⟨hact, fun m => ?_⟩
  rcases h m.session with hs | ⟨e, s', hs, he, hframes⟩
  · have hraised : (m.raised steps gas).session = m.session.raised steps gas := rfl
    simp only [Eval.onSession, hraised, hs]
    rcases act m.session with ⟨a, s'⟩ | ⟨e, s'⟩
    · rfl
    · exact .inl rfl
  · have hm : Eval.onSession act m = .error e { m with session := s' } := by
      simp only [Eval.onSession, hs]
    exact limit hact he hm hframes

theorem charge (n : Nat) :
    Lockstep steps gas (Eval.onSession (Session.charge n)) (Eval.onSession (Session.charge n)) := by
  refine onSession (tracked_charge n) fun s => ?_
  by_cases hspent : (s.gas.charge n).isSpent = true
  · exact .inr ⟨_, _, if_pos hspent, rfl, rfl⟩
  · left
    have hmore : ¬ ((s.raised steps gas).gas.charge n).isSpent = true := by
      rw [Gas.isSpent_iff, not_lt] at hspent ⊢
      exact Nat.le_add_right_of_le hspent
    simp only [Session.charge, if_neg hspent, if_neg hmore]
    rfl

theorem moveOnce (d : Direction) :
    Lockstep steps gas (Eval.onSession (Session.moveOnce d))
      (Eval.onSession (Session.moveOnce d)) := by
  refine onSession (tracked_moveOnce d) fun s => ?_
  simp only [Session.moveOnce_eq]
  rcases hb : s.steps.consume? with _ | b
  · exact .inr ⟨_, _, rfl, rfl, rfl⟩
  · left
    have hraised : (s.raised steps gas).steps.consume? = _ :=
      StepBudget.consume?_raised hb steps
    have hworld : (s.raised steps gas).world = s.world := rfl
    rw [hraised, hworld]
    dsimp only
    rcases Session.ahead s.world d with o | p <;> rfl

theorem speak (text : String) :
    Lockstep steps gas (Eval.onSession (Session.speak text))
      (Eval.onSession (Session.speak text)) := by
  refine onSession (tracked_speak text) fun s => ?_
  simp only [Session.speak_eq]
  rcases hb : s.steps.consume? with _ | b
  · exact .inr ⟨_, _, rfl, rfl, rfl⟩
  · left
    have hraised : (s.raised steps gas).steps.consume? = _ :=
      StepBudget.consume?_raised hb steps
    rw [hraised]
    rfl

theorem changePlace (place : Place) {change : Value → Value.Result (α × Value)}
    (h : ∀ v, Value.Confined (change v)) :
    Lockstep steps gas (Eval.changePlace place change) (Eval.changePlace place change) := by
  refine of_eq (tracked_changePlace place h) fun m => ?_
  simp only [changePlace_eq]
  have henv : (m.raised steps gas).env = m.env := rfl
  rw [henv]
  rcases m.env.get? place.root with _ | v
  · rfl
  · dsimp only
    rcases v.changeAt change place.path with e | ⟨a, v'⟩ <;> rfl

theorem inScope (f : Function) (args : List Value) {x y : Eval Flow}
    (h : Lockstep steps gas x y) :
    Lockstep steps gas (Eval.inScope f args x) (Eval.inScope f args y) := by
  refine ⟨tracked_inScope f args h.tracked, fun m => ?_⟩
  have hm := h.follows { m with env := enter f args m.env }
  have hraised : { m.raised steps gas with env := enter f args (m.raised steps gas).env }
      = Machine.raised steps gas { m with env := enter f args m.env } := rfl
  unfold framesAfter Eval.inScope at *
  simp only [hraised]
  rcases hx : x { m with env := enter f args m.env } with ⟨flow, m'⟩ | ⟨e, m'⟩ <;>
    rw [hx] at hm <;> dsimp only at hm ⊢
  · rw [hm]
    rfl
  · rcases hm with hm | ⟨he, hframes⟩
    · rw [hm]
      exact .inl rfl
    · refine .inr ⟨he, ?_⟩
      rcases hy : y (Machine.raised steps gas { m with env := enter f args m.env })
        with ⟨flow, n⟩ | ⟨e', n⟩ <;> rw [hy] at hframes <;> exact hframes

end Lockstep

/-- Limits are looked at in charges, steps and calls only. -/
theorem lockstep_congruence (steps gas : Nat) :
    CallCongruence fun _ x y => Lockstep steps gas x y where
  pure a := .of_eq (.pure a) fun _ => rfl
  bind := Lockstep.bind
  fail he := .of_eq (tracked_congruence.fail he) fun _ => rfl
  look hf :=
    { tracked := .look fun m => (hf m m ⟨rfl, rfl, rfl⟩).tracked
      follows := fun m => (hf m (m.raised steps gas) ⟨rfl, rfl, rfl⟩).follows m }
  charge := Lockstep.charge
  moveOnce := Lockstep.moveOnce
  speak := Lockstep.speak
  changePlace place _ h _ := .changePlace place h
  setLine line := .of_eq (tracked_congruence.setLine line) fun _ => rfl
  define name v := .of_eq (tracked_congruence.define name v) fun _ => rfl
  learn f := .of_eq (tracked_congruence.learn f) fun _ => rfl
  tooDeep := .of_eq tracked_congruence.tooDeep fun _ => rfl
  inScope f args _ _ h := .inScope f args h

/-- A call is in step with the same call where calls may be nested deeper. -/
theorem lockstep_callWithin {steps gas : Nat} : ∀ {limit limit' : Nat}, limit ≤ limit' →
    ∀ (f : Function) (args : List Value),
      Lockstep steps gas (callWithin limit f args) (callWithin limit' f args) := by
  have hR := lockstep_congruence steps gas
  have harity (f : Function) (args : List Value) := related_ofResult hR.toExprCongruence
    (Value.arityCheck_confined (.exact f.params.length) f.name.name args.length)
  intro limit
  induction limit with
  | zero =>
    intro limit' _ f args
    have hcall := related_callWithin tracked_congruence limit' f args
    refine ⟨hcall, fun m => ?_⟩
    rcases hr : (Arity.exact f.params.length).check f.name.name args.length with e | u
    · cases limit' <;> unfold callWithin <;> simp only [bind_apply, hr] <;> exact .inl rfl
    · have hm : callWithin 0 f args m = .error .recursionTooDeep m := by
        unfold callWithin
        simp only [bind_apply, hr]
        rfl
      exact Lockstep.limit hcall rfl hm rfl
  | succ limit ih =>
    intro limit' h f args
    obtain ⟨limit', rfl⟩ : ∃ n, limit' = n + 1 := ⟨limit' - 1, by omega⟩
    unfold callWithin
    refine (harity f args).bind fun _ => .inScope f args ?_
    exact related_block hR.anywhere
      (related_callNamed hR.toExprCongruence (ih (Nat.le_of_succ_le_succ h))) f.body
      fun _ _ => trivial

/-- A script is in step with itself under higher limits. -/
theorem lockstep_program {limits limits' : Limits} (h : limits ≤ limits') (steps gas : Nat)
    (p : Program) : Lockstep steps gas (program limits p) (program limits' p) :=
  (related_stmts (lockstep_congruence steps gas).anywhere
    (related_callNamed (lockstep_congruence steps gas).toExprCongruence (lockstep_callWithin h.2.2))
    p.stmts fun _ _ => trivial).bind fun _ => .of_eq (.pure ()) fun _ => rfl

end Eval

section Runs

variable (p : Program) (level : Level) {limits limits' : Limits}

theorem StepBudget.start_eq (limits : Limits) :
    StepBudget.start level.maxMoves limits.stepCeiling = ⟨0, limits.steps level⟩ := by
  unfold start Limits.steps
  rcases level.maxMoves with _ | m <;> rfl

theorem Limits.steps_le (h : limits ≤ limits') : limits.steps level ≤ limits'.steps level := by
  unfold steps
  rcases level.maxMoves with _ | m
  · exact h.1
  · have := h.1
    dsimp only
    omega

/-- Higher limits at the start are so much more to spend. -/
theorem Machine.start_raised (h : limits ≤ limits') (commands : List Command) :
    start level limits' commands =
      (start level limits commands).raised (limits'.steps level - limits.steps level)
        (limits'.gasLimit - limits.gasLimit) := by
  unfold start raised Session.start Session.raised Gas.start
  simp only [StepBudget.start_eq]
  rw [Nat.add_sub_cancel' (Limits.steps_le level h), Nat.add_sub_cancel' h.2.1]

theorem Log.error_eq {level : Level} {frames : List Frame} {w : Snapshot}
    (h : Log level frames w) {f : Frame} (hf : f ∈ frames) : f.error = none := by
  obtain ⟨i, hi⟩ := List.getElem?_of_mem hf
  exact (h.next_of_getElem? hi).2.error_eq

/-- The frames without an error. -/
def Trace.actions (t : Trace) : List Frame := t.frames.filter (·.error.isNone)

/-- The frames without an error are the ones that the script recorded. -/
theorem run_actions (limits : Limits) :
    (run p level limits).actions =
      Eval.framesAfter (Eval.program limits p) (.start level limits Command.standard) := by
  have filter_eq {s : Session} (hs : s.Reached level limits) :
      s.frames.filter (·.error.isNone) = s.frames :=
    List.filter_eq_self.mpr fun f hf => by rw [hs.mirrors.log.error_eq hf]; rfl
  have h := Eval.tracked_program limits p (.start level limits Command.standard)
  unfold run runWith Eval.framesAfter Trace.actions
  rcases hm : Eval.program limits p (.start level limits Command.standard) with ⟨u, m⟩ | ⟨e, m⟩ <;>
    rw [hm] at h
  · exact filter_eq h
  · obtain ⟨s, hs, he⟩ := h
    have hrecorder := he.recorder_eq
    have hunsealed := (Session.Reached.mirrors hs).unsealed
    rw [← hrecorder] at hunsealed
    dsimp only
    rw [Session.fail_eq hunsealed, List.filter_append, ← Session.frames, he.frames_eq,
      filter_eq hs]
    exact List.append_nil _

/-- The second run does all that the first one did, and the same if no limit stopped the first. -/
structure Trace.Raised (t t' : Trace) : Prop where
  actions : t.actions <+: t'.actions
  same : (∀ e, t.verdict.error = some e → e.kind ≠ .stepLimit ∧ e.kind ≠ .recursion) → t = t'

theorem Trace.Raised.of_eq {t t' : Trace} (h : t = t') : Trace.Raised t t' :=
  ⟨h ▸ List.prefix_rfl, fun _ => h⟩

/-- Raising limits never changes what a script does before it comes to one of them. -/
theorem run_raised (h : limits ≤ limits') :
    Trace.Raised (run p level limits) (run p level limits') := by
  have hstep := (Eval.lockstep_program h (limits'.steps level - limits.steps level)
    (limits'.gasLimit - limits.gasLimit) p).follows (.start level limits Command.standard)
  rw [← Machine.start_raised level h] at hstep
  have hactions := run_actions p level limits
  have hactions' := run_actions p level limits'
  unfold Eval.framesAfter at hactions
  rcases hm : Eval.program limits p (.start level limits Command.standard) with ⟨u, m⟩ | ⟨e, m⟩ <;>
    rw [hm] at hstep hactions <;> dsimp only at hstep hactions
  · refine .of_eq ?_
    unfold run runWith
    rw [hm, hstep]
    rfl
  · rcases hstep with hstep | ⟨he, hframes⟩
    · refine .of_eq ?_
      unfold run runWith
      rw [hm, hstep]
      rfl
    · refine ⟨by rw [hactions, hactions']; exact hframes, fun hkind => ?_⟩
      have hverdict : (run p level limits).verdict.error
          = some ⟨e.kind, e.message, if 0 < m.session.line then some m.session.line else none⟩ := by
        unfold run runWith
        rw [hm]
        rfl
      obtain ⟨hsteps, hdepth⟩ := hkind _ hverdict
      rcases e.isLimit_iff.mp he with hlimit | hlimit
      · exact absurd hlimit hsteps
      · exact absurd hlimit hdepth

end Runs

/-- With one step to spend, a rover that is sent two cells along a lane stops after the first. With
more to spend it goes there too, and on. -/
theorem run_raised_lane :
    let sent : Program :=
      ⟨[.expr (.call ⟨"move_right", default⟩ [.int 2 default] default) default], default⟩
    let lane : Level := { (default : Level) with grid := ⟨1, 3⟩, startDirection := .right }
    (⟨1, 20, 0⟩ : Limits) ≤ .standard
      ∧ Trace.Raised (run sent lane ⟨1, 20, 0⟩) (run sent lane .standard)
      ∧ (run sent lane ⟨1, 20, 0⟩).actions.map (·.snapshot.pos) = [⟨1, 0⟩]
      ∧ (run sent lane .standard).actions.map (·.snapshot.pos) = [⟨1, 0⟩, ⟨2, 0⟩] := by
  have hle : (⟨1, 20, 0⟩ : Limits) ≤ .standard := ⟨by decide, by decide, by decide⟩
  exact ⟨hle, run_raised _ _ hle, by decide +kernel, by decide +kernel⟩

end MissionScript
