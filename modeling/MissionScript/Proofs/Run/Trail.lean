import MissionScript.Proofs.Run.Congruence
import MissionScript.Run.Outcome
import Mathlib.Logic.Relation

/-!
# The trail of a run

Whatever a script does, its session changes in four ways only: gas is charged, the current line
changes, the rover goes to a free cell, or a line is spoken. An error leaves the session where it
is, except that a rover that is blocked has taken its step and turned. So a run is a trail of such
changes from the start of the level, and what each of them keeps holds to the end of every run.
-/

namespace MissionScript

namespace Session

/-- The session after the rover has gone to `p` in direction `d`. -/
def moved (s : Session) (b : StepBudget) (d : Direction) (p : Position) : Session :=
  let world := (s.world.place p d).collect p
  { s with steps := b, world := world, recorder := s.recorder.record world s.line none none }

/-- The session after a line is spoken. -/
def said (s : Session) (b : StepBudget) (text : String) : Session :=
  { s with
    steps := b
    output := s.output.push text
    recorder := s.recorder.record s.world s.line (some text) none }

/-- The session after the rover has found its way blocked. -/
def turned (s : Session) (b : StepBudget) (d : Direction) : Session :=
  { s with steps := b, world := s.world.face d }

theorem moveOnce_eq (d : Direction) (s : Session) :
    moveOnce d s =
      match s.steps.consume? with
      | none => .error .budgetSpent s
      | some b =>
        match ahead s.world d with
        | .error o => .error (.blocked o) (s.turned b d)
        | .ok p => .ok () (s.moved b d p) := by
  rcases hb : s.steps.consume? with _ | b
  · simp only [moveOnce, bind_apply, takeStep, hb]
  · simp only [moveOnce, bind_apply, takeStep, hb, modify_apply, get_apply]
    rw [show ahead (s.world.face d) d = ahead s.world d from rfl]
    rcases ahead s.world d with o | p <;> rfl

theorem speak_eq (text : String) (s : Session) :
    speak text s =
      match s.steps.consume? with
      | none => .error .budgetSpent s
      | some b => .ok () (s.said b text) := by
  rcases hb : s.steps.consume? with _ | b
  · simp only [speak, bind_apply, takeStep, hb]
  · simp only [speak, bind_apply, takeStep, hb]
    rfl

/-- The frames recorded so far. -/
def frames (s : Session) : List Frame := s.recorder.frames.toList

/-- A frame that is recorded comes after all others, and it is on the line that is given. -/
theorem frames_record (r : Recorder) (w : World) (line : Nat) (log error : Option String) :
    ∃ new, (r.record w line log error).frames.toList = r.frames.toList ++ new
      ∧ ∀ f ∈ new, f.line = some line := by
  unfold Recorder.record
  split
  · exact ⟨[], (List.append_nil _).symm, List.forall_mem_nil _⟩
  · exact ⟨[r.next w line log error], Array.toList_push, List.forall_mem_singleton.mpr rfl⟩

/-- The action stays on its line, and all frames that it records are on this line. -/
def OnOneLine {α : Type} (act : Act α) : Prop :=
  ∀ s, match act s with
    | .ok _ s' | .error _ s' => s'.line = s.line
      ∧ ∃ new, s'.frames = s.frames ++ new ∧ ∀ f ∈ new, f.line = some s.line

theorem frames_same (s : Session) :
    ∃ new, s.frames = s.frames ++ new ∧ ∀ f ∈ new, f.line = some s.line :=
  ⟨[], (List.append_nil _).symm, List.forall_mem_nil _⟩

theorem onOneLine_charge (n : Nat) : OnOneLine (charge n) := by
  intro s
  unfold charge
  dsimp only
  cases (s.gas.charge n).isSpent <;> exact ⟨rfl, s.frames_same⟩

theorem onOneLine_moveOnce (d : Direction) : OnOneLine (moveOnce d) := by
  intro s
  rw [moveOnce_eq]
  rcases s.steps.consume? with _ | b
  · exact ⟨rfl, s.frames_same⟩
  · rcases ahead s.world d with o | p
    · exact ⟨rfl, s.frames_same⟩
    · exact ⟨rfl, frames_record _ _ _ _ _⟩

theorem onOneLine_speak (text : String) : OnOneLine (speak text) := by
  intro s
  rw [speak_eq]
  rcases s.steps.consume? with _ | b
  · exact ⟨rfl, s.frames_same⟩
  · exact ⟨rfl, frames_record _ _ _ _ _⟩

/-- One change of a session. -/
inductive Step : Session → Session → Prop
  | charge (s : Session) (n : Nat) : Step s { s with gas := s.gas.charge n }
  | setLine (s : Session) (line : Nat) : Step s { s with line := line }
  | move {s : Session} {b : StepBudget} {d : Direction} {p : Position}
      (hb : s.steps.consume? = some b) (hp : ahead s.world d = .ok p) : Step s (s.moved b d p)
  | speak {s : Session} {b : StepBudget} (hb : s.steps.consume? = some b) (text : String) :
      Step s (s.said b text)

/-- Any number of changes, one after another. -/
abbrev Trail : Session → Session → Prop := Relation.ReflTransGen Step

/-- How an error leaves a session. -/
inductive Halt : Session → RuntimeError → Session → Prop
  | still (s : Session) {e : RuntimeError} (he : ∀ o, e ≠ .blocked o) : Halt s e s
  | blocked {s : Session} {b : StepBudget} {d : Direction} {o : Obstruction}
      (hb : s.steps.consume? = some b) (ho : ahead s.world d = .error o) :
      Halt s (.blocked o) (s.turned b d)

end Session

namespace Eval

open Session (Step Trail Halt)

/-- The action leaves a trail in the session, and an error halts it at the end of one. -/
def Tracked {α : Type} (act : Eval α) : Prop :=
  ∀ m, match act m with
    | .ok _ m' => Trail m.session m'.session
    | .error e m' => ∃ s, Trail m.session s ∧ Halt s e m'.session

section Tracked

variable {α β : Type}

theorem Tracked.pure (a : α) : Tracked (pure a) := fun _ => .refl

theorem Tracked.throw {e : RuntimeError} (he : ∀ o, e ≠ .blocked o) :
    Tracked (throw e : Eval α) := fun _ => ⟨_, .refl, .still _ he⟩

theorem Tracked.bind {x : Eval α} {f : α → Eval β} (hx : Tracked x) (hf : ∀ a, Tracked (f a)) :
    Tracked (x >>= f) := by
  intro m
  have h := hx m
  rw [bind_apply]
  rcases hm : x m with ⟨a, m'⟩ | ⟨e, m'⟩
  · rw [hm] at h
    have h' := hf a m'
    dsimp only at h ⊢
    rcases hm' : f a m' with ⟨b, m''⟩ | ⟨e, m''⟩
    · rw [hm'] at h'
      exact h.trans h'
    · rw [hm'] at h'
      obtain ⟨s, hs, he⟩ := h'
      exact ⟨s, h.trans hs, he⟩
  · rw [hm] at h
    exact h

/-- An action whose result depends on the machine at its start. -/
theorem Tracked.look {f : Machine → Eval α} (hf : ∀ m, Tracked (f m)) : Tracked (get >>= f) :=
  fun m => hf m m

theorem Tracked.modify {f : Machine → Machine} (hf : ∀ m, Trail m.session (f m).session) :
    Tracked (modify f) := fun m => hf m

theorem Tracked.onSession {act : Act α}
    (hact : ∀ s, match act s with
      | .ok _ s' => Trail s s'
      | .error e s' => ∃ t, Trail s t ∧ Halt t e s') : Tracked (onSession act) := by
  intro m
  have h := hact m.session
  simp only [Eval.onSession]
  rcases hm : act m.session with ⟨a, s⟩ | ⟨e, s⟩ <;> rw [hm] at h <;> exact h

theorem tracked_charge (n : Nat) : Tracked (onSession (Session.charge n)) := by
  refine Tracked.onSession fun s => ?_
  unfold Session.charge
  dsimp only
  split
  · rename_i h
    split at h
    · cases h
    · cases h
      exact .single (.charge s n)
  · rename_i h
    split at h
    · cases h
      exact ⟨_, .single (.charge s n), .still _ fun _ => RuntimeError.noConfusion⟩
    · cases h

theorem tracked_moveOnce (d : Direction) : Tracked (onSession (Session.moveOnce d)) := by
  refine Tracked.onSession fun s => ?_
  rw [Session.moveOnce_eq]
  rcases hb : s.steps.consume? with _ | b
  · exact ⟨s, .refl, .still s fun _ => RuntimeError.noConfusion⟩
  · rcases hp : Session.ahead s.world d with o | p
    · exact ⟨s, .refl, .blocked hb hp⟩
    · exact .single (.move hb hp)

theorem tracked_speak (text : String) : Tracked (onSession (Session.speak text)) := by
  refine Tracked.onSession fun s => ?_
  rw [Session.speak_eq]
  rcases hb : s.steps.consume? with _ | b
  · exact ⟨s, .refl, .still s fun _ => RuntimeError.noConfusion⟩
  · exact .single (.speak hb text)

theorem tracked_changePlace (place : Place) {change : Value → Value.Result (α × Value)}
    (h : ∀ v, Value.Confined (change v)) : Tracked (changePlace place change) := by
  intro m
  rw [changePlace_eq]
  rcases m.env.get? place.root with _ | v
  · exact ⟨_, .refl, .still _ fun _ => RuntimeError.noConfusion⟩
  · dsimp only
    rcases hr : v.changeAt change place.path with e | ⟨a, v'⟩
    · refine ⟨_, .refl, .still _ fun o ho => ?_⟩
      have := Value.changeAt_confined h _ _ e hr
      rw [ho] at this
      cases this
    · exact .refl

theorem tracked_inScope (f : Function) (args : List Value) {body : Eval Flow}
    (h : Tracked body) : Tracked (inScope f args body) := by
  intro m
  have hbody := h { m with env := enter f args m.env }
  unfold inScope
  rcases hm : body { m with env := enter f args m.env } with ⟨flow, m'⟩ | ⟨e, m'⟩ <;>
    rw [hm] at hbody
  · exact hbody.tail (.setLine _ _)
  · exact hbody

end Tracked

/-- Whatever the evaluator does leaves a trail. -/
theorem tracked_congruence : CallCongruence fun _ x _ => Tracked x where
  pure := Tracked.pure
  bind hx hf := hx.bind hf
  fail he := Tracked.throw fun o ho => by
    rw [ho] at he
    cases he
  look hf := Tracked.look fun m => hf m m ⟨rfl, rfl, rfl⟩
  charge := tracked_charge
  moveOnce := tracked_moveOnce
  speak := tracked_speak
  changePlace place _ h _ := tracked_changePlace place h
  setLine line := Tracked.modify fun m => .single (.setLine m.session line)
  define name v := Tracked.modify fun _ => .refl
  learn f := Tracked.modify fun _ => .refl
  tooDeep := Tracked.throw fun _ => RuntimeError.noConfusion
  inScope f args _ _ h := tracked_inScope f args h

theorem tracked_program (limits : Limits) (p : Program) : Tracked (program limits p) :=
  related_program tracked_congruence limits p

end Eval

open Session (Trail Halt)

/-- The sessions that a script can come to on a level. -/
def Session.Reached (level : Level) (limits : Limits) (s : Session) : Prop :=
  Trail (.start level limits.stepCeiling limits.gasLimit) s

/-- A run ends in a session that it can reach, or in one that an error leaves of it. -/
theorem run_cases (p : Program) (level : Level) (limits : Limits) :
    (∃ s : Session, s.Reached level limits ∧ run p level limits = s.finish level)
      ∨ ∃ (s : Session) (e : RuntimeError) (s' : Session),
          s.Reached level limits ∧ Halt s e s' ∧ run p level limits = s'.fail e := by
  have h := Eval.tracked_program limits p (.start level limits Command.standard)
  unfold run runWith
  rcases hm : Eval.program limits p (.start level limits Command.standard) with ⟨u, m⟩ | ⟨e, m⟩ <;>
    rw [hm] at h
  · exact .inl ⟨m.session, h, rfl⟩
  · obtain ⟨s, hs, he⟩ := h
    exact .inr ⟨s, e, m.session, hs, he, rfl⟩

end MissionScript
