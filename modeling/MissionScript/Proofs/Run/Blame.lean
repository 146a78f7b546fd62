import MissionScript.Proofs.Run.Bookkeeping
import MissionScript.Proofs.Run.ControlFlow
import MissionScript.Proofs.Run.Mirror
import MissionScript.Proofs.Script.Pointing

/-!
# Which line an error is blamed on

The current line of a run is the line on which the statement or the condition that was last begun
begins. An action of the script leaves it on such a line, also if it fails, since a call that comes
to an end restores the line of the caller (`Eval.stays_callWithin`). Before the first statement
there is no such line; this is where a run without any gas ends. So an error names a line exactly if
there was gas at all, and the line is one of the script's (`run_blames`).
-/

namespace MissionScript

/-- The current line is one with the property, and so are those of all functions. -/
structure Machine.On (line : Nat → Prop) (m : Machine) : Prop where
  here : line m.session.line
  functions : ∀ f ∈ m.functions, ∀ n ∈ f.body.lines, line n

namespace Eval

/-- The action leaves the machine on lines with the property, also if it fails. -/
def Stays {α : Type} (line : Nat → Prop) (x : Eval α) : Prop :=
  ∀ ⦃m : Machine⦄, m.On line → (x.leaves m).On line

section Staying

variable {α β : Type} {line : Nat → Prop}

theorem Stays.bind {x : Eval α} {f : α → Eval β} (hx : Stays line x) (hf : ∀ a, Stays line (f a)) :
    Stays line (x >>= f) := by
  intro m hm
  have h := hx hm
  unfold leaves at h ⊢
  rw [bind_apply]
  rcases hr : x m with ⟨a, m'⟩ | ⟨e, m'⟩ <;> rw [hr] at h
  · exact hf a h
  · exact h

theorem stays_onSession {act : Act α} (hact : Session.OnOneLine act) :
    Stays line (onSession act) := by
  intro m hm
  have h := hact m.session
  unfold leaves onSession
  rcases hr : act m.session with ⟨a, s⟩ | ⟨e, s⟩ <;> rw [hr] at h <;>
    exact ⟨h.1 ▸ hm.here, hm.functions⟩

theorem stays_changePlace (place : Place) (change : Value → Value.Result (α × Value)) :
    Stays line (changePlace place change) := by
  intro m hm
  unfold leaves
  rw [changePlace_eq]
  rcases m.env.get? place.root with _ | v
  · exact hm
  · dsimp only
    rcases v.changeAt change place.path with e | ⟨a, v'⟩
    · exact hm
    · exact ⟨hm.here, hm.functions⟩

/-- What is made up of statements on lines with the property stays on them. -/
theorem stays_congruence (line : Nat → Prop) :
    LineCongruence (fun _ x _ => Stays line x) line where
  pure _ _ hm := hm
  bind hx hf := hx.bind hf
  fail _ _ hm := hm
  look hf m hm := hf m m ⟨rfl, rfl, rfl⟩ hm
  charge n := stays_onSession (Session.onOneLine_charge n)
  moveOnce d := stays_onSession (Session.onOneLine_moveOnce d)
  speak text := stays_onSession (Session.onOneLine_speak text)
  changePlace place change _ _ := stays_changePlace place change
  setLine hn _ hm := ⟨hn, hm.functions⟩
  define _ _ _ hm := ⟨hm.here, hm.functions⟩
  learn hf _ hm := ⟨hm.here, List.forall_mem_cons.mpr ⟨hf, hm.functions⟩⟩

/-- A call leaves the current line as it was, unless the function fails. -/
theorem stays_inScope (f : Function) (args : List Value) {body : Eval Flow}
    (h : Stays line body) : Stays line (inScope f args body) := by
  intro m hm
  have hbody := h (m := { m with env := enter f args m.env }) ⟨hm.here, hm.functions⟩
  unfold leaves inScope at *
  rcases hr : body { m with env := enter f args m.env } with ⟨flow, m'⟩ | ⟨e, m'⟩ <;>
    rw [hr] at hbody
  · exact ⟨hm.here, hbody.functions⟩
  · exact ⟨hbody.here, hbody.functions⟩

/-- Only functions are called that are known. -/
theorem stays_callNamed {call : Caller}
    (hcall : ∀ f args, (∀ n ∈ f.body.lines, line n) → Stays line (call f args)) (name : String)
    (args : List Value) : Stays line (callNamed call name args) := by
  intro m hm
  unfold leaves callNamed
  rw [bind_apply, get_apply]
  dsimp only
  rcases hf : m.function? name with _ | f
  · rcases m.command? name with _ | c
    · rcases m.env.get? name with _ | v <;> exact hm
    · exact related_invoke (stays_congruence line).toExprCongruence c args hm
  · exact hcall f args (hm.functions f (List.mem_of_find?_eq_some hf)) hm

theorem stays_callWithin : ∀ (limit : Nat) (f : Function) (args : List Value),
    (∀ n ∈ f.body.lines, line n) → Stays line (callWithin limit f args)
  | limit, f, args, hf => by
    have hR := stays_congruence line
    have harity := related_ofResult hR.toExprCongruence
      (Value.arityCheck_confined (.exact f.params.length) f.name.name args.length)
    cases limit with
    | zero => exact harity.bind fun _ _ hm => hm
    | succ limit =>
      refine harity.bind fun _ => stays_inScope f args ?_
      exact @related_block _ _ hR _ (callWithin limit) (stays_callNamed (stays_callWithin limit))
        f.body hf

end Staying

section First

variable {α : Type} {m : Machine}

/-- Where there is gas, it does not matter which line was current before a statement. -/
theorem stmt_setLine (hgas : (m.session.gas.charge 1).isSpent = false) (call : Caller) (s : Stmt)
    (n : Nat) :
    stmt call s { m with session := { m.session with line := n } } = stmt call s m := by
  have hhead (span : Span) (x : Eval Flow) :
      (do tick; setLine span.line; x) { m with session := { m.session with line := n } } =
        (do tick; setLine span.line; x) m := by
    simp only [bind_apply, tick, onSession, Session.charge, hgas, setLine, modify_apply,
      Bool.false_eq_true, if_false]
  cases s <;> exact hhead _ _

/-- Where there is none, no statement begins. -/
theorem stmt_spent (hgas : (m.session.gas.charge 1).isSpent = true) (call : Caller) (s : Stmt) :
    ∃ e m', stmt call s m = .error e m' ∧ m'.session.line = m.session.line := by
  have hhead (span : Span) (x : Eval Flow) :
      ∃ e m', (do tick; setLine span.line; x) m = .error e m' ∧
        m'.session.line = m.session.line := by
    simp only [bind_apply, tick, onSession, Session.charge, hgas, if_true]
    exact ⟨_, _, rfl, rfl⟩
  cases s <;> exact hhead _ _

end First

/-- A script that fails is on one of its lines then, unless it had no gas at all. -/
theorem program_blames {p : Program} {level : Level} {limits : Limits} {commands : List Command}
    {e : RuntimeError} {m : Machine}
    (h : program limits p (.start level limits commands) = .error e m) :
    if 0 < limits.gasLimit then m.session.line ∈ p.lines else m.session.line = 0 := by
  have hspent : ((Gas.start limits.gasLimit).charge 1).isSpent = decide (limits.gasLimit < 1) := rfl
  have hstmts : stmts (callWithin limits.callDepth) p.stmts (.start level limits commands) =
      .error e m := by
    unfold program at h
    rw [bind_apply] at h
    split at h
    · cases h
    · rename_i hstmts
      cases h
      exact hstmts
  rcases hp : p.stmts with _ | ⟨s, rest⟩ <;> rw [hp] at hstmts
  · cases hstmts
  have hlines : p.lines = linesOfStmts (s :: rest) := congrArg linesOfStmts hp
  split
  · rename_i hgas
    -- the line that the first statement begins on may as well be current before it
    have hfirst : s.span.line ∈ p.lines := by
      rw [hlines]
      exact List.mem_append_left _ s.line_mem_lines
    let m₀ := Machine.start level limits commands
    let m₁ : Machine := { m₀ with session := { m₀.session with line := s.span.line } }
    have hsame : stmt (callWithin limits.callDepth) s m₁ =
        stmt (callWithin limits.callDepth) s m₀ :=
      stmt_setLine (hspent.trans (decide_eq_false (Nat.not_lt.mpr hgas))) _ s s.span.line
    have herror : stmts (callWithin limits.callDepth) (s :: rest) m₁ = .error e m := by
      rw [← hstmts]
      unfold stmts
      rw [bind_apply, bind_apply, hsame]
    have hstays : Stays (· ∈ p.lines) (stmts (callWithin limits.callDepth) (s :: rest)) :=
      @related_stmts _ _ (stays_congruence _) _ (callWithin limits.callDepth)
        (stays_callNamed (stays_callWithin _)) _ (hlines ▸ fun _ hn => hn)
    have hm := hstays (m := m₁) ⟨hfirst, fun _ hf => absurd hf List.not_mem_nil⟩
    unfold leaves at hm
    rw [herror] at hm
    exact hm.here
  · rename_i hgas
    obtain ⟨e', m', hs, hline⟩ := stmt_spent (m := .start level limits commands)
      (hspent.trans (decide_eq_true (Nat.lt_of_not_le hgas))) (callWithin limits.callDepth) s
    unfold stmts at hstmts
    rw [bind_apply, hs] at hstmts
    cases hstmts
    exact hline

end Eval

theorem Session.error_completion (s : Session) (level : Level) :
    (s.completion level).error = none := by
  unfold completion
  split <;> rfl

/-- The verdict blames an error on the line that the last frame shows, if it blames any. -/
theorem Outcome.line_eq {level : Level} {limits : Limits} {t : Trace} (h : Outcome level limits t)
    {e : RunError} (he : t.verdict.error = some e) :
    ∃ f line, t.frames.getLast? = some f ∧ f.line = some line ∧
      e.line = if 0 < line then some line else none := by
  cases h with
  | finished log hlen houtput hverdict =>
    rcases hverdict with ⟨rfl, -⟩ | ⟨⟨message, rfl⟩, -⟩ <;> cases he
  | failed line =>
    cases he
    exact ⟨_, line, List.getLast?_concat, rfl, rfl⟩

/-- A run that an error ends blames it on a line exactly if it had any gas. The line is the one that
the last frame shows, and on it a statement of the script or the condition of a branch begins. -/
theorem run_blames {source : SourceText} {p : Program} (hp : source.program = .ok p)
    (level : Level) (limits : Limits) {e : RunError}
    (he : (run p level limits).verdict.error = some e) :
    (e.line.isSome = true ↔ 0 < limits.gasLimit) ∧
      ∀ n ∈ e.line, n ∈ p.lines ∧
        ∃ f, (run p level limits).frames.getLast? = some f ∧ f.line = some n := by
  obtain ⟨ts, hscan, hparse⟩ := SourceText.program_eq_ok_iff.mp hp
  have hone := Program.one_le_lines hscan hparse
  have hcurrent : ∃ m : Machine,
      e.line = (if 0 < m.session.line then some m.session.line else none) ∧
        if 0 < limits.gasLimit then m.session.line ∈ p.lines else m.session.line = 0 := by
    unfold run runWith at he
    rcases hm : Eval.program limits p (.start level limits Command.standard)
      with ⟨u, m⟩ | ⟨e', m⟩ <;> rw [hm] at he
    · have hnone : (m.session.finish level).verdict.error = none :=
        m.session.error_completion level
      dsimp only at he
      rw [hnone] at he
      cases he
    · cases he
      exact ⟨m, rfl, Eval.program_blames hm⟩
  obtain ⟨m, hcurrent, hblamed⟩ := hcurrent
  split at hblamed
  · rename_i hgas
    have hsome : e.line = some m.session.line := hcurrent.trans (if_pos (hone _ hblamed))
    refine ⟨iff_of_true (by rw [hsome]; rfl) hgas, fun n hn => ?_⟩
    obtain rfl : m.session.line = n := Option.some.inj (hsome.symm.trans hn)
    obtain ⟨f, line, hlast, hframe, hline⟩ := (run_outcome p level limits).line_eq he
    refine ⟨hblamed, f, hlast, hframe.trans ?_⟩
    rw [hsome] at hline
    split at hline
    · exact hline.symm
    · cases hline
  · rename_i hgas
    have hnone : e.line = none := by rw [hcurrent, hblamed]; rfl
    rw [hnone]
    exact ⟨iff_of_false Bool.false_ne_true hgas, nofun⟩

/-- A condition that fails on the second line. -/
theorem run_blames_condition :
    ∃ p e, SourceText.program ⟨defaultScriptName, "x = 1\nif x // 0: pass\n"⟩ = .ok p ∧
      (run p default .standard).verdict.error = some e ∧
      (e.line.isSome = true ↔ 0 < Limits.standard.gasLimit) ∧
      ∀ n ∈ e.line, n ∈ p.lines ∧
        ∃ f, (run p default .standard).frames.getLast? = some f ∧ f.line = some n := by
  have hread : ((SourceText.program ⟨defaultScriptName, "x = 1\nif x // 0: pass\n"⟩).toOption.any
      fun p => (run p default .standard).verdict.error.isSome) = true := by
    decide +kernel
  rcases hp : SourceText.program _ with d | p <;> rw [hp] at hread
  · cases hread
  · obtain ⟨e, he⟩ := Option.isSome_iff_exists.mp hread
    exact ⟨p, e, rfl, he, run_blames hp default .standard he⟩

/-- Without any gas no statement begins: the verdict names no line, and the last frame shows
zero. -/
theorem run_without_gas :
    ∃ p e f, SourceText.program ⟨defaultScriptName, "pass\n"⟩ = .ok p ∧
      (run p default ⟨1000, 0, 100⟩).verdict.error = some e ∧ e.line = none ∧
      (run p default ⟨1000, 0, 100⟩).frames.getLast? = some f ∧ f.line = some 0 := by
  have hread : ((SourceText.program ⟨defaultScriptName, "pass\n"⟩).toOption.any fun p =>
      decide ((run p default ⟨1000, 0, 100⟩).verdict.error.map (·.line) = some none ∧
        (run p default ⟨1000, 0, 100⟩).frames.getLast?.map (·.line) = some (some 0))) = true := by
    decide +kernel
  rcases hp : SourceText.program _ with d | p <;> rw [hp] at hread
  · cases hread
  · obtain ⟨hverdict, hframe⟩ := of_decide_eq_true hread
    obtain ⟨e, he, hline⟩ := Option.map_eq_some_iff.mp hverdict
    obtain ⟨f, hf, hzero⟩ := Option.map_eq_some_iff.mp hframe
    exact ⟨p, e, f, rfl, he, hline, hf, hzero⟩

end MissionScript
