import MissionScript.Proofs.Run.Quiet
import MissionScript.Proofs.Script.Printed
import MissionScript.Run.Session
import MissionScript.Script.Check

/-!
# Written values are programs

A literal calls nothing, so where the gas never runs out its outcome is put together from the
outcomes of its parts, and it is the value itself (`outcome_literal`). A dict is built entry by
entry, and since its keys are distinct each entry comes behind those that are there. So a script
that assigns the written form of a value to a variable gives the variable this value
(`written_runs`).
-/

namespace MissionScript

namespace Eval

open Command (ofResult)

variable {call : Caller}

section Places

variable (f : Expr → Nat)

mutual

/-- An expression evaluates to the same wherever its parts stand and however tall they are. -/
theorem expr_bareWith : ∀ e : Expr, expr call (e.bareWith f) = expr call e
  | .int _ _ | .float _ _ | .str _ _ | .bool _ _ | .none _ | .name _ _ => rfl
  | .list items _ => by
    simp only [Expr.bareWith, Expr.unplaced, Expr.withMark, expr, exprs_bare items]
  | .dict entries _ => by
    simp only [Expr.bareWith, Expr.unplaced, Expr.withMark, expr, entriesOnto_bare entries]
  | .call callee args _ => by
    simp only [Expr.bareWith, Expr.unplaced, Expr.withMark, expr, exprs_bare args]
  | .method object m args _ => by
    simp only [Expr.bareWith, Expr.unplaced, Expr.withMark, expr, place_bareWith object,
      exprs_bare args, expr_bareWith object]
  | .binary left op right _ => by
    simp only [Expr.bareWith, Expr.unplaced, Expr.withMark, expr, expr_bareWith left,
      expr_bareWith right]
  | .unary _ operand _ => by
    simp only [Expr.bareWith, Expr.unplaced, Expr.withMark, expr, expr_bareWith operand]
  | .index object i _ => by
    simp only [Expr.bareWith, Expr.unplaced, Expr.withMark, expr, expr_bareWith object,
      expr_bareWith i]
  | .slice object start stop _ => by
    simp only [Expr.bareWith, Expr.unplaced, Expr.withMark, expr, expr_bareWith object,
      exprOpt_bare start, exprOpt_bare stop]

theorem exprs_bare : ∀ es : List Expr, exprs call (Expr.bareAll f es) = exprs call es
  | [] => rfl
  | e :: es => by simp only [Expr.bareAll, exprs, expr_bareWith e, exprs_bare es]

theorem exprOpt_bare : ∀ e : Option Expr, exprOpt call (Expr.bareOpt f e) = exprOpt call e
  | none => rfl
  | some e => by simp only [Expr.bareOpt, exprOpt, expr_bareWith e]

theorem entriesOnto_bare : ∀ (es : List (Expr × Expr)) (d : Value),
    entriesOnto call d (Expr.bareEntries f es) = entriesOnto call d es
  | [], _ => rfl
  | (k, e) :: es, d => by
    simp only [Expr.bareEntries, entriesOnto, expr_bareWith k, expr_bareWith e,
      entriesOnto_bare es]

theorem place_bareWith : ∀ e : Expr, place? call (e.bareWith f) = place? call e
  | .name _ _ => rfl
  | .index object i _ => by
    simp only [Expr.bareWith, Expr.unplaced, Expr.withMark, place?, place_bareWith object,
      expr_bareWith i]
  | .int _ _ | .float _ _ | .str _ _ | .bool _ _ | .none _ | .list _ _ | .dict _ _ | .call _ _ _
  | .method _ _ _ _ | .binary _ _ _ _ | .unary _ _ _ | .slice _ _ _ _ => rfl

end

end Places

section Literals

open Value (literals literalEntries)

mutual

theorem isCallFree_literal : ∀ v : Value, v.literal.isCallFree = true
  | .none | .bool _ | .float _ | .str _ => rfl
  | .int _ => by
    rw [Value.literal]
    split <;> rfl
  | .list items => areCallFree_literals items
  | .dict entries => entriesCallFree_literals entries

theorem areCallFree_literals : ∀ vs : List Value, areCallFree (literals vs) = true
  | [] => rfl
  | v :: vs => by
    rw [literals, areCallFree, isCallFree_literal v, areCallFree_literals vs]
    rfl

theorem entriesCallFree_literals : ∀ es : List (Value × Value),
    entriesCallFree (literalEntries es) = true
  | [] => rfl
  | (k, v) :: es => by
    rw [literalEntries, entriesCallFree, isCallFree_literal k, isCallFree_literal v,
      entriesCallFree_literals es]
    rfl

end

theorem quiet_literal (v : Value) : Quiet (expr call v.literal) :=
  quiet_expr _ (isCallFree_literal v)

theorem quiet_literals (vs : List Value) : Quiet (exprs call (literals vs)) :=
  quiet_exprs _ (areCallFree_literals vs)

theorem quiet_literalEntries (es : List (Value × Value)) (d : Value) :
    Quiet (entriesOnto call d (literalEntries es)) :=
  quiet_entriesOnto _ (entriesCallFree_literals es) d

variable {m : Machine} (hm : m.Unlimited)
include hm

theorem Quiet.outcome_bind_ok {α β : Type} {x : Eval α} {f : α → Eval β} {a : α} (hx : Quiet x)
    (hf : ∀ a, Quiet (f a)) (h : x.outcome m = .ok a) : (x >>= f).outcome m = (f a).outcome m := by
  rw [hx.outcome_bind fun a used => (hf a).agrees hm used, h]
  rfl

theorem Quiet.outcome_produce_ok {x : Eval Value} {v : Value} (hx : Quiet x)
    (h : x.outcome m = .ok v) (hdepth : v.depth ≤ deepestValue) :
    (Eval.produce x).outcome m = .ok v := by
  rw [outcome_produce hm hx.steady (hx.agrees hm), h]
  exact if_pos hdepth

theorem outcome_literals {vs : List Value}
    (h : ∀ v ∈ vs, (expr call v.literal).outcome m = .ok v) :
    (exprs call (literals vs)).outcome m = .ok vs := by
  induction vs with
  | nil => rfl
  | cons v vs ih =>
    obtain ⟨hv, hvs⟩ := List.forall_mem_cons.mp h
    rw [literals, exprs, (quiet_literal v).outcome_bind_ok hm
      (fun _ => (quiet_literals vs).bind fun _ => .pure _) hv,
      (quiet_literals vs).outcome_bind_ok hm (fun _ => .pure _) (ih hvs)]
    rfl

/-- Entries with new keys come behind those that are there. -/
theorem outcome_literalEntries {before entries : List (Value × Value)}
    (hkeys : Value.Distinct ((before ++ entries).map (·.1)))
    (h : ∀ e ∈ entries, (expr call e.1.literal).outcome m = .ok e.1 ∧
      (expr call e.2.literal).outcome m = .ok e.2) :
    (entriesOnto call (.dict before) (literalEntries entries)).outcome m
      = .ok (.dict (before ++ entries)) := by
  induction entries generalizing before with
  | nil =>
    rw [List.append_nil]
    rfl
  | cons e es ih =>
    obtain ⟨k, v⟩ := e
    obtain ⟨⟨hk, hv⟩, hes⟩ := List.forall_mem_cons.mp h
    have hscalar : k.isHashable = true := hkeys.scalar k (by simp)
    have hnew : ∀ e ∈ before, e.1.equal k = false := by
      have hunequal := hkeys.unequal
      rw [List.map_append, List.pairwise_append] at hunequal
      exact fun e he => hunequal.2.2 _ (List.mem_map_of_mem he) k List.mem_cons_self
    let fill (x : Value) : Eval Value := do
      entriesOnto call (← ofResult ((Value.dict before).setIndex k x)) (literalEntries es)
    have hfill (x : Value) : Quiet (fill x) :=
      (Quiet.ofResult _).bind (quiet_literalEntries es)
    -- for the entries that follow, this one is among those that are there
    rw [List.append_cons before (k, v) es] at hkeys ⊢
    calc (entriesOnto call (.dict before) (literalEntries ((k, v) :: es))).outcome m
        = (expr call v.literal >>= fill).outcome m :=
          (quiet_literal k).outcome_bind_ok hm (fun key => (quiet_literal v).bind fun _ =>
            (Quiet.ofResult _).bind (quiet_literalEntries es)) hk
      _ = (fill v).outcome m := (quiet_literal v).outcome_bind_ok hm hfill hv
      _ = (entriesOnto call (.dict (before ++ [(k, v)])) (literalEntries es)).outcome m := by
          unfold fill
          rw [Value.setIndex_new hscalar hnew]
          rfl
      _ = .ok (.dict (before ++ [(k, v)] ++ es)) := ih hkeys hes

/-- The literal of a value evaluates to the value. -/
theorem outcome_literal {v : Value} (hv : v.Printable) (hdepth : v.depth ≤ deepestValue) :
    (expr call v.literal).outcome m = .ok v := by
  induction hv with
  | none | bool | str => exact (Quiet.pure _).outcome_produce_ok hm rfl hdepth
  | @int n hn =>
    rw [Value.literal]
    split
    · rename_i hneg
      have hoperand : (expr call (.int (-n) default)).outcome m = .ok (.int (-n)) :=
        (Quiet.pure _).outcome_produce_ok hm rfl (Nat.zero_le _)
      have hquiet : Quiet (expr call (.int (-n) default)) := quiet_expr _ rfl
      refine (hquiet.bind fun _ => .ofResult _).outcome_produce_ok hm ?_ hdepth
      rw [hquiet.outcome_bind_ok hm (fun _ => .ofResult _) hoperand, outcome_ofResult,
        Value.unary_neg hneg hn]
    · exact (Quiet.pure _).outcome_produce_ok hm rfl hdepth
  | @list items _ ih =>
    have hitem := (Value.depth_list_le.mp hdepth).2
    have hitems := outcome_literals hm fun v hv => ih v hv (Nat.le_of_succ_le (hitem v hv))
    refine ((quiet_literals items).bind fun _ => .pure _).outcome_produce_ok hm ?_ hdepth
    rw [(quiet_literals items).outcome_bind_ok hm (fun _ => .pure _) hitems]
    rfl
  | @dict entries hkeys _ _ ihkeys ihvalues =>
    have hvalue := (Value.depth_dict_le.mp hdepth).2
    have hkey (e) (he : e ∈ entries) : e.1.depth ≤ deepestValue :=
      Value.depth_eq_zero (hkeys.scalar _ (List.mem_map_of_mem he)) ▸ Nat.zero_le _
    refine (quiet_literalEntries entries _).outcome_produce_ok hm ?_ hdepth
    exact @outcome_literalEntries _ _ hm [] entries hkeys fun e he =>
      ⟨ihkeys e he (hkey e he), ihvalues e he (Nat.le_of_succ_le (hvalue e he))⟩

end Literals

section Assignment

variable {m : Machine}

theorem Quiet.ok_of_outcome {α : Type} {x : Eval α} {a : α} (hx : Quiet x)
    (h : x.outcome m = .ok a) : ∃ used, x m = .ok a (m.spent used) := by
  obtain ⟨used, hused⟩ := hx.spends m
  unfold leaves at hused
  unfold outcome at h
  rcases hr : x m with ⟨b, n⟩ | ⟨e, n⟩ <;> rw [hr] at hused h <;> cases h
  exact ⟨used, hused ▸ rfl⟩

/-- Assigning a literal does nothing but spend gas, note the line and define the variable. -/
theorem stmt_assign_literal {v : Value} (hv : v.Printable) (hdepth : v.depth ≤ deepestValue)
    (hm : m.Unlimited) (x : Ident) {e : Expr} (he : e.bare = v.literal.rebuilt) (span : Span) :
    ∃ m', stmt call (.assign (.name x) .set e span) m = .ok .normal m' ∧
      m'.env = m.env.define x.name v := by
  -- the machine when the value is due: gas for the statement is spent and its line is noted
  let m₁ := m.spent (min (m.session.gas.used + 1) Gas.most)
  let m₂ : Machine := { m₁ with session := { m₁.session with line := span.line } }
  have hexpr : expr call e = expr call v.literal := by
    rw [← expr_bareWith Expr.height e, ← expr_bareWith Expr.newHeight v.literal]
    exact congrArg (expr call) he
  obtain ⟨used, hvalue⟩ := (quiet_literal v).ok_of_outcome (@outcome_literal call m₂ hm v hv hdepth)
  have hassign : assign call (.name x) .set e m₂ =
      .ok () { m₂.spent used with env := m.env.define x.name v } := by
    change (expr call e >>= define x.name) m₂ = _
    rw [bind_apply, hexpr, hvalue]
    rfl
  refine ⟨{ m₂.spent used with env := m.env.define x.name v }, ?_, rfl⟩
  rw [stmt, bind_apply, tick, charge_apply hm]
  change (assign call (.name x) .set e >>= fun _ => pure Flow.normal) m₂ = _
  rw [bind_apply, hassign]
  rfl

end Assignment

end Eval

/-- A written value is a program: after `x = ` it is accepted, and on a fresh machine with as much
gas as can be counted it runs to its end and leaves `x` with that value as the only variable. -/
theorem written_runs {v : Value} (hv : v.Printable) (hdepth : v.depth ≤ 60) (file : String)
    (level : Level) (limits : Limits) (hgas : limits.gasLimit = Gas.most)
    (commands : List Command) :
    ∃ p m, SourceText.program ⟨file, "x = " ++ v.written ++ "\n"⟩ = .ok p ∧
      Eval.program limits p (.start level limits commands) = .ok () m ∧
      m.env = ⟨[("x", v)], []⟩ ∧ m.env.get? "x" = some v := by
  obtain ⟨ts, hts, hlexemes⟩ := hv.scan_assignment
  obtain ⟨hnesting, hheight⟩ := hv.literal_le
  have he : Grammar.Expression true v.literal.written v.literal.rebuilt :=
    expression_written (by unfold nestingLimit; omega) (by unfold heightLimit; omega)
  have hassign : Grammar.DerivesSimple true (.name "x" :: .symbol .eq :: v.literal.written)
      (.assign (.name ⟨"x", default⟩) .set v.literal.rebuilt default) :=
    .assign .set (.name "x") (by decide) he
  obtain ⟨p, s, hp, hstmts, hs⟩ := ofTokens_of_simple hassign rfl hlexemes
  have hprogram : SourceText.program ⟨file, "x = " ++ v.written ++ "\n"⟩ = .ok p := by
    simp only [SourceText.program, SourceText.tokens, hts, SourceText.programOf, hp]
  cases s with
  | assign target op e span =>
    obtain ⟨htarget, rfl, hbare, -⟩ := Stmt.assign.inj hs
    cases target with
    | item => cases htarget
    | name x =>
      have hx : x.name = "x" := congrArg Ident.name (Target.name.inj htarget)
      have hunlimited : (Machine.start level limits commands).Unlimited := hgas
      obtain ⟨m, hm, henv⟩ := @Eval.stmt_assign_literal (Eval.callWithin limits.callDepth) _ v hv
        (Nat.le_trans hdepth (by decide)) hunlimited x e hbare span
      have hbound : m.env = ⟨[("x", v)], []⟩ := by
        rw [henv, hx]
        rfl
      refine ⟨p, m, hprogram, ?_, hbound, by rw [hbound]; rfl⟩
      rw [Eval.program, hstmts, bind_apply, Eval.stmts, bind_apply, hm]
      rfl
  | _ => cases hs

/-- A dict with a sign, either kind of quote, an escaped character and dicts inside. -/
def inventory : Value :=
  .dict [(.int (-1), .list [.str "it's", .str "\x22\n'", .none]), (.bool true, .dict [])]

/-- `x = {-1: ["it's", '"\n\'', None], True: {}}` gives `x` that value. -/
theorem written_runs_inventory :
    inventory.written = "\x7b-1: [\x22it's\x22, '\x22\\n\\'', None], True: \x7b\x7d\x7d" ∧
    inventory.Printable ∧ inventory.depth ≤ 60 ∧
    ∃ p m, SourceText.program ⟨defaultScriptName, "x = " ++ inventory.written ++ "\n"⟩ = .ok p ∧
      Eval.program ⟨1000, Gas.most, 100⟩ p (.start default ⟨1000, Gas.most, 100⟩ []) = .ok () m ∧
      m.env = ⟨[("x", inventory)], []⟩ ∧ m.env.get? "x" = some inventory := by
  have hitems : ∀ v ∈ [Value.str "it's", .str "\x22\n'", .none], v.Printable := by
    simp [Value.Printable.str, Value.Printable.none]
  have hempty : (Value.dict []).Printable := .dict ⟨nofun, .nil⟩ nofun nofun
  have hkeys : Value.Distinct [.int (-1), .bool true] := by
    refine ⟨by simp [Value.isHashable], ?_⟩
    simp [Value.equal, Value.equalFrom, Value.sameNumber, Value.number?]
  have hprintable : inventory.Printable :=
    .dict hkeys (by simpa [Value.Printable.bool] using Value.Printable.int (by decide))
      (by simpa [Value.Printable.list hitems] using hempty)
  exact ⟨rfl, hprintable, by decide, written_runs hprintable (by decide) _ _ _ rfl _⟩

end MissionScript
