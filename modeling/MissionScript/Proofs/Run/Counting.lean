import MissionScript.Proofs.Run.ControlFlow
import MissionScript.Proofs.Run.Spent

/-!
# Loops that count

A loop over `range(…)` counts without making a list. It is the loop over the list of the numbers all
the same, as long as there may be such a list: where the gas never runs out, both loops end in the
same way and leave the same behind, but for the gas (`forRange_sameButGas`). This also holds where
the script has a function of its own in the place of `range`, since what a function returns is never
nested too deeply to be the value of an expression (`callWithin_shallow`).
-/

namespace MissionScript

/-- What a call would return for this flow may be the value of an expression. -/
def Flow.Shallow (flow : Flow) : Prop := flow.value.depth ≤ deepestValue

namespace Eval

open Command (ofResult)

section Shallow

theorem gives_throw {α : Type} {P : α → Prop} (e : RuntimeError) : Gives P (throw e : Eval α) := by
  intro m a m' h
  cases h

theorem expr_shallow (call : Caller) (e : Expr) :
    Gives (fun v => v.depth ≤ deepestValue) (expr call e) := by
  have hproduce (x : Eval Value) : Gives (fun v => v.depth ≤ deepestValue) (produce x) := by
    refine gives_of_bind fun _ => gives_of_bind fun v => ?_
    unfold account
    split
    · exact gives_of_bind fun _ => gives_pure ‹_›
    · exact gives_throw _
  cases e <;> exact hproduce _

theorem exprOpt_shallow (call : Caller) (e : Option Expr) :
    Gives (fun o => ∀ v ∈ o, v.depth ≤ deepestValue) (exprOpt call e) := by
  cases e with
  | none => exact gives_pure nofun
  | some e =>
    refine (expr_shallow call e).bind fun v hv => gives_pure fun u hu => ?_
    cases hu
    exact hv

theorem shallow_normal : Flow.Shallow .normal := Nat.zero_le _

variable (call : Caller)

theorem iteration_shallow (var : Ident) {body : Eval Flow} (hbody : Gives Flow.Shallow body)
    (v : Value) : Gives (fun o => ∀ flow ∈ o, Flow.Shallow flow) (iteration var body v) :=
  iteration_gives (fun _ => shallow_normal) (fun _ hflow => hflow) var hbody v

mutual

theorem stmt_shallow : ∀ st : Stmt, Gives Flow.Shallow (stmt call st)
  | .assign _ _ _ _ | .define _ _ _ _ | .expr _ _ =>
    gives_head (gives_of_bind fun _ => gives_pure shallow_normal)
  | .pass _ | .brk _ | .cont _ => gives_head (gives_pure shallow_normal)
  | .ifElse branches otherwise _ =>
    gives_head (firstTrue_shallow branches (blockOpt_shallow otherwise))
  | .forRange var start stop step body _ => by
    have honce := iteration_shallow var (block_shallow body)
    refine gives_head (gives_of_bind fun args => gives_of_bind fun m => .ite ?_ ?_)
    · exact gives_of_bind fun v => gives_of_bind fun vs =>
        loopItems_gives shallow_normal honce vs
    · exact gives_of_bind fun r => loopRange_gives shallow_normal honce r _ _
  | .forEach var items body _ =>
    gives_head (gives_of_bind fun v => gives_of_bind fun vs =>
      loopItems_gives shallow_normal (iteration_shallow var (block_shallow body)) vs)
  | .ret value _ => by
    refine gives_head ((exprOpt_shallow call value).bind fun o ho => ?_)
    rcases o with _ | v
    · exact gives_pure shallow_normal
    · exact gives_pure (ho v rfl)

theorem block_shallow : ∀ b : Block, Gives Flow.Shallow (block call b)
  | .mk body _ => stmts_shallow body

theorem stmts_shallow : ∀ ss : List Stmt, Gives Flow.Shallow (stmts call ss)
  | [] => gives_pure shallow_normal
  | st :: rest => by
    refine (stmt_shallow st).bind fun flow hflow => ?_
    cases flow with
    | normal => exact stmts_shallow rest
    | brk | cont | ret v => exact gives_pure hflow

theorem firstTrue_shallow : ∀ (bs : List (Expr × Block)) {otherwise : Eval Flow},
    Gives Flow.Shallow otherwise → Gives Flow.Shallow (firstTrue call otherwise bs)
  | [], _, hotherwise => hotherwise
  | (_, body) :: rest, _, hotherwise =>
    gives_of_bind fun _ => gives_of_bind fun _ =>
      .ite (block_shallow body) (firstTrue_shallow rest hotherwise)

theorem blockOpt_shallow : ∀ b : Option Block, Gives Flow.Shallow (blockOpt call b)
  | none => gives_pure shallow_normal
  | some b => block_shallow b

end

theorem inScope_shallow (f : Function) (args : List Value) {body : Eval Flow}
    (hbody : Gives Flow.Shallow body) :
    Gives (fun v => v.depth ≤ deepestValue) (inScope f args body) := by
  intro m v m' h
  unfold inScope at h
  rcases hr : body { m with env := enter f args m.env } with ⟨flow, n⟩ | ⟨e, n⟩ <;>
    rw [hr] at h <;> cases h
  exact hbody hr

/-- What a function returns has been looked at when it was made. -/
theorem callWithin_shallow (limit : Nat) (f : Function) (args : List Value) :
    Gives (fun v => v.depth ≤ deepestValue) (callWithin limit f args) := by
  unfold callWithin
  refine gives_of_bind fun _ => ?_
  cases limit with
  | zero => exact gives_throw _
  | succ rest => exact inScope_shallow f args (block_shallow (callWithin rest) f.body)

end Shallow

section Lists

variable (call : Caller)

/-- A loop that counts is the loop over the list of the ints. -/
theorem loopRange_eq (once : Value → Eval (Option Flow)) (r : IntRange) (i n : Nat) :
    loopRange once r i n = loopItems once ((List.range' i n).map fun k => .int (r.get k)) := by
  induction n generalizing i with
  | zero => rfl
  | succ n ih =>
    rw [List.range'_succ, List.map_cons, loopItems, loopRange]
    simp only [ih]

theorem loopRange_take (once : Value → Eval (Option Flow)) (r : IntRange) (n : Nat) :
    loopRange once r 0 n = loopItems once (r.take n) := by
  rw [loopRange_eq, ← List.range_eq_range', IntRange.take]

/-- The bounds of a loop are evaluated as the arguments of a call are. -/
theorem bounds_eq (start : Option Expr) (stop : Expr) (step : Option Expr) :
    bounds call start stop step = exprs call (start.toList ++ stop :: step.toList) := by
  cases start <;> cases step <;> simp [bounds, exprs, exprOpt]

theorem bounds_length (start : Option Expr) (stop : Expr) (step : Option Expr) :
    Gives (fun args => 1 ≤ args.length ∧ args.length ≤ 3) (bounds call start stop step) := by
  refine gives_of_bind fun a => gives_of_bind fun b => gives_of_bind fun c => gives_pure ?_
  cases a <;> cases c <;> simp

end Lists

section Loop

variable {call : Caller} {once : Value → Eval (Option Flow)}

/-- What a loop over a range does once its bounds are known. -/
def rangeLoop (call : Caller) (once : Value → Eval (Option Flow)) (args : List Value) :
    Eval Flow := do
  if ((← get).function? "range").isSome then
    let v ← callNamed call "range" args
    loopItems once (← ofResult v.items)
  else
    let r ← ofResult (IntRange.ofArgs args)
    loopRange once r 0 r.count

/-- What a loop over a call of `range` does once the arguments are known. -/
def listLoop (call : Caller) (once : Value → Eval (Option Flow)) (args : List Value) :
    Eval Flow := do
  let v ← callNamed call "range" args
  let v ← account v
  loopItems once (← ofResult v.items)

theorem stmt_forRange (call : Caller) (var : Ident) (start : Option Expr) (stop : Expr)
    (step : Option Expr) (body : Block) (span : Span) :
    stmt call (.forRange var start stop step body span) =
      (do tick; setLine span.line; bounds call start stop step) >>=
        rangeLoop call (iteration var (block call body)) := by
  simp only [stmt, bind_assoc]
  rfl

theorem stmt_forEach_range (call : Caller) (var callee : Ident) (hcallee : callee.name = "range")
    (start : Option Expr) (stop : Expr) (step : Option Expr) (body : Block) (span : Span)
    (mark : Mark) :
    stmt call
        (.forEach var (.call callee (start.toList ++ stop :: step.toList) mark) body span) =
      (do tick; setLine span.line; tick; bounds call start stop step) >>=
        listLoop call (iteration var (block call body)) := by
  simp only [stmt, expr, produce, bind_assoc, bounds_eq, hcallee]
  rfl

theorem account_apply {v : Value} (hv : v.depth ≤ deepestValue) {m : Machine} (hm : m.Unlimited) :
    ∃ used, account v m = .ok v (m.spent used) := by
  unfold account
  rw [if_pos hv, bind_apply, charge_apply hm]
  exact ⟨_, rfl⟩

theorem depth_take (r : IntRange) (n : Nat) : (Value.list (r.take n)).depth ≤ deepestValue := by
  refine Value.depth_list_le.mpr ⟨by decide, fun v hv => ?_⟩
  obtain ⟨i, -, rfl⟩ := List.mem_map.mp hv
  exact (by decide : 0 + 1 ≤ deepestValue)

theorem invoke_range {args : List Value} (hargs : 1 ≤ args.length ∧ args.length ≤ 3) :
    Command.range.invoke args = Command.materialize args := by
  have harity : Command.range.arity.check Command.range.name args.length = .ok () :=
    if_pos (Bool.and_eq_true_iff.mpr ⟨decide_eq_true hargs.1, decide_eq_true hargs.2⟩)
  rw [Command.invoke, harity]
  rfl

/-- The list of a range that is short enough is made, whatever that costs. -/
theorem callNamed_range (call : Caller) {m : Machine} (hm : m.Rich) {args : List Value}
    (hargs : 1 ≤ args.length ∧ args.length ≤ 3) (hnone : m.function? "range" = none) :
    match IntRange.ofArgs args with
    | .error e => callNamed call "range" args m = .error e m
    | .ok r => r.count ≤ longestSequence →
      ∃ used, callNamed call "range" args m = .ok (.list (r.take r.count)) (m.spent used) := by
  have hcommand : m.command? "range" = some .range := by
    rw [Machine.command?, hm.commands]
    rfl
  have hcall : callNamed call "range" args m = onSession (Command.materialize args) m := by
    unfold callNamed
    rw [bind_apply, get_apply]
    dsimp only
    rw [hnone, hcommand]
    dsimp only
    rw [invoke_range hargs]
  rw [hcall, Command.materialize, onSession_bind, onSession_ofResult]
  rcases IntRange.ofArgs args with e | r
  · rfl
  · intro hcount
    change ∃ used, (onSession (Session.charge r.count >>= fun _ => _)) m = _
    rw [onSession_bind, bind_apply, charge_apply hm.unlimited, if_pos hcount]
    exact ⟨_, rfl⟩

variable (honce : ∀ v, Alike (once v) (once v))
include honce

/-- A list is gone through in the same way after its weight has been paid for. -/
theorem sameButGas_items {v : Value} (hv : v.depth ≤ deepestValue) {m : Machine} (hm : m.Rich)
    (used : Nat) :
    SameButGas ((do loopItems once (← ofResult v.items)) m)
      ((do let v ← account v; loopItems once (← ofResult v.items)) (m.spent used)) := by
  have hspent : (m.spent used).Unlimited := hm.unlimited
  have hitems : Alike (do loopItems once (← ofResult v.items))
      (do loopItems once (← ofResult v.items)) :=
    alike_congruence.bind
      (related_ofResult alike_congruence.toExprCongruence (Value.items_confined v))
      fun vs => related_loopItems alike_congruence.anywhere honce vs
  obtain ⟨used', haccount⟩ := account_apply hv hspent
  rw [bind_apply (account v), haccount]
  exact hitems.same hm used'

variable (hcall : ∀ name args, Alike (callNamed call name args) (callNamed call name args))
include hcall

/-- The ints of a range are gone through in the same way as the list of them. -/
theorem sameButGas_loop {m : Machine} (hm : m.Rich) (used : Nat) {args : List Value}
    (hargs : 1 ≤ args.length ∧ args.length ≤ 3)
    (hcount : ∀ r, IntRange.ofArgs args = .ok r → r.count ≤ longestSequence)
    (hshallow : ∀ f, Gives (fun v => v.depth ≤ deepestValue) (call f args)) :
    SameButGas (rangeLoop call once args m) (listLoop call once args (m.spent used)) := by
  unfold rangeLoop listLoop
  rw [bind_apply, get_apply]
  dsimp only
  rcases hf : m.function? "range" with _ | f
  · have hspent : (m.spent used).Rich := ⟨hm.unlimited, hm.commands⟩
    have hlist := callNamed_range call hspent hargs hf
    rw [Option.isSome_none, if_neg Bool.false_ne_true, bind_apply, bind_apply]
    rcases hr : IntRange.ofArgs args with e | r <;> rw [hr] at hlist
    · rw [hlist]
      exact .error e m used
    · obtain ⟨used', hlist⟩ := hlist (hcount r hr)
      rw [hlist]
      have hloop := sameButGas_items honce (depth_take r r.count) hm used'
      change SameButGas (loopRange once r 0 r.count m) _
      rw [loopRange_take]
      exact hloop
  · rw [Option.isSome_some, if_pos rfl]
    refine ((hcall _ _).same hm used).bind fun v n used' hv => ?_
    have hv' : v.depth ≤ deepestValue := by
      rw [callNamed_of_function? call args hf] at hv
      exact hshallow f hv
    exact sameButGas_items honce hv' ((hcall _ _).rich hm hv) used'

end Loop

variable (limit : Nat) (var callee : Ident) (start : Option Expr) (stop : Expr)
  (step : Option Expr) (body : Block) (span : Span) (mark : Mark)

/-- A loop that counts ends as the loop over the list of its numbers does, and leaves the same
behind, but for the gas. The bounds may fail, and they may be no bounds of a range; where they are,
there are no more numbers than a list may have items. -/
theorem forRange_sameButGas (hcallee : callee.name = "range") {m : Machine} (hgas : m.Unlimited)
    (hcommands : m.commands = Command.standard)
    (hcount : ∀ args m' r,
      (do tick; setLine span.line; bounds (callWithin limit) start stop step) m = .ok args m' →
        IntRange.ofArgs args = .ok r → r.count ≤ longestSequence) :
    SameButGas (stmt (callWithin limit) (.forRange var start stop step body span) m)
      (stmt (callWithin limit)
        (.forEach var (.call callee (start.toList ++ stop :: step.toList) mark) body span)
        m) := by
  have hm : m.Rich := ⟨hgas, hcommands⟩
  have hcall (name : String) (args : List Value) :
      Alike (callNamed (callWithin limit) name args) (callNamed (callWithin limit) name args) :=
    related_callNamed alike_congruence.toExprCongruence (related_callWithin alike_congruence limit)
      name args
  have honce (v : Value) :=
    related_iteration alike_congruence.anywhere var
      (related_block alike_congruence.anywhere hcall body fun _ _ => trivial) v
  have hbounds : Alike
      (do tick; setLine span.line; bounds (callWithin limit) start stop step)
      (do tick; setLine span.line; tick; bounds (callWithin limit) start stop step) :=
    related_head alike_congruence.anywhere trivial
      ((related_bounds alike_congruence.anywhere hcall start stop step).charge_right 1)
  rw [stmt_forRange, stmt_forEach_range _ _ _ hcallee]
  refine (hbounds.same hm m.session.gas.used).bind fun args n used hargs => ?_
  have hlength : 1 ≤ args.length ∧ args.length ≤ 3 :=
    gives_head (bounds_length (callWithin limit) start stop step) hargs
  exact sameButGas_loop honce hcall (hbounds.rich hm hargs) used hlength
    (fun r hr => hcount args n r hargs hr) fun f => callWithin_shallow limit f args

/-- A loop that counts down from three, moves the rover and leaves the loop at two. -/
theorem forRange_sameButGas_countdown :
    let m := Machine.start default ⟨1000, Gas.most, 100⟩ Command.standard
    let bounds : List Expr := [.int 3 default, .int 0 default, .int (-1) default]
    let body : Block := .mk
      [.expr (.call ⟨"move_right", default⟩ [] default) default,
        .ifElse [(.binary (.name "i" default) .eq (.int 2 default) default,
          .mk [.brk default] default)] none default] default
    m.Unlimited ∧
      SameButGas
        (stmt (callWithin 100) (.forRange ⟨"i", default⟩ (some (.int 3 default)) (.int 0 default)
          (some (.int (-1) default)) body default) m)
        (stmt (callWithin 100) (.forEach ⟨"i", default⟩ (.call ⟨"range", default⟩ bounds default)
          body default) m) := by
  refine ⟨rfl, ?_⟩
  refine forRange_sameButGas 100 ⟨"i", default⟩ ⟨"range", default⟩ (some (.int 3 default))
    (.int 0 default) (some (.int (-1) default)) _ default default rfl rfl rfl ?_
  intro args m' r hargs hr
  cases hargs
  cases hr
  decide

end Eval

end MissionScript
