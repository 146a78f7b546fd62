import MissionScript.Proofs.Script.Heights

/-!
# Trees without places

Two trees that differ in nothing but the places of their nodes have the same bare form. A bare tree
keeps the heights of the one that it comes from, and the bare form of a node that is made is made
from the bare parts (`Expr.bare_new`). A tree is rebuilt by making each of its nodes anew; where the
heights are right, this is its bare form (`Expr.Measured.rebuilt_eq`).
-/

namespace MissionScript

namespace Expr

/-- The node with no place, and the height that is found for it. -/
def unplaced (height : Expr → Nat) (e : Expr) : Expr := e.withMark ⟨default, height e⟩

mutual

/-- The tree with every span left out, and each node with the height that is found for it. -/
def bareWith (height : Expr → Nat) : Expr → Expr
  | int n mark => unplaced height (int n mark)
  | float x mark => unplaced height (float x mark)
  | str s mark => unplaced height (str s mark)
  | bool b mark => unplaced height (bool b mark)
  | none mark => unplaced height (none mark)
  | name s mark => unplaced height (name s mark)
  | list items mark => unplaced height (list (bareAll height items) mark)
  | dict entries mark => unplaced height (dict (bareEntries height entries) mark)
  | call callee args mark =>
    unplaced height (call ⟨callee.name, default⟩ (bareAll height args) mark)
  | method object m args mark =>
    unplaced height
      (method (object.bareWith height) ⟨m.name, default⟩ (bareAll height args) mark)
  | binary left op right mark =>
    unplaced height (binary (left.bareWith height) op (right.bareWith height) mark)
  | unary op operand mark => unplaced height (unary op (operand.bareWith height) mark)
  | index object i mark =>
    unplaced height (index (object.bareWith height) (i.bareWith height) mark)
  | slice object start stop mark =>
    unplaced height
      (slice (object.bareWith height) (bareOpt height start) (bareOpt height stop) mark)

def bareAll (height : Expr → Nat) : List Expr → List Expr
  | [] => []
  | e :: es => e.bareWith height :: bareAll height es

def bareEntries (height : Expr → Nat) : List (Expr × Expr) → List (Expr × Expr)
  | [] => []
  | (k, v) :: es => (k.bareWith height, v.bareWith height) :: bareEntries height es

def bareOpt (height : Expr → Nat) : Option Expr → Option Expr
  | Option.none => Option.none
  | some e => some (e.bareWith height)

end

/-- The tree with every span left out. -/
def bare (e : Expr) : Expr := e.bareWith height

/-- The tree made anew from its leaves, with every span left out. -/
def rebuilt (e : Expr) : Expr := e.bareWith newHeight

/-- The node made anew, at no place. -/
def fresh (e : Expr) : Expr := e.new default

section Parts

/-- The node with each of its parts replaced, and its names without their places. -/
def mapParts (f : Expr → Expr) : Expr → Expr
  | int n mark => int n mark
  | float x mark => float x mark
  | str s mark => str s mark
  | bool b mark => bool b mark
  | none mark => none mark
  | name s mark => name s mark
  | list items mark => list (items.map f) mark
  | dict entries mark => dict (entries.map fun e => (f e.1, f e.2)) mark
  | call callee args mark => call ⟨callee.name, default⟩ (args.map f) mark
  | method object m args mark => method (f object) ⟨m.name, default⟩ (args.map f) mark
  | binary left op right mark => binary (f left) op (f right) mark
  | unary op operand mark => unary op (f operand) mark
  | index object i mark => index (f object) (f i) mark
  | slice object start stop mark => slice (f object) (start.map f) (stop.map f) mark

theorem mark_mapParts (f : Expr → Expr) (e : Expr) : (e.mapParts f).mark = e.mark := by
  cases e <;> rfl

theorem parts_mapParts (f : Expr → Expr) (e : Expr) : (e.mapParts f).parts = e.parts.map f := by
  cases e with
  | dict entries =>
    simp only [mapParts, parts, List.flatMap_map, List.map_flatMap, List.map_cons, List.map_nil]
  | slice object start stop => cases start <;> cases stop <;> rfl
  | _ => rfl

theorem mapParts_congr {f g : Expr → Expr} {e : Expr} (h : ∀ x ∈ e.parts, f x = g x) :
    e.mapParts f = e.mapParts g := by
  cases e with
  | list items mark => exact congrArg (list · mark) (List.map_congr_left h)
  | call callee args mark => exact congrArg (call _ · mark) (List.map_congr_left h)
  | dict entries mark =>
    have hentries := forall_parts_dict.mp h
    refine congrArg (dict · mark) (List.map_congr_left fun e he => ?_)
    rw [(hentries e he).1, (hentries e he).2]
  | method object m args mark =>
    obtain ⟨hobject, hargs⟩ := List.forall_mem_cons.mp h
    rw [mapParts, mapParts, hobject, List.map_congr_left hargs]
  | binary left op right => rw [mapParts, mapParts, h left (.head _), h right (.tail _ (.head _))]
  | unary op operand => rw [mapParts, mapParts, h operand (.head _)]
  | index object i => rw [mapParts, mapParts, h object (.head _), h i (.tail _ (.head _))]
  | slice object start stop =>
    obtain ⟨hobject, hstart, hstop⟩ := forall_parts_slice.mp h
    rw [mapParts, mapParts, hobject, Option.map_congr hstart, Option.map_congr hstop]
  | _ => rfl

theorem newHeight_mapParts {f : Expr → Expr} (h : ∀ x : Expr, (f x).height = x.height)
    (e : Expr) : (e.mapParts f).newHeight = e.newHeight := by
  refine newHeight_congr ?_
  rw [parts_mapParts, List.map_map]
  exact List.map_congr_left fun x _ => h x

variable (f : Expr → Nat)

theorem bareAll_eq (es : List Expr) : bareAll f es = es.map (bareWith f) := by
  induction es with
  | nil => rfl
  | cons e es ih => rw [bareAll, ih, List.map_cons]

theorem bareEntries_eq (es : List (Expr × Expr)) :
    bareEntries f es = es.map fun e => (e.1.bareWith f, e.2.bareWith f) := by
  induction es with
  | nil => rfl
  | cons e es ih => rw [bareEntries, ih, List.map_cons]

theorem bareOpt_eq (e : Option Expr) : bareOpt f e = e.map (bareWith f) := by
  cases e <;> rfl

/-- The parts come first, and then the node is given its height. -/
theorem bareWith_eq (e : Expr) : e.bareWith f = unplaced f (e.mapParts (bareWith f)) := by
  cases e <;> simp only [bareWith, mapParts, bareAll_eq, bareEntries_eq, bareOpt_eq]

end Parts

@[simp]
theorem height_bare (e : Expr) : e.bare.height = e.height := by
  cases e <;> rfl

@[simp]
theorem span_bare (e : Expr) : e.bare.span = default := by
  cases e <;> rfl

theorem parts_bare (e : Expr) : e.bare.parts = e.parts.map bare := by
  rw [bare, bareWith_eq, unplaced, parts_withMark, parts_mapParts]
  rfl

theorem newHeight_bare (e : Expr) : e.bare.newHeight = e.newHeight := by
  rw [bare, bareWith_eq, unplaced, newHeight_withMark]
  exact newHeight_mapParts height_bare e

/-- The bare form of a node that is made is made from the bare parts. -/
theorem bare_new (e : Expr) (span : Span) : (e.new span).bare = (e.mapParts bare).fresh := by
  have hmark (m : Mark) : unplaced height ((e.withMark m).mapParts bare)
      = (e.mapParts bare).withMark ⟨default, m.height⟩ := by
    cases e <;> rfl
  calc (e.new span).bare = unplaced height ((e.new span).mapParts bare) := bareWith_eq height _
    _ = (e.mapParts bare).withMark ⟨default, e.newHeight⟩ := hmark ⟨span, e.newHeight⟩
    _ = (e.mapParts bare).fresh := by rw [fresh, new, newHeight_mapParts height_bare]

theorem fresh_bare (e : Expr) : e.bare.fresh = (e.mapParts bare).fresh := by
  have hmark (e : Expr) (m : Mark) : (e.withMark m).fresh = e.fresh := by
    cases e <;> rfl
  rw [bare, bareWith_eq]
  exact hmark _ _

/-- A tree is rebuilt from its parts. -/
theorem rebuilt_eq_fresh (e : Expr) : e.rebuilt = (e.mapParts rebuilt).fresh :=
  bareWith_eq newHeight e

theorem height_rebuilt_le {e : Expr} {n : Nat} (h : ∀ x ∈ e.parts, x.rebuilt.height ≤ n) :
    e.rebuilt.height ≤ n + 1 := by
  rw [rebuilt_eq_fresh, fresh, height_new]
  refine newHeight_le ?_
  rw [parts_mapParts]
  exact List.forall_mem_map.mpr h

section Measured

variable {e : Expr}

theorem measured_fresh (h : ∀ x ∈ e.parts, x.Measured) : e.fresh.Measured :=
  measured_new h default

/-- Where the bare tree is measured, so is the tree. -/
theorem Measured.of_bare (h : e.bare.Measured) : e.Measured := by
  generalize hb : e.bare = b at h
  induction h generalizing e with
  | node hheight _ ih =>
    subst hb
    rw [height_bare, newHeight_bare] at hheight
    refine .node hheight fun x hx => ih x.bare ?_ rfl
    rw [parts_bare]
    exact List.mem_map_of_mem hx

/-- The bare form of a measured node is as it is made from its parts. -/
theorem Measured.bare_eq_fresh (h : e.Measured) : e.bare = (e.mapParts bare).fresh := by
  have hheight : (e.mapParts bare).height = (e.mapParts bare).newHeight := by
    rw [newHeight_mapParts height_bare, height, mark_mapParts]
    exact h.height_eq
  rw [fresh, new, ← hheight]
  exact bareWith_eq height e

/-- Where the heights are right, a tree that is made anew keeps them. -/
theorem Measured.rebuilt_eq (h : e.Measured) : e.rebuilt = e.bare := by
  induction h with
  | @node e hheight hparts ih =>
    have hmeasured : e.Measured := .node hheight hparts
    rw [rebuilt_eq_fresh, mapParts_congr ih, ← hmeasured.bare_eq_fresh]

end Measured

end Expr

def Target.bare : Target → Target
  | name x => name ⟨x.name, default⟩
  | item object index => item object.bare index.bare

/-- The expression that is written where the target is. -/
def Target.expr : Target → Expr
  | name x => .new (.name x.name default) x.span
  | item object i => .fresh (.index object i default)

mutual

def Stmt.bare : Stmt → Stmt
  | .assign target op value _ => .assign target.bare op value.bare default
  | .ifElse branches otherwise _ => .ifElse (bareBranches branches) (bareElse otherwise) default
  | .forRange var start stop step body _ =>
    .forRange ⟨var.name, default⟩ (start.map Expr.bare) stop.bare (step.map Expr.bare) body.bare
      default
  | .forEach var items body _ => .forEach ⟨var.name, default⟩ items.bare body.bare default
  | .define name params body _ =>
    .define ⟨name.name, default⟩ (params.map fun p => ⟨p.name, default⟩) body.bare default
  | .ret value _ => .ret (value.map Expr.bare) default
  | .brk _ => .brk default
  | .cont _ => .cont default
  | .pass _ => .pass default
  | .expr e _ => .expr e.bare default

def Block.bare : Block → Block
  | .mk body _ => .mk (bareStmts body) default

def bareStmts : List Stmt → List Stmt
  | [] => []
  | s :: ss => s.bare :: bareStmts ss

def bareBranches : List (Expr × Block) → List (Expr × Block)
  | [] => []
  | (condition, body) :: rest => (condition.bare, body.bare) :: bareBranches rest

def bareElse : Option Block → Option Block
  | none => none
  | some b => some b.bare

end

theorem bareStmts_eq (ss : List Stmt) : bareStmts ss = ss.map Stmt.bare := by
  induction ss with
  | nil => rfl
  | cons s ss ih => rw [bareStmts, ih, List.map_cons]

def Program.bare (p : Program) : Program := ⟨p.stmts.map Stmt.bare, default⟩

end MissionScript
