import Mathlib.Order.Bounds.Defs
import Mathlib.Tactic.ByContra
import MissionScript.Script.Ast

/-!
# Heights that nodes keep

A node is given its height from those that its parts keep (`Expr.new`). If all nodes of a tree have
been made so (`Measured`), the height at the root is the length of the longest branch
(`Measured.isGreatest_height`), as long as it can be counted at all.
-/

namespace MissionScript.Expr

/-- The expressions that the outermost node holds. -/
def parts : Expr → List Expr
  | int _ _ | float _ _ | str _ _ | bool _ _ | none _ | name _ _ => []
  | list items _ => items
  | dict entries _ => entries.flatMap fun e => [e.1, e.2]
  | call _ args _ => args
  | method object _ args _ => object :: args
  | binary left _ right _ => [left, right]
  | unary _ operand _ => [operand]
  | index object i _ => [object, i]
  | slice object start stop _ => object :: (start.toList ++ stop.toList)

/-- From the outermost node `n` nodes can be gone through, each held by the one before. -/
inductive Branch : Expr → Nat → Prop
  | stop (e : Expr) : Branch e 1
  | down {e x : Expr} {n : Nat} (hx : x ∈ e.parts) (h : Branch x n) : Branch e (n + 1)

/-- The expression is the tree itself or stands somewhere in it. -/
inductive Node (e : Expr) : Expr → Prop
  | root : Node e e
  | part {x y : Expr} (h : Node e x) (hy : y ∈ x.parts) : Node e y

/-- Every node of the tree keeps the height that it is given from its parts. -/
inductive Measured : Expr → Prop
  | node {e : Expr} (hheight : e.height = e.newHeight) (hparts : ∀ x ∈ e.parts, Measured x) :
      Measured e

section Parts

variable {e x : Expr} {n : Nat}

@[simp]
theorem parts_withMark (e : Expr) (m : Mark) : (e.withMark m).parts = e.parts := by
  cases e <;> rfl

@[simp]
theorem parts_new (e : Expr) (span : Span) : (e.new span).parts = e.parts := parts_withMark _ _

theorem forall_parts_dict {P : Expr → Prop} {entries : List (Expr × Expr)} {mark : Mark} :
    (∀ x ∈ (dict entries mark).parts, P x) ↔ ∀ e ∈ entries, P e.1 ∧ P e.2 := by
  rw [parts, List.forall_mem_flatMap]
  simp

theorem forall_parts_slice {P : Expr → Prop} {object : Expr} {start stop : Option Expr}
    {mark : Mark} :
    (∀ x ∈ (slice object start stop mark).parts, P x) ↔
      P object ∧ (∀ x ∈ start, P x) ∧ ∀ x ∈ stop, P x := by
  simp only [parts, List.forall_mem_cons, List.forall_mem_append, Option.mem_toList,
    Option.mem_def]

theorem foldl_max_le {ns : List Nat} {low : Nat} :
    ns.foldl max low ≤ n ↔ low ≤ n ∧ ∀ m ∈ ns, m ≤ n := by
  induction ns generalizing low with
  | nil => simp
  | cons m ns ih => rw [List.foldl_cons, ih, Nat.max_le, List.forall_mem_cons, and_assoc]

theorem tallest_le {es : List Expr} : tallest es ≤ n ↔ ∀ e ∈ es, e.height ≤ n := by
  rw [tallest, foldl_max_le, List.forall_mem_map]
  exact and_iff_right (Nat.zero_le n)

/-- No part is forgotten when the height of a node is found. -/
theorem partsHeight_eq (e : Expr) : e.partsHeight = tallest e.parts := by
  cases e with
  | int | float | str | bool | none | name | list | dict | call | method | slice => rfl
  | binary | unary | index => simp [partsHeight, tallest, parts]

theorem partsHeight_le : e.partsHeight ≤ n ↔ ∀ x ∈ e.parts, x.height ≤ n := by
  rw [partsHeight_eq, tallest_le]

/-- One of the parts is as tall as all of them allow. -/
theorem exists_part_of_partsHeight (h : 0 < e.partsHeight) :
    ∃ x ∈ e.parts, x.height = e.partsHeight := by
  by_contra hnone
  have hlower : e.partsHeight ≤ e.partsHeight - 1 := partsHeight_le.mpr fun x hx => by
    have hle := partsHeight_le.mp (Nat.le_refl _) x hx
    have hne : x.height ≠ e.partsHeight := fun heq => hnone ⟨x, hx, heq⟩
    omega
  omega

theorem newHeight_congr {e' : Expr} (h : e.parts.map height = e'.parts.map height) :
    e.newHeight = e'.newHeight := by
  rw [newHeight, newHeight, partsHeight_eq, partsHeight_eq, tallest, tallest, h]

theorem newHeight_withMark (e : Expr) (m : Mark) : (e.withMark m).newHeight = e.newHeight :=
  newHeight_congr (by rw [parts_withMark])

theorem newHeight_pos (e : Expr) : 0 < e.newHeight := by
  unfold newHeight largestHeight
  omega

/-- A node that is made within a bound has its parts below the bound. -/
theorem height_lt_of_newHeight_le (h : e.newHeight ≤ n) (hn : n < largestHeight)
    (hx : x ∈ e.parts) : x.height < n := by
  have hpart : x.height ≤ e.partsHeight := partsHeight_le.mp (Nat.le_refl _) x hx
  unfold newHeight at h
  omega

theorem newHeight_le (h : ∀ x ∈ e.parts, x.height ≤ n) : e.newHeight ≤ n + 1 :=
  Nat.le_trans (Nat.min_le_left _ _) (Nat.succ_le_succ (partsHeight_le.mpr h))

end Parts

section Measured

variable {e x : Expr} {n : Nat}

theorem measured_new (h : ∀ x ∈ e.parts, x.Measured) (span : Span) : (e.new span).Measured := by
  refine .node ?_ (by rwa [parts_new])
  rw [height_new, new, newHeight_withMark]

theorem Measured.height_eq (h : e.Measured) : e.height = e.newHeight := by
  cases h with | node hheight _ => exact hheight

theorem Measured.part (h : e.Measured) (hx : x ∈ e.parts) : x.Measured := by
  cases h with | node _ hparts => exact hparts x hx

theorem Measured.height_lt (h : e.Measured) (hlt : e.height < largestHeight)
    (hx : x ∈ e.parts) : x.height < e.height := by
  rw [h.height_eq] at hlt ⊢
  exact height_lt_of_newHeight_le (Nat.le_refl _) hlt hx

theorem Measured.branch_le (h : e.Measured) (hlt : e.height < largestHeight)
    (hbranch : e.Branch n) : n ≤ e.height := by
  induction hbranch with
  | stop e => exact h.height_eq ▸ e.newHeight_pos
  | down hx _ ih =>
    have hpart := h.height_lt hlt hx
    exact Nat.lt_of_le_of_lt (ih (h.part hx) (by omega)) hpart

/-- The branch goes down to a part that is as tall as the height allows. -/
theorem Measured.branch_height (h : e.Measured) (hlt : e.height < largestHeight) :
    e.Branch e.height := by
  induction h with
  | @node e hheight hparts ih =>
    have hnew : e.height = e.partsHeight + 1 := by
      rw [hheight, newHeight] at hlt ⊢
      omega
    rw [hnew]
    rcases Nat.eq_zero_or_pos e.partsHeight with hzero | hpos
    · rw [hzero]
      exact .stop e
    · obtain ⟨x, hx, heq⟩ := exists_part_of_partsHeight hpos
      rw [← heq]
      exact .down hx (ih x hx (by omega))

/-- The height is the length of the longest branch. -/
theorem Measured.isGreatest_height (h : e.Measured) (hlt : e.height < largestHeight) :
    IsGreatest {n | e.Branch n} e.height :=
  ⟨h.branch_height hlt, fun _ hbranch => h.branch_le hlt hbranch⟩

end Measured

end MissionScript.Expr
