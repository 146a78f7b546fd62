import MissionScript.Proofs.Run.Mirror
import Mathlib.Tactic.IntervalCases
import Mathlib.Tactic.Ring

/-!
# Moves of several steps

A move of `n` steps is a loop that stops at the first step that fails. It goes as far as the count,
the steps that are left and the legal cells ahead allow, whichever is least, and what it leaves
behind can be told at once (`Session.onward`): the rover stands that many cells further on, and
there is a frame for each of them. If the count is not reached, the budget is looked at before the
cell ahead, so of two things that would stop the rover at the same cell it is the budget
(`Session.invoke_move_eq`).
-/

namespace MissionScript

/-- The cell `i` cells further on. -/
def Position.onward (p : Position) (d : Direction) (i : Nat) : Position :=
  ⟨p.x + i * d.delta.1, p.y + i * d.delta.2⟩

namespace World

/-- The rover can go to a cell whose coordinates exist, on the grid and without a rock. -/
structure Legal (w : World) (p : Position) : Prop where
  column : isCoordinate p.x = true
  row : isCoordinate p.y = true
  inside : w.grid.contains p = true
  free : p ∉ w.obstacles

/-- There are exactly `k` legal cells in a row ahead of the rover. -/
structure ClearFor (w : World) (d : Direction) (k : Nat) : Prop where
  legal {i : Nat} : i < k → w.Legal (w.pos.onward d (i + 1))
  blocked : ¬w.Legal (w.pos.onward d (k + 1))

/-- What keeps the rover from a cell that is not legal. -/
def barrier (w : World) (p : Position) : Obstruction :=
  if isCoordinate p.x && isCoordinate p.y && w.grid.contains p then .rock else .outOfBounds

/-- The next `m` cells ahead of the rover, the nearest first. -/
def cellsAhead (w : World) (d : Direction) (m : Nat) : List Position :=
  (List.range m).map fun i => w.pos.onward d (i + 1)

/-- The world with the rover `m` cells further on, and the crystals on its way collected. -/
def onward (w : World) (d : Direction) (m : Nat) : World :=
  { w with
    pos := w.pos.onward d m
    dir := if m = 0 then w.dir else d
    objects := w.objects.map (·.visited (w.cellsAhead d m)) }

end World

namespace Session

/-- The frame for the cell `i + 1` cells ahead: the world as it is when the rover gets there. -/
def frameAhead (s : Session) (d : Direction) (i : Nat) : Frame :=
  ⟨s.recorder.frames.size + i, (s.world.onward d (i + 1)).snapshot, none, some s.line, none⟩

/-- The session with the rover `m` cells further on: as many steps are taken, and there is a frame
for each cell. -/
def onward (s : Session) (d : Direction) (m : Nat) : Session :=
  { s with
    world := s.world.onward d m
    recorder :=
      { s.recorder with
        frames := s.recorder.frames ++ ((List.range m).map (s.frameAhead d)).toArray }
    steps := { s.steps with taken := s.steps.taken + m } }

end Session

section Geometry

variable (p : Position) (d : Direction) (w : World)

theorem Position.onward_zero : p.onward d 0 = p := by
  simp [onward]

theorem Position.onward_onward (i j : Nat) : (p.onward d i).onward d j = p.onward d (j + i) := by
  simp only [onward, Position.mk.injEq]
  push_cast
  constructor <;> ring

theorem WorldObject.visited_visited (o : WorldObject) (cells cells' : List Position) :
    (o.visited cells).visited cells' = o.visited (cells ++ cells') := by
  rw [visited, visited_isCrystal, visited_pos]
  unfold visited
  simp only [List.mem_append]
  grind

theorem World.cellsAhead_succ (m : Nat) :
    w.cellsAhead d (m + 1) = w.cellsAhead d 1 ++ (w.onward d 1).cellsAhead d m := by
  simp [cellsAhead, List.range_succ_eq_map, Function.comp_def, onward, Position.onward_onward]

theorem World.onward_zero : w.onward d 0 = w := by
  have hobjects : w.objects.map (·.visited []) = w.objects := by
    simp [WorldObject.visited]
  simp only [onward, cellsAhead, List.range_zero, List.map_nil, hobjects, Position.onward_zero,
    if_true]

theorem World.onward_succ (m : Nat) : w.onward d (m + 1) = (w.onward d 1).onward d m := by
  have hobjects : w.objects.map (·.visited (w.cellsAhead d (m + 1))) =
      (w.objects.map (·.visited (w.cellsAhead d 1))).map
        (·.visited ((w.onward d 1).cellsAhead d m)) := by
    rw [List.map_map, cellsAhead_succ]
    exact List.map_congr_left fun o _ => (o.visited_visited _ _).symm
  rw [onward, hobjects, ← Position.onward_onward]
  simp only [onward, Nat.add_one_ne_zero, one_ne_zero, if_false, ite_self]

theorem World.legal_onward {m : Nat} {q : Position} : (w.onward d m).Legal q ↔ w.Legal q :=
  ⟨fun h => ⟨h.column, h.row, h.inside, h.free⟩, fun h => ⟨h.column, h.row, h.inside, h.free⟩⟩

variable {w d}

theorem World.ClearFor.next {k : Nat} (h : w.ClearFor d (k + 1)) : (w.onward d 1).ClearFor d k where
  legal hi := by
    rw [legal_onward, onward, Position.onward_onward]
    exact h.legal (Nat.succ_lt_succ hi)
  blocked := by
    rw [legal_onward, onward, Position.onward_onward]
    exact h.blocked

theorem Session.ahead_of_legal (h : w.Legal (w.pos.onward d 1)) :
    ahead w d = .ok (w.pos.onward d 1) := by
  obtain ⟨hx, hy, hinside, hfree⟩ := h
  simp only [Position.onward, Nat.cast_one, one_mul] at *
  simp [ahead, Position.step?, hx, hy, World.obstruction?, hinside, hfree]

theorem Session.ahead_of_not_legal (h : ¬w.Legal (w.pos.onward d 1)) :
    ahead w d = .error (w.barrier (w.pos.onward d 1)) := by
  have hcells : w.pos.onward d 1 = ⟨w.pos.x + d.delta.1, w.pos.y + d.delta.2⟩ := by
    simp [Position.onward]
  rw [hcells] at h ⊢
  unfold ahead Position.step? World.barrier World.obstruction?
  by_cases hexists :
      (isCoordinate (w.pos.x + d.delta.1) && isCoordinate (w.pos.y + d.delta.2)) = true
  · simp only [hexists, if_true, Bool.true_and]
    by_cases hinside : w.grid.contains ⟨w.pos.x + d.delta.1, w.pos.y + d.delta.2⟩ = true
    · have hrock : ⟨w.pos.x + d.delta.1, w.pos.y + d.delta.2⟩ ∈ w.obstacles := by
        rw [Bool.and_eq_true] at hexists
        by_contra hfree
        exact h ⟨hexists.1, hexists.2, hinside, hfree⟩
      simp [hinside, hrock]
    · simp [hinside]
  · simp [hexists]

end Geometry

section Clear

variable (w : World) (d : Direction)

/-- The coordinates end somewhere, so no way goes on for ever. -/
theorem World.exists_not_legal : ∃ i, ¬w.Legal (w.pos.onward d (i + 1)) := by
  -- far enough for any place to start from
  refine ⟨w.pos.x.natAbs + w.pos.y.natAbs + 0x80000000, fun h => ?_⟩
  have hx := h.column
  have hy := h.row
  simp only [isCoordinate, Bool.and_eq_true, decide_eq_true_eq] at hx hy
  cases d <;> simp only [Position.onward, Direction.delta] at hx hy <;> omega

theorem World.exists_clearFor : ∃ k, w.ClearFor d k := by
  classical
  refine ⟨Nat.find (w.exists_not_legal d), fun {i} hi => ?_, Nat.find_spec (w.exists_not_legal d)⟩
  exact not_not.mp (Nat.find_min _ hi)

variable {w d}

theorem World.ClearFor.unique {j k : Nat} (hj : w.ClearFor d j) (hk : w.ClearFor d k) : j = k := by
  rcases Nat.lt_trichotomy j k with h | h | h
  · exact absurd (hk.legal h) hj.blocked
  · exact h
  · exact absurd (hj.legal h) hk.blocked

end Clear

namespace Session

variable {s : Session} {d : Direction}

theorem onward_zero (s : Session) (d : Direction) : s.onward d 0 = s := by
  simp [onward, World.onward_zero]

theorem frameAhead_succ (s : Session) (d : Direction) (i : Nat) :
    s.frameAhead d (i + 1) = (s.onward d 1).frameAhead d i := by
  simp only [frameAhead, onward, s.world.onward_succ d (i + 1)]
  simp [Nat.add_comm 1 i, Nat.add_assoc]

theorem onward_succ (s : Session) (d : Direction) (m : Nat) :
    s.onward d (m + 1) = (s.onward d 1).onward d m := by
  have hframes : (List.range (m + 1)).map (s.frameAhead d) =
      (List.range 1).map (s.frameAhead d) ++ (List.range m).map ((s.onward d 1).frameAhead d) := by
    simp [List.range_succ_eq_map, Function.comp_def, frameAhead_succ]
  rw [onward, hframes, World.onward_succ]
  simp [onward, Nat.add_comm 1 m, Nat.add_assoc]

/-- One step that succeeds. -/
theorem moved_eq_onward (hs : s.recorder.isSealed = false) :
    s.moved { s.steps with taken := s.steps.taken + 1 } d (s.world.pos.onward d 1) =
      s.onward d 1 := by
  have hworld : (s.world.place (s.world.pos.onward d 1) d).collect (s.world.pos.onward d 1) =
      s.world.onward d 1 := by
    simp only [World.collect, World.place, World.onward, World.cellsAhead,
      WorldObject.collectedAt_eq_visited]
    rfl
  simp only [moved, hworld, Recorder.record_of_unsealed hs]
  simp [onward, frameAhead, Recorder.next, hs]

/-- How far a loop of steps goes, and why it stops. -/
theorem times_moveOnce (hs : s.recorder.isSealed = false) {n k m : Nat}
    (hk : s.world.ClearFor d k) (hm : m = min n (min (s.steps.limit - s.steps.taken) k)) :
    times (moveOnce d) n s =
      if m = n then .ok () (s.onward d m)
      else if m = s.steps.limit - s.steps.taken then .error .budgetSpent (s.onward d m)
      else
        .error (.blocked (s.world.barrier (s.world.pos.onward d (m + 1))))
          ((s.onward d m).turned ⟨s.steps.taken + m + 1, s.steps.limit⟩ d) := by
  induction n generalizing s k m with
  | zero =>
    obtain rfl : m = 0 := by omega
    rw [if_pos rfl, onward_zero]
    rfl
  | succ n ih =>
    rw [times, bind_apply, moveOnce_eq]
    by_cases hleft : s.steps.taken < s.steps.limit
    swap
    · -- no step is left
      obtain rfl : m = 0 := by omega
      rw [StepBudget.consume?, if_neg hleft, if_neg (by omega), if_pos (by omega), onward_zero]
    rw [StepBudget.consume?, if_pos hleft]
    rcases k with _ | k
    · -- there is no way ahead
      obtain rfl : m = 0 := by omega
      dsimp only
      rw [ahead_of_not_legal hk.blocked, if_neg (by omega), if_neg (by omega), onward_zero]
    · have hlegal : s.world.Legal (s.world.pos.onward d 1) := hk.legal (Nat.succ_pos k)
      obtain ⟨m, rfl⟩ : ∃ m', m = m' + 1 := Nat.exists_eq_add_one.mpr (by omega)
      have hnext := ih (s := s.onward d 1) hs hk.next (m := m) (by simp only [onward]; omega)
      dsimp only
      rw [ahead_of_legal hlegal]
      dsimp only
      rw [moved_eq_onward hs, hnext, onward_succ s d m]
      have hpos : (s.onward d 1).world.pos.onward d (m + 1) = s.world.pos.onward d (m + 1 + 1) :=
        s.world.pos.onward_onward d 1 (m + 1)
      have hsteps : (s.onward d 1).steps.limit - (s.onward d 1).steps.taken =
          s.steps.limit - s.steps.taken - 1 := Nat.sub_add_eq _ _ _
      have htaken : (s.onward d 1).steps.taken + m + 1 = s.steps.taken + (m + 1) + 1 := by
        simp only [onward]
        omega
      rw [hpos, hsteps, htaken]
      have hfirst : m = n ↔ m + 1 = n + 1 := by omega
      have hsecond : m = s.steps.limit - s.steps.taken - 1 ↔
          m + 1 = s.steps.limit - s.steps.taken := by omega
      simp only [hfirst, hsecond]
      rfl

end Session

/-- With `k` legal cells in a row ahead of the rover, `r` steps left, and `m` the least of `n`, `r`
and `k`, a move of `n` steps leaves the rover `m` cells further on. If that is less than `n`, the
reason is the budget if all its steps are taken, and else the cell that comes next; for that one the
rover has taken another step and turned. -/
theorem Session.invoke_move_eq {s : Session} (hs : s.recorder.isSealed = false) (d : Direction)
    {n : Int64} (hn : 0 ≤ n.toInt) :
    ∃ k, (∀ j, s.world.ClearFor d j ↔ j = k) ∧
      let r := s.steps.limit - s.steps.taken
      let m := min n.toInt.toNat (min r k)
      (Command.move d).invoke [.int n] s =
        if m = n.toInt.toNat then .ok .none (s.onward d m)
        else if m = r then .error .budgetSpent (s.onward d m)
        else
          .error (.blocked (s.world.barrier (s.world.pos.onward d (m + 1))))
            ((s.onward d m).turned ⟨s.steps.taken + m + 1, s.steps.limit⟩ d) := by
  obtain ⟨k, hk⟩ := s.world.exists_clearFor d
  refine ⟨k, fun j => ⟨fun hj => hj.unique hk, fun hj => hj ▸ hk⟩, ?_⟩
  intro r m
  have hcount : Command.moveCount (Command.move d).name [.int n] = .ok n.toInt.toNat := if_pos hn
  have harity : (Command.move d).arity.check (Command.move d).name [Value.int n].length = .ok () :=
    rfl
  have hinvoke : (Command.move d).invoke [.int n] s =
      (times (moveOnce d) n.toInt.toNat >>= fun _ => pure .none) s := by
    rw [Command.invoke, harity]
    change (Command.move d).effect [.int n] s = _
    rw [Command.effect, hcount]
    rfl
  have hm : m = min n.toInt.toNat (min (s.steps.limit - s.steps.taken) k) := rfl
  rw [hinvoke, bind_apply, times_moveOnce hs hk hm]
  split_ifs <;> rfl

/-- Two legal cells, the second with a crystal, and a rock behind them. -/
def laneWithRock : Level :=
  { grid := ⟨1, 5⟩, start := ⟨0, 0⟩, startDirection := .up
    targets := [⟨2, 0⟩], obstacles := [⟨3, 0⟩]
    requiredOutput := none, maxMoves := none, initialCode := "", hints := [] }

theorem Session.invoke_move_eq_rock :
    let s := Session.start laneWithRock 10 100
    s.recorder.isSealed = false ∧ 0 ≤ (4 : Int64).toInt ∧
      (Command.move .right).invoke [.int 4] s =
        .error (.blocked .rock) ((s.onward .right 2).turned ⟨3, 10⟩ .right) := by
  intro s
  have hclear : s.world.ClearFor .right 2 := by
    refine ⟨fun {i} hi => ?_, fun h => absurd h.free (by decide)⟩
    interval_cases i <;> exact ⟨rfl, rfl, rfl, by decide⟩
  obtain ⟨k, hk, hmove⟩ := invoke_move_eq (s := s) rfl .right (n := 4) (by decide)
  obtain rfl : 2 = k := (hk 2).mp hclear
  have hm : min (4 : Int64).toInt.toNat (min (s.steps.limit - s.steps.taken) 2) = 2 := by decide
  have hrock : s.world.barrier (s.world.pos.onward .right (2 + 1)) = .rock := by decide
  refine ⟨rfl, by decide, hmove.trans ?_⟩
  rw [if_neg (by decide), if_neg (by decide), hm, hrock]
  rfl

end MissionScript
