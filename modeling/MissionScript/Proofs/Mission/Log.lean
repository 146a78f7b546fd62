import MissionScript.Mission.Recorder
import Mathlib.Order.Nat

/-!
# The log of a rover

The frames that a rover can leave on a level, one after another: it goes to a free cell next to it
and collects what is there, or it stays and speaks. Each frame of a log comes next after the frames
before it (`Log.next`), and a crystal is collected in the end if the rover has been on its cell
(`Log.objects`).
-/

namespace MissionScript

namespace Snapshot

/-- The world after some frames, with `initial` before the first. -/
def after (initial : Snapshot) (frames : List Frame) : Snapshot :=
  (frames.getLast?.map Frame.snapshot).getD initial

/-- The cells that the rover has been on, with the one in `initial` as the first. -/
def path (initial : Snapshot) (frames : List Frame) : List Position :=
  initial.pos :: frames.map (·.snapshot.pos)

variable (initial : Snapshot) (frames : List Frame) (f : Frame)

@[simp]
theorem after_concat : initial.after (frames ++ [f]) = f.snapshot := by
  simp [after]

@[simp]
theorem path_concat : initial.path (frames ++ [f]) = initial.path frames ++ [f.snapshot.pos] := by
  simp [path]

end Snapshot

namespace WorldObject

/-- The object once the rover has been on the given cells. -/
def visited (cells : List Position) (o : WorldObject) : WorldObject :=
  if o.isCrystal ∧ o.pos ∈ cells then { o with state := .collected } else o

variable (cells : List Position) (o : WorldObject)

@[simp]
theorem visited_id : (o.visited cells).id = o.id := by
  unfold visited
  split <;> rfl

@[simp]
theorem visited_kind : (o.visited cells).kind = o.kind := by
  unfold visited
  split <;> rfl

@[simp]
theorem visited_pos : (o.visited cells).pos = o.pos := by
  unfold visited
  split <;> rfl

theorem visited_state (h : o.state = .idle) :
    (o.visited cells).state = .collected ↔ o.isCrystal ∧ o.pos ∈ cells := by
  unfold visited
  split <;> simp_all

/-- It does not matter in which order or how often the cells were come to. -/
theorem visited_congr {cells cells' : List Position} (h : ∀ q, q ∈ cells ↔ q ∈ cells') :
    o.visited cells = o.visited cells' := by
  simp only [visited, h]

theorem collectedAt_eq_visited (p : Position) : o.collectedAt p = o.visited [p] := by
  simp [collectedAt, visited]

@[simp]
theorem visited_isCrystal : (o.visited cells).isCrystal = o.isCrystal := by
  simp [isCrystal]

theorem collectedAt_visited (p : Position) :
    (o.visited cells).collectedAt p = o.visited (cells ++ [p]) := by
  unfold collectedAt
  rw [visited_isCrystal, visited_pos]
  unfold visited
  by_cases hq : o.pos = p
  · subst hq
    by_cases hc : o.isCrystal = true <;> by_cases hp : o.pos ∈ cells <;> simp [hc, hp]
  · by_cases hc : o.isCrystal = true <;> simp [hc, hq]

end WorldObject

namespace Level

/-- The things on a level before anything is collected: its crystals and then its rocks. -/
def things (l : Level) : List WorldObject :=
  objectsAt .crystal "crystal" l.targets ++ objectsAt .rock "rock" l.obstacles

theorem mem_objectsAt {kind : ObjectKind} {label : String} {cells : List Position}
    {o : WorldObject} (h : o ∈ objectsAt kind label cells) :
    o.kind = kind ∧ o.state = .idle ∧ o.pos ∈ cells := by
  obtain ⟨i, hi, rfl⟩ := List.mem_mapIdx.mp h
  exact ⟨rfl, rfl, List.getElem_mem hi⟩

theorem things_idle {l : Level} {o : WorldObject} (h : o ∈ l.things) : o.state = .idle := by
  rcases List.mem_append.mp h with h | h
  · exact (mem_objectsAt h).2.1
  · exact (mem_objectsAt h).2.1

/-- The cells of the crystals are the targets. -/
theorem mem_targets_iff {l : Level} {q : Position} :
    q ∈ l.targets ↔ ∃ o ∈ l.things, o.isCrystal ∧ o.pos = q := by
  constructor
  · intro hq
    obtain ⟨i, hi, rfl⟩ := List.getElem_of_mem hq
    exact ⟨_, List.mem_append_left _ (List.mem_mapIdx.mpr ⟨i, hi, rfl⟩), rfl, rfl⟩
  · rintro ⟨o, ho, hc, rfl⟩
    simp only [WorldObject.isCrystal, decide_eq_true_eq] at hc
    rcases List.mem_append.mp ho with ho | ho
    · exact (mem_objectsAt ho).2.2
    · rw [(mem_objectsAt ho).1] at hc
      cases hc

/-- The cell is on the grid and has no rock on it. -/
def IsFree (l : Level) (p : Position) : Prop := l.grid.contains p ∧ p ∉ l.obstacles

/-- What stands in the way of a rover that goes from `p` in direction `d`. -/
inductive Blocks (l : Level) (p : Position) (d : Direction) : Obstruction → Prop
  | outOfBounds (h : ∀ q, p.step? d = some q → ¬ l.grid.contains q) : Blocks l p d .outOfBounds
  | rock {q : Position} (hq : p.step? d = some q) (hg : l.grid.contains q)
      (hr : q ∈ l.obstacles) : Blocks l p d .rock

/-- What stands in the way is determined by the cell ahead. -/
theorem Blocks.unique {l : Level} {p : Position} {d : Direction} {o o' : Obstruction}
    (h : l.Blocks p d o) (h' : l.Blocks p d o') : o = o' := by
  cases h with
  | outOfBounds h =>
    cases h' with
    | outOfBounds => rfl
    | rock hq hg => exact absurd hg (h _ hq)
  | rock hq hg =>
    cases h' with
    | outOfBounds h' => exact absurd hg (h' _ hq)
    | rock => rfl

theorem blocks_outOfBounds_iff {l : Level} {p : Position} {d : Direction} :
    l.Blocks p d .outOfBounds
      ↔ p.step? d = none ∨ ∃ q, p.step? d = some q ∧ ¬ l.grid.contains q := by
  rcases hq : p.step? d with _ | q
  · exact iff_of_true (.outOfBounds fun q hq' => by simp [hq] at hq') (.inl rfl)
  · constructor
    · rintro ⟨h⟩
      exact .inr ⟨q, rfl, h q hq⟩
    · rintro (h | ⟨q', h, hg⟩)
      · cases h
      · rw [← hq] at h
        refine .outOfBounds fun q'' hq'' => ?_
        rw [h] at hq''
        cases hq''
        exact hg

theorem blocks_rock_iff {l : Level} {p : Position} {d : Direction} :
    l.Blocks p d .rock ↔ ∃ q, p.step? d = some q ∧ l.grid.contains q ∧ q ∈ l.obstacles := by
  constructor
  · rintro (_ | ⟨hq, hg, hr⟩)
    exact ⟨_, hq, hg, hr⟩
  · rintro ⟨q, hq, hg, hr⟩
    exact .rock hq hg hr

/-- The goals are met: the rover has been on every target and has said what is wanted, if anything
is. -/
def Solved (l : Level) (path : List Position) (output : String) : Prop :=
  (∀ q ∈ l.targets, q ∈ path) ∧ ∀ wanted, l.requiredOutput = some wanted → output = wanted

/-- The world in which a rover starts. -/
def opening (l : Level) : Snapshot := (World.ofLevel l).snapshot

end Level

theorem World.collectedCount_lt_iff (w : World) :
    w.collectedCount < w.crystalCount ↔ ¬ ∀ o ∈ w.objects, o.isCrystal → o.isCollected := by
  have hcollected : w.collectedCount = (w.objects.filter (·.isCrystal)).countP (·.isCollected) := by
    rw [List.countP_filter]
    exact List.countP_congr fun o _ => by simp [and_comm]
  have hcrystals : w.crystalCount = (w.objects.filter (·.isCrystal)).length :=
    List.countP_eq_length_filter
  have hle := (w.objects.filter (·.isCrystal)).countP_le_length (p := (·.isCollected))
  have heq := (w.objects.filter (·.isCrystal)).countP_eq_length (p := (·.isCollected))
  simp only [List.mem_filter, and_imp] at heq
  rw [← heq]
  omega

/-- The frames that can come as the one numbered `n` after the world `w`. -/
inductive Next (level : Level) (n : Nat) (w : Snapshot) : Frame → Prop
  | move {d : Direction} {p : Position} (line : Nat) (hp : w.pos.step? d = some p)
      (hfree : level.IsFree p) :
      Next level n w ⟨n, ⟨p, d, w.objects.map (·.collectedAt p)⟩, none, some line, none⟩
  | speak (text : String) (line : Nat) : Next level n w ⟨n, w, some text, some line, none⟩

theorem Next.step_eq {level : Level} {n : Nat} {w : Snapshot} {f : Frame}
    (h : Next level n w f) : f.step = n := by
  cases h <;> rfl

theorem Next.error_eq {level : Level} {n : Nat} {w : Snapshot} {f : Frame}
    (h : Next level n w f) : f.error = none := by
  cases h <;> rfl

/-- Without a line the rover has gone to the cell ahead, which is free. -/
theorem Next.moved {level : Level} {n : Nat} {w : Snapshot} {f : Frame} (h : Next level n w f)
    (hlog : f.log = none) :
    w.pos.step? f.snapshot.dir = some f.snapshot.pos ∧ level.IsFree f.snapshot.pos := by
  cases h with
  | move line hp hfree => exact ⟨hp, hfree⟩
  | speak text line => cases hlog

/-- With a line nothing has changed. -/
theorem Next.stayed {level : Level} {n : Nat} {w : Snapshot} {f : Frame} (h : Next level n w f)
    (hlog : f.log ≠ none) : f.snapshot = w := by
  cases h with
  | move line hp hfree => exact absurd rfl hlog
  | speak text line => rfl

/-- The frames that a rover can leave on a level, with the world after them. -/
inductive Log (level : Level) : List Frame → Snapshot → Prop
  | start : Log level [] level.opening
  | next {frames : List Frame} {w : Snapshot} {f : Frame} (h : Log level frames w)
      (hf : Next level frames.length w f) : Log level (frames ++ [f]) f.snapshot

namespace Log

variable {level : Level} {frames : List Frame} {w : Snapshot}

theorem eq_after (h : Log level frames w) : w = level.opening.after frames := by
  cases h with
  | start => rfl
  | next h hf => rw [Snapshot.after_concat]

/-- Each frame of a log comes next after the frames before it, and these are a log too. -/
theorem next_of_getElem? (h : Log level frames w) {i : Nat} {f : Frame} (hf : frames[i]? = some f) :
    Log level (frames.take i) (level.opening.after (frames.take i))
      ∧ Next level i (level.opening.after (frames.take i)) f := by
  induction h with
  | start => simp at hf
  | @next fs w g h hg ih =>
    rcases Nat.lt_trichotomy i fs.length with hi | rfl | hi
    · rw [List.getElem?_append_left hi] at hf
      rw [List.take_append_of_le_length hi.le]
      exact ih hf
    · simp only [List.getElem?_concat_length, Option.some.injEq] at hf
      subst hf
      rw [List.take_left', ← h.eq_after]
      · exact ⟨h, hg⟩
      · rfl
    · rw [List.getElem?_eq_none (by simp; omega)] at hf
      cases hf

/-- The first frames of a log are a log. -/
theorem take (h : Log level frames w) (n : Nat) :
    Log level (frames.take n) (level.opening.after (frames.take n)) := by
  rcases hf : frames[n]? with _ | f
  · rw [List.take_of_length_le (by simpa using hf), ← h.eq_after]
    exact h
  · exact (h.next_of_getElem? hf).1

/-- The rover is on the last cell of its path. -/
theorem pos_mem_path (h : Log level frames w) : w.pos ∈ level.opening.path frames := by
  cases h with
  | start => exact List.mem_cons_self
  | next h hf => simp

/-- Staying on a cell collects nothing more. -/
theorem visited_stay (h : Log level frames w) (o : WorldObject) :
    o.visited (level.opening.path frames ++ [w.pos]) = o.visited (level.opening.path frames) := by
  refine o.visited_congr fun q => ?_
  rw [List.mem_append, List.mem_singleton]
  exact or_iff_left_of_imp fun hq => hq ▸ h.pos_mem_path

/-- The rover only comes to free cells; the one it starts on may be any. -/
theorem path_free (h : Log level frames w) {q : Position} (hq : q ∈ level.opening.path frames) :
    q = level.start ∨ level.IsFree q := by
  induction h with
  | start => exact .inl (List.mem_singleton.mp hq)
  | @next fs w f h hf ih =>
    rw [Snapshot.path_concat, List.mem_append, List.mem_singleton] at hq
    rcases hq with hq | rfl
    · exact ih hq
    · cases hf with
      | move line hp hfree => exact .inr hfree
      | speak text line => exact ih h.pos_mem_path

/-- In the end the crystals on the path are collected, and nothing else has changed. -/
theorem objects (h : Log level frames w) :
    w.objects = level.things.map (·.visited (level.opening.path frames)) := by
  induction h with
  | start =>
    simp only [Level.opening, World.ofLevel, World.collect, World.snapshot, Snapshot.path,
      List.map_nil]
    exact List.map_congr_left fun o _ => o.collectedAt_eq_visited _
  | @next fs w f h hf ih =>
    rw [Snapshot.path_concat]
    cases hf with
    | move line hp hfree =>
      simp only [ih, List.map_map]
      exact List.map_congr_left fun o _ => o.collectedAt_visited _ _
    | speak text line =>
      rw [ih]
      exact List.map_congr_left fun o _ => (h.visited_stay o).symm

/-- All crystals are collected in the end if the rover has been on every target. -/
theorem all_collected_iff (h : Log level frames w) :
    (∀ o ∈ w.objects, o.isCrystal → o.isCollected)
      ↔ ∀ q ∈ level.targets, q ∈ level.opening.path frames := by
  have hvisited (o : WorldObject) (ho : o ∈ level.things) (hc : o.isCrystal) :
      (o.visited (level.opening.path frames)).isCollected
        ↔ o.pos ∈ level.opening.path frames := by
    simp [WorldObject.isCollected, WorldObject.visited_state _ _ (Level.things_idle ho), hc]
  rw [h.objects]
  constructor
  · intro hall q hq
    obtain ⟨o, ho, hc, rfl⟩ := Level.mem_targets_iff.mp hq
    exact (hvisited o ho hc).mp (hall _ (List.mem_map_of_mem ho) (by simpa using hc))
  · intro hall o' ho' hc'
    obtain ⟨o, ho, rfl⟩ := List.mem_map.mp ho'
    have hc : o.isCrystal := by simpa using hc'
    exact (hvisited o ho hc).mpr (hall _ (Level.mem_targets_iff.mpr ⟨o, ho, hc, rfl⟩))

end Log

end MissionScript
