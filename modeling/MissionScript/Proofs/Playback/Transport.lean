import MissionScript.Playback.Cursor

/-!
# Where a playback can get to

Whatever is done with a playback, one thing after the other, its cursor stays on the trace; while it
plays there is a frame ahead, unless the trace has one frame only; and while it does not play, no
time is kept (`Playback.performed_sound`). The one thing that cannot be done is to let pass a time
that is too long to be kept.
-/

namespace MissionScript.Playback

/-- What can be done with a playback. -/
inductive Operation where
  | play
  | pause
  | toggle
  | stepForward
  | stepBackward
  | seek (index : Nat)
  | reset
  | setSpeed (speedMs : Nat)
  | tick
  | advance (elapsed : Nat)
deriving DecidableEq

/-- The playback after the operation, if it can be performed. -/
def perform? (p : Playback) : Operation → Option Playback
  | .play => some p.play
  | .pause => some p.pause
  | .toggle => some p.toggle
  | .stepForward => some p.stepForward
  | .stepBackward => some p.stepBackward
  | .seek index => some (p.seek index)
  | .reset => some p.reset
  | .setSpeed speedMs => some (p.setSpeed speedMs)
  | .tick => some p.tick.2
  | .advance elapsed => (p.advance? elapsed).map (·.2)

/-- The playback after the operations, one after the other, if all of them can be performed. -/
def performAll? (p : Playback) (ops : List Operation) : Option Playback := ops.foldlM perform? p

/-- The cursor is on the trace `t`, at most at its last frame, and the interval is at least a
millisecond. While the playback plays there are frames, and it has not come to the last one unless
that is the only one; while it does not play, it keeps no time. -/
structure Sound (t : Trace) (p : Playback) : Prop where
  trace : p.trace = t
  index : p.index ≤ p.lastIndex
  speed : 1 ≤ p.speedMs
  playing : p.isPlaying = true → 0 < p.length ∧ (p.length = 1 ∨ p.index < p.lastIndex)
  resting : p.isPlaying = false → p.pending = 0

variable {t : Trace} {p p' : Playback}

theorem isAtEnd_iff (p : Playback) : p.isAtEnd = true ↔ p.lastIndex ≤ p.index := decide_eq_true_iff

theorem sound_start (t : Trace) (speedMs : Nat) : Sound t (start t speedMs) where
  trace := rfl
  index := Nat.zero_le _
  speed := Nat.le_max_right _ _
  playing := nofun
  resting _ := rfl

namespace Sound

/-- Stopped at any frame of the trace, it is sound. -/
theorem stopAt (h : Sound t p) {i : Nat} (hi : i ≤ p.lastIndex) :
    Sound t { p.pause with index := i } where
  trace := h.trace
  index := hi
  speed := h.speed
  playing := nofun
  resting _ := rfl

theorem play (h : Sound t p) : Sound t p.play := by
  unfold Playback.play
  split
  · exact h
  rename_i hsome
  have hlast : p.lastIndex = p.length - 1 := rfl
  refine ⟨h.trace, ?_, h.speed, fun _ => ⟨Nat.pos_of_ne_zero hsome, ?_⟩, nofun⟩
  · change (if p.isAtEnd then 0 else p.index) ≤ p.lastIndex
    split
    · exact Nat.zero_le _
    · exact h.index
  · change p.length = 1 ∨ (if p.isAtEnd then 0 else p.index) < p.lastIndex
    split
    · omega
    · rename_i hahead
      rw [isAtEnd_iff, Nat.not_le] at hahead
      exact .inr hahead

theorem toggle (h : Sound t p) : Sound t p.toggle := by
  unfold Playback.toggle
  split
  · exact h.stopAt h.index
  · exact h.play

/-- While it plays, it may keep any time. -/
theorem keep (h : Sound t p) (hplays : p.isPlaying = true) (pending : Nat) :
    Sound t { p with pending := pending } where
  trace := h.trace
  index := h.index
  speed := h.speed
  playing := h.playing
  resting hrests := absurd (hplays.symm.trans hrests) nofun

theorem moveOn (h : Sound t p) (n : Nat) : Sound t (p.moveOn n).2 := by
  unfold Playback.moveOn
  split
  · rename_i hplays
    have hroom : p.index + min n p.room ≤ p.lastIndex := by
      have hindex := h.index
      unfold room
      omega
    dsimp only
    split
    · exact h.stopAt hroom
    · rename_i hend
      rw [isAtEnd_iff, Nat.not_le] at hend
      exact ⟨h.trace, hroom, h.speed, fun _ => ⟨(h.playing hplays).1, .inr hend⟩,
        fun hrests => absurd (hplays.symm.trans hrests) nofun⟩
  · exact h

theorem advance (h : Sound t p) {elapsed n : Nat} (hp : p.advance? elapsed = some (n, p')) :
    Sound t p' := by
  unfold advance? at hp
  split at hp
  · rename_i hplays
    dsimp only at hp
    split at hp
    · obtain rfl : _ = p' := congrArg Prod.snd (Option.some.inj hp)
      exact (h.keep hplays _).moveOn _
    · cases hp
  · cases hp
    exact h

/-- Every operation keeps it sound. -/
theorem perform (h : Sound t p) (op : Operation) (hp : p.perform? op = some p') : Sound t p' := by
  cases op with
  | play => cases hp; exact h.play
  | pause => cases hp; exact h.stopAt h.index
  | toggle => cases hp; exact h.toggle
  | stepForward | seek => cases hp; exact h.stopAt (Nat.min_le_right _ _)
  | stepBackward => cases hp; exact h.stopAt (Nat.le_trans (Nat.sub_le _ _) h.index)
  | reset => cases hp; exact h.stopAt (Nat.zero_le _)
  | setSpeed speedMs => cases hp; exact { h with speed := Nat.le_max_right _ _ }
  | tick => cases hp; exact h.moveOn 1
  | advance elapsed =>
    obtain ⟨⟨n, p''⟩, hp', rfl⟩ := Option.map_eq_some_iff.mp hp
    exact h.advance hp'

theorem performAll (h : Sound t p) (ops : List Operation) (hp : p.performAll? ops = some p') :
    Sound t p' := by
  induction ops generalizing p with
  | nil => cases hp; exact h
  | cons op ops ih =>
    unfold performAll? at hp ih
    rw [List.foldlM_cons] at hp
    obtain ⟨p'', hop, hrest⟩ := Option.bind_eq_some_iff.mp hp
    exact ih (h.perform op hop) hrest

theorem currentFrame?_eq_none_iff (h : Sound t p) : p.currentFrame? = none ↔ t.frames = [] := by
  have hindex := h.index
  unfold lastIndex length at hindex
  unfold currentFrame?
  rw [h.trace] at hindex ⊢
  rw [List.getElem?_eq_none_iff, List.eq_nil_iff_length_eq_zero]
  omega

end Sound

/-- Only a time that is too long to be kept cannot pass. -/
theorem perform?_eq_none_iff (p : Playback) (op : Operation) :
    p.perform? op = none ↔
      ∃ elapsed, op = .advance elapsed ∧ p.isPlaying = true ∧
        longestTime < p.pending + elapsed := by
  cases op with
  | advance elapsed =>
    rw [perform?, Option.map_eq_none_iff, advance?]
    by_cases hplays : p.isPlaying = true
    · by_cases htime : p.pending + elapsed ≤ longestTime
      · simp [hplays, htime]
      · simpa [hplays, htime] using Nat.not_le.mp htime
    · simp [hplays]
  | _ => simp [perform?]

/-- Whatever has been done with a playback of a trace, it is sound, and there is a frame at the
cursor unless there is none at all. Then anything else can be done with it, but to let pass a time
that is too long to be kept. -/
theorem performed_sound (t : Trace) (speedMs : Nat) (ops : List Operation)
    (h : (start t speedMs).performAll? ops = some p) :
    Sound t p ∧ (p.currentFrame? = none ↔ t.frames = [])
      ∧ ∀ op, p.perform? op = none ↔
          ∃ elapsed, op = .advance elapsed ∧ p.isPlaying = true ∧
            longestTime < p.pending + elapsed :=
  have hsound := (sound_start t speedMs).performAll ops h
  ⟨hsound, hsound.currentFrame?_eq_none_iff, p.perform?_eq_none_iff⟩

/-- A trace of three frames is played; after a change of speed it comes to its last frame. -/
theorem performed_sound_end :
    let t : Trace := ⟨default, List.replicate 3 default, "", default⟩
    let p : Playback := ⟨t, 2, false, 2, 0⟩
    (start t 0).performAll? [.play, .advance 1500000, .setSpeed 2, .advance 1500000] = some p
      ∧ Sound t p ∧ (p.currentFrame? = none ↔ t.frames = [])
      ∧ ∀ op, p.perform? op = none ↔
          ∃ elapsed, op = .advance elapsed ∧ p.isPlaying = true ∧
            longestTime < p.pending + elapsed := by
  intro t p
  have hp : (start t 0).performAll? [.play, .advance 1500000, .setSpeed 2, .advance 1500000]
      = some p := by decide +kernel
  exact ⟨hp, performed_sound t 0 _ hp⟩

end MissionScript.Playback
