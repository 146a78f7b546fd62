import Mathlib.Algebra.Group.Nat.Defs
import MissionScript.Proofs.Playback.Transport

/-!
# Time that passes

How far a playback gets depends on the time that has passed, not on the parts in which it passed: to
let two times pass one after the other is to let their sum pass, and so many whole intervals do what
as many ticks do (`Playback.advance_additive`). It is so because what is left over of an interval is
kept, and because a trace has no more frames than intervals can be taken out of a time at once.

Times are counted in a range of their own. Of the four steps of arithmetic that letting time pass
takes, three stay within it; the first one leaves it where the time to be kept is too long
(`Playback.advance_in_range`).
-/

namespace MissionScript.Playback

variable {t : Trace} {p : Playback} {a b n : Nat}

section Moving

/-- So many frames further on, with a time that is kept. -/
def ahead (p : Playback) (n kept : Nat) : Playback :=
  { p with index := p.index + n, pending := kept }

/-- Stopped at the last frame. -/
def finished (p : Playback) : Playback := { p.pause with index := p.lastIndex }

theorem ahead_ahead (p : Playback) (m n kept kept' : Nat) :
    (p.ahead m kept).ahead n kept' = p.ahead (m + n) kept' := by
  unfold ahead
  rw [Nat.add_assoc]

theorem finished_ahead (p : Playback) (n kept : Nat) : (p.ahead n kept).finished = p.finished := rfl

theorem pending_ahead (p : Playback) (n kept : Nat) : (p.ahead n kept).pending = kept := rfl

theorem interval_ahead (p : Playback) (n kept : Nat) : (p.ahead n kept).interval = p.interval := rfl

theorem room_eq (hindex : p.index ≤ p.lastIndex) : p.room = p.lastIndex - p.index := by
  rw [room, Nat.min_eq_left hindex]

theorem index_lt_of_lt_room (hn : n < p.room) : p.index + n < p.lastIndex := by
  unfold room at hn
  omega

theorem index_ahead_le (hn : n < p.room) (kept : Nat) :
    (p.ahead n kept).index ≤ (p.ahead n kept).lastIndex :=
  Nat.le_of_lt (index_lt_of_lt_room hn)

theorem room_ahead (hn : n < p.room) (kept : Nat) : p.room = n + (p.ahead n kept).room := by
  have hindex := index_lt_of_lt_room hn
  have hroom : (p.ahead n kept).room = p.lastIndex - (p.index + n) :=
    room_eq (index_ahead_le hn kept)
  rw [room_eq (by omega), hroom]
  omega

theorem moveOn_of_resting (hrests : p.isPlaying = false) (n : Nat) : p.moveOn n = (0, p) := by
  rw [moveOn, hrests, if_neg Bool.false_ne_true]

/-- Moved on by all the room there is or more, the playback is finished, whatever time it kept. -/
theorem moveOn_of_room_le (hplays : p.isPlaying = true) (hindex : p.index ≤ p.lastIndex)
    (hn : p.room ≤ n) (kept : Nat) :
    { p with pending := kept }.moveOn n = (p.room, p.finished) := by
  have hend : p.index + p.room = p.lastIndex := by
    have := room_eq hindex
    omega
  have hroom : { p with pending := kept }.room = p.room := rfl
  rw [moveOn, if_pos hplays]
  dsimp only
  rw [hroom, Nat.min_eq_right hn, if_pos ((isAtEnd_iff _).mpr (Nat.le_of_eq hend.symm)), hend]
  rfl

/-- Moved on by less, it plays on. -/
theorem moveOn_of_lt_room (hplays : p.isPlaying = true) (hn : n < p.room) (kept : Nat) :
    { p with pending := kept }.moveOn n = (n, p.ahead n kept) := by
  have hahead := Nat.not_le.mpr (index_lt_of_lt_room hn)
  have hroom : { p with pending := kept }.room = p.room := rfl
  rw [moveOn, if_pos hplays]
  dsimp only
  rw [hroom, Nat.min_eq_left (Nat.le_of_lt hn), if_neg (mt (isAtEnd_iff _).mp hahead)]
  rfl

/-- A move may be made in two parts. -/
theorem moveOn_add (hplays : p.isPlaying = true) (hindex : p.index ≤ p.lastIndex) (m n : Nat) :
    p.moveOn (m + n) =
      ((p.moveOn m).1 + ((p.moveOn m).2.moveOn n).1, ((p.moveOn m).2.moveOn n).2) := by
  by_cases hm : p.room ≤ m
  · have hfinished : p.finished.moveOn n = (0, p.finished) := moveOn_of_resting rfl n
    have hfirst : p.moveOn m = (p.room, p.finished) := moveOn_of_room_le hplays hindex hm _
    have hboth : p.moveOn (m + n) = (p.room, p.finished) :=
      moveOn_of_room_le hplays hindex (Nat.le_add_right_of_le hm) _
    rw [hfirst, hboth, hfinished]
    rfl
  rw [Nat.not_le] at hm
  have hroom := room_ahead hm p.pending
  have hfirst : p.moveOn m = (m, p.ahead m p.pending) := moveOn_of_lt_room hplays hm _
  rw [hfirst]
  generalize hp' : p.ahead m p.pending = p' at *
  have hplays' : p'.isPlaying = true := hp' ▸ hplays
  have hindex' : p'.index ≤ p'.lastIndex := hp' ▸ index_ahead_le hm p.pending
  by_cases hn : p'.room ≤ n
  · have hsecond : p'.moveOn n = (p'.room, p'.finished) :=
      moveOn_of_room_le hplays' hindex' hn _
    have hboth : p.moveOn (m + n) = (p.room, p.finished) :=
      moveOn_of_room_le hplays hindex (by omega) _
    rw [hsecond, hboth, hroom, ← hp', finished_ahead]
  · rw [Nat.not_le] at hn
    have hsecond : p'.moveOn n = (n, p'.ahead n p'.pending) := moveOn_of_lt_room hplays' hn _
    have hboth : p.moveOn (m + n) = (m + n, p.ahead (m + n) p.pending) :=
      moveOn_of_lt_room hplays (by omega) _
    rw [hsecond, hboth, ← hp', ahead_ahead]
    rfl

end Moving

section Ticking

/-- Ticks, one after the other: how many of them moved the cursor, and the playback afterwards. -/
def ticks (p : Playback) : Nat → Nat × Playback
  | 0 => (0, p)
  | k + 1 => ((p.ticks k).1 + (p.ticks k).2.tick.1.toNat, (p.ticks k).2.tick.2)

theorem tick_toNat (p : Playback) : p.tick.1.toNat = (p.moveOn 1).1 := by
  have hle : (p.moveOn 1).1 ≤ 1 := by
    unfold moveOn
    split
    · exact Nat.min_le_left _ _
    · exact Nat.zero_le _
  unfold tick
  rcases Nat.le_one_iff_eq_zero_or_eq_one.mp hle with h | h <;> rw [h] <;> rfl

/-- Ticks move the cursor as one move by their number does, as long as it is before the last frame
when they begin. -/
theorem ticks_eq_moveOn (hplays : p.isPlaying = true) (hindex : p.index < p.lastIndex) (k : Nat) :
    p.ticks k = p.moveOn k := by
  have hle := Nat.le_of_lt hindex
  induction k with
  | zero =>
    have hroom : 0 < p.room := by
      have := room_eq hle
      omega
    exact (moveOn_of_lt_room hplays hroom p.pending).symm
  | succ k ih =>
    rw [ticks, ih, tick_toNat, moveOn_add hplays hle]
    rfl

end Ticking

section Advancing

theorem advance?_of_resting (hrests : p.isPlaying = false) (elapsed : Nat) :
    p.advance? elapsed = some (0, p) := by
  rw [advance?, hrests, if_neg Bool.false_ne_true]

/-- A time in which the last frame is reached finishes the playback. -/
theorem advance?_of_room_le (hplays : p.isPlaying = true) (hindex : p.index ≤ p.lastIndex)
    (hfits : p.pending + a ≤ longestTime) (ha : p.room ≤ (p.pending + a) / p.interval) :
    p.advance? a = some (p.room, p.finished) := by
  rw [advance?, if_pos hplays]
  dsimp only
  rw [if_pos hfits, moveOn_of_room_le hplays hindex ha]

/-- A shorter time leaves the rest of an interval, since all whole ones are taken out. -/
theorem advance?_of_lt_room (hplays : p.isPlaying = true) (hroom : p.room ≤ mostIntervals)
    (hfits : p.pending + a ≤ longestTime) (ha : (p.pending + a) / p.interval < p.room) :
    p.advance? a = some ((p.pending + a) / p.interval,
      p.ahead ((p.pending + a) / p.interval) ((p.pending + a) % p.interval)) := by
  have hmost : min ((p.pending + a) / p.interval) mostIntervals = (p.pending + a) / p.interval :=
    Nat.min_eq_left (Nat.le_of_lt (Nat.lt_of_lt_of_le ha hroom))
  rw [advance?, if_pos hplays]
  dsimp only
  rw [if_pos hfits, hmost, ← Nat.mod_eq_sub_mul_div, moveOn_of_lt_room hplays ha]

/-- Further on, with a time that is kept, the last frame is reached in a time if it is reached in
the same time by the room that there was. -/
theorem advance?_ahead_of_room_le (hplays : p.isPlaying = true) (hn : n < p.room) {kept : Nat}
    (hfits : kept + b ≤ longestTime) (hb : p.room ≤ n + (kept + b) / p.interval) :
    (p.ahead n kept).advance? b = some ((p.ahead n kept).room, p.finished) := by
  have hroom := room_ahead hn kept
  have hreached : (p.ahead n kept).room
      ≤ ((p.ahead n kept).pending + b) / (p.ahead n kept).interval := by
    rw [pending_ahead, interval_ahead]
    omega
  exact advance?_of_room_le (p := p.ahead n kept) hplays (index_ahead_le hn kept) hfits hreached

theorem advance?_ahead_of_lt_room (hplays : p.isPlaying = true) (hroom : p.room ≤ mostIntervals)
    (hn : n < p.room) {kept : Nat} (hfits : kept + b ≤ longestTime)
    (hb : n + (kept + b) / p.interval < p.room) :
    (p.ahead n kept).advance? b = some ((kept + b) / p.interval,
      p.ahead (n + (kept + b) / p.interval) ((kept + b) % p.interval)) := by
  have hroom' := room_ahead hn kept
  have hbefore : ((p.ahead n kept).pending + b) / (p.ahead n kept).interval
      < (p.ahead n kept).room := by
    rw [pending_ahead, interval_ahead]
    omega
  have hadvance := advance?_of_lt_room (p := p.ahead n kept) hplays (by omega) hfits hbefore
  rwa [pending_ahead, interval_ahead, ahead_ahead] at hadvance

/-- Time may be let pass in two parts. -/
theorem advance?_add (hplays : p.isPlaying = true) (hindex : p.index ≤ p.lastIndex)
    (hspeed : 0 < p.interval) (hroom : p.room ≤ mostIntervals)
    (hfits : p.pending + (a + b) ≤ longestTime) :
    ∃ n p' m p'', p.advance? a = some (n, p') ∧ p'.advance? b = some (m, p'')
      ∧ p.advance? (a + b) = some (n + m, p'') := by
  have hsum : p.pending + (a + b)
      = p.interval * ((p.pending + a) / p.interval) + ((p.pending + a) % p.interval + b) := by
    rw [← Nat.add_assoc, ← Nat.add_assoc, Nat.div_add_mod]
  have hdiv : (p.pending + (a + b)) / p.interval
      = (p.pending + a) / p.interval + ((p.pending + a) % p.interval + b) / p.interval := by
    rw [hsum, Nat.mul_add_div hspeed]
  have hmod : (p.pending + (a + b)) % p.interval
      = ((p.pending + a) % p.interval + b) % p.interval := by
    rw [hsum, Nat.mul_add_mod]
  have hfitsFirst : p.pending + a ≤ longestTime := by omega
  have hfitsRest : (p.pending + a) % p.interval + b ≤ longestTime :=
    Nat.le_trans (hsum ▸ Nat.le_add_left _ _) hfits
  rcases Nat.lt_or_ge ((p.pending + a) / p.interval) p.room with hfirst | hfirst
  · have hadvance := advance?_of_lt_room hplays hroom hfitsFirst hfirst
    rcases Nat.lt_or_ge ((p.pending + (a + b)) / p.interval) p.room with hboth | hboth
    · refine ⟨_, _, _, _, hadvance,
        advance?_ahead_of_lt_room hplays hroom hfirst hfitsRest (hdiv ▸ hboth), ?_⟩
      rw [advance?_of_lt_room hplays hroom hfits hboth, hdiv, hmod]
    · refine ⟨_, _, _, _, hadvance,
        advance?_ahead_of_room_le hplays hfirst hfitsRest (hdiv ▸ hboth), ?_⟩
      rw [advance?_of_room_le hplays hindex hfits hboth, ← room_ahead hfirst]
  · -- The end is reached in the first part, and nothing moves after it.
    have hboth : p.room ≤ (p.pending + (a + b)) / p.interval :=
      hdiv ▸ Nat.le_add_right_of_le hfirst
    exact ⟨p.room, p.finished, 0, p.finished,
      advance?_of_room_le hplays hindex hfitsFirst hfirst, advance?_of_resting rfl b,
      advance?_of_room_le hplays hindex hfits hboth⟩

/-- Whole intervals that pass while no time is kept are as many ticks. -/
theorem advance?_intervals (hplays : p.isPlaying = true) (hindex : p.index < p.lastIndex)
    (hspeed : 0 < p.interval) (hroom : p.room ≤ mostIntervals) (hnone : p.pending = 0) {k : Nat}
    (hfits : k * p.interval ≤ longestTime) : p.advance? (k * p.interval) = some (p.ticks k) := by
  have hle := Nat.le_of_lt hindex
  have htime : p.pending + k * p.interval = k * p.interval := by rw [hnone, Nat.zero_add]
  have hfits' : p.pending + k * p.interval ≤ longestTime := htime.symm ▸ hfits
  have hwhole : (p.pending + k * p.interval) / p.interval = k := by
    rw [htime, Nat.mul_div_cancel _ hspeed]
  have hrest : (p.pending + k * p.interval) % p.interval = p.pending := by
    rw [htime, Nat.mul_mod_left, hnone]
  rw [ticks_eq_moveOn hplays hindex]
  by_cases hk : p.room ≤ k
  · have hmove : p.moveOn k = (p.room, p.finished) := moveOn_of_room_le hplays hle hk _
    rw [hmove, advance?_of_room_le hplays hle hfits' (hwhole.symm ▸ hk)]
  · rw [Nat.not_le] at hk
    have hmove : p.moveOn k = (k, p.ahead k p.pending) := moveOn_of_lt_room hplays hk _
    rw [hmove, advance?_of_lt_room hplays hroom hfits' (hwhole.symm ▸ hk), hwhole, hrest]

theorem Sound.interval_pos (h : Sound t p) : 0 < p.interval :=
  Nat.mul_pos h.speed (by decide)

theorem Sound.room_le (h : Sound t p) (hmany : t.frames.length ≤ 2 ^ 32) :
    p.room ≤ mostIntervals := by
  have hlength : p.length = t.frames.length := congrArg (·.frames.length) h.trace
  unfold room lastIndex mostIntervals
  omega

/-- While a playback plays a trace of at least two frames and no more than can be counted off at
once, time may be let pass in two parts or at once: it is the same playback afterwards, and the
cursor has moved by as many frames. If no time is kept, so many whole intervals move it as as many
ticks do. -/
theorem advance_additive (t : Trace) (speedMs : Nat) (ops : List Operation)
    (hp : (start t speedMs).performAll? ops = some p) (hplays : p.isPlaying = true)
    (htwo : 2 ≤ t.frames.length) (hmany : t.frames.length ≤ 2 ^ 32) :
    (∀ a b, p.pending + (a + b) ≤ longestTime →
      ∃ n p' m p'', p.advance? a = some (n, p') ∧ p'.advance? b = some (m, p'')
        ∧ p.advance? (a + b) = some (n + m, p''))
    ∧ (p.pending = 0 → ∀ k, k * p.interval ≤ longestTime →
        p.advance? (k * p.interval) = some (p.ticks k)) := by
  have hsound := (sound_start t speedMs).performAll ops hp
  have hspeed := hsound.interval_pos
  have hroom := hsound.room_le hmany
  have hindex : p.index < p.lastIndex := by
    have hlength : p.length = t.frames.length := congrArg (·.frames.length) hsound.trace
    rcases (hsound.playing hplays).2 with hone | hlt
    · omega
    · exact hlt
  exact ⟨fun a b hfits => advance?_add hplays (Nat.le_of_lt hindex) hspeed hroom hfits,
    fun hnone k hfits => advance?_intervals hplays hindex hspeed hroom hnone hfits⟩

/-- Of four frames played with two milliseconds between them, 1.5 ms and then 7 ms go as far as
8.5 ms, to the last one. -/
theorem advance_additive_end :
    let t : Trace := ⟨default, List.replicate 4 default, "", default⟩
    let p : Playback := ⟨t, 0, true, 2, 0⟩
    (start t 2).performAll? [.play] = some p ∧ p.isPlaying = true ∧ 2 ≤ t.frames.length
      ∧ t.frames.length ≤ 2 ^ 32 ∧ p.pending + (1500000 + 7000000) ≤ longestTime
      ∧ (∃ n p' m p'', p.advance? 1500000 = some (n, p') ∧ p'.advance? 7000000 = some (m, p'')
          ∧ p.advance? (1500000 + 7000000) = some (n + m, p''))
      ∧ p.pending = 0 ∧ 5 * p.interval ≤ longestTime
      ∧ p.advance? (5 * p.interval) = some (p.ticks 5) := by
  intro t p
  have hp : (start t 2).performAll? [.play] = some p := by decide +kernel
  obtain ⟨hparts, hticks⟩ := advance_additive t 2 [.play] hp rfl (by decide) (by decide)
  exact ⟨hp, rfl, by decide, by decide, by decide, hparts _ _ (by decide), rfl, by decide,
    hticks rfl 5 (by decide)⟩

end Advancing

section Arithmetic

/-- A time, if it is none that is too long to be kept. -/
def time? (n : Nat) : Option Nat := if n ≤ longestTime then some n else none

/-- How often the one time goes into the other, unless that is no time at all. -/
def quotient? (n m : Nat) : Option Nat := if m = 0 then none else some (n / m)

/-- What is left of the one time without the other, unless that is longer. -/
def difference? (n m : Nat) : Option Nat := if m ≤ n then some (n - m) else none

/-- Lets time pass as `advance?` does, with each step of the arithmetic refused where it has no
result among the times that can be kept. -/
def advanceStepwise? (p : Playback) (elapsed : Nat) : Option (Nat × Playback) :=
  if p.isPlaying then do
    let time ← time? (p.pending + elapsed)
    let whole ← quotient? time p.interval
    let taken ← time? (p.interval * min whole mostIntervals)
    let kept ← difference? time taken
    some ({ p with pending := kept }.moveOn whole)
  else some (0, p)

theorem time?_of_le (h : n ≤ longestTime) : time? n = some n := if_pos h

theorem time?_of_lt (h : longestTime < n) : time? n = none := if_neg (Nat.not_le.mpr h)

theorem quotient?_of_pos (h : 0 < a) : quotient? n a = some (n / a) := if_neg (Nat.ne_of_gt h)

theorem difference?_of_le (h : a ≤ n) : difference? n a = some (n - a) := if_pos h

/-- What is taken out of a time is no longer than the time. -/
theorem interval_mul_le (p : Playback) (time : Nat) :
    p.interval * min (time / p.interval) mostIntervals ≤ time :=
  Nat.le_trans (Nat.mul_le_mul_left _ (Nat.min_le_left _ _)) (Nat.mul_div_le _ _)

/-- Only the first step can be refused. -/
theorem advanceStepwise?_eq (hspeed : 0 < p.interval) (elapsed : Nat) :
    p.advanceStepwise? elapsed = p.advance? elapsed := by
  have htaken := interval_mul_le p (p.pending + elapsed)
  unfold advanceStepwise? advance?
  split
  · dsimp only
    rcases Nat.lt_or_ge longestTime (p.pending + elapsed) with hlong | hfits
    · rw [time?_of_lt hlong, if_neg (Nat.not_le.mpr hlong)]
      rfl
    · rw [if_pos hfits, time?_of_le hfits, Option.bind_eq_bind, Option.bind_some,
        quotient?_of_pos hspeed, Option.bind_some, time?_of_le (Nat.le_trans htaken hfits),
        Option.bind_some, difference?_of_le htaken, Option.bind_some]
  · rfl

/-- Whatever has been done with a playback, letting time pass divides by no zero, takes out no more
than there is, and counts no time that is too long, but for one: the time to be kept, together with
the time that is kept already. -/
theorem advance_in_range (t : Trace) (speedMs : Nat) (ops : List Operation)
    (hp : (start t speedMs).performAll? ops = some p) (elapsed : Nat) :
    p.advanceStepwise? elapsed = p.advance? elapsed
      ∧ (p.advanceStepwise? elapsed = none ↔
          p.isPlaying = true ∧ longestTime < p.pending + elapsed) := by
  have hsound := (sound_start t speedMs).performAll ops hp
  have hsame := advanceStepwise?_eq hsound.interval_pos elapsed
  refine ⟨hsame, ?_⟩
  have hnone := perform?_eq_none_iff p (.advance elapsed)
  rw [perform?, Option.map_eq_none_iff] at hnone
  rw [hsame, hnone]
  constructor
  · rintro ⟨_, heq, hplays, htime⟩
    cases heq
    exact ⟨hplays, htime⟩
  · rintro ⟨hplays, htime⟩
    exact ⟨elapsed, rfl, hplays, htime⟩

/-- A nanosecond is kept, and another one may pass. -/
theorem advance_in_range_kept :
    let t : Trace := ⟨default, List.replicate 2 default, "", default⟩
    let p : Playback := ⟨t, 0, true, 500, 1⟩
    (start t 500).performAll? [.play, .advance 1] = some p
      ∧ p.advanceStepwise? 1 = p.advance? 1
      ∧ (p.advanceStepwise? 1 = none ↔ p.isPlaying = true ∧ longestTime < p.pending + 1) := by
  intro t p
  have hp : (start t 500).performAll? [.play, .advance 1] = some p := by decide +kernel
  exact ⟨hp, advance_in_range t 500 _ hp 1⟩

/-- The longest time there is cannot pass while a nanosecond is kept. -/
theorem longest_time_refused :
    let t : Trace := ⟨default, List.replicate 2 default, "", default⟩
    let p : Playback := ⟨t, 0, true, 500, 1⟩
    (start t 500).performAll? [.play, .advance 1] = some p
      ∧ time? longestTime = some longestTime ∧ p.advanceStepwise? longestTime = none := by
  decide +kernel

end Arithmetic

end MissionScript.Playback
