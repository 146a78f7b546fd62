import MissionScript.Format.Result
import MissionScript.Proofs.Json.RoundTrip

/-!
# Levels, traces and results are read back

The shapes of levels, traces and results are faithful, and a level, trace or result whose numbers
are within the ranges of their types is made again of its datum. So each of them is read back from
its text, and traces with the same canonical text are equal (`texts_read_back`).
-/

namespace MissionScript

open Json (Datum Shape)

/-- The thing stands for a datum of the shape, and is made again of it. -/
structure Json.Codes {α : Type} (s : Shape) (write : α → Datum) (read : Datum → α) (a : α) :
    Prop where
  fits : s.Fits (write a)
  again : read (write a) = a

@[simp] theorem Json.Datum.get_zero (d : Datum) (ds : List Datum) : (record (d :: ds)).get 0 = d :=
  rfl

@[simp] theorem Json.Datum.get_succ (d : Datum) (ds : List Datum) (i : Nat) :
    (record (d :: ds)).get (i + 1) = (record ds).get i := rfl

namespace Json.Codes

variable {α : Type} {s : Shape} {write : α → Datum} {read : Datum → α}

theorem list {as : List α} (h : ∀ a ∈ as, Codes s write read a) :
    Codes (.list s) (fun as => .list (as.map write)) (fun d => d.items.map read) as where
  fits := by
    rw [Shape.fits_list]
    intro d hd
    obtain ⟨a, ha, rfl⟩ := List.mem_map.mp hd
    exact (h a ha).fits
  again := by
    rw [Datum.items, List.map_map]
    exact (List.map_congr_left fun a ha => (h a ha).again).trans (List.map_id as)

theorem option {o : Option α} (hs : s.isOptional = false) (h : ∀ a ∈ o, Codes s write read a) :
    Codes (.optional s) (.ofOption write) (·.option read) o := by
  cases o with
  | none => exact ⟨.inl rfl, rfl⟩
  | some a =>
    obtain ⟨hfits, hagain⟩ := h a rfl
    refine ⟨.inr hfits, ?_⟩
    rw [Datum.ofOption, Datum.option]
    · exact congrArg some hagain
    · exact Shape.Fits.ne_absent hs hfits

/-- What stands for a datum of a faithful shape is read back from its text. -/
theorem read_compact {a : α} (h : Codes s write read a) (hs : s.faithful true)
    (hdepth : s.depth < Reading.levelLimit) :
    (s.read (s.write (write a)).compact).map read = .ok a := by
  rw [Shape.read_write hs hdepth h.fits, Except.map, h.again]

theorem eq_of_compact_eq {a b : α} (ha : Codes s write read a) (hb : Codes s write read b)
    (hs : s.faithful true) (hdepth : s.depth < Reading.levelLimit)
    (h : (s.write (write a)).compact = (s.write (write b)).compact) : a = b := by
  have hdatum := Shape.write_injective hs hdepth ha.fits hb.fits h
  rw [← ha.again, hdatum, hb.again]

end Json.Codes

open Json (Codes)

/-- Numbers of 32 bits without a sign. -/
def IsU32 (n : Nat) : Prop := n ≤ 0xffffffff

instance (n : Nat) : Decidable (IsU32 n) := inferInstanceAs (Decidable (n ≤ 0xffffffff))

section Numbers

theorem codes_u32 {n : Nat} (h : IsU32 n) : Codes .u32 (fun n : Nat => .whole n) Datum.nat n :=
  ⟨Shape.fits_whole.mpr ⟨Int.natCast_nonneg n, Int.ofNat_le.mpr h⟩, Int.toNat_natCast n⟩

theorem codes_text (s : String) : Codes .text .text Datum.string s := ⟨Shape.fits_text, rfl⟩

theorem codes_texts (ss : List String) :
    Codes (.list .text) (fun ss => .list (ss.map .text)) (fun d => d.items.map Datum.string) ss :=
  .list fun s _ => codes_text s

theorem codes_text? (s : Option String) :
    Codes (.optional .text) (.ofOption .text) (·.option Datum.string) s :=
  .option rfl fun s _ => codes_text s

theorem codes_u32? {n : Option Nat} (h : ∀ m ∈ n, IsU32 m) :
    Codes (.optional .u32) (.ofOption fun n : Nat => .whole n) (·.option Datum.nat) n :=
  .option rfl fun m hm => codes_u32 (h m hm)

end Numbers

namespace Position

/-- The coordinates are numbers of 32 bits. -/
def Bounded (p : Position) : Prop := isCoordinate p.x ∧ isCoordinate p.y

instance (p : Position) : Decidable p.Bounded :=
  inferInstanceAs (Decidable (isCoordinate p.x ∧ isCoordinate p.y))

theorem codes {p : Position} (h : p.Bounded) : Codes shape toDatum ofDatum p := by
  simp only [Bounded, isCoordinate, Bool.and_eq_true, decide_eq_true_eq] at h
  refine ⟨?_, rfl⟩
  simpa [shape, toDatum, Shape.i32] using h

end Position

theorem Direction.codes (d : Direction) : Codes shape toDatum ofDatum d := by
  cases d <;> exact ⟨Shape.fits_choice.mpr (by decide), by decide⟩

namespace GridSize

def Bounded (g : GridSize) : Prop := IsU32 g.rows ∧ IsU32 g.cols

theorem codes {g : GridSize} (h : g.Bounded) : Codes shape toDatum ofDatum g := by
  have hrows := codes_u32 h.1
  have hcols := codes_u32 h.2
  refine ⟨?_, rfl⟩
  simpa [shape, toDatum] using And.intro hrows.fits hcols.fits

end GridSize

namespace Level

/-- The numbers of the level are within the ranges of their types. -/
structure Bounded (l : Level) : Prop where
  grid : l.grid.Bounded
  start : l.start.Bounded
  targets : ∀ p ∈ l.targets, p.Bounded
  obstacles : ∀ p ∈ l.obstacles, p.Bounded
  maxMoves : ∀ n ∈ l.maxMoves, IsU32 n

theorem codes {l : Level} (h : l.Bounded) : Codes shape toDatum ofDatum l := by
  have hgrid := GridSize.codes h.grid
  have hstart := Position.codes h.start
  have hdirection := Direction.codes l.startDirection
  have htargets := Codes.list fun p hp => Position.codes (h.targets p hp)
  have hobstacles := Codes.list fun p hp => Position.codes (h.obstacles p hp)
  have houtput := codes_text? l.requiredOutput
  have hmoves := codes_u32? h.maxMoves
  have hhints := codes_texts l.hints
  constructor
  · simp [shape, toDatum, hgrid.fits, hstart.fits, hdirection.fits, htargets.fits, hobstacles.fits,
      houtput.fits, hmoves.fits, hhints.fits]
  · simp [ofDatum, toDatum, hgrid.again, hstart.again, hdirection.again, htargets.again,
      hobstacles.again, houtput.again, hmoves.again, hhints.again, Datum.string]

theorem read_toJson {l : Level} (h : l.Bounded) : read l.toJson.compact = .ok l :=
  (codes h).read_compact (by decide) (by decide)

end Level

theorem ObjectKind.codes (k : ObjectKind) :
    Codes (.choice (all.map name)) (fun k => .text k.name) (fun d => ofName d.string) k := by
  cases k <;> exact ⟨Shape.fits_choice.mpr (by decide), by decide⟩

theorem ObjectState.codes (s : ObjectState) :
    Codes (.choice (all.map name)) (fun s => .text s.name) (fun d => ofName d.string) s := by
  cases s <;> exact ⟨Shape.fits_choice.mpr (by decide), by decide⟩

theorem ErrorKind.codes (k : ErrorKind) :
    Codes (.choice (all.map title)) (fun k => .text k.title) (fun d => ofTitle d.string) k := by
  cases k <;> exact ⟨Shape.fits_choice.mpr (by decide), by decide⟩

theorem EndReason.codes (r : EndReason) :
    Codes (.choice (all.map name)) (fun r => .text r.name) (fun d => ofName d.string) r := by
  cases r <;> exact ⟨Shape.fits_choice.mpr (by decide), by decide⟩

theorem WorldObject.codes {o : WorldObject} (h : o.pos.Bounded) :
    Codes shape toDatum ofDatum o := by
  have hid := codes_text o.id
  have hkind := ObjectKind.codes o.kind
  have hpos := Position.codes h
  have hstate := ObjectState.codes o.state
  constructor
  · simp [shape, toDatum, hkind.fits, hpos.fits, hstate.fits]
  · simp [ofDatum, toDatum, hid.again, hkind.again, hpos.again, hstate.again]

namespace Snapshot

structure Bounded (s : Snapshot) : Prop where
  pos : s.pos.Bounded
  objects : ∀ o ∈ s.objects, o.pos.Bounded

theorem codes {s : Snapshot} (h : s.Bounded) : Codes shape toDatum ofDatum s := by
  have hpos := Position.codes h.pos
  have hdir := Direction.codes s.dir
  have hobjects := Codes.list fun o ho => WorldObject.codes (h.objects o ho)
  constructor
  · simp [shape, toDatum, hpos.fits, hdir.fits, hobjects.fits]
  · simp [ofDatum, toDatum, hpos.again, hdir.again, hobjects.again]

end Snapshot

namespace Frame

structure Bounded (f : Frame) : Prop where
  step : IsU32 f.step
  snapshot : f.snapshot.Bounded
  line : ∀ n ∈ f.line, IsU32 n

theorem codes {f : Frame} (h : f.Bounded) : Codes shape toDatum ofDatum f := by
  have hstep := codes_u32 h.step
  have hsnapshot := Snapshot.codes h.snapshot
  have hlog := codes_text? f.log
  have hline := codes_u32? h.line
  have herror := codes_text? f.error
  constructor
  · simp [shape, toDatum, Datum.ofNat?, hstep.fits, hsnapshot.fits, hlog.fits, hline.fits,
      herror.fits]
  · simp [ofDatum, toDatum, Datum.ofNat?, hstep.again, hsnapshot.again, hlog.again, hline.again,
      herror.again]

end Frame

theorem RunError.codes {e : RunError} (h : ∀ n ∈ e.line, IsU32 n) :
    Codes shape toDatum ofDatum e := by
  have hkind := ErrorKind.codes e.kind
  have hmessage := codes_text e.message
  have hline := codes_u32? h
  constructor
  · simp [shape, toDatum, Datum.ofNat?, hkind.fits, hline.fits]
  · simp [ofDatum, toDatum, Datum.ofNat?, hkind.again, hmessage.again, hline.again]

namespace Verdict

def Bounded (v : Verdict) : Prop := ∀ e ∈ v.error, ∀ n ∈ e.line, IsU32 n

theorem codes {v : Verdict} (h : v.Bounded) : Codes shape toDatum ofDatum v := by
  have hreason := EndReason.codes v.reason
  have hmessage := codes_text? v.message
  have herror := Codes.option rfl fun e he => RunError.codes (h e he)
  constructor
  · simp [shape, toDatum, hreason.fits, hmessage.fits, herror.fits]
  · simp [ofDatum, toDatum, Datum.bool, hreason.again, hmessage.again, herror.again]

end Verdict

namespace Trace

/-- The numbers of the trace are within the ranges of their types. -/
structure Bounded (t : Trace) : Prop where
  initial : t.initial.Bounded
  frames : ∀ f ∈ t.frames, f.Bounded
  verdict : t.verdict.Bounded

theorem codes {t : Trace} (h : t.Bounded) : Codes shape toDatum ofDatum t := by
  have hinitial := Snapshot.codes h.initial
  have hframes := Codes.list fun f hf => Frame.codes (h.frames f hf)
  have hverdict := Verdict.codes h.verdict
  constructor
  · simp [shape, toDatum, hinitial.fits, hframes.fits, hverdict.fits]
  · simp [ofDatum, toDatum, hinitial.again, hframes.again, hverdict.again, Datum.string]

theorem read_text {t : Trace} (h : t.Bounded) : read t.text = .ok t :=
  (codes h).read_compact (by decide) (by decide)

theorem eq_of_text_eq {t u : Trace} (ht : t.Bounded) (hu : u.Bounded) (h : t.text = u.text) :
    t = u :=
  (codes ht).eq_of_compact_eq (codes hu) (by decide) (by decide) h

end Trace

namespace Diagnostic

/-- The numbers of the diagnostic are within the ranges of their types. -/
structure Bounded (d : Diagnostic) : Prop where
  code : d.code.number ≤ 0xffff
  start : IsU32 d.span.start.line ∧ IsU32 d.span.start.col
  stop : IsU32 d.span.stop.line ∧ IsU32 d.span.stop.col

theorem codes_span {s : Span} (hstart : IsU32 s.start.line ∧ IsU32 s.start.col)
    (hstop : IsU32 s.stop.line ∧ IsU32 s.stop.col) : Codes spanShape spanDatum spanOf s := by
  have hline := codes_u32 hstart.1
  have hcol := codes_u32 hstart.2
  have hendLine := codes_u32 hstop.1
  have hendCol := codes_u32 hstop.2
  refine ⟨?_, rfl⟩
  simp [spanShape, spanDatum, hline.fits, hcol.fits, hendLine.fits, hendCol.fits]

theorem codes {d : Diagnostic} (h : d.Bounded) : Codes shape toDatum ofDatum d := by
  have hcode : Shape.u16.Fits (.whole d.code.number) :=
    Shape.fits_whole.mpr ⟨Int.natCast_nonneg _, Int.ofNat_le.mpr h.code⟩
  have hstage : d.stage.tag ∈ [Stage.lex.tag, Stage.parse.tag, Stage.level.tag] := by
    cases d.stage <;> decide
  have hspan := codes_span h.start h.stop
  have hsuggestion := codes_text? d.suggestion
  constructor
  · simp [shape, toDatum, hcode, hstage, hspan.fits, hsuggestion.fits]
  · simp [ofDatum, toDatum, Datum.string, Datum.nat, Datum.int, Int.toNat_natCast, hspan.again,
      hsuggestion.again]

end Diagnostic

namespace RunResult

/-- The numbers of the result are within the ranges of their types. -/
structure Bounded (r : RunResult) : Prop where
  trace : ∀ t ∈ r.trace, t.Bounded
  error : ∀ d ∈ r.error, d.Bounded

theorem codes {r : RunResult} (h : r.Bounded) : Codes shape toDatum ofDatum r := by
  have htrace := Codes.option rfl fun t ht => Trace.codes (h.trace t ht)
  have herror := Codes.option rfl fun d hd => Diagnostic.codes (h.error d hd)
  constructor
  · simp [shape, toDatum, htrace.fits, herror.fits]
  · simp [ofDatum, toDatum, Datum.bool, htrace.again, herror.again]

theorem read_toJson {r : RunResult} (h : r.Bounded) : read r.toJson.compact = .ok r :=
  (codes h).read_compact (by decide) (by decide)

end RunResult

/-- Each level, trace and result is read back from its text, and so is every datum that fits the
shape of results, in which the category of an error need not be that of its code. Traces with the
same canonical text, which their fingerprints are hashes of, are equal. -/
theorem texts_read_back :
    (∀ l : Level, l.Bounded → Level.read l.toJson.compact = .ok l) ∧
      (∀ t : Trace, t.Bounded → Trace.read t.text = .ok t) ∧
      (∀ r : RunResult, r.Bounded → RunResult.read r.toJson.compact = .ok r) ∧
      (∀ d : Datum, RunResult.shape.Fits d →
        RunResult.shape.read (RunResult.shape.write d).compact = .ok d) ∧
      ∀ t u : Trace, t.Bounded → u.Bounded → t.text = u.text → t = u := by
  have hfaithful : RunResult.shape.faithful true := by decide
  have hdepth : RunResult.shape.depth < Json.Reading.levelLimit := by decide
  refine ⟨fun l hl => ?_, fun t ht => ?_, fun r hr => ?_, fun d hd => ?_, fun t u ht hu htext => ?_⟩
  · exact Level.read_toJson hl
  · exact Trace.read_text ht
  · exact RunResult.read_toJson hr
  · exact Shape.read_write hfaithful hdepth hd
  · exact Trace.eq_of_text_eq ht hu htext

namespace Sample

/-- A level with a crystal in front of the rover, which is to speak a text of its own. -/
def level : Level :=
  { grid := ⟨1, 2⟩
    start := ⟨0, 0⟩
    startDirection := .right
    targets := [⟨1, 0⟩]
    obstacles := []
    requiredOutput := some "\x01é"
    maxMoves := none
    initialCode := "speak(\"\")\n"
    hints := [] }

def snapshot : Snapshot := ⟨⟨0, 0⟩, .left, [⟨"crystal-0", .crystal, ⟨1, 0⟩, .idle⟩]⟩

/-- The rover speaks and then leaves the grid. -/
def trace : Trace :=
  { initial := snapshot
    frames := [⟨1, snapshot, some "\x01é", some 1, none⟩, ⟨2, snapshot, none, some 2, some "off"⟩]
    output := "\x01é"
    verdict := .failed ⟨.movement, "off", some 2⟩ }

/-- A result with an error whose category is not that of its code. -/
def misfiled : Datum :=
  .record [.flag false, .absent,
    .record [.text "script", .whole 100, .text "level", .text "no such character",
      .record [.whole 1, .whole 1, .whole 1, .whole 2], .text "é", .absent]]

end Sample

theorem texts_read_back_sample :
    Level.read Sample.level.toJson.compact = .ok Sample.level ∧
      Trace.read Sample.trace.text = .ok Sample.trace ∧
      RunResult.read (RunResult.ofTrace Sample.trace).toJson.compact =
        .ok (.ofTrace Sample.trace) ∧
      RunResult.shape.read (RunResult.shape.write Sample.misfiled).compact =
        .ok Sample.misfiled ∧
      Trace.ofDatum Sample.trace.toDatum = Sample.trace := by
  have hlevel : Sample.level.Bounded :=
    ⟨⟨by decide, by decide⟩, by decide, by decide, by decide, by decide⟩
  have hsnapshot : Sample.snapshot.Bounded := ⟨by decide, by decide⟩
  have hframes : ∀ f ∈ Sample.trace.frames, f.Bounded := by
    simp only [Sample.trace, List.forall_mem_cons]
    exact ⟨⟨by decide, hsnapshot, by decide⟩, ⟨by decide, hsnapshot, by decide⟩, nofun⟩
  have htrace : Sample.trace.Bounded := ⟨hsnapshot, hframes, by unfold Verdict.Bounded; decide⟩
  have hresult : (RunResult.ofTrace Sample.trace).Bounded :=
    ⟨fun t ht => Option.some.inj ht ▸ htrace, nofun⟩
  have hmisfiled : RunResult.shape.Fits Sample.misfiled := by
    simp [RunResult.shape, Diagnostic.shape, Diagnostic.spanShape, Shape.u16, Shape.u32,
      Sample.misfiled, Stage.tag]
  have hagain : Trace.ofDatum Sample.trace.toDatum = Sample.trace := by decide
  have hbounded : (Trace.ofDatum Sample.trace.toDatum).Bounded := hagain ▸ htrace
  have htext : (Trace.ofDatum Sample.trace.toDatum).text = Sample.trace.text := by rw [hagain]
  exact ⟨texts_read_back.1 _ hlevel, texts_read_back.2.1 _ htrace,
    texts_read_back.2.2.1 _ hresult, texts_read_back.2.2.2.1 _ hmisfiled,
    texts_read_back.2.2.2.2 _ _ hbounded htrace htext⟩

end MissionScript
