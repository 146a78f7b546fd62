import MissionScript.Proofs.Script.Abreast
import MissionScript.Proofs.Source.Columns

/-!
# The ends of lines

A text in which every newline comes with a carriage return in front of it has the same tokens as the
text without them, with all words at the same places, and so has the text with one more newline at
its end. Where the text has a fault, it has the same one, which is told with the same place and the
same line (`SourceText.tokens_lineEndings`).
-/

namespace MissionScript

/-- The text with a carriage return in front of every newline. -/
def withReturns (cs : List Char) : List Char :=
  cs.flatMap fun x => if x = '\n' then ['\r', '\n'] else [x]

/-- The same lexeme, and where it is a word, at the same place. -/
structure Token.Stays (t t' : Token) : Prop where
  lexeme : t'.lexeme = t.lexeme
  span : t.lexeme.isLayout = false → t'.span = t.span

/-- The same fault, told with the same hint, place and line. -/
structure Diagnostic.Stays (d d' : Diagnostic) : Prop where
  code : d'.code = d.code
  message : d'.message = d.message
  suggestion : d'.suggestion = d.suggestion
  start : d'.span.start = d.span.start
  sourceLine : d'.sourceLine = d.sourceLine

/-- Both have the same tokens, with all words at the same places, or both have the same fault. -/
abbrev SourceText.ReadsAs (source source' : SourceText) : Prop :=
  Alike Diagnostic.Stays (List.Forall₂ Token.Stays) source.tokens source'.tokens

section Returns

variable {u : List Char}

theorem withReturns_within (hline : '\n' ∉ u) : withReturns u = u := by
  induction u with
  | nil => rfl
  | cons x xs ih =>
    rw [List.mem_cons, not_or] at hline
    rw [withReturns, List.flatMap_cons, if_neg (Ne.symm hline.1), ← withReturns, ih hline.2]
    rfl

theorem withReturns_line (hline : '\n' ∉ u) (t : List Char) :
    withReturns (u ++ '\n' :: t) = u ++ (['\r'] ++ '\n' :: withReturns t) := by
  have hu := withReturns_within hline
  unfold withReturns at hu ⊢
  rw [List.flatMap_append, hu]
  rfl

theorem relaid_withReturns (n : Nat) (t : List Char) :
    Relaid (fun _ => 0) n 0 t (withReturns t) := by
  induction t using lines_induction generalizing n with
  | last u hline =>
    rw [withReturns_within hline]
    exact .last hline rfl
  | line u t hline ih =>
    rw [withReturns_line hline]
    exact .line hline rfl (List.forall_mem_singleton.mpr rfl) (ih (n + 1))

theorem relaid_newline (n : Nat) (t : List Char) : Relaid (fun _ => 0) n 0 t (t ++ ['\n']) := by
  induction t using lines_induction generalizing n with
  | last u hline => exact .final hline rfl
  | line u t hline ih =>
    rw [List.append_assoc]
    exact .line (e := []) hline rfl nofun (ih (n + 1))

end Returns

section Lines

/-- Line `k` of the given ones, counting from zero, as it is shown. -/
def shownLine (lines : List (List Char)) (k : Nat) : String :=
  (lines[k]?.map fun cs => String.ofList (SourceText.withoutReturns cs)).getD ""

variable {u : List Char}

theorem linesFrom_last (hline : '\n' ∉ u) : linesFrom [] u = [u] := by
  have h := linesFrom_within hline [] []
  rwa [List.append_nil, List.append_nil, linesFrom, List.reverse_reverse] at h

theorem linesFrom_line (hline : '\n' ∉ u) (t : List Char) :
    linesFrom [] (u ++ '\n' :: t) = u :: linesFrom [] t := by
  rw [linesFrom_within hline, linesFrom, if_pos rfl, List.append_nil, List.reverse_reverse]

theorem shownLine_withReturns (t : List Char) (k : Nat) :
    shownLine (linesFrom [] (withReturns t)) k = shownLine (linesFrom [] t) k := by
  induction t using lines_induction generalizing k with
  | last u hline => rw [withReturns_within hline]
  | line u t hline ih =>
    have hline' : '\n' ∉ u ++ ['\r'] := by simpa using hline
    rw [withReturns_line hline, ← List.append_assoc, linesFrom_line hline', linesFrom_line hline]
    cases k with
    | zero => simp [shownLine, SourceText.withoutReturns]
    | succ k => exact ih k

theorem shownLine_newline (t : List Char) (k : Nat) :
    shownLine (linesFrom [] (t ++ ['\n'])) k = shownLine (linesFrom [] t) k := by
  induction t using lines_induction generalizing k with
  | last u hline =>
    rw [linesFrom_line hline, linesFrom_last hline]
    -- behind the last line there is an empty one, which is shown as no line is
    rcases k with _ | _ | k <;> rfl
  | line u t hline ih =>
    rw [List.append_assoc, List.cons_append, linesFrom_line hline, linesFrom_line hline]
    cases k with
    | zero => rfl
    | succ k => exact ih k

end Lines

section Sources

variable {source source' : SourceText}

theorem SourceText.lineText_eq (hlines : ∀ k, shownLine source'.lines k = shownLine source.lines k)
    (n : Nat) : source'.lineText n = source.lineText n := by
  cases n with
  | zero => rfl
  | succ k => exact hlines k

theorem SourceText.readsAs
    (hrelaid : Relaid (fun _ => 0) 1 0 source.text.toList source'.text.toList)
    (hlines : ∀ k, shownLine source'.lines k = shownLine source.lines k) :
    source.ReadsAs source' := by
  refine tokens_relaid hrelaid (fun e e' he => ?_) fun t t' _ ht => ⟨ht.lexeme, ht.span⟩
  have hstart : e'.span.start = e.span.start := he.start
  have hline : source'.lineText e'.span.line = source.lineText e.span.line := by
    rw [lineText_eq hlines, Span.line, Span.line, hstart]
  exact ⟨congrArg LexFault.code he.fault, congrArg LexFault.message he.fault,
    congrArg LexFault.suggestion he.fault, hstart, hline⟩

end Sources

/-- Whether lines end with newlines or with carriage returns and newlines does not matter, nor does
a newline at the end of the text. -/
theorem SourceText.tokens_lineEndings (name text : String) :
    SourceText.ReadsAs ⟨name, text⟩ ⟨name, String.ofList (withReturns text.toList)⟩ ∧
      SourceText.ReadsAs ⟨name, text⟩ ⟨name, text ++ "\n"⟩ := by
  constructor
  · refine readsAs ?_ ?_
    · rw [String.toList_ofList]
      exact relaid_withReturns 1 text.toList
    · rw [lines, String.toList_ofList]
      exact shownLine_withReturns text.toList
  · refine readsAs ?_ ?_
    · rw [String.toList_append]
      exact relaid_newline 1 text.toList
    · rw [lines, String.toList_append]
      exact shownLine_newline text.toList

end MissionScript
