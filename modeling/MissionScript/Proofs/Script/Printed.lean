import MissionScript.Proofs.Script.Spelling
import MissionScript.Proofs.Value.Literal

/-!
# Written values are read as their literals

Wherever the written form of a printable value stands, with something apart from it behind, it is
read as the lexemes that the literal is written with (`Printable.readsOver`). So a line that assigns
the written form to a variable has the tokens of an assignment of the literal.
-/

namespace MissionScript

open Grammar (listing)

/-- Wherever the reading of the text comes to these characters, with what follows apart from them,
it goes on behind them with these lexemes read. -/
def ReadsOver (text : String) (cs : List Char) (ls : List Lexeme) : Prop :=
  ∀ ⦃brackets : Nat⦄ ⦃rest : List Char⦄ ⦃sofar : List Lexeme⦄, Apart rest →
    Reached text brackets (cs ++ rest) sofar → Reached text brackets rest (sofar ++ ls)

theorem apart_cons {x : Char} {xs : List Char} (hname : isNameChar x = false) (hpoint : x ≠ '.') :
    Apart (x :: xs) := by
  intro y hy
  cases hy
  exact ⟨hname, hpoint⟩

/-- Brackets, commas and colons are no part of a longer symbol. -/
def Symbol.isMark (s : Symbol) : Bool := s.opens || s.closes || s = .comma || s = .colon

theorem Symbol.isMark_class {x : Char} {s : Symbol} (hx : Symbol.ofChar? x = some s)
    (hs : s.isMark = true) :
    (∀ y, Symbol.ofPair? x y = none) ∧ isNameChar x = false ∧ x ≠ '.' := by
  unfold Symbol.ofChar? at hx
  split at hx <;> cases hx <;> first | exact ⟨fun _ => rfl, rfl, by decide⟩ | cases hs

section Reading

variable {text : String} {brackets : Nat} {rest : List Char} {ls : List Lexeme} {x : Char}
  {s : Symbol}

theorem apart_mark (hx : Symbol.ofChar? x = some s) (hs : s.isMark = true) : Apart (x :: rest) :=
  apart_cons (Symbol.isMark_class hx hs).2.1 (Symbol.isMark_class hx hs).2.2

theorem Reached.mark (h : Reached text brackets (x :: rest) ls) (hx : Symbol.ofChar? x = some s)
    (hs : s.isMark = true) :
    Reached text (Layout.after ⟨[], brackets, false⟩ (.symbol s)).brackets rest
      (ls ++ [.symbol s]) :=
  @Reached.word _ _ _ _ [x] _ h (spells_symbol hx fun y _ => (Symbol.isMark_class hx hs).1 y)

/-- Parts with commas between them. -/
theorem readsOver_commas {α : Type} {parts : List α} {cs : α → List Char} {ls : α → List Lexeme}
    (hparts : ∀ p ∈ parts, ReadsOver text (cs p) (ls p)) :
    ReadsOver text (Value.commas (parts.map cs)) (listing false (parts.map ls)) := by
  induction parts with
  | nil =>
    intro _ _ _ _ h
    simpa [Value.commas, listing] using h
  | cons p ps ih =>
    obtain ⟨hp, hps⟩ := List.forall_mem_cons.mp hparts
    intro brackets rest sofar hrest h
    cases ps with
    | nil => simpa [listing] using hp hrest (by simpa [Value.commas] using h)
    | cons q qs =>
      have hcommas : Value.commas ((p :: q :: qs).map cs) ++ rest
          = cs p ++ (',' :: ' ' :: (Value.commas ((q :: qs).map cs) ++ rest)) := by
        simp [Value.commas, List.intercalate_cons_cons]
      rw [hcommas] at h
      have hcomma : Reached text brackets (' ' :: (Value.commas ((q :: qs).map cs) ++ rest))
          (sofar ++ ls p ++ [.symbol .comma]) :=
        (hp (@apart_mark _ _ .comma rfl rfl) h).mark rfl rfl
      simpa [listing] using ih hps hrest hcomma.space

/-- A colon between two parts. -/
theorem readsOver_colon {cs cs' : List Char} {ls ls' : List Lexeme} (hkey : ReadsOver text cs ls)
    (hvalue : ReadsOver text cs' ls') :
    ReadsOver text (cs ++ ": ".toList ++ cs') (ls ++ .symbol .colon :: ls') := by
  intro brackets rest sofar hrest h
  rw [List.append_assoc, List.append_assoc] at h
  have hcolon : Reached text brackets (' ' :: (cs' ++ rest)) (sofar ++ ls ++ [.symbol .colon]) :=
    (hkey (@apart_mark _ _ .colon rfl rfl) h).mark rfl rfl
  simpa using hvalue hrest hcolon.space

/-- Brackets around a part. -/
theorem readsOver_brackets {y : Char} {t : Symbol} (hx : Symbol.ofChar? x = some s)
    (hs : s.opens = true) (hy : Symbol.ofChar? y = some t) (ht : t.closes = true) {cs : List Char}
    {ls : List Lexeme} (h : ReadsOver text cs ls) :
    ReadsOver text (x :: (cs ++ [y])) (.symbol s :: (ls ++ [.symbol t])) := by
  have hsmark : s.isMark = true := by simp [Symbol.isMark, hs]
  have htmark : t.isMark = true := by simp [Symbol.isMark, ht]
  have ht' : t.opens = false := by cases t <;> first | rfl | cases ht
  intro brackets rest sofar hrest hreached
  rw [List.cons_append, List.append_assoc] at hreached
  have hopen := hreached.mark hx hsmark
  have hclose := (h (apart_mark hy htmark) hopen).mark hy htmark
  simpa [Layout.after, hs, ht, ht'] using hclose

theorem readsOver_int {n : Nat} (hn : n ≤ largestInt) :
    ReadsOver text (Nat.toDigits 10 n) [.int (Int64.ofNat n)] :=
  fun _ _ _ hrest h => h.word (spells_int hn hrest)

theorem readsOver_keyword (k : Keyword) : ReadsOver text k.text.toList [.keyword k] := by
  have hword : wordOf k.text.toList = .keyword k ∧ ∃ x xs, k.text.toList = x :: xs ∧
      isNameStart x = true ∧ xs.all isNameChar = true := by
    cases k <;> exact ⟨rfl, _, _, rfl, rfl, rfl⟩
  obtain ⟨hk, x, xs, htext, hx, hxs⟩ := hword
  intro brackets rest sofar hrest h
  rw [htext] at h hk
  exact h.word (hk ▸ spells_word hx (List.all_eq_true.mp hxs) hrest)

end Reading

namespace Value

variable {text : String}

/-- An int is read as its literal, with a sign in front of its digits if it is negative. -/
theorem readsOver_written_int {n : Int64} (hn : n ≠ Int64.minValue) :
    ReadsOver text (int n).written.toList (int n).literal.written := by
  have hsize : n.toInt.natAbs ≤ MissionScript.largestInt := natAbs_le hn
  rw [toList_written_int, literal]
  by_cases hneg : n.toInt < 0
  · rw [if_pos hneg, if_pos hneg, ← ofNat_natAbs_of_neg hneg]
    intro brackets rest sofar hrest h
    -- a digit follows the sign, so the two are no longer symbol
    have hpair : ∀ y ∈ (Nat.toDigits 10 n.toInt.natAbs ++ rest).head?,
        Symbol.ofPair? '-' y = Option.none := by
      intro y hy
      obtain ⟨d, ds, hdigits⟩ := List.exists_cons_of_ne_nil (@Nat.toDigits_ne_nil n.toInt.natAbs 10)
      have hd : d.isDigit = true := Nat.isDigit_of_mem_toDigits (by decide) (by decide)
        (hdigits ▸ List.mem_cons_self)
      rw [hdigits] at hy
      cases hy
      unfold Symbol.ofPair?
      split <;> first | rfl | cases hd
    have hminus : Reached text brackets (Nat.toDigits 10 n.toInt.natAbs ++ rest)
        (sofar ++ [.symbol .minus]) := @Reached.word _ _ _ _ ['-'] _ h (spells_symbol rfl hpair)
    have hread := readsOver_int hsize hrest hminus
    rwa [List.append_assoc] at hread
  · rw [if_neg hneg, if_neg hneg, Expr.written]
    have hread := @readsOver_int text _ hsize
    rwa [ofNat_natAbs_of_nonneg (Int.not_lt.mp hneg)] at hread

/-- The written form of a value is read as its tree is written. -/
theorem Printable.readsOver {v : Value} (hv : v.Printable) :
    ReadsOver text v.written.toList v.literal.written := by
  induction hv with
  | none => exact readsOver_keyword .noneWord
  | bool b =>
    cases b
    · exact readsOver_keyword .falseWord
    · exact readsOver_keyword .trueWord
  | int hn => exact readsOver_written_int hn
  | str s =>
    rw [toList_written_str]
    refine fun _ _ _ _ h => h.word (spells_str ?_ s)
    unfold quoteFor
    split
    · exact .inr rfl
    · exact .inl rfl
  | list _ ih =>
    rw [toList_written_list, literal, Expr.written, writtenAll_literals]
    exact readsOver_brackets rfl rfl rfl rfl (readsOver_commas ih)
  | dict _ _ _ ihkeys ihvalues =>
    rw [toList_written_dict, literal, Expr.written, writtenEntries_literal]
    exact readsOver_brackets rfl rfl rfl rfl
      (readsOver_commas fun e he => readsOver_colon (ihkeys e he) (ihvalues e he))

/-- The tokens of an assignment of a written value. -/
theorem Printable.scan_assignment {v : Value} (hv : v.Printable) :
    ∃ ts, Token.scan ("x = " ++ v.written ++ "\n") = .ok ts ∧
      ts.map (·.lexeme) = .name "x" :: .symbol .eq :: (v.literal.written ++ [.newline, .eof]) := by
  have htext : ("x = " ++ v.written ++ "\n").toList
      = 'x' :: ' ' :: '=' :: ' ' :: (v.written.toList ++ ['\n']) := by simp
  have hstart := Reached.start htext rfl (by decide) (by decide)
  rw [htext] at hstart
  have hname : Reached _ 0 _ [.name "x"] :=
    @Reached.word _ _ _ _ ['x'] _ hstart (spells_word rfl nofun (apart_cons rfl (by decide)))
  have hassign : Reached _ 0 _ [.name "x", .symbol .eq] :=
    @Reached.word _ _ _ _ ['='] _ hname.space (spells_symbol rfl fun y hy => by cases hy; rfl)
  obtain ⟨ts, hts, hlexemes⟩ :=
    (hv.readsOver (apart_cons rfl (by decide)) hassign.space).finish
  exact ⟨ts, hts, by simpa using hlexemes⟩

end Value

end MissionScript
