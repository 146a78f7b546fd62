import MissionScript.Value.Show

/-!
# The characters of written values

A text is written between quotes with some of its characters escaped. A list is written as its items
with commas between them, and so is a dict as its entries.
-/

namespace MissionScript.Value

/-- Characters as they are written between quotes. -/
def escape (quote : Char) (cs : List Char) : List Char :=
  cs.flatMap fun c => (inQuotes quote c).toList

theorem toList_quoteOnto (out s : String) :
    (quoteOnto out s).toList = out.toList ++
      quoteFor s.toList :: (escape (quoteFor s.toList) s.toList ++ [quoteFor s.toList]) := by
  have hfold (quote : Char) (cs : List Char) (o : String) :
      (cs.foldl (fun o c => o ++ inQuotes quote c) o).toList = o.toList ++ escape quote cs := by
    unfold escape
    induction cs generalizing o with
    | nil => simp
    | cons c cs ih => rw [List.foldl_cons, ih]; simp
  simp [quoteOnto, hfold]

/-- Items with commas between them. -/
def commas : List (List Char) → List Char := List.intercalate ", ".toList

theorem commas_cons (p : List Char) (ps : List (List Char)) :
    commas (p :: ps) = p ++ ps.flatMap (", ".toList ++ ·) := by
  induction ps generalizing p with
  | nil => simp [commas]
  | cons q qs ih => rw [commas, List.intercalate_cons_cons, ← commas, ih]; simp

mutual

/-- What is written onto a text comes after it. -/
theorem toList_writtenOnto (out : String) : ∀ v : Value,
    (writtenOnto out v).toList = out.toList ++ v.written.toList
  | none | bool _ | int _ | float _ | list [] | dict [] => by
    simp [written, writtenOnto, writtenItems, writtenEntries]
  | str s => by simp [written, writtenOnto, toList_quoteOnto]
  | list (v :: vs) => by
    rw [written]
    simp [writtenOnto, writtenItems, toList_writtenItems _ vs, toList_writtenOnto _ v]
  | dict ((k, v) :: es) => by
    rw [written]
    simp [writtenOnto, writtenEntries, toList_writtenEntries _ es, toList_writtenOnto _ k,
      toList_writtenOnto _ v]

theorem toList_writtenItems (out : String) : ∀ vs : List Value,
    (writtenItems out false vs).toList
      = out.toList ++ (vs.map (·.written.toList)).flatMap (", ".toList ++ ·)
  | [] => by simp [writtenItems]
  | v :: vs => by
    simp [writtenItems, separator, toList_writtenItems _ vs, toList_writtenOnto _ v]

theorem toList_writtenEntries (out : String) : ∀ es : List (Value × Value),
    (writtenEntries out false es).toList = out.toList ++
      (es.map fun e => e.1.written.toList ++ ": ".toList ++ e.2.written.toList).flatMap
        (", ".toList ++ ·)
  | [] => by simp [writtenEntries]
  | (k, v) :: es => by
    simp [writtenEntries, separator, toList_writtenEntries _ es, toList_writtenOnto _ k,
      toList_writtenOnto _ v]

end

theorem toList_written_str (s : String) :
    (str s).written.toList =
      quoteFor s.toList :: (escape (quoteFor s.toList) s.toList ++ [quoteFor s.toList]) := by
  rw [written, writtenOnto, toList_quoteOnto]
  rfl

theorem toList_intRepr (k : Int) :
    k.repr.toList = (if k < 0 then ['-'] else []) ++ Nat.toDigits 10 k.natAbs := by
  have hdigits (m : Nat) : m.repr.toList = Nat.toDigits 10 m := by
    rw [Nat.repr_eq_ofList_toDigits, String.toList_ofList]
  rcases k with m | m
  · exact hdigits m
  · rw [if_pos (Int.negSucc_lt_zero m)]
    exact String.toList_append.trans (congrArg ('-' :: ·) (hdigits (m + 1)))

theorem toList_written_int (n : Int64) :
    (int n).written.toList =
      (if n.toInt < 0 then ['-'] else []) ++ Nat.toDigits 10 n.toInt.natAbs := by
  simpa [written, writtenOnto] using toList_intRepr n.toInt

theorem toList_written_list (items : List Value) :
    (list items).written.toList = '[' :: (commas (items.map (·.written.toList)) ++ [']']) := by
  cases items with
  | nil => rfl
  | cons v vs =>
    rw [List.map_cons, commas_cons, written]
    simp [writtenOnto, writtenItems, separator, toList_writtenItems, toList_writtenOnto _ v]

theorem toList_written_dict (entries : List (Value × Value)) :
    (dict entries).written.toList = '\x7b' ::
      (commas (entries.map fun e => e.1.written.toList ++ ": ".toList ++ e.2.written.toList)
        ++ ['\x7d']) := by
  cases entries with
  | nil => rfl
  | cons e es =>
    rw [List.map_cons, commas_cons, written]
    simp [writtenOnto, writtenEntries, separator, toList_writtenEntries,
      toList_writtenOnto _ e.1, toList_writtenOnto _ e.2]

end MissionScript.Value
