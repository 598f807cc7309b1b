import Mathlib.Data.List.Basic
import Sema.Toml.Document

/-!
# Texts in rows

A plain document is written in rows: blank ones, headers of tables, and entries with one name and
the text of one value. When every name is bare and every value is read as it is meant
(`Row.IsSound`), reading the text gives what the rows say, row by row (`lines_row`, `lines_rows`),
and so the document that they make up (`parse_rows`).
-/

namespace Sema.Toml

/-! ## 1. Keys without quotes -/

/-- A key that can be written as it stands. -/
def isBare (name : String) : Bool := !name.toList.isEmpty && name.toList.all isBareKey

theorem ne_of_isBareKey {c d : Char} (hc : isBareKey c = true) (hd : isBareKey d = false) :
    c ≠ d := by
  rintro rfl
  rw [hc] at hd
  cases hd

theorem dropBlanks_cons {c : Char} (h : isBlank c = false) (r : List Char) :
    dropBlanks (c :: r) = c :: r :=
  List.dropWhile_cons_of_neg (by simp [h])

theorem isBlank_of_isBareKey {c : Char} (h : isBareKey c = true) : isBlank c = false := by
  have hspace : c ≠ ' ' := ne_of_isBareKey h rfl
  have htab : c ≠ '\t' := ne_of_isBareKey h rfl
  simp [isBlank, hspace, htab]

/-- A bare key begins with a character that begins nothing else. -/
theorem exists_cons_of_isBare {name : String} (h : isBare name = true) :
    ∃ c cs, name.toList = c :: cs ∧ isBareKey c = true := by
  rw [isBare, Bool.and_eq_true] at h
  cases hname : name.toList with
  | nil =>
      rw [hname] at h
      cases h.1
  | cons c cs => exact ⟨c, cs, rfl, List.all_eq_true.mp h.2 c (hname ▸ List.mem_cons_self)⟩

theorem keyPart_bare {name : String} (h : isBare name = true) {d : Char} (hd : isBareKey d = false)
    (r : List Char) : keyPart (name.toList ++ d :: r) = some (name, d :: r) := by
  obtain ⟨c, cs, hname, hc⟩ := exists_cons_of_isBare h
  rw [isBare, Bool.and_eq_true, Bool.not_eq_true', List.all_eq_true] at h
  have htake : (name.toList ++ d :: r).takeWhile isBareKey = name.toList := by
    rw [List.takeWhile_append_of_pos h.2, List.takeWhile_cons_of_neg (by simp [hd]),
      List.append_nil]
  have hdrop : (name.toList ++ d :: r).dropWhile isBareKey = d :: r := by
    rw [List.dropWhile_append_of_pos h.2, List.dropWhile_cons_of_neg (by simp [hd])]
  unfold keyPart
  split
  · rename_i hhead
    rw [hname] at hhead
    exact absurd (List.cons.inj hhead).1 (ne_of_isBareKey hc rfl)
  · rename_i hhead
    rw [hname] at hhead
    exact absurd (List.cons.inj hhead).1 (ne_of_isBareKey hc rfl)
  · simp only [htake, hdrop, h.1, String.ofList_toList, Bool.false_eq_true, if_false]

theorem key_bare {name : String} (h : isBare name = true) {d : Char} (hd : isBareKey d = false)
    {r : List Char} (hdot : (dropBlanks (d :: r)).head? ≠ some '.') :
    key (name.toList ++ d :: r) = some (⟨[], name⟩, dropBlanks (d :: r)) := by
  obtain ⟨c, cs, hname, hc⟩ := exists_cons_of_isBare h
  have hblanks : dropBlanks (name.toList ++ d :: r) = name.toList ++ d :: r := by
    rw [hname]
    exact dropBlanks_cons (isBlank_of_isBareKey hc) _
  rw [key, maxKeyParts, keyOf, hblanks, keyPart_bare h hd]
  simp only [Option.bind_eq_bind, Option.bind_some]
  split
  · rename_i hhead
    rw [hhead] at hdot
    exact absurd rfl hdot
  · rfl

/-! ## 2. Rows -/

/-- A row of a text. An entry comes with the text of its value. -/
inductive Row where
  | blank
  | header (name : String)
  | entry (name : String) (written : List Char) (item : Item)

namespace Row

/-- The text of a row, with the end of its line. -/
def text : Row → List Char
  | blank => ['\n']
  | header name => '[' :: (name.toList ++ [']', '\n'])
  | entry name written _ => name.toList ++ ([' ', '=', ' '] ++ written ++ ['\n'])

/-- What a row says. -/
def lines : Row → List Line
  | blank => []
  | header name => [.table ⟨[], name⟩]
  | entry name _ item => [.entry ⟨⟨[], name⟩, item⟩]

/-- A row that is read as it is meant: its key is bare, and the text of its value is read as the
    item. -/
def IsSound : Row → Prop
  | blank => True
  | header name => isBare name = true
  | entry name written item => isBare name = true ∧ written.head?.any isBlank = false ∧
      ∀ r, value (written ++ '\n' :: r) = some (item, '\n' :: r)

end Row

/-! ## 3. Reading rows -/

theorem tableRest_header {name : String} (h : isBare name = true) (r : List Char) :
    tableRest (name.toList ++ ']' :: '\n' :: r) = some (.table ⟨[], name⟩, r) := by
  unfold tableRest
  rw [key_bare h rfl (by nofun)]
  rfl

theorem entryLine_entry {name : String} {written : List Char} {item : Item}
    (h : (Row.entry name written item).IsSound) (r : List Char) :
    entryLine (name.toList ++ ' ' :: '=' :: ' ' :: (written ++ '\n' :: r)) =
      some (.entry ⟨⟨[], name⟩, item⟩, r) := by
  obtain ⟨hname, hblank, hvalue⟩ := h
  have hdrop : dropBlanks (' ' :: (written ++ '\n' :: r)) = written ++ '\n' :: r := by
    show dropBlanks (written ++ '\n' :: r) = _
    cases written with
    | nil => rfl
    | cons c cs => exact dropBlanks_cons hblank _
  unfold entryLine entry
  rw [key_bare hname rfl (by nofun)]
  show (((value (dropBlanks (' ' :: (written ++ '\n' :: r)))) >>= _) >>= _) = _
  rw [hdrop, hvalue]
  rfl

theorem lines_of_tableRest {cs rest : List Char} {line : Line} (hcs : cs.head? ≠ some '[')
    (h : tableRest cs = some (line, rest)) (fuel : Nat) :
    lines (fuel + 1) ('[' :: cs) = (lines fuel rest).map (line :: ·) := by
  have hdrop : dropBlanks ('[' :: cs) = '[' :: cs := rfl
  rw [lines, hdrop]
  split
  case h_5 r heq =>
    rw [(List.cons.inj heq).2] at hcs
    exact absurd rfl hcs
  case h_6 r _ heq =>
    rw [← (List.cons.inj heq).2, h]
    show (lines fuel rest >>= fun ls => pure (line :: ls)) = _
    cases lines fuel rest <;> rfl
  case h_7 hother => exact (hother cs rfl).elim
  all_goals simp_all

theorem lines_of_entryLine {c : Char} {cs rest : List Char} {line : Line} (hc : isBareKey c = true)
    (h : entryLine (c :: cs) = some (line, rest)) (fuel : Nat) :
    lines (fuel + 1) (c :: cs) = (lines fuel rest).map (line :: ·) := by
  rw [lines, dropBlanks_cons (isBlank_of_isBareKey hc)]
  split
  case h_7 =>
    rw [h]
    show (lines fuel rest >>= fun ls => pure (line :: ls)) = _
    cases lines fuel rest <;> rfl
  case h_1 heq => cases heq
  all_goals
    rename_i heq
    exact absurd (List.cons.inj heq).1 (ne_of_isBareKey hc rfl)

/-- One row: reading it gives what it says, and goes on with what follows. -/
theorem lines_row {row : Row} (h : row.IsSound) (fuel : Nat) (r : List Char) :
    lines (fuel + 1) (row.text ++ r) = (lines fuel r).map (row.lines ++ ·) := by
  cases row with
  | blank =>
      show lines fuel r = (lines fuel r).map id
      rw [Option.map_id, id]
  | header name =>
      obtain ⟨c, cs, hname, hc⟩ := exists_cons_of_isBare h
      -- a second bracket would begin the header of an element
      have hcs : (name.toList ++ ']' :: '\n' :: r).head? ≠ some '[' := by
        rw [hname]
        exact fun heq => ne_of_isBareKey hc rfl (Option.some.inj heq)
      have htext : (Row.header name).text ++ r = '[' :: (name.toList ++ ']' :: '\n' :: r) := by
        simp only [Row.text, List.cons_append, List.append_assoc, List.nil_append]
      rw [htext]
      exact lines_of_tableRest hcs (tableRest_header h r) fuel
  | entry name written item =>
      obtain ⟨c, cs, hname, hc⟩ := exists_cons_of_isBare h.1
      have htext : (Row.entry name written item).text ++ r =
          name.toList ++ ' ' :: '=' :: ' ' :: (written ++ '\n' :: r) := by
        simp only [Row.text, List.cons_append, List.append_assoc, List.nil_append]
      have hentry := entryLine_entry h r
      rw [hname] at hentry
      rw [htext, hname]
      exact lines_of_entryLine hc hentry fuel

/-- A text of rows: reading it gives what the rows say, one after the other. -/
theorem lines_rows {rows : List Row} (h : ∀ row ∈ rows, row.IsSound) {fuel : Nat}
    (hfuel : rows.length < fuel) :
    lines fuel (rows.flatMap Row.text) = some (rows.flatMap Row.lines) := by
  induction rows generalizing fuel with
  | nil =>
      obtain ⟨fuel, rfl⟩ := Nat.exists_eq_add_one_of_ne_zero (Nat.ne_zero_of_lt hfuel)
      rfl
  | cons row rows ih =>
      obtain ⟨fuel, rfl⟩ := Nat.exists_eq_add_one_of_ne_zero (Nat.ne_zero_of_lt hfuel)
      rw [List.flatMap_cons, lines_row (h row List.mem_cons_self),
        ih (fun row hrow => h row (List.mem_cons_of_mem _ hrow)) (Nat.lt_of_succ_lt_succ hfuel)]
      rfl

/-- Every row has a character, so that the length of the text is enough fuel. -/
theorem length_le_length_flatMap_text (rows : List Row) :
    rows.length ≤ (rows.flatMap Row.text).length := by
  induction rows with
  | nil => exact Nat.le_refl 0
  | cons row rows ih =>
      have hrow : 0 < row.text.length := by
        cases row <;> simp only [Row.text, List.length_append, List.length_cons] <;> omega
      rw [List.flatMap_cons, List.length_append, List.length_cons]
      omega

theorem dropByteOrderMark_rows {rows : List Row} (h : ∀ row ∈ rows, row.IsSound) :
    dropByteOrderMark (rows.flatMap Row.text) = rows.flatMap Row.text := by
  have hhead : (rows.flatMap Row.text).head? ≠ some '\ufeff' := by
    cases rows with
    | nil => nofun
    | cons row rows =>
        rw [List.flatMap_cons]
        cases row with
        | blank => nofun
        | header name => nofun
        | entry name written item =>
            obtain ⟨c, cs, hname, hc⟩ := exists_cons_of_isBare (h _ List.mem_cons_self).1
            rw [Row.text, hname]
            exact fun heq => ne_of_isBareKey hc rfl (Option.some.inj heq)
  unfold dropByteOrderMark
  split
  · rename_i heq
    rw [heq] at hhead
    exact absurd rfl hhead
  · rfl

/-- **A text of sound rows is read as the document that the rows make up.** -/
theorem parse_rows {rows : List Row} (h : ∀ row ∈ rows, row.IsSound) :
    parse (String.ofList (rows.flatMap Row.text)) = assemble (rows.flatMap Row.lines) := by
  have hfuel := Nat.lt_succ_of_le (length_le_length_flatMap_text rows)
  unfold parse
  rw [String.toList_ofList, dropByteOrderMark_rows h]
  dsimp only
  rw [lines_rows h hfuel]
  rfl

end Sema.Toml
