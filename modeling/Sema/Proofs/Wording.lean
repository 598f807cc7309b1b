import Sema.Proofs.Points

/-!
# What a message says

A diagnostic is shown as a message. Where the message quotes no type, it can be read back: the first
letters tell what kind of problem it is (`Wording.ofText_message`), and the names or numbers in it
are those of the problem. `Diagnostic.Reads` lists the messages and the problems that they stand
for.
-/

namespace Sema

/-! ## 1. Kinds of messages -/

/-- What the first letters of a message tell. -/
inductive Wording where
  | name
  | type
  | exit
  | outside
  | returned
  | missing
  | number
  | other

/-- The kind of a message, by its first letters. Several kinds start with the word *Cannot*; the
    letter after it tells them apart. -/
def Wording.ofText : List Char → Wording
  | 'I' :: _ => .name
  | 'T' :: _ => .type
  | 'B' :: _ => .exit
  | 'R' :: _ => .outside
  | 'S' :: _ => .missing
  | 'C' :: _ :: _ :: _ :: _ :: _ :: _ :: 'r' :: _ => .returned
  | c :: _ => if c.isDigit then .number else .other
  | [] => .other

/-- The kind of the message of a problem. -/
def Problem.wording : Problem → Wording
  | .notDeclared _ | .alreadyDeclared _ => .name
  | .typeExpected => .type
  | .exitOutsideLoop => .exit
  | .returnOutsideFunction => .outside
  | .valueReturned => .returned
  | .valueMissing => .missing
  | .wrongArity _ _ => .number
  | _ => .other

/-- A message that starts with a number is told by it. -/
theorem Wording.ofText_digit {c : Char} {cs : List Char} (h : c.isDigit = true) :
    Wording.ofText (c :: cs) = .number := by
  unfold Wording.ofText
  split
  case h_7 heq =>
    cases heq
    rw [if_pos h]
  case h_8 heq => cases heq
  all_goals
    rename_i heq
    cases heq
    exact absurd h (by decide)

/-- **The first letters of a message tell its kind.** -/
theorem Wording.ofText_message {p : Problem} (hp : ∀ reason, p ≠ .fault reason) :
    Wording.ofText p.message.toList = p.wording := by
  cases p with
  | fault reason => exact absurd rfl (hp reason)
  | notDeclared x | alreadyDeclared x =>
      change Wording.ofText (_ ++ _ ++ _ : String).toList = _
      rw [String.toList_append, String.toList_append]
      rfl
  | notAssignable source target =>
      change Wording.ofText (_ ++ _ ++ _ ++ _ : String).toList = _
      rw [String.toList_append, String.toList_append, String.toList_append]
      rfl
  | numberExpected t | numberOrStringExpected t | boolExpected t | integerExpected t
  | constantTarget x =>
      change Wording.ofText (_ ++ _ : String).toList = _
      rw [String.toList_append]
      rfl
  | wrongArity m n =>
      obtain ⟨c, cs, hcs⟩ := List.exists_cons_of_ne_nil (Nat.toDigits_ne_nil (n := m) (b := 10))
      have hc : c.isDigit = true :=
        Nat.isDigit_of_mem_toDigits (b := 10) (n := m) (by omega) (by omega)
          (hcs ▸ List.mem_cons_self)
      have htext : (toString m).toList = c :: cs := by
        rw [← hcs]
        exact Nat.toList_repr
      change Wording.ofText (toString m ++ _ ++ _ ++ _).toList = _
      rw [String.append_assoc, String.append_assoc, String.toList_append, htext, List.cons_append,
        Wording.ofText_digit hc]
      rfl
  | _ => rfl

/-! ## 2. Names and numbers in messages -/

theorem Problem.message_notDeclared_ne (x y : String) :
    (Problem.notDeclared x).message ≠ (Problem.alreadyDeclared y).message := by
  intro h
  have hlist : ("Identifier " ++ x ++ " not declared").toList =
      ("Identifier " ++ y ++ " already declared").toList := congrArg String.toList h
  rw [String.toList_append, String.toList_append (t := " already declared")] at hlist
  -- seen from the end, the tenth letters differ
  have hletter := congrArg (fun l => l.reverse[9]?) hlist
  simp only [List.reverse_append] at hletter
  rw [List.getElem?_append_left (by decide), List.getElem?_append_left (by decide)] at hletter
  exact absurd hletter (by decide)

theorem toString_inj {m n : Nat} (h : toString m = toString n) : m = n := by
  have hdigits : Nat.toDigits 10 m = Nat.toDigits 10 n := by
    rw [← Nat.toList_repr, ← Nat.toList_repr]
    exact congrArg String.toList h
  rw [← Nat.ofDigitChars_toDigits (b := 10) (n := m) (by omega) (by omega), hdigits,
    Nat.ofDigitChars_toDigits (by omega) (by omega)]

/-- A number in front of a blank can be read back. -/
theorem toString_blank_inj {m n : Nat} {s t : String}
    (h : toString m ++ (" " ++ s) = toString n ++ (" " ++ t)) : m = n ∧ s = t := by
  have digits : ∀ (k : Nat) (u : String),
      (toString k ++ (" " ++ u)).toList.takeWhile Char.isDigit = (toString k).toList := by
    intro k u
    have hdigit : ∀ c ∈ (toString k).toList, c.isDigit = true := by
      intro c hc
      have hc : c ∈ k.repr.toList := hc
      rw [Nat.toList_repr] at hc
      exact Nat.isDigit_of_mem_toDigits (by omega) (by omega) hc
    rw [String.toList_append, List.takeWhile_append_of_pos hdigit, String.toList_append]
    exact List.append_nil _
  have htext : toString m = toString n := by
    have htake := congrArg (fun u => u.toList.takeWhile Char.isDigit) h
    simp only [digits] at htake
    exact String.toList_injective htake
  have hm : m = n := toString_inj htext
  subst hm
  exact ⟨rfl, (String.append_right_inj _).mp ((String.append_right_inj _).mp h)⟩

theorem Problem.message_wrongArity_inj {m n m' n' : Nat}
    (h : (Problem.wrongArity m n).message = (Problem.wrongArity m' n').message) :
    m = m' ∧ n = n' := by
  have split : ∀ k l : Nat, (Problem.wrongArity k l).message =
      toString k ++ (" " ++ ("argument(s) required but " ++ (toString l ++ " passed"))) := by
    intro k l
    have hblank : " argument(s) required but " = " " ++ "argument(s) required but " := rfl
    show toString k ++ " argument(s) required but " ++ toString l ++ " passed" = _
    rw [hblank, String.append_assoc, String.append_assoc, String.append_assoc]
  rw [split, split] at h
  obtain ⟨hm, hrest⟩ := toString_blank_inj h
  have hn : toString n = toString n' :=
    (String.append_left_inj _).mp ((String.append_right_inj _).mp hrest)
  exact ⟨hm, toString_inj hn⟩

/-! ## 3. Messages that can be read back -/

/-- What the messages without types stand for. -/
structure Diagnostic.Reads (d : Diagnostic) : Prop where
  notDeclared : ∀ x, d.report.message = "Identifier " ++ x ++ " not declared" →
    d.problem = .notDeclared x
  alreadyDeclared : ∀ x, d.report.message = "Identifier " ++ x ++ " already declared" →
    d.problem = .alreadyDeclared x
  typeExpected : d.report.message = "Type expected" → d.problem = .typeExpected
  exitOutsideLoop : d.report.message = "Break can only appear in a loop" →
    d.problem = .exitOutsideLoop
  returnOutsideFunction : d.report.message = "Return can only appear in a function" →
    d.problem = .returnOutsideFunction
  valueReturned : d.report.message = "Cannot return a value here" → d.problem = .valueReturned
  valueMissing : d.report.message = "Something should be returned here" →
    d.problem = .valueMissing
  wrongArity : ∀ m n, d.report.message =
      toString m ++ " argument(s) required but " ++ toString n ++ " passed" →
    d.problem = .wrongArity m n

/-- A problem with the message of another one that is told by its first letters is that one. -/
theorem Problem.eq_of_message_eq {p q : Problem} (hp : ∀ reason, p ≠ .fault reason)
    (hq : q.wording ≠ .other) (h : p.message = q.message) : p = q := by
  have hqf : ∀ reason, q ≠ .fault reason := by
    rintro reason rfl
    exact hq rfl
  have hkind : p.wording = q.wording := by
    rw [← Wording.ofText_message hp, ← Wording.ofText_message hqf, h]
  cases q with
  | notDeclared x =>
      cases p with
      | notDeclared y =>
          have hxy := (String.append_right_inj _).mp ((String.append_left_inj _).mp h)
          rw [hxy]
      | alreadyDeclared y => exact absurd h.symm (Problem.message_notDeclared_ne x y)
      | _ => cases hkind
  | alreadyDeclared x =>
      cases p with
      | notDeclared y => exact absurd h (Problem.message_notDeclared_ne y x)
      | alreadyDeclared y =>
          have hxy := (String.append_right_inj _).mp ((String.append_left_inj _).mp h)
          rw [hxy]
      | _ => cases hkind
  | wrongArity m n =>
      cases p with
      | wrongArity m' n' =>
          obtain ⟨hm, hn⟩ := Problem.message_wrongArity_inj h
          rw [hm, hn]
      | _ => cases hkind
  | typeExpected | exitOutsideLoop | returnOutsideFunction | valueReturned | valueMissing =>
      cases p with
      | typeExpected | exitOutsideLoop | returnOutsideFunction | valueReturned | valueMissing =>
          first
          | rfl
          | cases hkind
      | _ => cases hkind
  | _ => exact absurd rfl hq

/-- **A message that quotes no type can be read back.** -/
theorem Diagnostic.reads {d : Diagnostic} (h : ∀ reason, d.problem ≠ .fault reason) : d.Reads where
  notDeclared x := Problem.eq_of_message_eq (q := .notDeclared x) h nofun
  alreadyDeclared x := Problem.eq_of_message_eq (q := .alreadyDeclared x) h nofun
  typeExpected := Problem.eq_of_message_eq (q := .typeExpected) h nofun
  exitOutsideLoop := Problem.eq_of_message_eq (q := .exitOutsideLoop) h nofun
  returnOutsideFunction := Problem.eq_of_message_eq (q := .returnOutsideFunction) h nofun
  valueReturned := Problem.eq_of_message_eq (q := .valueReturned) h nofun
  valueMissing := Problem.eq_of_message_eq (q := .valueMissing) h nofun
  wrongArity m n := Problem.eq_of_message_eq (q := .wrongArity m n) h nofun

end Sema
