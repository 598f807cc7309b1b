import Sema.Proofs.Blame
import Sema.Proofs.Surviving

/-!
# Spellings are unambiguous

The spelling of a type has no brackets around the result of a function and no blanks, and it is put
into messages without quotes. Still it can be read back, whatever follows it
(`Ty.eq_of_text_append`):

* the first letter of a spelling tells the kind of the type (`Ty.initial`);
* after a type inside a list of parameters stands a comma or the bracket that closes the list, and
  no type starts with either.

So the message about a misfit shows which two types do not fit (`Problem.eq_notAssignable`), and
since every type fits itself, it never shows one spelling twice.
-/

namespace Sema

namespace Ty

/-! ## 1. Letters -/

/-- The first letter of the spelling of a type. -/
def initial : Ty → Char
  | bool => 'b'
  | int => 'i'
  | float => 'f'
  | str => 's'
  | void => 'v'
  | type => 't'
  | any => 'a'
  | list _ => '['
  | function _ _ => '('

theorem toList_text_list (a : Ty) : (list a).text.toList = '[' :: (a.text.toList ++ [']']) := by
  rw [text, String.toList_append, String.toList_append]
  rfl

theorem toList_text_function (ps : List Ty) (r : Ty) :
    (function ps r).text.toList =
      '(' :: ((texts ps).toList ++ ')' :: '-' :: '>' :: r.text.toList) := by
  rw [text, String.toList_append, String.toList_append, String.toList_append, List.append_assoc]
  simp

theorem toList_textsAfter_cons (a : Ty) (as : List Ty) :
    (textsAfter (a :: as)).toList = ',' :: (a.text.toList ++ (textsAfter as).toList) := by
  rw [textsAfter, String.append_assoc, String.toList_append, String.toList_append]
  rfl

theorem exists_toList_text (a : Ty) : ∃ rest, a.text.toList = a.initial :: rest := by
  cases a with
  | list a => exact ⟨_, toList_text_list a⟩
  | function ps r => exact ⟨_, toList_text_function ps r⟩
  | _ => exact ⟨_, rfl⟩

theorem initial_eq {a b : Ty} {s t : List Char} (h : a.text.toList ++ s = b.text.toList ++ t) :
    a.initial = b.initial := by
  obtain ⟨l, hl⟩ := a.exists_toList_text
  obtain ⟨m, hm⟩ := b.exists_toList_text
  rw [hl, hm] at h
  exact (List.cons.inj h).1

/-- A list of parameters that is not empty does not start with the bracket that closes it. -/
theorem texts_cons_ne (a : Ty) (as : List Ty) (s t : List Char) :
    (texts (a :: as)).toList ++ s ≠ ')' :: t := by
  intro h
  obtain ⟨l, hl⟩ := a.exists_toList_text
  rw [texts, String.toList_append, hl] at h
  have hinitial : a.initial = ')' := (List.cons.inj h).1
  cases a <;> simp [initial] at hinitial

/-! ## 2. Reading back -/

mutual

/-- **A spelling can be read back, whatever follows it.** The recursion is on the first type; that
    the second one is of the same kind is known from its first letter. -/
theorem eq_of_text_append : ∀ (a b : Ty) {s t : List Char},
    a.text.toList ++ s = b.text.toList ++ t → a = b ∧ s = t
  | list a, b, s, t, h => by
      have hinitial := initial_eq h
      cases b with
      | list b =>
          simp only [toList_text_list, List.cons_append, List.append_assoc] at h
          obtain ⟨rfl, hrest⟩ := eq_of_text_append a b (List.cons.inj h).2
          exact ⟨rfl, (List.cons.inj hrest).2⟩
      | _ => simp [initial] at hinitial
  | function ps r, b, s, t, h => by
      have hinitial := initial_eq h
      cases b with
      | function qs u =>
          simp only [toList_text_function, List.cons_append, List.append_assoc] at h
          obtain ⟨rfl, hresult⟩ := eq_of_texts_append ps qs (List.cons.inj h).2
          have harrow := (List.cons.inj (List.cons.inj hresult).2).2
          obtain ⟨rfl, hrest⟩ := eq_of_text_append r u harrow
          exact ⟨rfl, hrest⟩
      | _ => simp [initial] at hinitial
  | bool, b, s, t, h | int, b, s, t, h | float, b, s, t, h | str, b, s, t, h
  | void, b, s, t, h | type, b, s, t, h | any, b, s, t, h => by
      have hinitial := initial_eq h
      cases b <;> simp [initial] at hinitial
      exact ⟨rfl, List.append_cancel_left h⟩

/-- A list of parameters can be read back up to the bracket that closes it. -/
theorem eq_of_texts_append : ∀ (as bs : List Ty) {s t : List Char},
    (texts as).toList ++ ')' :: s = (texts bs).toList ++ ')' :: t → as = bs ∧ s = t
  | [], [], _, _, h => ⟨rfl, (List.cons.inj h).2⟩
  | [], b :: bs, _, _, h => absurd h.symm (texts_cons_ne b bs _ _)
  | a :: as, [], _, _, h => absurd h (texts_cons_ne a as _ _)
  | a :: as, b :: bs, s, t, h => by
      simp only [texts, String.toList_append, List.append_assoc] at h
      obtain ⟨rfl, hrest⟩ := eq_of_text_append a b h
      obtain ⟨rfl, hend⟩ := eq_of_textsAfter_append as bs hrest
      exact ⟨rfl, hend⟩

theorem eq_of_textsAfter_append : ∀ (as bs : List Ty) {s t : List Char},
    (textsAfter as).toList ++ ')' :: s = (textsAfter bs).toList ++ ')' :: t → as = bs ∧ s = t
  | [], [], _, _, h => ⟨rfl, (List.cons.inj h).2⟩
  | [], b :: bs, _, _, h => by
      rw [toList_textsAfter_cons] at h
      cases (List.cons.inj h).1
  | a :: as, [], _, _, h => by
      rw [toList_textsAfter_cons] at h
      cases (List.cons.inj h).1
  | a :: as, b :: bs, s, t, h => by
      simp only [toList_textsAfter_cons, List.cons_append, List.append_assoc] at h
      obtain ⟨rfl, hrest⟩ := eq_of_text_append a b (List.cons.inj h).2
      obtain ⟨rfl, hend⟩ := eq_of_textsAfter_append as bs hrest
      exact ⟨rfl, hend⟩

end

theorem text_append_inj {a b : Ty} {s t : String} (h : a.text ++ s = b.text ++ t) :
    a = b ∧ s = t := by
  have hletters := congrArg String.toList h
  rw [String.toList_append, String.toList_append] at hletters
  obtain ⟨hab, hst⟩ := eq_of_text_append a b hletters
  exact ⟨hab, String.toList_injective hst⟩

theorem text_injective : Function.Injective text := by
  intro a b h
  have hnothing : a.text ++ "" = b.text ++ "" := by rw [h]
  exact (text_append_inj hnothing).1

end Ty

/-! ## 3. Messages about misfits -/

/-- **The message about a misfit shows the two types**, and no other problem has such a message. -/
theorem Problem.eq_notAssignable {p : Problem} {a b : Ty} (hp : ∀ reason, p ≠ .fault reason)
    (h : p.message = "Cannot assign a " ++ a.text ++ " to a " ++ b.text) :
    p = .notAssignable a b := by
  have hkind : p.wording = .other := by
    rw [← Wording.ofText_message hp, h]
    exact Wording.ofText_message (p := .notAssignable a b) nofun
  have hletters : p.message.toList.take 15 = "Cannot assign a".toList := by
    rw [h, String.append_assoc, String.append_assoc, String.toList_append]
    rfl
  cases p with
  | notAssignable u v =>
      have htexts : "Cannot assign a " ++ u.text ++ " to a " ++ v.text =
          "Cannot assign a " ++ a.text ++ " to a " ++ b.text := h
      simp only [String.append_assoc, String.append_right_inj] at htexts
      obtain ⟨rfl, hrest⟩ := Ty.text_append_inj htexts
      rw [Ty.text_injective ((String.append_right_inj _).mp hrest)]
  | numberExpected t | numberOrStringExpected t | boolExpected t | integerExpected t
  | constantTarget x =>
      change (_ ++ _ : String).toList.take 15 = _ at hletters
      rw [String.toList_append, List.take_append_of_le_length (by decide)] at hletters
      exact absurd hletters (by decide)
  | listExpected | operandsDiffer | elementsDiffer | untypedList | variableExpected
  | notCallable => exact absurd hletters (by decide)
  | fault reason => exact absurd rfl (hp reason)
  | _ => cases hkind

section

variable {c : Catalog} {p : Program} {d : Diagnostic} {a b : Ty}

/-- A misfit is reported of types that do not fit. -/
theorem not_assignable_of_analyze (h : (analyze c p).result = .error d)
    (hd : d.problem = .notAssignable a b) : ¬ Ty.Assignable a b := by
  by_cases hnames : c.names.Nodup
  · obtain ⟨i, s, n, -, -, -, -, -, -, hguilty⟩ := blamesNode_of_nodup hnames h
    obtain ⟨q, stmt, σ, there, f, -, -, -, -, -, -, hfault⟩ := hguilty
    rw [hd] at hfault
    rcases hfault with hmisplaced | hmistyped
    · cases hmisplaced
    · cases hmistyped with
      | argument _ _ _ _ _ misfit | assign _ _ misfit | returned _ _ misfit => exact misfit
  · obtain ⟨name, hname⟩ := result_analyze_of_not_nodup hnames p
    rw [hname] at h
    cases h
    cases hd

/-- A session that has run programs goes on as after one program that is accepted. -/
theorem Session.Reached.exists_tracks {s : Session} (h : s.Reached c) :
    c.names.Nodup ∧ ∃ (q : Program) (R : Resolved.Program) (f : Session) (σ : Identity → Identity)
      (k : Nat), (Stmt.checkAll q).Yields (Session.loaded c) R f ∧ Session.Tracks c σ k f s := by
  induction h with
  | opened h =>
      obtain ⟨hnames, rfl⟩ := Session.open?_eq_ok_iff.mp h
      exact ⟨hnames, [], [], _, id, 0, ⟨rfl, rfl⟩, Session.tracks_loaded c⟩
  | @step t _ p ih =>
      obtain ⟨hnames, q, R, f, σ, k, hq, htracks⟩ := ih
      obtain ⟨R', f', σ', k', hstep, htracks'⟩ := htracks.step p
      exact ⟨hnames, q ++ surviving t p, R ++ R', f', σ', k', Stmt.yields_append hq hstep, htracks'⟩

/-- Whatever a session reports, the analysis of one program reports too. -/
theorem Session.Reached.exists_analyze {s : Session} (h : s.Reached c)
    (hd : (s.step p).result = .error d) : ∃ q, (analyze c q).result = .error d := by
  obtain ⟨hnames, q, R, f, σ, k, hq, htracks⟩ := h.exists_tracks
  have hmirror := (Stmt.mirrors_checkAll p f s htracks.renamed).2
  have hf : ((Stmt.checkAll p).run f).result = .error d := by
    rw [show ((Stmt.checkAll p).run s).result = .error d from hd] at hmirror
    cases hr : ((Stmt.checkAll p).run f).result with
    | error e =>
        rw [hr] at hmirror
        cases hmirror
        rfl
    | ok S =>
        rw [hr] at hmirror
        cases hmirror
  refine ⟨q ++ p, ?_⟩
  rw [result_analyze_of_nodup hnames]
  show ((Stmt.checkAll (q ++ p)).run _).result = _
  rw [(Stmt.run_append hq p).1, hf]
  rfl

/-- The message about a misfit never shows one spelling twice. -/
theorem misfit_texts_differ (h : (analyze c p).result = .error d)
    (hmessage : d.report.message = "Cannot assign a " ++ a.text ++ " to a " ++ b.text) :
    d.problem = .notAssignable a b ∧ a.text ≠ b.text := by
  have hfault : ∀ reason, d.problem ≠ .fault reason := by
    intro reason hreason
    exact analyze_ne_fault c p reason d.span (by rw [h, ← hreason])
  have hproblem := Problem.eq_notAssignable hfault hmessage
  refine ⟨hproblem, fun htexts => ?_⟩
  obtain rfl := Ty.text_injective htexts
  exact not_assignable_of_analyze h hproblem (.refl a)

end

/-- **Spellings are unambiguous.** No spelling is the start of another one, whatever follows; so
    types with one spelling are equal. A diagnostic that says that a value cannot be assigned is
    about the two types that it spells, and it spells them differently: in the analysis of a
    program, and in every session. -/
theorem text_is_unambiguous :
    (∀ (a b : Ty) (s t : String), a.text ++ s = b.text ++ t → a = b ∧ s = t) ∧
    (∀ a b : Ty, a.text = b.text → a = b) ∧
    (∀ a b : Ty, a.text.toList <+: b.text.toList → a = b) ∧
    (∀ (c : Catalog) (p : Program) (d : Diagnostic) (a b : Ty), (analyze c p).result = .error d →
      d.report.message = "Cannot assign a " ++ a.text ++ " to a " ++ b.text →
        d.problem = .notAssignable a b ∧ a.text ≠ b.text) ∧
    (∀ (c : Catalog) (s : Session) (p : Program) (d : Diagnostic) (a b : Ty), s.Reached c →
      (s.step p).result = .error d →
      d.report.message = "Cannot assign a " ++ a.text ++ " to a " ++ b.text →
        d.problem = .notAssignable a b ∧ a.text ≠ b.text) := by
  refine ⟨fun a b s t => Ty.text_append_inj, fun a b h => Ty.text_injective h, fun a b h => ?_,
    fun c p d a b => misfit_texts_differ, fun c s p d a b hs hd hmessage => ?_⟩
  · obtain ⟨rest, hrest⟩ := h
    have hnothing : a.text.toList ++ rest = b.text.toList ++ [] := by rw [hrest, List.append_nil]
    exact (Ty.eq_of_text_append a b hnothing).1
  · obtain ⟨q, hq⟩ := hs.exists_analyze hd
    exact misfit_texts_differ hq hmessage

/-- A function that takes a callback is called with a function that yields a function, where one
    that yields a list of functions is expected. -/
def wrongCallback : Program :=
  [.function "f"
    [⟨"g", .function [] (.list (.function [] (.named "int" .origin) .origin) .origin) .origin,
      .origin⟩] none [] .origin,
   .function "h" [] (some (.function [] (.named "int" .origin) .origin)) [] .origin,
   .eval (.call (.name "f" .origin) [.name "h" .origin] .origin) .origin]

/-- The two spellings in the message differ by brackets alone. -/
theorem text_is_unambiguous_wrongCallback :
    ∃ d, (analyze .standard wrongCallback).result = .error d ∧
      d.report.message = "Cannot assign a ()->()->int to a ()->[()->int]" ∧
      (Ty.function [] (.function [] .int)).text ≠
        (Ty.function [] (.list (.function [] .int))).text := by
  have herror : (analyze .standard wrongCallback).result =
      .error ⟨.notAssignable (.function [] (.function [] .int))
        (.function [] (.list (.function [] .int))), some .origin⟩ := rfl
  obtain ⟨-, -, -, hdiffer, -⟩ := text_is_unambiguous
  exact ⟨_, herror, by decide, (hdiffer .standard wrongCallback _ _ _ herror rfl).2⟩

end Sema
