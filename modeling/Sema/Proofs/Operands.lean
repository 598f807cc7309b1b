import Sema.Proofs.Arrangement

/-!
# The order of operands in a program

An arrangement of the operands of a program commutes with its resolution
(`Stmt.elaboratesAll_arrange`), because the rules for statements look only at the types of
expressions and at names. So it commutes with the analysis, as far as programs are accepted: the
types, the declarations and their numbers stay, and every expression is found where the arrangement
has moved it (`Resolved.Focus.at?_arrange`).
-/

namespace Sema

/-! ## 1. Statements -/

namespace Resolved

variable (π : Arrangement)

theorem Stmt.after_arrange (here : Place) (r : Stmt) (Γ : Env) :
    Γ.after (r.arrange π here) = Γ.after r := by
  cases r <;> rfl

theorem Stmt.slot?_arrange (here : Place) (r : Stmt) (slot : Slot) :
    (r.arrange π here).slot? slot = r.slot? slot := by
  cases r <;> cases slot <;> rfl

mutual

theorem Stmt.declared_arrange (here : Place) : ∀ r : Stmt, (r.arrange π here).declared = r.declared
  | .function f ps body => by
      rw [Stmt.arrange, Stmt.declared, Stmt.declared,
        Stmt.declaredAll_arrange (.body :: here) 0 body]
  | .branch b => by
      rw [Stmt.arrange, Stmt.declared, Stmt.declared, b.declared_arrange (.branch :: here)]
  | .whileLoop test body => by
      rw [Stmt.arrange, Stmt.declared, Stmt.declared,
        Stmt.declaredAll_arrange (.body :: here) 0 body]
  | .forEach v collection body => by
      rw [Stmt.arrange, Stmt.declared, Stmt.declared,
        Stmt.declaredAll_arrange (.body :: here) 0 body]
  | .declare _ _ | .step _ _ | .assign _ _ | .exitLoop | .returnValue _ | .returnNothing
  | .eval _ => rfl

theorem Branch.declared_arrange (here : Place) : ∀ b : Branch,
    (b.arrange π here).declared = b.declared
  | .mk test consequent alternate => by
      rw [Branch.arrange, Branch.declared, Branch.declared,
        Stmt.declaredAll_arrange (.consequent :: here) 0 consequent,
        alternate.declared_arrange (.alternate :: here)]

theorem Alternate.declared_arrange (here : Place) : ∀ a : Alternate,
    (a.arrange π here).declared = a.declared
  | .none => rfl
  | .block body => by
      rw [Alternate.arrange, Alternate.declared, Alternate.declared,
        Stmt.declaredAll_arrange here 0 body]
  | .elseIf next => by
      rw [Alternate.arrange, Alternate.declared, Alternate.declared, next.declared_arrange here]

/-- The declarations stay, with their order. -/
theorem Stmt.declaredAll_arrange (here : Place) (i : Nat) : ∀ rs : List Stmt,
    Stmt.declaredAll (Stmt.arrangeAll π here i rs) = Stmt.declaredAll rs
  | [] => rfl
  | r :: rs => by
      rw [Stmt.arrangeAll, Stmt.declaredAll, Stmt.declaredAll, r.declared_arrange (.item i :: here),
        Stmt.declaredAll_arrange here (i + 1) rs]

end

end Resolved

section

variable {π : Arrangement}

/-- The arrangement commutes with the resolution of a statement. -/
def Stmt.Arranges (π : Arrangement) (here : Place) (s : Stmt) : Prop :=
  ∀ (Γ : Env) (q : Resolved.Stmt),
    (s.arrange π here).Elaborates Γ q ↔ ∃ r, s.Elaborates Γ r ∧ q = r.arrange π here

/-- It commutes with the resolution of the statements of a block. -/
def Stmt.ArrangesAll (π : Arrangement) (here : Place) (ss : List Stmt) : Prop :=
  ∀ (Γ : Env) (qs : List Resolved.Stmt), Stmt.ElaboratesAll Γ (Stmt.arrangeAll π here 0 ss) qs ↔
    ∃ rs, Stmt.ElaboratesAll Γ ss rs ∧ qs = Resolved.Stmt.arrangeAll π here 0 rs

section

variable {here : Place} {span : Span}

theorem Stmt.arranges_declare {x : String} {readOnly : Bool} {init : Expr} :
    (Stmt.declare x readOnly init span).Arranges π here := by
  intro Γ q
  rw [Stmt.arrange]
  constructor
  · intro h
    cases h with
    | @declare _ _ _ _ _ i _ hr free =>
        obtain ⟨r, hr', rfl⟩ := (init.elaborates_arrange _ _).mp hr
        refine ⟨_, .declare (i := i) hr' free, ?_⟩
        rw [Resolved.Expr.ty_arrange]
        rfl
  · intro ⟨r, h, hq⟩
    subst hq
    cases h with
    | @declare _ _ _ _ _ i r hr free =>
        rw [Resolved.Stmt.arrange, ← Resolved.Expr.ty_arrange π (.part 0 :: here) r]
        exact .declare (hr.arrange π (.part 0 :: here)) free

theorem Stmt.arranges_function {name : String} {parameters : List Parameter}
    {result : Option TypeExpr} {body : List Stmt}
    (hbody : Stmt.ArrangesAll π (.body :: here) body) :
    (Stmt.function name parameters result body span).Arranges π here := by
  intro Γ q
  rw [Stmt.arrange]
  constructor
  · intro h
    cases h with
    | function ht hds free hf hrs =>
        obtain ⟨rs, hrs', rfl⟩ := (hbody _ _).mp hrs
        exact ⟨_, .function ht hds free hf hrs', rfl⟩
  · intro ⟨r, h, hq⟩
    subst hq
    cases h with
    | @function _ _ _ _ _ _ _ _ _ _ rs ht hds free hf hrs =>
        have hrs' := (hbody _ _).mpr ⟨rs, hrs, rfl⟩
        exact .function ht hds free hf hrs'

theorem Stmt.arranges_step {dir : Step} {target : Expr} :
    (Stmt.step dir target span).Arranges π here := by
  intro Γ q
  rw [Stmt.arrange]
  constructor
  · intro h
    cases h with
    | step hr isInt countable writable =>
        obtain ⟨r, hr', rfl⟩ := (target.elaborates_arrange _ _).mp hr
        rw [Resolved.Expr.ty_arrange] at isInt
        rw [Resolved.Expr.countable_arrange] at countable
        rw [Resolved.Expr.writable_arrange] at writable
        exact ⟨_, .step hr' isInt countable writable, rfl⟩
  · intro ⟨r, h, hq⟩
    subst hq
    cases h with
    | @step _ _ _ _ r hr isInt countable writable =>
        have hr' := hr.arrange π (.part 0 :: here)
        rw [← Resolved.Expr.ty_arrange π (.part 0 :: here)] at isInt
        rw [← Resolved.Expr.countable_arrange π (.part 0 :: here)] at countable
        rw [← Resolved.Expr.writable_arrange π (.part 0 :: here)] at writable
        exact .step hr' isInt countable writable

theorem Stmt.arranges_assign {target source : Expr} :
    (Stmt.assign target source span).Arranges π here := by
  intro Γ q
  rw [Stmt.arrange]
  constructor
  · intro h
    cases h with
    | assign hplace hvalue assignable writable =>
        obtain ⟨place, hplace', rfl⟩ := (target.elaborates_arrange _ _).mp hplace
        obtain ⟨value, hvalue', rfl⟩ := (source.elaborates_arrange _ _).mp hvalue
        rw [Resolved.Expr.ty_arrange, Resolved.Expr.ty_arrange] at assignable
        rw [Resolved.Expr.writable_arrange] at writable
        exact ⟨_, .assign hplace' hvalue' assignable writable, rfl⟩
  · intro ⟨r, h, hq⟩
    subst hq
    cases h with
    | @assign _ _ _ _ place value hplace hvalue assignable writable =>
        have hplace' := hplace.arrange π (.part 0 :: here)
        have hvalue' := hvalue.arrange π (.part 1 :: here)
        rw [← Resolved.Expr.writable_arrange π (.part 0 :: here)] at writable
        exact .assign hplace' hvalue' (by simpa) writable

theorem Stmt.arranges_returnValue {value : Expr} :
    (Stmt.returnValue value span).Arranges π here := by
  intro Γ q
  rw [Stmt.arrange]
  constructor
  · intro h
    cases h with
    | returnValue inside yields hr assignable =>
        obtain ⟨r, hr', rfl⟩ := (value.elaborates_arrange _ _).mp hr
        rw [Resolved.Expr.ty_arrange] at assignable
        exact ⟨_, .returnValue inside yields hr' assignable, rfl⟩
  · intro ⟨r, h, hq⟩
    subst hq
    cases h with
    | @returnValue _ _ _ _ r inside yields hr assignable =>
        have hr' := hr.arrange π (.part 0 :: here)
        exact .returnValue inside yields hr' (by simpa)

theorem Stmt.arranges_whileLoop {test : Expr} {body : List Stmt}
    (hbody : Stmt.ArrangesAll π (.body :: here) body) :
    (Stmt.whileLoop test body span).Arranges π here := by
  intro Γ q
  rw [Stmt.arrange]
  constructor
  · intro h
    cases h with
    | whileLoop ht isBool hrs =>
        obtain ⟨t, ht', rfl⟩ := (test.elaborates_arrange _ _).mp ht
        obtain ⟨rs, hrs', rfl⟩ := (hbody _ _).mp hrs
        rw [Resolved.Expr.ty_arrange] at isBool
        exact ⟨_, .whileLoop ht' isBool hrs', rfl⟩
  · intro ⟨r, h, hq⟩
    subst hq
    cases h with
    | @whileLoop _ _ _ _ t rs ht isBool hrs =>
        have ht' := ht.arrange π (.part 0 :: here)
        have hrs' := (hbody _ _).mpr ⟨rs, hrs, rfl⟩
        exact .whileLoop ht' (by simpa) hrs'

theorem Stmt.arranges_forEach {x : String} {collection : Expr} {body : List Stmt}
    (hbody : Stmt.ArrangesAll π (.body :: here) body) :
    (Stmt.forEach x collection body span).Arranges π here := by
  intro Γ q
  rw [Stmt.arrange]
  constructor
  · intro h
    cases h with
    | forEach hr isList hrs =>
        obtain ⟨r, hr', rfl⟩ := (collection.elaborates_arrange _ _).mp hr
        obtain ⟨rs, hrs', rfl⟩ := (hbody _ _).mp hrs
        rw [Resolved.Expr.ty_arrange] at isList
        exact ⟨_, .forEach hr' isList hrs', rfl⟩
  · intro ⟨r, h, hq⟩
    subst hq
    cases h with
    | @forEach _ _ _ _ _ _ r _ rs hr isList hrs =>
        have hr' := hr.arrange π (.part 0 :: here)
        have hrs' := (hbody _ _).mpr ⟨rs, hrs, rfl⟩
        exact .forEach hr' (by simpa) hrs'

end

mutual

/-- **An arrangement commutes with the resolution of statements.** -/
theorem Stmt.elaborates_arrange (here : Place) : ∀ (s : Stmt) (Γ : Env) (q : Resolved.Stmt),
    (s.arrange π here).Elaborates Γ q ↔ ∃ r, s.Elaborates Γ r ∧ q = r.arrange π here
  | .declare x readOnly init span => Stmt.arranges_declare
  | .function name parameters result body span =>
      Stmt.arranges_function (Stmt.elaboratesAll_arrange (.body :: here) 0 body)
  | .step dir target span => Stmt.arranges_step
  | .assign target source span => Stmt.arranges_assign
  | .exitLoop span | .returnNothing span => by
      intro Γ q
      rw [Stmt.arrange]
      constructor
      · intro h
        refine ⟨q, h, ?_⟩
        cases h
        rfl
      · intro ⟨r, h, hq⟩
        subst hq
        have hsame := h
        cases h
        exact hsame
  | .returnValue value span => Stmt.arranges_returnValue
  | .branch b => by
      intro Γ q
      rw [Stmt.arrange]
      constructor
      · intro h
        cases h with
        | branch hr =>
            obtain ⟨r, hr', rfl⟩ := (b.elaborates_arrange (.branch :: here) _ _).mp hr
            exact ⟨_, .branch hr', rfl⟩
      · intro ⟨r, h, hq⟩
        subst hq
        cases h with
        | @branch _ _ r hr =>
            exact .branch ((b.elaborates_arrange (.branch :: here) _ _).mpr ⟨r, hr, rfl⟩)
  | .whileLoop test body span =>
      Stmt.arranges_whileLoop (Stmt.elaboratesAll_arrange (.body :: here) 0 body)
  | .forEach x collection body span =>
      Stmt.arranges_forEach (Stmt.elaboratesAll_arrange (.body :: here) 0 body)
  | .eval expr span => by
      intro Γ q
      rw [Stmt.arrange]
      constructor
      · intro h
        cases h with
        | eval hr =>
            obtain ⟨r, hr', rfl⟩ := (expr.elaborates_arrange _ _).mp hr
            exact ⟨_, .eval hr', rfl⟩
      · intro ⟨r, h, hq⟩
        subst hq
        cases h with
        | @eval _ _ _ r hr =>
            exact .eval (hr.arrange π (.part 0 :: here))

theorem Branch.elaborates_arrange (here : Place) : ∀ (b : Branch) (Γ : Env) (q : Resolved.Branch),
    (b.arrange π here).Elaborates Γ q ↔ ∃ r, b.Elaborates Γ r ∧ q = r.arrange π here
  | .mk test consequent alternate span, Γ, q => by
      rw [Branch.arrange]
      constructor
      · intro h
        cases h with
        | mk ht isBool hrs ha =>
            obtain ⟨t, ht', rfl⟩ := (test.elaborates_arrange _ _).mp ht
            obtain ⟨rs, hrs', rfl⟩ :=
              (Stmt.elaboratesAll_arrange (.consequent :: here) 0 consequent _ _).mp hrs
            obtain ⟨a, ha', rfl⟩ := (alternate.elaborates_arrange (.alternate :: here) _ _).mp ha
            rw [Resolved.Expr.ty_arrange] at isBool
            exact ⟨_, .mk ht' isBool hrs' ha', rfl⟩
      · intro ⟨r, h, hq⟩
        subst hq
        cases h with
        | @mk _ _ _ _ _ t rs a ht isBool hrs ha =>
            have ht' := ht.arrange π (.part 0 :: here)
            have hrs' :=
              (Stmt.elaboratesAll_arrange (.consequent :: here) 0 consequent _ _).mpr ⟨rs, hrs, rfl⟩
            have ha' := (alternate.elaborates_arrange (.alternate :: here) _ _).mpr ⟨a, ha, rfl⟩
            exact .mk ht' (by simpa) hrs' ha'

theorem Alternate.elaborates_arrange (here : Place) :
    ∀ (a : Alternate) (Γ : Env) (q : Resolved.Alternate),
      (a.arrange π here).Elaborates Γ q ↔ ∃ r, a.Elaborates Γ r ∧ q = r.arrange π here
  | .none, Γ, q => by
      rw [Alternate.arrange]
      constructor
      · intro h
        cases h
        exact ⟨.none, .none, rfl⟩
      · intro ⟨r, h, hq⟩
        subst hq
        cases h
        exact .none
  | .block body, Γ, q => by
      rw [Alternate.arrange]
      constructor
      · intro h
        cases h with
        | block hrs =>
            obtain ⟨rs, hrs', rfl⟩ := (Stmt.elaboratesAll_arrange here 0 body _ _).mp hrs
            exact ⟨_, .block hrs', rfl⟩
      · intro ⟨r, h, hq⟩
        subst hq
        cases h with
        | @block _ _ rs hrs =>
            exact .block ((Stmt.elaboratesAll_arrange here 0 body _ _).mpr ⟨rs, hrs, rfl⟩)
  | .elseIf next, Γ, q => by
      rw [Alternate.arrange]
      constructor
      · intro h
        cases h with
        | elseIf hr =>
            obtain ⟨r, hr', rfl⟩ := (next.elaborates_arrange here _ _).mp hr
            exact ⟨_, .elseIf hr', rfl⟩
      · intro ⟨r, h, hq⟩
        subst hq
        cases h with
        | @elseIf _ _ r hr => exact .elseIf ((next.elaborates_arrange here _ _).mpr ⟨r, hr, rfl⟩)

theorem Stmt.elaboratesAll_arrange (here : Place) (i : Nat) :
    ∀ (ss : List Stmt) (Γ : Env) (qs : List Resolved.Stmt),
      Stmt.ElaboratesAll Γ (Stmt.arrangeAll π here i ss) qs ↔
        ∃ rs, Stmt.ElaboratesAll Γ ss rs ∧ qs = Resolved.Stmt.arrangeAll π here i rs
  | [], Γ, qs => by
      rw [Stmt.arrangeAll]
      constructor
      · intro h
        cases h
        exact ⟨[], .nil, rfl⟩
      · intro ⟨rs, h, hqs⟩
        subst hqs
        cases h
        exact .nil
  | s :: ss, Γ, qs => by
      rw [Stmt.arrangeAll]
      constructor
      · intro h
        cases h with
        | cons hr hrs =>
            obtain ⟨r, hr', rfl⟩ := (s.elaborates_arrange (.item i :: here) _ _).mp hr
            rw [Resolved.Stmt.after_arrange] at hrs
            obtain ⟨rs, hrs', rfl⟩ := (Stmt.elaboratesAll_arrange here (i + 1) ss _ _).mp hrs
            exact ⟨_, .cons hr' hrs', rfl⟩
      · intro ⟨rs, h, hqs⟩
        subst hqs
        cases h with
        | @cons _ _ _ r rs hr hrs =>
            have hr' := (s.elaborates_arrange (.item i :: here) _ _).mpr ⟨r, hr, rfl⟩
            have hrs' := (Stmt.elaboratesAll_arrange here (i + 1) ss _ _).mpr ⟨rs, hrs, rfl⟩
            rw [← Resolved.Stmt.after_arrange π (.item i :: here)] at hrs'
            exact .cons hr' hrs'

end

end

/-! ## 2. Where expressions go -/

/-- The new number of what was at `i` in a row. -/
def Shuffle.position (o : Shuffle) (n i : Nat) : Nat :=
  if h : i < n then (o.row n).symm ⟨i, h⟩ else i

theorem getElem?_reorder {α : Type} (o : Shuffle) (as : List α) (i : Nat) :
    (reorder o.row as)[o.position as.length i]? = as[i]? := by
  unfold Shuffle.position
  by_cases h : i < as.length
  · rw [dif_pos h, reorder, List.getElem?_ofFn, dif_pos (Fin.isLt _), Fin.eta,
      Equiv.apply_symm_apply, List.get_eq_getElem, List.getElem?_eq_getElem h]
  · rw [dif_neg h, List.getElem?_eq_none (by rw [length_reorder]; omega),
      List.getElem?_eq_none (by omega)]

/-- What treats the elements of a list one after the other, each by its number. -/
theorem getElem?_of_numbered {α β : Type} {f : Nat → List α → List β} {g : Nat → α → β}
    (hnil : ∀ j, f j [] = []) (hcons : ∀ j a as, f j (a :: as) = g j a :: f (j + 1) as) :
    ∀ (as : List α) (j i : Nat), (f j as)[i]? = as[i]?.map (g (j + i))
  | [], j, i => by simp [hnil]
  | a :: as, j, 0 => by simp [hcons]
  | a :: as, j, i + 1 => by
      rw [hcons, List.getElem?_cons_succ, List.getElem?_cons_succ,
        getElem?_of_numbered hnil hcons as (j + 1) i, Nat.add_right_comm, Nat.add_assoc]

namespace Resolved

/-- The new number of the part of an expression that was at `i`. -/
def Expr.moved (o : Shuffle) : Expr → Nat → Nat
  | .mk (.conditional _ _ _) _, 1 => if o.exchanged then 2 else 1
  | .mk (.conditional _ _ _) _, 2 => if o.exchanged then 1 else 2
  | .mk (.binary _ _ _) _, 0 => if o.exchanged then 1 else 0
  | .mk (.binary _ _ _) _, 1 => if o.exchanged then 0 else 1
  | .mk (.logical _ es) _, i | .mk (.list es) _, i => o.position es.length i
  | _, i => i

namespace Focus

/-- The new turn to what a turn leads to. -/
def turned (o : Shuffle) : Focus → Turn → Turn
  | expr e, .part i => .part (e.moved o i)
  | _, t => t

/-- The new place of what is at a place. -/
def moved (π : Arrangement) (root : Focus) : Place → Place
  | [] => []
  | t :: outer =>
      (root.at? outer).elim t (fun g => g.turned (π outer) t) :: root.moved π outer

/-- The part at a place, arranged. -/
def arrange (π : Arrangement) (here : Place) : Focus → Focus
  | block rs => block (Stmt.arrangeAll π here 0 rs)
  | stmt r => stmt (r.arrange π here)
  | branch b => branch (b.arrange π here)
  | expr e => expr (e.arrange π here)

end Focus

section

variable (π : Arrangement) (here : Place)

theorem Expr.getElem?_arrangeAll (rs : List Expr) (j i : Nat) :
    (Expr.arrangeAll π here j rs)[i]? = rs[i]?.map (Expr.arrange π (.part (j + i) :: here)) :=
  getElem?_of_numbered (f := Expr.arrangeAll π here) (fun _ => rfl) (fun _ _ _ => rfl) rs j i

theorem Stmt.getElem?_arrangeAll (rs : List Stmt) (j i : Nat) :
    (Stmt.arrangeAll π here j rs)[i]? = rs[i]?.map (Stmt.arrange π (.item (j + i) :: here)) :=
  getElem?_of_numbered (f := Stmt.arrangeAll π here) (fun _ => rfl) (fun _ _ _ => rfl) rs j i

theorem Expr.length_arrangeAll (i : Nat) (rs : List Expr) :
    (Expr.arrangeAll π here i rs).length = rs.length := by
  have hlength := congrArg List.length (Expr.map_ty_arrangeAll π here i rs)
  simpa using hlength

/-- The parts of an expression, each at its new number. -/
theorem Expr.parts_arrange (r : Expr) (i : Nat) :
    (r.arrange π here).parts[r.moved (π here) i]? =
      r.parts[i]?.map (Expr.arrange π (.part i :: here)) := by
  obtain ⟨form, ty⟩ := r
  cases form with
  | conditional test consequent alternate =>
      cases hx : (π here).exchanged <;> rcases i with _ | _ | _ | i <;>
        simp [Expr.arrange, Form.arrange, Form.shuffle, Expr.moved, Expr.parts, hx]
  | binary op left right =>
      cases hx : (π here).exchanged <;> rcases i with _ | _ | i <;>
        simp [Expr.arrange, Form.arrange, Form.shuffle, Expr.moved, Expr.parts, hx]
  | logical op es | list es =>
      have hrow := getElem?_reorder (π here) (Expr.arrangeAll π here 0 es) i
      rw [Expr.length_arrangeAll, Expr.getElem?_arrangeAll, Nat.zero_add] at hrow
      exact hrow
  | unary op operand | subscript items index =>
      rcases i with _ | _ | i <;> rfl
  | call callee arguments =>
      cases i with
      | zero => rfl
      | succ i =>
          have hrow := Expr.getElem?_arrangeAll π here arguments 1 i
          rw [Nat.add_comm 1 i] at hrow
          exact hrow
  | _ => rfl

/-- One turn: each part is found by its new turn. -/
theorem Focus.child?_arrange (g : Focus) (t : Turn) :
    (g.arrange π here).child? (g.turned (π here) t) =
      (g.child? t).map (Focus.arrange π (t :: here)) := by
  cases g with
  | block rs =>
      cases t with
      | item i =>
          have hrow := Stmt.getElem?_arrangeAll π here rs 0 i
          rw [Nat.zero_add] at hrow
          show (Option.map stmt (Stmt.arrangeAll π here 0 rs)[i]?) = _
          rw [hrow]
          cases h : rs[i]? <;> simp [child?, h, arrange]
      | _ => rfl
  | stmt r =>
      cases t with
      | part i =>
          cases r <;> rcases i with _ | _ | i <;> rfl
      | _ => cases r <;> rfl
  | branch b =>
      obtain ⟨test, consequent, alternate⟩ := b
      cases t with
      | part i => rcases i with _ | i <;> rfl
      | alternate => cases alternate <;> rfl
      | _ => rfl
  | expr e =>
      cases t with
      | part i =>
          show Option.map expr (e.arrange π here).parts[e.moved (π here) i]? = _
          rw [Expr.parts_arrange]
          cases h : e.parts[i]? <;> simp [child?, parts, h, arrange]
      | _ => rfl

end

/-- **Every part of a program is found at its new place**, arranged. -/
theorem Focus.at?_arrange (π : Arrangement) (root : Focus) : ∀ place : Place,
    (root.arrange π []).at? (root.moved π place) = (root.at? place).map (Focus.arrange π place)
  | [] => rfl
  | t :: outer => by
      rw [Focus.moved, Focus.at?, Focus.at?_arrange π root outer]
      cases h : root.at? outer with
      | none => simp [Focus.at?, h]
      | some g =>
          rw [Focus.at?_cons h]
          exact g.child?_arrange π outer t

/-- Statements stay where they are. -/
theorem Focus.moved_eq_self (π : Arrangement) {root : Focus} : ∀ {place : Place} {g : Focus},
    root.at? place = some g → (∀ e, g ≠ .expr e) → root.moved π place = place
  | [], _, _, _ => rfl
  | t :: outer, g, h, hg => by
      rw [Focus.at?, Option.bind_eq_some_iff] at h
      obtain ⟨f, hf, hchild⟩ := h
      have hfixed : f.turned (π outer) t = t ∧ ∀ e, f ≠ .expr e := by
        cases child_of_child? hchild with
        | part he => exact absurd rfl (hg _)
        | _ =>
            refine ⟨rfl, fun e he => ?_⟩
            cases he
      rw [Focus.moved, hf, Option.elim_some, hfixed.1, Focus.moved_eq_self π hf hfixed.2]

/-- What is declared at a site stays there. -/
theorem Focus.declaredAt?_arrange (π : Arrangement) {root : Focus} {site : Site} {d : Entity}
    (h : root.declaredAt? site = some d) : (root.arrange π []).declaredAt? site = some d := by
  obtain ⟨g, hg, hd⟩ := Option.bind_eq_some_iff.mp h
  cases g with
  | stmt r =>
      have hat := Focus.at?_arrange π root site.place
      rw [Focus.moved_eq_self π hg nofun, hg] at hat
      rw [Focus.declaredAt?, hat]
      exact (r.slot?_arrange π site.place site.slot).trans hd
  | _ => cases hd

end Resolved

/-! ## 3. Analysis -/

theorem result_analyze_arrange_eq_ok_iff {c : Catalog} {π : Arrangement} {p : Program}
    {R' : Resolved.Program} :
    (analyze c (Stmt.arrangeAll π [] 0 p)).result = .ok R' ↔
      ∃ R, (analyze c p).result = .ok R ∧ R' = Resolved.Stmt.arrangeAll π [] 0 R := by
  constructor
  · intro hok
    have hnames := (result_analyze_eq_ok_iff.mp hok).1
    obtain ⟨hderived, hnumbered⟩ := (result_analyze_eq_ok_iff_elaborates hnames).mp hok
    obtain ⟨R, hR, rfl⟩ := (Stmt.elaboratesAll_arrange [] 0 p _ _).mp hderived
    rw [Resolved.Stmt.declaredAll_arrange] at hnumbered
    exact ⟨R, (result_analyze_eq_ok_iff_elaborates hnames).mpr ⟨hR, hnumbered⟩, rfl⟩
  · intro ⟨R, hok, hR'⟩
    have hnames := (result_analyze_eq_ok_iff.mp hok).1
    obtain ⟨hderived, hnumbered⟩ := (result_analyze_eq_ok_iff_elaborates hnames).mp hok
    rw [← Resolved.Stmt.declaredAll_arrange π [] 0] at hnumbered
    subst hR'
    exact (result_analyze_eq_ok_iff_elaborates hnames).mpr
      ⟨(Stmt.elaboratesAll_arrange [] 0 p _ _).mpr ⟨R, hderived, rfl⟩, hnumbered⟩

/-- **The order of operands does not matter.** At any places of a program let the operands of binary
    operators and the arms of conditionals be exchanged, and the elements of lists and the operands
    of connectives be put in another order. The new program is accepted exactly when the program is.
    It then resolves to the resolved program with the operands at the same places in the new order:
    every expression is found at its new place with its type, and every declaration, with its type
    and its identity, where it was. -/
theorem operand_order_is_immaterial (c : Catalog) (π : Arrangement) (p : Program) :
    ((∃ R, (analyze c p).result = .ok R) ↔
      ∃ R', (analyze c (Stmt.arrangeAll π [] 0 p)).result = .ok R') ∧
    ∀ R R', (analyze c p).result = .ok R →
      (analyze c (Stmt.arrangeAll π [] 0 p)).result = .ok R' →
        R' = Resolved.Stmt.arrangeAll π [] 0 R ∧
        (∀ place r, (Resolved.Focus.block R).at? place = some (.expr r) →
          ∃ r', (Resolved.Focus.block R').at? ((Resolved.Focus.block R).moved π place) =
            some (.expr r') ∧ r'.ty = r.ty) ∧
        (∀ site d, (Resolved.Focus.block R).declaredAt? site = some d →
          (Resolved.Focus.block R').declaredAt? site = some d) := by
  refine ⟨⟨?_, ?_⟩, ?_⟩
  · intro ⟨R, hok⟩
    exact ⟨_, result_analyze_arrange_eq_ok_iff.mpr ⟨R, hok, rfl⟩⟩
  · intro ⟨R', hok⟩
    obtain ⟨R, hR, -⟩ := result_analyze_arrange_eq_ok_iff.mp hok
    exact ⟨R, hR⟩
  · intro R R' hR hR'
    obtain ⟨S, hS, hR'S⟩ := result_analyze_arrange_eq_ok_iff.mp hR'
    obtain rfl : R = S := Except.ok.inj (hR.symm.trans hS)
    subst hR'S
    refine ⟨rfl, ?_, ?_⟩
    · intro place r hr
      have hat := Resolved.Focus.at?_arrange π (.block R) place
      rw [hr] at hat
      exact ⟨r.arrange π place, hat, r.ty_arrange π place⟩
    · intro site d hd
      exact Resolved.Focus.declaredAt?_arrange π hd

/-- A number, a list with it, and one of two lists. -/
def pickedLists : Program :=
  [.declare "n" false (.int 2 .origin) .origin,
   .declare "ns" false
    (.list [.binary .add (.name "n" .origin) (.int 1 .origin) .origin, .name "n" .origin,
      .int 3 .origin] .origin) .origin,
   .eval (.conditional (.logical .and
      [.binary .less (.name "n" .origin) (.int 3 .origin) .origin, .bool true .origin] .origin)
    (.name "ns" .origin) (.list [.name "n" .origin] .origin) .origin) .origin]

/-- The same with all operands in the opposite order. -/
def pickedListsReversed : Program :=
  [.declare "n" false (.int 2 .origin) .origin,
   .declare "ns" false
    (.list [.int 3 .origin, .name "n" .origin,
      .binary .add (.int 1 .origin) (.name "n" .origin) .origin] .origin) .origin,
   .eval (.conditional (.logical .and
      [.bool true .origin, .binary .less (.int 3 .origin) (.name "n" .origin) .origin] .origin)
    (.list [.name "n" .origin] .origin) (.name "ns" .origin) .origin) .origin]

/-- The sum in the list has become its last element, and it is still an integer. -/
theorem operand_order_is_immaterial_pickedLists :
    ∃ R R', (analyze .standard pickedLists).result = .ok R ∧
      (analyze .standard pickedListsReversed).result = .ok R' ∧
      ∃ r, (Resolved.Focus.block R').at? [.part 2, .part 0, .item 1] = some (.expr r) ∧
        r.ty = .int := by
  obtain ⟨haccepted, hsame⟩ :=
    operand_order_is_immaterial .standard (fun _ => ⟨true, fun _ => Fin.revPerm⟩) pickedLists
  have hreversed : Stmt.arrangeAll (fun _ => ⟨true, fun _ => Fin.revPerm⟩) [] 0 pickedLists =
      pickedListsReversed := rfl
  rw [hreversed] at haccepted hsame
  obtain ⟨R, r, hR, hr, hty, hplace⟩ : ∃ R r, (analyze .standard pickedLists).result = .ok R ∧
      (Resolved.Focus.block R).at? [.part 0, .part 0, .item 1] = some (.expr r) ∧ r.ty = .int ∧
      (Resolved.Focus.block R).moved (fun _ => ⟨true, fun _ => Fin.revPerm⟩)
        [.part 0, .part 0, .item 1] = [.part 2, .part 0, .item 1] := ⟨_, _, rfl, rfl, rfl, rfl⟩
  obtain ⟨R', hR'⟩ := haccepted.mp ⟨R, hR⟩
  obtain ⟨-, hmoved, -⟩ := hsame R R' hR hR'
  obtain ⟨r', hr', hty'⟩ := hmoved _ r hr
  rw [hplace] at hr'
  exact ⟨R, R', hR, hR', r', hr', hty'.trans hty⟩

end Sema
