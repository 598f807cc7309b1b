import Sema.Proofs.Acceptance
import Sema.Proofs.Place

/-!
# Resolved trees are well typed on their own evidence

A validator that sees a resolved tree and nothing else: no scopes, no syntax tree, no catalog. At an
expression it works out the type from the form and from the types stored in the parts
(`Form.synth?`) and compares it with the stored one. At a statement it compares the declared types
with the stored ones, and it keeps track of the loop and of the function around.

Everything that an analysis yields is accepted (`analysis_validates`): a resolved tree carries
enough to check it again.
-/

namespace Sema

/-! ## 1. Types of operators -/

instance (a b : Ty) : Decidable (Ty.Assignable a b) :=
  decidable_of_iff _ (Ty.fits_iff_assignable a b)

/-- The type of a binary operation on two operands of one type. -/
def BinaryOp.synth? (op : BinaryOp) (operand : Ty) : Option Ty :=
  match op with
  | .add => if operand ∈ [.int, .float, .str] then some operand else none
  | .subtract | .multiply | .divide | .modulo | .power =>
      if operand ∈ [.int, .float] then some operand else none
  | .less | .lessEqual | .greater | .greaterEqual =>
      if operand ∈ [.int, .float, .str] then some .bool else none
  | .equal | .notEqual => some .bool

/-- The type of a unary operation. -/
def UnaryOp.synth? (op : UnaryOp) (operand : Ty) : Option Ty :=
  match op with
  | .negate => if operand ∈ [.int, .float] then some operand else none
  | .not => if operand = .bool then some .bool else none

theorem BinaryOp.Typed.synth? {op : BinaryOp} {t ty : Ty} (h : op.Typed t ty) :
    op.synth? t = some ty := by
  cases h with
  | add ht => simp [BinaryOp.synth?, ht]
  | arithmetic hop ht =>
      simp only [List.mem_cons, List.not_mem_nil, or_false] at hop
      obtain rfl | rfl | rfl | rfl | rfl := hop <;> simp [BinaryOp.synth?, ht]
  | comparison hop ht =>
      simp only [List.mem_cons, List.not_mem_nil, or_false] at hop
      obtain rfl | rfl | rfl | rfl := hop <;> simp [BinaryOp.synth?, ht]
  | equality hop =>
      simp only [List.mem_cons, List.not_mem_nil, or_false] at hop
      obtain rfl | rfl := hop <;> rfl

theorem UnaryOp.Typed.synth? {op : UnaryOp} {t ty : Ty} (h : op.Typed t ty) :
    op.synth? t = some ty := by
  cases h with
  | negate ht => simp [UnaryOp.synth?, ht]
  | not => rfl

/-! ## 2. The validator -/

namespace Resolved

/-- The type of a form, from the types stored in its parts. -/
def Form.synth? : Form → Option Ty
  | .int _ => some .int
  | .float _ => some .float
  | .bool _ => some .bool
  | .str _ => some .str
  | .entity e => some e.ty
  | .conditional t c a => if t.ty = .bool ∧ c.ty = a.ty then some c.ty else none
  | .logical _ es => if ∀ e ∈ es, e.ty = .bool then some .bool else none
  | .binary op l r => if l.ty = r.ty then op.synth? l.ty else none
  | .unary op e => op.synth? e.ty
  | .subscript l i =>
      match l.ty with
      | .list element => if i.ty = .int then some element else none
      | _ => none
  | .list [] => none
  | .list (e :: es) => if ∀ d ∈ es, d.ty = e.ty then some (.list e.ty) else none
  | .emptyList t => some (.list t)
  | .call f es =>
      match f.ty with
      | .function ps result =>
          if es.length = ps.length ∧ ∀ ep ∈ es.zip ps, ep.1.ty.Assignable ep.2 then some result
          else none
      | _ => none

mutual

/-- The stored type is the one that the form has, here and in all parts. -/
def Expr.valid : Expr → Bool
  | .mk form ty => form.synth? == some ty && form.valid

/-- All parts are valid. -/
def Form.valid : Form → Bool
  | .int _ | .float _ | .bool _ | .str _ | .entity _ | .emptyList _ => true
  | .conditional t c a => t.valid && c.valid && a.valid
  | .logical _ es | .list es => Expr.validAll es
  | .binary _ l r | .subscript l r => l.valid && r.valid
  | .unary _ e => e.valid
  | .call f es => f.valid && Expr.validAll es

/-- All of the expressions are valid. -/
def Expr.validAll : List Expr → Bool
  | [] => true
  | e :: es => e.valid && Expr.validAll es

end

/-- Something that can be counted: a variable, a parameter or a list element. -/
def Expr.isCountable : Expr → Bool
  | .mk (.entity (.var _)) _ | .mk (.entity (.param _)) _ | .mk (.subscript _ _) _ => true
  | _ => false

/-- Not the name of a read-only variable. -/
def Expr.isWritable : Expr → Bool
  | .mk (.entity (.var v)) _ => !v.readOnly
  | _ => true

mutual

/-- A statement is valid where a loop may be left or not, and where the function around yields
    `result`, if there is one. -/
def Stmt.valid (inLoop : Bool) (result : Option Ty) : Stmt → Bool
  | .declare v e => e.valid && v.ty == e.ty
  | .function f ps body =>
      f.signature.parameters == ps.map (·.ty) &&
        Stmt.validAll false (some f.signature.result) body
  | .step _ e => e.valid && e.ty == .int && e.isCountable && e.isWritable
  | .assign place value =>
      place.valid && value.valid && decide (value.ty.Assignable place.ty) && place.isWritable
  | .exitLoop => inLoop
  | .returnValue e =>
      e.valid && result.any fun t => t != .void && decide (e.ty.Assignable t)
  | .returnNothing => result == some .void
  | .branch b => b.valid inLoop result
  | .whileLoop e body => e.valid && e.ty == .bool && Stmt.validAll true result body
  | .forEach v e body =>
      e.valid && v.readOnly && e.ty == .list v.ty && Stmt.validAll true result body
  | .eval e => e.valid

/-- An `if` is valid. -/
def Branch.valid (inLoop : Bool) (result : Option Ty) : Branch → Bool
  | .mk e consequent alternate =>
      e.valid && e.ty == .bool && Stmt.validAll inLoop result consequent &&
        alternate.valid inLoop result

/-- What follows `else` is valid. -/
def Alternate.valid (inLoop : Bool) (result : Option Ty) : Alternate → Bool
  | .none => true
  | .block body => Stmt.validAll inLoop result body
  | .elseIf next => next.valid inLoop result

/-- All of the statements are valid. -/
def Stmt.validAll (inLoop : Bool) (result : Option Ty) : List Stmt → Bool
  | [] => true
  | s :: ss => s.valid inLoop result && Stmt.validAll inLoop result ss

end

/-- A program is valid: its statements are, outside of loops and functions. -/
def valid (R : Program) : Bool := Stmt.validAll false none R

/-! ## 3. The validator visits every part -/

theorem Expr.valid_iff {r : Expr} :
    r.valid = true ↔ r.form.synth? = some r.ty ∧ r.form.valid = true := by
  obtain ⟨form, ty⟩ := r
  rw [Expr.valid, Bool.and_eq_true, beq_iff_eq]
  rfl

theorem Expr.validAll_iff (rs : List Expr) :
    Expr.validAll rs = true ↔ ∀ r ∈ rs, r.valid = true := by
  induction rs with
  | nil => simp [Expr.validAll]
  | cons r rs ih => simp [Expr.validAll, ih]

theorem Stmt.validAll_iff {inLoop : Bool} {result : Option Ty} (rs : List Stmt) :
    Stmt.validAll inLoop result rs = true ↔ ∀ r ∈ rs, r.valid inLoop result = true := by
  induction rs with
  | nil => simp [Stmt.validAll]
  | cons r rs ih => simp [Stmt.validAll, ih]

theorem Expr.valid_parts {r : Expr} (h : r.valid = true) : ∀ e ∈ r.parts, e.valid = true := by
  obtain ⟨form, ty⟩ := r
  have hform : form.valid = true := (Expr.valid_iff.mp h).2
  cases form with
  | int _ | float _ | bool _ | str _ | entity _ | emptyList _ => exact nofun
  | logical _ es | list es => exact (Expr.validAll_iff es).mp hform
  | _ => simpa [Form.valid, Expr.parts, Expr.validAll_iff, and_assoc] using hform

namespace Focus

/-- A part is valid where a loop may be left or not, and where the function around yields `result`,
    if there is one. -/
def valid (inLoop : Bool) (result : Option Ty) : Focus → Bool
  | block ss => Stmt.validAll inLoop result ss
  | stmt s => s.valid inLoop result
  | branch b => b.valid inLoop result
  | expr e => e.valid

theorem valid_parts {inLoop : Bool} {result : Option Ty} {g : Focus}
    (h : g.valid inLoop result = true) : ∀ e ∈ g.parts, e.valid = true := by
  cases g with
  | block ss => exact nofun
  | stmt s =>
      cases s with
      | function _ _ _ | exitLoop | returnNothing | branch _ => exact nofun
      | eval e => exact List.forall_mem_singleton.mpr h
      | assign place value =>
          simp only [valid, Stmt.valid, Bool.and_eq_true] at h
          exact List.forall_mem_cons.mpr ⟨h.1.1.1, List.forall_mem_singleton.mpr h.1.1.2⟩
      | _ =>
          simp only [valid, Stmt.valid, Bool.and_eq_true, and_assoc] at h
          exact List.forall_mem_singleton.mpr h.1
  | branch b =>
      obtain ⟨e, c, a⟩ := b
      simp only [valid, Branch.valid, Bool.and_eq_true, and_assoc] at h
      exact List.forall_mem_singleton.mpr h.1
  | expr e => exact Expr.valid_parts h

/-- A part of a valid part is valid, in the context that it stands in. -/
theorem valid_child {inLoop : Bool} {result : Option Ty} {g g' : Focus} {t : Turn}
    (h : g.valid inLoop result = true) (hchild : g.child? t = some g') :
    ∃ inLoop' result', g'.valid inLoop' result' = true := by
  cases child_of_child? hchild with
  | part he => exact ⟨inLoop, result, valid_parts h _ (List.mem_of_getElem? he)⟩
  | @item ss i s hs =>
      exact ⟨inLoop, result, (Stmt.validAll_iff ss).mp h s (List.mem_of_getElem? hs)⟩
  | functionBody => exact ⟨false, _, (Bool.and_eq_true_iff.mp h).2⟩
  | whileBody | forBody => exact ⟨true, result, (Bool.and_eq_true_iff.mp h).2⟩
  | branch => exact ⟨inLoop, result, h⟩
  | consequent =>
      exact ⟨inLoop, result, (Bool.and_eq_true_iff.mp (Bool.and_eq_true_iff.mp h).1).2⟩
  | elseBlock | elseIf => exact ⟨inLoop, result, (Bool.and_eq_true_iff.mp h).2⟩

/-- **Every part of a valid program is valid.** -/
theorem valid_at? {R : Program} (h : Resolved.valid R = true) : ∀ {here : Place} {g : Focus},
    (block R).at? here = some g → ∃ inLoop result, g.valid inLoop result = true
  | [], g, hg => by
      obtain rfl : block R = g := Option.some.inj hg
      exact ⟨false, none, h⟩
  | t :: outer, g, hg => by
      obtain ⟨f, hf, hchild⟩ := Option.bind_eq_some_iff.mp hg
      obtain ⟨inLoop, result, hvalid⟩ := valid_at? h hf
      exact valid_child hvalid hchild

end Focus

end Resolved

/-! ## 4. Expressions -/

/-- **The stored type is the synthesised one.** -/
theorem Expr.Elaborates.synth? {Γ : Env} {e : Expr} {r : Resolved.Expr} (h : e.Elaborates Γ r) :
    r.form.synth? = some r.ty := by
  cases h with
  | int | float | bool | str | name _ | emptyList _ => rfl
  | conditional _ _ _ isBool same => exact if_pos ⟨isBool, same⟩
  | logical _ areBool => exact if_pos areBool
  | binary _ _ same typed => exact (if_pos same).trans typed.synth?
  | unary _ typed => exact typed.synth?
  | @subscript _ _ l i element _ _ _ isList isInt =>
      show Resolved.Form.synth? (.subscript l i) = some element
      simp [Resolved.Form.synth?, isList, isInt]
  | @list _ rs element _ _ nonempty same =>
      cases rs with
      | nil => exact absurd rfl nonempty
      | cons r rs =>
          rw [List.forall_mem_cons] at same
          obtain ⟨rfl, same⟩ := same
          exact if_pos same
  | @call _ _ f rs parameters result _ _ _ isFunction assignable =>
      have hall : rs.length = parameters.length ∧
          ∀ ep ∈ rs.zip parameters, ep.1.ty.Assignable ep.2 :=
        ⟨assignable.length_eq, fun ep hep => List.forall₂_zip assignable hep⟩
      show Resolved.Form.synth? (.call f rs) = some result
      simp only [Resolved.Form.synth?, isFunction]
      exact if_pos hall

mutual

theorem Expr.valid_of_elaborates {Γ : Env} : ∀ (e : Expr) (r : Resolved.Expr), e.Elaborates Γ r →
    r.valid = true
  | .int _ _, _, h | .float _ _, _, h | .bool _ _, _, h | .str _ _, _, h | .name _ _, _, h
  | .emptyList _ _, _, h => by
      refine Resolved.Expr.valid_iff.mpr ⟨h.synth?, ?_⟩
      cases h
      rfl
  | .conditional test consequent alternate _, _, h => by
      refine Resolved.Expr.valid_iff.mpr ⟨h.synth?, ?_⟩
      cases h with
      | conditional ht hc ha _ _ =>
          simp [Resolved.Expr.form, Resolved.Form.valid, test.valid_of_elaborates _ ht,
            consequent.valid_of_elaborates _ hc, alternate.valid_of_elaborates _ ha]
  | .logical _ operands _, _, h => by
      refine Resolved.Expr.valid_iff.mpr ⟨h.synth?, ?_⟩
      cases h with
      | logical hrs _ => exact Expr.validAll_of_elaborates operands _ hrs
  | .binary _ left right _, _, h => by
      refine Resolved.Expr.valid_iff.mpr ⟨h.synth?, ?_⟩
      cases h with
      | binary hl hr _ _ =>
          simp [Resolved.Expr.form, Resolved.Form.valid, left.valid_of_elaborates _ hl,
            right.valid_of_elaborates _ hr]
  | .unary _ operand _, _, h => by
      refine Resolved.Expr.valid_iff.mpr ⟨h.synth?, ?_⟩
      cases h with
      | unary hr _ => exact operand.valid_of_elaborates _ hr
  | .subscript items index _, _, h => by
      refine Resolved.Expr.valid_iff.mpr ⟨h.synth?, ?_⟩
      cases h with
      | subscript hl hi _ _ =>
          simp [Resolved.Expr.form, Resolved.Form.valid, items.valid_of_elaborates _ hl,
            index.valid_of_elaborates _ hi]
  | .list elements _, _, h => by
      refine Resolved.Expr.valid_iff.mpr ⟨h.synth?, ?_⟩
      cases h with
      | list hrs _ _ => exact Expr.validAll_of_elaborates elements _ hrs
  | .call callee arguments _, _, h => by
      refine Resolved.Expr.valid_iff.mpr ⟨h.synth?, ?_⟩
      cases h with
      | call hf hrs _ _ =>
          simp [Resolved.Expr.form, Resolved.Form.valid, callee.valid_of_elaborates _ hf,
            Expr.validAll_of_elaborates arguments _ hrs]

theorem Expr.validAll_of_elaborates {Γ : Env} : ∀ (es : List Expr) (rs : List Resolved.Expr),
    List.Forall₂ (Expr.Elaborates Γ) es rs → Resolved.Expr.validAll rs = true
  | [], _, .nil => rfl
  | e :: es, _, .cons he hes => by
      rw [Resolved.Expr.validAll, e.valid_of_elaborates _ he, Expr.validAll_of_elaborates es _ hes]
      rfl

end

/-! ## 5. Statements -/

theorem Resolved.Expr.Countable.isCountable {r : Resolved.Expr} (h : r.Countable) :
    r.isCountable = true := by
  cases h <;> rfl

theorem Resolved.Expr.Writable.isWritable {r : Resolved.Expr} (h : r.Writable) :
    r.isWritable = true := by
  obtain ⟨form, ty⟩ := r
  cases form with
  | entity e =>
      cases e with
      | var v =>
          have hv : v.readOnly = false := h v rfl
          simp [Resolved.Expr.isWritable, hv]
      | _ => rfl
  | _ => rfl

/-- What the function around yields. -/
def Env.result? (Γ : Env) : Option Ty := Γ.inner.function.map (·.signature.result)

theorem Env.context_after (Γ : Env) (r : Resolved.Stmt) :
    (Γ.after r).inner.inLoop = Γ.inner.inLoop ∧ (Γ.after r).result? = Γ.result? := by
  cases r <;> exact ⟨rfl, rfl⟩

theorem Env.context_bindParameters : ∀ (ds : List Decl.Parameter) (Γ : Env),
    (Γ.bindParameters ds).inner.inLoop = Γ.inner.inLoop ∧
      (Γ.bindParameters ds).result? = Γ.result?
  | [], _ => ⟨rfl, rfl⟩
  | d :: ds, Γ => Env.context_bindParameters ds (Γ.bind d.name (.param d))

mutual

/-- **What a statement stands for is valid** where the environment says that it stands. -/
theorem Stmt.valid_of_elaborates : ∀ (s : Stmt) (r : Resolved.Stmt) (Γ : Env), s.Elaborates Γ r →
    r.valid Γ.inner.inLoop Γ.result? = true
  | .declare _ _ init _, _, Γ, h => by
      cases h with
      | declare hr _ => simp [Resolved.Stmt.valid, init.valid_of_elaborates _ hr]
  | .function _ _ _ body _, _, Γ, h => by
      cases h with
      | function _ _ _ hf hrs =>
          have hbody := Stmt.validAll_of_elaborates body _ _ hrs
          rw [(Env.context_bindParameters _ _).1, (Env.context_bindParameters _ _).2] at hbody
          subst hf
          simp only [Resolved.Stmt.valid, Bool.and_eq_true, beq_iff_eq]
          exact ⟨trivial, hbody⟩
  | .step _ target _, _, Γ, h => by
      cases h with
      | step hr isInt countable writable =>
          simp [Resolved.Stmt.valid, target.valid_of_elaborates _ hr, isInt,
            countable.isCountable, writable.isWritable]
  | .assign target source _, _, Γ, h => by
      cases h with
      | assign hplace hvalue assignable writable =>
          simp [Resolved.Stmt.valid, target.valid_of_elaborates _ hplace,
            source.valid_of_elaborates _ hvalue, assignable, writable.isWritable]
  | .exitLoop _, _, Γ, h => by
      cases h with
      | exitLoop inLoop => exact inLoop
  | .returnValue value _, _, Γ, h => by
      cases h with
      | returnValue inside yields hr assignable =>
          simp [Resolved.Stmt.valid, value.valid_of_elaborates _ hr, Env.result?, inside, yields,
            assignable]
  | .returnNothing _, _, Γ, h => by
      cases h with
      | returnNothing inside yields => simp [Resolved.Stmt.valid, Env.result?, inside, yields]
  | .branch b, _, Γ, h => by
      cases h with
      | branch hr => exact b.valid_of_elaborates _ Γ hr
  | .whileLoop test body _, _, Γ, h => by
      cases h with
      | whileLoop ht isBool hrs =>
          have hbody := Stmt.validAll_of_elaborates body _ Γ.loop hrs
          simp only [Resolved.Stmt.valid, Bool.and_eq_true, beq_iff_eq]
          exact ⟨⟨test.valid_of_elaborates _ ht, isBool⟩, hbody⟩
  | .forEach x collection body _, _, Γ, h => by
      cases h with
      | forEach hr isList hrs =>
          have hbody := Stmt.validAll_of_elaborates body _ _ hrs
          simp only [Resolved.Stmt.valid, Bool.and_eq_true, beq_iff_eq]
          exact ⟨⟨⟨collection.valid_of_elaborates _ hr, trivial⟩, isList⟩, hbody⟩
  | .eval e _, _, Γ, h => by
      cases h with
      | eval hr => exact e.valid_of_elaborates _ hr

theorem Branch.valid_of_elaborates : ∀ (b : Branch) (r : Resolved.Branch) (Γ : Env),
    b.Elaborates Γ r → r.valid Γ.inner.inLoop Γ.result? = true
  | .mk test consequent alternate _, _, Γ, h => by
      cases h with
      | mk ht isBool hrs ha =>
          have hthen := Stmt.validAll_of_elaborates consequent _ Γ.block hrs
          simp only [Resolved.Branch.valid, Bool.and_eq_true, beq_iff_eq]
          exact ⟨⟨⟨test.valid_of_elaborates _ ht, isBool⟩, hthen⟩,
            alternate.valid_of_elaborates _ Γ ha⟩

theorem Alternate.valid_of_elaborates : ∀ (a : Alternate) (r : Resolved.Alternate) (Γ : Env),
    a.Elaborates Γ r → r.valid Γ.inner.inLoop Γ.result? = true
  | .none, _, _, h => by
      cases h
      rfl
  | .block body, _, Γ, h => by
      cases h with
      | block hrs => exact Stmt.validAll_of_elaborates body _ Γ.block hrs
  | .elseIf next, _, Γ, h => by
      cases h with
      | elseIf hr => exact next.valid_of_elaborates _ Γ hr

/-- Statements in a row are valid: those after a declaration stand where it stands. -/
theorem Stmt.validAll_of_elaborates : ∀ (ss : List Stmt) (rs : List Resolved.Stmt) (Γ : Env),
    Stmt.ElaboratesAll Γ ss rs → Resolved.Stmt.validAll Γ.inner.inLoop Γ.result? rs = true
  | [], _, _, h => by
      cases h
      rfl
  | s :: ss, _, Γ, h => by
      cases h with
      | @cons _ _ _ r rs hr hrs =>
          have hrest := Stmt.validAll_of_elaborates ss rs (Γ.after r) hrs
          rw [(Γ.context_after r).1, (Γ.context_after r).2] at hrest
          rw [Resolved.Stmt.validAll, s.valid_of_elaborates r Γ hr, hrest]
          rfl

end

/-- **What an analysis yields is accepted by the validator**, which sees nothing else; and so every
    expression, wherever it stands, has the type that its form has. -/
theorem analysis_validates (c : Catalog) (p : Program) (R : Resolved.Program)
    (hok : (analyze c p).result = .ok R) :
    Resolved.valid R = true ∧
      ∀ (here : Place) (r : Resolved.Expr), (Resolved.Focus.block R).at? here = some (.expr r) →
        r.form.synth? = some r.ty := by
  have hvalid : Resolved.valid R = true :=
    Stmt.validAll_of_elaborates p R (.ofCatalog c) (elaborates_of_analyze hok).derived
  refine ⟨hvalid, fun here r hr => ?_⟩
  obtain ⟨_, _, hexpr⟩ := Resolved.Focus.valid_at? hvalid hr
  exact (Resolved.Expr.valid_iff.mp hexpr).1

/-- A function that takes a function, and is given one that accepts more than it has to. -/
def higherOrder : Program :=
  [.function "twice"
    [⟨"g", .function [.named "int" .origin] (.named "any" .origin) .origin, .origin⟩,
     ⟨"n", .named "int" .origin, .origin⟩] (some (.list (.named "int" .origin) .origin))
    [.whileLoop (.binary .less (.name "n" .origin) (.int 2 .origin) .origin)
      [.eval (.call (.name "g" .origin) [.name "n" .origin] .origin) .origin,
       .step .up (.name "n" .origin) .origin, .exitLoop .origin] .origin,
     .returnValue (.conditional (.logical .and [] .origin)
       (.list [.name "n" .origin, .unary .negate (.name "n" .origin) .origin] .origin)
       (.emptyList (.named "int" .origin) .origin) .origin) .origin] .origin,
   .declare "ns" false
     (.call (.name "twice" .origin) [.name "print" .origin, .int 1 .origin] .origin) .origin,
   .assign (.subscript (.name "ns" .origin) (.int 0 .origin) .origin) (.int 3 .origin) .origin]

theorem analysis_validates_higherOrder :
    ∃ R, (analyze .standard higherOrder).result = .ok R ∧ Resolved.valid R = true :=
  ⟨_, rfl, (analysis_validates .standard higherOrder _ rfl).1⟩

end Sema
