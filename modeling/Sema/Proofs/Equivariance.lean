import Mathlib.Data.Set.Basic
import Sema.Proofs.Renaming

/-!
# The judgement looks neither at identities nor at what is not named

An environment is embedded in another when every name that means something in the first means the
renamed entity in the second (`Env.Embeds`). The second may hold more names; those that are taken in
its innermost scope are listed, since no statement can declare them again. What the rules derive in
the one, they derive renamed in the other, as long as no statement declares a taken name: for
written types, expressions and statements (`Stmt.elaboratesAll_rename`). This holds for every
function on identities, also for one that confuses them.

The taken names matter in one scope only. A scope inside it is as empty in the one environment as in
the other, so there every name can be declared, a taken one too.
-/

namespace Sema

variable {σ : Identity → Identity} {taken : Set String}

/-! ## 1. Environments -/

/-- Every name of the first layer means the renamed entity in the second. -/
structure Layer.Renamed (σ : Identity → Identity) (l m : Layer) : Prop where
  names : ∀ x, m.names.lookup x = (l.names.lookup x).map (Entity.rename σ)
  inLoop : m.inLoop = l.inLoop
  function : m.function = l.function.map (Decl.Function.rename σ)

/-- Layer by layer, every name means the renamed entity. -/
structure Env.Renamed (σ : Identity → Identity) (Γ Δ : Env) : Prop where
  inner : Γ.inner.Renamed σ Δ.inner
  outer : List.Forall₂ (Layer.Renamed σ) Γ.outer Δ.outer

/-- What a name means in the first environment, it means renamed in the second; what the innermost
    scope of the first leaves free, that of the second leaves free, apart from the taken names; and
    a loop that may be left in the first may be left in the second. -/
structure Env.Embeds (σ : Identity → Identity) (taken : Set String) (Γ Δ : Env) : Prop where
  lookup : ∀ {x e}, Γ.lookup x = some e → Δ.lookup x = some (e.rename σ)
  free : ∀ {x}, x ∉ taken → Γ.Free x → Δ.Free x
  inLoop : Γ.inner.inLoop = true → Δ.inner.inLoop = true
  function : Δ.inner.function = Γ.inner.function.map (Decl.Function.rename σ)

theorem Env.Renamed.lookup {Γ Δ : Env} (h : Γ.Renamed σ Δ) (x : String) :
    Δ.lookup x = (Γ.lookup x).map (Entity.rename σ) := by
  have hfind : ∀ ls ms : List Layer, List.Forall₂ (Layer.Renamed σ) ls ms →
      ms.findSome? (fun l => l.names.lookup x) =
        (ls.findSome? fun l => l.names.lookup x).map (Entity.rename σ) := by
    intro ls ms hall
    induction hall with
    | nil => rfl
    | @cons l m ls ms hl _ ih =>
        rw [List.findSome?_cons, List.findSome?_cons, hl.names x, ih]
        cases l.names.lookup x <;> rfl
  exact hfind _ _ (.cons h.inner h.outer)

/-- A renaming is an embedding that takes no name. -/
theorem Env.Renamed.embeds {Γ Δ : Env} (h : Γ.Renamed σ Δ) : Γ.Embeds σ ∅ Δ where
  lookup {x e} hx := by
    rw [h.lookup x, hx]
    rfl
  free {x} _ hx := by
    rw [Env.Free, h.inner.names x, hx]
    rfl
  inLoop hloop := h.inner.inLoop.trans hloop
  function := h.inner.function

namespace Env

theorem lookup_bind (Γ : Env) (x y : String) (e : Entity) :
    (Γ.bind x e).lookup y = if y = x then some e else Γ.lookup y := by
  rw [lookup, lookup, layers, layers, List.findSome?_cons, List.findSome?_cons]
  by_cases hy : y = x
  · subst hy
    simp [bind, Layer.bind]
  · simp [bind, Layer.bind, Finmap.lookup_insert_of_ne _ hy, hy]

theorem lookup_block (Γ : Env) (x : String) : Γ.block.lookup x = Γ.lookup x := rfl

theorem lookup_loop (Γ : Env) (x : String) : Γ.loop.lookup x = Γ.lookup x := rfl

theorem lookup_body (Γ : Env) (f : Option Decl.Function) (x : String) :
    (Γ.body f).lookup x = Γ.lookup x := rfl

/-- A new name is free no more, and the others stay as they are. -/
theorem free_bind (Γ : Env) (x y : String) (e : Entity) :
    (Γ.bind x e).Free y ↔ y ≠ x ∧ Γ.Free y := by
  unfold Free
  by_cases hy : y = x
  · subst hy
    simp [bind, Layer.bind]
  · simp [bind, Layer.bind, Finmap.lookup_insert_of_ne _ hy, hy]

end Env

namespace Env.Embeds

variable {Γ Δ : Env}

theorem bind (h : Γ.Embeds σ taken Δ) (x : String) (e : Entity) :
    (Γ.bind x e).Embeds σ taken (Δ.bind x (e.rename σ)) where
  lookup {y e'} hy := by
    rw [lookup_bind] at hy ⊢
    by_cases hyx : y = x
    · rw [if_pos hyx] at hy ⊢
      cases hy
      rfl
    · rw [if_neg hyx] at hy ⊢
      exact h.lookup hy
  free {y} hy hfree := by
    rw [free_bind] at hfree ⊢
    exact ⟨hfree.1, h.free hy hfree.2⟩
  inLoop := h.inLoop
  function := h.function

theorem block (h : Γ.Embeds σ taken Δ) : Γ.block.Embeds σ ∅ Δ.block :=
  ⟨h.lookup, fun _ _ => rfl, h.inLoop, h.function⟩

theorem loop (h : Γ.Embeds σ taken Δ) : Γ.loop.Embeds σ ∅ Δ.loop :=
  ⟨h.lookup, fun _ _ => rfl, fun _ => rfl, h.function⟩

theorem body (h : Γ.Embeds σ taken Δ) (f : Option Decl.Function) :
    (Γ.body f).Embeds σ ∅ (Δ.body (f.map (Decl.Function.rename σ))) :=
  ⟨h.lookup, fun _ _ => rfl, id, rfl⟩

theorem bindParameters : ∀ (ds : List Decl.Parameter) {Γ Δ : Env}, Γ.Embeds σ taken Δ →
    (Γ.bindParameters ds).Embeds σ taken (Δ.bindParameters (ds.map (Decl.Parameter.rename σ)))
  | [], _, _, h => h
  | d :: ds, _, _, h => bindParameters ds (h.bind d.name (.param d))

theorem after (h : Γ.Embeds σ taken Δ) (r : Resolved.Stmt) :
    (Γ.after r).Embeds σ taken (Δ.after (r.rename σ)) := by
  cases r with
  | declare v e => exact h.bind v.name (.var v)
  | function f ps body => exact h.bind f.name (.func f)
  | _ => exact h

end Env.Embeds

/-! ## 2. Written types and expressions -/

mutual

theorem TypeExpr.denotes_rename {Γ Δ : Env} (hΓ : Γ.Embeds σ taken Δ) :
    ∀ (e : TypeExpr) (t : Ty), e.Denotes Γ t → e.Denotes Δ t
  | .named x span, t, h => by
      cases h with
      | named found =>
          exact .named (hΓ.lookup found)
  | .list element span, _, h => by
      cases h with
      | list he => exact .list (element.denotes_rename hΓ _ he)
  | .function parameters result span, _, h => by
      cases h with
      | function hps hr =>
          exact .function (TypeExpr.denotesAll_rename hΓ parameters _ hps)
            (result.denotes_rename hΓ _ hr)

theorem TypeExpr.denotesAll_rename {Γ Δ : Env} (hΓ : Γ.Embeds σ taken Δ) :
    ∀ (es : List TypeExpr) (ts : List Ty),
      List.Forall₂ (TypeExpr.Denotes Γ) es ts → List.Forall₂ (TypeExpr.Denotes Δ) es ts
  | [], _, h => by
      cases h
      exact .nil
  | e :: es, _, h => by
      cases h with
      | cons he hes =>
          exact .cons (e.denotes_rename hΓ _ he) (TypeExpr.denotesAll_rename hΓ es _ hes)

end

/-- Renaming keeps a type that all expressions of a list have. -/
theorem Resolved.Expr.forall_ty_renameAll {t : Ty} {rs : List Resolved.Expr}
    (h : ∀ r ∈ rs, r.ty = t) : ∀ r ∈ Resolved.Expr.renameAll σ rs, r.ty = t := by
  rw [Resolved.Expr.renameAll_eq_map, List.forall_mem_map]
  intro r hr
  rw [Resolved.Expr.ty_rename]
  exact h r hr

mutual

theorem Expr.elaborates_rename {Γ Δ : Env} (hΓ : Γ.Embeds σ taken Δ) :
    ∀ (e : Expr) (r : Resolved.Expr), e.Elaborates Γ r → e.Elaborates Δ (r.rename σ)
  | .int _ _, _, h => by
      cases h
      exact .int
  | .float _ _, _, h => by
      cases h
      exact .float
  | .bool _ _, _, h => by
      cases h
      exact .bool
  | .str _ _, _, h => by
      cases h
      exact .str
  | .name x _, _, h => by
      cases h with
      | @name _ e _ found =>
          rw [← e.ty_rename σ]
          exact .name (hΓ.lookup found)
  | .conditional test consequent alternate _, _, h => by
      cases h with
      | @conditional _ _ _ t c a _ ht hc ha isBool same =>
          rw [← c.ty_rename σ]
          exact .conditional (test.elaborates_rename hΓ _ ht) (consequent.elaborates_rename hΓ _ hc)
            (alternate.elaborates_rename hΓ _ ha) (by rw [t.ty_rename, isBool])
            (by rw [c.ty_rename, a.ty_rename, same])
  | .logical _ operands _, _, h => by
      cases h with
      | logical hrs areBool =>
          exact .logical (Expr.elaboratesAll_rename hΓ operands _ hrs)
            (Resolved.Expr.forall_ty_renameAll areBool)
  | .binary _ left right _, _, h => by
      cases h with
      | @binary _ _ _ l r _ _ hl hr same typed =>
          exact .binary (left.elaborates_rename hΓ _ hl) (right.elaborates_rename hΓ _ hr)
            (by rw [l.ty_rename, r.ty_rename, same]) (by rw [l.ty_rename]; exact typed)
  | .unary _ operand _, _, h => by
      cases h with
      | @unary _ _ r _ _ hr typed =>
          exact .unary (operand.elaborates_rename hΓ _ hr) (by rw [r.ty_rename]; exact typed)
  | .subscript items index _, _, h => by
      cases h with
      | @subscript _ _ l i _ _ hl hi isList isInt =>
          exact .subscript (items.elaborates_rename hΓ _ hl) (index.elaborates_rename hΓ _ hi)
            (by rw [l.ty_rename, isList]) (by rw [i.ty_rename, isInt])
  | .list elements _, _, h => by
      cases h with
      | @list _ rs _ _ hrs nonempty same =>
          refine .list (Expr.elaboratesAll_rename hΓ elements _ hrs) ?_
            (Resolved.Expr.forall_ty_renameAll same)
          rw [Resolved.Expr.renameAll_eq_map]
          simpa using nonempty
  | .emptyList element _, _, h => by
      cases h with
      | emptyList ht => exact .emptyList (element.denotes_rename hΓ _ ht)
  | .call callee arguments _, _, h => by
      cases h with
      | @call _ _ f rs parameters result _ hf hrs isFunction assignable =>
          refine .call (callee.elaborates_rename hΓ _ hf)
            (Expr.elaboratesAll_rename hΓ arguments _ hrs) (by rw [f.ty_rename, isFunction]) ?_
          rw [Resolved.Expr.renameAll_eq_map, List.forall₂_map_left_iff]
          simpa only [Resolved.Expr.ty_rename] using assignable

theorem Expr.elaboratesAll_rename {Γ Δ : Env} (hΓ : Γ.Embeds σ taken Δ) :
    ∀ (es : List Expr) (rs : List Resolved.Expr), List.Forall₂ (Expr.Elaborates Γ) es rs →
      List.Forall₂ (Expr.Elaborates Δ) es (Resolved.Expr.renameAll σ rs)
  | [], _, h => by
      cases h
      exact .nil
  | e :: es, _, h => by
      cases h with
      | cons he hes =>
          exact .cons (e.elaborates_rename hΓ _ he) (Expr.elaboratesAll_rename hΓ es _ hes)

end

/-! ## 3. Statements -/

theorem Resolved.Expr.Countable.rename {r : Resolved.Expr} (h : r.Countable) :
    (r.rename σ).Countable := by
  cases h with
  | var => exact .var
  | param => exact .param
  | element => exact .element

theorem Resolved.Expr.Writable.rename {r : Resolved.Expr} (h : r.Writable) :
    (r.rename σ).Writable := by
  obtain ⟨form, ty⟩ := r
  intro v hv
  cases form with
  | entity e =>
      cases e with
      | var w =>
          cases hv
          exact h w rfl
      | _ => cases hv
  | _ => cases hv

theorem ResultDenotes.rename {Γ Δ : Env} (hΓ : Γ.Embeds σ taken Δ) {result : Option TypeExpr}
    {t : Ty} (h : ResultDenotes Γ result t) : ResultDenotes Δ result t := by
  cases h with
  | none => exact .none
  | some ht => exact .some (TypeExpr.denotes_rename hΓ _ _ ht)

theorem Parameter.ElaboratesAll.rename {Γ Δ : Env} (hΓ : Γ.Embeds σ ∅ Δ) {ps : List Parameter}
    {ds : List Decl.Parameter} (h : Parameter.ElaboratesAll Γ ps ds) :
    Parameter.ElaboratesAll Δ ps (ds.map (Decl.Parameter.rename σ)) := by
  induction h generalizing Δ with
  | nil => exact .nil
  | @cons Γ p ps i t ds ht free _ ih =>
      exact .cons (p.type.denotes_rename hΓ t ht) (hΓ.free (Set.notMem_empty _) free)
        (ih (hΓ.bind p.name (.param ⟨i, p.name, t⟩)))

mutual

/-- **What a statement stands for is renamed with its environment**, unless it declares a taken
    name. -/
theorem Stmt.elaborates_rename : ∀ (s : Stmt) (r : Resolved.Stmt) {taken : Set String} {Γ Δ : Env},
    Γ.Embeds σ taken Δ → (∀ x, s.declares? = some x → x ∉ taken) → s.Elaborates Γ r →
      s.Elaborates Δ (r.rename σ)
  | .declare x readOnly init span, _, _, Γ, Δ, hΓ, hs, h => by
      cases h with
      | @declare _ _ _ _ _ i r hr free =>
          have hdecl : Stmt.Elaborates Δ (.declare x readOnly init span)
              (.declare ⟨σ i, x, readOnly, (r.rename σ).ty⟩ (r.rename σ)) :=
            .declare (init.elaborates_rename hΓ r hr) (hΓ.free (hs x rfl) free)
          rw [r.ty_rename] at hdecl
          exact hdecl
  | .function name parameters result body span, _, _, Γ, Δ, hΓ, hs, h => by
      cases h with
      | @function _ _ _ _ _ _ i t ds f rs ht hds free hf hrs =>
          refine .function (i := σ i) (ht.rename hΓ) (hds.rename (hΓ.body none))
            (hΓ.free (hs name rfl) free) ?_
            (Stmt.elaboratesAll_rename body rs ?_ (fun _ _ => Set.notMem_empty _) hrs)
          · simp [hf, Decl.Function.rename, Decl.Parameter.rename, Function.comp_def]
          · exact .bindParameters ds ((hΓ.bind name (.func f)).body (some f))
  | .step dir target span, _, _, Γ, Δ, hΓ, _, h => by
      cases h with
      | @step _ _ _ _ r hr isInt countable writable =>
          exact .step (target.elaborates_rename hΓ r hr) (by rw [r.ty_rename, isInt])
            countable.rename writable.rename
  | .assign target source span, _, _, Γ, Δ, hΓ, _, h => by
      cases h with
      | @assign _ _ _ _ place value hplace hvalue assignable writable =>
          exact .assign (target.elaborates_rename hΓ place hplace)
            (source.elaborates_rename hΓ value hvalue)
            (by rw [value.ty_rename, place.ty_rename]; exact assignable) writable.rename
  | .exitLoop span, _, _, Γ, Δ, hΓ, _, h => by
      cases h with
      | exitLoop inLoop => exact .exitLoop (hΓ.inLoop inLoop)
  | .returnValue value span, _, _, Γ, Δ, hΓ, _, h => by
      cases h with
      | @returnValue _ _ _ f r inside yields hr assignable =>
          have hinside : Δ.inner.function = some (f.rename σ) := by
            rw [hΓ.function, inside]
            rfl
          exact .returnValue hinside yields (value.elaborates_rename hΓ r hr)
            (by rw [r.ty_rename]; exact assignable)
  | .returnNothing span, _, _, Γ, Δ, hΓ, _, h => by
      cases h with
      | @returnNothing _ _ f inside yields =>
          have hinside : Δ.inner.function = some (f.rename σ) := by
            rw [hΓ.function, inside]
            rfl
          exact .returnNothing hinside yields
  | .branch b, _, _, Γ, Δ, hΓ, _, h => by
      cases h with
      | branch hr => exact .branch (b.elaborates_rename _ hΓ hr)
  | .whileLoop test body span, _, _, Γ, Δ, hΓ, _, h => by
      cases h with
      | @whileLoop _ _ _ _ t rs ht isBool hrs =>
          exact .whileLoop (test.elaborates_rename hΓ t ht) (by rw [t.ty_rename, isBool])
            (Stmt.elaboratesAll_rename body rs hΓ.loop (fun _ _ => Set.notMem_empty _) hrs)
  | .forEach x collection body span, _, _, Γ, Δ, hΓ, _, h => by
      cases h with
      | @forEach _ _ _ _ _ i r element rs hr isList hrs =>
          exact .forEach (i := σ i) (collection.elaborates_rename hΓ r hr)
            (by rw [r.ty_rename, isList])
            (Stmt.elaboratesAll_rename body rs (hΓ.loop.bind x (.var ⟨i, x, true, element⟩))
              (fun _ _ => Set.notMem_empty _) hrs)
  | .eval expr span, _, _, Γ, Δ, hΓ, _, h => by
      cases h with
      | eval hr => exact .eval (expr.elaborates_rename hΓ _ hr)

theorem Branch.elaborates_rename : ∀ (b : Branch) (r : Resolved.Branch) {taken : Set String}
    {Γ Δ : Env}, Γ.Embeds σ taken Δ → b.Elaborates Γ r → b.Elaborates Δ (r.rename σ)
  | .mk test consequent alternate span, _, _, Γ, Δ, hΓ, h => by
      cases h with
      | @mk _ _ _ _ _ t rs a ht isBool hrs ha =>
          exact .mk (test.elaborates_rename hΓ t ht) (by rw [t.ty_rename, isBool])
            (Stmt.elaboratesAll_rename consequent rs hΓ.block (fun _ _ => Set.notMem_empty _) hrs)
            (alternate.elaborates_rename a hΓ ha)

theorem Alternate.elaborates_rename : ∀ (a : Alternate) (r : Resolved.Alternate)
    {taken : Set String} {Γ Δ : Env}, Γ.Embeds σ taken Δ → a.Elaborates Γ r →
    a.Elaborates Δ (r.rename σ)
  | .none, _, _, Γ, Δ, hΓ, h => by
      cases h
      exact .none
  | .block body, _, _, Γ, Δ, hΓ, h => by
      cases h with
      | block hrs =>
          exact .block
            (Stmt.elaboratesAll_rename body _ hΓ.block (fun _ _ => Set.notMem_empty _) hrs)
  | .elseIf next, _, _, Γ, Δ, hΓ, h => by
      cases h with
      | elseIf hr => exact .elseIf (next.elaborates_rename _ hΓ hr)

theorem Stmt.elaboratesAll_rename : ∀ (ss : List Stmt) (rs : List Resolved.Stmt)
    {taken : Set String} {Γ Δ : Env}, Γ.Embeds σ taken Δ →
    (∀ x ∈ ss.filterMap Stmt.declares?, x ∉ taken) →
      Stmt.ElaboratesAll Γ ss rs →
      Stmt.ElaboratesAll Δ ss (Resolved.Stmt.renameAll σ rs)
  | [], _, _, Γ, Δ, hΓ, _, h => by
      cases h
      exact .nil
  | s :: ss, _, taken, Γ, Δ, hΓ, hss, h => by
      cases h with
      | @cons _ _ _ r rs hr hrs =>
          have hs : ∀ x, s.declares? = some x → x ∉ taken := fun x hx =>
            hss x (List.mem_filterMap.mpr ⟨s, List.mem_cons_self, hx⟩)
          have hrest : ∀ x ∈ ss.filterMap Stmt.declares?, x ∉ taken := fun x hx =>
            hss x ((List.sublist_cons_self s ss).filterMap _ |>.subset hx)
          exact .cons (s.elaborates_rename r hΓ hs hr)
            (Stmt.elaboratesAll_rename ss rs (hΓ.after r) hrest hrs)

end

end Sema
