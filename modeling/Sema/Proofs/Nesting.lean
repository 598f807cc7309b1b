import Sema.Proofs.Control
import Sema.Proofs.Relevance

/-!
# Scopes that make no difference

Two ways in which a program can be nested more deeply without a difference:

* **A fresh scope is transparent.** It hides nothing and declares nothing yet, so statements that
  are accepted in the current scope are accepted in a scope inside it, with the same result
  (`Stmt.result_checkAll_enter`): as a branch, as the body of a loop, and also after the iterator of
  a loop over a list, provided that the statements do not use its name.
* **An `else if` is an `else` with an `if` in it.** The first goes on in the current scope and the
  second opens one. An `if` declares nothing in its own scope, so it comes to the same in both,
  failures included (`Branch.echoes_block`). Hence the places in a program at which an `else if` is
  written as a block are seen in the resolved program at the same places, and nowhere else
  (`Stmt.echoes_nestAll`).
-/

namespace Sema

open Check

/-! ## 1. Accepted statements in a fresh scope -/

theorem Env.embeds_block (Γ : Env) : Γ.Embeds id ∅ Γ.block where
  lookup {x e} hx := by
    rw [Entity.rename_id]
    exact hx
  free _ _ := rfl
  inLoop := id
  function := Option.map_id'.symm

/-- In a loop there is a loop to leave, whatever was the case around it. -/
theorem Env.embeds_loop (Γ : Env) : Γ.Embeds id ∅ Γ.loop where
  lookup := Γ.embeds_block.lookup
  free _ _ := rfl
  inLoop _ := rfl
  function := Γ.embeds_block.function

section

variable {s : Session} {ss : List Stmt} {rs : List Resolved.Stmt}

/-- **A fresh scope is transparent** for statements that are accepted around it. -/
theorem Stmt.result_checkAll_enter (h : ((Stmt.checkAll ss).run s).result = .ok rs)
    (kind : ScopeKind) (hkind : kind ≠ .functionBody) :
    ((Stmt.checkAll ss).run (s.enter kind)).result = .ok rs := by
  obtain ⟨hderived, hnumbered, -⟩ := (Stmt.yields_checkAll ss rs s _).mp ⟨h, rfl⟩
  have hembeds : s.scopes.env.Embeds id ∅ (s.scopes.enter kind).env := by
    cases kind with
    | block => exact s.scopes.env.embeds_block
    | loop => exact s.scopes.env.embeds_loop
    | functionBody => exact absurd rfl hkind
  have hinside : Stmt.ElaboratesAll (s.scopes.enter kind).env ss rs := by
    have hrenamed :=
      Stmt.elaboratesAll_rename ss rs hembeds (fun _ _ => Set.notMem_empty _) hderived
    rwa [Resolved.Stmt.renameAll_id] at hrenamed
  exact ((Stmt.yields_checkAll ss rs (s.enter kind) _).mpr ⟨hinside, hnumbered, rfl⟩).1

theorem Stmt.result_block (h : ((Stmt.checkAll ss).run s).result = .ok rs) (kind : ScopeKind)
    (hkind : kind ≠ .functionBody) :
    ((inScope kind (Stmt.checkAll ss)).run s).result = .ok rs := by
  rw [(Stmt.tame_checkAll ss).result_inScope]
  exact Stmt.result_checkAll_enter h kind hkind

/-- Accepted statements as a branch, after `else`, and as the body of a loop. -/
theorem Stmt.result_moved (h : ((Stmt.checkAll ss).run s).result = .ok rs) {test : Expr}
    {t : Resolved.Expr} (ht : ((checkTest test).run s).result = .ok t) (span : Span) :
    ((Stmt.branch (.mk test ss .none span)).check.run s).result = .ok (.branch (.mk t rs .none)) ∧
    ((Stmt.branch (.mk test [] (.block ss) span)).check.run s).result =
      .ok (.branch (.mk t [] (.block rs))) ∧
    ((Stmt.whileLoop test ss span).check.run s).result = .ok (.whileLoop t rs) := by
  have htest : (checkTest test).Yields s t s := ⟨ht, rfl⟩
  have hloop := Stmt.result_block h .loop nofun
  have hblock := Stmt.result_block h .block nofun
  have hthen : ((Branch.mk test ss .none span).check.run s).result = .ok (.mk t rs .none) := by
    rw [Branch.check, result_bind_of_yields htest, result_bind_of_yields ⟨hblock, rfl⟩]
    rfl
  have hempty : (inScope .block (Stmt.checkAll [])).Yields s [] s := ⟨rfl, rfl⟩
  have helse : ((Branch.mk test [] (.block ss) span).check.run s).result =
      .ok (.mk t [] (.block rs)) := by
    rw [Branch.check, result_bind_of_yields htest, result_bind_of_yields hempty, result_bind_pure,
      Alternate.check, result_bind_pure, hblock]
    rfl
  refine ⟨?_, ?_, ?_⟩
  · rw [Stmt.check, result_bind_pure, hthen]
    rfl
  · rw [Stmt.check, result_bind_pure, helse]
    rfl
  · rw [Stmt.check, result_bind_of_yields htest, result_bind_pure, hloop]
    rfl

end

/-! ## 2. Accepted statements after an iterator -/

section

variable {c : Catalog} {s : Session} {ss : List Stmt} {x : String} {element : Ty}

/-- The session in which the body of a loop over a list is checked. -/
def Session.enterLoop (s : Session) (x : String) (element : Ty) : Session :=
  ⟨{ s.scopes.enter .loop with
      inner := (s.scopes.enter .loop).inner.bind x (.var ⟨.program s.serial, x, true, element⟩) },
    s.serial + 1⟩

theorem Session.yields_iterator (s : Session) (x : String) (element : Ty) (span : Span) :
    (declareVariable x true element span).Yields (s.enter .loop)
      ⟨.program s.serial, x, true, element⟩ (s.enterLoop x element) :=
  yields_declareVariable.mpr ⟨rfl, rfl, rfl⟩

/-- Statements that do not use the name of the iterator do not see it. -/
theorem Session.matches_enterLoop (s : Session) (element : Ty)
    (hmentioned : ∀ node ∈ Stmt.nodesAll ss, node.mentioned? ≠ some x)
    (hdeclared : x ∉ ss.filterMap Stmt.declares?) :
    Session.Matches id ss (s.enter .loop) (s.enterLoop x element) where
  lookup node hnode y hy := by
    have hne : y ≠ x := by
      intro hyx
      exact hmentioned node hnode (hyx ▸ hy)
    show (s.scopes.enter .loop).lookup? y = (Scopes.lookup? _ y).map (Entity.rename id)
    rw [Session.enterLoop, Scopes.lookup?_bind, if_neg hne]
    cases (s.scopes.enter .loop).lookup? y with
    | none => rfl
    | some e => rw [Option.map_some, Entity.rename_id]
  declares y hy := by
    have hne : y ≠ x := by
      intro hyx
      exact hdeclared (hyx ▸ hy)
    exact (Frame.declares_bind_of_ne _ _ hne).symm
  inLoop := rfl
  function := Option.map_id'.symm

/-- **The iterator of a loop is seen only by its name.** Its declaration takes a number, so those of
    the statements move up by one. -/
theorem Stmt.result_forEach_moved (hs : s.Arises c) {rs : List Resolved.Stmt}
    (h : ((Stmt.checkAll ss).run s).result = .ok rs) {collection : Expr} {r : Resolved.Expr}
    (hcollection : ((checkCollection collection).run s).result = .ok (r, element))
    (hmentioned : ∀ node ∈ Stmt.nodesAll ss, node.mentioned? ≠ some x)
    (hdeclared : x ∉ ss.filterMap Stmt.declares?) (span : Span) :
    ((Stmt.forEach x collection ss span).check.run s).result =
      .ok (.forEach ⟨.program s.serial, x, true, element⟩ r
        (Resolved.Stmt.renameAll (Identity.redirect id s.serial 1) rs)) := by
  have hiterator := s.yields_iterator x element span
  have houtside : (s.enter .loop).Arises c := (Session.closed_arises c).enter .loop hs
  have hinside : (s.enterLoop x element).Arises c := by
    rw [← hiterator.2]
    exact (Session.closed_arises c).declaration x true element span houtside
  have hbody : ((Stmt.checkAll ss).run (s.enterLoop x element)).result =
      .ok (Resolved.Stmt.renameAll (Identity.redirect id s.serial 1) rs) := by
    have hsame := (s.matches_enterLoop element hmentioned hdeclared).result_eq
      (n := s.serial + 1) houtside.scopes_below hinside.scopes_below (Nat.le_succ _) (Nat.le_refl _)
    have hzero : s.serial + 1 - (s.enterLoop x element).serial = 0 := Nat.sub_self _
    have hone : s.serial + 1 - (s.enter .loop).serial = 1 := Nat.add_sub_cancel_left _ _
    have hid : Resolved.Stmt.renameAll id = id := funext Resolved.Stmt.renameAll_id
    rw [hzero, hone, Identity.redirect_id_zero, hid, Except.map_id,
      Stmt.result_checkAll_enter h .loop nofun] at hsame
    exact hsame.symm
  have hloop := tame_loopBody x element span r (Stmt.tame_checkAll ss)
  rw [Stmt.check, result_bind_of_yields (t := s) ⟨hcollection, rfl⟩, hloop.result_inScope,
    result_bind_of_yields hiterator, result_bind_pure, hbody]
  rfl

/-- The iterator is declared in the scope of the body, so its name is taken there. -/
example : (analyze .standard [.forEach "i" (.list [.int 1 .origin] .origin)
    [.declare "i" false (.int 2 .origin) .origin] .origin]).result =
      .error ⟨.alreadyDeclared "i", some .origin⟩ := rfl

end

/-! ## 3. An `else if` as a block -/

section

variable (nested : Place → Bool)

mutual

/-- The statement at a place, with every `else if` in it whose place is given written as a block. -/
def Stmt.nest (here : Place) : Stmt → Stmt
  | .function name parameters result body span =>
      .function name parameters result (Stmt.nestAll (.body :: here) 0 body) span
  | .branch b => .branch (b.nest (.branch :: here))
  | .whileLoop test body span => .whileLoop test (Stmt.nestAll (.body :: here) 0 body) span
  | .forEach x collection body span =>
      .forEach x collection (Stmt.nestAll (.body :: here) 0 body) span
  | s => s

/-- The `if` at a place. -/
def Branch.nest (here : Place) : Branch → Branch
  | .mk test consequent alternate span =>
      .mk test (Stmt.nestAll (.consequent :: here) 0 consequent)
        (alternate.nest (.alternate :: here)) span

/-- What follows `else`, at its place. -/
def Alternate.nest (here : Place) : Alternate → Alternate
  | .none => .none
  | .block body => .block (Stmt.nestAll here 0 body)
  | .elseIf next =>
      if nested here then .block [.branch (next.nest here)] else .elseIf (next.nest here)

/-- The statements of the block at a place, from the `i`th on. -/
def Stmt.nestAll (here : Place) (i : Nat) : List Stmt → List Stmt
  | [] => []
  | s :: ss => s.nest (.item i :: here) :: Stmt.nestAll here (i + 1) ss

end

namespace Resolved

mutual

/-- The resolved statement at a place, with every `else if` in it whose place is given written as a
    block. -/
def Stmt.nest (here : Place) : Stmt → Stmt
  | .function f ps body => .function f ps (Stmt.nestAll (.body :: here) 0 body)
  | .branch b => .branch (b.nest (.branch :: here))
  | .whileLoop test body => .whileLoop test (Stmt.nestAll (.body :: here) 0 body)
  | .forEach v collection body => .forEach v collection (Stmt.nestAll (.body :: here) 0 body)
  | s => s

/-- The resolved `if` at a place. -/
def Branch.nest (here : Place) : Branch → Branch
  | .mk test consequent alternate =>
      .mk test (Stmt.nestAll (.consequent :: here) 0 consequent)
        (alternate.nest (.alternate :: here))

/-- What follows `else`, at its place. -/
def Alternate.nest (here : Place) : Alternate → Alternate
  | .none => .none
  | .block body => .block (Stmt.nestAll here 0 body)
  | .elseIf next =>
      if nested here then .block [.branch (next.nest here)] else .elseIf (next.nest here)

/-- The resolved statements of the block at a place, from the `i`th on. -/
def Stmt.nestAll (here : Place) (i : Nat) : List Stmt → List Stmt
  | [] => []
  | s :: ss => s.nest (.item i :: here) :: Stmt.nestAll here (i + 1) ss

end

end Resolved

end

/-! ## 4. Computations that come to the same -/

namespace Check

variable {α β γ δ : Type} {g : α → β} {h : γ → δ} {x : Check α} {y : Check β}

/-- On every session, the second computation comes to what the first one comes to, with its value
    replaced, and leaves the same session. -/
def Echoes (g : α → β) (x : Check α) (y : Check β) : Prop :=
  ∀ s, (y.run s).result = (x.run s).result.map g ∧ (y.run s).session = (x.run s).session

theorem echoes_pure (a : α) : Echoes g (pure a) (pure (g a)) := fun _ => ⟨rfl, rfl⟩

/-- A computation echoes itself where the replacement keeps all of its values. -/
theorem echoes_of_fixed {g : α → α} (hg : ∀ s a, (x.run s).result = .ok a → g a = a) :
    Echoes g x x := by
  intro s
  refine ⟨?_, rfl⟩
  cases hx : (x.run s).result with
  | error d => rfl
  | ok a => rw [Except.map, hg s a hx]

theorem echoes_self (x : Check α) : Echoes id x x := echoes_of_fixed fun _ _ _ => rfl

theorem Echoes.trans {h : β → γ} {z : Check γ} (hxy : Echoes g x y) (hyz : Echoes h y z) :
    Echoes (h ∘ g) x z := by
  intro s
  refine ⟨?_, (hyz s).2.trans (hxy s).2⟩
  rw [(hyz s).1, (hxy s).1]
  cases (x.run s).result <;> rfl

theorem echoes_bind {f : α → Check γ} {k : β → Check δ} (hx : Echoes g x y)
    (hf : ∀ a, Echoes h (f a) (k (g a))) : Echoes h (x >>= f) (y >>= k) := by
  intro s
  obtain ⟨hresult, hsession⟩ := hx s
  rw [run_bind, run_bind, hresult, hsession]
  cases (x.run s).result with
  | error d => exact ⟨rfl, rfl⟩
  | ok a => exact hf a _

/-- A last step that builds the value. -/
theorem echoes_bind_pure {f : α → γ} {k : β → δ} (hx : Echoes g x y)
    (hf : ∀ a, k (g a) = h (f a)) :
    Echoes h (x >>= fun a => pure (f a)) (y >>= fun b => pure (k b)) := by
  refine echoes_bind hx fun a => ?_
  rw [hf]
  exact echoes_pure (f a)

theorem echoes_inScope (kind : ScopeKind) (hx : Echoes g x y) :
    Echoes g (inScope kind x) (inScope kind y) := by
  refine echoes_bind (echoes_self (enter kind)) fun _ s => ?_
  obtain ⟨hresult, hsession⟩ := hx s
  show (exit.run (y.run s).session).result.bind (fun _ => (y.run s).result) =
      ((exit.run (x.run s).session).result.bind fun _ => (x.run s).result).map g ∧
    (exit.run (y.run s).session).session = (exit.run (x.run s).session).session
  rw [hresult, hsession]
  cases (exit.run (x.run s).session).result <;> exact ⟨rfl, rfl⟩

end Check

/-! ## 5. Nested programs -/

/-- An `if` sees the same in a fresh scope as around it. -/
theorem Session.agree_enter_block (s : Session) (ns : List Node) :
    Session.Agree ns (fun _ => False) s (s.enter .block) where
  serial := rfl
  lookup _ _ x _ := (Scopes.lookup?_enter s.scopes .block x).symm
  declares _ := False.elim
  inLoop := rfl
  function := rfl

/-- **An `if` comes to the same in a scope of its own**, failures included. -/
theorem Branch.echoes_block (b : Branch) :
    Echoes (fun r => [.branch r]) b.check (inScope .block (Stmt.checkAll [.branch b])) := by
  intro s
  have hrow : ∀ t : Session, ((Stmt.checkAll [.branch b]).run t).result =
        (b.check.run t).result.map (fun r => [.branch r]) ∧
      ((Stmt.checkAll [.branch b]).run t).session = (b.check.run t).session := by
    intro t
    rw [Stmt.checkAll, Stmt.check, run_bind, run_bind]
    cases (b.check.run t).result <;> exact ⟨rfl, rfl⟩
  -- the `if` declares nothing, so the two runs leave the scopes alone and count alike
  have htame := Stmt.tame_checkAll [.branch b]
  have hscopes : (b.check.run s).session.scopes = s.scopes := (b.tame_check.gains s).eq_of_nil
  obtain ⟨hresult, hagree⟩ := b.respects_check (List.Subset.refl _) s (s.enter .block)
    (s.agree_enter_block b.inner)
  have hserial := hagree.serial
  have hsession : (b.check.run s).session = ⟨s.scopes, (b.check.run s).session.serial⟩ := by
    rw [← hscopes]
  refine ⟨?_, ?_⟩
  · rw [htame.result_inScope, (hrow _).1, hresult]
  · rw [run_inScope (htame.gains (s.enter .block)).outer, (hrow _).2, ← hserial, hsession]

section

variable {nested : Place → Bool}

/-- A statement without inner statements is left as it is, and so is what it stands for. -/
theorem Stmt.echoes_of_plain {s : Stmt} {here : Place}
    (h : ∀ Γ r, s.Elaborates Γ r → r.nest nested here = r) :
    Echoes (Resolved.Stmt.nest nested here) s.check s.check := by
  refine echoes_of_fixed fun σ r hr => ?_
  obtain ⟨hderived, -, -⟩ := (s.yields_check r σ _).mp ⟨hr, rfl⟩
  exact h _ r hderived

mutual

theorem Stmt.echoes_nest (here : Place) : ∀ s : Stmt,
    Echoes (Resolved.Stmt.nest nested here) s.check (s.nest nested here).check
  | .declare _ _ _ _ | .step _ _ _ | .assign _ _ _ | .exitLoop _ | .returnValue _ _
  | .returnNothing _ | .eval _ _ => by
      refine Stmt.echoes_of_plain fun Γ r hr => ?_
      cases hr
      rfl
  | .function name parameters result body span => by
      rw [Stmt.nest, Stmt.check, Stmt.check]
      refine echoes_bind (echoes_self _) fun ty => echoes_inScope .functionBody ?_
      refine echoes_bind (echoes_self _) fun ps => echoes_bind (echoes_self _) fun f => ?_
      exact echoes_bind_pure (Stmt.echoes_nestAll (.body :: here) 0 body) fun _ => rfl
  | .branch b => by
      rw [Stmt.nest, Stmt.check, Stmt.check]
      exact echoes_bind_pure (b.echoes_nest (.branch :: here)) fun _ => rfl
  | .whileLoop test body span => by
      rw [Stmt.nest, Stmt.check, Stmt.check]
      refine echoes_bind (echoes_self _) fun t => ?_
      exact echoes_bind_pure
        (echoes_inScope .loop (Stmt.echoes_nestAll (.body :: here) 0 body)) fun _ => rfl
  | .forEach x collection body span => by
      rw [Stmt.nest, Stmt.check, Stmt.check]
      refine echoes_bind (echoes_self _) fun ⟨r, element⟩ => echoes_inScope .loop ?_
      refine echoes_bind (echoes_self _) fun v => ?_
      exact echoes_bind_pure (Stmt.echoes_nestAll (.body :: here) 0 body) fun _ => rfl

theorem Branch.echoes_nest (here : Place) : ∀ b : Branch,
    Echoes (Resolved.Branch.nest nested here) b.check (b.nest nested here).check
  | .mk test consequent alternate span => by
      rw [Branch.nest, Branch.check, Branch.check]
      refine echoes_bind (echoes_self _) fun t => ?_
      have hrs := Stmt.echoes_nestAll (.consequent :: here) 0 consequent
      refine echoes_bind (echoes_inScope .block hrs) fun rs => ?_
      exact echoes_bind_pure (alternate.echoes_nest (.alternate :: here)) fun _ => rfl

theorem Alternate.echoes_nest (here : Place) : ∀ a : Alternate,
    Echoes (Resolved.Alternate.nest nested here) a.check (a.nest nested here).check
  | .none => by
      rw [Alternate.nest, Alternate.check]
      exact echoes_pure _
  | .block body => by
      rw [Alternate.nest, Alternate.check, Alternate.check]
      exact echoes_bind_pure (echoes_inScope .block (Stmt.echoes_nestAll here 0 body)) fun _ => rfl
  | .elseIf next => by
      have hnext := next.echoes_nest here
      rw [Alternate.nest, Alternate.check]
      by_cases hhere : nested here = true
      · -- first the `if` goes into a block, and then what it stands for
        rw [if_pos hhere, Alternate.check]
        refine echoes_bind_pure (hnext.trans (next.nest nested here).echoes_block) fun r => ?_
        rw [Resolved.Alternate.nest, if_pos hhere, Function.comp]
      · rw [if_neg hhere, Alternate.check]
        refine echoes_bind_pure hnext fun r => ?_
        rw [Resolved.Alternate.nest, if_neg hhere]

/-- **An `else if` may be written as a block at any places.** -/
theorem Stmt.echoes_nestAll (here : Place) (i : Nat) : ∀ ss : List Stmt,
    Echoes (Resolved.Stmt.nestAll nested here i) (Stmt.checkAll ss)
      (Stmt.checkAll (Stmt.nestAll nested here i ss))
  | [] => by
      rw [Stmt.nestAll, Stmt.checkAll]
      exact echoes_pure _
  | s :: ss => by
      rw [Stmt.nestAll, Stmt.checkAll, Stmt.checkAll]
      refine echoes_bind (s.echoes_nest (.item i :: here)) fun r => ?_
      exact echoes_bind_pure (Stmt.echoes_nestAll here (i + 1) ss) fun _ => rfl

end

theorem result_analyze_nestAll (c : Catalog) (p : Program) :
    (analyze c (Stmt.nestAll nested [] 0 p)).result =
      (analyze c p).result.map (Resolved.Stmt.nestAll nested [] 0) := by
  have hnested : Echoes (Resolved.Stmt.nestAll nested [] 0) (Stmt.checkAll p) _ :=
    Stmt.echoes_nestAll [] 0 p
  simp only [analyze]
  cases (Session.load c).result with
  | error d => rfl
  | ok _ => exact (hnested (Session.load c).session).1

end

/-- **Fresh scopes are transparent.** Statements that are accepted in a session are accepted in a
    block and in a loop there, with the same result: so they are as a branch, after `else`, as the
    body of a loop with a test, and, when they do not use the name of its iterator, as the body of a
    loop over a list, where the numbers of their declarations move up by one. And an `else if` is an
    `else` with a block that holds an `if`: written so at any places of a program, the analysis
    comes to the same diagnostic, or to the same resolved program with blocks at the same places. -/
theorem fresh_scopes_are_transparent (c : Catalog) :
    (∀ (s : Session) (ss : List Stmt) (rs : List Resolved.Stmt),
      ((Stmt.checkAll ss).run s).result = .ok rs →
        ((inScope .block (Stmt.checkAll ss)).run s).result = .ok rs ∧
        ((inScope .loop (Stmt.checkAll ss)).run s).result = .ok rs ∧
        (∀ test t span, ((checkTest test).run s).result = .ok t →
          ((Stmt.branch (.mk test ss .none span)).check.run s).result =
            .ok (.branch (.mk t rs .none)) ∧
          ((Stmt.branch (.mk test [] (.block ss) span)).check.run s).result =
            .ok (.branch (.mk t [] (.block rs))) ∧
          ((Stmt.whileLoop test ss span).check.run s).result = .ok (.whileLoop t rs)) ∧
        (∀ x collection r element span, s.Arises c →
          ((checkCollection collection).run s).result = .ok (r, element) →
          (∀ node ∈ Stmt.nodesAll ss, node.mentioned? ≠ some x) →
          x ∉ ss.filterMap Stmt.declares? →
          ((Stmt.forEach x collection ss span).check.run s).result =
            .ok (.forEach ⟨.program s.serial, x, true, element⟩ r
              (Resolved.Stmt.renameAll (Identity.redirect id s.serial 1) rs)))) ∧
    (∀ (nested : Place → Bool) (p : Program),
      (analyze c (Stmt.nestAll nested [] 0 p)).result =
        (analyze c p).result.map (Resolved.Stmt.nestAll nested [] 0)) := by
  constructor
  · intro s ss rs h
    refine ⟨Stmt.result_block h .block nofun, Stmt.result_block h .loop nofun, ?_, ?_⟩
    · intro test t span ht
      exact Stmt.result_moved h ht span
    · intro x collection r element span hs hcollection hmentioned hdeclared
      exact Stmt.result_forEach_moved hs h hcollection hmentioned hdeclared span
  · intro nested p
    exact result_analyze_nestAll c p

/-- A variable, and a loop that is left when an `if` chain comes to its last block. -/
def countedLoop : Program :=
  [.declare "n" false (.int 0 .origin) .origin,
   .whileLoop (.bool true .origin)
    [.branch (.mk (.binary .less (.name "n" .origin) (.int 1 .origin) .origin)
      [.step .up (.name "n" .origin) .origin]
      (.elseIf (.mk (.binary .less (.name "n" .origin) (.int 2 .origin) .origin)
        [.declare "n" true (.str "two" .origin) .origin]
        (.elseIf (.mk (.bool true .origin) [.exitLoop .origin] .none .origin)) .origin)) .origin)]
    .origin]

/-- The same with each `else if` as a block. -/
def countedBlocks : Program :=
  [.declare "n" false (.int 0 .origin) .origin,
   .whileLoop (.bool true .origin)
    [.branch (.mk (.binary .less (.name "n" .origin) (.int 1 .origin) .origin)
      [.step .up (.name "n" .origin) .origin]
      (.block [.branch (.mk (.binary .less (.name "n" .origin) (.int 2 .origin) .origin)
        [.declare "n" true (.str "two" .origin) .origin]
        (.block [.branch (.mk (.bool true .origin) [.exitLoop .origin] .none .origin)])
        .origin)]) .origin)]
    .origin]

/-- The whole program may stand in a loop over a list, and its chain may be written with blocks. -/
theorem fresh_scopes_are_transparent_countedLoop :
    ∃ R, (analyze .standard countedLoop).result = .ok R ∧
      ((Stmt.whileLoop (.bool true .origin) countedLoop .origin).check.run
        (Session.loaded .standard)).result = .ok (.whileLoop (.mk (.bool true) .bool) R) ∧
      (∃ r, ((Stmt.forEach "i" (.list [.int 1 .origin] .origin) countedLoop .origin).check.run
        (Session.loaded .standard)).result = .ok r) ∧
      (analyze .standard countedBlocks).result =
        .ok (Resolved.Stmt.nestAll (fun _ => true) [] 0 R) := by
  obtain ⟨hscopes, hnested⟩ := fresh_scopes_are_transparent .standard
  obtain ⟨R, hR⟩ : ∃ R, ((Session.loaded .standard).step countedLoop).result = .ok R := ⟨_, rfl⟩
  have hanalyzed : (analyze .standard countedLoop).result = .ok R := by
    rw [result_analyze_of_nodup (by decide)]
    exact hR
  have harises : (Session.loaded .standard).Arises .standard := .opened rfl
  obtain ⟨-, -, htest, hlist⟩ := hscopes _ _ _ hR
  obtain ⟨-, -, hwhile⟩ := htest (.bool true .origin) _ .origin rfl
  have hforEach := hlist "i" (.list [.int 1 .origin] .origin) _ _ .origin harises rfl
    (by decide) (by decide)
  have hblocks := hnested (fun _ => true) countedLoop
  rw [hanalyzed] at hblocks
  exact ⟨R, hanalyzed, hwhile, ⟨_, hforEach⟩, hblocks⟩

end Sema
