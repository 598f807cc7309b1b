import Mathlib.Logic.Relation
import Sema.Proofs.Loading
import Sema.Proofs.Stack

/-!
# The sessions that arise

An analysis does five things to its session: it takes a number, opens a scope, closes one, declares
something under a name, and records the function of a body (`Session.Move`). A session arises on a
catalog when it is reached by such moves from the session that holds the catalog
(`Session.Arises`), so whatever every move keeps holds of all of them.

Nothing that a check does escapes this: every computation that checks are built from goes by moves,
and so does every check of a statement (`Check.Moves`, `Stmt.moves_check`). So the sessions in the
middle of an analysis, with any number of scopes open, arise as well as those between programs.

What is declared under way carries a number that was taken before, so it is a variable, a function
or a parameter: no move declares a type.
-/

namespace Sema

open Check Relation

/-! ## 1. Moves -/

/-- One thing that an analysis does to its session. -/
inductive Session.Move : Session → Session → Prop where
  /-- The next number is taken. -/
  | number (s : Session) : Move s { s with serial := s.serial + 1 }
  | enter (s : Session) (kind : ScopeKind) : Move s (s.enter kind)
  | exit {s : Session} {Γ : Scopes} (h : s.scopes.exit? = .ok Γ) : Move s { s with scopes := Γ }
  /-- Something with a number that has been taken is declared in an open scope. -/
  | declare {s : Session} {Γ : Scopes} {i n : Nat} {x : String} {e : Entity}
      (he : e.identity? = some (.program n)) (hn : n < s.serial)
      (h : s.scopes.defineIn i x e = .ok Γ) : Move s { s with scopes := Γ }
  /-- A function with a number that has been taken is recorded in the current scope. -/
  | function {s : Session} {Γ : Scopes} {n : Nat} {f : Decl.Function}
      (hf : f.identity = .program n) (hn : n < s.serial)
      (h : s.scopes.setFunction s.scopes.depth f = .ok Γ) : Move s { s with scopes := Γ }

/-- The sessions that arise in analyses on a catalog, between programs and in the middle of them. -/
inductive Session.Arises (c : Catalog) : Session → Prop where
  | opened {s : Session} (h : Session.open? c = .ok s) : Arises c s
  | move {s t : Session} (h : Arises c s) (hm : s.Move t) : Arises c t

namespace Session

/-- Numbers are never given back. -/
theorem Move.serial_le {s t : Session} (h : s.Move t) : s.serial ≤ t.serial := by
  cases h with
  | number => exact Nat.le_succ _
  | enter | exit | declare | function => exact Nat.le_refl _

theorem serial_le_of_moves {s t : Session} (h : ReflTransGen Move s t) : s.serial ≤ t.serial := by
  induction h with
  | refl => exact Nat.le_refl _
  | tail _ hm ih => exact Nat.le_trans ih hm.serial_le

theorem Arises.moves {c : Catalog} {s t : Session} (h : s.Arises c) (hm : ReflTransGen Move s t) :
    t.Arises c := by
  induction hm with
  | refl => exact h
  | tail _ hm ih => exact ih.move hm

end Session

/-! ## 2. Computations that go by moves -/

namespace Check

variable {α β : Type} {n : Nat}

/-- On every session in which the numbers below `n` have been taken, the computation goes by moves,
    whether it succeeds or fails. -/
def Moves (x : Check α) (n : Nat) : Prop :=
  ∀ s : Session, n ≤ s.serial → ReflTransGen Session.Move s (x.run s).session

theorem Moves.serial_le {x : Check α} (h : x.Moves n) {s : Session} (hs : n ≤ s.serial) :
    s.serial ≤ (x.run s).session.serial :=
  Session.serial_le_of_moves (h s hs)

theorem moves_pure (a : α) (n : Nat) : (pure a : Check α).Moves n := fun _ _ => .refl

theorem moves_reading (x : Scopes → Traced α) (n : Nat) : (reading x).Moves n := fun _ _ => .refl

theorem moves_bind {x : Check α} {f : α → Check β} (hx : x.Moves n) (hf : ∀ a, (f a).Moves n) :
    (x >>= f).Moves n := by
  intro s hs
  have hfirst := hx s hs
  rw [run_bind]
  cases (x.run s).result with
  | error d => exact hfirst
  | ok a => exact hfirst.trans (hf a _ (Nat.le_trans hs (hx.serial_le hs)))

/-- What follows a new number may count on it as taken. -/
theorem moves_fresh_bind {f : Identity → Check β} (hf : ∀ k, (f (.program k)).Moves (k + 1)) :
    (fresh >>= f).Moves n := by
  intro s _
  have hfirst : ReflTransGen Session.Move s { s with serial := s.serial + 1 } :=
    .single (.number s)
  rw [run_bind, run_fresh]
  exact hfirst.trans (hf s.serial _ (Nat.le_refl _))

theorem moves_declareIn {e : Entity} {k : Nat} (i : Nat) (x : String) (span : Option Span)
    (he : e.identity? = some (.program k)) : (declareIn i x e span).Moves (k + 1) := by
  intro s hs
  show ReflTransGen Session.Move s (declareIn i x e span s).session
  unfold declareIn
  cases h : s.scopes.defineIn i x e with
  | ok Γ => exact .single (.declare he hs h)
  | error reason => cases reason <;> exact .refl

theorem moves_declare {e : Entity} {k : Nat} (x : String) (span : Option Span)
    (he : e.identity? = some (.program k)) : (declare x e span).Moves (k + 1) :=
  moves_bind (fun _ _ => .refl) fun Γ => moves_declareIn Γ.depth x span he

theorem moves_setFunction {f : Decl.Function} {k : Nat} (hf : f.identity = .program k) :
    (setFunction f).Moves (k + 1) := by
  intro s hs
  show ReflTransGen Session.Move s (setFunction f s).session
  unfold setFunction
  cases h : s.scopes.setFunction s.scopes.depth f with
  | ok Γ => exact .single (.function hf hs h)
  | error reason => exact .refl

theorem moves_inScope {x : Check α} (kind : ScopeKind) (hx : x.Moves n) :
    (inScope kind x).Moves n := by
  intro s hs
  have hopen : ReflTransGen Session.Move s (s.enter kind) := .single (.enter s kind)
  have hrun := hopen.trans (hx (s.enter kind) hs)
  show ReflTransGen Session.Move s (exit (x.run (s.enter kind)).session).session
  unfold exit
  cases h : (x.run (s.enter kind)).session.scopes.exit? with
  | ok Γ => exact hrun.tail (.exit h)
  | error reason => exact hrun

end Check

/-! ## 3. Statements -/

theorem moves_declareVariable (name : String) (readOnly : Bool) (ty : Ty) (span : Span) (n : Nat) :
    (declareVariable name readOnly ty span).Moves n :=
  moves_fresh_bind fun _ => moves_bind (moves_declare name (some span) rfl) fun _ => moves_pure _ _

theorem Parameter.moves_check (p : Parameter) (n : Nat) : p.check.Moves n :=
  moves_bind (moves_reading _ n) fun _ =>
    moves_fresh_bind fun _ =>
      moves_bind (moves_declare p.name (some p.span) rfl) fun _ => moves_pure _ _

theorem Parameter.moves_checkAll (n : Nat) :
    ∀ ps : List Parameter, (Parameter.checkAll ps).Moves n
  | [] => moves_pure _ n
  | p :: ps =>
      moves_bind (p.moves_check n) fun _ =>
        moves_bind (Parameter.moves_checkAll n ps) fun _ => moves_pure _ n

theorem moves_checkResult (result : Option TypeExpr) (n : Nat) : (checkResult result).Moves n := by
  cases result with
  | none => exact moves_pure _ n
  | some t => exact moves_reading _ n

theorem moves_declareFunction (name : String) (signature : Signature) (span : Span) (n : Nat) :
    (declareFunction name signature span).Moves n := by
  refine moves_fresh_bind fun k => ?_
  refine moves_bind (fun _ _ => .refl) fun _ => ?_
  refine moves_bind (moves_setFunction rfl) fun _ => ?_
  refine moves_bind (fun _ _ => .refl) fun Γ => ?_
  exact moves_bind (moves_declareIn (Γ.depth - 1) name (some span) rfl) fun _ => moves_pure _ _

mutual

/-- **The check of a statement goes by moves**, whether it succeeds or fails. -/
theorem Stmt.moves_check (n : Nat) : ∀ s : Stmt, s.check.Moves n
  | .declare name readOnly init span => by
      rw [Stmt.check]
      exact moves_bind (moves_reading _ n) fun r =>
        moves_bind (moves_declareVariable name readOnly r.ty span n) fun _ => moves_pure _ n
  | .function name parameters result body span => by
      rw [Stmt.check]
      refine moves_bind (moves_checkResult result n) fun r => moves_inScope .functionBody ?_
      exact moves_bind (Parameter.moves_checkAll n parameters) fun ps =>
        moves_bind (moves_declareFunction name _ span n) fun _ =>
        moves_bind (Stmt.moves_checkAll n body) fun _ => moves_pure _ n
  | .step _ _ _ => by
      rw [Stmt.check]
      exact moves_bind (moves_reading _ n) fun _ => moves_pure _ n
  | .assign target source span => by
      rw [Stmt.check]
      exact moves_reading _ n
  | .exitLoop _ => by
      rw [Stmt.check]
      exact moves_bind (fun _ _ => .refl) fun _ =>
        moves_bind (moves_reading _ n) fun _ => moves_pure _ n
  | .returnValue _ _ => by
      rw [Stmt.check]
      exact moves_reading _ n
  | .returnNothing _ => by
      rw [Stmt.check]
      exact moves_reading _ n
  | .branch b => by
      rw [Stmt.check]
      exact moves_bind (b.moves_check n) fun _ => moves_pure _ n
  | .whileLoop _ body _ => by
      rw [Stmt.check]
      exact moves_bind (moves_reading _ n) fun _ =>
        moves_bind (moves_inScope .loop (Stmt.moves_checkAll n body)) fun _ => moves_pure _ n
  | .forEach iterator _ body span => by
      rw [Stmt.check]
      refine moves_bind (moves_reading _ n) fun ⟨_, element⟩ => moves_inScope .loop ?_
      exact moves_bind (moves_declareVariable iterator true element span n) fun _ =>
        moves_bind (Stmt.moves_checkAll n body) fun _ => moves_pure _ n
  | .eval _ _ => by
      rw [Stmt.check]
      exact moves_bind (moves_reading _ n) fun _ => moves_pure _ n

theorem Branch.moves_check (n : Nat) : ∀ b : Branch, b.check.Moves n
  | .mk _ consequent alternate _ => by
      rw [Branch.check]
      exact moves_bind (moves_reading _ n) fun _ =>
        moves_bind (moves_inScope .block (Stmt.moves_checkAll n consequent)) fun _ =>
        moves_bind (alternate.moves_check n) fun _ => moves_pure _ n

theorem Alternate.moves_check (n : Nat) : ∀ a : Alternate, a.check.Moves n
  | .none => by
      rw [Alternate.check]
      exact moves_pure _ n
  | .block body => by
      rw [Alternate.check]
      exact moves_bind (moves_inScope .block (Stmt.moves_checkAll n body)) fun _ => moves_pure _ n
  | .elseIf next => by
      rw [Alternate.check]
      exact moves_bind (next.moves_check n) fun _ => moves_pure _ n

/-- So do statements in a row. -/
theorem Stmt.moves_checkAll (n : Nat) : ∀ ss : List Stmt, (Stmt.checkAll ss).Moves n
  | [] => by
      rw [Stmt.checkAll]
      exact moves_pure _ n
  | s :: ss => by
      rw [Stmt.checkAll]
      exact moves_bind (s.moves_check n) fun _ =>
        moves_bind (Stmt.moves_checkAll n ss) fun _ => moves_pure _ n

end

/-! ## 4. Sessions in the middle of an analysis -/

/-- What a check can do next in a session, in the order in which a function or a loop does it. -/
structure Session.Closed (P : Session → Prop) : Prop where
  enter : ∀ {s : Session} (kind : ScopeKind), P s → P (s.enter kind)
  exit : ∀ {s : Session} {Γ : Scopes}, P s → s.scopes.exit? = .ok Γ → P { s with scopes := Γ }
  declaration : ∀ {s : Session} (name : String) (readOnly : Bool) (ty : Ty) (span : Span), P s →
    P ((declareVariable name readOnly ty span).run s).session
  parameters : ∀ {s : Session} (ps : List Parameter), P s →
    P ((Parameter.checkAll ps).run s).session
  function : ∀ {s : Session} (name : String) (signature : Signature) (span : Span), P s →
    P ((declareFunction name signature span).run s).session
  statement : ∀ {s : Session} (x : Stmt), P s → P (x.check.run s).session
  statements : ∀ {s : Session} (xs : List Stmt), P s → P ((Stmt.checkAll xs).run s).session

/-- **Every step of a check leads from a session that arises to one that does.** -/
theorem Session.closed_arises (c : Catalog) : Session.Closed (Session.Arises c) where
  enter kind h := h.move (.enter _ kind)
  exit h hexit := h.move (.exit hexit)
  declaration name readOnly ty span h :=
    h.moves (moves_declareVariable name readOnly ty span 0 _ (Nat.zero_le _))
  parameters ps h := h.moves (Parameter.moves_checkAll 0 ps _ (Nat.zero_le _))
  function name signature span h :=
    h.moves (moves_declareFunction name signature span 0 _ (Nat.zero_le _))
  statement x h := h.moves (x.moves_check 0 _ (Nat.zero_le _))
  statements xs h := h.moves (Stmt.moves_checkAll 0 xs _ (Nat.zero_le _))

end Sema
