import Sema.Proofs.Balance
import Sema.Proofs.Replay
import Sema.Syntax.Node

/-!
# The trace is faithful

An analysis records what it does from many places, and it may end at any of them. Here the events
are shown to tell all of it and nothing else:

* `Check.Records` says of a computation that, on every session and whatever it comes to, its events
  are so when they are met, and that the ledger they lead to is the ledger of the scopes that it
  leaves. It composes along steps (`Check.records_bind`), and since a scope is closed whether its
  body fails or not, it holds of a body in a scope too (`Check.records_inScope`).
* It also says which events there are when the computation succeeds. Every node of a program leaves
  certain marks (`Node.marks`): a name is found once, a declaration is made once, and a body has one
  scope. The events leave the same marks, in some order: an assignment looks at its source first,
  and a function at its result type.
-/

namespace Sema

open Check Traced

/-! ## 1. Marks -/

/-- What an event says about the place in the program that it comes from. -/
inductive Mark where
  | reference (name : String)
  | declaration (name : String)
  | opening (kind : ScopeKind)
  | closing
deriving DecidableEq

/-- A scope is opened and closed. -/
def Mark.scope (kind : ScopeKind) : List Mark := [.opening kind, .closing]

/-- The mark that an event leaves. -/
def Event.mark? : Event → Option Mark
  | .resolved x _ => some (.reference x)
  | .declared _ x _ => some (.declaration x)
  | .entered _ kind => some (.opening kind)
  | .exited _ => some .closing
  | _ => none

/-- The marks of what follows `else`: a block has a scope, and an *else if* is a node of its own. -/
def Alternate.marks : Alternate → List Mark
  | .block _ => Mark.scope .block
  | .none | .elseIf _ => []

/-- The marks that an `if` leaves besides those of the nodes below it. -/
def Branch.marks : Branch → List Mark
  | .mk _ _ alternate _ => Mark.scope .block ++ alternate.marks

/-- The marks that a node leaves besides those of the nodes below it. -/
def Node.marks : Node → List Mark
  | .expr (.name x _) | .type (.named x _) => [.reference x]
  | .parameter p => [.declaration p.name]
  | .stmt (.declare x _ _ _) => [.declaration x]
  | .stmt (.function f _ _ _ _) => .declaration f :: Mark.scope .functionBody
  | .stmt (.forEach x _ _ _) => .declaration x :: Mark.scope .loop
  | .stmt (.whileLoop _ _ _) => Mark.scope .loop
  | .stmt (.branch b) | .elseIf b => b.marks
  | _ => []

/-! ## 2. Looking names up -/

namespace Traced

variable {α β : Type} {Γ : Scopes} {ms ns : List Mark}

/-- Every event tells where a name was found, and on success the names leave the given marks. -/
structure Seeks (x : Traced α) (Γ : Scopes) (ms : List Mark) : Prop where
  located : ∀ e ∈ x.log, ∃ name i entity, e = .resolved name i ∧ Γ.locate? name = some (i, entity)
  complete : ∀ a, x.result = .ok a → (x.log.filterMap Event.mark?).Perm ms

theorem Seeks.of_perm {x : Traced α} (h : x.Seeks Γ ms) (hperm : ms.Perm ns) : x.Seeks Γ ns :=
  ⟨h.located, fun a ha => (h.complete a ha).trans hperm⟩

theorem seeks_of_log_eq_nil {x : Traced α} (h : x.log = []) : x.Seeks Γ [] where
  located := by simp [h]
  complete := by simp [h]

theorem seeks_pure (a : α) : (pure a : Traced α).Seeks Γ [] := seeks_of_log_eq_nil rfl

/-- A failure owes nothing. -/
theorem seeks_fail (p : Problem) (span : Span) : (fail p span : Traced α).Seeks Γ ms where
  located := by simp
  complete := nofun

theorem log_bind_eq_nil {x : Traced α} {f : α → Traced β} (hx : x.log = [])
    (hf : ∀ a, (f a).log = []) : (x >>= f).log = [] := by
  show (andThen x f).log = []
  unfold andThen
  cases x.result <;> simp [hx, hf]

theorem seeks_bind {x : Traced α} {f : α → Traced β} (hx : x.Seeks Γ ms)
    (hf : ∀ a, (f a).Seeks Γ ns) : (x >>= f).Seeks Γ (ms ++ ns) := by
  have hbind : x >>= f = andThen x f := rfl
  rw [hbind]
  unfold andThen
  cases hr : x.result with
  | error d => exact ⟨hx.located, nofun⟩
  | ok a =>
      refine ⟨fun e he => ?_, fun b hb => ?_⟩
      · rcases List.mem_append.mp he with he | he
        · exact hx.located e he
        · exact (hf a).located e he
      · rw [List.filterMap_append]
        exact (hx.complete a hr).append ((hf a).complete b hb)

/-- A step that looks nothing up leaves nothing. -/
theorem seeks_silent_bind {x : Traced α} {f : α → Traced β} (hx : x.log = [])
    (hf : ∀ a, (f a).Seeks Γ ms) : (x >>= f).Seeks Γ ms :=
  seeks_bind (seeks_of_log_eq_nil hx) hf

end Traced

/-! ## 3. Rules, written types and expressions -/

namespace Traced

theorem log_require (holds : Bool) (p : Problem) (span : Span) :
    (require holds p span).log = [] := by
  cases holds <;> rfl

theorem log_expectList (found : Ty) (span : Span) : (expectList found span).log = [] := by
  unfold expectList
  split <;> rfl

theorem log_expectCallable (found : Ty) (span : Span) :
    (expectCallable found span).log = [] := by
  unfold expectCallable
  split <;> rfl

theorem log_expectOperand (found : Ty) (span : Span) (c : OperandClass) :
    (expectOperand found span c).log = [] := by
  cases c with
  | number => exact log_require ..
  | numberOrString => exact log_require ..
  | anything => rfl

theorem log_expectFitting (span : Span) :
    ∀ arguments parameters : List Ty, (expectFitting span arguments parameters).log = []
  | [], _ | _ :: _, [] => rfl
  | _ :: arguments, _ :: parameters =>
      log_bind_eq_nil (log_require ..) fun _ => log_expectFitting span arguments parameters

theorem log_expectArguments (arguments parameters : List Ty) (span : Span) :
    (expectArguments arguments parameters span).log = [] :=
  log_bind_eq_nil (log_require ..) fun _ => log_expectFitting ..

theorem log_expectUniform (elements : List Ty) (span : Span) :
    (expectUniform elements span).log = [] := by
  cases elements with
  | nil => rfl
  | cons first rest => exact log_bind_eq_nil (log_require ..) fun _ => rfl

theorem log_expectVariable (target : Resolved.Expr) (span : Span) :
    (expectVariable target span).log = [] := by
  unfold expectVariable
  split <;> rfl

theorem log_expectWritable (target : Resolved.Expr) (span : Span) :
    (expectWritable target span).log = [] := by
  unfold expectWritable
  split
  · exact log_require ..
  · rfl

end Traced

theorem log_expectBools : ∀ (rs : List Resolved.Expr) (es : List Expr), (expectBools rs es).log = []
  | [], _ | _ :: _, [] => rfl
  | _ :: rs, _ :: es => log_bind_eq_nil (log_require ..) fun _ => log_expectBools rs es

theorem BinaryOp.log_check (op : BinaryOp) (left right : Ty) (span : Span) :
    (op.check left right span).log = [] :=
  log_bind_eq_nil (log_expectOperand ..) fun _ => log_bind_eq_nil (log_require ..) fun _ => rfl

theorem UnaryOp.log_check (op : UnaryOp) (operand : Ty) (span : Span) :
    (op.check operand span).log = [] := by
  cases op <;> exact log_bind_eq_nil (log_require ..) fun _ => rfl

theorem Scopes.seeks_resolve (Γ : Scopes) (name : String) (span : Span) :
    (Γ.resolve name span).Seeks Γ [.reference name] := by
  unfold Scopes.resolve
  split
  next i e h =>
    refine ⟨fun ev hev => ?_, fun _ _ => .refl _⟩
    exact ⟨name, i, e, List.mem_singleton.mp hev, h⟩
  next => exact seeks_fail _ span

mutual

/-- A written type looks up each name in it once. -/
theorem TypeExpr.seeks_resolve (Γ : Scopes) :
    ∀ t : TypeExpr, (t.resolve Γ).Seeks Γ (t.nodes.flatMap Node.marks)
  | .named x span => by
      rw [TypeExpr.resolve]
      have hmeaning : ∀ e : Entity, Seeks (match e with
          | .type t => (pure t : Traced Ty)
          | _ => fail .typeExpected span) Γ [] := by
        intro e
        cases e with
        | type t => exact seeks_pure t
        | _ => exact seeks_fail _ span
      exact seeks_bind (Γ.seeks_resolve x span) hmeaning
  | .list element _ => by
      rw [TypeExpr.resolve]
      have h := seeks_bind (element.seeks_resolve Γ) fun t => seeks_pure (Ty.list t)
      exact h.of_perm (by simp [TypeExpr.nodes, Node.marks])
  | .function parameters result _ => by
      rw [TypeExpr.resolve]
      have h := seeks_bind (TypeExpr.seeks_resolveAll Γ parameters) fun ps =>
        seeks_bind (result.seeks_resolve Γ) fun r => seeks_pure (Ty.function ps r)
      exact h.of_perm (by simp [TypeExpr.nodes, Node.marks])

theorem TypeExpr.seeks_resolveAll (Γ : Scopes) : ∀ ts : List TypeExpr,
    (TypeExpr.resolveAll Γ ts).Seeks Γ ((TypeExpr.nodesAll ts).flatMap Node.marks)
  | [] => seeks_pure _
  | t :: ts => by
      rw [TypeExpr.resolveAll]
      have h := seeks_bind (t.seeks_resolve Γ) fun t =>
        seeks_bind (TypeExpr.seeks_resolveAll Γ ts) fun ts => seeks_pure (t :: ts)
      exact h.of_perm (by simp [TypeExpr.nodesAll])

end

mutual

/-- **An expression looks up each name in it once.** -/
theorem Expr.seeks_check (Γ : Scopes) :
    ∀ e : Expr, (e.check Γ).Seeks Γ (e.nodes.flatMap Node.marks)
  | .int _ _ | .float _ _ | .bool _ _ | .str _ _ => by
      rw [Expr.check]
      exact seeks_pure _
  | .name x span => by
      rw [Expr.check]
      exact seeks_bind (Γ.seeks_resolve x span) fun _ => seeks_pure _
  | .conditional test consequent alternate span => by
      rw [Expr.check]
      refine .of_perm (seeks_bind (test.seeks_check Γ) fun t =>
        seeks_silent_bind (log_require ..) fun _ =>
        seeks_bind (consequent.seeks_check Γ) fun c =>
        seeks_bind (alternate.seeks_check Γ) fun a =>
        seeks_silent_bind (log_require ..) fun _ => seeks_pure _) ?_
      simp [Expr.nodes, Node.marks]
  | .logical op operands _ => by
      rw [Expr.check]
      refine .of_perm (seeks_bind (Expr.seeks_checkAll Γ operands) fun rs =>
        seeks_silent_bind (log_expectBools rs operands) fun _ => seeks_pure _) ?_
      simp [Expr.nodes, Node.marks]
  | .binary op left right span => by
      rw [Expr.check]
      refine .of_perm (seeks_bind (left.seeks_check Γ) fun l =>
        seeks_bind (right.seeks_check Γ) fun r =>
        seeks_silent_bind (op.log_check l.ty r.ty span) fun _ => seeks_pure _) ?_
      simp [Expr.nodes, Node.marks]
  | .unary op operand span => by
      rw [Expr.check]
      refine .of_perm (seeks_bind (operand.seeks_check Γ) fun e =>
        seeks_silent_bind (op.log_check e.ty span) fun _ => seeks_pure _) ?_
      simp [Expr.nodes, Node.marks]
  | .subscript items index _ => by
      rw [Expr.check]
      refine .of_perm (seeks_bind (items.seeks_check Γ) fun l =>
        seeks_silent_bind (log_expectList ..) fun _ =>
        seeks_bind (index.seeks_check Γ) fun i =>
        seeks_silent_bind (log_require ..) fun _ => seeks_pure _) ?_
      simp [Expr.nodes, Node.marks]
  | .list elements span => by
      rw [Expr.check]
      refine .of_perm (seeks_bind (Expr.seeks_checkAll Γ elements) fun rs =>
        seeks_silent_bind (log_expectUniform ..) fun _ => seeks_pure _) ?_
      simp [Expr.nodes, Node.marks]
  | .emptyList element _ => by
      rw [Expr.check]
      refine .of_perm (seeks_bind (element.seeks_resolve Γ) fun _ => seeks_pure _) ?_
      simp [Expr.nodes, Node.marks]
  | .call callee arguments span => by
      rw [Expr.check]
      refine .of_perm (seeks_bind (callee.seeks_check Γ) fun f =>
        seeks_silent_bind (log_expectCallable ..) fun signature =>
        seeks_bind (Expr.seeks_checkAll Γ arguments) fun rs =>
        seeks_silent_bind (log_expectArguments ..) fun _ => seeks_pure _) ?_
      simp [Expr.nodes, Node.marks]

theorem Expr.seeks_checkAll (Γ : Scopes) : ∀ es : List Expr,
    (Expr.checkAll Γ es).Seeks Γ ((Expr.nodesAll es).flatMap Node.marks)
  | [] => seeks_pure _
  | e :: es => by
      rw [Expr.checkAll]
      refine .of_perm (seeks_bind (e.seeks_check Γ) fun _ =>
        seeks_bind (Expr.seeks_checkAll Γ es) fun _ => seeks_pure _) ?_
      simp [Expr.nodesAll]

end

/-! ## 4. Steps of a check -/

/-- Names that are found change nothing, and each one is found where the scopes have it. -/
theorem Scopes.accepts_located (Γ : Scopes) {log : List Event}
    (h : ∀ e ∈ log, ∃ name i entity, e = .resolved name i ∧ Γ.locate? name = some (i, entity)) :
    Γ.ledger.Accepts log ∧ Γ.ledger.replay log = Γ.ledger := by
  induction log with
  | nil => exact ⟨trivial, rfl⟩
  | cons e log ih =>
      rw [List.forall_mem_cons] at h
      obtain ⟨⟨name, i, entity, rfl, hfound⟩, hrest⟩ := h
      obtain ⟨haccepts, hreplay⟩ := ih hrest
      exact ⟨⟨Scopes.admits_resolved hfound, haccepts⟩, hreplay⟩

namespace Check

variable {α β : Type} {ms ns : List Mark}

/-- On every session, each event is so when it is met, and the events lead to the ledger of the
    scopes that are left; on success they leave the given marks. -/
structure Records (x : Check α) (ms : List Mark) : Prop where
  accepted : ∀ s : Session, s.scopes.ledger.Accepts (x.run s).log
  replayed : ∀ s : Session, s.scopes.ledger.replay (x.run s).log = (x.run s).session.scopes.ledger
  complete : ∀ s a, (x.run s).result = .ok a → ((x.run s).log.filterMap Event.mark?).Perm ms

theorem Records.of_perm {x : Check α} (h : x.Records ms) (hperm : ms.Perm ns) : x.Records ns :=
  ⟨h.accepted, h.replayed, fun s a ha => (h.complete s a ha).trans hperm⟩

/-- A step that records nothing does nothing to the names. -/
theorem records_silent {x : Check α} (hlog : ∀ s, (x.run s).log = [])
    (hsession : ∀ s, (x.run s).session.scopes.ledger = s.scopes.ledger) : x.Records [] where
  accepted s := by rw [hlog]; trivial
  replayed s := by rw [hlog, hsession]; rfl
  complete s a _ := by rw [hlog]; rfl

theorem records_pure (a : α) : (pure a : Check α).Records [] :=
  records_silent (fun _ => rfl) fun _ => rfl

theorem records_fresh : fresh.Records [] := records_silent (fun _ => rfl) fun _ => rfl

theorem records_scopes : scopes.Records [] := records_silent (fun _ => rfl) fun _ => rfl

theorem records_reading {x : Scopes → Traced α} (h : ∀ Γ, (x Γ).Seeks Γ ms) :
    (reading x).Records ms where
  accepted s := (s.scopes.accepts_located (h s.scopes).located).1
  replayed s := (s.scopes.accepts_located (h s.scopes).located).2
  complete s := (h s.scopes).complete

/-- **Events add up along steps**, and those before a failure stay. -/
theorem records_bind {x : Check α} {f : α → Check β} (hx : x.Records ms)
    (hf : ∀ a, (f a).Records ns) : (x >>= f).Records (ms ++ ns) where
  accepted s := by
    have hfirst := hx.accepted s
    rw [run_bind]
    cases (x.run s).result with
    | error d => exact hfirst
    | ok a =>
        -- the second step starts where the events of the first one lead to
        refine (Ledger.accepts_append ..).mpr ⟨hfirst, ?_⟩
        rw [hx.replayed s]
        exact (hf a).accepted _
  replayed s := by
    have hfirst := hx.replayed s
    rw [run_bind]
    cases (x.run s).result with
    | error d => exact hfirst
    | ok a =>
        show Ledger.replay _ ((x.run s).log ++ _) = _
        rw [Ledger.replay_append, hfirst]
        exact (hf a).replayed _
  complete s b hb := by
    rw [run_bind] at hb ⊢
    cases hr : (x.run s).result with
    | error d =>
        rw [hr] at hb
        cases hb
    | ok a =>
        rw [hr] at hb
        show (((x.run s).log ++ _).filterMap _).Perm _
        rw [List.filterMap_append]
        exact (hx.complete s a hr).append ((hf a).complete _ b hb)

/-- What comes last is recorded even after a failure. -/
theorem records_finallyDo {x : Check α} {last : Check Unit} (hx : x.Records ms)
    (hlast : last.Records ns) : (finallyDo x last).Records (ms ++ ns) where
  accepted s := by
    refine (Ledger.accepts_append ..).mpr ⟨hx.accepted s, ?_⟩
    rw [hx.replayed s]
    exact hlast.accepted _
  replayed s := by
    show Ledger.replay _ ((x.run s).log ++ (last.run (x.run s).session).log) = _
    rw [Ledger.replay_append, hx.replayed s]
    exact hlast.replayed _
  complete s a ha := by
    have hrun : ((finallyDo x last).run s).result =
        (last.run (x.run s).session).result.bind fun _ => (x.run s).result := rfl
    rw [hrun] at ha
    show (((x.run s).log ++ (last.run (x.run s).session).log).filterMap _).Perm _
    rw [List.filterMap_append]
    cases hr : (last.run (x.run s).session).result with
    | error d =>
        rw [hr] at ha
        cases ha
    | ok u =>
        rw [hr] at ha
        exact (hx.complete s a ha).append (hlast.complete _ u hr)

/-- A step that records one event, or fails and leaves everything as it is. -/
theorem records_event {x : Check α} {m : Mark}
    (h : ∀ s, (∃ d, x.run s = ⟨.error d, s, []⟩) ∨
      ∃ a t e, x.run s = ⟨.ok a, t, [e]⟩ ∧ s.scopes.ledger.Admits e ∧
        s.scopes.ledger.note e = t.scopes.ledger ∧ e.mark? = some m) : x.Records [m] where
  accepted s := by
    rcases h s with ⟨d, hrun⟩ | ⟨a, t, e, hrun, hadmits, hnote, hmark⟩
    · rw [hrun]
      trivial
    · rw [hrun]
      exact ⟨hadmits, trivial⟩
  replayed s := by
    rcases h s with ⟨d, hrun⟩ | ⟨a, t, e, hrun, hadmits, hnote, hmark⟩
    · rw [hrun]
      rfl
    · rw [hrun]
      exact hnote
  complete s b hb := by
    rcases h s with ⟨d, hrun⟩ | ⟨a, t, e, hrun, hadmits, hnote, hmark⟩
    · rw [hrun] at hb
      cases hb
    · rw [hrun]
      simp [hmark]

theorem records_enter (kind : ScopeKind) : (enter kind).Records [.opening kind] := by
  refine records_event fun s => .inr ⟨(), _, _, rfl, ?_, ?_, rfl⟩
  · exact s.scopes.length_ledger.symm
  · exact (s.scopes.ledger_enter kind).symm

theorem records_exit : exit.Records [.closing] := by
  refine records_event fun s => ?_
  have hrun : exit.run s = exit s := rfl
  rw [hrun]
  unfold exit
  cases h : s.scopes.exit? with
  | error reason => exact .inl ⟨_, rfl⟩
  | ok Γ =>
      have hdepth := Scopes.depth_of_exit h
      have hadmits : s.scopes.ledger.Admits (.exited s.scopes.depth) :=
        ⟨by omega, s.scopes.length_ledger.symm⟩
      exact .inr ⟨(), _, _, rfl, hadmits, (Scopes.ledger_of_exit h).symm, rfl⟩

/-- **A body in a scope leaves its own marks and those of the scope.** -/
theorem records_inScope {x : Check α} (kind : ScopeKind) (hx : x.Records ms) :
    (inScope kind x).Records (Mark.scope kind ++ ms) := by
  have h := records_bind (records_enter kind) fun _ => records_finallyDo hx records_exit
  exact h.of_perm (by simp [Mark.scope])

theorem records_declareIn (i : Nat) (name : String) (e : Entity) (span : Option Span) :
    (declareIn i name e span).Records [.declaration name] := by
  refine records_event fun s => ?_
  have hrun : (declareIn i name e span).run s = declareIn i name e span s := rfl
  rw [hrun]
  unfold declareIn
  cases h : s.scopes.defineIn i name e with
  | error reason => cases reason <;> exact .inl ⟨_, rfl⟩
  | ok Γ =>
      have hadmits := Scopes.admits_declared h
      exact .inr ⟨(), _, _, rfl, hadmits, (Scopes.ledger_of_defineIn h).symm, rfl⟩

theorem records_declare (name : String) (e : Entity) (span : Option Span) :
    (declare name e span).Records [.declaration name] :=
  records_bind records_scopes fun Γ => records_declareIn Γ.depth name e span

theorem records_setFunction (f : Decl.Function) : (setFunction f).Records [] := by
  refine records_silent (fun s => by rw [run_setFunction]) fun s => ?_
  rw [run_setFunction]
  simp [Scopes.ledger, Scopes.frames, Frame.page]

/-- That a signature is known says nothing about scopes. -/
theorem records_signature (name : String) (signature : Signature) :
    (record (.declaredFunction name signature)).Records [] where
  accepted _ := ⟨trivial, trivial⟩
  replayed _ := rfl
  complete _ _ _ := .refl _

end Check

/-! ## 5. Statements -/

theorem records_checkCounter (target : Expr) (span : Span) :
    (checkCounter target span).Records (target.nodes.flatMap Node.marks) :=
  records_reading fun Γ => .of_perm (seeks_bind (target.seeks_check Γ) fun r =>
    seeks_silent_bind (log_require ..) fun _ =>
    seeks_silent_bind (log_expectVariable r span) fun _ =>
    seeks_silent_bind (log_expectWritable r span) fun _ => seeks_pure r) (by simp)

/-- The source of an assignment comes first. -/
theorem records_checkAssign (target source : Expr) (span : Span) :
    (checkAssign target source span).Records
      (source.nodes.flatMap Node.marks ++ target.nodes.flatMap Node.marks) :=
  records_reading fun Γ => .of_perm (seeks_bind (source.seeks_check Γ) fun value =>
    seeks_bind (target.seeks_check Γ) fun place =>
    seeks_silent_bind (log_require ..) fun _ =>
    seeks_silent_bind (log_expectWritable place span) fun _ => seeks_pure _) (by simp)

theorem log_enclosingResult (Γ : Scopes) (span : Span) : (enclosingResult Γ span).log = [] := by
  unfold enclosingResult
  split <;> rfl

theorem records_checkReturnValue (value : Expr) (span : Span) :
    (checkReturnValue value span).Records (value.nodes.flatMap Node.marks) :=
  records_reading fun Γ => .of_perm (seeks_silent_bind (log_enclosingResult Γ span) fun _ =>
    seeks_silent_bind (log_require ..) fun _ =>
    seeks_bind (value.seeks_check Γ) fun r =>
    seeks_silent_bind (log_require ..) fun _ => seeks_pure _) (by simp)

theorem records_checkReturnNothing (span : Span) : (checkReturnNothing span).Records [] :=
  records_reading fun Γ => seeks_silent_bind (log_enclosingResult Γ span) fun _ =>
    seeks_silent_bind (log_require ..) fun _ => seeks_pure _

theorem records_checkTest (test : Expr) :
    (checkTest test).Records (test.nodes.flatMap Node.marks) :=
  records_reading fun Γ => .of_perm (seeks_bind (test.seeks_check Γ) fun r =>
    seeks_silent_bind (log_require ..) fun _ => seeks_pure r) (by simp)

theorem records_checkCollection (collection : Expr) :
    (checkCollection collection).Records (collection.nodes.flatMap Node.marks) :=
  records_reading fun Γ => .of_perm (seeks_bind (collection.seeks_check Γ) fun r =>
    seeks_silent_bind (log_expectList ..) fun _ => seeks_pure _) (by simp)

theorem records_checkResult (result : Option TypeExpr) :
    (checkResult result).Records ((result.elim [] TypeExpr.nodes).flatMap Node.marks) := by
  cases result with
  | none => exact records_pure _
  | some t => exact records_reading fun Γ => t.seeks_resolve Γ

theorem records_declareVariable (name : String) (readOnly : Bool) (ty : Ty) (span : Span) :
    (declareVariable name readOnly ty span).Records [.declaration name] :=
  records_bind records_fresh fun _ =>
    records_bind (records_declare name _ (some span)) fun _ => records_pure _

theorem Parameter.records_check (p : Parameter) : p.check.Records (p.nodes.flatMap Node.marks) := by
  refine .of_perm (records_bind (records_reading fun Γ => p.type.seeks_resolve Γ) fun _ =>
    records_bind records_fresh fun _ =>
    records_bind (records_declare p.name _ (some p.span)) fun _ => records_pure _) ?_
  simp [Parameter.nodes, Node.marks]

theorem Parameter.records_checkAll : ∀ ps : List Parameter,
    (Parameter.checkAll ps).Records ((ps.flatMap Parameter.nodes).flatMap Node.marks)
  | [] => records_pure _
  | p :: ps => by
      refine .of_perm (records_bind p.records_check fun _ =>
        records_bind (Parameter.records_checkAll ps) fun _ => records_pure _) ?_
      simp

theorem records_declareFunction (name : String) (signature : Signature) (span : Span) :
    (declareFunction name signature span).Records [.declaration name] :=
  records_bind records_fresh fun _ =>
    records_bind (records_signature name signature) fun _ =>
    records_bind (records_setFunction _) fun _ =>
    records_bind records_scopes fun Γ =>
    records_bind (records_declareIn (Γ.depth - 1) name _ (some span)) fun _ => records_pure _

mutual

/-- **A statement records what it does**, and each of its nodes leaves its marks. -/
theorem Stmt.records_check : ∀ s : Stmt, s.check.Records (s.nodes.flatMap Node.marks)
  | .declare name readOnly init span => by
      rw [Stmt.check]
      refine .of_perm (records_bind (records_reading fun Γ => init.seeks_check Γ) fun r =>
        records_bind (records_declareVariable name readOnly r.ty span) fun _ => records_pure _) ?_
      simp [Stmt.nodes, Node.marks]
  | .function name parameters result body span => by
      rw [Stmt.check]
      refine .of_perm (records_bind (records_checkResult result) fun r =>
        records_inScope .functionBody <|
        records_bind (Parameter.records_checkAll parameters) fun ps =>
        records_bind (records_declareFunction name _ span) fun _ =>
        records_bind (Stmt.records_checkAll body) fun _ => records_pure _) ?_
      -- the result type comes before the scope and the name after the parameters, so the order of
      -- the nodes is not that of the events: count each mark
      rw [List.perm_iff_count]
      intro m
      simp only [Stmt.nodes, Node.marks, List.flatMap_cons, List.flatMap_append, List.count_append,
        List.count_cons, List.count_nil]
      omega
  | .step dir target span => by
      rw [Stmt.check]
      refine .of_perm (records_bind (records_checkCounter target span) fun _ => records_pure _) ?_
      simp [Stmt.nodes, Node.marks]
  | .assign target source span => by
      rw [Stmt.check]
      refine (records_checkAssign target source span).of_perm ?_
      simpa [Stmt.nodes, Node.marks] using List.perm_append_comm
  | .exitLoop span => by
      rw [Stmt.check]
      exact records_bind records_scopes fun _ =>
        records_bind (records_reading fun _ => seeks_of_log_eq_nil (log_require ..)) fun _ =>
        records_pure _
  | .returnValue value span => by
      rw [Stmt.check]
      exact records_checkReturnValue value span
  | .returnNothing span => by
      rw [Stmt.check]
      exact records_checkReturnNothing span
  | .branch b => by
      rw [Stmt.check]
      refine .of_perm (records_bind b.records_check fun _ => records_pure _) ?_
      simp [Stmt.nodes, Node.marks]
  | .whileLoop test body _ => by
      rw [Stmt.check]
      refine .of_perm (records_bind (records_checkTest test) fun _ =>
        records_bind (records_inScope .loop (Stmt.records_checkAll body)) fun _ =>
        records_pure _) ?_
      simpa [Stmt.nodes, Node.marks] using List.perm_append_comm_assoc ..
  | .forEach iterator collection body span => by
      rw [Stmt.check]
      refine .of_perm (records_bind (records_checkCollection collection) fun ⟨r, element⟩ =>
        records_inScope .loop <|
        records_bind (records_declareVariable iterator true element span) fun _ =>
        records_bind (Stmt.records_checkAll body) fun _ => records_pure _) ?_
      rw [List.perm_iff_count]
      intro m
      simp only [Stmt.nodes, Node.marks, List.flatMap_cons, List.flatMap_append, List.count_append,
        List.count_cons, List.count_nil]
      omega
  | .eval expr _ => by
      rw [Stmt.check]
      refine .of_perm (records_bind (records_reading fun Γ => expr.seeks_check Γ) fun _ =>
        records_pure _) ?_
      simp [Stmt.nodes, Node.marks]

theorem Branch.records_check : ∀ b : Branch,
    b.check.Records (b.marks ++ b.inner.flatMap Node.marks)
  | .mk test consequent alternate _ => by
      rw [Branch.check]
      refine .of_perm (records_bind (records_checkTest test) fun _ =>
        records_bind (records_inScope .block (Stmt.records_checkAll consequent)) fun _ =>
        records_bind alternate.records_check fun _ => records_pure _) ?_
      rw [List.perm_iff_count]
      intro m
      simp only [Branch.marks, Branch.inner, List.flatMap_append, List.count_append, List.count_nil]
      omega

theorem Alternate.records_check : ∀ a : Alternate,
    a.check.Records (a.marks ++ a.nodes.flatMap Node.marks)
  | .none => by
      rw [Alternate.check]
      exact records_pure _
  | .block body => by
      rw [Alternate.check]
      refine .of_perm (records_bind (records_inScope .block (Stmt.records_checkAll body)) fun _ =>
        records_pure _) ?_
      simp [Alternate.marks, Alternate.nodes]
  | .elseIf next => by
      rw [Alternate.check]
      refine .of_perm (records_bind next.records_check fun _ => records_pure _) ?_
      simp [Alternate.marks, Alternate.nodes, Node.marks]

/-- So do statements in a row. -/
theorem Stmt.records_checkAll : ∀ ss : List Stmt,
    (Stmt.checkAll ss).Records ((Stmt.nodesAll ss).flatMap Node.marks)
  | [] => by
      rw [Stmt.checkAll]
      exact records_pure _
  | s :: ss => by
      rw [Stmt.checkAll]
      refine .of_perm (records_bind s.records_check fun _ =>
        records_bind (Stmt.records_checkAll ss) fun _ => records_pure _) ?_
      simp [Stmt.nodesAll]

end

/-! ## 6. Analysis -/

theorem records_declareEntries : ∀ entries : List (String × Entity),
    (declareEntries entries).Records ((entries.map Prod.fst).map .declaration)
  | [] => records_pure ()
  | (name, e) :: rest =>
      records_bind (records_declare name e none) fun _ => records_declareEntries rest

/-- Loading a catalog and checking a program, as one computation. -/
def loadAndCheck (c : Catalog) (p : Program) : Check Resolved.Program := do
  declareEntries c.entries
  Stmt.checkAll p

theorem records_loadAndCheck (c : Catalog) (p : Program) :
    (loadAndCheck c p).Records
      (c.names.map .declaration ++ (Stmt.nodesAll p).flatMap Node.marks) :=
  records_bind (records_declareEntries c.entries) fun _ => Stmt.records_checkAll p

/-- Where the names of the catalog differ, the program is checked in the session that holds it. -/
theorem run_loadAndCheck {c : Catalog} (h : c.names.Nodup) (p : Program) :
    (loadAndCheck c p).run (.blank c.firstSerial) =
      ⟨((Session.loaded c).step p).result, ((Session.loaded c).step p).session,
        (Session.load c).log ++ ((Session.loaded c).step p).log⟩ := by
  obtain ⟨hres, hses⟩ := Session.load_ok h
  rw [loadAndCheck, run_bind_ok hres]
  show Outcome.mk _ _ _ = _
  rw [show (declareEntries c.entries).run (.blank c.firstSerial) = Session.load c from rfl, hses]
  rfl

/-- The events of an analysis are those of this computation, between its start and its end. -/
theorem log_analyze {c : Catalog} (h : c.names.Nodup) (p : Program) :
    (analyze c p).log =
      .started p.length :: (((loadAndCheck c p).run (.blank c.firstSerial)).log ++
        [.ending (analyze c p).result]) := by
  obtain ⟨hres, hses⟩ := Session.load_ok h
  rw [run_loadAndCheck h]
  simp only [analyze, hres, hses]

/-- The end of an analysis says nothing about scopes. -/
theorem Event.mark?_ending (r : Except Diagnostic Resolved.Program) :
    (Event.ending r).mark? = none := by
  cases r <;> rfl

theorem Ledger.admits_ending (l : Ledger) (r : Except Diagnostic Resolved.Program) :
    l.Admits (.ending r) ∧ l.note (.ending r) = l := by
  cases r <;> exact ⟨trivial, rfl⟩

theorem accepts_analyze {c : Catalog} (h : c.names.Nodup) (p : Program) :
    Ledger.start.Accepts (analyze c p).log := by
  rw [log_analyze h]
  refine ⟨trivial, (Ledger.accepts_append ..).mpr ⟨?_, (Ledger.admits_ending ..).1, trivial⟩⟩
  exact (records_loadAndCheck c p).accepted (.blank c.firstSerial)

theorem replay_analyze {c : Catalog} (h : c.names.Nodup) (p : Program) :
    Ledger.start.replay (analyze c p).log =
      ((Session.loaded c).step p).session.scopes.ledger := by
  have hreplayed := (records_loadAndCheck c p).replayed (.blank c.firstSerial)
  have hstart : Ledger.start.replay (analyze c p).log =
      (Ledger.start.replay (((loadAndCheck c p).run (.blank c.firstSerial)).log)).replay
        [.ending (analyze c p).result] := by
    rw [log_analyze h, ← Ledger.replay_append]
    rfl
  rw [hstart]
  show Ledger.note _ _ = _
  rw [(Ledger.admits_ending ..).2]
  refine hreplayed.trans ?_
  rw [run_loadAndCheck h]

theorem marks_analyze {c : Catalog} {p : Program} {R : Resolved.Program}
    (h : (analyze c p).result = .ok R) :
    ((analyze c p).log.filterMap Event.mark?).Perm
      (c.names.map .declaration ++ (Stmt.nodesAll p).flatMap Node.marks) := by
  obtain ⟨hnd, hstep⟩ := result_analyze_eq_ok_iff.mp h
  have hcomplete := (records_loadAndCheck c p).complete (.blank c.firstSerial) R
  rw [run_loadAndCheck hnd] at hcomplete
  rw [log_analyze hnd, run_loadAndCheck hnd, List.filterMap_cons_none rfl, List.filterMap_append,
    List.filterMap_cons_none (Event.mark?_ending _), List.filterMap_nil, List.append_nil]
  exact hcomplete hstep

/-- **The trace is a faithful log of an analysis**, whatever the analysis comes to. Who reads the
    events in order, starting with an empty root scope, never meets one that is not so: no root is
    closed, no name is declared twice in a scope, scopes are opened and closed under their own
    numbers, and a name is resolved in the highest scope that has it. In the end one scope is left,
    and it holds the names and the spellings of the types in the root scope of the session. If the
    program is accepted, there is one event for each name that is looked up and for each
    declaration, of the catalog and of the program, and two for each body. -/
theorem trace_is_faithful (c : Catalog) (p : Program) (h : c.names.Nodup) :
    ∃ s root, Session.open? c = .ok s ∧ (s.step p).result = (analyze c p).result ∧
      (s.step p).session.scopes = ⟨root, []⟩ ∧
      (∀ before e after, (analyze c p).log = before ++ e :: after →
        (Ledger.start.replay before).Admits e) ∧
      Ledger.start.replay (analyze c p).log = [root.page] ∧
      (∀ R, (analyze c p).result = .ok R →
        ((analyze c p).log.filterMap Event.mark?).Perm
          (c.names.map .declaration ++ (Stmt.nodesAll p).flatMap Node.marks)) := by
  have hopen : Session.open? c = .ok (Session.loaded c) := Session.open?_eq_ok_iff.mpr ⟨h, rfl⟩
  -- whatever the program comes to, its scopes are closed again
  have hdepth := (Session.Reached.step (.opened hopen) p).depth_eq_zero
  have hroot : ((Session.loaded c).step p).session.scopes =
      ⟨((Session.loaded c).step p).session.scopes.inner, []⟩ := by
    rw [← List.length_eq_zero_iff.mp hdepth]
  refine ⟨_, _, hopen, (result_analyze_of_nodup h p).symm, hroot, fun before e after hlog => ?_, ?_,
    fun R hR => marks_analyze hR⟩
  · have haccepts := accepts_analyze h p
    rw [hlog] at haccepts
    exact haccepts.admits
  · rw [replay_analyze h, hroot]
    rfl

/-- A loop in a function, with a branch in it; the parameter of the function, the iterator of the
    loop and a variable of the branch all hide something. -/
def hidingScopes : Program :=
  [.function "f" [⟨"sin", .named "int" .origin, .origin⟩] (some (.named "int" .origin))
    [.forEach "cos" (.list [.name "sin" .origin] .origin)
      [.branch (.mk (.binary .less (.name "cos" .origin) (.name "sin" .origin) .origin)
        [.declare "sin" true (.name "cos" .origin) .origin]
        (.block [.returnValue (.name "cos" .origin) .origin]) .origin)] .origin,
     .returnValue (.name "sin" .origin) .origin] .origin]

/-- The events of an accepted program can be told beforehand, and those of a program that fails
    three scopes deep lead back to the root. -/
theorem trace_is_faithful_hidingScopes :
    (∃ R, (analyze .standard hidingScopes).result = .ok R) ∧
      ((analyze .standard hidingScopes).log.filterMap Event.mark?).Perm
        (Catalog.standard.names.map .declaration ++
          [.declaration "f", .opening .functionBody, .closing, .declaration "sin",
            .reference "int", .reference "int", .declaration "cos", .opening .loop, .closing,
            .reference "sin", .opening .block, .closing, .opening .block, .closing,
            .reference "cos", .reference "sin", .declaration "sin", .reference "cos",
            .reference "cos", .reference "sin"]) ∧
      (analyze .standard nestedFailure).result = .error ⟨.notDeclared "y", some .origin⟩ ∧
      (∃ names, Ledger.start.replay (analyze .standard nestedFailure).log = [names]) := by
  have hstandard : Catalog.standard.names.Nodup := by decide
  obtain ⟨_, _, _, _, _, _, _, hmarks⟩ := trace_is_faithful .standard hidingScopes hstandard
  obtain ⟨_, root, _, _, _, _, hreplay, _⟩ := trace_is_faithful .standard nestedFailure hstandard
  have haccepted : ∃ R, (analyze .standard hidingScopes).result = .ok R := ⟨_, rfl⟩
  obtain ⟨R, hR⟩ := haccepted
  exact ⟨⟨R, hR⟩, hmarks R hR, rfl, root.page, hreplay⟩

end Sema
