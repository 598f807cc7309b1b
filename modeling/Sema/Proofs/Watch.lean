import Mathlib.Data.List.Nodup
import Sema.Proofs.Head
import Sema.Proofs.Place

/-!
# The check, watched

What holds at the moment a statement is checked cannot be read off the outcome of a check: an
analysis that fails leaves no tree, and every scope that it opened is closed again. Here the check
of statements is written once more with notes at two points:

* `Moment.started`: the check of a statement starts, at its place and in the session of that moment;
* `Moment.created`: the function that a statement declares has come to be.

The notes change nothing: the watched check is the check (`Stmt.check_watchAll`). What is noted is
reasoned about step by step (`Watch.notes_bind`), and no two notes of a run agree in kind and place
(`Session.moment_eq`).
-/

namespace Sema

/-! ## 1. Watched computations -/

/-- A moment in the check of statements. -/
inductive Moment where
  /-- The check of the statement at a place starts, in this session. -/
  | started (place : Place) (stmt : Stmt) (session : Session)
  /-- The function that the statement at a place declares has come to be. -/
  | created (place : Place) (function : Decl.Function)

/-- A computation, with the moments of its run on each session. -/
structure Watch (α : Type) where
  check : Check α
  moments : Session → List Moment

namespace Watch

variable {α β : Type}

/-- The second step adds its moments to those of the first, unless that failed. -/
def andThen (x : Watch α) (f : α → Watch β) : Watch β where
  check := x.check >>= fun a => (f a).check
  moments s := x.moments s ++
    match (x.check.run s).result with
    | .ok a => (f a).moments (x.check.run s).session
    | .error _ => []

/-- A computation in which nothing is noted. -/
def quiet (x : Check α) : Watch α := ⟨x, fun _ => []⟩

instance : Monad Watch where
  pure a := quiet (pure a)
  bind := andThen

/-- Notes a moment of the session. -/
def note (m : Session → Moment) : Watch Unit := ⟨pure (), fun s => [m s]⟩

/-- A computation in a new scope. -/
def inScope (kind : ScopeKind) (x : Watch α) : Watch α where
  check := Check.inScope kind x.check
  moments s := x.moments (s.enter kind)

@[simp] theorem check_pure (a : α) : (pure a : Watch α).check = pure a := rfl

@[simp] theorem check_bind (x : Watch α) (f : α → Watch β) :
    (x >>= f).check = x.check >>= fun a => (f a).check := rfl

@[simp] theorem check_quiet (x : Check α) : (quiet x).check = x := rfl

@[simp] theorem check_inScope (kind : ScopeKind) (x : Watch α) :
    (inScope kind x).check = Check.inScope kind x.check := rfl

@[simp] theorem check_note (m : Session → Moment) : (note m).check = pure () := rfl

end Watch

/-- A step that only yields a value leaves the computation after it as it is. -/
theorem Check.ok_bind {α β : Type} (a : α) (f : α → Check β) : (pure a : Check α) >>= f = f a := rfl

open Watch

mutual

/-- The check of the statement at a place, watched. -/
def Stmt.watch (here : Place) : Stmt → Watch Resolved.Stmt
  | .function name parameters result body span => do
      let result ← quiet (checkResult result)
      inScope .functionBody do
        let ps ← quiet (Parameter.checkAll parameters)
        let f ← quiet (declareFunction name ⟨ps.map (·.ty), result⟩ span)
        note fun _ => .created here f
        let body ← Stmt.watchAll (.body :: here) 0 body
        return .function f ps body
  | .branch b => do
      return .branch (← b.watch (.branch :: here))
  | .whileLoop test body _ => do
      let t ← quiet (checkTest test)
      let body ← inScope .loop (Stmt.watchAll (.body :: here) 0 body)
      return .whileLoop t body
  | .forEach iterator collection body span => do
      let (r, element) ← quiet (checkCollection collection)
      inScope .loop do
        let v ← quiet (declareVariable iterator true element span)
        let body ← Stmt.watchAll (.body :: here) 0 body
        return .forEach v r body
  -- there are no statements inside the others
  | .declare name readOnly init span => quiet (Stmt.declare name readOnly init span).check
  | .step dir target span => quiet (Stmt.step dir target span).check
  | .assign target source span => quiet (Stmt.assign target source span).check
  | .exitLoop span => quiet (Stmt.exitLoop span).check
  | .returnValue value span => quiet (Stmt.returnValue value span).check
  | .returnNothing span => quiet (Stmt.returnNothing span).check
  | .eval expr span => quiet (Stmt.eval expr span).check

/-- The check of an `if`, watched. -/
def Branch.watch (here : Place) : Branch → Watch Resolved.Branch
  | .mk test consequent alternate _ => do
      let t ← quiet (checkTest test)
      let c ← inScope .block (Stmt.watchAll (.consequent :: here) 0 consequent)
      let a ← alternate.watch (.alternate :: here)
      return .mk t c a

/-- The check of what follows `else`, watched. -/
def Alternate.watch (here : Place) : Alternate → Watch Resolved.Alternate
  | .none => return .none
  | .block body => do
      return .block (← inScope .block (Stmt.watchAll here 0 body))
  | .elseIf next => do
      return .elseIf (← next.watch here)

/-- The check of the statements of a block from number `i` on, watched. -/
def Stmt.watchAll (here : Place) (i : Nat) : List Stmt → Watch (List Resolved.Stmt)
  | [] => return []
  | s :: ss => do
      note fun σ => .started (.item i :: here) s σ
      let r ← s.watch (.item i :: here)
      let rs ← Stmt.watchAll here (i + 1) ss
      return r :: rs

end

/-- The moments in the check of a program on a session. -/
def Session.moments (s : Session) (p : Program) : List Moment := (Stmt.watchAll [] 0 p).moments s

/-! ## 2. The notes change nothing -/

mutual

theorem Stmt.check_watch : ∀ (s : Stmt) (here : Place), (s.watch here).check = s.check
  | .function name parameters result body span, here => by
      rw [Stmt.watch, Stmt.check]
      simp only [check_bind, check_quiet, check_inScope, check_note, Check.ok_bind,
        check_pure, Stmt.check_watchAll body]
  | .branch b, here => by
      rw [Stmt.watch, Stmt.check]
      simp only [check_bind, check_pure, b.check_watch]
  | .whileLoop test body span, here => by
      rw [Stmt.watch, Stmt.check]
      simp only [check_bind, check_quiet, check_inScope, check_pure, Stmt.check_watchAll body]
  | .forEach iterator collection body span, here => by
      rw [Stmt.watch, Stmt.check]
      simp only [check_bind, check_quiet, check_inScope, check_pure, Stmt.check_watchAll body]
  | .declare _ _ _ _, _ | .step _ _ _, _ | .assign _ _ _, _ | .exitLoop _, _ | .returnValue _ _, _
  | .returnNothing _, _ | .eval _ _, _ => rfl

theorem Branch.check_watch : ∀ (b : Branch) (here : Place), (b.watch here).check = b.check
  | .mk test consequent alternate span, here => by
      rw [Branch.watch, Branch.check]
      simp only [check_bind, check_quiet, check_inScope, check_pure, Stmt.check_watchAll consequent,
        alternate.check_watch]

theorem Alternate.check_watch : ∀ (a : Alternate) (here : Place), (a.watch here).check = a.check
  | .none, _ => rfl
  | .block body, here => by
      rw [Alternate.watch, Alternate.check]
      simp only [check_bind, check_inScope, check_pure, Stmt.check_watchAll body]
  | .elseIf next, here => by
      rw [Alternate.watch, Alternate.check]
      simp only [check_bind, check_pure, next.check_watch]

/-- **The watched check is the check.** -/
theorem Stmt.check_watchAll : ∀ (ss : List Stmt) (here : Place) (i : Nat),
    (Stmt.watchAll here i ss).check = Stmt.checkAll ss
  | [], _, _ => rfl
  | s :: ss, here, i => by
      rw [Stmt.watchAll, Stmt.checkAll]
      simp only [check_bind, check_note, Check.ok_bind, check_pure, s.check_watch,
        Stmt.check_watchAll ss]

end

/-! ## 3. What is noted -/

namespace Watch

variable {α β : Type}

/-- Whatever is noted in the run on a session has a property. -/
def Notes (x : Watch α) (s : Session) (P : Moment → Prop) : Prop := ∀ m ∈ x.moments s, P m

variable {s : Session} {P : Moment → Prop}

theorem notes_quiet (x : Check α) : (quiet x).Notes s P ↔ True := by
  simp [Notes, quiet]

theorem notes_pure (a : α) : (pure a : Watch α).Notes s P ↔ True := notes_quiet (pure a)

theorem notes_inScope (kind : ScopeKind) (x : Watch α) :
    (inScope kind x).Notes s P ↔ x.Notes (s.enter kind) P := Iff.rfl

/-- **Step by step.** Two steps note what the first one notes and, where it succeeds, what the
    second one notes on the session that it left. -/
theorem notes_bind (x : Watch α) (f : α → Watch β) :
    (x >>= f).Notes s P ↔ x.Notes s P ∧ ∀ a t, x.check.Yields s a t → (f a).Notes t P := by
  have hmoments : (x >>= f).moments s = x.moments s ++
      match (x.check.run s).result with
      | .ok a => (f a).moments (x.check.run s).session
      | .error _ => [] := rfl
  unfold Notes
  rw [hmoments, List.forall_mem_append]
  refine and_congr_right fun _ => ?_
  cases hx : (x.check.run s).result with
  | error d =>
      refine ⟨fun _ a t ht => ?_, fun _ => List.forall_mem_nil _⟩
      rw [Check.Yields, hx] at ht
      cases ht.1
  | ok a =>
      refine ⟨fun h b t ht => ?_, fun h => h a _ ⟨hx, rfl⟩⟩
      obtain ⟨hb, rfl⟩ := ht
      obtain rfl : a = b := Except.ok.inj (hx.symm.trans hb)
      exact h

theorem notes_note (m : Session → Moment) : (note m).Notes s P ↔ P (m s) :=
  List.forall_mem_singleton

theorem forall_yields_note (m : Session → Moment) {Q : Unit → Session → Prop} :
    (∀ a t, (note m).check.Yields s a t → Q a t) ↔ Q () s := by
  constructor
  · intro h
    exact h () s ⟨rfl, rfl⟩
  · rintro h a t ⟨-, rfl⟩
    exact h

/-- A last step that only builds the value notes nothing. -/
theorem notes_bind_pure (x : Watch α) (g : α → β) :
    (x >>= fun a => pure (g a)).Notes s P ↔ x.Notes s P := by
  rw [notes_bind]
  simp only [notes_pure, implies_true, and_true]

end Watch

section

variable {P : Moment → Prop} {σ : Session} {here : Place}

theorem Stmt.notes_function {name : String} {parameters : List Parameter}
    {result : Option TypeExpr} {body : List Stmt} {span : Span} :
    ((Stmt.function name parameters result body span).watch here).Notes σ P ↔
      ∀ ds f τ, FunctionHead name parameters result span σ ds f τ →
        P (.created here f) ∧ (Stmt.watchAll (.body :: here) 0 body).Notes τ P := by
  rw [Stmt.watch]
  simp only [notes_bind, notes_quiet, notes_inScope, notes_note, forall_yields_note, notes_pure,
    check_quiet, true_and, implies_true, and_true, FunctionHead]
  constructor
  · rintro h ds f τ ⟨ty, u, v, hty, hps, hf⟩
    exact h ty u hty ds v hps f τ hf
  · intro h ty u hty ds v hps f τ hf
    exact h ds f τ ⟨ty, u, v, hty, hps, hf⟩

theorem Stmt.notes_branch {b : Branch} :
    ((Stmt.branch b).watch here).Notes σ P ↔ (b.watch (.branch :: here)).Notes σ P := by
  rw [Stmt.watch]
  exact notes_bind_pure _ _

theorem Stmt.notes_whileLoop {test : Expr} {body : List Stmt} {span : Span} :
    ((Stmt.whileLoop test body span).watch here).Notes σ P ↔
      ∀ t τ, (checkTest test).Yields σ t τ →
        (Stmt.watchAll (.body :: here) 0 body).Notes (τ.enter .loop) P := by
  rw [Stmt.watch]
  simp only [notes_bind, notes_quiet, notes_inScope, notes_pure, check_quiet, true_and,
    implies_true, and_true]

theorem Stmt.notes_forEach {iterator : String} {collection : Expr} {body : List Stmt}
    {span : Span} :
    ((Stmt.forEach iterator collection body span).watch here).Notes σ P ↔
      ∀ r element τ, (checkCollection collection).Yields σ (r, element) τ →
        ∀ v υ, (declareVariable iterator true element span).Yields (τ.enter .loop) v υ →
          (Stmt.watchAll (.body :: here) 0 body).Notes υ P := by
  rw [Stmt.watch]
  simp only [notes_bind, notes_quiet, notes_inScope, notes_pure, check_quiet, true_and,
    implies_true, and_true, Prod.forall]

theorem Branch.notes_mk {test : Expr} {consequent : List Stmt} {alternate : Alternate}
    {span : Span} :
    ((Branch.mk test consequent alternate span).watch here).Notes σ P ↔
      ∀ t τ, (checkTest test).Yields σ t τ →
        (Stmt.watchAll (.consequent :: here) 0 consequent).Notes (τ.enter .block) P ∧
        ∀ c υ, (Check.inScope .block (Stmt.checkAll consequent)).Yields τ c υ →
          (alternate.watch (.alternate :: here)).Notes υ P := by
  rw [Branch.watch]
  simp only [notes_bind, notes_quiet, notes_inScope, notes_pure, check_quiet, check_inScope,
    Stmt.check_watchAll, true_and, implies_true, and_true]

theorem Alternate.notes_block {body : List Stmt} :
    ((Alternate.block body).watch here).Notes σ P ↔
      (Stmt.watchAll here 0 body).Notes (σ.enter .block) P := by
  rw [Alternate.watch]
  exact notes_bind_pure _ _

theorem Alternate.notes_elseIf {next : Branch} :
    ((Alternate.elseIf next).watch here).Notes σ P ↔ (next.watch here).Notes σ P := by
  rw [Alternate.watch]
  exact notes_bind_pure _ _

theorem Stmt.notes_cons {s : Stmt} {ss : List Stmt} {i : Nat} :
    (Stmt.watchAll here i (s :: ss)).Notes σ P ↔
      P (.started (.item i :: here) s σ) ∧ (s.watch (.item i :: here)).Notes σ P ∧
        ∀ r τ, s.check.Yields σ r τ → (Stmt.watchAll here (i + 1) ss).Notes τ P := by
  rw [Stmt.watchAll]
  simp only [notes_bind, notes_note, forall_yields_note, notes_pure, Stmt.check_watch, implies_true,
    and_true]

end

/-! ## 4. No moment comes twice -/

/-- The place and the kind of a moment. -/
def Moment.mark : Moment → Place × Bool
  | started place _ _ => (place, true)
  | created place _ => (place, false)

/-- A place has one part around it at each depth. -/
theorem Place.turn_eq {here place : Place} {t u : Turn} (ht : (t :: here) <:+ place)
    (hu : (u :: here) <:+ place) : t = u := by
  have hle : (t :: here).length ≤ (u :: here).length := Nat.le_refl _
  have hsuffix := List.suffix_of_suffix_length_le ht hu hle
  exact (List.cons.inj (hsuffix.eq_of_length rfl)).1

theorem Place.not_suffix_self {here : Place} {t : Turn} : ¬ (t :: here) <:+ here := by
  intro h
  have hlen : here.length + 1 ≤ here.length := h.length_le
  omega

namespace Watch

variable {α β : Type} {s : Session} {P Q : Moment → Prop}

/-- In the run on a session, no two moments agree in place and kind, and all of them have a
    property. -/
structure Orderly (x : Watch α) (s : Session) (P : Moment → Prop) : Prop where
  distinct : ((x.moments s).map Moment.mark).Nodup
  notes : x.Notes s P

theorem Orderly.mono {x : Watch α} (h : x.Orderly s P) (hPQ : ∀ m, P m → Q m) : x.Orderly s Q :=
  ⟨h.distinct, fun m hm => hPQ m (h.notes m hm)⟩

theorem orderly_quiet (x : Check α) : (quiet x).Orderly s P :=
  ⟨List.nodup_nil, (notes_quiet x).mpr trivial⟩

/-- Two steps whose moments cannot agree. -/
theorem orderly_bind {x : Watch α} {f : α → Watch β} {R : Moment → Prop} (hx : x.Orderly s P)
    (hf : ∀ a t, x.check.Yields s a t → (f a).Orderly t Q)
    (apart : ∀ m n, P m → Q n → m.mark ≠ n.mark) (hP : ∀ m, P m → R m) (hQ : ∀ m, Q m → R m) :
    (x >>= f).Orderly s R := by
  refine ⟨?_, (notes_bind x f).mpr ⟨(hx.mono hP).notes, fun a t ht => ((hf a t ht).mono hQ).notes⟩⟩
  show ((x.moments s ++ match (x.check.run s).result with
      | .ok a => (f a).moments (x.check.run s).session
      | .error _ => []).map Moment.mark).Nodup
  cases hr : (x.check.run s).result with
  | error d =>
      rw [List.append_nil]
      exact hx.distinct
  | ok a =>
      have hsecond := hf a _ ⟨hr, rfl⟩
      rw [List.map_append, List.nodup_append]
      refine ⟨hx.distinct, hsecond.distinct, ?_⟩
      intro i hi j hj
      obtain ⟨m, hm, rfl⟩ := List.mem_map.mp hi
      obtain ⟨n, hn, rfl⟩ := List.mem_map.mp hj
      exact apart m n (hx.notes m hm) (hsecond.notes n hn)

theorem orderly_inScope {kind : ScopeKind} {x : Watch α} (h : x.Orderly (s.enter kind) P) :
    (inScope kind x).Orderly s P := ⟨h.distinct, h.notes⟩

theorem orderly_quiet_bind {x : Check α} {f : α → Watch β}
    (hf : ∀ a t, x.Yields s a t → (f a).Orderly t P) : (quiet x >>= f).Orderly s P :=
  orderly_bind (P := fun _ => False) (orderly_quiet x) hf (fun _ _ h => h.elim)
    (fun _ h => h.elim) fun _ h => h

theorem orderly_bind_pure {x : Watch α} (g : α → β) (hx : x.Orderly s P) :
    (x >>= fun a => pure (g a)).Orderly s P :=
  orderly_bind (Q := fun _ => False) hx (fun _ _ _ => orderly_quiet _) (fun _ _ _ h => h.elim)
    (fun _ h => h) fun _ h => h.elim

theorem orderly_note_bind {m : Session → Moment} {f : Unit → Watch β} (hm : P (m s))
    (hf : (f ()).Orderly s P) (apart : ∀ n ∈ (f ()).moments s, (m s).mark ≠ n.mark) :
    (note m >>= f).Orderly s P := by
  refine ⟨?_, List.forall_mem_cons.mpr ⟨hm, hf.notes⟩⟩
  show ((m s :: (f ()).moments s).map Moment.mark).Nodup
  rw [List.map_cons, List.nodup_cons]
  refine ⟨fun hmem => ?_, hf.distinct⟩
  obtain ⟨n, hn, hmark⟩ := List.mem_map.mp hmem
  exact apart n hn hmark.symm

end Watch

/-- A moment at a part inside the one at `here`. -/
def Moment.Inside (here : Place) (m : Moment) : Prop := ∃ t : Turn, (t :: here) <:+ m.mark.1

/-- A moment at a statement of the block at `here`, or inside one, from number `i` on. -/
def Moment.From (here : Place) (i : Nat) (m : Moment) : Prop :=
  ∃ j, i ≤ j ∧ (.item j :: here) <:+ m.mark.1

/-- A moment in the check of the statement at `here`, after its start. -/
def Moment.Within (here : Place) (m : Moment) : Prop :=
  m.mark = (here, false) ∨ m.Inside here

theorem Moment.Inside.outer {here : Place} {t : Turn} {m : Moment} (h : m.Inside (t :: here)) :
    m.Inside here := by
  obtain ⟨u, hu⟩ := h
  exact ⟨t, List.IsSuffix.trans (List.suffix_cons u _) hu⟩

theorem Moment.From.inside {here : Place} {i : Nat} {m : Moment} (h : m.From here i) :
    m.Inside here := by
  obtain ⟨j, _, hj⟩ := h
  exact ⟨_, hj⟩

theorem Moment.Inside.mark_ne {here : Place} {m : Moment} (h : m.Inside here) (b : Bool) :
    (here, b) ≠ m.mark := by
  obtain ⟨t, ht⟩ := h
  intro hm
  rw [← hm] at ht
  exact Place.not_suffix_self ht

theorem Moment.Within.suffix {here : Place} {m : Moment} (h : m.Within here) :
    here <:+ m.mark.1 := by
  rcases h with h | ⟨t, h⟩
  · have hplace : here = m.mark.1 := (congrArg Prod.fst h).symm
    exact ⟨[], hplace⟩
  · exact (List.suffix_cons t here).trans h

/-- A moment in the check of one statement of a block is none of those after it. -/
theorem Moment.mark_ne_of_from {here : Place} {i j : Nat} (hij : i < j) {m n : Moment}
    (hm : (.item i :: here) <:+ m.mark.1) (hn : n.From here j) : m.mark ≠ n.mark := by
  obtain ⟨k, hk, hn⟩ := hn
  intro h
  rw [← h] at hn
  have hik : i = k := Turn.item.inj (Place.turn_eq hm hn)
  omega

/-- Moments inside two parts of one part differ. -/
theorem Moment.Inside.mark_ne_of_turn_ne {here : Place} {t u : Turn} (htu : t ≠ u) {m n : Moment}
    (hm : m.Inside (t :: here)) (hn : n.Inside (u :: here)) : m.mark ≠ n.mark := by
  obtain ⟨_, hm⟩ := hm
  obtain ⟨_, hn⟩ := hn
  intro h
  rw [← h] at hn
  exact htu (Place.turn_eq ((List.suffix_cons _ _).trans hm) ((List.suffix_cons _ _).trans hn))

mutual

theorem Stmt.orderly_watch : ∀ (s : Stmt) (here : Place) (σ : Session),
    (s.watch here).Orderly σ (Moment.Within here)
  | .function name parameters result body span, here, σ => by
      rw [Stmt.watch]
      refine orderly_quiet_bind fun result t _ => orderly_inScope ?_
      refine orderly_quiet_bind fun ps u _ => orderly_quiet_bind fun f v _ => ?_
      have hbody := Stmt.orderly_watchAll body (.body :: here) 0 v
      refine orderly_note_bind (.inl rfl) ?_ fun n hn => ?_
      · exact (orderly_bind_pure _ hbody).mono fun m hm => .inr hm.inside.outer
      · exact ((orderly_bind_pure _ hbody).notes n hn).inside.outer.mark_ne false
  | .branch b, here, σ => by
      rw [Stmt.watch]
      exact (orderly_bind_pure _ (b.orderly_watch _ σ)).mono fun m hm => .inr hm.outer
  | .whileLoop test body span, here, σ => by
      rw [Stmt.watch]
      refine orderly_quiet_bind fun t τ _ => orderly_bind_pure _ (orderly_inScope ?_)
      exact (Stmt.orderly_watchAll body _ 0 _).mono fun m hm => .inr hm.inside.outer
  | .forEach iterator collection body span, here, σ => by
      rw [Stmt.watch]
      refine orderly_quiet_bind fun t τ _ => orderly_inScope (orderly_quiet_bind fun v υ _ => ?_)
      refine orderly_bind_pure _ ?_
      exact (Stmt.orderly_watchAll body _ 0 _).mono fun m hm => .inr hm.inside.outer
  | .declare _ _ _ _, _, _ | .step _ _ _, _, _ | .assign _ _ _, _, _ | .exitLoop _, _, _
  | .returnValue _ _, _, _ | .returnNothing _, _, _ | .eval _ _, _, _ => orderly_quiet _

theorem Branch.orderly_watch : ∀ (b : Branch) (here : Place) (σ : Session),
    (b.watch here).Orderly σ (Moment.Inside here)
  | .mk test consequent alternate span, here, σ => by
      rw [Branch.watch]
      refine orderly_quiet_bind fun t τ _ => ?_
      have hconsequent := Stmt.orderly_watchAll consequent (.consequent :: here) 0 (τ.enter .block)
      -- the two blocks lie behind different turns
      refine orderly_bind (orderly_inScope (hconsequent.mono fun m hm => hm.inside))
        (fun c υ _ => orderly_bind_pure _ (alternate.orderly_watch (.alternate :: here) υ))
        (fun m n hm hn => hm.mark_ne_of_turn_ne (by decide) hn) (fun m hm => hm.outer)
        fun m hm => hm.outer

theorem Alternate.orderly_watch : ∀ (a : Alternate) (here : Place) (σ : Session),
    (a.watch here).Orderly σ (Moment.Inside here)
  | .none, _, _ => orderly_quiet _
  | .block body, here, σ => by
      rw [Alternate.watch]
      refine orderly_bind_pure _ (orderly_inScope ?_)
      exact (Stmt.orderly_watchAll body here 0 _).mono fun m hm => hm.inside
  | .elseIf next, here, σ => by
      rw [Alternate.watch]
      exact orderly_bind_pure _ (next.orderly_watch here σ)

/-- **No moment comes twice.** -/
theorem Stmt.orderly_watchAll : ∀ (ss : List Stmt) (here : Place) (i : Nat) (σ : Session),
    (Stmt.watchAll here i ss).Orderly σ (Moment.From here i)
  | [], _, _, _ => orderly_quiet _
  | s :: ss, here, i, σ => by
      rw [Stmt.watchAll]
      have hs := s.orderly_watch (.item i :: here) σ
      have hrest : (s.watch (.item i :: here) >>= fun r =>
          Stmt.watchAll here (i + 1) ss >>= fun rs => pure (r :: rs)).Orderly σ
          fun m => m.Within (.item i :: here) ∨ m.From here (i + 1) := by
        refine orderly_bind hs
          (fun r τ _ => orderly_bind_pure _ (Stmt.orderly_watchAll ss here (i + 1) τ))
          (fun m n hm hn => ?_) (fun m hm => .inl hm) fun m hm => .inr hm
        exact Moment.mark_ne_of_from (Nat.lt_succ_self i) hm.suffix hn
      refine orderly_note_bind ⟨i, Nat.le_refl i, List.suffix_refl _⟩ (hrest.mono ?_) ?_
      · rintro m (hm | ⟨j, hj, hm⟩)
        · exact ⟨i, Nat.le_refl i, hm.suffix⟩
        · exact ⟨j, by omega, hm⟩
      · intro n hn
        rcases hrest.notes n hn with (h | h) | h
        · rw [h]
          nofun
        · exact h.mark_ne true
        · exact Moment.mark_ne_of_from (Nat.lt_succ_self i) (List.suffix_refl _) h

end

/-- **Place and kind tell the moments of an analysis apart.** -/
theorem Session.moment_eq {s : Session} {p : Program} {m n : Moment} (hm : m ∈ s.moments p)
    (hn : n ∈ s.moments p) (h : m.mark = n.mark) : m = n :=
  List.inj_on_of_nodup_map (Stmt.orderly_watchAll p [] 0 s).distinct hm hn h

end Sema
