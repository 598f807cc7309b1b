import Sema.Proofs.Annotation
import Sema.Proofs.Control
import Sema.Proofs.Visibility

/-!
# What a check sees

At the moment when a statement is checked, in any analysis, whether it is accepted in the end or
not, the open scopes are those that the syntax tree shows at the place of the statement:

* a name that `designated` finds no declaration for means what the catalog says, and any other name
  means something that is no type, since a program declares none;
* the innermost scope holds the names of `heldNames` and no others.

`Scoped` says this of an environment and a place. One turn into a program keeps it (`Scoped.step`),
and so does the step from a statement to the next one (`Scoped.next`); along the watched check it
holds at every moment (`Session.scoped_moments`).
-/

namespace Sema

open Check Watch

/-! ## 1. What the syntax shows -/

/-- The names of the innermost scope behind a turn, out of those before it: a block adds what its
    statements above declare, and a body or a branch has a scope of its own. -/
def Focus.names : Focus → Turn → List String → List String
  | .block ss, .item i, around => (ss.take i).filterMap Stmt.declares? ++ around
  | .stmt (.function _ ps _ _ _), .body, _ => ps.map (·.name)
  | .stmt (.forEach iterator _ _ _), .body, _ => [iterator]
  | .stmt (.whileLoop _ _ _), .body, _ | .branch _, .consequent, _
  | .branch (.mk _ _ (.block _) _), .alternate, _ => []
  | _, _, around => around

/-- The names that the innermost scope at a place holds; at the top, those of the catalog. -/
def heldNames (c : Catalog) (p : Program) : Place → List String
  | [] => c.names
  | t :: outer => ((Focus.block p).at? outer).elim [] fun f => f.names t (heldNames c p outer)

section

variable {p : Program} {here : Place} {f : Focus}

theorem designated_cons (hat : (Focus.block p).at? here = some f) (x : String) (t : Turn) :
    designated p x (t :: here) = (f.seek x here t).or (designated p x here) := by
  rw [designated, hat, Option.bind_some]

theorem heldNames_cons (c : Catalog) (hat : (Focus.block p).at? here = some f) (t : Turn) :
    heldNames c p (t :: here) = f.names t (heldNames c p here) := by
  rw [heldNames, hat, Option.elim_some]

variable {ss : List Stmt} {s : Stmt} {i : Nat}

/-- Past a statement, what it declares comes into sight. -/
theorem designated_next (hat : (Focus.block p).at? here = some (.block ss)) (hs : ss[i]? = some s)
    (x : String) :
    designated p x (.item (i + 1) :: here) =
      if s.declares? = some x then some ⟨.item i :: here, .self⟩
      else designated p x (.item i :: here) := by
  rw [designated_cons hat, designated_cons hat, Focus.seek, Focus.seek, nearest, hs,
    Option.bind_some]
  by_cases hx : s.declares? = some x
  · rw [if_pos hx, if_pos (beq_iff_eq.mpr hx)]
    rfl
  · rw [if_neg hx, if_neg (fun h => hx (beq_iff_eq.mp h))]

theorem mem_heldNames_next (c : Catalog) (hat : (Focus.block p).at? here = some (.block ss))
    (hs : ss[i]? = some s) (x : String) :
    x ∈ heldNames c p (.item (i + 1) :: here) ↔
      s.declares? = some x ∨ x ∈ heldNames c p (.item i :: here) := by
  rw [heldNames_cons c hat, heldNames_cons c hat, Focus.names, Focus.names, List.take_add_one, hs]
  simp only [Option.toList_some, List.filterMap_append, List.mem_append, List.mem_filterMap,
    List.mem_singleton, exists_eq_left]
  rw [or_assoc, or_left_comm]

end

/-! ## 2. Environments that agree with a place -/

/-- What a name means, next to the declaration it belongs to: without one it means what the catalog
    says; a declaration of the program gives it a meaning, and never a type. -/
def Sighted (c : Catalog) (x : String) : Option Site → Option Entity → Prop
  | none, e => e = c.get? x
  | some _, e => ∃ d, e = some d ∧ ∀ t, d ≠ .type t

/-- The environment agrees with a place in the program. -/
structure Scoped (c : Catalog) (p : Program) (here : Place) (Γ : Env) : Prop where
  sighted : ∀ x, Sighted c x (designated p x here) (Γ.lookup x)
  free : ∀ x, Γ.Free x ↔ x ∉ heldNames c p here

/-- The names that come into sight have a meaning, and the others keep theirs. -/
theorem Sighted.or {c : Catalog} {x : String} {site found : Option Site} {e e' : Option Entity}
    (h : Sighted c x site e) (hnone : found = none → e' = e)
    (hsome : ∀ s, found = some s → ∃ d, e' = some d ∧ ∀ t, d ≠ .type t) :
    Sighted c x (found.or site) e' := by
  cases found with
  | none =>
      rw [hnone rfl]
      exact h
  | some s => exact hsome s rfl

namespace Scoped

variable {c : Catalog} {p : Program} {here : Place} {Γ Δ : Env} {f : Focus} {t : Turn}

/-- **One turn.** -/
theorem step (h : Scoped c p here Γ) (hat : (Focus.block p).at? here = some f)
    (hnone : ∀ x, f.seek x here t = none → Δ.lookup x = Γ.lookup x)
    (hsome : ∀ x s, f.seek x here t = some s → ∃ d, Δ.lookup x = some d ∧ ∀ ty, d ≠ .type ty)
    (hfree : ∀ x, Δ.Free x ↔ x ∉ f.names t (heldNames c p here)) : Scoped c p (t :: here) Δ where
  sighted x := by
    rw [designated_cons hat]
    exact (h.sighted x).or (hnone x) (hsome x)
  free x := by
    rw [heldNames_cons c hat]
    exact hfree x

/-- A turn that opens no scope and brings nothing into sight. -/
theorem turn (h : Scoped c p here Γ) (hat : (Focus.block p).at? here = some f)
    (hseek : ∀ x, f.seek x here t = none)
    (hnames : f.names t (heldNames c p here) = heldNames c p here) : Scoped c p (t :: here) Γ := by
  refine h.step hat (fun _ _ => rfl) (fun x s hs => ?_) fun x => ?_
  · rw [hseek x] at hs
    cases hs
  · rw [hnames]
    exact h.free x

/-- A turn into a new scope, which has no names yet. -/
theorem enter {Γ : Scopes} (h : Scoped c p here Γ.env) (hat : (Focus.block p).at? here = some f)
    (hseek : ∀ x, f.seek x here t = none) (hnames : f.names t (heldNames c p here) = [])
    (kind : ScopeKind) : Scoped c p (t :: here) (Γ.enter kind).env := by
  have hlookup : ∀ x, (Γ.enter kind).env.lookup x = Γ.env.lookup x := by
    cases kind <;> exact fun _ => rfl
  have hempty : ∀ x, (Γ.enter kind).env.Free x := by
    cases kind <;> exact Finmap.lookup_empty
  refine h.step hat (fun x _ => hlookup x) (fun x s hs => ?_) fun x => ?_
  · rw [hseek x] at hs
    cases hs
  · rw [hnames]
    exact ⟨fun _ => List.not_mem_nil, fun _ => hempty x⟩

/-- Into the body of a loop over a list, where its iterator is declared. -/
theorem forEach {iterator : String} {collection : Expr} {body : List Stmt} {span : Span}
    (h : Scoped c p here Γ)
    (hat : (Focus.block p).at? here = some (.stmt (.forEach iterator collection body span)))
    (v : Decl.Variable) : Scoped c p (.body :: here) (Γ.loop.bind iterator (.var v)) := by
  refine h.step hat (fun x hx => ?_) (fun x s hx => ?_) fun x => ?_
  · rw [Env.lookup_bind, Env.lookup_loop]
    by_cases hxi : x = iterator
    · rw [Focus.seek, if_pos hxi] at hx
      cases hx
    · rw [if_neg hxi]
  · rw [Env.lookup_bind]
    by_cases hxi : x = iterator
    · rw [if_pos hxi]
      exact ⟨_, rfl, by simp⟩
    · rw [Focus.seek, if_neg hxi] at hx
      cases hx
  · have hloop : Γ.loop.Free x := Finmap.lookup_empty x
    simp only [Env.free_bind, hloop, and_true, Focus.names, List.mem_singleton]

/-- To the first statement of a block. -/
theorem first {ss : List Stmt} (h : Scoped c p here Γ)
    (hat : (Focus.block p).at? here = some (.block ss)) : Scoped c p (.item 0 :: here) Γ :=
  h.turn hat (fun _ => rfl) rfl

/-- **From a statement to the next one**, once it stands for `r`. -/
theorem next {ss : List Stmt} {s : Stmt} {i : Nat} {r : Resolved.Stmt}
    (h : Scoped c p (.item i :: here) Γ) (hat : (Focus.block p).at? here = some (.block ss))
    (hs : ss[i]? = some s) (hr : s.Elaborates Γ r) :
    Scoped c p (.item (i + 1) :: here) (Γ.after r) := by
  have hname := hr.name_binding?
  have hafter : Γ.after r = r.binding?.elim Γ fun e => Γ.bind e.name e := by
    cases r <;> rfl
  -- a statement declares variables and functions
  have hentity : ∀ e, r.binding? = some e → ∀ t, e ≠ .type t := by
    intro e he t
    cases r <;> cases he <;> nofun
  refine ⟨fun x => ?_, fun x => ?_⟩
  · rw [designated_next hat hs, ← hname, hafter]
    cases hbinding : r.binding? with
    | none => exact h.sighted x
    | some e =>
        rw [Option.elim_some, Option.map_some, Env.lookup_bind]
        by_cases hx : x = e.name
        · rw [if_pos (congrArg some hx.symm), if_pos hx]
          exact ⟨e, rfl, hentity e hbinding⟩
        · rw [if_neg fun h => hx (Option.some.inj h).symm, if_neg hx]
          exact h.sighted x
  · rw [mem_heldNames_next c hat hs, ← hname, hafter, not_or, ← h.free x]
    cases r.binding? with
    | none => simp
    | some e =>
        rw [Option.elim_some, Option.map_some, Env.free_bind, Option.some.injEq, ne_comm]

end Scoped

/-! ## 3. Parameters -/

theorem nearest_lt {f : Nat → Bool} : ∀ {n k : Nat}, nearest f n = some k → k < n
  | n + 1, k, h => by
      rw [nearest] at h
      split at h
      · cases h
        exact Nat.lt_succ_self n
      · exact Nat.lt_succ_of_lt (nearest_lt h)

theorem Env.free_bindParameters {x : String} : ∀ (ds : List Decl.Parameter) (Γ : Env),
    (Γ.bindParameters ds).Free x ↔ x ∉ ds.map (·.name) ∧ Γ.Free x
  | [], Γ => by simp [Env.bindParameters]
  | d :: ds, Γ => by
      have ih := Env.free_bindParameters ds (Γ.bind d.name (.param d)) (x := x)
      rw [Env.free_bind] at ih
      rw [List.map_cons, List.mem_cons, not_or]
      exact ih.trans (by tauto)

section

variable {c : Catalog} {x : String} {here : Place} {ps : List Parameter}
  {ds : List Decl.Parameter} {Γ Δ : Env}

/-- Where parameters are declared, they come into sight. -/
theorem lookup_bindParameters_cases (hnames : ds.map (·.name) = ps.map (·.name)) (Γ : Env) :
    (seekParameter x here ps = none → (Γ.bindParameters ds).lookup x = Γ.lookup x) ∧
      ∀ s, seekParameter x here ps = some s →
        ∃ d, (Γ.bindParameters ds).lookup x = some d ∧ ∀ t, d ≠ .type t := by
  have hlength : ds.length = ps.length := by simpa using congrArg List.length hnames
  have hget : ∀ j : Nat, ds[j]?.map Decl.Parameter.name = ps[j]?.map Parameter.name := by
    intro j
    simpa using congrArg (·[j]?) hnames
  have hnearest : nearest (fun j => ds[j]?.map Decl.Parameter.name == some x) ds.length =
      nearest (fun j => ps[j]?.map Parameter.name == some x) ps.length := by
    simp only [hlength, hget]
  rw [Env.lookup_bindParameters, hnearest, seekParameter]
  cases hfound : nearest (fun j => ps[j]?.map Parameter.name == some x) ps.length with
  | none => exact ⟨fun _ => rfl, nofun⟩
  | some j =>
      have hj : j < ds.length := hlength ▸ nearest_lt hfound
      refine ⟨nofun, fun _ _ => ⟨.param ds[j], ?_, nofun⟩⟩
      rw [Option.elim_some, List.getElem?_eq_getElem hj, Option.map_some]

/-- What a name in the type of a parameter means. -/
theorem Sighted.parameters {site : Option Site} (h : Sighted c x site (Γ.lookup x))
    (hnames : ds.map (·.name) = ps.map (·.name)) (g : Option Decl.Function) :
    Sighted c x ((seekParameter x here ps).or site)
      (((Γ.body g).bindParameters ds).lookup x) := by
  obtain ⟨hnone, hsome⟩ := lookup_bindParameters_cases hnames (Γ.body g)
  exact h.or hnone hsome

/-- Into the body of a function: its parameters come into sight, and behind them the function. -/
theorem Scoped.functionBody {p : Program} {name : String} {result : Option TypeExpr}
    {body : List Stmt} {span : Span} (h : Scoped c p here Γ)
    (hat : (Focus.block p).at? here = some (.stmt (.function name ps result body span)))
    (hnames : ds.map (·.name) = ps.map (·.name)) (g : Decl.Function) :
    Scoped c p (.body :: here) (((Γ.bind name (.func g)).body (some g)).bindParameters ds) := by
  refine ⟨fun x => ?_, fun x => ?_⟩
  · -- the function first, and then its parameters in front of it
    have hfunction : Sighted c x ((if x = name then some ⟨here, .self⟩ else none : Option Site).or
        (designated p x here)) ((Γ.bind name (.func g)).lookup x) := by
      rw [Env.lookup_bind]
      by_cases hx : x = name
      · rw [if_pos hx, if_pos hx]
        exact ⟨_, rfl, by simp⟩
      · rw [if_neg hx, if_neg hx]
        exact h.sighted x
    rw [designated_cons hat, Focus.seek, Option.or_assoc]
    exact hfunction.parameters hnames (some g)
  · have hbody : ((Γ.bind name (.func g)).body (some g)).Free x := Finmap.lookup_empty x
    rw [heldNames_cons c hat, Focus.names, Env.free_bindParameters, hnames]
    exact and_iff_left hbody

end

/-! ## 4. Every moment of an analysis -/

/-- The scopes at a moment agree with the place of the statement that starts. -/
def Moment.Scoped (c : Catalog) (p : Program) : Moment → Prop
  | .started here _ σ => Sema.Scoped c p here σ.scopes.env
  | .created _ _ => True

section

variable {c : Catalog} {p : Program}

mutual

theorem Stmt.scoped_watch : ∀ (s : Stmt) (here : Place) (σ : Session),
    (Focus.block p).at? here = some (.stmt s) → Scoped c p here σ.scopes.env →
    (s.watch here).Notes σ (Moment.Scoped c p)
  | .function name parameters result body span, here, σ, hat, h => by
      refine Stmt.notes_function.mpr fun ds f τ hhead => ⟨trivial, ?_⟩
      have hname := hhead.name_eq
      obtain ⟨ty, υ, ω, hty, hps, hf⟩ := hhead
      obtain ⟨-, rfl⟩ := yields_checkResult.mp hty
      obtain ⟨hds, -, -, -, rfl⟩ := yields_functionHead.mp ⟨ω, hps, hf⟩
      have hbody := Focus.at?_cons hat .body
      refine Stmt.scoped_watchAll body _ 0 _ body rfl hbody (.first ?_ hbody)
      rw [Scopes.env_functionBody, hname]
      exact h.functionBody hat hds.map_name f
  | .branch b, here, σ, hat, h => by
      refine Stmt.notes_branch.mpr (b.scoped_watch _ σ (Focus.at?_cons hat _) ?_)
      exact h.turn hat (fun _ => rfl) rfl
  | .whileLoop test body span, here, σ, hat, h => by
      refine Stmt.notes_whileLoop.mpr fun t τ htest => ?_
      obtain ⟨-, rfl⟩ := yields_checkTest.mp htest
      have hbody := Focus.at?_cons hat .body
      refine Stmt.scoped_watchAll body _ 0 _ body rfl hbody (.first ?_ hbody)
      exact h.enter hat (fun _ => rfl) rfl .loop
  | .forEach iterator collection body span, here, σ, hat, h => by
      refine Stmt.notes_forEach.mpr fun r element τ hcollection v υ hv => ?_
      obtain ⟨-, rfl⟩ := yields_checkCollection.mp hcollection
      obtain ⟨-, -, rfl⟩ := yields_declareVariable.mp hv
      have hbody := Focus.at?_cons hat .body
      refine Stmt.scoped_watchAll body _ 0 _ body rfl hbody (.first ?_ hbody)
      exact h.forEach hat v
  | .declare _ _ _ _, _, _, _, _ | .step _ _ _, _, _, _, _ | .assign _ _ _, _, _, _, _
  | .exitLoop _, _, _, _, _ | .returnValue _ _, _, _, _, _ | .returnNothing _, _, _, _, _
  | .eval _ _, _, _, _, _ => (notes_quiet _).mpr trivial

theorem Branch.scoped_watch : ∀ (b : Branch) (here : Place) (σ : Session),
    (Focus.block p).at? here = some (.branch b) → Scoped c p here σ.scopes.env →
    (b.watch here).Notes σ (Moment.Scoped c p)
  | .mk test consequent alternate span, here, σ, hat, h => by
      refine Branch.notes_mk.mpr fun t τ htest => ?_
      obtain ⟨-, rfl⟩ := yields_checkTest.mp htest
      refine ⟨?_, fun rs υ hrs => ?_⟩
      · have hconsequent := Focus.at?_cons hat .consequent
        refine Stmt.scoped_watchAll consequent _ 0 _ consequent rfl hconsequent
          (.first ?_ hconsequent)
        exact h.enter hat (fun _ => rfl) rfl .block
      · have hυ := (yields_inScope_checkAll fun u => Stmt.yields_checkAll consequent _ _ u).mp hrs
        obtain ⟨-, -, rfl⟩ := hυ
        exact alternate.scoped_watch here _ hat h

/-- What follows `else` in the `if` at a place. -/
theorem Alternate.scoped_watch : ∀ (a : Alternate) (here : Place) (σ : Session)
    {test : Expr} {consequent : List Stmt} {span : Span},
    (Focus.block p).at? here = some (.branch (.mk test consequent a span)) →
    Scoped c p here σ.scopes.env → (a.watch (.alternate :: here)).Notes σ (Moment.Scoped c p)
  | .none, _, _, _, _, _, _, _ => (notes_quiet _).mpr trivial
  | .block body, here, σ, _, _, _, hat, h => by
      have hbody := Focus.at?_cons hat .alternate
      refine Alternate.notes_block.mpr
        (Stmt.scoped_watchAll body _ 0 _ body rfl hbody (.first ?_ hbody))
      exact h.enter hat (fun _ => rfl) rfl .block
  | .elseIf next, here, σ, _, _, _, hat, h => by
      refine Alternate.notes_elseIf.mpr (next.scoped_watch _ σ (Focus.at?_cons hat _) ?_)
      exact h.turn hat (fun _ => rfl) rfl

/-- The statements `ss` are those of the block `all` from number `i` on. -/
theorem Stmt.scoped_watchAll : ∀ (ss : List Stmt) (here : Place) (i : Nat) (σ : Session)
    (all : List Stmt), all.drop i = ss → (Focus.block p).at? here = some (.block all) →
    Scoped c p (.item i :: here) σ.scopes.env →
    (Stmt.watchAll here i ss).Notes σ (Moment.Scoped c p)
  | [], _, _, _, _, _, _, _ => (notes_quiet _).mpr trivial
  | s :: ss, here, i, σ, all, hall, hat, h => by
      have hget : all[i]? = some s := by
        rw [← List.head?_drop, hall]
        rfl
      have hplace : (Focus.block p).at? (.item i :: here) = some (.stmt s) := by
        rw [Focus.at?_cons hat, Focus.child?, hget]
        rfl
      refine Stmt.notes_cons.mpr ⟨h, s.scoped_watch _ σ hplace h, fun r τ hr => ?_⟩
      obtain ⟨helaborates, -, rfl⟩ := (s.yields_check r σ τ).mp hr
      refine Stmt.scoped_watchAll ss here (i + 1) _ all ?_ hat ?_
      · rw [← List.tail_drop, hall]
        rfl
      · rw [Scopes.env_after]
        exact h.next hat hget helaborates

end

/-- The environment of a catalog agrees with the top of every program. -/
theorem Scoped.ofCatalog (c : Catalog) (p : Program) : Scoped c p [] (.ofCatalog c) where
  sighted x := Env.lookup_ofCatalog c x
  free x := by
    rw [Env.Free, Env.lookup_inner_ofCatalog, Catalog.get?, List.lookup_eq_none_iff, heldNames,
      Catalog.names]
    simp only [List.mem_map, not_exists, not_and, bne_iff_ne, ne_comm, ne_eq]

/-- **What is seen is what the syntax shows**, at every moment of an analysis. -/
theorem Session.scoped_moments (h : c.names.Nodup) (p : Program) :
    ∀ m ∈ (Session.loaded c).moments p, m.Scoped c p := by
  refine Stmt.scoped_watchAll p [] 0 _ p rfl rfl ?_
  rw [Session.env_loaded h]
  exact (Scoped.ofCatalog c p).first rfl

end

end Sema
