import Sema.Proofs.Moves
import Sema.Proofs.Resolution
import Sema.Proofs.Sight

/-!
# Names of types have one meaning

A program declares variables, functions and parameters, and no types. So in every session that
arises on a catalog the types are entries of the catalog, and they are bound at the root
(`Session.Arises.type_at_root`). A written type therefore has one meaning in a whole program:
`TypeExpr.meaning?` replaces each name by the catalog's type of that name and looks at no scope.

* In a session that arises, a written type is resolved exactly to its meaning, and it is refused
  when one of its names is hidden (`Session.Arises.resolve_eq_ok`).
* In an accepted program every written type is replaced by its meaning, wherever it stands
  (`Elaborates.annotation`); a program that hides a name from a type that mentions it is rejected.
-/

namespace Sema

/-! ## 1. The meaning of a written type -/

/-- The type that an entity is. -/
def Entity.type? : Entity → Option Ty
  | .type t => some t
  | _ => none

theorem Entity.type?_eq_some {e : Entity} {t : Ty} : e.type? = some t ↔ e = .type t := by
  cases e <;> simp [Entity.type?]

mutual

/-- The type that a written type stands for when each name in it is replaced by the catalog's type
    of that name. -/
def TypeExpr.meaning? (c : Catalog) : TypeExpr → Option Ty
  | .named x _ => (c.get? x).bind Entity.type?
  | .list element _ => (element.meaning? c).map .list
  | .function parameters result _ =>
      (TypeExpr.meaningAll? c parameters).bind fun ts => (result.meaning? c).map (.function ts)

/-- The types that written types stand for. -/
def TypeExpr.meaningAll? (c : Catalog) : List TypeExpr → Option (List Ty)
  | [] => some []
  | t :: ts => (t.meaning? c).bind fun ty => (TypeExpr.meaningAll? c ts).map (ty :: ·)

end

section

variable {c : Catalog} {Γ : Env}

theorem TypeExpr.meaning?_named {x : String} {span : Span} {ty : Ty} :
    (TypeExpr.named x span).meaning? c = some ty ↔ c.get? x = some (.type ty) := by
  rw [TypeExpr.meaning?, Option.bind_eq_some_iff]
  simp only [Entity.type?_eq_some, exists_eq_right]

theorem TypeExpr.meaning?_list {element : TypeExpr} {span : Span} {ty : Ty} :
    (TypeExpr.list element span).meaning? c = some ty ↔
      ∃ t, element.meaning? c = some t ∧ ty = .list t := by
  rw [TypeExpr.meaning?, Option.map_eq_some_iff]
  simp only [eq_comm]

theorem TypeExpr.meaning?_function {parameters : List TypeExpr} {result : TypeExpr} {span : Span}
    {ty : Ty} :
    (TypeExpr.function parameters result span).meaning? c = some ty ↔
      ∃ ts t, TypeExpr.meaningAll? c parameters = some ts ∧ result.meaning? c = some t ∧
        ty = .function ts t := by
  rw [TypeExpr.meaning?, Option.bind_eq_some_iff]
  simp only [Option.map_eq_some_iff, @eq_comm _ ty, exists_and_left]

theorem TypeExpr.meaningAll?_cons {t : TypeExpr} {ts : List TypeExpr} {tys : List Ty} :
    TypeExpr.meaningAll? c (t :: ts) = some tys ↔
      ∃ u us, t.meaning? c = some u ∧ TypeExpr.meaningAll? c ts = some us ∧ tys = u :: us := by
  rw [TypeExpr.meaningAll?, Option.bind_eq_some_iff]
  simp only [Option.map_eq_some_iff, @eq_comm _ tys, exists_and_left]

mutual

/-- Where the only types in sight are those of the catalog, a written type can stand for nothing but
    its meaning. -/
theorem TypeExpr.meaning?_of_denotes
    (hΓ : ∀ x u, Γ.lookup x = some (.type u) → c.get? x = some (.type u)) :
    ∀ (t : TypeExpr) {ty : Ty}, t.Denotes Γ ty → t.meaning? c = some ty
  | .named x _, _, h => by
      cases h with
      | named found => exact TypeExpr.meaning?_named.mpr (hΓ x _ found)
  | .list element _, _, h => by
      cases h with
      | list he =>
          exact TypeExpr.meaning?_list.mpr ⟨_, element.meaning?_of_denotes hΓ he, rfl⟩
  | .function parameters result _, _, h => by
      cases h with
      | function hps hr =>
          have hparameters := TypeExpr.meaningAll?_of_denotes hΓ parameters hps
          exact TypeExpr.meaning?_function.mpr
            ⟨_, _, hparameters, result.meaning?_of_denotes hΓ hr, rfl⟩

theorem TypeExpr.meaningAll?_of_denotes
    (hΓ : ∀ x u, Γ.lookup x = some (.type u) → c.get? x = some (.type u)) :
    ∀ (ts : List TypeExpr) {tys : List Ty}, List.Forall₂ (TypeExpr.Denotes Γ) ts tys →
      TypeExpr.meaningAll? c ts = some tys
  | [], _, .nil => rfl
  | t :: ts, _, .cons ht hts =>
      TypeExpr.meaningAll?_cons.mpr
        ⟨_, _, t.meaning?_of_denotes hΓ ht, TypeExpr.meaningAll?_of_denotes hΓ ts hts, rfl⟩

end

mutual

/-- Where none of its names is hidden, a written type stands for its meaning. -/
theorem TypeExpr.denotes_of_meaning? : ∀ (t : TypeExpr) {ty : Ty}, t.meaning? c = some ty →
    (∀ x span, .type (.named x span) ∈ t.nodes → Γ.lookup x = c.get? x) → t.Denotes Γ ty
  | .named x span, _, h, hΓ => by
      have hseen := hΓ x span List.mem_cons_self
      exact .named (hseen.trans (TypeExpr.meaning?_named.mp h))
  | .list element span, _, h, hΓ => by
      obtain ⟨t, ht, rfl⟩ := TypeExpr.meaning?_list.mp h
      exact .list (element.denotes_of_meaning? ht fun x s hx =>
        hΓ x s (List.mem_cons_of_mem _ hx))
  | .function parameters result span, _, h, hΓ => by
      obtain ⟨ts, t, hts, ht, rfl⟩ := TypeExpr.meaning?_function.mp h
      refine .function (TypeExpr.denotesAll_of_meaning? parameters hts fun x s hx => ?_)
        (result.denotes_of_meaning? ht fun x s hx => ?_)
      · exact hΓ x s (List.mem_cons_of_mem _ (List.mem_append_left _ hx))
      · exact hΓ x s (List.mem_cons_of_mem _ (List.mem_append_right _ hx))

theorem TypeExpr.denotesAll_of_meaning? : ∀ (ts : List TypeExpr) {tys : List Ty},
    TypeExpr.meaningAll? c ts = some tys →
    (∀ x span, .type (.named x span) ∈ TypeExpr.nodesAll ts → Γ.lookup x = c.get? x) →
      List.Forall₂ (TypeExpr.Denotes Γ) ts tys
  | [], _, h, _ => by
      cases h
      exact .nil
  | t :: ts, _, h, hΓ => by
      obtain ⟨u, us, hu, hus, rfl⟩ := TypeExpr.meaningAll?_cons.mp h
      refine .cons (t.denotes_of_meaning? hu fun x s hx => ?_)
        (TypeExpr.denotesAll_of_meaning? ts hus fun x s hx => ?_)
      · exact hΓ x s (List.mem_append_left _ hx)
      · exact hΓ x s (List.mem_append_right _ hx)

end

mutual

/-- What has a meaning has one in all its parts. -/
theorem TypeExpr.exists_meaning?_of_mem_nodes {u : TypeExpr} : ∀ (t : TypeExpr) {ty : Ty},
    t.meaning? c = some ty → .type u ∈ t.nodes → ∃ uty, u.meaning? c = some uty
  | .named x _, _, h, hu => by
      cases List.mem_singleton.mp hu
      exact ⟨_, h⟩
  | .list element _, _, h, hu => by
      obtain hu | hu := List.mem_cons.mp hu
      · cases hu
        exact ⟨_, h⟩
      · obtain ⟨t, ht, -⟩ := TypeExpr.meaning?_list.mp h
        exact TypeExpr.exists_meaning?_of_mem_nodes element ht hu
  | .function parameters result _, _, h, hu => by
      obtain hu | hu := List.mem_cons.mp hu
      · cases hu
        exact ⟨_, h⟩
      · obtain ⟨ts, t, hts, ht, -⟩ := TypeExpr.meaning?_function.mp h
        obtain hu | hu := List.mem_append.mp hu
        · exact TypeExpr.exists_meaning?_of_mem_nodesAll parameters hts hu
        · exact TypeExpr.exists_meaning?_of_mem_nodes result ht hu

theorem TypeExpr.exists_meaning?_of_mem_nodesAll {u : TypeExpr} : ∀ (ts : List TypeExpr)
    {tys : List Ty}, TypeExpr.meaningAll? c ts = some tys → .type u ∈ TypeExpr.nodesAll ts →
      ∃ uty, u.meaning? c = some uty
  | t :: ts, _, h, hu => by
      obtain ⟨ty, tys, hty, htys, -⟩ := TypeExpr.meaningAll?_cons.mp h
      obtain hu | hu := List.mem_append.mp hu
      · exact TypeExpr.exists_meaning?_of_mem_nodes t hty hu
      · exact TypeExpr.exists_meaning?_of_mem_nodesAll ts htys hu

end

/-- A catalog without types gives no written type a meaning: each has a name in it. -/
theorem TypeExpr.meaning?_eq_none (hc : ∀ x u, c.get? x ≠ some (.type u)) (t : TypeExpr) :
    t.meaning? c = none := by
  cases t with
  | named x _ =>
      rw [Option.eq_none_iff_forall_ne_some]
      intro ty h
      exact hc x ty (TypeExpr.meaning?_named.mp h)
  | list element _ =>
      rw [TypeExpr.meaning?, element.meaning?_eq_none hc, Option.map_none]
  | function parameters result _ =>
      rw [TypeExpr.meaning?, result.meaning?_eq_none hc]
      cases TypeExpr.meaningAll? c parameters <;> rfl

end

/-- Without repeated names, the catalog gives back each of its entries. -/
theorem Catalog.get?_of_mem_entries {c : Catalog} (h : c.names.Nodup) {x : String} {e : Entity}
    (hmem : (x, e) ∈ c.entries) : c.get? x = some e := by
  obtain ⟨before, after, hentries⟩ := List.append_of_mem hmem
  refine List.lookup_eq_some_iff.mpr ⟨before, after, hentries, fun b hb => ?_⟩
  rw [Catalog.names, hentries, List.map_append, List.map_cons, List.nodup_append] at h
  have hne := h.2.2 b.1 (List.mem_map_of_mem hb) x List.mem_cons_self
  exact bne_iff_ne.mpr fun heq => hne heq.symm

/-! ## 2. Sessions that arise -/

/-- The types among the bindings of a scope are entries of the catalog, and they stand at the
    root. -/
def Scopes.TypesAtRoot (c : Catalog) (Γ : Scopes) : Prop :=
  ∀ i f x u, Γ.frame? i = some f → (x, .type u) ∈ f.bindings → i = 0 ∧ (x, .type u) ∈ c.entries

section

variable {c : Catalog} {Γ : Scopes}

theorem Scopes.typesAtRoot_loaded (c : Catalog) :
    (Session.loaded c).scopes.TypesAtRoot c := by
  intro i f x u hf hx
  have hi : i = 0 := Nat.le_zero.mp (le_depth_of_frame? hf)
  subst hi
  cases hf
  have hmem : (x, Entity.type u) ∈ c.entries.reverse ++ [] := hx
  rw [List.append_nil] at hmem
  exact ⟨rfl, List.mem_reverse.mp hmem⟩

/-- A change of a scope that adds no type. -/
theorem Scopes.TypesAtRoot.modify (h : Γ.TypesAtRoot c) {i : Nat} {change : Frame → Frame}
    (hchange : ∀ f x u, (x, .type u) ∈ (change f).bindings → (x, .type u) ∈ f.bindings) :
    (Γ.modify i change).TypesAtRoot c := by
  intro j f x u hf hx
  rw [Scopes.frame?_modify] at hf
  by_cases hji : j = i
  · rw [if_pos hji] at hf
    obtain ⟨g, hg, rfl⟩ := Option.map_eq_some_iff.mp hf
    exact h j g x u hg (hchange g x u hx)
  · rw [if_neg hji] at hf
    exact h j f x u hf hx

/-- **No move declares a type.** -/
theorem Session.Move.typesAtRoot {s t : Session} (hm : s.Move t) (h : s.scopes.TypesAtRoot c) :
    t.scopes.TypesAtRoot c := by
  cases hm with
  | number => exact h
  | enter kind =>
      intro i f x u hf hx
      have hf : (s.scopes.enter kind).frame? i = some f := hf
      rw [Scopes.frame?_enter] at hf
      by_cases hi : i = s.scopes.depth + 1
      · -- a new scope has no bindings
        rw [if_pos hi] at hf
        cases hf
        cases kind <;> cases hx
      · rw [if_neg hi] at hf
        exact h i f x u hf hx
  | exit hexit =>
      intro i f x u hf hx
      rw [Scopes.frame?_of_exit hexit (Scopes.le_depth_of_frame? hf)] at hf
      exact h i f x u hf hx
  | declare he hn hdefine =>
      obtain ⟨f, -, -, rfl⟩ := Scopes.defineIn_eq_ok.mp hdefine
      refine h.modify fun g y u hy => ?_
      obtain hy | hy := List.mem_cons.mp hy
      · -- what is declared has an identity, and a type has none
        cases hy
        cases he
      · exact hy
  | function hf hn hset =>
      obtain ⟨-, rfl⟩ := Scopes.setFunction_eq_ok.mp hset
      exact h.modify fun _ _ _ hy => hy

theorem Session.Arises.nodup {s : Session} (h : s.Arises c) : c.names.Nodup := by
  induction h with
  | opened h => exact (Session.open?_eq_ok_iff.mp h).1
  | move _ _ ih => exact ih

/-- **Every type that is bound in a session that arises is an entry of the catalog, at the
    root.** -/
theorem Session.Arises.type_at_root {s : Session} (h : s.Arises c) : s.scopes.TypesAtRoot c := by
  induction h with
  | opened h =>
      rw [(Session.open?_eq_ok_iff.mp h).2]
      exact Scopes.typesAtRoot_loaded c
  | move _ hm ih => exact hm.typesAtRoot ih

theorem Session.Arises.get?_of_lookup? {s : Session} (h : s.Arises c) {x : String} {u : Ty}
    (hx : s.scopes.lookup? x = some (.type u)) : c.get? x = some (.type u) := by
  obtain ⟨i, f, hf, hmem⟩ := Scopes.mem_bindings_of_lookup? hx
  exact Catalog.get?_of_mem_entries h.nodup (h.type_at_root i f x u hf hmem).2

/-- **A written type is resolved to its meaning, or refused**: it is refused when it has none, and
    when one of its names is hidden. -/
theorem Session.Arises.resolve_eq_ok {s : Session} (h : s.Arises c) (t : TypeExpr) (ty : Ty) :
    (t.resolve s.scopes).result = .ok ty ↔
      t.meaning? c = some ty ∧
        ∀ x span, .type (.named x span) ∈ t.nodes → s.scopes.lookup? x = c.get? x := by
  rw [TypeExpr.result_resolve_eq_ok]
  constructor
  · intro hden
    refine ⟨t.meaning?_of_denotes (fun x u hu => ?_) hden, fun x span hx => ?_⟩
    · rw [Scopes.lookup_env] at hu
      exact h.get?_of_lookup? hu
    · obtain ⟨u, hu⟩ := t.lookup_of_denotes hden hx
      rw [Scopes.lookup_env] at hu
      rw [hu, h.get?_of_lookup? hu]
  · intro ⟨hty, hseen⟩
    refine t.denotes_of_meaning? hty fun x span hx => ?_
    rw [Scopes.lookup_env]
    exact hseen x span hx

end

/-! ## 3. Accepted programs -/

/-- Each type of a parameter is looked at where the parameters before it are declared. -/
theorem Parameter.ElaboratesAll.denotes : ∀ {ps : List Parameter} {ds : List Decl.Parameter}
    {Γ : Env}, Parameter.ElaboratesAll Γ ps ds → ∀ {k : Nat} {q : Parameter}, ps[k]? = some q →
      ∃ d, ds[k]? = some d ∧ q.type.Denotes (Γ.bindParameters (ds.take k)) d.ty
  | _ :: _, _, _, .cons ht _ _, 0, q, hq => by
      cases hq
      exact ⟨_, rfl, ht⟩
  | _ :: _, _, _, .cons _ _ hds, k + 1, q, hq => hds.denotes (k := k) hq

section

variable {c : Catalog} {p : Program} {R : Resolved.Program} {here : Place} {f : Focus}
  {a : Annotation} {t : TypeExpr}

/-- What a program declares is no type. -/
theorem meaning_eq_type {x : String} {site : Option Site} {u : Ty}
    (h : meaning c R x site = some (.type u)) : site = none ∧ c.get? x = some (.type u) := by
  cases site with
  | none => exact ⟨rfl, h⟩
  | some site =>
      obtain ⟨i, hi, -⟩ := Resolved.Focus.identity?_of_declaredAt? h
      cases hi

/-- The scopes in which a written type of an accepted program was looked at, and what it was
    replaced by. -/
theorem Elaborates.annotation (h : Elaborates c p R) (hf : (Focus.block p).at? here = some f)
    (ha : f.annotation? a = some t) :
    ∃ g Δ ty, (Resolved.Focus.block R).at? here = some g ∧ g.annotation? a = some ty ∧
      t.Denotes Δ ty ∧ ∀ x u, Δ.lookup x = some (.type u) →
        designatedIn p x here f a = none ∧ c.get? x = some (.type u) := by
  obtain ⟨g, Γ, hg, hfg, hΓ⟩ := h.at_of_syntax hf
  -- where no parameters stand in front, the scopes are those around
  have haround : f.front a = [] → ∀ x u, Γ.lookup x = some (.type u) →
      designatedIn p x here f a = none ∧ c.get? x = some (.type u) := by
    intro hfront x u hx
    rw [hΓ x] at hx
    obtain ⟨hnone, hu⟩ := meaning_eq_type hx
    refine ⟨?_, hu⟩
    rw [designatedIn, hfront]
    exact hnone
  unfold Focus.annotation? at ha
  split at ha
  · next w span =>
      cases ha
      cases hfg with
      | expr he =>
          cases he with
          | emptyList hden => exact ⟨_, Γ, _, hg, rfl, hden, haround rfl⟩
  · next name ps result body span k =>
      obtain ⟨q, hq, rfl⟩ := Option.map_eq_some_iff.mp ha
      cases hfg with
      | stmt hs =>
          cases hs with
          | @function _ _ _ _ _ _ _ _ ds _ _ _ hds _ _ _ =>
              obtain ⟨d, hd, hden⟩ := hds.denotes hq
              have hty : ds[k]?.map (·.ty) = some d.ty := by rw [hd, Option.map_some]
              refine ⟨_, _, d.ty, hg, hty, hden, fun x u hx => ?_⟩
              have hnames : (ds.take k).map (·.name) = (ps.take k).map (·.name) := by
                rw [List.map_take, List.map_take, hds.map_name]
              obtain ⟨hnone, hsome⟩ := @lookup_bindParameters_cases x here (ps.take k)
                (ds.take k) hnames (Γ.body none)
              rw [designatedIn, Focus.front]
              cases hseek : seekParameter x here (ps.take k) with
              | some site =>
                  -- a parameter in front hides the name, and a parameter is no type
                  obtain ⟨e, he, hne⟩ := hsome site hseek
                  rw [hx] at he
                  exact absurd (Option.some.inj he).symm (hne u)
              | none =>
                  rw [hnone hseek, Env.lookup_body, hΓ x] at hx
                  exact meaning_eq_type hx
  · next name ps result body span =>
      cases hfg with
      | stmt hs =>
          cases hs with
          | function hresult _ _ hfun _ =>
              cases ha
              cases hresult with
              | some hden =>
                  subst hfun
                  exact ⟨_, Γ, _, hg, rfl, hden, haround rfl⟩
  · cases ha

/-- In an accepted program a written type is replaced by its meaning, and the program hides none of
    its names from it. -/
theorem Elaborates.annotation_meaning (h : Elaborates c p R)
    (hf : (Focus.block p).at? here = some f) (ha : f.annotation? a = some t) :
    (∃ g ty, (Resolved.Focus.block R).at? here = some g ∧ g.annotation? a = some ty ∧
      t.meaning? c = some ty) ∧
    ∀ x span, .type (.named x span) ∈ t.nodes → designatedIn p x here f a = none := by
  obtain ⟨g, Δ, ty, hg, hty, hden, hΔ⟩ := h.annotation hf ha
  refine ⟨⟨g, ty, hg, hty, t.meaning?_of_denotes (fun x u hu => (hΔ x u hu).2) hden⟩, ?_⟩
  intro x span hx
  obtain ⟨u, hu⟩ := t.lookup_of_denotes hden hx
  exact (hΔ x u hu).1

/-- The written types of an accepted program have meanings. -/
theorem Elaborates.exists_meaning? (h : Elaborates c p R) (ht : .type t ∈ Stmt.nodesAll p) :
    ∃ ty, t.meaning? c = some ty := by
  obtain ⟨here, f, a, w, hf, ha, htw⟩ := exists_annotation_of_mem_nodesAll ht
  obtain ⟨⟨-, ty, -, -, hty⟩, -⟩ := h.annotation_meaning hf ha
  exact TypeExpr.exists_meaning?_of_mem_nodes w hty htw

theorem exists_error_of_not_elaborates (h : ∀ R, ¬ Elaborates c p R) :
    ∃ d, (analyze c p).result = .error d := by
  cases hr : (analyze c p).result with
  | ok R => exact absurd (elaborates_of_analyze hr) (h R)
  | error d => exact ⟨d, rfl⟩

/-- Against a catalog without types, a program with a written type is rejected. -/
theorem exists_error_of_no_types (hc : ∀ x u, (x, .type u) ∉ c.entries)
    (ht : .type t ∈ Stmt.nodesAll p) : ∃ d, (analyze c p).result = .error d := by
  refine exists_error_of_not_elaborates fun R hR => ?_
  obtain ⟨ty, hty⟩ := hR.exists_meaning? ht
  have hnone : t.meaning? c = none :=
    t.meaning?_eq_none fun x u hx => hc x u (mem_of_lookup hx)
  rw [hnone] at hty
  cases hty

end

/-- **Names of types have one meaning in a whole program.**

    * The sessions that arise on a catalog are closed under every step of a check. In each of them,
      every type that some scope binds is an entry of the catalog, and the scope is the root. There
      a written type is resolved exactly to its meaning, unless a name in it is hidden: then it is
      refused.
    * In an accepted program, every written type lies in one that some part of the program writes,
      and that one is replaced by its meaning, whatever stands before it or around it.
    * A program that declares a name which is then in sight of a written type with this name in it
      is rejected.
    * Without types in the catalog, or without the catalog, a program with a written type is
      rejected. -/
theorem type_names_have_one_meaning (c : Catalog) :
    Session.Closed (Session.Arises c) ∧
    (∀ s : Session, s.Arises c → s.scopes.TypesAtRoot c ∧
      ∀ (t : TypeExpr) (ty : Ty), (t.resolve s.scopes).result = .ok ty ↔
        t.meaning? c = some ty ∧
          ∀ x span, .type (.named x span) ∈ t.nodes → s.scopes.lookup? x = c.get? x) ∧
    (∀ (p : Program) (R : Resolved.Program), (analyze c p).result = .ok R →
      (∀ t : TypeExpr, .type t ∈ Stmt.nodesAll p →
        ∃ here f a w, (Focus.block p).at? here = some f ∧ f.annotation? a = some w ∧
          .type t ∈ w.nodes) ∧
      ∀ (here : Place) (f : Focus) (a : Annotation) (t : TypeExpr),
        (Focus.block p).at? here = some f → f.annotation? a = some t →
          ∃ g ty, (Resolved.Focus.block R).at? here = some g ∧ g.annotation? a = some ty ∧
            t.meaning? c = some ty) ∧
    (∀ (p : Program) (here : Place) (f : Focus) (a : Annotation) (t : TypeExpr) (x : String)
      (span : Span), (Focus.block p).at? here = some f → f.annotation? a = some t →
        .type (.named x span) ∈ t.nodes → designatedIn p x here f a ≠ none →
          ∃ d, (analyze c p).result = .error d) ∧
    ((∀ x u, (x, .type u) ∉ c.entries) → ∀ (p : Program) (t : TypeExpr),
      .type t ∈ Stmt.nodesAll p → ∃ d, (analyze c p).result = .error d) ∧
    (∀ (p : Program) (t : TypeExpr), .type t ∈ Stmt.nodesAll p →
      ∃ d, (analyzeWith false c p).result = .error d) := by
  refine ⟨Session.closed_arises c, fun s hs => ⟨hs.type_at_root, hs.resolve_eq_ok⟩,
    fun p R hok => ⟨fun t => exists_annotation_of_mem_nodesAll, ?_⟩, ?_,
    fun hc p t => exists_error_of_no_types hc, ?_⟩
  · intro here f a t hf ha
    exact ((elaborates_of_analyze hok).annotation_meaning hf ha).1
  · intro p here f a t x span hf ha hx hhidden
    refine exists_error_of_not_elaborates fun R hR => hhidden ?_
    exact (hR.annotation_meaning hf ha).2 x span hx
  · intro p t ht
    have hempty : ∀ x u, (x, Entity.type u) ∉ Catalog.empty.entries := fun _ _ => List.not_mem_nil
    exact exists_error_of_no_types hempty ht

/-- A function with a variable that is called like a type, between uses of the type. -/
def variableLikeType (inner : List Stmt) : Program :=
  [.function "f"
    [⟨"g", .function [.list (.named "int" .origin) .origin] (.named "float" .origin) .origin,
      .origin⟩]
    (some (.named "int" .origin))
    ([.declare "int" false (.int 2 .origin) .origin] ++ inner ++
      [.returnValue (.name "int" .origin) .origin]) .origin,
   .function "h" [⟨"n", .named "int" .origin, .origin⟩] none [] .origin]

/-- Around the variable the name is the catalog's type. In its sight no type can mention the name,
    and without the catalog no type can be written at all. -/
theorem type_names_have_one_meaning_variableLikeType :
    (∃ R g, (analyze .standard (variableLikeType [])).result = .ok R ∧
      (Resolved.Focus.block R).at? [.item 0] = some g ∧
      g.annotation? (.parameter 0) = some (.function [.list .int] .float)) ∧
    (∃ d, (analyze .standard
      (variableLikeType [.eval (.emptyList (.named "int" .origin) .origin) .origin])).result =
        .error d) ∧
    (∃ d, (analyzeWith false .standard (variableLikeType [])).result = .error d) := by
  obtain ⟨-, -, haccepted, hhidden, -, hbare⟩ := type_names_have_one_meaning .standard
  refine ⟨?_, ?_, ?_⟩
  · obtain ⟨R, hok⟩ : ∃ R, (analyze .standard (variableLikeType [])).result = .ok R := ⟨_, rfl⟩
    obtain ⟨g, ty, hg, hty, hmeaning⟩ := (haccepted _ R hok).2 [.item 0] _ (.parameter 0) _ rfl rfl
    cases hmeaning
    exact ⟨R, g, hok, hg, hty⟩
  · exact hhidden _ [.part 0, .item 1, .body, .item 0] _ .element _ "int" .origin rfl rfl
      List.mem_cons_self (by decide)
  · refine hbare _ (.named "float" .origin) ?_
    simp [variableLikeType, Stmt.nodesAll, Stmt.nodes, Parameter.nodes, TypeExpr.nodes]

end Sema
