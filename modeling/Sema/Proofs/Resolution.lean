import Sema.Proofs.Annotation
import Sema.Proofs.Sites
import Sema.Proofs.Visibility

/-!
# Names are resolved lexically

Every name of an accepted program is resolved to the declaration that the outward search designates,
and to the entry of the catalog where it designates none (`names_resolve_lexically`). The link can
be read off the resolved tree alone: a reference and a declaring node have one identity exactly when
the node is the designated one. A name of a type always belongs to the catalog, since programs
declare no types.
-/

namespace Sema

/-! ## 1. Entities and identities -/

/-- Whatever is the same as a declaration has its identity. -/
theorem Entity.identity?_of_is {e d : Entity} {i : Identity} (h : e.is d = true)
    (hd : d.identity? = some i) : e.identity? = some i := by
  rw [← hd]
  cases d with
  | var w =>
      cases e with
      | var v => exact congrArg some (beq_iff_eq.mp h)
      | _ => cases h
  | func g =>
      cases e with
      | func f => exact congrArg some (beq_iff_eq.mp h)
      | _ => cases h
  | param q =>
      cases e with
      | param p => exact congrArg some (beq_iff_eq.mp h)
      | _ => cases h
  | type t => cases hd

theorem Entity.is_self {d : Entity} {i : Identity} (hd : d.identity? = some i) :
    d.is d = true := by
  cases d with
  | type t => cases hd
  | _ => exact beq_self_eq_true _

theorem Resolved.Stmt.identity?_of_slot? {s : Resolved.Stmt} {slot : Slot} {d : Entity}
    (h : s.slot? slot = some d) : ∃ i, d.identity? = some i := by
  cases s with
  | declare v e | forEach v e body =>
      cases slot with
      | self =>
          cases h
          exact ⟨v.identity, rfl⟩
      | parameter k => cases h
  | function f ps body =>
      cases slot with
      | self =>
          cases h
          exact ⟨f.identity, rfl⟩
      | parameter k =>
          obtain ⟨q, _, rfl⟩ := Option.map_eq_some_iff.mp h
          exact ⟨q.identity, rfl⟩
  | _ => cases h

/-- What a node declares is no type: it has an identity. -/
theorem Resolved.Focus.identity?_of_declaredAt? {root : Resolved.Focus} {site : Site} {d : Entity}
    (h : root.declaredAt? site = some d) :
    ∃ i, d.identity? = some i ∧ root.identityAt? site = some i := by
  obtain ⟨g, _, hd⟩ := Option.bind_eq_some_iff.mp h
  cases g with
  | stmt s =>
      obtain ⟨i, hi⟩ := Resolved.Stmt.identity?_of_slot? hd
      exact ⟨i, hi, by rw [identityAt?, h, Option.bind_some, hi]⟩
  | _ => cases hd

/-! ## 2. Names of types -/

mutual

/-- The names in a written type that stands for one denote types. -/
theorem TypeExpr.lookup_of_denotes {Γ : Env} {x : String} {span : Span} :
    ∀ (t : TypeExpr) {ty : Ty}, t.Denotes Γ ty → .type (.named x span) ∈ t.nodes →
      ∃ u, Γ.lookup x = some (.type u)
  | .named y s, _, h, hx => by
      cases List.mem_singleton.mp hx
      cases h with
      | named found => exact ⟨_, found⟩
  | .list element s, _, h, hx => by
      cases h with
      | list he =>
          rw [TypeExpr.nodes, List.mem_cons] at hx
          obtain hx | hx := hx
          · cases hx
          · exact element.lookup_of_denotes he hx
  | .function parameters result s, _, h, hx => by
      cases h with
      | function hps hr =>
          rw [TypeExpr.nodes, List.mem_cons, List.mem_append] at hx
          obtain hx | hx | hx := hx
          · cases hx
          · exact TypeExpr.lookup_of_denotesAll parameters hps hx
          · exact result.lookup_of_denotes hr hx

theorem TypeExpr.lookup_of_denotesAll {Γ : Env} {x : String} {span : Span} :
    ∀ (ts : List TypeExpr) {tys : List Ty}, List.Forall₂ (TypeExpr.Denotes Γ) ts tys →
      .type (.named x span) ∈ TypeExpr.nodesAll ts → ∃ u, Γ.lookup x = some (.type u)
  | t :: ts, _, .cons ht hts, hx => by
      rw [TypeExpr.nodesAll, List.mem_append] at hx
      obtain hx | hx := hx
      · exact t.lookup_of_denotes ht hx
      · exact TypeExpr.lookup_of_denotesAll ts hts hx

end

/-- The types of parameters denote types outside the function too: what stands between is a
    parameter, and no type. -/
theorem Parameter.lookup_of_elaboratesAll {x : String} {span : Span} :
    ∀ {ps : List Parameter} {ds : List Decl.Parameter} {Γ : Env},
      Parameter.ElaboratesAll Γ ps ds → ∀ q ∈ ps, .type (.named x span) ∈ q.type.nodes →
      ∃ u, Γ.lookup x = some (.type u)
  | p :: ps, _, Γ, .cons ht free hds, q, hq, hx => by
      obtain rfl | hq := List.mem_cons.mp hq
      · exact q.type.lookup_of_denotes ht hx
      · obtain ⟨u, hu⟩ := Parameter.lookup_of_elaboratesAll hds q hq hx
        rw [Env.lookup_bind] at hu
        by_cases hxp : x = p.name
        · rw [if_pos hxp] at hu
          cases hu
        · rw [if_neg hxp] at hu
          exact ⟨u, hu⟩

/-- The names in a written type mean types. -/
theorem Focus.Elaborates.lookup_annotation {Γ : Env} {f : Focus} {g : Resolved.Focus}
    (h : f.Elaborates Γ g) {a : Annotation} {t : TypeExpr} {x : String} {span : Span}
    (hx : .type (.named x span) ∈ t.nodes) :
    f.annotation? a = some t → ∃ u, Γ.lookup x = some (.type u) := by
  fun_cases Focus.annotation? f a with
  | case1 w span =>
      intro ha
      cases ha
      cases h with
      | expr he =>
          cases he with
          | emptyList hden => exact t.lookup_of_denotes hden hx
  | case2 name ps result body span k =>
      intro ha
      obtain ⟨q, hq, rfl⟩ := Option.map_eq_some_iff.mp ha
      cases h with
      | stmt hs =>
          cases hs with
          | function _ hds _ _ _ =>
              obtain ⟨u, hu⟩ :=
                Parameter.lookup_of_elaboratesAll hds q (List.mem_of_getElem? hq) hx
              exact ⟨u, (Γ.lookup_body none x).symm.trans hu⟩
  | case3 name ps result body span =>
      intro ha
      cases ha
      cases h with
      | stmt hs =>
          cases hs with
          | function hresult _ _ _ _ =>
              cases hresult with
              | some hden => exact t.lookup_of_denotes hden hx
  | case4 =>
      intro ha
      cases ha

/-! ## 3. References -/

section References

variable {c : Catalog} {p : Program} {R : Resolved.Program}

/-- The part of a program at a place stands for the part of the resolved program there. -/
theorem Elaborates.at_of_syntax (h : Elaborates c p R) {here : Place} {f : Focus}
    (hf : (Focus.block p).at? here = some f) :
    ∃ g Γ, (Resolved.Focus.block R).at? here = some g ∧ Focus.Elaborates Γ f g ∧
      ∀ x, Γ.lookup x = meaning c R x (designated p x here) := by
  have hrel := placed h.derived here
  rw [hf] at hrel
  generalize (Resolved.Focus.block R).at? here = g at hrel ⊢
  cases hrel with
  | some hfg =>
      obtain ⟨Γ, hfg, hΓ⟩ := hfg
      exact ⟨_, Γ, rfl, hfg, hΓ⟩

theorem Elaborates.at_of_resolved (h : Elaborates c p R) {here : Place} {g : Resolved.Focus}
    (hg : (Resolved.Focus.block R).at? here = some g) :
    ∃ f Γ, (Focus.block p).at? here = some f ∧ Focus.Elaborates Γ f g ∧
      ∀ x, Γ.lookup x = meaning c R x (designated p x here) := by
  have hrel := placed h.derived here
  rw [hg] at hrel
  generalize (Focus.block p).at? here = f at hrel ⊢
  cases hrel with
  | some hfg =>
      obtain ⟨Γ, hfg, hΓ⟩ := hfg
      exact ⟨_, Γ, rfl, hfg, hΓ⟩

/-- A name is replaced by what it designates. -/
theorem Elaborates.reference (h : Elaborates c p R) {here : Place} {x : String} {span : Span}
    (hx : (Focus.block p).at? here = some (.expr (.name x span))) :
    ∃ e, (Resolved.Focus.block R).at? here = some (.expr (.mk (.entity e) e.ty)) ∧
      meaning c R x (designated p x here) = some e := by
  obtain ⟨g, Γ, hg, hfg, hΓ⟩ := h.at_of_syntax hx
  cases hfg with
  | expr he =>
      cases he with
      | @name _ e _ found => exact ⟨e, hg, (hΓ x).symm.trans found⟩

/-- An entity in the resolved program stands where the program has a name. -/
theorem Elaborates.name_of_reference (h : Elaborates c p R) {here : Place} {e : Entity} {ty : Ty}
    (he : (Resolved.Focus.block R).at? here = some (.expr (.mk (.entity e) ty))) :
    ∃ x span, (Focus.block p).at? here = some (.expr (.name x span)) ∧
      meaning c R x (designated p x here) = some e := by
  obtain ⟨f, Γ, hf, hfg, hΓ⟩ := h.at_of_resolved he
  cases hfg with
  | expr hr =>
      cases hr with
      | @name x _ span found => exact ⟨x, span, hf, (hΓ x).symm.trans found⟩

/-- **Identity is faithful.** A reference is the same as what a node declares exactly when that node
    is the designated one. -/
theorem Elaborates.is_iff_designated (h : Elaborates c p R) {x : String} {e d : Entity}
    {found : Option Site} {site : Site} (he : meaning c R x found = some e)
    (hd : (Resolved.Focus.block R).declaredAt? site = some d) :
    e.is d = true ↔ found = some site := by
  obtain ⟨i, hi, hsite⟩ := Resolved.Focus.identity?_of_declaredAt? hd
  constructor
  · intro his
    have hei : e.identity? = some i := Entity.identity?_of_is his hi
    cases found with
    | none =>
        -- the entry of a catalog has an identity of the catalog, and the node has none
        have hmem : i ∈ c.identities := Catalog.mem_identities he hei
        exact absurd hmem (h.fresh i (Resolved.Focus.mem_declaredAll hsite))
    | some other =>
        have hother : (Resolved.Focus.block R).declaredAt? other = some e := he
        have hid : (Resolved.Focus.block R).identityAt? other = some i := by
          rw [Resolved.Focus.identityAt?, hother, Option.bind_some, hei]
        rw [Resolved.Focus.site_eq_of_identity h.distinct hid hsite]
  · rintro rfl
    obtain rfl : d = e := Option.some.inj (hd.symm.trans he)
    exact Entity.is_self hi

/-- A name of a type designates no declaration of the program. -/
theorem Elaborates.type_name (h : Elaborates c p R) {here : Place} {f : Focus}
    (hf : (Focus.block p).at? here = some f) {a : Annotation} {t : TypeExpr}
    (ha : f.annotation? a = some t) {x : String} {span : Span}
    (hx : .type (.named x span) ∈ t.nodes) :
    designated p x here = none ∧ ∃ u, c.get? x = some (.type u) := by
  obtain ⟨g, Γ, _, hfg, hΓ⟩ := h.at_of_syntax hf
  obtain ⟨u, hu⟩ := hfg.lookup_annotation hx ha
  rw [hΓ x] at hu
  cases hfound : designated p x here with
  | none =>
      rw [hfound] at hu
      exact ⟨rfl, u, hu⟩
  | some site =>
      rw [hfound] at hu
      obtain ⟨i, hi, _⟩ := Resolved.Focus.identity?_of_declaredAt? hu
      cases hi

end References

/-- **Names are resolved lexically, and identity is faithful.** In an accepted program:

    * every name has a place, and it is replaced there by the declaration that the search
      designates, or else by the entry of the catalog;
    * what is an entity in the resolved program was a name, and it is the same as what a node
      declares exactly when that node is the designated one;
    * a name of a type belongs to the catalog;
    * declaring nodes have different identities, and none has one of the catalog's. -/
theorem names_resolve_lexically (c : Catalog) (p : Program) (R : Resolved.Program)
    (hok : (analyze c p).result = .ok R) :
    (∀ (x : String) (span : Span), .expr (.name x span) ∈ Stmt.nodesAll p →
      ∃ here, (Focus.block p).at? here = some (.expr (.name x span))) ∧
    (∀ (here : Place) (x : String) (span : Span),
      (Focus.block p).at? here = some (.expr (.name x span)) →
        ∃ e, (Resolved.Focus.block R).at? here = some (.expr (.mk (.entity e) e.ty)) ∧
          meaning c R x (designated p x here) = some e) ∧
    (∀ (here : Place) (e : Entity) (ty : Ty),
      (Resolved.Focus.block R).at? here = some (.expr (.mk (.entity e) ty)) →
        ∃ x span, (Focus.block p).at? here = some (.expr (.name x span)) ∧
          ∀ site d, (Resolved.Focus.block R).declaredAt? site = some d →
            (e.is d = true ↔ designated p x here = some site)) ∧
    (∀ (here : Place) (f : Focus) (a : Annotation) (t : TypeExpr) (x : String) (span : Span),
      (Focus.block p).at? here = some f → f.annotation? a = some t →
        .type (.named x span) ∈ t.nodes →
          designated p x here = none ∧ ∃ u, c.get? x = some (.type u)) ∧
    (∀ (site other : Site) (d e : Entity),
      (Resolved.Focus.block R).declaredAt? site = some d →
      (Resolved.Focus.block R).declaredAt? other = some e →
        site ≠ other → d.identity? ≠ e.identity?) ∧
    (∀ (site : Site) (d : Entity), (Resolved.Focus.block R).declaredAt? site = some d →
      ∃ i, d.identity? = some i ∧ i ∉ c.identities) := by
  have h : Elaborates c p R := elaborates_of_analyze hok
  refine ⟨fun _ _ => exists_place_of_mem_nodesAll, fun _ _ _ => h.reference,
    fun here e ty he => ?_, fun _ _ _ _ _ _ hf ha hx => h.type_name hf ha hx, ?_, ?_⟩
  · obtain ⟨x, span, hx, hmeaning⟩ := h.name_of_reference he
    exact ⟨x, span, hx, fun _ _ => h.is_iff_designated hmeaning⟩
  · intro site other d e hd he hne hid
    obtain ⟨i, hi, hsite⟩ := Resolved.Focus.identity?_of_declaredAt? hd
    obtain ⟨j, hj, hother⟩ := Resolved.Focus.identity?_of_declaredAt? he
    obtain rfl : i = j := Option.some.inj (hi.symm.trans (hid.trans hj))
    exact hne (Resolved.Focus.site_eq_of_identity h.distinct hsite hother)
  · intro site d hd
    obtain ⟨i, hi, hsite⟩ := Resolved.Focus.identity?_of_declaredAt? hd
    exact ⟨i, hi, h.fresh i (Resolved.Focus.mem_declaredAll hsite)⟩

/-- In the body of the loop the name is the iterator, and it is not the parameter that the iterator
    hides. -/
theorem names_resolve_shadowing :
    ∃ R e d, (analyze .standard shadowing).result = .ok R ∧
      (Resolved.Focus.block R).at? [.part 1, .part 0, .item 0, .body, .item 0, .body, .item 0] =
        some (.expr (.mk (.entity e) e.ty)) ∧
      (Resolved.Focus.block R).declaredAt? ⟨[.item 0, .body, .item 0], .self⟩ = some e ∧
      (Resolved.Focus.block R).declaredAt? ⟨[.item 0], .parameter 0⟩ = some d ∧
      e.is d = false := by
  obtain ⟨R, hok⟩ : ∃ R, (analyze .standard shadowing).result = .ok R := ⟨_, rfl⟩
  obtain ⟨_, href, hent, _⟩ := names_resolve_lexically .standard shadowing R hok
  -- the reference in the body, and the one in the collection, which is outside the loop
  obtain ⟨e, he, hiterator⟩ :=
    href [.part 1, .part 0, .item 0, .body, .item 0, .body, .item 0] "n" .origin rfl
  obtain ⟨d, _, hparameter⟩ :=
    href [.part 0, .part 0, .item 0, .body, .item 0] "n" .origin rfl
  obtain ⟨x, span, hx, his⟩ := hent _ e e.ty he
  cases hx
  refine ⟨R, e, d, hok, he, hiterator, hparameter, ?_⟩
  rw [Bool.eq_false_iff, Ne, his _ d hparameter]
  decide

end Sema
