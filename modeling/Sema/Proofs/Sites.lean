import Sema.Proofs.Elaboration
import Sema.Proofs.Place

/-!
# Declaring nodes

The sites of a resolved tree, in the order of `Stmt.declared`: parameters, then the function, then
its body. Read as identities, the sites are what the tree declares (`Stmt.map_sites`), and every
node that declares something is one of them (`Focus.mem_sites`). So in a tree whose declarations
have different identities, a site can be told by the identity that it declares
(`Focus.site_eq_of_identity`).
-/

namespace Sema.Resolved

/-! ## 1. All sites -/

mutual

/-- The sites of a statement at a place. -/
def Stmt.sites (here : Place) : Stmt → List Site
  | .declare _ _ => [⟨here, .self⟩]
  | .function _ ps body =>
      (List.range ps.length).map (fun k => ⟨here, .parameter k⟩) ++
        ⟨here, .self⟩ :: Stmt.sitesAll (.body :: here) 0 body
  | .branch b => b.sites (.branch :: here)
  | .whileLoop _ body => Stmt.sitesAll (.body :: here) 0 body
  | .forEach _ _ body => ⟨here, .self⟩ :: Stmt.sitesAll (.body :: here) 0 body
  | .step _ _ | .assign _ _ | .exitLoop | .returnValue _ | .returnNothing | .eval _ => []

/-- The sites of an `if`. -/
def Branch.sites (here : Place) : Branch → List Site
  | .mk _ consequent alternate =>
      Stmt.sitesAll (.consequent :: here) 0 consequent ++ alternate.sites (.alternate :: here)

/-- The sites of what follows `else`. -/
def Alternate.sites (here : Place) : Alternate → List Site
  | .none => []
  | .block body => Stmt.sitesAll here 0 body
  | .elseIf next => next.sites here

/-- The sites of the statements of a block from number `i` on. -/
def Stmt.sitesAll (here : Place) (i : Nat) : List Stmt → List Site
  | [] => []
  | s :: ss => s.sites (.item i :: here) ++ Stmt.sitesAll here (i + 1) ss

end

namespace Focus

/-- The sites of a part. -/
def sites (here : Place) : Focus → List Site
  | block ss => Stmt.sitesAll here 0 ss
  | stmt s => s.sites here
  | branch b => b.sites here
  | expr _ => []

/-- The identity of what is declared at a site. -/
def identityAt? (root : Focus) (site : Site) : Option Identity :=
  (root.declaredAt? site).bind Entity.identity?

theorem identityAt?_stmt {root : Focus} {here : Place} {s : Stmt}
    (h : root.at? here = some (.stmt s)) (slot : Slot) :
    root.identityAt? ⟨here, slot⟩ = (s.slot? slot).bind Entity.identity? := by
  rw [identityAt?, declaredAt?, h]
  rfl

end Focus

/-! ## 2. Sites and identities -/

section Identities

variable {root : Focus}

theorem map_sites_parameters {here : Place} {f : Decl.Function} {ps : List Decl.Parameter}
    {body : List Stmt} (h : root.at? here = some (.stmt (.function f ps body))) :
    (List.range ps.length).map (fun k => root.identityAt? ⟨here, .parameter k⟩) =
      ps.map fun d => some d.identity := by
  refine List.ext_getElem (by simp) fun k _ hk => ?_
  rw [List.length_map] at hk
  simp [Focus.identityAt?_stmt h, Stmt.slot?, hk, Entity.identity?]

mutual

theorem Stmt.map_sites : ∀ (s : Stmt) (here : Place), root.at? here = some (.stmt s) →
    (s.sites here).map root.identityAt? = s.declared.map some
  | .declare v e, here, h => by
      rw [Stmt.sites, Stmt.declared, List.map_singleton, Focus.identityAt?_stmt h]
      rfl
  | .function f ps body, here, h => by
      have hbody := Stmt.map_sitesAll body (.body :: here) 0
        (Focus.at?_item (Focus.at?_cons h .body))
      rw [Stmt.sites, Stmt.declared, List.map_append, List.map_map, List.map_cons, hbody,
        List.map_append, List.map_cons, List.map_map, Focus.identityAt?_stmt h]
      exact congrArg (· ++ _) (map_sites_parameters h)
  | .branch b, here, h => by
      rw [Stmt.sites, Stmt.declared]
      exact Branch.map_sites b (.branch :: here) (Focus.at?_cons h .branch)
  | .whileLoop e body, here, h => by
      rw [Stmt.sites, Stmt.declared]
      exact Stmt.map_sitesAll body (.body :: here) 0 (Focus.at?_item (Focus.at?_cons h .body))
  | .forEach v e body, here, h => by
      rw [Stmt.sites, Stmt.declared, List.map_cons, List.map_cons, Focus.identityAt?_stmt h,
        Stmt.map_sitesAll body (.body :: here) 0 (Focus.at?_item (Focus.at?_cons h .body))]
      rfl
  | .step _ _, _, _ | .assign _ _, _, _ | .exitLoop, _, _ | .returnValue _, _, _
  | .returnNothing, _, _ | .eval _, _, _ => rfl

theorem Branch.map_sites : ∀ (b : Branch) (here : Place), root.at? here = some (.branch b) →
    (b.sites here).map root.identityAt? = b.declared.map some
  | .mk e consequent alternate, here, h => by
      rw [Branch.sites, Branch.declared, List.map_append, List.map_append,
        Stmt.map_sitesAll consequent (.consequent :: here) 0
          (Focus.at?_item (Focus.at?_cons h .consequent)),
        Alternate.map_sites alternate (.alternate :: here) (Focus.at?_cons h .alternate)]

theorem Alternate.map_sites : ∀ (a : Alternate) (here : Place),
    root.at? here = Focus.ofAlternate? a →
    (a.sites here).map root.identityAt? = a.declared.map some
  | .none, _, _ => rfl
  | .block body, here, h => by
      rw [Alternate.sites, Alternate.declared]
      exact Stmt.map_sitesAll body here 0 (Focus.at?_item h)
  | .elseIf next, here, h => by
      rw [Alternate.sites, Alternate.declared]
      exact Branch.map_sites next here h

theorem Stmt.map_sitesAll : ∀ (ss : List Stmt) (here : Place) (i : Nat),
    (∀ j s, ss[j]? = some s → root.at? (.item (i + j) :: here) = some (.stmt s)) →
    (Stmt.sitesAll here i ss).map root.identityAt? = (Stmt.declaredAll ss).map some
  | [], _, _, _ => rfl
  | s :: ss, here, i, h => by
      have hrest : ∀ j t, ss[j]? = some t →
          root.at? (.item (i + 1 + j) :: here) = some (.stmt t) := by
        intro j t ht
        rw [Nat.add_assoc, Nat.add_comm 1 j]
        exact h (j + 1) t ht
      rw [Stmt.sitesAll, Stmt.declaredAll, List.map_append, List.map_append,
        Stmt.map_sites s (.item i :: here) (h 0 s rfl), Stmt.map_sitesAll ss here (i + 1) hrest]

end

end Identities

/-! ## 3. Every declaring node -/

theorem Stmt.mem_sites {s : Stmt} {slot : Slot} {d : Entity} (h : s.slot? slot = some d)
    (here : Place) : ⟨here, slot⟩ ∈ s.sites here := by
  cases s with
  | declare v e =>
      cases slot with
      | self => exact List.mem_singleton_self _
      | parameter k => cases h
  | function f ps body =>
      rw [Stmt.sites, List.mem_append]
      cases slot with
      | self => exact .inr List.mem_cons_self
      | parameter k =>
          obtain ⟨q, hq, _⟩ := Option.map_eq_some_iff.mp h
          have hk : k < ps.length := (List.getElem?_eq_some_iff.mp hq).1
          exact .inl (List.mem_map.mpr ⟨k, List.mem_range.mpr hk, rfl⟩)
  | forEach v e body =>
      cases slot with
      | self => exact List.mem_cons_self
      | parameter k => cases h
  | _ => cases h

theorem Stmt.sites_subset_sitesAll {s : Stmt} (here : Place) : ∀ (ss : List Stmt) (i j : Nat),
    ss[j]? = some s → s.sites (.item (i + j) :: here) ⊆ Stmt.sitesAll here i ss
  | t :: ss, i, 0, h => by
      obtain rfl : t = s := Option.some.inj h
      exact List.subset_append_left _ _
  | t :: ss, i, j + 1, h => by
      have hrest := Stmt.sites_subset_sitesAll here ss (i + 1) j h
      rw [Nat.add_assoc, Nat.add_comm 1 j] at hrest
      exact List.subset_append_of_subset_right _ hrest

namespace Focus

/-- The sites of a part inside are among the sites of the whole. -/
theorem sites_child {g g' : Focus} {t : Turn} {here : Place} (h : g.child? t = some g') :
    g'.sites (t :: here) ⊆ g.sites here := by
  cases child_of_child? h with
  | part _ => exact List.nil_subset _
  | @item ss i s hs =>
      have hsub := Stmt.sites_subset_sitesAll here ss 0 i hs
      rwa [Nat.zero_add] at hsub
  | functionBody => exact List.subset_append_of_subset_right _ (List.subset_cons_self _ _)
  | forBody => exact List.subset_cons_self _ _
  | whileBody | branch => exact List.Subset.refl _
  | consequent => exact List.subset_append_left _ _
  | elseBlock | elseIf => exact List.subset_append_right _ _

theorem sites_at? {root : Focus} : ∀ {here : Place} {g : Focus}, root.at? here = some g →
    g.sites here ⊆ root.sites []
  | [], g, h => by
      obtain rfl : root = g := Option.some.inj h
      exact List.Subset.refl _
  | t :: outer, g, h => by
      obtain ⟨f, hf, hg⟩ := Option.bind_eq_some_iff.mp h
      exact List.Subset.trans (sites_child hg) (sites_at? hf)

/-- **Every declaring node is one of the sites.** -/
theorem mem_sites {root : Focus} {site : Site} {d : Entity} (h : root.declaredAt? site = some d) :
    site ∈ root.sites [] := by
  obtain ⟨g, hg, hd⟩ := Option.bind_eq_some_iff.mp h
  cases g with
  | stmt s => exact sites_at? hg (Stmt.mem_sites hd site.place)
  | _ => cases hd

theorem map_sites (R : Program) :
    ((block R).sites []).map (block R).identityAt? = (Stmt.declaredAll R).map some :=
  Stmt.map_sitesAll R [] 0 (at?_item rfl)

/-- What a node declares is among what the program declares. -/
theorem mem_declaredAll {R : Program} {site : Site} {i : Identity}
    (h : (block R).identityAt? site = some i) : i ∈ Stmt.declaredAll R := by
  obtain ⟨d, hd, _⟩ := Option.bind_eq_some_iff.mp h
  have hmem : some i ∈ (Stmt.declaredAll R).map some := by
    rw [← map_sites, ← h]
    exact List.mem_map_of_mem (mem_sites hd)
  obtain ⟨j, hj, hji⟩ := List.mem_map.mp hmem
  exact Option.some.inj hji ▸ hj

/-- **A site is told by its identity**, where the declarations of a program have different ones. -/
theorem site_eq_of_identity {R : Program} (hnd : (Stmt.declaredAll R).Nodup) {s t : Site}
    {i : Identity} (hs : (block R).identityAt? s = some i)
    (ht : (block R).identityAt? t = some i) : s = t := by
  obtain ⟨d, hd, _⟩ := Option.bind_eq_some_iff.mp hs
  obtain ⟨e, he, _⟩ := Option.bind_eq_some_iff.mp ht
  have hmap : (((block R).sites []).map (block R).identityAt?).Nodup := by
    rw [map_sites]
    exact hnd.map (Option.some_injective _)
  exact List.inj_on_of_nodup_map hmap (mem_sites hd) (mem_sites he) (hs.trans ht.symm)

end Focus

end Sema.Resolved
