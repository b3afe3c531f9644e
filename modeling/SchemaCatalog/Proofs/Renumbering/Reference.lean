import SchemaCatalog.Proofs.Reference.Attempts
import SchemaCatalog.Proofs.Renumbering.Walk

/-!
# SchemaCatalog.Proofs.Renumbering.Reference

References under other numbers.  Names are looked up without numbers, so an attempt
comes to the same thing under any numbers (`attempts_renumber`).  A resolver files
what it finds by node; numbers that keep the order of the nodes keep the order of
its entries, and the names that it leaves open stand in the same order with reasons
that differ in numbers only (`Resolver.Mirrors`).  So the resolver is a visitor that
does the same under any such numbers (`Resolver.visit_mirrors`).
-/

namespace SchemaCatalog

def Resolution.renumber (f : NodeId → NodeId) : Resolution → Resolution
  | declared space bucket node => declared space bucket (f node)
  | builtin space name => builtin space name

def Site.renumber (f : NodeId → NodeId) (site : Site) : Site := ⟨f site.node, site.attr⟩

def Attempt.renumber (f : NodeId → NodeId) (t : Attempt) : Attempt :=
  ⟨t.site.renumber f, t.name, translate f (Resolution.renumber f) t.outcome⟩

/-- The name left open in `p` is that of `o`, for a reason that differs in numbers at
most. -/
structure OpenReference.Mirrors (f : NodeId → NodeId) (o p : OpenReference) : Prop where
  node : p.node = f o.node
  attr : p.attr = o.attr
  name : p.name = o.name
  reason : ∃ e : Error, o.reason = e.message ∧ p.reason = (e.renumber f).message

namespace Resolver

section

variable {f : NodeId → NodeId}

/-! ## looking names up -/

/-- Looking up a name commutes with the renumbering. -/
theorem findIn_renumber (f : NodeId → NodeId) (registry : Registry) (name space : String)
    (buckets : List Bucket) :
    findIn (registry.renumber f) name space buckets =
      (findIn registry name space buckets).map (Resolution.renumber f) := by
  induction buckets with
  | nil => rfl
  | cons b buckets ih =>
      rw [findIn, findIn, Registry.lookup_renumber]
      cases registry.lookup b name with
      | none => exact ih
      | some node => rfl

/-- **A name** is looked up in the same way under any numbers. -/
theorem resolveName_renumber {x y : Scope} (h : x.Mirrors f y) (builtins : Builtins) (id : NodeId)
    (d : Declaration) (attr : String) (buckets : List Bucket) (text : String) :
    resolveName builtins y (f id) (d.renumber f) attr buckets text =
      translate f (Resolution.renumber f) (resolveName builtins x id d attr buckets text) := by
  simp only [resolveName, h.root, h.arena.get?]
  cases x.arena.get? x.root with
  | none => rfl
  | some root =>
      have hspace : (QualifiedName.ofText text).space? (root.renumber f) (d.renumber f) =
          (QualifiedName.ofText text).space? root d := rfl
      simp only [Option.map_some, hspace, h.registries, Table.get?_mapValues]
      cases (QualifiedName.ofText text).space? root d with
      | none => rfl
      | some space =>
          dsimp only
          split
          · rfl
          · cases x.registries.get? space with
            | none => rfl
            | some registry =>
                simp only [Option.map_some, Option.bind_some, findIn_renumber]
                cases findIn registry (QualifiedName.ofText text).localName space buckets with
                | none => rfl
                | some found => rfl

/-- The attempts at a node commute with the renumbering. -/
theorem attempts_renumber {x y : Scope} (h : x.Mirrors f y) (builtins : Builtins) (id : NodeId)
    (d : Declaration) :
    attempts builtins y (f id) (d.renumber f) =
      (attempts builtins x id d).map (Attempt.renumber f) := by
  have hkind : (d.renumber f).kind = d.kind := rfl
  rw [attempts, attempts, List.map_flatMap, hkind]
  refine List.flatMap_congr fun search _ => ?_
  have hattr : (d.renumber f).attr? search.1 = d.attr? search.1 := rfl
  simp only [attemptsAt, hattr, resolveName_renumber h, List.map_map]
  rfl

/-! ## resolvers -/

/-- The resolver `q` has found and left open what `r` has, with other numbers. -/
structure Mirrors (f : NodeId → NodeId) (r q : Resolver) : Prop where
  builtins : q.builtins = r.builtins
  strict : q.strict = r.strict
  resolved : q.resolved.entries =
    r.resolved.entries.map (Prod.map (Site.renumber f) (List.map (Resolution.renumber f)))
  unresolved : List.Forall₂ (OpenReference.Mirrors f) r.unresolved q.unresolved

theorem mirrors_new (f : NodeId → NodeId) (builtins : Builtins) (strict : Bool) :
    Mirrors f { builtins, strict } { builtins, strict } where
  builtins := rfl
  strict := rfl
  resolved := rfl
  unresolved := .nil

variable {r q : Resolver}

/-- Sites are ordered by their nodes first. -/
theorem compare_site_renumber (hf : ∀ m n, compare (f m) (f n) = compare m n) (p p' : Site) :
    compare (p.renumber f) (p'.renumber f) = compare p p' := by
  show (compare (f p.node) (f p'.node)).then (compare p.attr p'.attr) = _
  rw [hf]
  rfl

/-- The mirrored resolver has the renumbered resolutions of each site. -/
theorem Mirrors.get?_resolved (h : Mirrors f r q) (hf : ∀ m n, compare (f m) (f n) = compare m n)
    (site : Site) :
    q.resolved.get? (site.renumber f) =
      (r.resolved.get? site).map (List.map (Resolution.renumber f)) := by
  rw [Table.get?, h.resolved]
  exact Table.find_map (compare_site_renumber hf) _ site r.resolved.entries

/-- A resolution is noted at the same place in both. -/
theorem Mirrors.note (h : Mirrors f r q) (hf : ∀ m n, compare (f m) (f n) = compare m n)
    (site : Site) (found : Resolution) :
    Mirrors f (r.note site found) (q.note (site.renumber f) (found.renumber f)) where
  builtins := h.builtins
  strict := h.strict
  resolved := by
    have hlist : (q.resolved.get? (site.renumber f)).getD [] ++ [found.renumber f] =
        ((r.resolved.get? site).getD [] ++ [found]).map (Resolution.renumber f) := by
      rw [h.get?_resolved hf, List.map_append]
      cases r.resolved.get? site with
      | none => rfl
      | some before => rfl
    simp only [Resolver.note, Table.alter, Table.insert, hlist, h.resolved]
    exact Table.place_map (compare_site_renumber hf) _ site _ r.resolved.entries
  unresolved := h.unresolved

/-- A reference left open in both keeps the resolvers mirrored. -/
theorem Mirrors.leaveOpen (h : Mirrors f r q) (site : Site) (name : String) (e : Error) :
    Mirrors f (r.leaveOpen site name e) (q.leaveOpen (site.renumber f) name (e.renumber f)) where
  builtins := h.builtins
  strict := h.strict
  resolved := h.resolved
  unresolved := List.rel_append h.unresolved (.cons ⟨rfl, rfl, rfl, e, rfl, rfl⟩ .nil)

/-- An attempt is taken or refused alike. -/
theorem Mirrors.take (h : Mirrors f r q) (hf : ∀ m n, compare (f m) (f n) = compare m n)
    (t : Attempt) :
    Mirrors f (r.take t).1 (q.take (t.renumber f)).1 ∧
      (q.take (t.renumber f)).2 = (r.take t).2.map (Error.renumber f) := by
  simp only [Resolver.take, Attempt.renumber, h.strict]
  cases t.outcome with
  | ok found => exact ⟨h.note hf t.site found, rfl⟩
  | error e =>
      simp only [translate]
      split
      · exact ⟨h, rfl⟩
      · exact ⟨h.leaveOpen t.site t.name e, rfl⟩

/-- Attempts taken by both keep the resolvers mirrored, with the same fault. -/
theorem Mirrors.takeAll (h : Mirrors f r q) (hf : ∀ m n, compare (f m) (f n) = compare m n)
    (ts : List Attempt) :
    Mirrors f (r.takeAll ts).1 (q.takeAll (ts.map (Attempt.renumber f))).1 ∧
      (q.takeAll (ts.map (Attempt.renumber f))).2 =
        (r.takeAll ts).2.map (Error.renumber f) := by
  induction ts generalizing r q with
  | nil => exact ⟨h, rfl⟩
  | cons t ts ih =>
      obtain ⟨htaken, hfault⟩ := h.take hf t
      rw [List.map_cons]
      cases htake : r.take t with
      | mk r₁ fault =>
          cases htake' : q.take (t.renumber f) with
          | mk q₁ fault' =>
              rw [htake, htake'] at htaken hfault
              obtain rfl : fault' = fault.map (Error.renumber f) := hfault
              cases fault with
              | some e =>
                  rw [takeAll_cons_refused htake, takeAll_cons_refused htake']
                  exact ⟨htaken, rfl⟩
              | none =>
                  rw [takeAll_cons_taken htake, takeAll_cons_taken htake']
                  exact ih htaken

/-- **The resolver** does the same under any numbers. -/
theorem visit_mirrors (f : NodeId → NodeId) : Visitor.Mirrors f (Mirrors f) visit visit := by
  intro x y id r q hscope h
  cases hget : x.arena.get? id with
  | none =>
      simp only [visit, hget, hscope.arena.get?_eq_none hget]
      exact ⟨h, rfl⟩
  | some d =>
      rw [visit_eq_takeAll hget, visit_eq_takeAll (hscope.arena.get?_eq_some hget), h.builtins,
        attempts_renumber hscope]
      exact h.takeAll hscope.arena.compare_eq _

end

end Resolver

end SchemaCatalog
