import Mathlib.Data.List.Induction
import SchemaCatalog.Proofs.Fragment.Relocation
import SchemaCatalog.Proofs.Reference.Suppression
import SchemaCatalog.Proofs.Walk.Tally

/-!
# SchemaCatalog.Proofs.Reference.Monotonicity

More documents never break a reference.  Take some texts, and the same texts
with others among them, and let each make a session of its own.  A declaration
of the first session then has a counterpart in the second one, at the same place
of its document, which is the same but for ids.  Both are looked at in the name
of their own documents, so their references stand for the same names; and the
second session knows all names that the first one knows (`Holds.retains`).  So
whatever resolves in the first session does so in the second one, and what is
left open there was left open before (`references_of_sublist`).
-/

namespace SchemaCatalog

open Walk

/-! ## outcomes that hold up -/

/-- The resolutions lead to the same namespace, both to a built-in name or both
to a declaration. -/
inductive Resolution.Alike : Resolution → Resolution → Prop
  | builtin (space name : String) : Alike (.builtin space name) (.builtin space name)
  | declared (space : String) (b b' : Bucket) (target target' : NodeId) :
    Alike (.declared space b target) (.declared space b' target')

/-- The attempt `t'` is made at the same name in the same attribute as `t`, and
is as good as `t` if that resolves. -/
structure Attempt.HoldsUp (t t' : Attempt) : Prop where
  attr : t'.site.attr = t.site.attr
  name : t'.name = t.name
  found : ∀ found, t.outcome = .ok found → ∃ found', t'.outcome = .ok found' ∧ found.Alike found'

/-- If attempts hold up, only names that were open before are left open. -/
theorem Attempt.sublist_left {ts ts' : List Attempt} (h : List.Forall₂ Attempt.HoldsUp ts ts') :
    ((ts'.filterMap Attempt.left?).map fun o => (o.attr, o.name)).Sublist
      ((ts.filterMap Attempt.left?).map fun o => (o.attr, o.name)) := by
  induction h with
  | nil => exact .slnil
  | @cons t t' _ _ hfirst _ ih =>
      cases hout : t.outcome with
      | ok found =>
          obtain ⟨found', hout', -⟩ := hfirst.found found hout
          rw [List.filterMap_cons_none (left?_ok hout), List.filterMap_cons_none (left?_ok hout')]
          exact ih
      | error e =>
          rw [List.filterMap_cons_some (left?_error hout), List.map_cons]
          cases hout' : t'.outcome with
          | ok found' =>
              rw [List.filterMap_cons_none (left?_ok hout')]
              exact ih.cons _
          | error e' =>
              rw [List.filterMap_cons_some (left?_error hout'), List.map_cons, hfirst.attr,
                hfirst.name]
              exact ih.cons_cons _

/-- What a name stands for depends on the bindings of the document and on the
namespace of the node. -/
theorem Named.congr {root root' node node' : Declaration} {text space name : String}
    (h : Named root node text space name) (hroot : root'.attributes = root.attributes)
    (hnode : node'.space = node.space) : Named root' node' text space name := by
  have hattr : ∀ key, root'.attr? key = root.attr? key := fun key => by
    rw [Declaration.attr?, Declaration.attr?, hroot]
  cases h with
  | xml => exact .xml name
  | bound _ hcolon hxml hbinding => exact .bound name hcolon hxml ((hattr _).trans hbinding)
  | default hcolon hbinding => exact .default hcolon ((hattr _).trans hbinding)
  | own hcolon hbinding =>
      rw [← hnode]
      exact .own hcolon ((hattr _).trans hbinding)

namespace Resolver

section

variable {s s' : Session} {scope scope' : Scope} {root root' node node' : Declaration}

/-- **A name that resolves** does so in every session that knows more names, on
a node that is the same, in a document that binds the same prefixes. -/
theorem resolveName_retained (h : s.Retains s') (hscope : scope.registries = s.registries)
    (hscope' : scope'.registries = s'.registries)
    (hroot : scope.arena.get? scope.root = some root)
    (hroot' : scope'.arena.get? scope'.root = some root')
    (hattributes : root'.attributes = root.attributes) (hspace : node'.space = node.space)
    {id id' : NodeId} {attr text : String} {buckets : List Bucket} {found : Resolution}
    (hfound : resolveName s.builtins scope id node attr buckets text = .ok found) :
    ∃ found', resolveName s'.builtins scope' id' node' attr buckets text = .ok found' ∧
      found.Alike found' := by
  rw [h.builtins]
  cases (resolveName_iff hroot).mp hfound with
  | builtin hnamed hbuiltin =>
      exact ⟨_, resolveName_builtin id' attr hroot' (hnamed.congr hattributes hspace) hbuiltin,
        .builtin _ _⟩
  | @declared _ space name registry before after b target hnamed hbuiltin hregistry hbuckets _
      htarget =>
      rw [hscope] at hregistry
      have hknown : registry.lookup b name ≠ none := by
        rw [htarget]
        exact Option.some_ne_none target
      obtain ⟨registry', hregistry', hknown'⟩ := h.lookup space registry b name hregistry hknown
      rw [← hscope'] at hregistry'
      have hb : b ∈ buckets := by
        rw [hbuckets]
        exact List.mem_append_right _ List.mem_cons_self
      obtain ⟨b', -, target', hresolve⟩ := resolveName_declared id' attr hroot'
        (hnamed.congr hattributes hspace) hbuiltin hregistry' hb hknown'
      exact ⟨_, hresolve, .declared space b b' target target'⟩

/-- The attempts at a node hold up on a node that is the same. -/
theorem attempts_holdUp (h : s.Retains s') (hscope : scope.registries = s.registries)
    (hscope' : scope'.registries = s'.registries)
    (hroot : scope.arena.get? scope.root = some root)
    (hroot' : scope'.arena.get? scope'.root = some root')
    (hattributes : root'.attributes = root.attributes) (hspace : node'.space = node.space)
    (hkind : node'.kind = node.kind) (hsame : node'.attributes = node.attributes)
    (id id' : NodeId) :
    List.Forall₂ Attempt.HoldsUp (attempts s.builtins scope id node)
      (attempts s'.builtins scope' id' node') := by
  have hwords : ∀ attr, node'.attr? attr = node.attr? attr := fun attr => by
    rw [Declaration.attr?, Declaration.attr?, hsame]
  rw [attempts, attempts, hkind]
  induction searches node.kind with
  | nil => exact .nil
  | cons search rest ih =>
      rw [List.flatMap_cons, List.flatMap_cons]
      refine List.rel_append ?_ ih
      rw [attemptsAt, attemptsAt, hwords, List.forall₂_map_left_iff, List.forall₂_map_right_iff,
        List.forall₂_same]
      intro name _
      exact ⟨rfl, rfl, fun found hfound => resolveName_retained h hscope hscope' hroot hroot'
        hattributes hspace hfound⟩

end

/-! ## what a resolver reports -/

/-- What the resolver reports on a declaration comes of these attempts: what they
have found, attribute by attribute, and what they have left open. -/
structure Reports (r : Resolver) (n : NodeId) (ts : List Attempt) : Prop where
  resolution : ∀ attr, r.resolution? n attr =
    kept ((ts.filter (·.site.attr = attr)).filterMap Attempt.found?)
  unresolved : r.unresolved.filter (·.node = n) = ts.filterMap Attempt.left?

/-- A lenient resolver reports on each declaration the attempts at it. -/
theorem exists_reports (builtins : Builtins) (ts : List Attempt) :
    ∃ r, ({ builtins, strict := false } : Resolver).takeAll ts = (r, none) ∧
      ∀ n, r.Reports n (ts.filter (·.site.node = n)) := by
  obtain ⟨r, htaken, -, hopen⟩ :=
    takeAll_lenient (r := { builtins, strict := false }) rfl ts
  refine ⟨r, htaken, fun n => ⟨fun attr => ?_, ?_⟩⟩
  · have hempty : ({ builtins, strict := false } : Resolver).resolved.get? ⟨n, attr⟩ = kept [] := rfl
    have hsite : ∀ t : Attempt, decide (t.site = ⟨n, attr⟩) =
        (decide (t.site.attr = attr) && decide (t.site.node = n)) := by
      intro t
      rw [← Bool.decide_and, decide_eq_decide]
      constructor
      · intro ht
        rw [ht]
        exact ⟨rfl, rfl⟩
      · rintro ⟨hattr, hnode⟩
        exact Session.site_ext hnode hattr
    rw [resolution?, resolved_takeAll htaken hempty, List.nil_append, List.filter_filter]
    simp only [hsite]
  · rw [hopen, List.nil_append, List.filter_filterMap, List.filterMap_filter]
    refine List.filterMap_congr fun t _ => ?_
    cases hout : t.outcome with
    | ok found => simp [Attempt.left?_ok hout]
    | error e => simp [Attempt.left?_error hout, Option.filter]

end Resolver

/-! ## documents by their texts -/

def Span.size (d : Span) : Nat := d.stop - d.root.index

/-- The declaration at a place that counts from the root of the document. -/
def Span.place (d : Span) (k : NodeId) : NodeId := k.shift d.root.index

/-- The root of a document is its first place. -/
theorem Span.place_eq_root_iff {d : Span} {k : NodeId} : d.place k = d.root ↔ k.index = 0 := by
  cases hroot : d.root
  simp [place, NodeId.shift, hroot]

theorem Span.has_place {d : Span} {k : NodeId} (hk : k.index < d.size) : d.Has (d.place k) := by
  rw [size] at hk
  constructor
  · exact Nat.le_add_right _ _
  · show d.root.index + k.index < d.stop
    omega

/-- The document that the text of a source is stands in the arena, at the places
of the source. -/
structure Source.Stands (d : Source) (a : Arena) (document : Document) : Prop where
  text : Document.ofText d.text = .ok document
  size : d.size = document.entry.size
  declares : ∀ k : NodeId, k.index < document.entry.size → ∃ e,
    document.Declares k e ∧ a.get? (d.place k) = some (e.shift d.root.index)

/-- A document stands as before when the arena grows. -/
theorem Source.Stands.extend {d : Source} {a b : Arena} {document : Document}
    (h : d.Stands a document) (hb : b.Extends a) : d.Stands b document where
  text := h.text
  size := h.size
  declares := by
    intro k hk
    obtain ⟨e, he, hget⟩ := h.declares k hk
    exact ⟨e, he, hb _ _ hget⟩

namespace Session

section

variable {builtins : Builtins} {dedup : Bool} {sources : List Source} {roots : List NodeId}
  {s : Session}

/-- The documents stand in the arena as they are written. -/
theorem Gathered.exists_stands (h : Gathered builtins dedup sources roots s) {d : Source}
    (hd : d ∈ sources) : ∃ document, d.Stands s.arena document := by
  induction h with
  | new => contradiction
  | @load _ _ s text a _ _ hload ih =>
      have hannexed := Arena.annexed_load s.arena text
      rw [hload] at hannexed
      rcases List.mem_append.mp hd with hold | hnew
      · obtain ⟨document, hstands⟩ := ih hold
        exact ⟨document, hstands.extend hannexed.grown⟩
      · obtain rfl := List.mem_singleton.mp hnew
        obtain ⟨document, htext, hdocument⟩ := Arena.exists_document_of_load hload
        obtain ⟨rfl, hloaded⟩ := Document.loaded_of_load hdocument
        refine ⟨document, htext, ?_, fun k hk => hloaded.exists_declares hk⟩
        rw [Span.size, hloaded.size, Nat.add_sub_cancel_left]
  | add _ hadd ih =>
      obtain ⟨d, hadd⟩ := addition_of_addDocument hadd
      rw [hadd.arena]
      exact ih hd

/-! ## what the registries know -/

/-- A registry knows a name if and only if a child of one of the documents of
its namespace takes it. -/
theorem Represented.lookup_ne_none_iff (h : s.Represented roots) {space : String} {b : Bucket}
    {name : String} :
    (∃ r, s.registries.get? space = some r ∧ r.lookup b name ≠ none) ↔
      ∃ root ∈ roots, ∃ e, s.arena.get? root = some e ∧ Registry.targetSpaceOf e = space ∧
        ∃ c ∈ e.children, ∃ f, s.arena.get? c = some f ∧
          f.FiledUnder s.builtins space b name := by
  constructor
  · rintro ⟨r, hr, hfound⟩
    obtain ⟨first, later, hdocs, hrep⟩ := (h.represents space).of_get? hr
    rw [hrep.lookup, ← hdocs] at hfound
    obtain ⟨⟨c, f⟩, hmem, hfiled⟩ := (Registry.lastFiled_ne_none_iff _ _).mp hfound
    obtain ⟨⟨root, e⟩, hdocument, hlook⟩ := List.mem_flatMap.mp hmem
    obtain ⟨hroot, he, hspace⟩ := mem_documents_iff.mp hdocument
    obtain ⟨hc, hf⟩ := Arena.mem_look.mp hlook
    exact ⟨root, hroot, e, he, hspace, c, hc, f, hf, hfiled⟩
  · rintro ⟨root, hroot, e, he, hspace, c, hc, f, hf, hfiled⟩
    have hdocument : (root, e) ∈ documents s.arena space roots :=
      mem_documents_iff.mpr ⟨hroot, he, hspace⟩
    obtain ⟨r, hr⟩ := (h.represents space).exists_get? (List.ne_nil_of_mem hdocument)
    obtain ⟨first, later, hdocs, hrep⟩ := (h.represents space).of_get? hr
    refine ⟨r, hr, ?_⟩
    rw [hrep.lookup, ← hdocs, Registry.lastFiled_ne_none_iff]
    exact ⟨(c, f), List.mem_flatMap.mpr ⟨(root, e), hdocument, Arena.mem_look.mpr ⟨hc, hf⟩⟩, hfiled⟩

end

/-- The session holds the documents that the texts are: they have been loaded in
this order, and each has been added once. -/
structure Holds (builtins : Builtins) (dedup : Bool) (texts : List String) (sources : List Source)
    (s : Session) : Prop where
  texts : sources.map (·.text) = texts
  gathered : ∃ roots, Gathered builtins dedup sources roots s ∧ roots.Perm (sources.map (·.root))

/-- **Texts that load** make a session. -/
theorem exists_holds (builtins : Builtins) (dedup : Bool) {texts : List String}
    (h : ∀ t ∈ texts, Loadable t) : ∃ sources s, Holds builtins dedup texts sources s := by
  have hgathered : ∃ sources s, sources.map (·.text) = texts ∧
      Gathered builtins dedup sources (sources.map (·.root)) s := by
    induction texts using List.reverseRecOn with
    | nil => exact ⟨[], _, rfl, .new⟩
    | append_singleton texts text ih =>
        rw [List.forall_mem_append] at h
        obtain ⟨sources, s, htexts, hsources⟩ := ih h.1
        obtain ⟨a, root, hload⟩ := (h.2 text List.mem_cons_self).exists_load s.arena
        have hloaded := hsources.load hload
        obtain ⟨s', hadd⟩ := hloaded.exists_addDocument (List.mem_append_right _ List.mem_cons_self)
        refine ⟨sources ++ [⟨⟨root, a.size⟩, text⟩], s', by rw [List.map_append, htexts]; rfl, ?_⟩
        rw [List.map_append]
        exact hloaded.add hadd
  obtain ⟨sources, s, htexts, hsources⟩ := hgathered
  exact ⟨sources, s, htexts, _, hsources, .refl _⟩

section

variable {builtins : Builtins} {dedup dedup' : Bool} {texts texts' : List String}
  {sources sources' : List Source} {s s' : Session}

/-- A session that holds texts is complete for their spans. -/
theorem Holds.complete (h : Holds builtins dedup texts sources s) :
    s.builtins = builtins ∧
      ∃ roots, roots.Perm (sources.map (·.root)) ∧ s.Complete (sources.map (·.toSpan)) roots := by
  obtain ⟨roots, hgathered, hroots⟩ := h.gathered
  exact ⟨hgathered.assembled.adds.frame.2.1, roots, hroots,
    hgathered.assembled.complete (by rw [List.map_map]; exact hroots)⟩

/-- Texts that are among others have their documents in the session of those. -/
theorem Holds.exists_source (h : Holds builtins dedup texts sources s)
    (h' : Holds builtins dedup' texts' sources' s') (hsub : texts ⊆ texts') {d : Source}
    (hd : d ∈ sources) : ∃ d' ∈ sources', d'.text = d.text := by
  have htext : d.text ∈ texts := h.texts ▸ List.mem_map_of_mem hd
  have htext' := hsub htext
  rw [← h'.texts] at htext'
  exact List.mem_map.mp htext'

/-- **A document in two sessions** is the same but for where it stands. -/
theorem Holds.same (h : Holds builtins dedup texts sources s)
    (h' : Holds builtins dedup' texts' sources' s') {d d' : Source} (hd : d ∈ sources)
    (hd' : d' ∈ sources') (htext : d'.text = d.text) :
    d'.size = d.size ∧ ∀ k : NodeId, k.index < d.size → ∃ e : Declaration,
      s.arena.get? (d.place k) = some (e.shift d.root.index) ∧
      s'.arena.get? (d'.place k) = some (e.shift d'.root.index) ∧
      ∀ c ∈ e.children, c.index < d.size := by
  obtain ⟨_, hgathered, -⟩ := h.gathered
  obtain ⟨_, hgathered', -⟩ := h'.gathered
  obtain ⟨document, hstands⟩ := hgathered.exists_stands hd
  obtain ⟨document', hstands'⟩ := hgathered'.exists_stands hd'
  have hread := hstands'.text
  rw [htext, hstands.text] at hread
  obtain rfl := Except.ok.inj hread
  refine ⟨hstands'.size.trans hstands.size.symm, fun k hk => ?_⟩
  rw [hstands.size] at hk ⊢
  obtain ⟨e, he, hget⟩ := hstands.declares k hk
  obtain ⟨e', he', hget'⟩ := hstands'.declares k hk
  obtain rfl := he.unique he'
  exact ⟨e, hget, hget', he.inside⟩

/-- **Names of more documents**: a session that holds the documents of more texts
knows all the names. -/
theorem Holds.retains (h : Holds builtins dedup texts sources s)
    (h' : Holds builtins dedup' texts' sources' s') (hsub : texts ⊆ texts') : s.Retains s' := by
  obtain ⟨hbuiltins, roots, hroots, hcomplete⟩ := h.complete
  obtain ⟨hbuiltins', roots', hroots', hcomplete'⟩ := h'.complete
  refine ⟨hbuiltins'.trans hbuiltins.symm, fun space r b name hr hfound => ?_⟩
  obtain ⟨root, hroot, e, he, hspace, c, hc, f, hf, hfiled⟩ :=
    hcomplete.represented.lookup_ne_none_iff.mp ⟨r, hr, hfound⟩
  obtain ⟨d, hd, rfl⟩ := List.mem_map.mp (hroots.mem_iff.mp hroot)
  obtain ⟨d', hd', htext⟩ := h.exists_source h' hsub hd
  obtain ⟨-, hsame⟩ := h.same h' hd hd' htext
  have hpos : 0 < d.size :=
    Nat.sub_pos_of_lt (hcomplete.laidOut.valid _ (List.mem_map_of_mem hd)).1
  -- the root and the child have their counterparts, and the child takes the name there too
  obtain ⟨e₀, he₀, he₀', hinside⟩ := hsame ⟨0⟩ hpos
  obtain rfl : e = e₀.shift d.root.index := Option.some.inj (he.symm.trans he₀)
  obtain ⟨c₀, hc₀, rfl⟩ := List.mem_map.mp hc
  obtain ⟨f₀, hf₀, hf₀', -⟩ := hsame c₀ (hinside c₀ hc₀)
  obtain rfl : f = f₀.shift d.root.index := Option.some.inj (hf.symm.trans hf₀)
  rw [hbuiltins, ← hbuiltins'] at hfiled
  exact hcomplete'.represented.lookup_ne_none_iff.mpr
    ⟨d'.root, hroots'.mem_iff.mpr (List.mem_map_of_mem hd'), _, he₀', hspace, c₀.shift d'.root.index,
      List.mem_map_of_mem hc₀, _, hf₀', hfiled⟩

end

/-! ## what is tried at a declaration -/

/-- The call that a walk makes on a declaration in the name of its document. -/
def callOn (s : Session) (d : Span) (n : NodeId) : Call where
  node := n
  root := d.root
  registry := ((s.arena.get? d.root).bind fun e =>
    s.registries.get? (Registry.targetSpaceOf e)).getD default

/-- The attempts that a walk makes at a declaration of a document; roots are not
called. -/
def tries (s : Session) (d : Span) (n : NodeId) : List Attempt :=
  if n = d.root then [] else (s.callOn d n).attempts s

/-- **Lenient resolution** of loaded documents succeeds, and reports on each
declaration what was tried there. -/
theorem Complete.exists_reports {s : Session} {documents : List Span} {roots : List NodeId}
    (h : s.Complete documents roots) : ∃ (after : Session) (r : Resolver),
      s.resolveReferences false = (after, .ok r) ∧
        ∀ d ∈ documents, ∀ n, d.Has n → r.Reports n (s.tries d n) := by
  obtain ⟨r, htaken, hreports⟩ := Resolver.exists_reports s.builtins
    ((calls s.itinerary).flatMap (·.attempts s))
  refine ⟨_, r, resolveReferences_taken h.rooted h.laidOut.closed htaken, fun d hd n hn => ?_⟩
  have htries : s.tries d n =
      ((calls s.itinerary).flatMap (·.attempts s)).filter (·.site.node = n) := by
    by_cases hroot : n = d.root
    · rw [tries, if_pos hroot, eq_comm, List.filter_eq_nil_iff]
      intro t ht
      rw [decide_eq_true_eq]
      intro hnode
      obtain ⟨e, he, hinner, -⟩ := h.inner_of_mem_attempts ht
      obtain ⟨hhas, hne⟩ := Span.inner_iff.mp hinner
      rw [hnode] at hhas hne
      obtain rfl := h.laidOut.eq_of_has hd he hn hhas
      exact hne hroot
    · obtain ⟨c, hc, rfl, hcroot⟩ := h.exists_call hd (Span.inner_iff.mpr ⟨hn, hroot⟩)
      obtain ⟨e, he, hregistry⟩ := h.registry_of_mem_calls hc
      have hcall : s.callOn d c.node = c := by
        rw [hcroot] at he
        rw [callOn, he, Option.bind_some, hregistry, Option.getD_some, ← hcroot]
      rw [tries, if_neg hroot, hcall, filter_attempts_of_mem_calls hc]
  rw [htries]
  exact hreports n

/-- What becomes of a declaration of a document in one session and in another.
It is the same declaration, but for where it stands; what the resolvers report
on it comes of the attempts at its references; those that resolve in the first
session hold up in the second one, and only names that are open in the first one
are open in the second one. -/
structure Upheld (s s' : Session) (r r' : Resolver) (d d' : Span) (k : NodeId) : Prop where
  same : ∃ e : Declaration, s.arena.get? (d.place k) = some (e.shift d.root.index) ∧
    s'.arena.get? (d'.place k) = some (e.shift d'.root.index)
  reports : r.Reports (d.place k) (s.tries d (d.place k))
  reports' : r'.Reports (d'.place k) (s'.tries d' (d'.place k))
  holdUp : List.Forall₂ Attempt.HoldsUp (s.tries d (d.place k)) (s'.tries d' (d'.place k))
  left : ((r'.unresolved.filter (·.node = d'.place k)).map fun o => (o.attr, o.name)).Sublist
    ((r.unresolved.filter (·.node = d.place k)).map fun o => (o.attr, o.name))

section

variable {builtins : Builtins} {dedup dedup' : Bool} {texts texts' : List String}
  {sources sources' : List Source} {s s' : Session}

/-- The attempts at a declaration hold up where there are more documents. -/
theorem Holds.tries_holdUp (h : Holds builtins dedup texts sources s)
    (h' : Holds builtins dedup' texts' sources' s') (hsub : texts ⊆ texts') {d d' : Source}
    (hd : d ∈ sources) (hd' : d' ∈ sources') (htext : d'.text = d.text) {k : NodeId}
    (hk : k.index < d.size) :
    List.Forall₂ Attempt.HoldsUp (s.tries d.toSpan (d.place k)) (s'.tries d'.toSpan (d'.place k)) := by
  obtain ⟨-, hsame⟩ := h.same h' hd hd' htext
  by_cases hroot : k.index = 0
  · rw [tries, tries, if_pos (Span.place_eq_root_iff.mpr hroot),
      if_pos (Span.place_eq_root_iff.mpr hroot)]
    exact .nil
  · obtain ⟨e, he, he', -⟩ := hsame ⟨0⟩ (Nat.zero_lt_of_lt hk)
    obtain ⟨f, hf, hf', -⟩ := hsame k hk
    rw [tries, tries, if_neg (mt Span.place_eq_root_iff.mp hroot),
      if_neg (mt Span.place_eq_root_iff.mp hroot)]
    simp only [Call.attempts, callOn, hf, hf']
    refine Resolver.attempts_holdUp (h.retains h' hsub) rfl rfl he he' ?_ ?_ ?_ ?_ _ _
    all_goals rfl

/-- **More documents never break a reference.**  Take texts that load, and some of
them in the same order.  Both lists make sessions, and in whatever way they are
loaded and added, lenient resolution succeeds.  Every document of the first
session has its like in the second one, and each of its declarations is upheld
there: a reference that resolves still does, to the same namespace, and to a
built-in name or to a declaration as before; so the references that are left open
can only become fewer. -/
theorem references_of_sublist (hsub : texts.Sublist texts') (hload : ∀ t ∈ texts', Loadable t) :
    (∃ sources s, Holds builtins dedup texts sources s) ∧
    (∃ sources s, Holds builtins dedup' texts' sources s) ∧
    ∀ sources s sources' s', Holds builtins dedup texts sources s →
      Holds builtins dedup' texts' sources' s' →
      ∃ (after : Session) (r : Resolver) (after' : Session) (r' : Resolver),
        s.resolveReferences false = (after, .ok r) ∧
        s'.resolveReferences false = (after', .ok r') ∧
        ∀ d ∈ sources, (∃ d' ∈ sources', d'.text = d.text) ∧
          ∀ d' ∈ sources', d'.text = d.text → d'.size = d.size ∧
            ∀ k : NodeId, k.index < d.size → Upheld s s' r r' d.toSpan d'.toSpan k := by
  refine ⟨exists_holds builtins dedup fun t ht => hload t (hsub.subset ht),
    exists_holds builtins dedup' hload, ?_⟩
  intro sources s sources' s' h h'
  obtain ⟨-, roots, -, hcomplete⟩ := h.complete
  obtain ⟨-, roots', -, hcomplete'⟩ := h'.complete
  obtain ⟨after, r, hrun, hreports⟩ := hcomplete.exists_reports
  obtain ⟨after', r', hrun', hreports'⟩ := hcomplete'.exists_reports
  refine ⟨after, r, after', r', hrun, hrun', fun d hd => ⟨h.exists_source h' hsub.subset hd, ?_⟩⟩
  intro d' hd' htext
  obtain ⟨hsize, hsame⟩ := h.same h' hd hd' htext
  refine ⟨hsize, fun k hk => ?_⟩
  obtain ⟨e, he, he', -⟩ := hsame k hk
  have hreport := hreports _ (List.mem_map_of_mem hd) _ (Span.has_place hk)
  have hreport' := hreports' _ (List.mem_map_of_mem hd') _ (Span.has_place (hsize ▸ hk))
  have hholdUp := h.tries_holdUp h' hsub.subset hd hd' htext hk
  refine ⟨⟨e, he, he'⟩, hreport, hreport', hholdUp, ?_⟩
  rw [hreport.unresolved, hreport'.unresolved]
  exact Attempt.sublist_left hholdUp

end

/-! ## a type that is declared twice -/

theorem holds_useSession :
    Holds .xsd true [typeText, useText] [⟨⟨⟨0⟩, 2⟩, typeText⟩, ⟨⟨⟨2⟩, 5⟩, useText⟩] useSession := by
  have hfirst : ({ arena := useArena } : Session).addDocument ⟨2⟩ = .ok halfSession := rfl
  have hsecond : halfSession.addDocument ⟨0⟩ = .ok useSession := rfl
  have hgathered := (((Gathered.new.load load_typeText).load load_useText).add hfirst).add hsecond
  exact ⟨rfl, _, hgathered, .swap _ _ _⟩

theorem exists_try_useSession : ∃ t ∈ useSession.tries ⟨⟨2⟩, 5⟩ ⟨3⟩,
    t.site.attr = "type" ∧ t.outcome = .ok (.declared "urn:a" .complexTypes ⟨1⟩) := by
  have hfirst : ((useSession.tries ⟨⟨2⟩, 5⟩ ⟨3⟩).map fun t => (t.site.attr, t.outcome))[0]? =
      some ("type", .ok (.declared "urn:a" .complexTypes ⟨1⟩)) := by
    decide +kernel
  rw [List.getElem?_map, Option.map_eq_some_iff] at hfirst
  obtain ⟨t, ht, heq⟩ := hfirst
  obtain ⟨hattr, hout⟩ := Prod.mk.inj heq
  exact ⟨t, List.mem_of_getElem? ht, hattr, hout⟩

/-- If the type is declared once more, the reference still leads to a declaration
of its namespace. -/
theorem references_of_sublist_twice :
    [typeText, useText].Sublist [typeText, typeText, useText] ∧
      (∀ t ∈ [typeText, typeText, useText], Loadable t) ∧
      ∃ (sources : List Source) (s after : Session) (r : Resolver) (d : Source),
        Holds .xsd true [typeText, typeText, useText] sources s ∧
        s.resolveReferences false = (after, .ok r) ∧ d ∈ sources ∧ d.text = useText ∧
        ∃ all b target, r.resolution? (d.place ⟨1⟩) "type" = some all ∧
          .declared "urn:a" b target ∈ all := by
  have hsub : [typeText, useText].Sublist [typeText, typeText, useText] := .cons _ (.refl _)
  have hload : ∀ t ∈ [typeText, typeText, useText], Loadable t := by
    have htype : Loadable typeText := ⟨_, _, _, load_typeText⟩
    simpa using ⟨htype, _, _, _, load_useText⟩
  obtain ⟨-, ⟨sources, s, hholds⟩, hall⟩ := @references_of_sublist .xsd true true _ _ hsub hload
  obtain ⟨_, _, after, r, -, hrun, hdocuments⟩ := hall _ _ _ _ holds_useSession hholds
  obtain ⟨⟨d, hd, htext⟩, hlike⟩ := hdocuments ⟨⟨⟨2⟩, 5⟩, useText⟩ (by simp)
  have hupheld := (hlike d hd htext).2 ⟨1⟩ (by decide)
  refine ⟨hsub, hload, sources, s, after, r, d, hholds, hrun, hd, htext, ?_⟩
  obtain ⟨t, ht, hattr, hout⟩ := exists_try_useSession
  obtain ⟨t', ht', hup⟩ := Fragment.Loading.exists_counterpart hupheld.holdUp ht
  obtain ⟨found, hout', halike⟩ := hup.found _ hout
  cases halike with
  | declared _ _ b _ target =>
      have hmem : .declared "urn:a" b target ∈ ((s.tries d.toSpan (d.place ⟨1⟩)).filter
          (·.site.attr = "type")).filterMap Attempt.found? := by
        refine List.mem_filterMap.mpr ⟨t', List.mem_filter.mpr ⟨ht', ?_⟩, Attempt.found?_ok hout'⟩
        exact decide_eq_true (hup.attr.trans hattr)
      refine ⟨_, b, target, ?_, hmem⟩
      rw [hupheld.reports'.resolution, Resolver.kept, if_neg (List.ne_nil_of_mem hmem)]

end Session

end SchemaCatalog
