import SchemaCatalog.Proofs.Reference.Outcome
import SchemaCatalog.Proofs.Reference.Strictness
import SchemaCatalog.Proofs.Text.Words
import SchemaCatalog.Proofs.Walk.Coverage

/-!
# SchemaCatalog.Proofs.Reference.Exactness

Lenient resolution of loaded documents is exact.  Each declaration is called
once and in the name of its own document, so the attempts at one of its
attributes occur together and once in all the attempts of the walk
(`attempts_at_site`).  What a resolver has found or left open at an attribute
depends on the attempts at this attribute alone (`resolved_takeAll`,
`filter_left?`), and every attempt follows the rules of `Outcome`.
-/

namespace SchemaCatalog

/-! ## what is left of attempts, site by site -/

/-- In a list that is put together from parts, of which one holds all that
satisfies a condition, just this part is left of it. -/
theorem filter_flatMap_of_unique {α β κ : Type} {xs : List α} {f : α → List β} {p : β → Bool}
    {key : α → κ} (hnodup : (xs.map key).Nodup) {x : α} (hx : x ∈ xs)
    (hother : ∀ y ∈ xs, key y ≠ key x → (f y).filter p = []) :
    (xs.flatMap f).filter p = (f x).filter p := by
  obtain ⟨before, after, rfl⟩ := List.append_of_mem hx
  have hnil : ∀ ys : List α, (∀ y ∈ ys, key y ≠ key x) → (∀ y ∈ ys, y ∈ before ++ x :: after) →
      (ys.flatMap f).filter p = [] := by
    intro ys hne hys
    rw [List.filter_flatMap, List.flatMap_eq_nil_iff]
    exact fun y hy => hother y (hys y hy) (hne y hy)
  rw [List.map_append, List.map_cons, List.nodup_append, List.nodup_cons] at hnodup
  obtain ⟨-, ⟨hafter, -⟩, hbefore⟩ := hnodup
  rw [List.flatMap_append, List.flatMap_cons, List.filter_append, List.filter_append,
    hnil before ?_ fun y hy => List.mem_append_left _ hy,
    hnil after ?_ fun y hy => List.mem_append_right _ (List.mem_cons_of_mem _ hy),
    List.nil_append, List.append_nil]
  · intro y hy heq
    exact hafter (List.mem_map.mpr ⟨y, hy, heq⟩)
  · intro y hy heq
    exact hbefore _ (List.mem_map.mpr ⟨y, hy, rfl⟩) _ List.mem_cons_self heq

namespace Resolver

/-- Resolutions as they are kept for an attribute: without any there is no entry. -/
def kept (found : List Resolution) : Option (List Resolution) :=
  if found = [] then none else some found

theorem getD_kept (found : List Resolution) : (kept found).getD [] = found := by
  rw [kept]
  split
  · next h => rw [h, Option.getD_none]
  · rfl

/-- The resolutions that attempts find at an attribute come behind those that
are kept for it. -/
theorem resolved_takeAll {r r' : Resolver} {ts : List Attempt} (h : r.takeAll ts = (r', none))
    {site : Site} {old : List Resolution} (hold : r.resolved.get? site = kept old) :
    r'.resolved.get? site =
      kept (old ++ (ts.filter (·.site = site)).filterMap Attempt.found?) := by
  induction ts generalizing r old with
  | nil =>
      obtain rfl : r = r' := congrArg Prod.fst h
      rw [hold, List.filter_nil, List.filterMap_nil, List.append_nil]
  | cons t ts ih =>
      cases hout : t.outcome with
      | ok found =>
          have hfound := Attempt.found?_ok hout
          rw [takeAll_cons_taken (take_ok hout)] at h
          by_cases hsite : t.site = site
          · have hnew : (r.note t.site found).resolved.get? site = kept (old ++ [found]) := by
              rw [note, Table.alter, hsite, Table.get?_insert_self, hold, getD_kept, kept,
                if_neg (by simp)]
            rw [ih h hnew, List.filter_cons_of_pos (by simpa using hsite),
              List.filterMap_cons_some hfound, List.append_assoc, List.singleton_append]
          · have hnew : (r.note t.site found).resolved.get? site = kept old := by
              rw [note, Table.alter, Table.get?_insert_of_ne _ _ (Ne.symm hsite), hold]
            rw [ih h hnew, List.filter_cons_of_neg (by simpa using hsite)]
      | error e =>
          have hfound := Attempt.found?_error hout
          cases hstrict : r.strict with
          | true => simp [takeAll_cons_refused (take_strict hout hstrict)] at h
          | false =>
            rw [takeAll_cons_taken (take_lenient hout hstrict)] at h
            have hnew : (r.leaveOpen t.site t.name e).resolved.get? site = kept old := hold
            rw [ih h hnew, List.filter_cons]
            split
            · rw [List.filterMap_cons_none hfound]
            · rfl

/-- Notes stand at the attribute of their attempts. -/
theorem filter_left? (ts : List Attempt) (site : Site) :
    (ts.filterMap Attempt.left?).filter (fun o => o.node = site.node ∧ o.attr = site.attr) =
      (ts.filter (·.site = site)).filterMap Attempt.left? := by
  induction ts with
  | nil => rfl
  | cons t ts ih =>
      have hsite : t.site = site ↔ t.site.node = site.node ∧ t.site.attr = site.attr := by
        cases t.site
        cases site
        simp
      cases hout : t.outcome with
      | ok found =>
          have hleft := Attempt.left?_ok hout
          rw [List.filterMap_cons_none hleft, ih, List.filter_cons]
          split
          · rw [List.filterMap_cons_none hleft]
          · rfl
      | error e =>
          have hleft := Attempt.left?_error hout
          rw [List.filterMap_cons_some hleft, List.filter_cons, List.filter_cons, ih]
          by_cases heq : t.site = site
          · rw [if_pos (by simpa using hsite.mp heq), if_pos (by simpa using heq),
              List.filterMap_cons_some hleft]
          · rw [if_neg (by simpa using mt hsite.mpr heq), if_neg (by simpa using heq)]

/-! ## the attempts at one attribute -/

/-- Each attribute is listed once. -/
theorem nodup_searches (kind : Kind) : ((searches kind).map (·.1)).Nodup := by
  rw [searches]
  cases refBucket? kind with
  | none => decide
  | some b => cases b <;> decide

/-- Among the attempts of a node, those at one attribute are the attempts at its words. -/
theorem filter_attempts {builtins : Builtins} {scope : Scope} {id : NodeId} {d : Declaration}
    {attr : String} {buckets : List Bucket} (h : (attr, buckets) ∈ searches d.kind) :
    (attempts builtins scope id d).filter (·.site = ⟨id, attr⟩) =
      attemptsAt builtins scope id d (attr, buckets) := by
  have hall : ∀ search, ∀ t ∈ attemptsAt builtins scope id d search, t.site = ⟨id, search.1⟩ := by
    intro search t ht
    obtain ⟨name, -, rfl⟩ := List.mem_map.mp ht
    rfl
  rw [attempts, filter_flatMap_of_unique (nodup_searches d.kind) h]
  · exact List.filter_eq_self.mpr fun t ht => decide_eq_true (hall _ t ht)
  · intro search hsearch hne
    refine List.filter_eq_nil_iff.mpr fun t ht => ?_
    rw [decide_eq_true_eq, hall search t ht]
    intro heq
    exact hne (Site.mk.inj heq).2

end Resolver

namespace Session

open Walk

section

variable {s : Session} {documents : List Span} {roots : List NodeId}

/-- The attempts of a call are at its node. -/
theorem node_of_mem_call_attempts {c : Call} {t : Attempt} (h : t ∈ c.attempts s) :
    t.site.node = c.node := by
  rw [Call.attempts] at h
  split at h
  · contradiction
  · exact Resolver.node_of_mem_attempts h

/-- A declaration of a document is called in the name of the document. -/
theorem Complete.exists_call (h : s.Complete documents roots) {d : Span} (hd : d ∈ documents)
    {n : NodeId} (hn : d.Inner n) : ∃ c ∈ calls s.itinerary, c.node = n ∧ c.root = d.root := by
  obtain ⟨c, hc, rfl⟩ := mem_called.mp (h.mem_called_iff_inner.mpr ⟨d, hd, hn⟩)
  obtain ⟨e, he, hroot, hinner⟩ := h.root_of_mem_calls hc
  obtain rfl : d = e :=
    h.laidOut.eq_of_has hd he (Span.inner_iff.mp hn).1 (Span.inner_iff.mp hinner).1
  exact ⟨c, hc, rfl, hroot⟩

/-- The attempts at a declaration, among all attempts of the walk, are those of
the one call on it. -/
theorem filter_attempts_of_mem_calls {c : Call} (hc : c ∈ calls s.itinerary) :
    ((calls s.itinerary).flatMap (·.attempts s)).filter (·.site.node = c.node) = c.attempts s := by
  have hnodup : ((calls s.itinerary).map (·.node)).Nodup := nodup_called_route _ _
  rw [filter_flatMap_of_unique hnodup hc]
  · exact List.filter_eq_self.mpr fun t ht => decide_eq_true (node_of_mem_call_attempts ht)
  · intro c' _ hne
    refine List.filter_eq_nil_iff.mpr fun t ht => ?_
    rw [decide_eq_true_eq, node_of_mem_call_attempts ht]
    exact hne

/-- **The attempts at an attribute** of a declaration, among all attempts of
the walk, are those at the words of the attribute, made in the name of the
document that the declaration belongs to. -/
theorem Complete.attempts_at_site (h : s.Complete documents roots) {d : Span}
    (hd : d ∈ documents) {n : NodeId} (hn : d.Inner n) {node : Declaration}
    (hnode : s.arena.get? n = some node) {attr : String} {buckets : List Bucket}
    (hsearch : (attr, buckets) ∈ Resolver.searches node.kind) :
    ∃ registry, ((calls s.itinerary).flatMap (·.attempts s)).filter (·.site = ⟨n, attr⟩) =
      Resolver.attemptsAt s.builtins ⟨s.arena, d.root, registry, s.registries⟩ n node
        (attr, buckets) := by
  obtain ⟨c, hc, rfl, hroot⟩ := h.exists_call hd hn
  have hattempts : c.attempts s = Resolver.attempts s.builtins
      ⟨s.arena, d.root, c.registry, s.registries⟩ c.node node := by
    simp only [Call.attempts, hnode, hroot]
  have hsite : ∀ t : Attempt, decide (t.site = ⟨c.node, attr⟩) =
      (decide (t.site = ⟨c.node, attr⟩) && decide (t.site.node = c.node)) := by
    intro t
    by_cases ht : t.site = ⟨c.node, attr⟩
    · simp [ht]
    · simp [ht]
  refine ⟨c.registry, ?_⟩
  rw [← Resolver.filter_attempts hsearch, ← hattempts, ← filter_attempts_of_mem_calls hc,
    List.filter_filter]
  exact List.filter_congr fun t _ => hsite t

/-- Attempts are made at the reference attributes of declarations that are no roots. -/
theorem Complete.inner_of_mem_attempts (h : s.Complete documents roots) {t : Attempt}
    (ht : t ∈ (calls s.itinerary).flatMap (·.attempts s)) :
    ∃ d ∈ documents, d.Inner t.site.node ∧ ∃ node, s.arena.get? t.site.node = some node ∧
      ∃ buckets, (t.site.attr, buckets) ∈ Resolver.searches node.kind := by
  obtain ⟨c, hc, ht⟩ := List.mem_flatMap.mp ht
  obtain ⟨d, hd, -, hinner⟩ := h.root_of_mem_calls hc
  have hsite := node_of_mem_call_attempts ht
  rw [Call.attempts] at ht
  split at ht
  · contradiction
  · next node hnode =>
    obtain ⟨⟨attr, buckets⟩, hsearch, hat⟩ := List.mem_flatMap.mp ht
    obtain ⟨name, -, rfl⟩ := List.mem_map.mp hat
    exact ⟨d, hd, hinner, node, hnode, buckets, hsearch⟩

end

/-- The words of an attribute. -/
def wordsOf (node : Declaration) (attr : String) : List String :=
  ((node.attr? attr).map Text.words).getD []

/-- An attribute that is not there has no words, like an empty one. -/
theorem wordsOf_iff {node : Declaration} {attr : String} {ws : List String} :
    wordsOf node attr = ws ↔
      Text.Words ((node.attr? attr).getD "").toList (ws.map String.toList) := by
  rw [← Text.words_iff, wordsOf]
  cases node.attr? attr with
  | none => rfl
  | some text => rfl

theorem mem_wordsOf_iff {node : Declaration} {attr text : String} :
    text ∈ wordsOf node attr ↔
      ∃ words, Text.Words ((node.attr? attr).getD "").toList words ∧ text.toList ∈ words := by
  constructor
  · intro htext
    exact ⟨_, wordsOf_iff.mp rfl, List.mem_map_of_mem htext⟩
  · rintro ⟨words, hwords, hmem⟩
    have hinv : (words.map String.ofList).map String.toList = words := by
      simp [List.map_map, Function.comp_def]
    rw [wordsOf_iff.mpr (hinv.symm ▸ hwords), List.mem_map]
    exact ⟨_, hmem, String.ofList_toList⟩

/-- **Resolution is exact and loses nothing**, in every session made of loaded
documents that have each been added once.  It succeeds; each reference
attribute of each declaration that is no root gets one attempt for every word,
in order, and every attempt follows the rules of `Outcome` with the bindings
of the declaration's own document; the resolutions of the attribute are what
these attempts find, and the notes on it are what they leave open.  There are
no others. -/
theorem resolveReferences_exact {builtins : Builtins} {dedup : Bool} {documents : List Span}
    {roots : List NodeId} {s : Session} (h : Assembled builtins dedup documents roots s)
    (hroots : roots.Perm (documents.map (·.root))) :
    ∃ (after : Session) (r : Resolver),
      s.resolveReferences false = (after, .ok r) ∧
      (∀ d ∈ documents, ∀ n, d.Inner n → ∃ root node, s.arena.get? d.root = some root ∧
        s.arena.get? n = some node ∧
        ∀ attr buckets, node.kind.Searches attr buckets →
          ∃ attempts : List Attempt,
            Text.Words ((node.attr? attr).getD "").toList (attempts.map (·.name.toList)) ∧
            (∀ t ∈ attempts, t.site = ⟨n, attr⟩ ∧
              Outcome builtins s.registries root n node attr buckets t.name t.outcome) ∧
            r.resolution? n attr = Resolver.kept (attempts.filterMap Attempt.found?) ∧
            r.unresolved.filter (fun o => o.node = n ∧ o.attr = attr) =
              attempts.filterMap Attempt.left?) ∧
      ∀ n attr, (r.resolution? n attr ≠ none ∨ ∃ o ∈ r.unresolved, o.node = n ∧ o.attr = attr) →
        ∃ d ∈ documents, d.Inner n ∧ ∃ node, s.arena.get? n = some node ∧
          ∃ buckets, node.kind.Searches attr buckets := by
  have hcomplete := h.complete hroots
  have hbuiltins : s.builtins = builtins := h.adds.frame.2.1
  obtain ⟨r, htaken, -, hopen⟩ := Resolver.takeAll_lenient
    (r := { builtins := s.builtins, strict := false }) rfl
    ((calls s.itinerary).flatMap (·.attempts s))
  have hresolved : ∀ n attr, r.resolution? n attr = Resolver.kept
      ((((calls s.itinerary).flatMap (·.attempts s)).filter (·.site = ⟨n, attr⟩)).filterMap
        Attempt.found?) := by
    intro n attr
    have hempty : ({ builtins := s.builtins, strict := false } : Resolver).resolved.get? ⟨n, attr⟩ =
        Resolver.kept [] := rfl
    exact Resolver.resolved_takeAll htaken hempty
  have hleft : ∀ n attr, r.unresolved.filter (fun o => o.node = n ∧ o.attr = attr) =
      (((calls s.itinerary).flatMap (·.attempts s)).filter (·.site = ⟨n, attr⟩)).filterMap
        Attempt.left? := by
    intro n attr
    rw [hopen, List.nil_append]
    exact Resolver.filter_left? _ ⟨n, attr⟩
  refine ⟨_, r, resolveReferences_taken hcomplete.rooted hcomplete.laidOut.closed htaken, ?_, ?_⟩
  · intro d hd n hn
    obtain ⟨root, hroot⟩ :=
      Arena.valid_iff.mp (hcomplete.laidOut.valid_of_has hd (hcomplete.has_root hd))
    obtain ⟨node, hnode⟩ :=
      Arena.valid_iff.mp (hcomplete.laidOut.valid_of_has hd (Span.inner_iff.mp hn).1)
    refine ⟨root, node, hroot, hnode, fun attr buckets hsearch => ?_⟩
    obtain ⟨registry, hattempts⟩ :=
      hcomplete.attempts_at_site hd hn hnode (Resolver.mem_searches_iff.mpr hsearch)
    refine ⟨_, ?_, ?_, hattempts ▸ hresolved n attr, hattempts ▸ hleft n attr⟩
    · rw [Resolver.attemptsAt, List.map_map]
      exact wordsOf_iff.mp rfl
    · intro t ht
      obtain ⟨text, -, rfl⟩ := List.mem_map.mp ht
      refine ⟨rfl, ?_⟩
      rw [← hbuiltins]
      exact (@Resolver.resolveName_iff _ ⟨s.arena, d.root, registry, s.registries⟩ root n node attr
        buckets text hroot _).mp rfl
  · intro n attr hsome
    have hmade : ((calls s.itinerary).flatMap (·.attempts s)).filter (·.site = ⟨n, attr⟩) ≠ [] := by
      intro hnil
      rcases hsome with hfound | ⟨o, ho, hat⟩
      · rw [hresolved, hnil] at hfound
        exact hfound rfl
      · have hnotes := hleft n attr
        rw [hnil, List.filterMap_nil, List.filter_eq_nil_iff] at hnotes
        exact hnotes o ho (decide_eq_true hat)
    obtain ⟨t, ht⟩ := List.exists_mem_of_ne_nil _ hmade
    obtain ⟨hmem, hsite⟩ := List.mem_filter.mp ht
    have hinner := hcomplete.inner_of_mem_attempts hmem
    simp only [of_decide_eq_true hsite, Resolver.mem_searches_iff] at hinner
    exact hinner

/-! ## two loaded documents -/

/-- A document that declares a type. -/
def typeText : String :=
  "\x7b\"kind\": \"schema\", \"namespace\": \"urn:a\"," ++
  " \"children\": [\x7b\"kind\": \"complexType\", \"name\": \"Type\"\x7d]\x7d"

/-- A document of another namespace with an element that refers to the type,
once with a prefix that the document binds and once with one that it does not,
and with a reference to this element. -/
def useText : String :=
  "\x7b\"kind\": \"schema\", \"namespace\": \"urn:b\", \"attributes\": \x7b\"xmlns:p\": \"urn:a\"\x7d," ++
  " \"children\": [\x7b\"kind\": \"element\", \"name\": \"Own\"," ++
  " \"attributes\": \x7b\"type\": \"p:Type q:Type\"\x7d\x7d," ++
  " \x7b\"kind\": \"element\", \"attributes\": \x7b\"ref\": \"Own\"\x7d\x7d]\x7d"

def typeArena : Arena where
  nodes := #[
    { kind := .schema, space := "urn:a", children := [⟨1⟩] },
    { kind := .complexType, name := some "Type", space := "urn:a" }]

def useArena : Arena where
  nodes := #[
    { kind := .schema, space := "urn:a", children := [⟨1⟩] },
    { kind := .complexType, name := some "Type", space := "urn:a" },
    { kind := .schema, space := "urn:b", attributes := .ofList [("xmlns:p", "urn:a")],
      children := [⟨3⟩, ⟨4⟩] },
    { kind := .element, name := some "Own", space := "urn:b"
      attributes := .ofList [("type", "p:Type q:Type")] },
    { kind := .element, space := "urn:b", attributes := .ofList [("ref", "Own")] }]

theorem load_typeText : (∅ : Arena).load typeText = (typeArena, .ok ⟨0⟩) := by
  decide +kernel

theorem load_useText : typeArena.load useText = (useArena, .ok ⟨2⟩) := by
  decide +kernel

/-- The session with the second document added. -/
def halfSession : Session :=
  ((({ arena := useArena } : Session).addDocument ⟨2⟩).toOption).getD {}

def useSession : Session := ((halfSession.addDocument ⟨0⟩).toOption).getD {}

theorem assembled_useSession :
    Assembled .xsd true [⟨⟨0⟩, 2⟩, ⟨⟨2⟩, 5⟩] [⟨2⟩, ⟨0⟩] useSession := by
  have hfirst : ({ arena := useArena } : Session).addDocument ⟨2⟩ = .ok halfSession := rfl
  have hsecond : halfSession.addDocument ⟨0⟩ = .ok useSession := rfl
  exact (((Assembled.new.load load_typeText).load load_useText).add hfirst).add hsecond

/-- Attempts at the words of a text, taken one by one. -/
theorem names_eq_words {text : String} {attempts : List Attempt}
    (h : Text.Words text.toList (attempts.map (·.name.toList))) :
    attempts.map (·.name) = Text.words text := by
  rw [eq_comm, Text.words_iff, List.map_map]
  exact h

/-- In the second document the outcome of an attempt can be computed. -/
theorem outcome_useSession {n : NodeId} {root node : Declaration} {attr : String}
    {buckets : List Bucket} {t : Attempt} (hroot : useSession.arena.get? ⟨2⟩ = some root)
    (h : Outcome .xsd useSession.registries root n node attr buckets t.name t.outcome) :
    t.outcome = Resolver.resolveName .xsd ⟨useSession.arena, ⟨2⟩, default, useSession.registries⟩
      n node attr buckets t.name :=
  (@Resolver.resolveName_of_outcome _ ⟨useSession.arena, ⟨2⟩, default, useSession.registries⟩
    _ _ _ _ _ _ hroot _ h).symm

/-- The name with the bound prefix leads to the type, the other one is left open;
the element itself is found through `ref`, in the namespace of the node. -/
theorem resolveReferences_exact_use :
    Assembled .xsd true [⟨⟨0⟩, 2⟩, ⟨⟨2⟩, 5⟩] [⟨2⟩, ⟨0⟩] useSession ∧
      [(⟨2⟩ : NodeId), ⟨0⟩].Perm ([⟨⟨0⟩, 2⟩, ⟨⟨2⟩, 5⟩].map Span.root) ∧
      ∃ (after : Session) (r : Resolver),
        useSession.resolveReferences false = (after, .ok r) ∧
        r.resolution? ⟨3⟩ "type" = some [.declared "urn:a" .complexTypes ⟨1⟩] ∧
        (∃ o ∈ r.unresolved, o.node = ⟨3⟩ ∧ o.attr = "type" ∧ o.name = "q:Type") ∧
        r.resolution? ⟨4⟩ "ref" = some [.declared "urn:b" .elements ⟨3⟩] := by
  have hroots : [(⟨2⟩ : NodeId), ⟨0⟩].Perm ([⟨⟨0⟩, 2⟩, ⟨⟨2⟩, 5⟩].map Span.root) := .swap _ _ _
  obtain ⟨after, r, hrun, hexact, -⟩ := resolveReferences_exact assembled_useSession hroots
  refine ⟨assembled_useSession, hroots, after, r, hrun, ?_⟩
  rw [← and_assoc]
  constructor
  · obtain ⟨root, node, hroot, hnode, hat⟩ := hexact ⟨⟨2⟩, 5⟩ (by simp) ⟨3⟩ ⟨by decide, by decide⟩
    obtain rfl : node = { kind := .element, name := some "Own", space := "urn:b"
                          attributes := .ofList [("type", "p:Type q:Type")] } :=
      Option.some.inj hnode.symm
    obtain ⟨attempts, hwords, hrules, hresolution, hopen⟩ := hat "type" _ (.type _)
    have hnames : attempts.map (·.name) = ["p:Type", "q:Type"] :=
      (names_eq_words hwords).trans (by decide +kernel)
    obtain ⟨t, rest, rfl, ht, hrest⟩ := List.map_eq_cons_iff.mp hnames
    obtain ⟨u, rest', rfl, hu, hrest'⟩ := List.map_eq_cons_iff.mp hrest
    obtain rfl := List.map_eq_nil_iff.mp hrest'
    have hfound : t.outcome = .ok (.declared "urn:a" .complexTypes ⟨1⟩) := by
      rw [outcome_useSession hroot (hrules t (by simp)).2, ht]
      decide +kernel
    have hleft : u.outcome = .error (.unknownPrefix ⟨3⟩ "q") := by
      rw [outcome_useSession hroot (hrules u (by simp)).2, hu]
      decide +kernel
    rw [List.filterMap_cons_none (Attempt.left?_ok hfound),
      List.filterMap_cons_some (Attempt.left?_error hleft)] at hopen
    rw [hresolution, List.filterMap_cons_some (Attempt.found?_ok hfound),
      List.filterMap_cons_none (Attempt.found?_error hleft)]
    obtain ⟨hmem, hsite⟩ := List.mem_filter.mp (hopen ▸ List.mem_cons_self)
    obtain ⟨hnode, hattr⟩ := of_decide_eq_true hsite
    exact ⟨rfl, _, hmem, hnode, hattr, hu⟩
  · obtain ⟨root, node, hroot, hnode, hat⟩ := hexact ⟨⟨2⟩, 5⟩ (by simp) ⟨4⟩ ⟨by decide, by decide⟩
    obtain rfl : node = { kind := .element, space := "urn:b"
                          attributes := .ofList [("ref", "Own")] } :=
      Option.some.inj hnode.symm
    obtain ⟨attempts, hwords, hrules, hresolution, -⟩ := hat "ref" _ .elementRef
    have hnames : attempts.map (·.name) = ["Own"] :=
      (names_eq_words hwords).trans (by decide +kernel)
    obtain ⟨t, rest, rfl, ht, hrest⟩ := List.map_eq_cons_iff.mp hnames
    obtain rfl := List.map_eq_nil_iff.mp hrest
    have hfound : t.outcome = .ok (.declared "urn:b" .elements ⟨3⟩) := by
      rw [outcome_useSession hroot (hrules t (by simp)).2, ht]
      decide +kernel
    rw [hresolution, List.filterMap_cons_some (Attempt.found?_ok hfound)]
    rfl

end Session

end SchemaCatalog
