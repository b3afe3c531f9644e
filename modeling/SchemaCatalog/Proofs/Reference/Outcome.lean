import Mathlib.Data.List.TakeDrop
import Mathlib.Data.List.TakeWhile
import SchemaCatalog.Reference.Resolver

/-!
# SchemaCatalog.Proofs.Reference.Outcome

What a name in a reference attribute comes to, as rules.  `Kind.Searches` lists
the reference attributes of a kind and the buckets that each of them searches,
`Named` says which namespace and which local name a qualified name stands for on
a node of a document, and `Outcome` what is then found, or which error there is.
The rules do not overlap and leave no name out: `mem_searches_iff` and
`resolveName_iff` say that they describe the resolver.
-/

namespace SchemaCatalog

/-! ## the parts of a qualified name -/

namespace QualifiedName

/-- A name without a colon has no prefix. -/
theorem ofText_plain {text : String} (h : ':' ∉ text.toList) : ofText text = ⟨none, text⟩ := by
  have hall : ∀ c ∈ text.toList, (c != ':') = true := by
    intro c hc
    rw [bne_iff_ne]
    rintro rfl
    exact h hc
  have hspan : text.toList.span (· != ':') = (text.toList, []) := by
    rw [List.span_eq_takeWhile_dropWhile, List.takeWhile_eq_self_iff.mpr hall,
      List.dropWhile_eq_nil_iff.mpr hall]
  rw [ofText, hspan]

/-- A name is cut at its first colon. -/
theorem ofText_colon {pfx : String} (h : ':' ∉ pfx.toList) (name : String) :
    ofText (pfx ++ ":" ++ name) = ⟨some pfx, name⟩ := by
  have hall : ∀ c ∈ pfx.toList, (c != ':') = true := by
    intro c hc
    rw [bne_iff_ne]
    rintro rfl
    exact h hc
  have hlist : (pfx ++ ":" ++ name).toList = pfx.toList ++ ':' :: name.toList := by
    simp
  have hspan : (pfx ++ ":" ++ name).toList.span (· != ':') = (pfx.toList, ':' :: name.toList) := by
    rw [hlist, List.span_eq_takeWhile_dropWhile, List.takeWhile_append_of_pos hall,
      List.dropWhile_append_of_pos hall]
    simp
  rw [ofText, hspan]
  simp

/-- Every name is of one of these two forms. -/
theorem plain_or_colon (text : String) :
    ':' ∉ text.toList ∨ ∃ pfx name, ':' ∉ pfx.toList ∧ text = pfx ++ ":" ++ name := by
  by_cases h : ':' ∈ text.toList
  · obtain ⟨front, back, htext, hfront⟩ := List.eq_append_cons_of_mem h
    refine .inr ⟨String.ofList front, String.ofList back, by simpa using hfront, ?_⟩
    rw [← String.ofList_toList (s := text), htext]
    simp [String.append_assoc]
  · exact .inl h

end QualifiedName

/-! ## rules -/

/-- A node of a kind can have a reference attribute, which searches some buckets
in order.  Types are looked for among complex types first; where only a simple
type can stand, complex types are left out.  What `ref` looks for depends on the
kind. -/
inductive Kind.Searches : Kind → String → List Bucket → Prop
  | type (kind : Kind) : Searches kind "type" [.complexTypes, .simpleTypes]
  | base (kind : Kind) : Searches kind "base" [.complexTypes, .simpleTypes]
  | itemType (kind : Kind) : Searches kind "itemType" [.simpleTypes]
  | memberTypes (kind : Kind) : Searches kind "memberTypes" [.simpleTypes]
  | substitutionGroup (kind : Kind) : Searches kind "substitutionGroup" [.elements]
  | elementRef : Searches .element "ref" [.elements]
  | attrRef : Searches .attr "ref" [.attributes]
  | groupRef : Searches .group "ref" [.groups]
  | attrGroupRef : Searches .attrGroup "ref" [.attributeGroups]

/-- A qualified name on a node, in a document with a given root, stands for a
local name of a namespace. -/
inductive Named (root node : Declaration) : String → String → String → Prop
  /-- The prefix `xml` needs no binding. -/
  | xml (name : String) :
    Named root node ("xml" ++ ":" ++ name) "http://www.w3.org/XML/1998/namespace" name
  /-- Any other prefix is bound on the root of the document; the empty one as if
  there were no colon. -/
  | bound {pfx space : String} (name : String) (hcolon : ':' ∉ pfx.toList) (hxml : pfx ≠ "xml")
    (hbinding : root.attr? (if pfx = "" then "xmlns" else "xmlns:" ++ pfx) = some space) :
    Named root node (pfx ++ ":" ++ name) space name
  /-- Without a prefix it is the default namespace of the document. -/
  | default {text space : String} (hcolon : ':' ∉ text.toList)
    (hbinding : root.attr? "xmlns" = some space) : Named root node text space text
  /-- If there is none, it is the namespace of the node. -/
  | own {text : String} (hcolon : ':' ∉ text.toList) (hbinding : root.attr? "xmlns" = none) :
    Named root node text node.space text

/-- What a name in an attribute of a node comes to, if the attribute searches
the given buckets. -/
inductive Outcome (builtins : Builtins) (registries : Table String Registry) (root : Declaration)
    (id : NodeId) (node : Declaration) (attr : String) (buckets : List Bucket) :
    String → Except Error Resolution → Prop
  /-- The prefix is not bound on the root of the document. -/
  | unbound {pfx : String} (name : String) (hcolon : ':' ∉ pfx.toList) (hxml : pfx ≠ "xml")
    (hbinding : root.attr? (if pfx = "" then "xmlns" else "xmlns:" ++ pfx) = none) :
    Outcome builtins registries root id node attr buckets (pfx ++ ":" ++ name)
      (.error (.unknownPrefix id pfx))
  /-- The namespace knows the name anyway. -/
  | builtin {text space name : String} (hnamed : Named root node text space name)
    (hbuiltin : builtins.contains space name = true) :
    Outcome builtins registries root id node attr buckets text (.ok (.builtin space name))
  /-- The first bucket that has the name decides. -/
  | declared {text space name : String} {registry : Registry} {before after : List Bucket}
    {b : Bucket} {found : NodeId} (hnamed : Named root node text space name)
    (hbuiltin : builtins.contains space name = false)
    (hregistry : registries.get? space = some registry) (hbuckets : buckets = before ++ b :: after)
    (hbefore : ∀ b' ∈ before, registry.lookup b' name = none)
    (hfound : registry.lookup b name = some found) :
    Outcome builtins registries root id node attr buckets text (.ok (.declared space b found))
  /-- There is no such namespace, or none of the buckets has the name. -/
  | missing {text space name : String} (hnamed : Named root node text space name)
    (hbuiltin : builtins.contains space name = false)
    (hnone : ∀ registry, registries.get? space = some registry →
      ∀ b ∈ buckets, registry.lookup b name = none) :
    Outcome builtins registries root id node attr buckets text
      (.error (.unresolvedReference id attr text))

/-! ## the resolver follows the rules -/

/-- The attributes that the resolver reads, and the buckets that it searches for
them, are those of the rules. -/
theorem Resolver.mem_searches_iff {kind : Kind} {attr : String} {buckets : List Bucket} :
    (attr, buckets) ∈ searches kind ↔ kind.Searches attr buckets := by
  constructor
  · intro h
    rw [searches, List.mem_append] at h
    rcases h with h | h
    · simp only [List.mem_cons, List.not_mem_nil, or_false, Prod.mk.injEq] at h
      obtain ⟨rfl, rfl⟩ | ⟨rfl, rfl⟩ | ⟨rfl, rfl⟩ | ⟨rfl, rfl⟩ | ⟨rfl, rfl⟩ := h
      · exact .type kind
      · exact .base kind
      · exact .itemType kind
      · exact .memberTypes kind
      · exact .substitutionGroup kind
    · split at h
      · next b hb =>
        obtain ⟨rfl, rfl⟩ := Prod.mk.inj (List.mem_singleton.mp h)
        -- four kinds have a bucket for `ref`, the others contradict `hb`
        cases kind with
        | element => exact Option.some.inj hb ▸ .elementRef
        | attr => exact Option.some.inj hb ▸ .attrRef
        | group => exact Option.some.inj hb ▸ .groupRef
        | attrGroup => exact Option.some.inj hb ▸ .attrGroupRef
        | _ => contradiction
      · contradiction
  · intro h
    cases h with
    | type => simp [searches]
    | base => simp [searches]
    | itemType => simp [searches]
    | memberTypes => simp [searches]
    | substitutionGroup => simp [searches]
    | elementRef => simp [searches, refBucket?]
    | attrRef => simp [searches, refBucket?]
    | groupRef => simp [searches, refBucket?]
    | attrGroupRef => simp [searches, refBucket?]

/-- A name that the bindings give a namespace is resolved to that namespace. -/
theorem space?_of_named {root node : Declaration} {text space name : String}
    (h : Named root node text space name) :
    (QualifiedName.ofText text).space? root node = some space ∧
      (QualifiedName.ofText text).localName = name := by
  cases h with
  | xml =>
      rw [QualifiedName.ofText_colon (by decide)]
      exact ⟨rfl, rfl⟩
  | bound _ hcolon hxml hbinding =>
      rw [QualifiedName.ofText_colon hcolon]
      refine ⟨?_, rfl⟩
      have hbound : root.binding? _ = some space := hbinding
      rw [QualifiedName.space?]
      simp only [if_neg hxml, hbound]
  | default hcolon hbinding =>
      rw [QualifiedName.ofText_plain hcolon]
      refine ⟨?_, rfl⟩
      have hdefault : root.binding? "" = some space := hbinding
      rw [QualifiedName.space?]
      simp only [hdefault, Option.getD_some]
  | own hcolon hbinding =>
      rw [QualifiedName.ofText_plain hcolon]
      refine ⟨?_, rfl⟩
      have hdefault : root.binding? "" = none := hbinding
      rw [QualifiedName.space?]
      simp only [hdefault, Option.getD_none]

/-- A name is `Named` unless its prefix is not bound. -/
theorem named_or_unbound (root node : Declaration) (text : String) :
    (∃ space name, Named root node text space name) ∨
      ∃ pfx name, ':' ∉ pfx.toList ∧ pfx ≠ "xml" ∧
        root.attr? (if pfx = "" then "xmlns" else "xmlns:" ++ pfx) = none ∧
        text = pfx ++ ":" ++ name := by
  rcases QualifiedName.plain_or_colon text with hcolon | ⟨pfx, name, hcolon, rfl⟩
  · cases hbinding : root.attr? "xmlns" with
    | some space => exact .inl ⟨space, text, .default hcolon hbinding⟩
    | none => exact .inl ⟨node.space, text, .own hcolon hbinding⟩
  · by_cases hxml : pfx = "xml"
    · rw [hxml]
      exact .inl ⟨_, name, .xml name⟩
    · cases hbinding : root.attr? (if pfx = "" then "xmlns" else "xmlns:" ++ pfx) with
      | some space => exact .inl ⟨space, name, .bound name hcolon hxml hbinding⟩
      | none => exact .inr ⟨pfx, name, hcolon, hxml, hbinding, rfl⟩

namespace Resolver

/-- The search through the buckets stops at the first that has the name. -/
theorem findIn_eq_some {registry : Registry} {name space : String} {before after : List Bucket}
    {b : Bucket} {found : NodeId} (hbefore : ∀ b' ∈ before, registry.lookup b' name = none)
    (hfound : registry.lookup b name = some found) :
    findIn registry name space (before ++ b :: after) = some (.declared space b found) := by
  induction before with
  | nil => rw [List.nil_append, findIn, hfound]
  | cons b' before ih =>
      rw [List.forall_mem_cons] at hbefore
      rw [List.cons_append, findIn, hbefore.1]
      exact ih hbefore.2

/-- A search finds nothing in any bucket, or stops at the first that has the name. -/
theorem findIn_cases (registry : Registry) (name space : String) (buckets : List Bucket) :
    (findIn registry name space buckets = none ∧ ∀ b ∈ buckets, registry.lookup b name = none) ∨
      ∃ before b after found, buckets = before ++ b :: after ∧
        (∀ b' ∈ before, registry.lookup b' name = none) ∧ registry.lookup b name = some found := by
  induction buckets with
  | nil => exact .inl ⟨rfl, by simp⟩
  | cons b buckets ih =>
      cases hb : registry.lookup b name with
      | some found => exact .inr ⟨[], b, buckets, found, rfl, by simp, hb⟩
      | none =>
          rcases ih with ⟨hnone, hall⟩ | ⟨before, b', after, found, rfl, hbefore, hfound⟩
          · refine .inl ⟨?_, List.forall_mem_cons.mpr ⟨hb, hall⟩⟩
            rw [findIn, hb]
            exact hnone
          · exact .inr ⟨b :: before, b', after, found, rfl,
              List.forall_mem_cons.mpr ⟨hb, hbefore⟩, hfound⟩

section

variable {builtins : Builtins} {scope : Scope} {root : Declaration} {id : NodeId}
  {node : Declaration} {attr : String} {buckets : List Bucket} {text : String}

/-- A named reference is built in, or declared, or open, in that order. -/
theorem resolveName_of_named (hroot : scope.arena.get? scope.root = some root)
    {space name : String} (hnamed : Named root node text space name) :
    resolveName builtins scope id node attr buckets text =
      if builtins.contains space name then .ok (.builtin space name)
      else ((scope.registries.get? space).bind fun r => findIn r name space buckets).elim
        (.error (.unresolvedReference id attr text)) .ok := by
  obtain ⟨hspace, hname⟩ := space?_of_named hnamed
  simp only [resolveName, hroot, hspace, hname]
  cases (scope.registries.get? space).bind fun r => findIn r name space buckets with
  | none => rfl
  | some found => rfl

/-- Whatever the rules allow is what the resolver does. -/
theorem resolveName_of_outcome (hroot : scope.arena.get? scope.root = some root)
    {o : Except Error Resolution}
    (h : Outcome builtins scope.registries root id node attr buckets text o) :
    resolveName builtins scope id node attr buckets text = o := by
  cases h with
  | unbound name hcolon hxml hbinding =>
      have hunbound : root.binding? _ = none := hbinding
      rw [resolveName, hroot]
      simp only [QualifiedName.ofText_colon hcolon, QualifiedName.space?, if_neg hxml, hunbound,
        Option.getD_some]
  | builtin hnamed hbuiltin => rw [resolveName_of_named hroot hnamed, if_pos hbuiltin]
  | declared hnamed hbuiltin hregistry hbuckets hbefore hfound =>
      rw [resolveName_of_named hroot hnamed, hbuiltin, if_neg Bool.false_ne_true, hregistry,
        Option.bind_some, hbuckets, findIn_eq_some hbefore hfound, Option.elim_some]
  | @missing _ space name hnamed hbuiltin hnone =>
      rw [resolveName_of_named hroot hnamed, hbuiltin, if_neg Bool.false_ne_true]
      cases hregistry : scope.registries.get? space with
      | none => rfl
      | some registry =>
          rcases findIn_cases registry name space buckets with
            ⟨hfind, -⟩ | ⟨before, b, after, found, rfl, -, hfound⟩
          · rw [Option.bind_some, hfind, Option.elim_none]
          · rw [hnone registry hregistry b (by simp)] at hfound
            contradiction

/-- The rules leave no name out. -/
theorem exists_outcome (builtins : Builtins) (registries : Table String Registry)
    (root : Declaration) (id : NodeId) (node : Declaration) (attr : String)
    (buckets : List Bucket) (text : String) :
    ∃ o, Outcome builtins registries root id node attr buckets text o := by
  rcases named_or_unbound root node text with
    ⟨space, name, hnamed⟩ | ⟨pfx, name, hcolon, hxml, hbinding, rfl⟩
  · cases hbuiltin : builtins.contains space name with
    | true => exact ⟨_, .builtin hnamed hbuiltin⟩
    | false =>
        cases hregistry : registries.get? space with
        | none =>
            refine ⟨_, .missing hnamed hbuiltin ?_⟩
            intro registry hsome
            rw [hregistry] at hsome
            contradiction
        | some registry =>
            rcases findIn_cases registry name space buckets with
              ⟨-, hnone⟩ | ⟨before, b, after, found, hbuckets, hbefore, hfound⟩
            · refine ⟨_, .missing hnamed hbuiltin ?_⟩
              intro registry' hsome
              obtain rfl : registry = registry' := Option.some.inj (hregistry.symm.trans hsome)
              exact hnone
            · exact ⟨_, .declared hnamed hbuiltin hregistry hbuckets hbefore hfound⟩
  · exact ⟨_, .unbound name hcolon hxml hbinding⟩

/-- **The resolver follows the rules**, and the rules tell what it does. -/
theorem resolveName_iff (hroot : scope.arena.get? scope.root = some root)
    {o : Except Error Resolution} :
    resolveName builtins scope id node attr buckets text = o ↔
      Outcome builtins scope.registries root id node attr buckets text o := by
  constructor
  · rintro rfl
    obtain ⟨o, ho⟩ := exists_outcome builtins scope.registries root id node attr buckets text
    rw [resolveName_of_outcome hroot ho]
    exact ho
  · exact resolveName_of_outcome hroot

end

end Resolver

end SchemaCatalog
