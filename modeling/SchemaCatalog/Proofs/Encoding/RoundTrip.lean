import SchemaCatalog.Encoding.Diagnostics
import SchemaCatalog.Encoding.Summary
import SchemaCatalog.Proofs.Json.Written
import SchemaCatalog.Settings.Basic

/-!
# SchemaCatalog.Proofs.Encoding.RoundTrip

Summaries and notes that are written as JSON are read back from the text, compact
or pretty (`decode_write`).

That a value encodes another one for some reader is a relation with one rule per
shape (`Json.Encodes`), and a record is encoded by members that fill its fields
one after the other (`Json.Fills`).  A list that is empty and a node that is
absent have no member, so nothing fills their fields; what is read for them then
is what the record says of a field that is missing.
-/

namespace SchemaCatalog

namespace Json

open Reader (RecordField)

variable {α β σ : Type}

/-- The keys of an object. -/
def keys : Json → List String
  | object members => members.map (·.1)
  | _ => []

/-- A reader reads this value off that piece of JSON. -/
structure Encodes (r : Reader α) (v : Json) (a : α) : Prop where
  natural : Natural v
  read : r (draft v) = .ok a

/-- **What is written can be read.** -/
theorem Encodes.decode {r : Reader α} {v : Json} {a : α} (h : Encodes r v a) (f : Settings.Format) :
    decode r (f.write v) = .ok a := by
  have hread : Draft.read (f.write v) = (draft v, []) := by
    cases f with
    | pretty => exact read_pretty h.natural
    | compact => exact read_compact h.natural
  rw [Json.decode, hread]
  simp [h.read, Draft.skipSpace]

/-- A string is read back as itself. -/
theorem encodes_text (s : String) : Encodes Reader.text (.string s) s := ⟨trivial, rfl⟩

/-- A number below the word size is read back as itself. -/
theorem encodes_natural {k : Nat} (h : k < UInt64.size) : Encodes Reader.natural (.nat k) k where
  natural := ⟨k, rfl⟩
  read := by simp [nat, draft, Reader.natural, Numeral.natural?_ofNat, h]

/-- A name of the table is read back as what it stands for. -/
theorem encodes_named {byName : List (String × α)} {name : String} {a : α}
    (h : byName.lookup name = some a) : Encodes (Reader.named byName) (.string name) a where
  natural := trivial
  read := by simp [draft, Reader.named, Reader.choice, h]

/-- What is not `null` is read as a value that is there. -/
theorem Encodes.optional {r : Reader α} {v : Json} {a : α} (h : Encodes r v a) (hv : v ≠ .null) :
    Encodes (Reader.optional r) v (some a) where
  natural := h.natural
  read := by
    cases v with
    | null => contradiction
    | _ =>
        have hread := h.read
        simp only [draft] at hread
        simp [draft, Reader.optional, hread, Except.map]

/-- A list is read item by item. -/
theorem Encodes.list {r : Reader α} {encode : α → Json} {items : List α}
    (h : ∀ a ∈ items, Encodes r (encode a) a) :
    Encodes (Reader.list r) (.array (items.map encode)) items := by
  have hall : NaturalItems (items.map encode) ∧
      Reader.all r (draftItems (items.map encode)) = .ok items := by
    induction items with
    | nil => exact ⟨trivial, rfl⟩
    | cons a items ih =>
        rw [List.forall_mem_cons] at h
        obtain ⟨hnatural, hread⟩ := ih h.2
        refine ⟨⟨h.1.natural, hnatural⟩, ?_⟩
        simp [draftItems, Reader.all, h.1.read, hread, Except.map]
  exact ⟨hall.1, by simp [draft, Reader.list, hall.2, Reader.close, Ending.fault?]⟩

/-! ## records -/

/-- Members fill the fields of a record one after the other: each has a field of
its own, which has not been filled before. -/
inductive Fills (fields : List (RecordField σ)) : σ → List (String × Json) → σ → Prop
  | nil {s : σ} : Fills fields s [] s
  | cons {s t u : σ} {key : String} {v : Json} {ms : List (String × Json)} {field : RecordField σ}
    (hfield : fields.find? (·.name == key) = some field) (hfree : field.isSet s = false)
    (hv : Encodes (field.read s) v t) (hrest : Fills fields t ms u) :
    Fills fields s ((key, v) :: ms) u

namespace Fills

variable {fields : List (RecordField σ)} {s t u : σ} {ms : List (String × Json)}

/-- A member fills the field that is read in some way and then stored. -/
theorem field {key : String} {r : Reader α} {get : σ → Option α} {put : σ → α → σ} {v : Json}
    {a : α} (hfield : fields.find? (·.name == key) = some (.of key r get put))
    (hfree : get s = none) (hv : Encodes r v a) (hrest : Fills fields (put s a) ms u) :
    Fills fields s ((key, v) :: ms) u := by
  refine .cons hfield ?_ ⟨hv.natural, ?_⟩ hrest
  · simp [RecordField.of, hfree]
  · simp [RecordField.of, hv.read, Except.map]

theorem natural (h : Fills fields s ms t) : NaturalMembers ms := by
  induction h with
  | nil => trivial
  | cons _ _ hv _ ih => exact ⟨hv.natural, ih⟩

/-- Members that fill the fields are read into the value that the fields make up. -/
theorem members (h : Fills fields s ms t) :
    Reader.members fields s (draftMembers ms) = .ok t := by
  induction h with
  | nil => rfl
  | cons hfield hfree hv _ ih => simp [draftMembers, Reader.members, hfield, hfree, hv.read, ih]

/-- A record is read when all that it needs has been filled. -/
theorem encodes {finish : σ → Option α} {a : α} (h : Fills fields s ms t)
    (hfinish : finish t = some a) : Encodes (Reader.record fields s finish) (.object ms) a where
  natural := h.natural
  read := by
    simp [draft, Reader.record, h.members, Ending.fault?, hfinish, Reader.complete]

end Fills

end Json

open Json (Encodes Fills encodes_text)

/-! ## notes -/

/-- A node id is read back, if its index is a machine word. -/
theorem NodeId.encodes {id : NodeId} (h : id.index < UInt64.size) :
    Encodes NodeId.reader id.encode id := by
  have hindex := Json.encodes_natural h
  exact ⟨hindex.natural, by simp [reader, encode, hindex.read, Except.map]⟩

namespace Diagnostic

theorem Code.encodes (c : Code) : Encodes Code.reader c.encode c :=
  Json.encodes_named (by cases c <;> rfl)

/-- The node of a note has an id that fits 64 bits. -/
def Addressed (d : Diagnostic) : Prop := ∀ id ∈ d.node, id.index < UInt64.size

/-- A diagnostic is read back as it was written. -/
theorem encodes {d : Diagnostic} (h : d.Addressed) : Encodes reader d.encode d := by
  obtain ⟨space, code, message, node⟩ := d
  cases node with
  | none =>
      exact Fills.encodes (.field rfl rfl (encodes_text space) <|
        .field rfl rfl (Code.encodes code) <|
        .field rfl rfl (encodes_text message) .nil) rfl
  | some id =>
      have hid : Encodes (Json.Reader.optional NodeId.reader) id.encode (some id) :=
        (NodeId.encodes (h id rfl)).optional (by simp [NodeId.encode, Json.nat])
      exact Fills.encodes (.field rfl rfl (encodes_text space) <|
        .field rfl rfl (Code.encodes code) <|
        .field rfl rfl (encodes_text message) <| .field rfl rfl hid .nil) rfl

end Diagnostic

/-- A list of findings is read back as it was written. -/
theorem Diagnostics.encodes {ds : Diagnostics} (h : ∀ d ∈ ds.items, d.Addressed) :
    Encodes reader ds.encode ds :=
  Fills.encodes (.field rfl rfl (Encodes.list fun d hd => Diagnostic.encodes (h d hd)) .nil) rfl

/-! ## summaries -/

theorem ExternalReference.encodes (r : ExternalReference) : Encodes reader r.encode r :=
  Fills.encodes (.field rfl rfl (encodes_text r.space) <|
    .field rfl rfl (encodes_text r.location) .nil) rfl

namespace Summary

/-- A record into which the names of some buckets of a summary have been read,
as far as there are any. -/
def Partial.after (p : Partial) (s : Summary) (bs : List Bucket) : Partial :=
  { p with names := .ofFn fun b =>
      if b ∈ bs ∧ s.names.get b ≠ [] then some (s.names.get b) else p.names.get b }

theorem Partial.after_nil (p : Partial) (s : Summary) : p.after s [] = p := by
  have hnames : PerBucket.ofFn p.names.get = p.names := PerBucket.ext fun b => by simp
  simp [Partial.after, hnames]

/-- A bucket without names changes nothing. -/
theorem Partial.after_cons_of_eq_nil (p : Partial) {s : Summary} {b : Bucket} (bs : List Bucket)
    (h : s.names.get b = []) : p.after s (b :: bs) = p.after s bs := by
  have hsame : ∀ c, (c ∈ b :: bs ∧ s.names.get c ≠ []) ↔ (c ∈ bs ∧ s.names.get c ≠ []) := by
    intro c
    rw [List.mem_cons]
    refine ⟨fun ⟨hc, hne⟩ => ⟨hc.resolve_left ?_, hne⟩, fun ⟨hc, hne⟩ => ⟨.inr hc, hne⟩⟩
    rintro rfl
    exact hne h
  simp only [Partial.after, hsame]

/-- A bucket with names has them stored. -/
theorem Partial.after_cons_of_ne_nil (p : Partial) {s : Summary} {b : Bucket} {bs : List Bucket}
    (hb : b ∉ bs) (h : s.names.get b ≠ []) :
    p.after s (b :: bs) =
      ({ p with names := p.names.set b (some (s.names.get b)) } : Partial).after s bs := by
  simp only [Partial.after, Partial.mk.injEq, true_and, and_true]
  refine PerBucket.ext fun c => ?_
  rw [PerBucket.get_ofFn, PerBucket.get_ofFn, PerBucket.get_set]
  by_cases hc : c = b
  · subst hc
    simp [h, hb]
  · simp [hc]

/-- The reader finds the field of a bucket under the name of the bucket. -/
theorem find?_bucket (b : Bucket) :
    fields.find? (·.name == b.name) = some (.of b.name (Json.Reader.list Json.Reader.text)
      (·.names.get b) fun p v => { p with names := p.names.set b (some v) }) := by
  cases b <;> rfl

/-- The names of buckets are read one bucket after the other. -/
theorem fills_buckets (s : Summary) {bs : List Bucket} (hnodup : bs.Nodup) {p q : Partial}
    (hfree : ∀ b ∈ bs, p.names.get b = none) {ms : List (String × Json)}
    (hrest : Fills fields (p.after s bs) ms q) :
    Fills fields p (bs.flatMap (fun b => member b.name .string (s.names.get b)) ++ ms) q := by
  induction bs generalizing p with
  | nil => rwa [p.after_nil] at hrest
  | cons b bs ih =>
      rw [List.nodup_cons] at hnodup
      rw [List.forall_mem_cons] at hfree
      rw [List.flatMap_cons, List.append_assoc, member]
      split
      · next hempty =>
        rw [p.after_cons_of_eq_nil bs (List.isEmpty_iff.mp hempty)] at hrest
        exact ih hnodup.2 hfree.2 hrest
      · next hnames =>
        rw [p.after_cons_of_ne_nil hnodup.1 (by simpa using hnames)] at hrest
        refine .field (find?_bucket b) hfree.1 (Encodes.list fun name _ => encodes_text name) ?_
        refine ih hnodup.2 (fun c hc => ?_) hrest
        have hne : c ≠ b := fun heq => hnodup.1 (heq ▸ hc)
        simp [PerBucket.get_set, hne, hfree.2 c hc]

/-- External references are read if there are any. -/
theorem fills_references (s : Summary) {p : Partial} (hfree : p.externalReferences = none) :
    ∃ refs : Option (List ExternalReference), refs.getD [] = s.externalReferences ∧
      Fills fields p (member "externalReferences" ExternalReference.encode s.externalReferences)
        { p with externalReferences := refs } := by
  rw [member]
  split
  · next hempty =>
    exact ⟨none, (List.isEmpty_iff.mp hempty).symm, by rw [← hfree]; exact .nil⟩
  · exact ⟨some s.externalReferences, rfl,
      .field rfl hfree (Encodes.list fun r _ => r.encodes) .nil⟩

theorem encodes (s : Summary) : Encodes reader s.encode s := by
  obtain ⟨refs, hrefs, hfills⟩ := s.fills_references
    (p := ({ targetSpace := some s.targetSpace } : Partial).after s Bucket.all) rfl
  have hnodup : Bucket.all.Nodup := by decide
  have hbuckets := s.fills_buckets hnodup (p := { targetSpace := some s.targetSpace }) (by simp)
    hfills
  refine Fills.encodes (.field rfl rfl (encodes_text s.targetSpace) hbuckets) ?_
  have hnames : (PerBucket.ofFn fun b => (if b ∈ Bucket.all ∧ s.names.get b ≠ [] then
      some (s.names.get b) else none).getD []) = s.names := by
    refine PerBucket.ext fun b => ?_
    rw [PerBucket.get_ofFn]
    split
    · rfl
    · next h => exact (Classical.not_not.mp fun hne => h ⟨Bucket.mem_all b, hne⟩).symm
  simp [Partial.finish, Partial.after, hrefs, hnames]

/-- A list has a member if it is not empty. -/
theorem mem_keys_member {α : Type} {key key' : String} {encode : α → Json} {items : List α} :
    key' ∈ (member key encode items).map (·.1) ↔ key' = key ∧ items ≠ [] := by
  rw [member]
  split
  · next h => simp [List.isEmpty_iff.mp h]
  · next h => simpa using fun _ => by simpa using h

/-- The keys of a written summary are the namespace and the lists that are not empty. -/
theorem mem_keys_encode {s : Summary} {key : String} :
    key ∈ s.encode.keys ↔ key = "targetNamespace" ∨
      (∃ b : Bucket, key = b.name ∧ s.names.get b ≠ []) ∨
      (key = "externalReferences" ∧ s.externalReferences ≠ []) := by
  have hmem : ∀ b : Bucket, b ∈ Bucket.all := Bucket.mem_all
  simp only [encode, Json.keys, List.map_append, List.map_cons, List.map_flatMap, List.mem_append,
    List.mem_cons, List.mem_flatMap, mem_keys_member, hmem, true_and, or_assoc]

/-- A bucket is written exactly when it lists a name. -/
theorem mem_keys_bucket (s : Summary) (b : Bucket) :
    b.name ∈ s.encode.keys ↔ s.names.get b ≠ [] := by
  have hspace : b.name ≠ "targetNamespace" := by cases b <;> decide
  have hreferences : b.name ≠ "externalReferences" := by cases b <;> decide
  have hname : ∀ c : Bucket, b.name = c.name ↔ b = c :=
    fun c => ⟨Bucket.name_injective, congrArg Bucket.name⟩
  simp [mem_keys_encode, hspace, hreferences, hname]

/-- The external references are written exactly when there are some. -/
theorem mem_keys_references (s : Summary) :
    "externalReferences" ∈ s.encode.keys ↔ s.externalReferences ≠ [] := by
  have hbucket : ∀ b : Bucket, "externalReferences" ≠ b.name := by intro b; cases b <;> decide
  simp [mem_keys_encode, hbucket]

end Summary

/-- The node of a finding is written exactly when there is one. -/
theorem Diagnostic.mem_keys_node (d : Diagnostic) : "node" ∈ d.encode.keys ↔ d.node.isSome := by
  cases h : d.node <;> simp [encode, Json.keys, h]

/-- **Summaries and notes are read back from what is written of them.**  A list
without elements and a node that is absent are not written, and come back as
such. -/
theorem decode_write (s : Summary) (ds : Diagnostics) (h : ∀ d ∈ ds.items, d.Addressed)
    (f : Settings.Format) :
    Json.decode Summary.reader (f.write s.encode) = .ok s ∧
      (∀ b : Bucket, b.name ∈ s.encode.keys ↔ s.names.get b ≠ []) ∧
      ("externalReferences" ∈ s.encode.keys ↔ s.externalReferences ≠ []) ∧
      Json.decode Diagnostics.reader (f.write ds.encode) = .ok ds ∧
      ∀ d ∈ ds.items, "node" ∈ d.encode.keys ↔ d.node.isSome :=
  ⟨s.encodes.decode f, s.mem_keys_bucket, s.mem_keys_references,
    (Diagnostics.encodes h).decode f, fun d _ => d.mem_keys_node⟩

/-- A name with a quote, a backslash, a line end and a control character, five
buckets that are empty, and a note without a node next to one that has a node. -/
theorem decode_write_control :
    let s : Summary :=
      { targetSpace := "urn:ä", names := (PerBucket.fill []).set .elements ["\"\\\n\x01"] }
    let ds : Diagnostics :=
      ⟨[.redefinition "urn:ä" .elements "\"\\\n\x01" ⟨7⟩, .unfetchedReference "urn:ä" "urn:b" "/"]⟩
    (∀ d ∈ ds.items, d.Addressed) ∧
      Json.decode Summary.reader s.encode.pretty = .ok s ∧ s.encode.keys.length = 2 ∧
      Json.decode Diagnostics.reader ds.encode.compact = .ok ds := by
  intro s ds
  have haddressed : ∀ d ∈ ds.items, d.Addressed := by
    have hsize : 7 < UInt64.size := by decide
    simpa [ds, Diagnostic.Addressed, Diagnostic.redefinition, Diagnostic.unfetchedReference]
      using hsize
  exact ⟨haddressed, (decode_write s ds haddressed .pretty).1, by decide,
    (decode_write s ds haddressed .compact).2.2.2.1⟩

end SchemaCatalog
