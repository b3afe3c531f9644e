import Mathlib.Data.List.Nodup
import Mathlib.Data.Set.Function
import SchemaCatalog.Fragment.Bundle
import SchemaCatalog.Proofs.Json.Delimited

/-!
# SchemaCatalog.Proofs.Fragment.Hashing

What the hash of a bundle says about its documents.  The texts of the files are
hashed one behind the other, with nothing in between, and a directory counts
with the digest of its own texts.  Still the files can be told apart: the text
of a document is one value in brackets, which ends itself, and a digest neither
begins with a bracket nor is shorter or longer than others.  So if no two of the
texts that were hashed have the same digest, then bundles of the same hash hold
the same documents, one by one, but for blanks around them
(`documents_of_hash_eq`).
-/

namespace SchemaCatalog

open Json (SameButBlanks)
open Json.Draft (skipSpace)

/-! ## digests -/

namespace Text

def hexDigits : List Char := "0123456789abcdef".toList

theorem hexDigit_mem (n : Nat) : hexDigit n ∈ hexDigits := by
  rw [hexDigit, List.getD_eq_getElem?_getD]
  cases hc : "0123456789abcdef".toList[n]? with
  | none => decide
  | some c => exact List.mem_of_getElem? hc

theorem length_toHex (width n : Nat) : (toHex width n).toList.length = width := by
  simp [toHex]

/-- A number in hexadecimal has hexadecimal digits only. -/
theorem mem_toHex {width n : Nat} {c : Char} (h : c ∈ (toHex width n).toList) : c ∈ hexDigits := by
  rw [toHex, String.toList_ofList] at h
  obtain ⟨i, -, rfl⟩ := List.mem_map.mp h
  exact hexDigit_mem _

end Text

namespace Digest

/-- The hash of a text is the words of its digest, each in eight digits. -/
theorem toList_hex (text : String) :
    (hex text).toList =
      (digest text.toUTF8).words.flatMap fun w => (Text.toHex 8 w.toNat).toList := by
  rw [hex, String.toList_join, List.flatMap_map]

/-- Digests are all of the same length. -/
theorem length_hex (text : String) : (hex text).toList.length = 64 := by
  simp only [toList_hex, List.length_flatMap, Text.length_toHex]
  rfl

theorem mem_hex {text : String} {c : Char} (h : c ∈ (hex text).toList) : c ∈ Text.hexDigits := by
  rw [toList_hex] at h
  obtain ⟨w, -, hc⟩ := List.mem_flatMap.mp h
  exact Text.mem_toHex hc

/-- A digest begins with a digit. -/
theorem exists_hex_eq_cons (text : String) (more : List Char) :
    ∃ c cs, c ∈ Text.hexDigits ∧ (hex text).toList ++ more = c :: cs := by
  cases hcs : (hex text).toList with
  | nil =>
      have hlength := length_hex text
      simp [hcs] at hlength
  | cons c cs =>
      have hc : c ∈ (hex text).toList := by
        rw [hcs]
        exact List.mem_cons_self
      exact ⟨c, cs ++ more, mem_hex hc, rfl⟩

/-- No hash starts with space. -/
theorem skipSpace_hex (text : String) (more : List Char) :
    skipSpace ((hex text).toList ++ more) = (hex text).toList ++ more := by
  obtain ⟨c, cs, hc, heq⟩ := exists_hex_eq_cons text more
  have hdigits : (Text.hexDigits.all (! Json.Draft.isSpace ·)) = true := by decide
  have hspace := List.all_eq_true.mp hdigits c hc
  rw [heq, skipSpace, List.dropWhile_cons_of_neg (by simpa using hspace)]

/-- A digest is not mistaken for a value in brackets. -/
theorem hex_ne_bracket (text : String) (more cs : List Char) :
    (hex text).toList ++ more ≠ '[' :: cs ∧ (hex text).toList ++ more ≠ '\x7b' :: cs := by
  obtain ⟨c, cs', hc, heq⟩ := exists_hex_eq_cons text more
  rw [heq]
  constructor
  · intro h
    obtain ⟨rfl, -⟩ := List.cons_eq_cons.mp h
    exact absurd hc (by decide)
  · intro h
    obtain ⟨rfl, -⟩ := List.cons_eq_cons.mp h
    exact absurd hc (by decide)

end Digest

/-! ## documents of bundles -/

namespace LoadedDocument

/-- The text of the document is a fragment. -/
def Sound (d : LoadedDocument) : Prop := ∃ doc, Document.ofText d.text = .ok doc

/-- The documents hold the same fragment, in texts that are the same but for
blanks around it. -/
structure SameFragment (d d' : LoadedDocument) : Prop where
  texts : SameButBlanks d.text.toList d'.text.toList
  fragments : ∃ doc, Document.ofText d.text = .ok doc ∧ Document.ofText d'.text = .ok doc

/-- The text of a loaded document starts with a bracket, after its space. -/
theorem Sound.bracket {d : LoadedDocument} (h : d.Sound) (more : List Char) :
    ∃ cs, skipSpace (d.text.toList ++ more) = '[' :: cs ∨
      skipSpace (d.text.toList ++ more) = '\x7b' :: cs := by
  obtain ⟨doc, hdoc⟩ := h
  exact Json.bracket_of_decode (fun _ _ => Json.Reader.sealed_of_record) hdoc more

/-- The text of a document is not blank. -/
theorem Sound.skipSpace_ne_nil {d : LoadedDocument} (h : d.Sound) (more : List Char) :
    skipSpace (d.text.toList ++ more) ≠ [] := by
  obtain ⟨cs, hcs | hcs⟩ := h.bracket more
  · rw [hcs]
    exact List.cons_ne_nil _ _
  · rw [hcs]
    exact List.cons_ne_nil _ _

/-- **Documents in a row** can be told apart, blanks aside. -/
theorem Sound.same {d d' : LoadedDocument} (h : d.Sound) (h' : d'.Sound) {more more' : List Char}
    (heq : skipSpace (d.text.toList ++ more) = skipSpace (d'.text.toList ++ more')) :
    d.SameFragment d' ∧ skipSpace more = skipSpace more' := by
  obtain ⟨doc, hdoc⟩ := h
  obtain ⟨doc', hdoc'⟩ := h'
  obtain ⟨htexts, rfl, hmore⟩ :=
    Json.same_of_decode (fun _ _ => Json.Reader.sealed_of_record) hdoc hdoc' heq
  exact ⟨⟨htexts, doc, hdoc, hdoc'⟩, hmore⟩

end LoadedDocument

namespace Arena

open Files (Tree Selection Found)

variable {a b : Arena} {tree : Tree} {s : Selection}

/-- A text that loads is recorded with its hash. -/
theorem sound_of_loadText {path : String} {text : Except Files.Fault String} {d : LoadedDocument}
    (h : a.loadText path text = (b, .ok d)) : d.Sound := by
  cases text with
  | error fault => simp [loadText] at h
  | ok text =>
      cases hload : a.load text with
      | mk a' outcome =>
          cases outcome with
          | error cause => simp [loadText, hload] at h
          | ok root =>
              simp only [loadText, hload, Prod.mk.injEq, Except.ok.injEq] at h
              obtain ⟨-, rfl⟩ := h
              rw [load] at hload
              split at hload
              · simp at hload
              · next doc hdoc => exact ⟨doc, hdoc⟩

/-- What is made of an outcome comes of a success if it is one. -/
theorem exists_of_map {ε α β : Type} {x : Arena × Except ε α} {f : α → β} {y : β}
    (h : (x.1, x.2.map f) = (b, .ok y)) : ∃ z, x = (b, .ok z) ∧ f z = y := by
  obtain ⟨a, outcome⟩ := x
  cases outcome with
  | error e => simp [Except.map] at h
  | ok z =>
      simp only [Except.map, Prod.mk.injEq, Except.ok.injEq] at h
      obtain ⟨rfl, rfl⟩ := h
      exact ⟨z, rfl, rfl⟩

/-- Each document loaded from a directory is recorded with its hash. -/
theorem sound_of_loadFound {found : List Found} {ds : List LoadedDocument}
    (h : a.loadFound found = (b, .ok ds)) : ∀ d ∈ ds, d.Sound := by
  induction found generalizing a ds with
  | nil =>
      obtain ⟨-, rfl⟩ : a = b ∧ [] = ds := by simpa [loadFound] using h
      simp
  | cons f found ih =>
      rw [loadFound] at h
      split at h
      · simp at h
      · next a' d hd =>
        obtain ⟨rest, hrest, rfl⟩ := exists_of_map (x := a'.loadFound found) h
        exact List.forall_mem_cons.mpr ⟨sound_of_loadText hd, ih hrest⟩

/-- Each document loaded from a path is recorded with its hash. -/
theorem sound_of_loadPath {path : String} {p : Piece} (h : a.loadPath tree s path = (b, .ok p)) :
    ∀ d ∈ p.documents, d.Sound := by
  rw [loadPath] at h
  split at h
  · obtain ⟨ds, hds, rfl⟩ := exists_of_map (x := a.loadDirectory tree s path) h
    exact sound_of_loadFound hds
  · obtain ⟨d, hd, rfl⟩ := exists_of_map (x := a.loadFile tree path) h
    intro e he
    rw [List.mem_singleton.mp he]
    exact sound_of_loadText hd

/-- Each document loaded from a list of paths is recorded with its hash. -/
theorem sound_of_loadPieces {paths : List String} {ps : List Piece}
    (h : a.loadPieces tree s paths = (b, .ok ps)) : ∀ p ∈ ps, ∀ d ∈ p.documents, d.Sound := by
  induction paths generalizing a ps with
  | nil =>
      obtain ⟨-, rfl⟩ : a = b ∧ [] = ps := by simpa [loadPieces] using h
      simp
  | cons path paths ih =>
      rw [loadPieces] at h
      split at h
      · simp at h
      · next a' p hp =>
        obtain ⟨rest, hrest, rfl⟩ := exists_of_map (x := a'.loadPieces tree s paths) h
        exact List.forall_mem_cons.mpr ⟨sound_of_loadPath hp, ih hrest⟩

end Arena

/-! ## texts and pieces in a row -/

open LoadedDocument (SameFragment)

/-- What can be told apart with anything behind it can be told apart in a row. -/
theorem forall₂_of_row {α : Type} {P : α → Prop} {R : α → α → Prop} {print : α → List Char}
    (hne : ∀ x, P x → ∀ more, skipSpace (print x ++ more) ≠ [])
    (hsame : ∀ x x', P x → P x' → ∀ more more',
      skipSpace (print x ++ more) = skipSpace (print x' ++ more') →
        R x x' ∧ skipSpace more = skipSpace more')
    {xs xs' : List α} (h : ∀ x ∈ xs, P x) (h' : ∀ x ∈ xs', P x)
    (heq : skipSpace (xs.flatMap print) = skipSpace (xs'.flatMap print)) :
    List.Forall₂ R xs xs' := by
  induction xs generalizing xs' with
  | nil =>
      cases xs' with
      | nil => exact .nil
      | cons x' xs' =>
          rw [List.flatMap_cons] at heq
          exact absurd heq.symm (hne x' (h' x' List.mem_cons_self) _)
  | cons x xs ih =>
      rw [List.forall_mem_cons] at h
      cases xs' with
      | nil =>
          rw [List.flatMap_cons] at heq
          exact absurd heq (hne x h.1 _)
      | cons x' xs' =>
          rw [List.forall_mem_cons] at h'
          rw [List.flatMap_cons, List.flatMap_cons] at heq
          obtain ⟨hfirst, hmore⟩ := hsame x x' h.1 h'.1 _ _ heq
          exact .cons hfirst (ih h.2 h'.2 hmore)

/-- Documents whose texts stand in the same row are the same. -/
theorem LoadedDocument.forall₂_of_texts {ds ds' : List LoadedDocument} (h : ∀ d ∈ ds, d.Sound)
    (h' : ∀ d ∈ ds', d.Sound)
    (heq : skipSpace (ds.flatMap (·.text.toList)) = skipSpace (ds'.flatMap (·.text.toList))) :
    List.Forall₂ SameFragment ds ds' :=
  forall₂_of_row (fun _ hd => hd.skipSpace_ne_nil) (fun _ _ hd hd' _ _ => hd.same hd') h h' heq

namespace Piece

/-- The texts of a piece that are hashed by themselves. -/
def digested : Piece → List String
  | file _ => []
  | directory ds => [String.join (ds.map (·.text))]

/-- What a piece adds to the text that is hashed, as characters. -/
def print (p : Piece) : List Char := (Bundle.imprint Digest.hex p).toList

/-- The documents of the piece are fragments. -/
def Sound (p : Piece) : Prop := ∀ d ∈ p.documents, d.Sound

/-- A piece is never blank. -/
theorem Sound.skipSpace_ne_nil {p : Piece} (h : p.Sound) (more : List Char) :
    skipSpace (p.print ++ more) ≠ [] := by
  cases p with
  | file d => exact (h d (List.mem_singleton.mpr rfl)).skipSpace_ne_nil more
  | directory ds =>
      obtain ⟨c, cs, -, hcs⟩ := Digest.exists_hex_eq_cons (String.join (ds.map (·.text))) more
      rw [print, Bundle.imprint, Digest.skipSpace_hex, hcs]
      exact List.cons_ne_nil c cs

/-- A file does not look like a directory. -/
theorem file_ne_directory {d : LoadedDocument} (hd : d.Sound) (ds : List LoadedDocument)
    (more more' : List Char) :
    skipSpace ((file d).print ++ more) ≠ skipSpace ((directory ds).print ++ more') := by
  obtain ⟨cs, hcs⟩ := hd.bracket more
  have hne := Digest.hex_ne_bracket (String.join (ds.map (·.text))) more' cs
  rw [print, print, Bundle.imprint, Bundle.imprint, Digest.skipSpace_hex]
  rcases hcs with hcs | hcs
  · rw [hcs]
    exact hne.1.symm
  · rw [hcs]
    exact hne.2.symm

/-- **Pieces in a row** can be told apart, if no two of the texts that are hashed
by themselves have the same digest. -/
theorem Sound.same {p p' : Piece} (h : p.Sound) (h' : p'.Sound) {S : Set String}
    (hinj : Set.InjOn Digest.hex S) (hS : ∀ t ∈ p.digested, t ∈ S) (hS' : ∀ t ∈ p'.digested, t ∈ S)
    {more more' : List Char} (heq : skipSpace (p.print ++ more) = skipSpace (p'.print ++ more')) :
    List.Forall₂ SameFragment p.documents p'.documents ∧ skipSpace more = skipSpace more' := by
  cases p with
  | file d =>
      have hd : d.Sound := h d (List.mem_singleton.mpr rfl)
      cases p' with
      | file d' =>
          obtain ⟨hsame, hmore⟩ := hd.same (h' d' (List.mem_singleton.mpr rfl)) heq
          exact ⟨.cons hsame .nil, hmore⟩
      | directory ds' => exact absurd heq (file_ne_directory hd ds' more more')
  | directory ds =>
      cases p' with
      | file d' =>
          have hd' : d'.Sound := h' d' (List.mem_singleton.mpr rfl)
          exact absurd heq.symm (file_ne_directory hd' ds more' more)
      | directory ds' =>
          rw [print, print, Bundle.imprint, Bundle.imprint, Digest.skipSpace_hex,
            Digest.skipSpace_hex] at heq
          obtain ⟨hdigest, rfl⟩ := List.append_inj heq
            ((Digest.length_hex _).trans (Digest.length_hex _).symm)
          have hjoin := hinj (hS _ (List.mem_singleton.mpr rfl)) (hS' _ (List.mem_singleton.mpr rfl))
            (String.toList_injective hdigest)
          have htexts := congrArg String.toList hjoin
          rw [String.toList_join, String.toList_join, List.flatMap_map, List.flatMap_map] at htexts
          exact ⟨LoadedDocument.forall₂_of_texts h h' (congrArg skipSpace htexts), rfl⟩

/-- Pieces in the same row hold the same documents. -/
theorem forall₂_of_prints {ps ps' : List Piece} (h : ∀ p ∈ ps, p.Sound) (h' : ∀ p ∈ ps', p.Sound)
    {S : Set String} (hinj : Set.InjOn Digest.hex S) (hS : ∀ p ∈ ps, ∀ t ∈ p.digested, t ∈ S)
    (hS' : ∀ p ∈ ps', ∀ t ∈ p.digested, t ∈ S)
    (heq : skipSpace (ps.flatMap print) = skipSpace (ps'.flatMap print)) :
    List.Forall₂ SameFragment (ps.flatMap (·.documents)) (ps'.flatMap (·.documents)) := by
  have hpieces := forall₂_of_row (P := fun p => p.Sound ∧ ∀ t ∈ p.digested, t ∈ S)
    (R := fun p p' => List.Forall₂ SameFragment p.documents p'.documents)
    (fun _ hp => hp.1.skipSpace_ne_nil) (fun _ _ hp hp' _ _ => hp.1.same hp'.1 hinj hp.2 hp'.2)
    (fun p hp => ⟨h p hp, hS p hp⟩) (fun p hp => ⟨h' p hp, hS' p hp⟩) heq
  exact List.rel_flatMap hpieces fun _ _ => id

end Piece

/-! ## bundles -/

namespace Bundle

open Files (Tree Selection)

/-- All texts that are hashed for a bundle: that of the bundle and those of its
directories. -/
def digested (b : Bundle) : List String :=
  String.join (b.pieces.map (imprint Digest.hex)) :: b.pieces.flatMap (·.digested)

/-- The bundles of successful runs, over any files and from any arena: of all
files below a directory, or of paths to files and directories. -/
inductive Loaded : Bundle → Prop
  | directory {a a' : Arena} {tree : Tree} {s : Selection} {path : String}
    {ds : List LoadedDocument} (h : a.loadDirectory tree s path = (a', .ok ds)) :
    Loaded ⟨ds.map .file⟩
  | paths {a a' : Arena} {tree : Tree} {s : Selection} {paths : List String} {b : Bundle}
    (h : a.loadPaths tree s paths = (a', .ok b)) : Loaded b

/-- Whatever has been loaded is a fragment. -/
theorem Loaded.sound {b : Bundle} (h : b.Loaded) : ∀ p ∈ b.pieces, p.Sound := by
  cases h with
  | directory h =>
      intro p hp
      obtain ⟨d, hd, rfl⟩ := List.mem_map.mp hp
      intro e he
      rw [List.mem_singleton.mp he]
      exact Arena.sound_of_loadFound h d hd
  | @paths a a' tree s paths b h =>
      obtain ⟨ps, hps, rfl⟩ := Arena.exists_of_map (x := a.loadPieces tree s paths) h
      exact Arena.sound_of_loadPieces hps

/-- What is hashed for a list of pieces is their prints, one after the other. -/
theorem toList_join_imprint (ps : List Piece) :
    (String.join (ps.map (imprint Digest.hex))).toList = ps.flatMap Piece.print := by
  rw [String.toList_join, List.flatMap_map]
  rfl

/-- **The hash of a bundle tells its documents.**  If no two of the texts that
are hashed for two bundles have the same digest, then bundles of the same hash
have the same number of documents, and position by position these hold the same
fragment, in texts that are the same but for blanks around it. -/
theorem documents_of_hash_eq {b b' : Bundle} (h : b.Loaded) (h' : b'.Loaded)
    (hinj : Set.InjOn Digest.hex {t | t ∈ b.digested ++ b'.digested}) (heq : b.hash = b'.hash) :
    b.documents.length = b'.documents.length ∧
      List.Forall₂ LoadedDocument.SameFragment b.documents b'.documents := by
  have hjoin := hinj (List.mem_append_left _ List.mem_cons_self)
    (List.mem_append_right _ List.mem_cons_self) heq
  have hprints := congrArg String.toList hjoin
  rw [toList_join_imprint, toList_join_imprint] at hprints
  have hsame := Piece.forall₂_of_prints h.sound h'.sound hinj
    (fun p hp t ht => List.mem_append_left _
      (List.mem_cons_of_mem _ (List.mem_flatMap.mpr ⟨p, hp, ht⟩)))
    (fun p hp t ht => List.mem_append_right _
      (List.mem_cons_of_mem _ (List.mem_flatMap.mpr ⟨p, hp, ht⟩)))
    (congrArg skipSpace hprints)
  exact ⟨hsame.length_eq, hsame⟩

/-! ## a line break that has moved -/

/-- A directory with two files that hold the texts given, and a file beside it. -/
def movedTree (first second : String) : Tree :=
  ((({} : Tree).plant ["d", "a.json"] (.file first.toUTF8)).plant ["d", "b.json"]
    (.file second.toUTF8)).plant ["e.json"] (.file "\x7b\"kind\":\"schema\"\x7d".toUTF8)

def movedBundle (first second : String) : Bundle where
  pieces := [
    .directory [⟨"d/a.json", first, ⟨0⟩⟩, ⟨"d/b.json", second, ⟨1⟩⟩],
    .file ⟨"e.json", "\x7b\"kind\":\"schema\"\x7d", ⟨2⟩⟩]

/-- The bundle in which a line break stands at the end of the first file. -/
def brokenBehind : Bundle :=
  movedBundle "\x7b\"kind\":\"schema\"\x7d\n" "\x7b\"kind\":\"element\"\x7d"

def brokenBefore : Bundle :=
  movedBundle "\x7b\"kind\":\"schema\"\x7d" "\n\x7b\"kind\":\"element\"\x7d"

theorem loaded_brokenBehind : brokenBehind.Loaded := by
  have hload : ((∅ : Arena).loadPaths
      (movedTree "\x7b\"kind\":\"schema\"\x7d\n" "\x7b\"kind\":\"element\"\x7d") {}
      ["d", "e.json"]).2 = .ok brokenBehind := by
    decide +kernel
  exact .paths (Prod.ext rfl hload)

theorem loaded_brokenBefore : brokenBefore.Loaded := by
  have hload : ((∅ : Arena).loadPaths
      (movedTree "\x7b\"kind\":\"schema\"\x7d" "\n\x7b\"kind\":\"element\"\x7d") {}
      ["d", "e.json"]).2 = .ok brokenBefore := by
    decide +kernel
  exact .paths (Prod.ext rfl hload)

/-- Bundles in which a line break stands at the end of one file or at the
beginning of the next have the same hash. -/
theorem documents_of_hash_eq_moved :
    brokenBehind.Loaded ∧ brokenBefore.Loaded ∧ brokenBehind.hash = brokenBefore.hash ∧
      brokenBehind ≠ brokenBefore ∧
      brokenBehind.documents.length = brokenBefore.documents.length ∧
      List.Forall₂ LoadedDocument.SameFragment brokenBehind.documents brokenBefore.documents := by
  have hdigested : brokenBefore.digested = brokenBehind.digested := rfl
  have hdiffer : (brokenBehind.digested.map Digest.hex).Nodup := by decide +kernel
  have hinj : Set.InjOn Digest.hex {t | t ∈ brokenBehind.digested ++ brokenBefore.digested} := by
    rw [hdigested]
    intro t ht t' ht' heq
    exact List.inj_on_of_nodup_map hdiffer ((List.mem_append.mp ht).elim id id)
      ((List.mem_append.mp ht').elim id id) heq
  have hhash : brokenBehind.hash = brokenBefore.hash := rfl
  exact ⟨loaded_brokenBehind, loaded_brokenBefore, hhash, by decide,
    documents_of_hash_eq loaded_brokenBehind loaded_brokenBefore hinj hhash⟩

end Bundle

end SchemaCatalog
