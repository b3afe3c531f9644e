import SchemaCatalog.Fragment.Bundle
import SchemaCatalog.Proofs.Files.Below
import SchemaCatalog.Proofs.Fragment.Outcome

/-!
# SchemaCatalog.Proofs.Fragment.Directory

Loading a directory: which files are taken, in which order, and what there is
when one of them cannot be loaded (`loadDirectory_in_order`).

Whether a file is taken depends on its place alone (`Takes`), and whether it can
be loaded on its content alone (`IsFragment`), so the files that are taken are
known before any of them is loaded.  They are loaded one by one (`LoadsEach`) up
to the first that is no fragment (`FailsOn`).
-/

namespace SchemaCatalog

open Files (Tree Selection Found Place)

/-! ## Files that are taken -/

namespace Files

/-- A file is taken: its name has the extension, and its path relative to the
directory begins like a wanted text, if there are any, and like no unwanted one. -/
structure Selection.Takes (s : Selection) (names : Place) : Prop where
  extension : extension? (names.getLast?.getD "") = some s.extension
  wanted : s.want = [] ∨ ∃ start ∈ s.want, start.toList <+: ("/".intercalate names).toList
  unskipped : ∀ start ∈ s.skip, ¬ start.toList <+: ("/".intercalate names).toList

/-- The selection accepts a file by its name and path exactly if it takes the place. -/
theorem Selection.accepts_iff {s : Selection} {names : Place} :
    s.accepts (names.getLast?.getD "") ("/".intercalate names) ↔ s.Takes names := by
  have hbegins (start : String) : beginsWith ("/".intercalate names) start ↔
      start.toList <+: ("/".intercalate names).toList := List.isPrefixOf_iff_prefix
  rw [accepts, Bool.and_eq_true_iff, Bool.and_eq_true_iff, decide_eq_true_iff, Bool.or_eq_true_iff,
    List.isEmpty_iff, List.any_eq_true, Bool.not_eq_true', List.any_eq_false]
  simp only [hbegins]
  exact ⟨fun h => ⟨h.1.1, h.1.2, h.2⟩, fun h => ⟨⟨h.extension, h.wanted⟩, h.unskipped⟩⟩

instance (s : Selection) (names : Place) : Decidable (s.Takes names) :=
  decidable_of_iff _ Selection.accepts_iff

/-- The files that are taken from below a directory, by the names that lead there. -/
def Tree.taken (t : Tree) (s : Selection) (place : Place) : List (Place × ByteArray) :=
  (t.below place).filter fun f => s.Takes f.1

def Found.of (path : String) (f : Place × ByteArray) : Found :=
  { path := f.1.foldl join path, content := f.2 }

/-- The files that are selected below a directory are those that are taken there. -/
theorem Tree.select_eq {t : Tree} {path : String} {place : Place} (s : Selection)
    (hplace : t.resolve path = .ok place) (hdir : t.get? place = some .directory) :
    t.select s path = (t.taken s place).map (Found.of path) := by
  rw [select, hplace]
  dsimp only
  rw [hdir, taken, ← List.filterMap_eq_map, List.filterMap_filter]
  refine List.filterMap_congr fun f _ => ?_
  by_cases htakes : s.Takes f.1
  · rw [if_pos (decide_eq_true htakes), if_pos (Selection.accepts_iff.mpr htakes)]
    rfl
  · have haccepts : ¬ s.accepts (f.1.getLast?.getD "") ("/".intercalate f.1) :=
      fun h => htakes (Selection.accepts_iff.mp h)
    rw [if_neg haccepts, if_neg (by simpa using htakes)]

/-- The taken files are the files below the place that the selection takes. -/
theorem Tree.mem_taken {t : Tree} {s : Selection} {place rest : Place} {content : ByteArray} :
    (rest, content) ∈ t.taken s place ↔
      Tree.leadsDown rest ∧ t.nodes.get? (place ++ rest) = some (.file content) ∧ s.Takes rest := by
  rw [taken, List.mem_filter, mem_below, decide_eq_true_iff, and_assoc]

theorem Tree.increasing_taken {t : Tree} {s : Selection} {place : Place} :
    Increasing (t.taken s place) :=
  increasing_below.filter _

/-- What is not taken has no say in what is. -/
theorem Tree.taken_congr {t t' : Tree} {s : Selection} {place : Place}
    (h : ∀ rest content, Tree.leadsDown rest → s.Takes rest →
      (t'.nodes.get? (place ++ rest) = some (.file content) ↔
        t.nodes.get? (place ++ rest) = some (.file content))) :
    t'.taken s place = t.taken s place := by
  refine ext_of_increasing increasing_taken increasing_taken fun rest content => ?_
  rw [mem_taken, mem_taken]
  refine and_congr_right fun hrest => ?_
  rw [and_comm, and_comm (b := s.Takes rest)]
  exact and_congr_right fun htakes => h rest content hrest htakes

end Files

/-! ## Files that are loaded -/

/-- The bytes are the text of a document that can be linked. -/
def IsFragment (content : ByteArray) : Prop :=
  ∃ text d, Tree.decode content = .ok text ∧ Document.ofText text = .ok d ∧ d.Linked

namespace Arena

/-- Files below a directory are loaded one after the other. -/
inductive LoadsEach (path : String) :
    Arena → List (Place × ByteArray) → Arena → List LoadedDocument → Prop
  | nil (a : Arena) : LoadsEach path a [] a []
  | cons {a b c : Arena} {f : Place × ByteArray} {files : List (Place × ByteArray)} {text : String}
    {root : NodeId} {ds : List LoadedDocument} (htext : Tree.decode f.2 = .ok text)
    (hload : a.load text = (b, .ok root)) (hrest : LoadsEach path b files c ds) :
    LoadsEach path a (f :: files) c ({ path := f.1.foldl Files.join path, text, root } :: ds)

/-- A file below a directory cannot be loaded: what it leaves in the arena, and
what is reported. -/
inductive FailsOn (path : String) (a : Arena) (f : Place × ByteArray) : Arena → LoadFailure → Prop
  | unreadable {fault : Files.Fault} (htext : Tree.decode f.2 = .error fault) :
    FailsOn path a f a (.unreadable (f.1.foldl Files.join path) fault)
  | unusable {b : Arena} {text : String} {cause : Error} (htext : Tree.decode f.2 = .ok text)
    (hload : a.load text = (b, .error cause)) :
    FailsOn path a f b (.unusable (f.1.foldl Files.join path) cause)

section

variable {path : String} {a b c : Arena} {f : Place × ByteArray} {files : List (Place × ByteArray)}
  {ds : List LoadedDocument}

/-- Whether a text can be loaded does not depend on the arena. -/
theorem exists_load_of_linked {text : String} {d : Document} (htext : Document.ofText text = .ok d)
    (hlinked : d.Linked) (a : Arena) : ∃ b root, a.load text = (b, .ok root) := by
  obtain ⟨root, hroot, -⟩ | ⟨defect, -, hbroken⟩ := Document.linked_or_broken d a
  · refine ⟨(d.load a).1, root, ?_⟩
    have hpair : d.load a = ((d.load a).1, .ok root) := by rw [← hroot]
    rw [load, htext]
    dsimp only
    rw [hpair]
  · exact absurd hlinked hbroken.not_linked

/-- Only a text that reads as a linked document loads. -/
theorem linked_of_load {text : String} {root : NodeId} (h : (a.load text).2 = .ok root) :
    ∃ d, Document.ofText text = .ok d ∧ d.Linked := by
  have hpair : a.load text = ((a.load text).1, .ok root) := by rw [← h]
  obtain ⟨d, hd, hload⟩ := exists_document_of_load hpair
  obtain ⟨-, -, hlinked⟩ | ⟨defect, hdefect, -⟩ := Document.linked_or_broken d a
  · exact ⟨d, hd, hlinked⟩
  · rw [hload] at hdefect
    contradiction

/-- A file loads only if its bytes are the text of a fragment. -/
theorem isFragment_of_loadText
    (h : (a.loadText path (Tree.decode f.2)).2.toOption.isSome) : IsFragment f.2 := by
  cases htext : Tree.decode f.2 with
  | error fault =>
      rw [htext] at h
      contradiction
  | ok text =>
      rw [htext, loadText] at h
      cases hload : a.load text with
      | mk b outcome =>
          rw [hload] at h
          cases outcome with
          | error cause => contradiction
          | ok root =>
              obtain ⟨d, hd, hlinked⟩ := linked_of_load (congrArg Prod.snd hload)
              exact ⟨text, d, htext, hd, hlinked⟩

/-- Fragments can be loaded one after the other, from every arena. -/
theorem exists_loadsEach (path : String) (h : ∀ f ∈ files, IsFragment f.2) (a : Arena) :
    ∃ b ds, LoadsEach path a files b ds := by
  induction files generalizing a with
  | nil => exact ⟨a, [], .nil a⟩
  | cons f files ih =>
      obtain ⟨⟨text, d, htext, hd, hlinked⟩, hfiles⟩ := List.forall_mem_cons.mp h
      obtain ⟨b, root, hload⟩ := exists_load_of_linked hd hlinked a
      obtain ⟨c, ds, hrest⟩ := ih hfiles b
      exact ⟨c, _, .cons htext hload hrest⟩

/-- What is no fragment fails, and leaves at most declarations that nothing else
knows of. -/
theorem exists_failsOn (path : String) (h : ¬ IsFragment f.2) (a : Arena) :
    ∃ b failure, FailsOn path a f b failure ∧ a.Annexed b := by
  cases htext : Tree.decode f.2 with
  | error fault => exact ⟨a, _, .unreadable htext, .refl a⟩
  | ok text =>
      have hannexed := annexed_load a text
      cases hload : a.load text with
      | mk b outcome =>
          rw [hload] at hannexed
          cases outcome with
          | error cause => exact ⟨b, _, .unusable htext hload, hannexed⟩
          | ok root =>
              obtain ⟨d, hd, hlinked⟩ := linked_of_load (congrArg Prod.snd hload)
              exact absurd ⟨text, d, htext, hd, hlinked⟩ h

/-- Files that can be loaded are loaded before what follows them. -/
theorem LoadsEach.loadFound (h : LoadsEach path a files b ds) (more : List Found) :
    a.loadFound (files.map (.of path) ++ more) =
      ((b.loadFound more).1, (b.loadFound more).2.map (ds ++ ·)) := by
  induction h with
  | nil a =>
      cases hmore : a.loadFound more with
      | mk b outcome =>
          cases outcome with
          | error failure => simp [hmore, Except.map]
          | ok ds => simp [hmore, Except.map]
  | @cons a b c f files text root ds htext hload hrest ih =>
      have hfirst : a.loadText (Found.of path f).path (Tree.decode (Found.of path f).content) =
          (b, .ok { path := f.1.foldl Files.join path, text, root }) := by
        simp only [Found.of, loadText, htext, hload]
      simp only [List.map_cons, List.cons_append, Arena.loadFound, hfirst, ih]
      cases (c.loadFound more).2 with
      | error failure => rfl
      | ok ds' => rfl

/-- Nothing behind a file that cannot be loaded is looked at. -/
theorem FailsOn.loadFound {failure : LoadFailure} (h : FailsOn path a f b failure)
    (more : List Found) : a.loadFound (.of path f :: more) = (b, .error failure) := by
  have hfirst : a.loadText (Found.of path f).path (Tree.decode (Found.of path f).content) =
      (b, .error failure) := by
    cases h with
    | unreadable htext => simp only [Found.of, loadText, htext]
    | unusable htext hload => simp only [Found.of, loadText, htext, hload]
  simp only [Arena.loadFound, hfirst]

/-- Each loaded document has the text of its file. -/
theorem LoadsEach.texts (h : LoadsEach path a files b ds) :
    files.map (fun f => Tree.decode f.2) = ds.map fun d => .ok d.text := by
  induction h with
  | nil a => rfl
  | cons htext hload hrest ih =>
      rw [List.map_cons, List.map_cons, htext, ih]

/-- Each loaded document is listed under the path of its file. -/
theorem LoadsEach.paths (h : LoadsEach path a files b ds) :
    ds.map (·.path) = files.map (·.1.foldl Files.join path) := by
  induction h with
  | nil a => rfl
  | cons htext hload hrest ih => exact congrArg (_ :: ·) ih

end

/-! ## Directories -/

section

variable {t : Tree} {s : Selection} {path : String} {place : Place}

/-- Loading a directory loads the files that are taken there, in their order. -/
theorem loadDirectory_eq (a : Arena) (s : Selection) (hplace : t.resolve path = .ok place)
    (hdir : t.get? place = some .directory) :
    a.loadDirectory t s path = a.loadFound ((t.taken s place).map (.of path)) := by
  rw [loadDirectory, Tree.select_eq s hplace hdir]

/-- Files that are fragments end up as one document each. -/
theorem exists_loadDirectory (a : Arena) (hplace : t.resolve path = .ok place)
    (hdir : t.get? place = some .directory) (h : ∀ f ∈ t.taken s place, IsFragment f.2) :
    ∃ b ds, LoadsEach path a (t.taken s place) b ds ∧ a.loadDirectory t s path = (b, .ok ds) := by
  obtain ⟨b, ds, hloads⟩ := exists_loadsEach path h a
  refine ⟨b, ds, hloads, ?_⟩
  have hfound := hloads.loadFound []
  rw [List.append_nil] at hfound
  rw [loadDirectory_eq a s hplace hdir, hfound]
  simp [loadFound, Except.map]

/-- The first file that is no fragment ends the work. -/
theorem exists_loadDirectory_error (a : Arena) (hplace : t.resolve path = .ok place)
    (hdir : t.get? place = some .directory) {before after : List (Place × ByteArray)}
    {bad : Place × ByteArray} (hfiles : t.taken s place = before ++ bad :: after)
    (hbefore : ∀ f ∈ before, IsFragment f.2) (hbad : ¬ IsFragment bad.2) :
    ∃ b ds c failure, LoadsEach path a before b ds ∧ FailsOn path b bad c failure ∧ b.Annexed c ∧
      a.loadDirectory t s path = (c, .error failure) := by
  obtain ⟨b, ds, hloads⟩ := exists_loadsEach path hbefore a
  obtain ⟨c, failure, hfails, hannexed⟩ := exists_failsOn path hbad b
  refine ⟨b, ds, c, failure, hloads, hfails, hannexed, ?_⟩
  rw [loadDirectory_eq a s hplace hdir, hfiles, List.map_append, List.map_cons, hloads.loadFound,
    hfails.loadFound]
  rfl

/-- What is no fragment comes first somewhere. -/
theorem exists_first {files : List (Place × ByteArray)} (h : ∃ f ∈ files, ¬ IsFragment f.2) :
    ∃ before bad after, files = before ++ bad :: after ∧ (∀ f ∈ before, IsFragment f.2) ∧
      ¬ IsFragment bad.2 := by
  induction files with
  | nil => simp at h
  | cons f files ih =>
      by_cases hf : IsFragment f.2
      · obtain ⟨g, hg, hbad⟩ := h
        have hfiles : g ∈ files := (List.mem_cons.mp hg).resolve_left fun heq => hbad (heq ▸ hf)
        obtain ⟨before, bad, after, rfl, hbefore, hbad⟩ := ih ⟨g, hfiles, hbad⟩
        exact ⟨f :: before, bad, after, rfl, List.forall_mem_cons.mpr ⟨hf, hbefore⟩, hbad⟩
      · exact ⟨[], f, files, rfl, by simp, hf⟩

end

/-- **A directory is loaded in the order of its places.**  The files that are
taken are those that a walk meets, entries by name, and that the selection
takes: exactly the ones below the directory, each once, in the order of their
names one by one.  If all of them are fragments, then there is one document for
each; otherwise the first that is none is reported, and the ones before it have
been loaded.  Nothing else below the directory matters. -/
theorem loadDirectory_in_order (a : Arena) (t : Tree) (s : Selection) (path : String)
    {place : Place} {met : List (Place × Files.Node)} (hplace : t.resolve path = .ok place)
    (hdir : t.get? place = some .directory) (hregular : t.Regular place)
    (hmet : t.Meets place .directory met) :
    ∃ files : List (Place × ByteArray),
      files = (met.filterMap (Tree.fileFrom place)).filter (fun f => s.Takes f.1) ∧
      (∀ rest content, (rest, content) ∈ files ↔
        Tree.leadsDown rest ∧ t.nodes.get? (place ++ rest) = some (.file content) ∧ s.Takes rest) ∧
      files.Pairwise (fun f g => f.1 < g.1) ∧
      ((∀ f ∈ files, IsFragment f.2) →
        ∃ b ds, a.loadDirectory t s path = (b, .ok ds) ∧ LoadsEach path a files b ds ∧
          ds.map (·.path) = files.map (·.1.foldl Files.join path) ∧
          files.map (fun f => Tree.decode f.2) = ds.map (fun d => .ok d.text) ∧
          Bundle.imprint Digest.hex (.directory ds) =
            Digest.hex (String.join (ds.map (·.text)))) ∧
      ((∃ f ∈ files, ¬ IsFragment f.2) →
        ∃ before bad after, files = before ++ bad :: after ∧ (∀ f ∈ before, IsFragment f.2) ∧
          ¬ IsFragment bad.2 ∧
          ∃ b ds c failure, a.loadDirectory t s path = (c, .error failure) ∧
            LoadsEach path a before b ds ∧ FailsOn path b bad c failure ∧ b.Annexed c) ∧
      ∀ t', t'.resolve path = .ok place → t'.get? place = some .directory →
        (∀ rest content, Tree.leadsDown rest → s.Takes rest →
          (t'.nodes.get? (place ++ rest) = some (.file content) ↔
            t.nodes.get? (place ++ rest) = some (.file content))) →
        a.loadDirectory t' s path = a.loadDirectory t s path := by
  refine ⟨t.taken s place, ?_, fun rest content => Tree.mem_taken, ?_, fun hall => ?_,
    fun hsome => ?_, fun t' hplace' hdir' hsame => ?_⟩
  · rw [Tree.taken, Tree.below_eq_of_meets hmet hregular]
  · exact Tree.increasing_taken.imp Files.compare_eq_lt.mp
  · obtain ⟨b, ds, hloads, hload⟩ := exists_loadDirectory a hplace hdir hall
    exact ⟨b, ds, hload, hloads, hloads.paths, hloads.texts, rfl⟩
  · obtain ⟨before, bad, after, hfiles, hbefore, hbad⟩ := exists_first hsome
    obtain ⟨b, ds, c, failure, hloads, hfails, hannexed, hload⟩ :=
      exists_loadDirectory_error a hplace hdir hfiles hbefore hbad
    exact ⟨before, bad, after, hfiles, hbefore, hbad, b, ds, c, failure, hload, hloads, hfails,
      hannexed⟩
  · rw [loadDirectory_eq a s hplace hdir, loadDirectory_eq a s hplace' hdir',
      Tree.taken_congr hsame]

/-- A directory with names that begin alike, and with files that are not taken. -/
def interleaved : Tree :=
  [(["d", "a.json"], "\x7b\"kind\":\"element\"\x7d"),
    (["d", "a", "x.json"], "\x7b\"kind\":\"schema\"\x7d"),
    (["d", "a-b", "y.json"], "\x7b\"kind\":\"group\"\x7d"),
    (["d", "notes.txt"], "\x7b"),
    (["d", "target", "z.json"], "\x7b")].foldl (fun t f => t.plant f.1 (.file f.2.toUTF8)) {}

/-- A directory comes before the one whose name goes on with `-`, and both before
the file whose name goes on with `.`, whatever they hold. -/
theorem loadDirectory_in_order_interleaved :
    interleaved.resolve "d" = .ok ["d"] ∧ interleaved.get? ["d"] = some .directory ∧
      interleaved.Regular ["d"] ∧
      ∃ b ds, Arena.loadDirectory ∅ interleaved { skip := ["target/"] } "d" = (b, .ok ds) ∧
        ds.map (·.path) = ["d/a/x.json", "d/a-b/y.json", "d/a.json"] := by
  have hplace : interleaved.resolve "d" = .ok ["d"] := by decide +kernel
  have hdir : interleaved.get? ["d"] = some .directory :=
    Tree.eq_directory_of_any (by decide +kernel)
  have hregular : interleaved.Regular ["d"] := Tree.regular_of_keys (by decide +kernel)
  obtain ⟨met, hmet⟩ := interleaved.exists_meets ["d"] .directory
  obtain ⟨files, hfiles, -, -, hloads, -, -⟩ :=
    loadDirectory_in_order ∅ interleaved { skip := ["target/"] } "d" hplace hdir hregular hmet
  rw [← Tree.below_eq_of_meets hmet hregular] at hfiles
  have hfragments : ∀ f ∈ files, IsFragment f.2 := by
    have hloaded : ∀ f ∈ interleaved.taken { skip := ["target/"] } ["d"],
        ((∅ : Arena).loadText "" (Tree.decode f.2)).2.toOption.isSome := by
      decide +kernel
    rw [hfiles]
    exact fun f hf => isFragment_of_loadText (hloaded f hf)
  obtain ⟨b, ds, hload, -, hpaths, -, -⟩ := hloads hfragments
  refine ⟨hplace, hdir, hregular, b, ds, hload, ?_⟩
  rw [hpaths, hfiles]
  decide +kernel

end Arena

end SchemaCatalog
