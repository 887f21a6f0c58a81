import DeltaForest.Examples.Shelf
import DeltaForest.LanguageFile
import DeltaForest.Proofs.Items
import DeltaForest.Proofs.JsonTexts
import DeltaForest.Proofs.Lookup
import DeltaForest.Proofs.Shapes

/-!
# Languages come back from files

Every language can be written as JSON and is read back as it was, whatever its classifiers and
features are (`Language.returns`): the kind of a feature stands among its fields, but not among
those of its type of values, and what may be left out is always written. A list of languages is
never taken for one language, since the first item of a list would have to be its key and is no
text (`ofData_languages`).

So loading files registers the languages in them one by one, in their order, however they are
spread over the files. If one of them is refused, then it is the one that would be refused, and for
the same reason; the trouble adds where it comes from.
-/

namespace DeltaForest

open Fields Fields.Reader

variable {room : Nat}

/-! ## Types of values -/

namespace DataType

/-- The word for a type of values. -/
def word : DataType → String
  | boolean => "boolean"
  | integer => "integer"
  | string => "string"
  | enumeration _ => "enumeration"

/-- The fields of a type of values but for its word. -/
def fields : DataType → List (String × Data)
  | enumeration literals => [("literals", toData literals)]
  | _ => []

/-- A data type is told by its word, and an enumeration by its literals besides. -/
theorem toData_eq (type : DataType) :
    toData type = .object (("type", .text type.word) :: type.fields) := by
  cases type <;> rfl

theorem portable_fields (type : DataType) : ∀ f ∈ type.fields, f.2.Portable (room + 1) := by
  cases type with
  | enumeration literals =>
    have hliterals : Returns (room + 1) literals := .list fun s _ => .string s
    exact List.forall_mem_singleton.2 hliterals.portable
  | _ => exact List.forall_mem_nil _

/-- A type of values comes back. -/
theorem returns (type : DataType) : Returns (room + 2) type where
  portable := by
    rw [toData_eq]
    exact .object (List.forall_mem_cons.2 ⟨.text _, type.portable_fields⟩)
  read src hsrc := by
    -- An enumeration has literals besides its word; the other types have nothing.
    have hunion : (toData type).union? src "type" =
        some (.text type.word, labelled (labels type.fields)) := by
      rw [toData_eq]
      refine union?_object ?_ ?_ type.portable_fields hsrc <;>
        cases type <;> exact of_decide_eq_true rfl
    have hshort : isShort type.word := by cases type <;> rfl
    have hlabel : Label.ofData src (.text type.word) = some (.name type.word) := ofData_name hshort
    show ((toData type).union? src "type").bind _ = _
    rw [hunion, Option.bind_some]
    simp only [hlabel, Option.bind_some]
    cases type with
    | enumeration literals =>
      have hliterals : Returns 1 literals := .list fun s _ => .string s
      have htakes : (Reader.required "literals" >>= fun literals =>
          pure (enumeration literals)).Takes 1 (enumeration literals)
            [("literals", toData literals)] := .cons hliterals (.pure _)
      exact htakes.whole (by simp) trivial
    | _ => rfl

end DataType

/-- A kind of classifier comes back by its word. -/
theorem ClassifierKind.returns (kind : ClassifierKind) : Returns room kind where
  portable := .text kind.word
  read src _ := by cases kind <;> cases src <;> rfl

/-! ## Features -/

namespace FeatureKind

/-- The fields of a kind but for its word. -/
def fields : FeatureKind → List (String × Data)
  | property type => [("dataType", toData type)]
  | containment multiple | reference multiple => [("multiple", toData multiple)]

theorem toFields_eq (kind : FeatureKind) :
    kind.toFields = ("kind", .text kind.word) :: kind.fields := by
  cases kind <;> rfl

/-- The reader for the word of a kind takes the other fields. -/
theorem takes (kind : FeatureKind) : (reader kind.word).Takes (room + 2) kind kind.fields := by
  cases kind with
  | property type => exact .cons type.returns (.pure _)
  | containment multiple | reference multiple => exact .cons (.bool multiple) (.pure _)

/-- A kind of feature is found by its word among the fields of the feature. -/
theorem kindOf?_toFields (kind : FeatureKind) :
    kindOf? "kind" words reader (labels kind.toFields) = some kind := by
  have htakes : (reader kind.word).Takes 2 kind kind.fields := kind.takes
  rw [toFields_eq]
  refine kindOf?_labels ?_ ?_ (htakes.whole ?_ trivial) <;>
    cases kind <;> simp [word, words, fields]

end FeatureKind

namespace Feature

/-- The fields of a feature but for those of its kind. -/
def own (f : Feature) : List (String × Data) := [("key", toData f.key), ("name", toData f.name)]

/-- Reads them. -/
def ownReader : Reader (String × String) := do
  let key : String ← .required "key"
  let name : String ← .required "name"
  return (key, name)

/-- What all features have is read from the fields in front. -/
theorem takes_own (f : Feature) : ownReader.Takes room (f.key, f.name) f.own :=
  .cons (.string f.key) <| .cons (.string f.name) <| .pure _

end Feature

/-- A feature comes back: its kind is found among its fields. -/
theorem Feature.returns (f : Feature) : Returns (room + 3) f where
  portable := by
    refine .object (List.forall_mem_append.2 ⟨?_, ?_⟩)
    · exact List.forall_mem_cons.2 ⟨.text f.key, List.forall_mem_singleton.2 (.text f.name)⟩
    · rw [FeatureKind.toFields_eq]
      exact List.forall_mem_cons.2 ⟨.text _, f.kind.takes.portable⟩
  read src hsrc := by
    have hshort : ∀ name ∈ names (f.own ++ f.kind.toFields ++ []), isShort name := by
      cases f.kind <;> exact of_decide_eq_true rfl
    have hown : ownReader.whole src.inside (labelled (labels (f.own ++ []))) =
        some (f.key, f.name) := f.takes_own.whole (by simp [own]) hsrc.inside
    have hothers : ∀ name ∈ names f.kind.toFields, name ∉ ["key", "name"] := by
      cases f.kind <;> simp [FeatureKind.toFields]
    have hportable : ∀ field ∈ f.kind.toFields, field.2.Portable (room + 2) := by
      rw [FeatureKind.toFields_eq]
      exact List.forall_mem_cons.2 ⟨.text _, f.kind.takes.portable⟩
    -- The fields of the kind stand flat behind those that all features have.
    have hflat : (toData f).flat? src ["key", "name"] ownReader
        (kindOf? "kind" FeatureKind.words FeatureKind.reader) =
          some ((f.key, f.name), f.kind) := by
      have htree : toData f = .object (f.own ++ f.kind.toFields ++ []) := by
        rw [List.append_nil]
        rfl
      rw [htree, Data.flat?, reached_object]
      refine (congrArg (Option.bind · _) (labels?_entries hshort)).trans ?_
      exact flatFields?_labels (by simp [own]) hothers hportable hsrc.inside hown
        f.kind.kindOf?_toFields
    exact congrArg (Option.map _) hflat

/-! ## Classifiers and languages -/

/-- A classifier comes back with its features. -/
theorem Classifier.returns (c : Classifier) : Returns (room + 5) c :=
  Takes.returns rfl (fun _ _ => rfl) (of_decide_eq_true rfl)
    (.cons (.string c.key) <| .cons (.string c.name) <| .cons c.kind.returns <|
      .cons (.bool c.isPartition) <| .cons (.list fun f _ => f.returns) <| .pure _)

/-- A language comes back with its classifiers. -/
theorem Language.returns (l : Language) : Returns (room + 7) l :=
  Takes.returns rfl (fun _ _ => rfl) (of_decide_eq_true rfl)
    (.cons (.string l.key) <| .cons (.string l.version) <| .cons (.string l.name) <|
      .cons (.list fun c _ => c.returns) <| .pure _)

/-- A list of languages is not taken for one language. -/
theorem ofData_languages (ls : List Language) :
    (ofData .part (toData ls) : Option Language) = none := by
  cases ls <;> rfl

/-! ## Registering one by one -/

namespace TypeRegistry

variable {r types : TypeRegistry} {before after : List Language} {l : Language} {p : Pointer}

/-- Behind these languages another one is refused, since its pointer is taken. -/
def Refuses (r : TypeRegistry) (before : List Language) (l : Language) (p : Pointer) : Prop :=
  ∃ types, r.registerAll before = .ok types ∧ types.register l = .error (.duplicatePointer p)

/-- A language is refused for no other reason. -/
theorem exists_of_register {fault : Fault} (h : r.register l = .error fault) :
    ∃ p, fault = .duplicatePointer p := by
  rw [register] at h
  split at h <;> cases h
  exact ⟨_, rfl⟩

/-- Then none of the languages behind it is registered. -/
theorem Refuses.registerAll (h : r.Refuses before l p) :
    r.registerAll (before ++ l :: after) = .error (.duplicatePointer p) := by
  obtain ⟨types, hbefore, hl⟩ := h
  rw [TypeRegistry.registerAll] at hbefore ⊢
  rw [List.foldlM_append, hbefore, ok_bind, List.foldlM_cons, hl, error_bind]

end TypeRegistry

/-! ## What a file holds -/

namespace LanguageFile

/-- What a language file holds. -/
inductive Contents
  /-- One language. -/
  | one (l : Language)
  /-- A list of languages, which may be empty. -/
  | many (ls : List Language)

namespace Contents

/-- The languages of a file. -/
def languages : Contents → List Language
  | one l => [l]
  | many ls => ls

/-- The tree of a file. -/
def tree : Contents → Data
  | one l => toData l
  | many ls => toData ls

theorem portable_tree (c : Contents) : c.tree.Portable 8 := by
  cases c with
  | one l =>
    have hl : Returns 8 l := l.returns
    exact hl.portable
  | many ls =>
    have hls : Returns 8 ls := .list fun l _ => l.returns
    exact hls.portable

/-- The languages of a file are read from each text of its tree. -/
theorem languages?_of_writes {c : Contents} {text : String} (h : Json.Writes text c.tree) :
    languages? text = some c.languages := by
  have hread : Json.read text = some c.tree := c.portable_tree.read_of_writes (by decide) h
  rw [languages?, hread]
  show (if c.tree.isPlain then _ else none) = _
  rw [if_pos c.portable_tree.isPlain]
  -- A file holds one language or a list of them, and no list is read as a language.
  cases c with
  | one l =>
    have hl : Returns 8 l := l.returns
    have hback : (ofData .part (tree (one l)) : Option Language) = some l := hl.read .part trivial
    rw [hback]
    rfl
  | many ls =>
    have hls : Returns 8 ls := .list fun l _ => l.returns
    have hnone : (ofData .part (tree (many ls)) : Option Language) = none := ofData_languages ls
    rw [hnone]
    exact hls.read .part trivial

end Contents

/-! ## Files -/

/-- The files can be read, each holding a text of its contents. -/
def Holds (read : String → Option (List UInt8)) (files : List (String × Contents)) : Prop :=
  ∀ file ∈ files, ∃ text, read file.1 = some (Data.utf8 text) ∧ Json.Writes text file.2.tree

/-- The languages of files in their order, each with the path of its file. -/
def located (files : List (String × Contents)) : List (String × Language) :=
  files.flatMap fun (path, contents) => contents.languages.map (path, ·)

/-- Registers a language from a file. -/
def registerFrom (types : TypeRegistry) (l : String × Language) : Except Trouble TypeRegistry :=
  (types.register l.2).mapError (.language l.2.key l.1)

variable {read : String → Option (List UInt8)} {files : List (String × Contents)}
  {types : TypeRegistry}

/-- A file that can be read has its languages registered. -/
theorem load_of_writes {path text : String} {c : Contents} (h : Json.Writes text c.tree) :
    load types path (some (Data.utf8 text)) =
      (c.languages.map (path, ·)).foldlM registerFrom types := by
  rw [load, Option.bind_some, Data.utf8?_utf8, List.foldlM_map]
  simp only [Contents.languages?_of_writes h]
  rfl

/-- Loading files registers their languages one by one. -/
theorem foldlM_load (h : Holds read files) (types : TypeRegistry) :
    (files.map Prod.fst).foldlM (fun types path => load types path (read path)) types =
      (located files).foldlM registerFrom types := by
  induction files generalizing types with
  | nil => rfl
  | cons file files ih =>
    obtain ⟨⟨text, hread, htext⟩, hfiles⟩ := List.forall_mem_cons.1 h
    rw [List.map_cons, List.foldlM_cons, hread, load_of_writes htext, located, List.flatMap_cons,
      List.foldlM_append]
    exact bind_congr fun types => ih hfiles types

/-- Noting the file of each language does not change the languages or their order. -/
theorem map_located (files : List (String × Contents)) :
    (located files).map Prod.snd = files.flatMap fun file => file.2.languages := by
  simp only [located, List.map_flatMap, List.map_map, Function.comp_def, List.map_id']

/-- A language from a file is registered if the language is. -/
theorem registerFrom_eq_ok {l : String × Language} {types' : TypeRegistry} :
    registerFrom types l = .ok types' ↔ types.register l.2 = .ok types' := by
  rw [registerFrom]
  cases types.register l.2 <;> simp [Except.mapError]

/-- If registering fails, the language and its file are told with the pointer. -/
theorem registerFrom_eq_error {l : String × Language} {trouble : Trouble} :
    registerFrom types l = .error trouble ↔
      ∃ p, types.register l.2 = .error (.duplicatePointer p) ∧
        trouble = .language l.2.key l.1 (.duplicatePointer p) := by
  rw [registerFrom]
  cases hl : types.register l.2 with
  | ok types' => simp [Except.mapError]
  | error fault =>
    obtain ⟨p, rfl⟩ := TypeRegistry.exists_of_register hl
    simp [Except.mapError, eq_comm]

/-- Languages from files are registered one after the other as if there were no files. -/
theorem foldlM_registerFrom_eq_ok {ls : List (String × Language)} {types' : TypeRegistry} :
    ls.foldlM registerFrom types = .ok types' ↔
      types.registerAll (ls.map Prod.snd) = .ok types' := by
  induction ls generalizing types with
  | nil => simp [TypeRegistry.registerAll]
  | cons l ls ih =>
    rw [List.foldlM_cons, List.map_cons, TypeRegistry.registerAll, List.foldlM_cons, bind_eq_ok,
      bind_eq_ok]
    exact exists_congr fun _ => and_congr registerFrom_eq_ok ih

/-- The trouble comes from the first language that is refused. -/
theorem foldlM_registerFrom_eq_error {ls : List (String × Language)} {trouble : Trouble} :
    ls.foldlM registerFrom types = .error trouble ↔
      ∃ before path l after p, ls = before ++ (path, l) :: after ∧
        types.Refuses (before.map Prod.snd) l p ∧
          trouble = .language l.key path (.duplicatePointer p) := by
  induction ls generalizing types with
  | nil =>
    constructor
    · nofun
    · rintro ⟨before, path, l, after, p, hsplit, -⟩
      simp at hsplit
  | cons first ls ih =>
    rw [List.foldlM_cons, bind_eq_error, registerFrom_eq_error]
    constructor
    · rintro (⟨p, hfirst, rfl⟩ | ⟨types', hfirst, hls⟩)
      · exact ⟨[], first.1, first.2, ls, p, rfl, ⟨types, rfl, hfirst⟩, rfl⟩
      · obtain ⟨before, path, l, after, p, rfl, ⟨types₁, hbefore, hl⟩, rfl⟩ := ih.1 hls
        refine ⟨first :: before, path, l, after, p, rfl, ⟨types₁, ?_, hl⟩, rfl⟩
        rw [List.map_cons, TypeRegistry.registerAll, List.foldlM_cons,
          registerFrom_eq_ok.1 hfirst, ok_bind]
        exact hbefore
    · rintro ⟨_ | ⟨_, before⟩, path, l, after, p, hsplit, ⟨types₁, hbefore, hl⟩, rfl⟩
      · cases hsplit
        cases hbefore
        exact .inl ⟨p, hl, rfl⟩
      · cases hsplit
        rw [List.map_cons, TypeRegistry.registerAll, List.foldlM_cons, bind_eq_ok] at hbefore
        obtain ⟨types', hfirst, hbefore⟩ := hbefore
        exact .inr ⟨types', registerFrom_eq_ok.2 hfirst,
          ih.2 ⟨before, path, l, after, p, rfl, ⟨types₁, hbefore, hl⟩, rfl⟩⟩

/-- Loading files comes to the same as registering their languages one by one in an empty registry:
    it gives the same registry, and it fails at the same language, for the same pointer, with the
    key of the language and the path of its file. -/
theorem loadAll_registers (read : String → Option (List UInt8)) (files : List (String × Contents))
    (h : Holds read files) :
    (∀ types, loadAll read (files.map Prod.fst) = .ok types ↔
      TypeRegistry.empty.registerAll (files.flatMap fun file => file.2.languages) = .ok types) ∧
    ∀ trouble, loadAll read (files.map Prod.fst) = .error trouble ↔
      ∃ before path l after p, located files = before ++ (path, l) :: after ∧
        TypeRegistry.empty.Refuses (before.map Prod.snd) l p ∧
          TypeRegistry.empty.registerAll (files.flatMap fun file => file.2.languages) =
            .error (.duplicatePointer p) ∧
          trouble = .language l.key path (.duplicatePointer p) := by
  rw [loadAll, foldlM_load h, ← map_located]
  refine ⟨fun types => foldlM_registerFrom_eq_ok, fun trouble => ?_⟩
  rw [foldlM_registerFrom_eq_error]
  constructor
  · rintro ⟨before, path, l, after, p, hsplit, hrefuses, rfl⟩
    refine ⟨before, path, l, after, p, hsplit, hrefuses, ?_, rfl⟩
    rw [hsplit, List.map_append, List.map_cons]
    exact hrefuses.registerAll
  · rintro ⟨before, path, l, after, p, hsplit, hrefuses, -, rfl⟩
    exact ⟨before, path, l, after, p, hsplit, hrefuses, rfl⟩

end LanguageFile

/-! ## A language in two files -/

namespace Examples

open LanguageFile

/-- The library on its own, no languages, and a later library with the first one behind it. -/
def threeFiles : List (String × Contents) :=
  [("old.json", .one library), ("none.json", .many []), ("new.json", .many [newerLibrary, library])]

/-- The files on a disk: the first and the second in one line, the third over several lines. -/
def disk (path : String) : Option (List UInt8) :=
  if path = "old.json" then some (Data.utf8 (toData library).toJson)
  else if path = "none.json" then some (Data.utf8 "[]")
  else if path = "new.json" then
    some (Data.utf8 ((toData [newerLibrary, library]).toPrettyJson 0))
  else none

/-- What is in front of the library for the second time is registered, and the library is not. -/
theorem loadAll_threeFiles : Holds disk threeFiles ∧
    loadAll disk ["old.json", "none.json", "new.json"] =
      .error (.language "library" "new.json" (.duplicatePointer ⟨"library", "1", "Library"⟩)) := by
  have hone : (toData library).Portable 8 := (Contents.one library).portable_tree
  have hmany (ls : List Language) : (toData ls).Portable 8 := (Contents.many ls).portable_tree
  have hholds : Holds disk threeFiles := by
    refine List.forall_mem_cons.2 ⟨?_, List.forall_mem_cons.2 ⟨?_, List.forall_mem_singleton.2 ?_⟩⟩
    · exact ⟨_, rfl, hone.writes_toJson⟩
    · exact ⟨_, rfl, (hmany []).writes_toJson⟩
    · exact ⟨_, rfl, (hmany [newerLibrary, library]).writes_toPrettyJson 0⟩
  refine ⟨hholds, ((loadAll_registers disk threeFiles hholds).2 _).2 ?_⟩
  exact ⟨[("old.json", library), ("new.json", newerLibrary)], "new.json", library, [], _, rfl,
    ⟨_, rfl, rfl⟩, rfl, rfl⟩

end Examples

end DeltaForest
