import DeltaForest.Change
import DeltaForest.Examples.LibraryAndShop
import DeltaForest.TypeRegistry

/-!
# A shelf

A library with one book, another book that refers to it, and a remark on the library. In the types
of the library the library itself is at `0` and the books in it at `2`; a book is at `5`, and the
books related to it at `11`; a comment is at `17`.
-/

namespace DeltaForest.Examples

/-- The types of the library. -/
def libraryTypes : TypeRegistry :=
  ⟨TypeRegistry.elementsFrom library 0 library.classifiers, [(library.key, library.version)]⟩

theorem registerAll_library : TypeRegistry.registerAll .empty [library] = .ok libraryTypes := by
  rfl

/-- A library without books. -/
def city : Subtree := ⟨.bare ⟨"city"⟩ ⟨0⟩, []⟩

/-- A book. -/
def novel : Subtree := ⟨.bare ⟨"novel"⟩ ⟨5⟩, []⟩

/-- The book as it stands in the library. -/
def shelved : Subtree := ⟨{ novel.root with parent := some ⟨"city"⟩ }, []⟩

/-- A book that is related to the first one. -/
def sequel : Subtree :=
  ⟨(Node.bare ⟨"sequel"⟩ ⟨5⟩).withEntries ⟨11⟩ [⟨some ⟨"novel"⟩, none⟩], []⟩

/-- A comment on the library. -/
def remark : Subtree := ⟨.bare ⟨"remark"⟩ ⟨17⟩, []⟩

/-- The library comes. -/
def opening : Change := .partitionAdded city

/-- The first book is put into the library. -/
def shelving : Change := .childAdded ⟨⟨"city"⟩, ⟨2⟩, 0⟩ novel

/-- The second book takes the place of the first one. -/
def succession : Change := .childReplaced ⟨⟨"city"⟩, ⟨2⟩, 0⟩ sequel shelved

/-- The library is commented on. -/
def remarking : Change := .annotationAdded ⟨⟨"city"⟩, 0⟩ remark

end DeltaForest.Examples
