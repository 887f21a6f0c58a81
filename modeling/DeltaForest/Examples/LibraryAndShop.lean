import DeltaForest.Language

/-!
# A library and a shop

Languages to build examples with. The language of the library has properties of every plain type,
containments and references; the shop adds an interface, single containments, an enumeration and an
annotation that may be a partition. The newer library has the key of the first and another version.
-/

namespace DeltaForest.Examples

/-- A property. -/
def property (key name : String) (type : DataType) : Feature := ⟨key, name, .property type⟩

/-- A containment of many children. -/
def children (key name : String) : Feature := ⟨key, name, .containment true⟩

/-- A containment of one child. -/
def child (key name : String) : Feature := ⟨key, name, .containment false⟩

/-- A reference with many entries. -/
def entries (key name : String) : Feature := ⟨key, name, .reference true⟩

/-- A reference with one entry. -/
def entry (key name : String) : Feature := ⟨key, name, .reference false⟩

/-- A classifier that is named by its key and is no partition. -/
def classifier (kind : ClassifierKind) (key : String) (features : List Feature) : Classifier :=
  ⟨key, key, kind, false, features⟩

/-- Books with chapters and authors, and comments on them. -/
def library : Language :=
  ⟨"library", "1", "Library",
    [⟨"Library", "Library", .concept, true,
        [property "Library-name" "name" .string, children "Library-books" "books",
          children "Library-archive" "archive", children "Library-authors" "authors"]⟩,
      classifier .concept "Book"
        [property "Book-title" "title" .string, property "Book-pages" "pages" .integer,
          property "Book-available" "available" .boolean, children "Book-chapters" "chapters",
          entry "Book-author" "author", entries "Book-related" "related",
          entries "Book-cited" "cited"],
      classifier .concept "Chapter"
        [property "Chapter-heading" "heading" .string, children "Chapter-sections" "sections"],
      classifier .concept "Writer" [],
      classifier ClassifierKind.annotation "Comment" [property "Comment-text" "text" .string]]⟩

/-- Persons who sell items, and reviews of what they sell. -/
def shop : Language :=
  ⟨"shop", "2", "Shop",
    [classifier .interface "Named" [property "Named-label" "label" .string],
      ⟨"Shop", "Shop", .concept, true,
        [entry "Shop-owner" "owner", child "Shop-manager" "manager",
          child "Shop-deputy" "deputy", children "Shop-items" "items",
          property "Shop-state" "state" (.enumeration ["open", "closed", "on-hold"])]⟩,
      classifier .concept "Person"
        [property "Person-age" "age" .integer, entry "Person-friend" "friend",
          entries "Person-knows" "knows"],
      classifier .concept "Item"
        [property "Item-color" "color" (.enumeration ["red", "green"]),
          property "Item-sold" "sold" .boolean, children "Item-parts" "parts",
          child "Item-lid" "lid"],
      classifier ClassifierKind.annotation "Review"
        [property "Review-stars" "stars" .integer, children "Review-replies" "replies",
          entries "Review-about" "about"],
      ⟨"Root", "Root note", ClassifierKind.annotation, true, []⟩]⟩

/-- A later version of the library, in which books have a title and nothing else. -/
def newerLibrary : Language :=
  ⟨"library", "2", "Library two",
    [classifier .concept "Book" [property "Book-title" "title" .string]]⟩

end DeltaForest.Examples
