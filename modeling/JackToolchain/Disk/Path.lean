import JackToolchain.Text.Blank

/-!
# Paths

What can be told from the text of a path, without looking at a disk.

* `Path` — a path as it was written.
* `Path.name?` — the last component, unless it is `..` or there is none.
* `Path.stem?`, `Path.extension?` — the name in front of its last dot, and what stands behind it.  A dot
  at the front of a name does not count.
* `Path.nameWith?` — the name with another extension.
* `Path.parent?` — the path in front of the last component.
* `Path.join` — a name inside a directory.

Empty components and components `.` count only at the very front of a path.
-/

namespace JackToolchain.Disk

/-- A path as it was written. -/
structure Path where
  text : String
  deriving DecidableEq

/-- The two parts of a file name: in front of its last dot, and behind it. -/
structure NameParts where
  stem : List Char
  extension : Option (List Char)

/-- The parts of a file name.  A name without a dot, or with a single one at its front, is all
stem. -/
def NameParts.ofName (name : List Char) : NameParts :=
  let backwards := name.reverse
  let extension := (backwards.takeWhile (· != '.')).reverse
  match backwards.dropWhile (· != '.') with
  | [] | [_] => ⟨name, none⟩
  | _ :: stem => ⟨stem.reverse, some extension⟩

namespace Path

/-- The components of a text, empty ones included. -/
def split (cs : List Char) : List (List Char) := Text.pieces (· == '/') cs

/-- The reverse of `split`. -/
def glue : List (List Char) → List Char
  | [] => []
  | [piece] => piece
  | piece :: rest => piece ++ '/' :: glue rest

/-- Whether a component stands for the directory that holds it. -/
def isTrivial (component : List Char) : Bool := component == [] || component == ['.']

/-- Where a path begins. -/
inductive Start where
  /-- At the root. -/
  | root
  /-- At the current directory, by a leading dot. -/
  | dot
  /-- At the current directory. -/
  | here

/-- The text of a start. -/
def Start.text : Start → List Char
  | .root => ['/']
  | .dot => ['.']
  | .here => []

/-- A path as its start and the components behind it, the last one first, without trivial ones behind
the last. -/
def parts (path : Path) : Start × List (List Char) :=
  let (start, body) : Start × List Char := match path.text.toList with
    | '/' :: rest => (.root, rest)
    | ['.'] => (.dot, [])
    | '.' :: '/' :: rest => (.dot, '/' :: rest)
    | cs => (.here, cs)
  (start, (split body).reverse.dropWhile isTrivial)

/-- The last component. -/
def name? (path : Path) : Option (List Char) :=
  match path.parts.2 with
  | [] => none
  | last :: _ => if last == ['.', '.'] then none else some last

/-- The name in front of its last dot. -/
def stem? (path : Path) : Option String :=
  path.name?.map fun name => String.ofList (NameParts.ofName name).stem

/-- What stands behind the last dot of the name. -/
def extension? (path : Path) : Option String :=
  path.name?.bind fun name => (NameParts.ofName name).extension.map String.ofList

/-- The name of a path with another extension: its stem, a dot and the extension.

The new extension takes the place of the old one behind the dot that is already there.  Behind a stem
that is itself a dot this leaves `..`, which leads outwards and can be the beginning of no file name;
such a path has no name with another extension. -/
def nameWith? (path : Path) (extension : String) : Option String :=
  path.stem?.bind fun stem => if stem = "." then none else some s!"{stem}.{extension}"

/-- The path in front of the last component; `none` for the root and the empty path. -/
def parent? (path : Path) : Option Path :=
  match path.parts with
  | (start, _ :: before) =>
    some ⟨String.ofList (start.text ++ glue (before.dropWhile isTrivial).reverse)⟩
  | (.dot, []) => some ⟨""⟩
  | (_, []) => none

/-- A name inside a directory.  A slash is put between them unless the directory ends in one. -/
def join (directory : Path) (name : String) : Path :=
  if directory.text.isEmpty || directory.text.toList.getLast? = some '/' then
    ⟨directory.text ++ name⟩
  else ⟨directory.text ++ "/" ++ name⟩

/-- The path and the paths in front of it, the shortest last. -/
def ancestors (path : Path) : List Path :=
  go path.text.length path
where
  /-- At most `budget` paths in front of a path. -/
  go : Nat → Path → List Path
    | 0, path => [path]
    | budget + 1, path =>
      match path.parent? with
      | some parent => path :: go budget parent
      | none => [path]

/-- Whether a path is empty, which stands for the current directory. -/
def isEmpty (path : Path) : Bool := path.text.isEmpty

end Path

end JackToolchain.Disk
