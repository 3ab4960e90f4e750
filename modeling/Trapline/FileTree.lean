import Trapline.Source

/-!
# Trees of files

A tree of files below a working directory, given as data. A path is walked component by component
from the working directory. Every step but the last has to end at a directory, and so has the last
one when a slash follows it. What lies above the working directory is a directory whose entries are
not known, so nothing is found there.
-/

namespace Trapline

/-- Why a file cannot be read. -/
inductive FileFailure where
  | notFound
  | notADirectory
  | isADirectory
  | nameTooLong
  | nulInName
  | notUnicode
deriving DecidableEq, Repr

namespace FileFailure

/-- The text of a failure. -/
def message : FileFailure → String
  | notFound => "No such file or directory (os error 2)"
  | notADirectory => "Not a directory (os error 20)"
  | isADirectory => "Is a directory (os error 21)"
  | nameTooLong => "File name too long (os error 36)"
  | nulInName => "file name contained an unexpected NUL byte"
  | notUnicode => "stream did not contain valid UTF-8"

end FileFailure

/-- What a path can end at. -/
inductive FileNode where
  | file (content : ByteArray)
  | directory

/-- Files and directories, each with the names that lead to it. The directories on the way to an
entry need no entries of their own. -/
structure FileTree where
  files : List (List String × ByteArray)
  directories : List (List String)

/-- A place in a walk. -/
inductive FilePlace where
  /-- Below the working directory, with the names that lead there, the last one first. -/
  | inside (names : List String)
  /-- Above the working directory. -/
  | outside
deriving DecidableEq, Repr

namespace FileTree

/-- The greatest number of bytes in a name. -/
def maxNameBytes : Nat := 255

/-- The number of bytes from which a path is too long. -/
def maxPathBytes : Nat := 4096

/-- The names of a path, cut at its slashes. -/
def components (path : String) : List String :=
  (path.split (· == '/')).toList.map (·.toString)

/-- The names of a path to an entry, without those that lead nowhere. -/
def names (path : String) : List String :=
  (components path).filter fun name => name != "" && name != "."

/-- The tree with the given texts or bytes at paths. A path that ends with a slash is an empty
directory. -/
def ofEntries (entries : List (String × ByteArray)) : FileTree :=
  let (directories, files) := entries.partition fun entry => entry.1.endsWith "/"
  { files := files.map fun entry => (names entry.1, entry.2)
    directories := directories.map fun entry => names entry.1 }

/-- What the given names lead to. -/
def node? (tree : FileTree) (names : List String) : Option FileNode :=
  match tree.files.lookup names with
  | some content => some (.file content)
  | none =>
      let entries := tree.directories ++ tree.files.map (·.1)
      if names.isEmpty || entries.any (names.isPrefixOf ·) then some .directory else none

/-- What a place is. -/
def nodeAt? (tree : FileTree) : FilePlace → Option FileNode
  | .inside names => tree.node? names.reverse
  | .outside => some .directory

/-- The directory that a place lies in. -/
def parent : FilePlace → FilePlace
  | .inside (_ :: names) => .inside names
  | _ => .outside

/-- Goes on from a place by one name. -/
def enter (tree : FileTree) (place : FilePlace) (name : String) : Except FileFailure FilePlace :=
  match tree.nodeAt? place with
  | none => .error .notFound
  | some (.file _) => .error .notADirectory
  | some .directory =>
      if name == "" || name == "." then .ok place
      else if name == ".." then .ok (parent place)
      else if maxNameBytes < name.utf8ByteSize then .error .nameTooLong
      else
        match place with
        | .outside => .error .notFound
        | .inside names =>
            match tree.node? (name :: names).reverse with
            | some _ => .ok (.inside (name :: names))
            | none => .error .notFound

/-- The place at the end of a path. -/
def walk (tree : FileTree) (path : String) : Except FileFailure FilePlace :=
  if path.isEmpty then .error .notFound
  else if path.contains '\x00' then .error .nulInName
  else if maxPathBytes ≤ path.utf8ByteSize then .error .nameTooLong
  else
    let start := if path.startsWith "/" then .outside else .inside []
    (components path).foldlM tree.enter start

/-- The text of the file at the end of a path. -/
def readText (tree : FileTree) (path : String) : Except FileFailure String :=
  match tree.walk path with
  | .error failure => .error failure
  | .ok place =>
      match tree.nodeAt? place with
      | some (.file content) =>
          match String.fromUTF8? content with
          | some text => .ok text
          | none => .error .notUnicode
      | _ => .error .isADirectory

/-- A path below a root directory. An absolute path stays as it is, and so does any path when the
root has no name. -/
def join (root path : String) : String :=
  if path.startsWith "/" || root.isEmpty then path
  else if root.endsWith "/" then root ++ path
  else root ++ "/" ++ path

end FileTree

namespace Reader

/-- The reader of the files that a function gives as texts. The path in an error is the one that
was asked for. -/
def ofFiles (readText : String → Except FileFailure String) : Reader := fun path =>
  match readText path with
  | .ok text => .ok (Text.lines text)
  | .error failure => .error { fault := .unreadable path failure.message }

/-- The reader of a tree of files, where paths may be taken below a root directory. -/
def ofTree (tree : FileTree) (root : Option String) : Reader :=
  ofFiles fun path => tree.readText ((root.map (FileTree.join · path)).getD path)

end Reader
end Trapline
