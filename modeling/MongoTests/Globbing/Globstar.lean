import MongoTests.Lib.FileSystem
import MongoTests.Suites.Selector

/-!
# Globstars

`resmokelib/utils/globstar.py`, with what it uses of `os`, `os.path` and `glob`, over a file system
with links. A path name is the list of its parts.

* `PathName`, `Machine`: path names; the file system and the working directory.
* `stdIglob`: `glob.iglob`, which does not know `**`.
* `expand`, `expandCurdir`: the directories and the files below a directory.
* `iglob`: a pattern is split at its first `**`; `Run`: the paths that it emits, with the directories
  that its expansions have listed. A call that does not return has no run.
-/

namespace MongoTests.Globbing

open MongoTests.Lib MongoTests.Suites

/-! ## Path names -/

/-- The parts of a path name between the separators, and whether it begins with one. The part `""` at
the end stands for a separator at the end. -/
structure PathName where
  absolute : Bool
  parts : List String
  deriving DecidableEq, Repr

namespace PathName

/-- `os.curdir` -/
def curdir : PathName := ⟨false, ["."]⟩

/-- `os.path.basename` -/
def basename (p : PathName) : String := p.parts.getLast?.getD ""

/-- `os.path.join`, with the parts of a relative path name. -/
def join (p : PathName) (parts : List String) : PathName :=
  { p with parts := (if p.basename = "" then p.parts.dropLast else p.parts) ++ parts }

/-- The parts that lead to another place. -/
def names (p : PathName) : List String := p.parts.filter fun part => part ≠ "" ∧ part ≠ "."

/-- `os.path.normpath`, for a path name without `..`. -/
def normpath (p : PathName) : PathName :=
  if p.absolute = false ∧ p.names = [] then curdir else { p with parts := p.names }

end PathName

/-- The file system and the working directory. `fnmatch` tells whether a name matches a pattern
without a separator. -/
structure Machine where
  fs : FileSystem String
  cwd : List String
  isDir_cwd : fs.IsDir cwd
  valid : ∀ d n e, fs.HasEntry d n e → n ≠ "" ∧ n ≠ "." ∧ n ≠ ".."
  fnmatch : String → String → Bool

section Os

variable (m : Machine)

/-- Where a path name starts. -/
def Machine.base (absolute : Bool) : List String := if absolute then [] else m.cwd

/-- The directory that a path name leads to. -/
def locate (p : PathName) : Option (List String) := m.fs.resolve (m.base p.absolute) p.names

/-- `os.path.isdir` -/
def isdir (p : PathName) : Bool := p ≠ ⟨false, []⟩ && (locate m p).isSome

/-- `os.lstat`: a link is not followed, if there is no separator behind it. -/
def lstat (p : PathName) : Option (Entry String) :=
  if p.basename = "" ∨ p.basename = "." then if isdir m p then some .dir else none
  else (locate m ⟨p.absolute, p.parts.dropLast⟩).bind fun d => m.fs.entry d p.basename

/-- `os.path.lexists` -/
def lexists (p : PathName) : Bool := (lstat m p).isSome

/-- `os.path.islink` -/
def islink (p : PathName) : Bool :=
  match lstat m p with
  | some (.link _) => true
  | _ => false

/-- `is_dir` of an entry that `os.scandir` gives: links are followed. -/
def isDirEntry : Entry String → Bool
  | .dir | .link (some _) => true
  | .file | .link none => false

/-- `os.scandir` -/
def scandir (p : PathName) : Option (List (String × Entry String)) :=
  (locate m p).bind fun d => (m.fs.entries d).map Dict.items

end Os

/-! ## `glob.iglob` -/

section Glob

variable (m : Machine)

/-- `_ishidden` -/
def isHidden (name : String) : Bool := name.toList.head? = some '.'

/-- `_iterdir`, for the working directory or a directory. -/
def iterdir (dirname : PathName) (dironly : Bool) : List String :=
  let entries := (scandir m dirname).getD []
  (entries.filter fun q => !dironly || isDirEntry q.2).map Prod.fst

/-- `_glob1` -/
def glob1 (dirname : PathName) (pattern : String) (dironly : Bool) : List String :=
  let names := iterdir m dirname dironly
  let names := if isHidden pattern then names else names.filter fun x => !isHidden x
  names.filter fun x => m.fnmatch x pattern

/-- `_glob0` -/
def glob0 (dirname : PathName) (basename : String) : List String :=
  if basename = "" then if isdir m dirname then [basename] else []
  else if lexists m (dirname.join [basename]) then [basename] else []

/-- `_iglob`; the parts of the path name are in reverse order. -/
def iglobRev (absolute dironly : Bool) : List String → List PathName
  | [] => if absolute then [⟨true, []⟩] else []
  | basename :: rdirname =>
    let dirname : PathName := ⟨absolute, rdirname.reverse⟩
    if !(basename :: rdirname).any isGlobPattern then
      let pathname : PathName := ⟨absolute, (basename :: rdirname).reverse⟩
      if basename ≠ "" then if lexists m pathname then [pathname] else []
      else if isdir m dirname then [pathname] else []
    else
      let dirs := if rdirname.any isGlobPattern then iglobRev absolute true rdirname else [dirname]
      dirs.flatMap fun d =>
        (if isGlobPattern basename then glob1 m d basename dironly else glob0 m d basename).map
          fun name => d.join [name]

/-- `glob.iglob` -/
def stdIglob (p : PathName) : List PathName := iglobRev m p.absolute false p.parts.reverse

end Glob

/-! ## Patterns -/

/-- `_GLOBSTAR in part` -/
def containsGlobstar (part : String) : Bool := decide (['*', '*'] <:+: part.toList)

def canonicalizeFrom (prevWasGlobstar : Bool) : List String → Except String (List String)
  | [] => .ok []
  | part :: parts =>
    if part = "**" then
      if prevWasGlobstar then canonicalizeFrom true parts
      else (canonicalizeFrom true parts).map fun res => part :: res
    else if containsGlobstar part then
      .error "Can only specify glob patterns of the form a/**/b"
    else (canonicalizeFrom false parts).map fun res => part :: res

def canonicalize (parts : List String) : Except String (List String) := canonicalizeFrom false parts

def findGlobstar (parts : List String) : Option ℕ := parts.findIdx? fun part => part = "**"

/-! ## Expansions -/

inductive Kind
  | dir
  | file
  deriving DecidableEq, Repr

/-- A pair that an expansion emits. -/
structure Item where
  kind : Kind
  path : PathName
  deriving DecidableEq, Repr

section Expand

variable (m : Machine)

/-- `_list_dir`, with the first triple of `os.walk`. -/
def listDir (p : PathName) : Option (List String × List String) :=
  (scandir m p).map fun entries =>
    ((entries.filter fun q => isDirEntry q.2).map Prod.fst,
      (entries.filter fun q => !isDirEntry q.2).map Prod.fst)

/-- `_expand`; there is no result where it is called more than so many times in itself. -/
def expand : ℕ → PathName → Option (List Item)
  | 0, _ => none
  | fuel + 1, p =>
    match listDir m p with
    | none => some []
    | some (dirs, files) =>
      let zero : List Item := if p.basename ≠ "" then [⟨.dir, p.join [""]⟩] else []
      (dirs.mapM fun dname => expand fuel (p.join [dname])).map fun subs =>
        zero ++ (files.map fun fname => ⟨.file, p.join [fname]⟩) ++ subs.flatten

/-- `_expand_curdir` -/
def expandCurdir (fuel : ℕ) (p : PathName) : Option (List Item) :=
  match listDir m p with
  | none => some []
  | some (dirs, files) =>
    (dirs.mapM fun dname => expand m fuel ⟨false, [dname]⟩).map fun subs =>
      [⟨.dir, ⟨false, []⟩⟩] ++ (files.map fun fname => ⟨.file, ⟨false, [fname]⟩⟩) ++ subs.flatten

/-- `os.path.join(*prefix_parts)`, or `os.curdir` without parts. -/
def startOf (pre : PathName) : PathName := if pre = ⟨false, []⟩ then .curdir else pre

/-- The expansion from the parts before the first `**`. -/
def expandFrom (fuel : ℕ) (pre : PathName) : Option (List Item) :=
  if pre = ⟨false, []⟩ then expandCurdir m fuel (startOf pre) else expand m fuel (startOf pre)

end Expand

/-! ## `iglob` -/

/-- What a call has emitted, the directories that its expansions have listed, each with the directory
in which the expansion started, and the exception that it has raised. -/
structure Run where
  paths : List PathName
  listed : List (PathName × PathName)
  error : Option String
  deriving DecidableEq, Repr

namespace Run

def empty : Run := ⟨[], [], none⟩

/-- Nothing comes after an exception. -/
def andThen (r : Run) (next : Option Run) : Option Run :=
  if r.error.isSome then some r
  else next.map fun s => ⟨r.paths ++ s.paths, r.listed ++ s.listed, s.error⟩

end Run

section Iglob

variable (m : Machine)

/-- The body of the loop over the items of an expansion; `rec` is the call of `iglob`. -/
def visitItem (rec : PathName → Option Run) (start : PathName) (suffix : List String) (it : Item) :
    Option Run :=
  let listed := if it.kind = .dir then [(start, it.path)] else []
  (Run.mk [] listed none).andThen
    (if suffix = [] then some ⟨[it.path], [], none⟩
    else if it.kind = .dir ∧ islink m it.path = false then rec (it.path.join suffix)
    else some .empty)

def visit (rec : PathName → Option Run) (start : PathName) (suffix : List String) :
    List Item → Option Run
  | [] => some .empty
  | it :: its => (visitItem m rec start suffix it).bind fun r => r.andThen (visit rec start suffix its)

/-- `iglob`; `depth` bounds the calls of `_expand` in each other. -/
def iglob (depth : ℕ) : ℕ → PathName → Option Run
  | 0, _ => none
  | fuel + 1, p =>
    match canonicalize p.parts with
    | .error e => some ⟨[], [], some e⟩
    | .ok parts =>
      match findGlobstar parts with
      | none => some ⟨(stdIglob m p).map PathName.normpath, [], none⟩
      | some index =>
        let pre : PathName := ⟨p.absolute, parts.take index⟩
        let suffix := parts.drop (index + 1)
        (expandFrom m depth pre).bind fun items =>
          visit m (iglob depth fuel) (startOf pre) suffix items

end Iglob

end MongoTests.Globbing
