import SkPqc.Model.Pqkem

/-!
# `ensure_liboqs_path`: where `oqs` finds its library

Before `pqkem` imports `oqs` it looks for a prebuilt liboqs and, where it finds one, says so in two environment
variables. The host of a call is what the call asks for: the home directory and which files exist. Both can change from
one call to the next, and both may raise.
-/

namespace SkPqc
namespace Pqkem

open Wire

/-- `pathlib.PosixPath` -/
@[ext] structure PosixPath where
  root : Str
  parts : List Str
  part_ne : ∀ part ∈ parts, part ≠ []

namespace PosixPath

/-- `Path(s)`. Two slashes at the front are a root of their own, three are not. -/
def ofStr (s : Str) : PosixPath where
  root := if (str "//").isPrefixOf s && !(str "///").isPrefixOf s then str "//" else (s.take 1).filter (· = chr '/')
  parts := (split (chr '/') s).filter fun part => part ≠ [] ∧ part ≠ str "."
  part_ne := by
    intro part hpart
    exact (of_decide_eq_true (List.mem_filter.mp hpart).2).1

/-- `path / name`, on a plain name. -/
def child (path : PosixPath) (name : Str) (h : name ≠ []) : PosixPath where
  root := path.root
  parts := path.parts ++ [name]
  part_ne := by
    intro part hpart
    rcases List.mem_append.mp hpart with hpart | hpart
    · exact path.part_ne part hpart
    · rwa [List.mem_singleton.mp hpart]

/-- `path.parent` -/
def parent (path : PosixPath) : PosixPath where
  root := path.root
  parts := path.parts.dropLast
  part_ne part hpart := path.part_ne part (List.dropLast_subset _ hpart)

/-- `str(path)` -/
def toStr (path : PosixPath) : Str :=
  if path.root = [] ∧ path.parts = [] then str "." else path.root ++ (str "/").intercalate path.parts

end PosixPath

/-- The variables of `os.environ` that the function reads and writes. -/
@[ext] structure Environ where
  oqsInstallPath : Option Str
  skPqcLiboqs : Option Str
  ldLibraryPath : Option Str
  deriving DecidableEq

/-- What a call asks of the machine: `Path.home()` and `path.exists()`. -/
structure Host where
  home : Py PosixPath
  fileExists : PosixPath → Py Bool

def pathsep : CodePoint := chr ':'

/-- `prefix / "lib"` -/
def libdir (install : PosixPath) : PosixPath := install.child (str "lib") (by decide)

/-- The `any` over the names of the library. -/
def holdsLiboqs (host : Host) (install : PosixPath) : Py Bool := do
  if ← host.fileExists ((libdir install).child (str "liboqs.so") (by decide)) then return true
  if ← host.fileExists ((libdir install).child (str "liboqs.so.8") (by decide)) then return true
  host.fileExists ((libdir install).child (str "liboqs.dylib") (by decide))

/-- The list of prefixes. -/
def candidates (host : Host) (env : Environ) : Py (List PosixPath) := do
  let skLib := env.skPqcLiboqs.getD []
  let home ← host.home
  return (if skLib = [] then [] else [(PosixPath.ofStr skLib).parent.parent]) ++
    [home.child (str ".local") (by decide), .ofStr (str "/usr/local"), .ofStr (str "/usr")]

/-- The loop over the prefixes, up to the first with a library. -/
def firstHolding (host : Host) : List PosixPath → Py (Option PosixPath)
  | [] => return none
  | install :: rest => do
    if ← holdsLiboqs host install then return some install
    firstHolding host rest

/-- The body of the loop at a prefix with a library. -/
def Environ.export (env : Environ) (install : PosixPath) : Environ :=
  let existing := env.ldLibraryPath.getD []
  let dir := (libdir install).toStr
  { env with
    oqsInstallPath := some install.toStr
    ldLibraryPath :=
      if dir ∈ split pathsep existing then env.ldLibraryPath
      else some (if existing = [] then dir else dir ++ [pathsep] ++ existing) }

/-- `ensure_liboqs_path`. Whatever raises does so before a variable is set. -/
def ensureLiboqsPath (host : Host) (env : Environ) : Py Unit × Environ :=
  if env.oqsInstallPath.getD [] ≠ [] then (.ok (), env)
  else
    match (do firstHolding host (← candidates host env)) with
    | .error e => (.error e, env)
    | .ok none => (.ok (), env)
    | .ok (some install) => (.ok (), env.export install)

/-- `is_available`, with the search that `_import_oqs` starts with. The search stands outside the `try` of the
import. -/
def isAvailableOn (P : Primitives) (host : Host) (env : Environ) : Py Bool :=
  tryExcept [.pqKemUnavailable]
    (do
      (ensureLiboqsPath host env).1
      let _ ← importOqs P
      return true)
    fun _ => return false

end Pqkem
end SkPqc
