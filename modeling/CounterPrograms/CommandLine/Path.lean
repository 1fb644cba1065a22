/-!
# File paths

A path is a sequence of components between slashes.  Empty components and the component `.` mean
nothing and are left out; a path of no component is the current directory `.`.  One slash at the
beginning makes a path absolute, and so do three or more; exactly two are kept.
-/

namespace CounterPrograms

namespace Path

/-- The components of a path that mean something. -/
def components (path : String) : List String :=
  (path.splitOn "/").filter fun c => c ≠ "" ∧ c ≠ "."

/-- The slashes that a path keeps at its beginning. -/
def root (path : String) : String :=
  match (path.toList.takeWhile (· = '/')).length with
  | 0 => ""
  | 2 => "//"
  | _ => "/"

/-- A path without the parts that mean nothing. -/
def normalize (path : String) : String :=
  let p := root path ++ "/".intercalate (components path)
  if p = "" then "." else p

end Path

end CounterPrograms
