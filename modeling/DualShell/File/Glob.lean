import DualShell.File.Tree
import DualShell.Value.Basic

/-!
# Wildcard patterns

The paths that match a pattern. A pattern is matched component by component: a question mark is any character, a star
any characters, brackets a choice of characters, and two stars as a whole component any number of directories. None of
them matches a leading dot. A component without wildcards is not matched against the directory but looked up.
-/

namespace DualShell

namespace Glob

/-- An element of a bracket. -/
inductive CharSet
  | single (c : Char)
  | range (first last : Char)
  deriving DecidableEq, Repr

/-- Whether a character is meant by an element. -/
def CharSet.has (s : CharSet) (c : Char) : Bool :=
  match s with
  | .single d => c == d
  | .range first last => first ≤ c && c ≤ last

/-- A part of a pattern. -/
inductive Token
  | char (c : Char)
  | anyChar
  /-- Any characters of one component. -/
  | anyRun
  /-- Any number of directories. -/
  | anyDepth
  | within (sets : List CharSet)
  | except (sets : List CharSet)
  deriving DecidableEq, Repr

/-- What can be wrong with a pattern. -/
inductive Fault
  | badRange
  | tooManyStars
  | starsNotAlone
  deriving DecidableEq, Repr

/-- The wording of a fault. -/
def Fault.message : Fault → String
  | .badRange => "invalid range pattern"
  | .tooManyStars => "wildcards are either regular \x60*\x60 or recursive \x60**\x60"
  | .starsNotAlone => "recursive wildcards must form a single path component"

/-- The elements between brackets. -/
def charSets : List Char → List CharSet
  | a :: '-' :: b :: rest => .range a b :: charSets rest
  | a :: rest => .single a :: charSets rest
  | [] => []

/-- The characters up to a closing bracket, and those after it. -/
def untilBracket : List Char → Option (List Char × List Char)
  | [] => none
  | ']' :: rest => some ([], rest)
  | c :: rest =>
    match untilBracket rest with
    | none => none
    | some (inside, rest) => some (c :: inside, rest)

/-- The bracket whose content and rest are given; its first character always belongs to it. -/
def bracket : List Char → Option (Token × List Char)
  | '!' :: c :: rest =>
    match untilBracket rest with
    | some (inside, rest) => some (.except (charSets (c :: inside)), rest)
    | none => none
  | '!' :: [] => none
  | c :: rest =>
    match untilBracket rest with
    | some (inside, rest) => some (.within (charSets (c :: inside)), rest)
    | none => none
  | [] => none

/-- Read a pattern; `before` is the character in front of what is read. The first argument bounds the number of tokens. -/
def tokens : Nat → (before : Option Char) → List Char → Except Fault (List Token)
  | 0, _, _ => .ok []
  | _, _, [] => .ok []
  | fuel + 1, _, '?' :: rest => do return .anyChar :: (← tokens fuel (some '?') rest)
  | fuel + 1, before, '*' :: rest => do
    let stars := rest.takeWhile (· == '*')
    let rest := rest.dropWhile (· == '*')
    match stars with
    | [] => return .anyRun :: (← tokens fuel (some '*') rest)
    | [_] =>
      if before == none || before == some '/' then
        match rest with
        | [] => return [.anyDepth]
        | '/' :: rest => return .anyDepth :: (← tokens fuel (some '/') rest)
        | _ => throw .starsNotAlone
      else throw .starsNotAlone
    | _ => throw .tooManyStars
  | fuel + 1, _, '[' :: rest => do
    match bracket rest with
    | some (token, rest) => return token :: (← tokens fuel (some ']') rest)
    | none => throw .badRange
  | fuel + 1, _, c :: rest => do return .char c :: (← tokens fuel (some c) rest)

/-- Read a pattern. -/
def parse (pattern : String) : Except Fault (List Token) :=
  tokens pattern.length none pattern.toList

/-- Match the characters of a name; at its start no wildcard matches a dot. -/
def matchChars : (atStart : Bool) → List Token → List Char → Bool
  | _, [], cs => cs.isEmpty
  | atStart, .anyRun :: ts, cs =>
    matchChars atStart ts cs || consume atStart ts cs
  | atStart, .anyDepth :: ts, cs =>
    matchChars atStart ts cs || consume atStart ts cs
  | _, _ :: _, [] => false
  | _, .char d :: ts, c :: cs => c == d && matchChars false ts cs
  | atStart, .anyChar :: ts, c :: cs => !(atStart && c == '.') && matchChars false ts cs
  | atStart, .within sets :: ts, c :: cs => !(atStart && c == '.') && sets.any (·.has c) && matchChars false ts cs
  | atStart, .except sets :: ts, c :: cs => !(atStart && c == '.') && !sets.any (·.has c) && matchChars false ts cs
where
  /-- Give one character or more to a star. -/
  consume (atStart : Bool) (ts : List Token) : List Char → Bool
    | [] => false
    | c :: cs => !(atStart && c == '.') && (matchChars false ts cs || consume false ts cs)

/-- Whether a name matches a component of a pattern. -/
def matchName (ts : List Token) (name : String) : Bool :=
  matchChars true ts name.toList

/-- The text of a component without wildcards. -/
def literal? : List Token → Option (List Char)
  | [] => some []
  | .char c :: ts => (literal? ts).map (c :: ·)
  | _ :: _ => none

/-- Whether a component stands for any number of directories. -/
def isDeep (ts : List Token) : Bool :=
  ts.contains .anyDepth

/-- Whether a path is the working directory. -/
def isHere (path : String) : Bool :=
  match path.splitOn "/" with
  | "." :: rest => rest.all fun c => c == "" || c == "."
  | _ => false

/-- The path of a name in a directory; the working directory is not written. -/
def below (path name : String) : String :=
  if isHere path then name else FilePath.join path name

/-- The last component of a path. -/
def lastName (path : String) : String :=
  (path.splitOn "/").getLastD ""

/-- The names in the directory at a path that are not hidden. -/
def visibleNames (tree : FileTree) (path : String) : List String :=
  match tree.lookup path with
  | .ok (p, .directory) => (tree.children p).filter fun n => n.toList.head? != some '.'
  | _ => []

/-- The state of a search: where it looks, and whether only directories count. -/
structure Search where
  tree : FileTree
  directoriesOnly : Bool

/-- A path that matches the whole pattern, if it counts. -/
def Search.accept (s : Search) (path : String) : List String :=
  if s.directoriesOnly && !s.tree.isDirectory path then [] else [path]

mutual

/-- The matches of a pattern in the directory at a path. The first argument bounds the depth of the search. -/
def Search.within (s : Search) : Nat → List (List Token) → String → List String
  | 0, _, _ => []
  | _, [], _ => []
  | fuel + 1, p :: ps, path =>
    match literal? p with
    | some cs =>
      let name := String.ofList cs
      let next := below path name
      if (if name == "." || name == ".." then s.tree.isDirectory path else s.tree.holds next) then
        s.beyond fuel ps next else []
    | none =>
      if s.tree.isDirectory path then
        let special := if p.head? == some (.char '.') then [".", ".."].filter (matchName p) else []
        (visibleNames s.tree path).flatMap (fun name => s.visit fuel p ps (below path name)) ++
          special.flatMap fun name => s.beyond fuel ps (FilePath.join path name)
      else []

/-- The matches at or below a path that matched so far. -/
def Search.beyond (s : Search) : Nat → List (List Token) → String → List String
  | 0, _, _ => []
  | _, [], path => s.accept path
  | fuel + 1, ps, path => s.within fuel ps path

/-- The matches at or below a path whose name stands against the component `p`. -/
def Search.visit (s : Search) : Nat → List Token → List (List Token) → String → List String
  | 0, _, _, _ => []
  | fuel + 1, p, ps, path =>
    if isDeep p then
      let ps := ps.dropWhile isDeep
      (if s.tree.isDirectory path then s.within fuel (p :: ps) path ++ (if ps.isEmpty then [path] else []) else []) ++
        (match ps with
        | [] => []
        | q :: qs => s.named fuel q qs path)
    else s.named fuel p ps path

/-- The matches at or below a path whose name must match the component `p`. -/
def Search.named (s : Search) : Nat → List Token → List (List Token) → String → List String
  | 0, _, _, _ => []
  | fuel + 1, p, ps, path => if matchName p (lastName path) then s.beyond fuel ps path else []

end

/-- The components of a pattern; a trailing slash is not one. -/
def patternParts (pattern : List Char) : List String :=
  match (String.ofList pattern).splitOn "/" with
  | parts => if parts.getLast? == some "" then parts.dropLast else parts

/-- The paths that match a pattern, sorted. -/
def expand (tree : FileTree) (pattern : String) : Except Cause (List String) := do
  let fault (f : Fault) : Cause := .type s!"bad wildcard {pattern}: {f.message}"
  let _ ← (parse pattern).mapError fault
  let absolute := FilePath.isAbsolute pattern
  let rest := if absolute then pattern.toList.drop 1 else pattern.toList
  let parts ← (patternParts rest).mapM fun part => (parse part).mapError fault
  let parts := if rest.isEmpty then [[]] else parts
  let search : Search := ⟨tree, pattern.toList.getLast? == some '/'⟩
  let depth := tree.entries.foldl (fun n e => max n e.1.length) 0
  let matched := search.within (4 * (parts.length + 1) * (depth + 2)) parts (if absolute then "/" else ".")
  return matched.mergeSort fun a b => decide (a ≤ b)

end Glob

end DualShell
