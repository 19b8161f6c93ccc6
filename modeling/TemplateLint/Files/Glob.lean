import TemplateLint.Files.Tree
import TemplateLint.Files.Wildcard

/-!
# Globs

A glob is a path whose segments are wildcards. The segment `**` stands for a directory and
everything below it, and a choice in braces for each of its alternatives.

`Glob.expand` lists the paths that a glob matches. The entries of a directory are visited in
the order of their names and what lies below a directory at the place of that directory. The
matches of a choice are put in the order of their bytes and listed once. Links are followed, so a
glob sees a tree in which what a link leads to stands in its place.
-/
namespace TemplateLint.Glob

/-! ### Well-formed patterns -/

/-- What a byte of a pattern belongs to. -/
inductive Place where
  | outside
  /-- Behind a backslash. -/
  | quoted
  /-- Behind the bracket that opens a set. -/
  | opened
  /-- Before the first member of a set that is negated. -/
  | fresh
  | inside
  /-- Behind a backslash in a set. -/
  | insideQuoted

/-- Whether every set and, with `depth` of them open, every brace is closed, and no backslash
stands at the end. -/
def isWellFormedIn : Place → (depth : Nat) → Bytes → Bool
  | .outside, depth, [] => depth == 0
  | .quoted, _, [] => false
  | .opened, _, [] => false
  | .fresh, _, [] => false
  | .inside, _, [] => false
  | .insideQuoted, _, [] => false
  | .outside, depth, b :: s =>
    if b = Byte.backslash then isWellFormedIn .quoted depth s
    else if b = Byte.openBracket then isWellFormedIn .opened depth s
    else if b = Byte.openBrace then isWellFormedIn .outside (depth + 1) s
    else if b = Byte.closeBrace then depth != 0 && isWellFormedIn .outside (depth - 1) s
    else isWellFormedIn .outside depth s
  | .quoted, depth, _ :: s => isWellFormedIn .outside depth s
  | .opened, depth, b :: s =>
    if b = 0x21 || b = 0x5e then isWellFormedIn .fresh depth s
    else if b = Byte.closeBracket then false
    else if b = Byte.backslash then isWellFormedIn .insideQuoted depth s
    else isWellFormedIn .inside depth s
  | .fresh, depth, b :: s =>
    if b = Byte.closeBracket then false
    else if b = Byte.backslash then isWellFormedIn .insideQuoted depth s
    else isWellFormedIn .inside depth s
  | .inside, depth, b :: s =>
    if b = Byte.closeBracket then isWellFormedIn .outside depth s
    else if b = Byte.backslash then isWellFormedIn .insideQuoted depth s
    else isWellFormedIn .inside depth s
  | .insideQuoted, depth, _ :: s => isWellFormedIn .inside depth s

def isWellFormed (pattern : Bytes) : Bool := isWellFormedIn .outside 0 pattern

/-! ### Parts of patterns -/

/-- A byte that makes a text more than a name. -/
def isMeta (b : UInt8) : Bool :=
  b == Byte.star || b == Byte.question || b == Byte.openBracket || b == Byte.openBrace

/-- Whether a pattern is more than a path, its first byte being quoted or not. -/
def hasMeta : (quoted : Bool) → Bytes → Bool
  | _, [] => false
  | true, _ :: s => hasMeta false s
  | false, b :: s => isMeta b || hasMeta (b == Byte.backslash) s

/-- A path without the backslashes before bytes that mean something in patterns. -/
def unescape : Bytes → Bytes
  | [] => []
  | [b] => [b]
  | b :: c :: rest =>
    if b = Byte.backslash && (isMeta c || c == Byte.closeBracket || c == Byte.closeBrace) then
      c :: unescape rest
    else b :: unescape (c :: rest)

/-- Whether two stars stand together with at least two more bytes behind them. -/
def hasInnerDoubleStar : Bytes → Bool
  | b :: c :: d :: e :: rest =>
    if b = Byte.backslash then hasInnerDoubleStar (d :: e :: rest)
    else if b = Byte.star && c = Byte.star then true
    else hasInnerDoubleStar (c :: d :: e :: rest)
  | _ => false

/-- The text before and behind the last slash that no wildcard precedes, the first byte being
quoted or not. -/
def splitBase? : (quoted : Bool) → Bytes → Option (Bytes × Bytes)
  | _, [] => none
  | true, b :: s => (splitBase? false s).map fun (x, y) => (b :: x, y)
  | false, b :: s =>
    if isMeta b then none
    else
      match splitBase? (b == Byte.backslash) s with
      | some (x, y) => some (b :: x, y)
      | none => if b = Byte.slash then some ([], s) else none

/-- The working directory. -/
def here : Bytes := [Byte.dot]

/-- A pattern as a directory without wildcards and the pattern inside it. -/
def splitBase (pattern : Bytes) : Bytes × Bytes :=
  match splitBase? false pattern with
  | none => (here, pattern)
  | some ([], inner) => ([Byte.slash], inner)
  | some (base, inner) => (base, inner)

/-- The last byte of a kind that has no backslash before it, and the texts around it. -/
def splitLast? (stop : UInt8 → Bool) (previous : Option UInt8) :
    Bytes → Option (Bytes × UInt8 × Bytes)
  | [] => none
  | b :: s =>
    match splitLast? stop (some b) s with
    | some (x, c, y) => some (b :: x, c, y)
    | none => if stop b && previous != some Byte.backslash then some ([], b, s) else none

/-- The texts around the brace that opens the innermost of `depth` choices, read backwards
through a text in reverse; `inner` is what has been passed. -/
def splitOpening? (depth : Nat) : (reversed inner : Bytes) → Option (Bytes × Bytes)
  | [], _ => none
  | b :: reversed, inner =>
    let quoted := reversed.head? == some Byte.backslash
    if b = Byte.closeBrace && !quoted then splitOpening? (depth + 1) reversed (b :: inner)
    else if b = Byte.openBrace && !quoted then
      if depth ≤ 1 then some (reversed.reverse, inner)
      else splitOpening? (depth - 1) reversed (b :: inner)
    else splitOpening? depth reversed (b :: inner)

/-- The alternatives between the braces of a choice, the one being read given in reverse. An
empty alternative at the end is none. -/
def alternativesFrom : (depth : Int) → (quoted : Bool) → (reversed : Bytes) → Bytes → List Bytes
  | _, _, [], [] => []
  | _, _, reversed, [] => [reversed.reverse]
  | depth, true, reversed, b :: s => alternativesFrom depth false (b :: reversed) s
  | depth, false, reversed, b :: s =>
    if b = Byte.comma && depth = 1 then reversed.reverse :: alternativesFrom 1 false [] s
    else
      let depth :=
        if b = Byte.openBrace then depth + 1
        else if b = Byte.closeBrace then depth - 1
        else depth
      alternativesFrom depth (b == Byte.backslash) (b :: reversed) s

def alternatives (inner : Bytes) : List Bytes := alternativesFrom 1 false [] inner

/-- A pattern that is more than a path. A missing directory is the one the pattern is in. -/
inductive Shape where
  /-- The names in a directory that match a segment. -/
  | segment (directory : Option Bytes) (name : Bytes)
  /-- One of several alternatives between two texts. -/
  | choice (directory : Option Bytes) (before : Bytes) (choices : List Bytes) (behind : Bytes)

def isSlash (b : UInt8) : Bool := b == Byte.slash

def isSlashOrBrace (b : UInt8) : Bool := b == Byte.slash || b == Byte.closeBrace

/-- A pattern as a segment in a directory. -/
def Shape.ofSegment (pattern : Bytes) : Shape :=
  match splitLast? isSlash none pattern with
  | none => .segment none pattern
  | some (directory, _, name) => .segment (some directory) name

/-- The shape of a pattern, decided by its last slash or closing brace. -/
def Shape.of (pattern : Bytes) : Shape :=
  match splitLast? isSlashOrBrace none pattern with
  | none => .segment none pattern
  | some (before, b, behind) =>
    if b = Byte.slash then .segment (some before) behind
    else
      match splitOpening? 1 before.reverse [] with
      | none => .ofSegment pattern
      | some (before, inner) =>
        match splitLast? isSlashOrBrace none before with
        | some (directory, c, start) =>
          if c = Byte.slash then .choice (some directory) start (alternatives inner) behind
          else .choice none before (alternatives inner) behind
        | none => .choice none before (alternatives inner) behind

/-! ### Links -/

mutual
/-- An entry of a directory, with `resolve` for the links. -/
def resolveEntry (resolve : Location → Bytes → Node) (directory : Location) (name : Bytes) :
    Node → Node
  | .file content => .file content
  | .directory entries =>
    .directory (resolveEntries resolve (directory.down name (.directory entries)) entries)
  | .link target => resolve directory target

/-- Entries of a directory, with `resolve` for the links. -/
def resolveEntries (resolve : Location → Bytes → Node) (directory : Location) :
    List (Bytes × Node) → List (Bytes × Node)
  | [] => []
  | (name, node) :: rest =>
    (name, resolveEntry resolve directory name node) :: resolveEntries resolve directory rest
end

/-- What stands at a location, each link below it replaced by what it leads to. On a way down at most
`links` of them are followed, which is less than `bound`. A link that leads nowhere stays. -/
def resolved (root : Node) : (bound links : Nat) → Location → Node
  | 0, _, l => l.node
  | bound + 1, links, l =>
    let resolve (directory : Location) (target : Bytes) : Node :=
      match links with
      | 0 => .link target
      | links + 1 =>
        match Location.follow root links (directory.origin root target) (Path.names target) with
        | (left, .arrived l) => resolved root bound left l
        | _ => .link target
    match l.node with
    | .directory entries => .directory (resolveEntries resolve l entries)
    | node => node

/-- The tree that a glob sees in a directory. -/
def view (w : Workspace) (directory : Bytes) : Option Node :=
  match w.follow directory with
  | (links, .arrived l) => some (resolved w.root (maxLinks + 1) links l)
  | _ => none

/-! ### Matches -/

/-- A match: its path from the directory the glob is expanded in, and what stands there. -/
structure Hit where
  path : Bytes
  node : Node

/-- The path of a name in a directory. -/
def extend (directory name : Bytes) : Bytes :=
  if directory = here then name else directory ++ [Byte.slash] ++ name

/-- Whether a match can be looked into: a directory whose path does not end in a slash. -/
def Hit.isOpen (h : Hit) : Bool := h.node.isDirectory && !Bytes.endsWith [Byte.slash] h.path

mutual
/-- A node and everything below it. -/
def nodesFrom (path : Bytes) : Node → List Hit
  | .file content => [⟨path, .file content⟩]
  | .directory entries => ⟨path, .directory entries⟩ :: nodesBelow path entries
  | .link target => [⟨path, .link target⟩]

/-- Everything at or below the entries of a directory. -/
def nodesBelow (path : Bytes) : List (Bytes × Node) → List Hit
  | [] => []
  | (name, node) :: rest => nodesFrom (extend path name) node ++ nodesBelow path rest
end

/-- Follow plain names from a node. -/
def descend : Node → List Bytes → Option Node
  | node, [] => some node
  | node, name :: rest =>
    if name = here || name = Path.up then none
    else (node.child? name).bind fun child => descend child rest

/-- The names of a path, a slash at its end making no difference. -/
def plainNames (path : Bytes) : List Bytes :=
  let names := Path.names path
  if 1 < path.length && path.getLast? == some Byte.slash then names.dropLast else names

/-- The match for a path without wildcards. -/
def locate (h : Hit) (path : Bytes) : Option Hit :=
  if h.path = here && path = here then some h
  else if path.isEmpty then
    if h.path = here then none else some ⟨h.path ++ [Byte.slash], h.node⟩
  else
    (descend h.node (plainNames path)).map fun node => ⟨extend h.path path, node⟩

/-- The segment that stands for a directory and everything below it. -/
def doubleStar : Bytes := [Byte.star, Byte.star]

/-- The matches of a segment in a directory, only directories unless files are wanted. -/
def inDirectory (files : Bool) (segment : Bytes) (h : Hit) : Except GlobError (List Hit) :=
  if !h.isOpen then .ok []
  else if segment.isEmpty then .ok [h]
  else if segment = doubleStar then
    .ok ((nodesFrom h.path h.node).filter fun m => files || m.node.isDirectory)
  else do
    let named ← h.node.entries.filterM fun (name, _) => Wildcard.matchesName segment name
    return (named.filter fun (_, node) => files || node.isDirectory).map fun (name, node) =>
      ⟨extend h.path name, node⟩

/-- Matches in the order of their paths with one more, unless it is there. -/
def insertHit (m : Hit) : List Hit → List Hit
  | [] => [m]
  | h :: rest =>
    if h.path = m.path then h :: rest
    else if Bytes.le m.path h.path then m :: h :: rest
    else h :: insertHit m rest

/-- A match put behind all those that go before it. -/
def placeHit (m : Hit) (hits : List Hit) : List Hit :=
  let goesBefore (h : Hit) : Bool := h.path != m.path && Bytes.le h.path m.path
  hits.takeWhile goesBefore ++ m :: hits.dropWhile goesBefore

/-- Two lists of matches, each in the order of paths, as one without repetition. -/
def mergeHits : List Hit → List Hit → List Hit
  | [], others => others
  | m :: hits, [] => m :: hits
  | m :: hits, o :: others =>
    if m.path = o.path then m :: mergeHits hits others
    else if Bytes.le m.path o.path then m :: mergeHits hits (o :: others)
    else o :: mergeHits hits (placeHit m others)

/-- How the matches of a choice are arranged. -/
inductive Arrangement where
  /-- Put in order within each directory that holds the choice. -/
  | byDirectory
  /-- Put in order all together. -/
  | together
  deriving DecidableEq

/-- The matches of a choice, given for each directory and each alternative. -/
def Arrangement.arrange : Arrangement → List (List (List Hit)) → List Hit
  | .byDirectory, found => found.flatMap fun choices => choices.foldl mergeHits []
  | .together, found => found.flatten.flatten.foldl (fun hits m => insertHit m hits) []

/-- The matches of a pattern inside a directory. Every step leaves a shorter pattern, so a
length is bound enough. -/
def expandIn (arrangement : Arrangement) :
    (bound : Nat) → (files : Bool) → (pattern : Bytes) → Hit → Except GlobError (List Hit)
  | 0, _, _, _ => .ok []
  | bound + 1, files, pattern, h =>
    if !hasMeta false pattern then .ok (locate h (unescape pattern)).toList
    else
      let directories : Option Bytes → Except GlobError (List Hit)
        | none => .ok [h]
        | some directory => expandIn arrangement bound false directory h
      match Shape.of pattern with
      | .segment (some directory) name =>
        if hasMeta false directory then do
          let hits ← directories (some directory)
          return (← hits.mapM (inDirectory files name)).flatten
        else do
          return (← (locate h directory).toList.mapM (inDirectory files name)).flatten
      | .segment none name => inDirectory files name h
      | .choice directory before choices behind => do
        let found ← (← directories directory).mapM fun d =>
          choices.mapM fun choice => expandIn arrangement bound files (before ++ choice ++ behind) d
        return arrangement.arrange found

/-- How the matches of a choice are arranged in a pattern. -/
def arrangement (pattern : Bytes) : Arrangement :=
  if hasInnerDoubleStar pattern then .together else .byDirectory

/-- The paths that a glob matches. The empty glob matches nothing; a glob is cleaned like a
path before it is looked at. -/
def expand (w : Workspace) (glob : Bytes) : Except GlobError (List Bytes) :=
  if glob.isEmpty then .ok []
  else
    let cleaned := Path.clean glob
    let (base, pattern) := splitBase cleaned
    if pattern.isEmpty || pattern = here || pattern = Path.up then
      if !isWellFormed cleaned then .error .malformed
      else .ok (if w.pathExists (unescape cleaned) then [unescape cleaned] else [])
    else if !isWellFormed pattern then .error .malformed
    else
      match view w base with
      | none => .ok []
      | some node => do
        let hits ← expandIn (arrangement pattern) (pattern.length + 1) true pattern ⟨here, node⟩
        return hits.map fun m => Path.join base m.path

end TemplateLint.Glob
