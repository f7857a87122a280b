import SchemaTypes.Files.Tree

/-!
# Patterns of file paths

A pattern is a path in which wildcards may stand for parts of names: `?` for one character, `*` for
any number of them, `[…]` for one of some characters and `[!…]` for one of all others. A part `**`
stands for any number of directories. Wildcards are matched against the names of the entries of
directories, so they never match a slash; names that start with a dot are like all others.

A pattern is first read as a whole, because a bracket may hold a slash, and then part by part.
-/

namespace SchemaTypes

/-- What is wrong with a pattern. -/
inductive GlobFault.Kind where
  /-- More than two stars. -/
  | tooManyStars
  /-- Two stars with something else between the slashes. -/
  | starsNotAlone
  | badBracket
  deriving DecidableEq

/-- What is wrong with a pattern, and where: a number of characters. -/
structure GlobFault where
  position : Nat
  kind : GlobFault.Kind
  deriving DecidableEq

namespace GlobFault

/-- The description of a kind of fault. -/
def Kind.message : Kind → String
  | .tooManyStars => "wildcards are either regular `*` or recursive `**`"
  | .starsNotAlone => "recursive wildcards must form a single path component"
  | .badBracket => "invalid range pattern"

/-- The text of a fault. -/
def message (e : GlobFault) : String :=
  "Pattern syntax error near position " ++ toString e.position ++ ": " ++ e.kind.message

end GlobFault

namespace Glob

/-- A piece of a pattern. Brackets hold ranges of characters, both ends included. -/
inductive Token where
  | char (c : Char)
  | one
  | many
  | within (ranges : List (Char × Char))
  | outside (ranges : List (Char × Char))
  /-- Two stars alone between slashes. -/
  | anyDepth
  deriving DecidableEq

/-- The ranges in a bracket. -/
def ranges : List Char → List (Char × Char)
  | a :: '-' :: b :: rest => (a, b) :: ranges rest
  | a :: rest => (a, a) :: ranges rest
  | [] => []

/-- What stands in a bracket, and what stands behind it. The first character never closes it. -/
def bracket? : List Char → Option (List Char × List Char)
  | [] => none
  | first :: rest =>
    match rest.dropWhile (· ≠ ']') with
    | [] => none
    | _ :: behind => some (first :: rest.takeWhile (· ≠ ']'), behind)

theorem length_of_bracket?_eq_some {cs inside behind : List Char}
    (h : bracket? cs = some (inside, behind)) : behind.length < cs.length := by
  cases cs with
  | nil => simp [bracket?] at h
  | cons first rest =>
    have hle := (List.dropWhile_suffix (fun c => decide (c ≠ ']')) (l := rest)).length_le
    simp only [bracket?] at h
    split at h
    · simp at h
    · rename_i heq
      rw [heq] at hle
      simp only [Option.some.injEq, Prod.mk.injEq] at h
      obtain ⟨-, rfl⟩ := h
      simp only [List.length_cons] at hle ⊢
      omega

/-- The tokens of a pattern whose first character has the given position. Two stars have to stand
between slashes or the ends of the pattern; `afterSlash` says whether a slash or nothing stands in
front. -/
def tokens (position : Nat) (afterSlash : Bool) (cs : List Char) :
    Except GlobFault (List Token) :=
  match cs with
  | [] => .ok []
  | '?' :: rest => do return .one :: (← tokens (position + 1) false rest)
  | '*' :: '*' :: '*' :: _ => .error ⟨position + 2, .tooManyStars⟩
  | '*' :: '*' :: rest =>
    if !afterSlash then .error ⟨position - 1, .starsNotAlone⟩
    else
      match rest with
      | [] => .ok [.anyDepth]
      | '/' :: rest => do return .anyDepth :: (← tokens (position + 3) true rest)
      | _ :: _ => .error ⟨position + 2, .starsNotAlone⟩
  | '*' :: rest => do return .many :: (← tokens (position + 1) false rest)
  | '[' :: '!' :: rest =>
    match h : bracket? rest with
    | none => .error ⟨position, .badBracket⟩
    | some (inside, behind) => do
      return .outside (ranges inside) :: (← tokens (position + inside.length + 3) false behind)
  | '[' :: rest =>
    match h : bracket? rest with
    | none => .error ⟨position, .badBracket⟩
    | some (inside, behind) => do
      return .within (ranges inside) :: (← tokens (position + inside.length + 2) false behind)
  | c :: rest => do return .char c :: (← tokens (position + 1) (c == '/') rest)
termination_by cs.length
decreasing_by
  all_goals simp only [List.length_cons]
  all_goals
    first
    | omega
    | have hlt := length_of_bracket?_eq_some h
      omega

/-- Whether a character is in one of the ranges. -/
def inRanges (ranges : List (Char × Char)) (c : Char) : Bool :=
  ranges.any fun (low, high) => low ≤ c && c ≤ high

/-- What is left of a name after any number of its characters. -/
def suffixes : List Char → List (List Char)
  | [] => [[]]
  | c :: rest => (c :: rest) :: suffixes rest

/-- Whether tokens match a name, from its first character to its last. -/
def covers : List Token → List Char → Bool
  | [], cs => cs.isEmpty
  | .many :: tokens, cs | .anyDepth :: tokens, cs =>
    (suffixes cs).any fun rest => covers tokens rest
  | .char c :: tokens, d :: cs => c == d && covers tokens cs
  | .one :: tokens, _ :: cs => covers tokens cs
  | .within ranges :: tokens, c :: cs => inRanges ranges c && covers tokens cs
  | .outside ranges :: tokens, c :: cs => !inRanges ranges c && covers tokens cs
  | _ :: _, [] => false

/-- The text that tokens are without a wildcard. -/
def literal? : List Token → Option String
  | [] => some ""
  | .char c :: tokens => (literal? tokens).map fun rest => String.ofList (c :: rest.toList)
  | _ :: _ => none

/-- One step of the way that a pattern describes. -/
inductive Step where
  /-- To one entry, which is looked up. -/
  | entry (name : String)
  /-- To the entries whose name matches. -/
  | wildcard (tokens : List Token)
  /-- To everything below whose name matches, at any depth. -/
  | anywhere (tokens : List Token)
  /-- To the directories below, at any depth. -/
  | directories

/-- The steps of a pattern. After two stars, `deep` holds: the next part is looked for at any depth,
and more stars change nothing. -/
def stepsOf (deep : Bool) : List (List Token) → List Step
  | [] => if deep then [.directories] else []
  | [.anyDepth] :: rest => stepsOf true rest
  | tokens :: rest =>
    let step :=
      if deep then .anywhere tokens
      else
        match literal? tokens with
        | some name => .entry name
        | none => .wildcard tokens
    step :: stepsOf false rest

end Glob

/-- A pattern: where it starts, the steps from there, and whether only directories match. -/
structure Glob where
  start : FilePath
  steps : List Glob.Step
  onlyDirectories : Bool

namespace Glob

/-- The parts of a pattern between slashes. A slash at the end ends the last part. -/
def partsOf (cs : List Char) : List (List Char) :=
  let pieces := Text.split (· == '/') cs
  if pieces.getLast? = some [] then pieces.dropLast else pieces

/-- The pattern that a text is. -/
def parse (pattern : String) : Except GlobFault Glob := do
  let cs := pattern.toList
  let _ ← tokens 0 true cs
  let absolute := cs.head? == some '/'
  let parts ← (partsOf (if absolute then cs.drop 1 else cs)).mapM (tokens 0 true)
  return {
    start := if absolute then ⟨"/"⟩ else .here
    steps := stepsOf false parts
    onlyDirectories := cs.getLast? == some '/' }

/-- Where one step leads to. A dot or two dots are entries of any directory, but a wildcard matches
them only if it starts with a dot. -/
def follow (fs : FileSystem) (place : FilePath) : Step → List FilePath
  | .entry name =>
    let next := if place.same .here then ⟨name⟩ else place.join ⟨name⟩
    let found := if name = "." ∨ name = ".." then fs.isDirectory place else fs.contains next
    if found then [next] else []
  | .wildcard tokens =>
    if fs.isDirectory place then
      let dots :=
        if tokens.head? = some (.char '.') then
          [".", ".."].filter fun name => covers tokens name.toList
        else []
      dots.map (fun name => place.join ⟨name⟩) ++
        ((fs.names place).filter fun name => covers tokens name.text.toList).map place.child
    else []
  | .anywhere tokens =>
    ((fs.descendants place).filter fun found => covers tokens found.name.text.toList).map (·.path)
  | .directories => ((fs.descendants place).filter (·.node.isDirectory)).map (·.path)

/-- Where all steps lead to. -/
def followAll (fs : FileSystem) : FilePath → List Step → List FilePath
  | place, [] => [place]
  | place, step :: rest => (follow fs place step).flatMap fun next => followAll fs next rest

/-- The paths that match a pattern. -/
def paths (glob : Glob) (fs : FileSystem) : List FilePath :=
  (followAll fs glob.start glob.steps).filter fun p => !glob.onlyDirectories || fs.isDirectory p

end Glob

end SchemaTypes
