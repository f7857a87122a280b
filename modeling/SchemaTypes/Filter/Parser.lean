import SchemaTypes.Filter.Token

/-!
# Reading filters

The grammar of filters. Operators bind, from the loosest to the tightest: the bar, the comma, the
alternative, `or`, `and`, equality, order, sums and products. All of them group to the left except
for the bar. Words such as `or` and `then` are names of filters wherever a filter is expected.
-/

namespace SchemaTypes
namespace Filter

/-- The words that are no names of filters. What they start is no filter either. -/
def reserved : List String :=
  ["def", "label", "break", "reduce", "foreach", "try"]

/-- The words that a text may not start with if it is a filter. -/
def declarative : List String :=
  ["module", "import", "include"]

/-- How two filters are combined by an operator. -/
structure BinaryOperator where
  precedence : Nat
  groupsRight : Bool
  combine : Filter → Filter → Filter

/-- The operator that a token stands for. -/
def BinaryOperator.ofToken? : Token → Option BinaryOperator
  | .operator "|" => some ⟨0, true, .pipe⟩
  | .mark ',' => some ⟨1, false, .both⟩
  | .operator "//" => some ⟨2, false, .orElse⟩
  | .word "or" => some ⟨3, false, .or⟩
  | .word "and" => some ⟨4, false, .and⟩
  | .operator "==" => some ⟨5, false, .compare .equal⟩
  | .operator "!=" => some ⟨5, false, .compare .unequal⟩
  | .operator "<" => some ⟨6, false, .compare .less⟩
  | .operator "<=" => some ⟨6, false, .compare .lessOrEqual⟩
  | .operator ">" => some ⟨6, false, .compare .greater⟩
  | .operator ">=" => some ⟨6, false, .compare .greaterOrEqual⟩
  | .operator "+" => some ⟨7, false, .arithmetic .add⟩
  | .operator "-" => some ⟨7, false, .arithmetic .subtract⟩
  | .operator "*" => some ⟨8, false, .arithmetic .multiply⟩
  | _ => none

/-- The tokens after a given mark. -/
def expectMark (c : Char) : List Token → Option (List Token)
  | .mark d :: rest => if c = d then some rest else none
  | _ => none

/-- The tokens after a given word. -/
def expectWord (name : String) : List Token → Option (List Token)
  | .word other :: rest => if name = other then some rest else none
  | _ => none

/-- A filter with the steps of a path behind it. -/
def withSteps (f : Filter) (steps : List (PathStep Filter × Bool)) : Filter :=
  if steps.isEmpty then f else .path f steps

/-- The steps of a path, of which the last one is made quiet. -/
def quietLast (steps : List (PathStep Filter × Bool)) : List (PathStep Filter × Bool) :=
  steps.dropLast ++ steps.getLast?.toList.map fun (step, _) => (step, true)

/-- The filter that gives a text. -/
def ofText (s : String) : Filter :=
  .literal (.string s)

/-- The filter that gives the member of an object. -/
def member (key : String) : Filter :=
  .path .identity [(.index (ofText key), false)]

mutual

/-- A filter whose operators bind at least as tightly as `level`. -/
def readBinary (level : Nat) : Nat → List Token → Option (Filter × List Token)
  | 0, _ => none
  | fuel + 1, tokens => do
    let (first, rest) ← readPostfix fuel tokens
    readOperators level fuel first rest

/-- The operators after a filter that bind at least as tightly as `level`, with what follows them.
-/
def readOperators (level : Nat) : Nat → Filter → List Token → Option (Filter × List Token)
  | 0, _, _ => none
  | _ + 1, first, [] => some (first, [])
  | fuel + 1, first, token :: rest =>
    match BinaryOperator.ofToken? token with
    | none => some (first, token :: rest)
    | some operator =>
      if operator.precedence < level then some (first, token :: rest)
      else do
        let inner := if operator.groupsRight then operator.precedence else operator.precedence + 1
        let (second, after) ← readBinary inner fuel rest
        readOperators level fuel (operator.combine first second) after

/-- A filter without operators around it, with the steps behind it. -/
def readPostfix : Nat → List Token → Option (Filter × List Token)
  | 0, _ => none
  | fuel + 1, tokens => do
    let (f, rest) ← readAtom fuel tokens
    readSteps fuel f [] rest

/-- The steps and question marks behind a filter that already has some steps. A question mark makes
the last step quiet, or the filter if it has none. -/
def readSteps : Nat → Filter → List (PathStep Filter × Bool) → List Token →
    Option (Filter × List Token)
  | 0, _, _, _ => none
  | fuel + 1, f, steps, tokens =>
    match tokens with
    | .mark '?' :: rest =>
      if steps.isEmpty then readSteps fuel (.quiet f) [] rest
      else readSteps fuel f (quietLast steps) rest
    | .field name :: rest => readSteps fuel f (steps ++ [(.index (ofText name), false)]) rest
    | .mark '.' :: .text s :: rest => readSteps fuel f (steps ++ [(.index (ofText s), false)]) rest
    | .mark '[' :: rest => do
      let (step, after) ← readBrackets fuel rest
      readSteps fuel f (steps ++ [(step, false)]) after
    | .mark '.' :: _ => none
    | rest => some (withSteps f steps, rest)

/-- What stands between the brackets of a step, and its closing bracket. -/
def readBrackets : Nat → List Token → Option (PathStep Filter × List Token)
  | 0, _ => none
  | _ + 1, .mark ']' :: rest => some (.each, rest)
  | fuel + 1, .mark ':' :: rest => do
    let (last, after) ← readBinary 0 fuel rest
    let rest ← expectMark ']' after
    return (.slice none (some last), rest)
  | fuel + 1, tokens => do
    let (first, after) ← readBinary 0 fuel tokens
    match after with
    | .mark ']' :: rest => some (.index first, rest)
    | .mark ':' :: .mark ']' :: rest => some (.slice (some first) none, rest)
    | .mark ':' :: rest => do
      let (last, after) ← readBinary 0 fuel rest
      let rest ← expectMark ']' after
      return (.slice (some first) (some last), rest)
    | _ => none

/-- A filter without anything behind it. A name or a string behind a dot is left to the steps of a
path. -/
def readAtom : Nat → List Token → Option (Filter × List Token)
  | 0, _ => none
  | _ + 1, .mark '.' :: .text s :: rest => some (.identity, .mark '.' :: .text s :: rest)
  | _ + 1, .mark '.' :: rest => some (.identity, rest)
  | _ + 1, .field name :: rest => some (.identity, .field name :: rest)
  | _ + 1, .number q :: rest => some (.literal (.number q), rest)
  | _ + 1, .text s :: rest => some (ofText s, rest)
  | _ + 1, .variable name :: rest => some (.undefined name [], rest)
  | fuel + 1, .operator "-" :: rest => do
    let (f, after) ← readPostfix fuel rest
    return (.negate f, after)
  | fuel + 1, .mark '(' :: rest => do
    let (f, after) ← readBinary 0 fuel rest
    let rest ← expectMark ')' after
    return (f, rest)
  | _ + 1, .mark '[' :: .mark ']' :: rest => some (.list none, rest)
  | fuel + 1, .mark '[' :: rest => do
    let (f, after) ← readBinary 0 fuel rest
    let rest ← expectMark ']' after
    return (.list (some f), rest)
  | _ + 1, .mark '\x7b' :: .mark '\x7d' :: rest => some (.object [], rest)
  | fuel + 1, .mark '\x7b' :: rest => do
    let (entries, after) ← readEntries fuel rest
    return (.object entries, after)
  | fuel + 1, .word "if" :: rest => readIf fuel rest
  | fuel + 1, .word name :: rest =>
    if reserved.contains name then none
    else
      match rest with
      | .mark '(' :: more => do
        let (arguments, after) ← readArguments fuel more
        return (call name arguments, after)
      | _ => some (call name [], rest)
  | _ + 1, _ => none

/-- The arguments of a name up to the closing parenthesis. -/
def readArguments : Nat → List Token → Option (List Filter × List Token)
  | 0, _ => none
  | fuel + 1, tokens => do
    let (f, after) ← readBinary 0 fuel tokens
    match after with
    | .mark ')' :: rest => some ([f], rest)
    | .mark ';' :: rest => do
      let (fs, rest) ← readArguments fuel rest
      return (f :: fs, rest)
    | _ => none

/-- A condition after its `if`, with all that belongs to it. -/
def readIf : Nat → List Token → Option (Filter × List Token)
  | 0, _ => none
  | fuel + 1, tokens => do
    let (condition, after) ← readBinary 0 fuel tokens
    let (thenDo, after) ← readBinary 0 fuel (← expectWord "then" after)
    match after with
    | .word "elif" :: rest => do
      let (elseDo, rest) ← readIf fuel rest
      return (.ifThenElse condition thenDo elseDo, rest)
    | .word "else" :: rest => do
      let (elseDo, after) ← readBinary 0 fuel rest
      return (.ifThenElse condition thenDo elseDo, ← expectWord "end" after)
    | .word "end" :: rest => some (.ifThenElse condition thenDo .identity, rest)
    | _ => none

/-- The entries of an object up to the closing brace. A comma may stand behind the last one. -/
def readEntries : Nat → List Token → Option (List (Filter × Filter) × List Token)
  | 0, _ => none
  | fuel + 1, tokens => do
    let (entry, after) ← readEntry fuel tokens
    match after with
    | .mark '\x7d' :: rest | .mark ',' :: .mark '\x7d' :: rest => some ([entry], rest)
    | .mark ',' :: rest => do
      let (entries, rest) ← readEntries fuel rest
      return (entry :: entries, rest)
    | _ => none

/-- An entry of an object. An entry without a value takes the member of its name. -/
def readEntry : Nat → List Token → Option ((Filter × Filter) × List Token)
  | 0, _ => none
  | fuel + 1, .mark '(' :: rest => do
    let (key, after) ← readBinary 0 fuel rest
    let after ← expectMark ')' after
    let (v, rest) ← readEntryValue fuel (← expectMark ':' after)
    return ((key, v), rest)
  | fuel + 1, .word name :: .mark ':' :: rest => do
    let (v, rest) ← readEntryValue fuel rest
    return ((ofText name, v), rest)
  | fuel + 1, .text s :: .mark ':' :: rest => do
    let (v, rest) ← readEntryValue fuel rest
    return ((ofText s, v), rest)
  | fuel + 1, .variable name :: .mark ':' :: rest => do
    let (v, rest) ← readEntryValue fuel rest
    return ((.undefined name [], v), rest)
  | _ + 1, .word name :: rest => some ((ofText name, member name), rest)
  | _ + 1, .text s :: rest => some ((ofText s, member s), rest)
  | _ + 1, .variable name :: rest => some ((ofText name, .undefined name []), rest)
  | _ + 1, _ => none

/-- The value of an entry: a filter in which a comma outside of parentheses ends it. -/
def readEntryValue : Nat → List Token → Option (Filter × List Token)
  | 0, _ => none
  | fuel + 1, tokens => do
    let (first, rest) ← readBinary 2 fuel tokens
    match rest with
    | .operator "|" :: more => do
      let (second, after) ← readEntryValue fuel more
      return (.pipe first second, after)
    | _ => some (first, rest)

end

/-- Whether the first of some tokens is a word that no filter starts with. -/
def isDeclarative : List Token → Bool
  | .word name :: _ => declarative.contains name
  | _ => false

/-- The filter that a text is. -/
def parse? (text : String) : Option Filter := do
  let tokens ← Token.ofText? text
  if isDeclarative tokens then none
  else
    match readBinary 0 (6 * tokens.length + 6) tokens with
    | some (f, []) => some f
    | _ => none

end Filter
end SchemaTypes
