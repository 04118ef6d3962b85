import Haulage.Numeric.Decimal

/-!
# Glob patterns

A pattern is matched against a whole path. `?` stands for one character and `*` for any sequence,
slashes included; `[...]` stands for one character of a class and `[!...]` for one outside it; `**`
stands for any number of whole components and must be a component itself.
-/

set_option autoImplicit false

namespace Haulage.Glob

/-- A member of a character class. -/
inductive Member where
  | single (c : Char)
  | range (first last : Char)
  deriving Repr, DecidableEq

/-- Whether a class member covers a character. -/
def Member.covers (m : Member) (c : Char) : Bool :=
  match m with
  | .single d => c == d
  | .range first last => first ≤ c && c ≤ last

/-- An element of a pattern. -/
inductive Token where
  | literal (c : Char)
  | anyChar
  | anySequence
  | anyComponents
  | within (members : List Member)
  | except (members : List Member)
  deriving Repr, DecidableEq

/-- Why a text is no pattern; positions count characters. -/
inductive Flaw where
  | wildcards (position : Nat)
  | recursive (position : Nat)
  | range (position : Nat)
  deriving Repr, DecidableEq

/-- The wording of a flaw. -/
def Flaw.message : Flaw → String
  | .wildcards position => near position "wildcards are either regular `*` or recursive `**`"
  | .recursive position => near position "recursive wildcards must form a single path component"
  | .range position => near position "invalid range pattern"
where
  /-- A remark with its position. -/
  near (position : Nat) (remark : String) : String :=
    "Pattern syntax error near position " ++ Numeric.decimal position ++ ": " ++ remark

/-- The members of a class from the characters between its brackets. -/
def members : List Char → List Member
  | a :: '-' :: b :: rest => .range a b :: members rest
  | a :: rest => .single a :: members rest
  | [] => []

/-- The class that follows an opening bracket, and what follows its closing one. The first character
of a class stands for itself, also if it is a closing bracket. -/
def readClass? : List Char → Option (Token × List Char)
  | '!' :: first :: rest =>
    match rest.dropWhile (· != ']') with
    | [] => none
    | _ :: after => some (.except (members (first :: rest.takeWhile (· != ']'))), after)
  | first :: rest =>
    if first = '!' then none
    else
      match rest.dropWhile (· != ']') with
      | [] => none
      | _ :: after => some (.within (members (first :: rest.takeWhile (· != ']'))), after)
  | [] => none

/-- Reads the tokens from a position on, given the character before it. -/
def readTokens : Nat → Nat → Option Char → List Char → Except Flaw (List Token)
  | 0, _, _, _ => .ok []
  | _ + 1, _, _, [] => .ok []
  | fuel + 1, position, before, c :: rest =>
    if c = '?' then (readTokens fuel (position + 1) (some c) rest).map (.anyChar :: ·)
    else if c = '*' then
      let stars := (rest.takeWhile (· == '*')).length + 1
      let after := rest.dropWhile (· == '*')
      if 2 < stars then .error (.wildcards (position + 2))
      else if stars = 1 then
        (readTokens fuel (position + 1) (some c) after).map (.anySequence :: ·)
      else if before = none ∨ before = some '/' then
        match after with
        | [] => .ok [.anyComponents]
        | d :: more =>
          if d = '/' then (readTokens fuel (position + 3) (some d) more).map (.anyComponents :: ·)
          else .error (.recursive (position + 2))
      else .error (.recursive (position - 1))
    else if c = '[' then
      match readClass? rest with
      | none => .error (.range position)
      | some (token, after) =>
        (readTokens fuel (position + 1 + (rest.length - after.length)) (some ']') after).map
          (token :: ·)
    else (readTokens fuel (position + 1) (some c) rest).map (.literal c :: ·)

/-- The tokens of a pattern, or its first flaw. -/
def read (pattern : String) : Except Flaw (List Token) :=
  readTokens pattern.length 0 none pattern.toList

/-- Whether a token that stands for one character accepts it. -/
def Token.accepts (t : Token) (c : Char) : Bool :=
  match t with
  | .literal d => c == d
  | .anyChar => true
  | .within ms => ms.any (·.covers c)
  | .except ms => !ms.any (·.covers c)
  | _ => false

/-- The ends of a sequence that follow a slash, and the empty end. -/
def componentEnds : List Char → List (List Char)
  | [] => [[]]
  | c :: rest => if c = '/' then rest :: componentEnds rest else componentEnds rest

/-- All ends of a sequence. -/
def ends : List Char → List (List Char)
  | [] => [[]]
  | c :: rest => (c :: rest) :: ends rest

/-- Whether tokens match a whole character sequence. -/
def matchesChars : List Token → List Char → Bool
  | [], s => s.isEmpty
  | .anySequence :: more, s => (ends s).any (matchesChars more)
  | .anyComponents :: more, s => (s :: componentEnds s).any (matchesChars more)
  | _ :: _, [] => false
  | t :: more, c :: s => t.accepts c && matchesChars more s

/-- Whether a pattern matches a path. -/
def matchesPath (pattern : List Token) (path : String) : Bool :=
  matchesChars pattern path.toList

end Haulage.Glob
