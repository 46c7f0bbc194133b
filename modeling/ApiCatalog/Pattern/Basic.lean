import ApiCatalog.Text.Blank
import ApiCatalog.Text.Digit
import ApiCatalog.Text.WordChar

namespace ApiCatalog

open Text

inductive CharTest where
  | range (low high : Nat)
  | digit (expected : Bool)
  | blank (expected : Bool)
  | word (expected : Bool)

def CharTest.accepts (c : Char) : CharTest → Bool
  | range low high => low ≤ c.toNat && c.toNat ≤ high
  | digit e => isDecimalDigit c == e
  | blank e => isBlank c == e
  | word e => isWordChar c == e

structure CharClass where
  tests : List CharTest
  negated : Bool := false

namespace CharClass

def accepts (k : CharClass) (c : Char) : Bool :=
  k.tests.any (CharTest.accepts c) != k.negated

def single (code : Nat) : CharClass where
  tests := [.range code code]

def any : CharClass where
  tests := [.range 10 10]
  negated := true

end CharClass

inductive Anchor where
  | start
  | lastLineEnd
  | finish
  | wordEdge (expected : Bool)

inductive Pattern where
  | empty
  | char (k : CharClass)
  | anchor (a : Anchor)
  | sequence (first second : Pattern)
  | choice (first second : Pattern)
  | group (p : Pattern)
  | repeated (p : Pattern) (least : Nat) (most : Option Nat)
  | ahead (p : Pattern) (expected : Bool)

namespace Pattern

structure Place where
  before : Option Char
  rest : List Char

namespace Place

def ofText (s : List Char) : Place where
  before := none
  rest := s

def onward (before : Option Char) : List Char → List Place
  | [] => [⟨before, []⟩]
  | c :: cs => ⟨before, c :: cs⟩ :: onward (some c) cs

def satisfies (p : Place) : Anchor → Bool
  | .start => p.before.isNone
  | .lastLineEnd => p.rest.isEmpty || p.rest == ['\n']
  | .finish => p.rest.isEmpty
  -- An empty text has no place that is or is not at the edge of a word.
  | .wordEdge e =>
    !(p.before.isNone && p.rest.isEmpty) && (p.before.any isWordChar != p.rest.head?.any isWordChar) == e

def insert (p : Place) (ps : List Place) : List Place :=
  if ps.any fun q => q.rest.length == p.rest.length then ps else p :: ps

def distinct (ps : List Place) : List Place :=
  ps.foldr insert []

end Place

def afterSteps (step : Place → List Place) : Nat → List Place → List Place
  | 0, ps => ps
  | n + 1, ps => afterSteps step n (Place.distinct (ps.flatMap step))

def withinSteps (step : Place → List Place) : Nat → List Place → List Place
  | 0, ps => ps
  | n + 1, ps => Place.distinct (ps ++ withinSteps step n (Place.distinct (ps.flatMap step)))

/-- Where a match that begins at a place may end. A repetition without limit needs no more rounds
than there are characters left, since a round that reads nothing reaches no new place. -/
def ends : Pattern → Place → List Place
  | empty, q => [q]
  | char k, q =>
    match q.rest with
    | c :: cs => if k.accepts c then [⟨some c, cs⟩] else []
    | [] => []
  | anchor a, q => if q.satisfies a then [q] else []
  | sequence a b, q => Place.distinct ((a.ends q).flatMap b.ends)
  | choice a b, q => Place.distinct (a.ends q ++ b.ends q)
  | group p, q => p.ends q
  | repeated p least most, q =>
    let rounds := match most with
      | some m => min (m - least) q.rest.length
      | none => q.rest.length
    withinSteps p.ends rounds (afterSteps p.ends least [q])
  | ahead p e, q => if (p.ends q).isEmpty == e then [] else [q]

def occursIn (p : Pattern) (s : List Char) : Bool :=
  (Place.onward none s).any fun q => !(p.ends q).isEmpty

end Pattern

end ApiCatalog
