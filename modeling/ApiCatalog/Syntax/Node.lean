import ApiCatalog.Syntax.Kind

/-!
Syntax trees. A node keeps the text it covers, so that reading a tree needs no second look at the
source, and its children in source order, comments and punctuation included.
-/

namespace ApiCatalog.Syntax

/-- A place in a text. Both numbers count from one, columns in bytes of UTF-8. -/
structure Position where
  line : Nat
  column : Nat
  deriving DecidableEq

inductive Node where
  | mk (role : Option Role) (kind : Kind) (text : String) (start : Position) (lastLine : Nat)
      (children : List Node)

namespace Node

def role : Node → Option Role
  | mk r _ _ _ _ _ => r

def kind : Node → Kind
  | mk _ k _ _ _ _ => k

def text : Node → String
  | mk _ _ t _ _ _ => t

def start : Node → Position
  | mk _ _ _ p _ _ => p

def lastLine : Node → Nat
  | mk _ _ _ _ l _ => l

def children : Node → List Node
  | mk _ _ _ _ _ cs => cs

theorem children_induction {motive : Node → Prop} (step : ∀ n, (∀ c ∈ n.children, motive c) → motive n) (n : Node) :
    motive n := by
  induction hsize : sizeOf n using Nat.strongRecOn generalizing n with
  | ind k ih =>
    subst hsize
    refine step n fun c hc => ih _ ?_ c rfl
    obtain ⟨role, kind, text, start, last, cs⟩ := n
    have hlt : sizeOf c < sizeOf cs := List.sizeOf_lt_of_mem hc
    rw [Node.mk.sizeOf_spec]
    omega

def withRole (r : Role) : Node → Node
  | mk _ k t p l cs => mk (some r) k t p l cs

def isNamed (n : Node) : Bool :=
  match n.kind with
  | .token _ => false
  | _ => true

def namedChildren (n : Node) : List Node :=
  n.children.filter isNamed

def child? (n : Node) (r : Role) : Option Node :=
  n.children.find? fun c => c.role == some r

def childOfKind? (n : Node) (k : Kind) : Option Node :=
  n.children.find? fun c => c.kind == k

def hasToken (n : Node) (text : String) : Bool :=
  n.children.any fun c => c.kind == .token text

def textOf (n : Node) (r : Role) : String :=
  ((n.child? r).map text).getD ""

mutual

def firstError? : Node → Option Node
  | mk r .error t p l cs => some (mk r .error t p l cs)
  | mk _ _ _ _ _ cs => firstErrorIn? cs

def firstErrorIn? : List Node → Option Node
  | [] => none
  | c :: cs => (firstError? c).or (firstErrorIn? cs)

end

def hasError (n : Node) : Bool :=
  n.firstError?.isSome

end Node

structure Placed where
  before : Option Node
  node : Node

def Placed.siblingsAfter : Option Node → List Node → List Placed
  | _, [] => []
  | b, n :: ns => ⟨b, n⟩ :: siblingsAfter (some n) ns

def Node.placedChildren (n : Node) : List Placed :=
  Placed.siblingsAfter none n.children

end ApiCatalog.Syntax
