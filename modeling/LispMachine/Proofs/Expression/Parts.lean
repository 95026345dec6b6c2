import LispMachine.Proofs.Expression.Nodes

set_option autoImplicit false

namespace LispMachine

inductive Node
  | expression (e : Expression)
  | stage (s : Stage)

namespace Node

def id : Node → Nat
  | .expression e => e.id
  | .stage s => s.id

def isNamed : Node → Bool
  | .expression (.symbol _ _) | .expression (.define _ _ _) | .expression (.function _ _ _ _)
  | .expression (.bind _ _ _ _) => true
  | _ => false

def isCall : Node → Bool
  | .expression (.call _ _ _) | .stage _ => true
  | _ => false

def isResolved (node : Node) : Bool := node.isNamed || node.isCall

theorem isCall_eq_false {node : Node} (named : node.isNamed) : node.isCall = false := by
  rcases node with e | s
  · cases e <;> first | rfl | cases named
  · cases named

end Node

namespace Expression

mutual

def inside : Expression → List Node
  | .constant _ _ | .symbol _ _ => []
  | .define _ value _ => .expression value :: value.inside
  | .function _ _ body _ => .expression body :: body.inside
  | .bind _ bound body _ => .expression bound :: (bound.inside ++ .expression body :: body.inside)
  | .branch condition yes no _ =>
      .expression condition :: (condition.inside ++
        .expression yes :: (yes.inside ++ .expression no :: no.inside))
  | .block body _ => insideAll body
  | .cond clauses _ => insideClauses clauses
  | .call _ args _ => insideAll args
  | .compose first stages _ => .expression first :: (first.inside ++ stages.map .stage)

def insideAll : List Expression → List Node
  | [] => []
  | e :: rest => .expression e :: (e.inside ++ insideAll rest)

def insideClauses : List (Expression × Expression) → List Node
  | [] => []
  | (test, consequent) :: rest =>
      .expression test :: (test.inside ++
        .expression consequent :: (consequent.inside ++ insideClauses rest))

end

mutual

theorem nodes_eq (e : Expression) : e.nodes = e.id :: e.inside.map Node.id := by
  cases e with
  | constant | symbol => rfl
  | define _ value | function _ _ value => simp [nodes, inside, id, position, Node.id, nodes_eq value]
  | bind _ bound body =>
      simp [nodes, inside, id, position, Node.id, nodes_eq bound, nodes_eq body]
  | branch condition yes no =>
      simp [nodes, inside, id, position, Node.id, nodes_eq condition, nodes_eq yes, nodes_eq no]
  | block body | call _ body => exact congrArg _ (nodesAll_eq body)
  | cond clauses => exact congrArg _ (nodesClauses_eq_inside clauses)
  | compose first stages =>
      simp [nodes, inside, id, position, Node.id, nodes_eq first]

theorem nodesAll_eq (es : List Expression) : nodesAll es = (insideAll es).map Node.id := by
  cases es with
  | nil => rfl
  | cons e rest => simp [nodesAll, insideAll, Node.id, nodes_eq e, nodesAll_eq rest]

theorem nodesClauses_eq_inside (clauses : List (Expression × Expression)) :
    nodesClauses clauses = (insideClauses clauses).map Node.id := by
  cases clauses with
  | nil => rfl
  | cons clause rest =>
      obtain ⟨test, consequent⟩ := clause
      simp [nodesClauses, insideClauses, Node.id, nodes_eq test, nodes_eq consequent,
        nodesClauses_eq_inside rest]

end

end Expression

end LispMachine
