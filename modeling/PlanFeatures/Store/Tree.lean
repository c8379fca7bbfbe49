import PlanFeatures.Grammar.Expr
import PlanFeatures.Store.Basic

/-!
# Trees of stored expressions

Operands come before the nodes that they belong to, so the trees of all nodes are
read off in one pass, each from the trees before it.  What is stored later does
not change them.
-/

namespace PlanFeatures

/-- The tree of a node, given those of its operands. -/
def Node.tree? (operand : Nat → Option Expr) : Node → Option Expr
  | leaf l => some (.leaf l)
  | unary op a => return .unary op (← operand a)
  | binary op a b => return .binary op (← operand a) (← operand b)
  | distance a r b => return .distance (← operand a) (← operand r) (← operand b)

namespace Store

/-- The tree with an index, counted from 1. -/
def treeAt? (trees : List (Option Expr)) : Nat → Option Expr
  | 0 => none
  | i + 1 => trees[i]?.join

/-- The trees of nodes, each of which has its operands before it. -/
def treesOf (nodes : List Node) : List (Option Expr) :=
  nodes.foldl (fun trees node => trees ++ [node.tree? (treeAt? trees)]) []

/-- The tree of an expression of the store. -/
def tree? (s : Store) (h : Handle) : Option Expr := treeAt? (treesOf s.table.values.toList) h.index

theorem treesOf_append (nodes : List Node) (node : Node) :
    treesOf (nodes ++ [node]) = treesOf nodes ++ [node.tree? (treeAt? (treesOf nodes))] := by
  simp [treesOf]

theorem length_treesOf (nodes : List Node) : (treesOf nodes).length = nodes.length := by
  have grow : ∀ (nodes : List Node) (trees : List (Option Expr)),
      (nodes.foldl (fun trees node => trees ++ [node.tree? (treeAt? trees)]) trees).length
        = trees.length + nodes.length := by
    intro nodes
    induction nodes with
    | nil => simp
    | cons node nodes ih =>
      intro trees
      simp only [List.foldl_cons, ih, List.length_append, List.length_cons, List.length_nil]
      omega
  simpa [treesOf] using grow nodes []

/-- Later nodes leave the trees of earlier ones as they are. -/
theorem treesOf_prefix (nodes more : List Node) : treesOf nodes <+: treesOf (nodes ++ more) := by
  have grow : ∀ (more : List Node) (trees : List (Option Expr)),
      trees <+: more.foldl (fun trees node => trees ++ [node.tree? (treeAt? trees)]) trees := by
    intro more
    induction more with
    | nil => exact fun trees => List.prefix_rfl
    | cons node more ih => exact fun trees => (List.prefix_append trees _).trans (ih _)
  simpa [treesOf] using grow more (treesOf nodes)

end Store
end PlanFeatures
