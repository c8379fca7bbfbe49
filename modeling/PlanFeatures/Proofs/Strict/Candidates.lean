import PlanFeatures.Generation.Frontier
import PlanFeatures.Proofs.Strict.Fault

/-!
# Strict candidates

To list the candidates of complexity `k`, a run looks only at layers below `k`, which have
to be closed, and subtracts only what there is.
-/

namespace PlanFeatures.Strict

open List

variable {f : Frontier} {k : Nat}

/-! ## Layers -/

/-- The layers below `k`; the first of them, which is empty, is always closed. -/
def slice (f : Frontier) (k : Nat) : Except Fault Unit :=
  if k ≤ f.layers.size + 1 then .ok () else .error (.openLayer k)

/-- A layer among the ones below `k`. -/
def layer (f : Frontier) (k : Nat) (kind : Kind) (i : Nat) : Except Fault (List Nat) :=
  if i < k then .ok (f.layer kind i) else .error (.openLayer i)

/-- The pairs of positive numbers with a given sum. -/
def splits (total : Nat) : Except Fault (List (Nat × Nat)) :=
  (range' 1 (total - 1)).mapM fun i => return (i, ← sub total i)

theorem layer_ok {i : Nat} (below : i < k) (kind : Kind) :
    layer f k kind i = .ok (f.layer kind i) :=
  if_pos below

theorem splits_ok (total : Nat) : splits total = .ok (PlanFeatures.splits total) := by
  refine mapM_eq_ok fun i member => ?_
  have range := mem_range'_1.mp member
  rw [sub_ok (by omega)]
  rfl

/-! ## Composite expressions -/

/-- The pairs of operands out of two lists, which are from the layers `i` and `j`. -/
def operandPairs (op : BinaryOp) (i j : Nat) (left right : List Nat) : List (Nat × Nat) :=
  if op.rule.isCommutative then
    if i < j then pairsOf left right else if i = j then laterPairs left else []
  else if op.isTrivialOnEqual then (pairsOf left right).filter fun (a, b) => a ≠ b
  else pairsOf left right

def unary (f : Frontier) (k : Nat) (op : UnaryOp) : Except Fault (List Node) := do
  let operands ← layer f k op.operand (← sub k 1)
  return operands.map fun a => .unary op a

/-- The applications of an operator to operands from the layers `i` and `j`. -/
def binaryAt (f : Frontier) (k : Nat) (op : BinaryOp) (i j : Nat) : Except Fault (List Node) := do
  let left ← layer f k op.left i
  let right ← layer f k op.right j
  return (operandPairs op i j left right).map fun (a, b) => .binary op a b

def binary (f : Frontier) (k : Nat) (op : BinaryOp) : Except Fault (List Node) := do
  let pieces ← (← splits (← sub k 1)).mapM fun (i, j) => binaryAt f k op i j
  return pieces.flatten

def projections (f : Frontier) (k : Nat) : Except Fault (List Node) := do
  let roles ← layer f k .role (← sub k 1)
  return roles.flatMap fun r =>
    [.unary (.conceptProjection 0) r, .unary (.conceptProjection 1) r]

/-- The distances between concepts from the layers `i` and `l` by roles from the layer `j`. -/
def distancesAt (f : Frontier) (k i j l : Nat) : Except Fault (List Node) := do
  let sources ← layer f k .concept i
  let roles ← layer f k .role j
  let targets ← layer f k .concept l
  return sources.flatMap fun source =>
    (pairsOf roles targets).map fun (role, target) => .distance source role target

/-- The distances from concepts from the layer `i`. -/
def distancesFrom (f : Frontier) (k i rest : Nat) : Except Fault (List Node) := do
  let pieces ← (← splits rest).mapM fun (j, l) => distancesAt f k i j l
  return pieces.flatten

def distances (f : Frontier) (k : Nat) : Except Fault (List Node) := do
  let pieces ← (← splits (← sub k 1)).mapM fun (i, rest) => distancesFrom f k i rest
  return pieces.flatten

def composites (f : Frontier) (rule : Rule) (k : Nat) : Except Fault (List Node) :=
  match rule with
  | .conceptProjection => projections f k
  | .numericalDistance => distances f k
  | _ => do
    let unaries ← (UnaryOp.plain.filter fun op => op.rule = rule).mapM (unary f k)
    let binaries ← (BinaryOp.all.filter fun op => op.rule = rule).mapM (binary f k)
    return unaries.flatten ++ binaries.flatten

/-- The candidates of a rule.  The last of the layers below `k` are looked at whatever the
rule is. -/
def candidates (f : Frontier) (v : Vocabulary) (rule : Rule) (k : Nat) :
    Except Fault (List Node) :=
  if k = 1 then .ok ((v.leaves rule).map .leaf)
  else do
    slice f k
    let last ← sub k 1
    discard (layer f k .concept last)
    discard (layer f k .role last)
    composites f rule k

theorem binaryAt_ok (op : BinaryOp) {i j : Nat} (left : i < k) (right : j < k) :
    binaryAt f k op i j = .ok ((f.operandPairs op i j).map fun (a, b) => .binary op a b) := by
  rw [binaryAt, bind_ok (layer_ok left _), bind_ok (layer_ok right _)]
  rfl

theorem distancesAt_ok {i j l : Nat} (source : i < k) (role : j < k) (target : l < k) :
    distancesAt f k i j l = .ok ((f.layer .concept i).flatMap fun source =>
      (pairsOf (f.layer .role j) (f.layer .concept l)).map fun (role, target) =>
        .distance source role target) := by
  rw [distancesAt, bind_ok (layer_ok source _), bind_ok (layer_ok role _),
    bind_ok (layer_ok target _)]
  rfl

theorem distancesFrom_ok {i rest : Nat} (source : i < k) (below : rest < k) :
    distancesFrom f k i rest = .ok ((PlanFeatures.splits rest).flatMap fun (j, l) =>
      (f.layer .concept i).flatMap fun source =>
        (pairsOf (f.layer .role j) (f.layer .concept l)).map fun (role, target) =>
          .distance source role target) := by
  rw [distancesFrom, bind_ok (splits_ok _), bind_ok (mapM_eq_ok ?_)]
  · rfl
  · rintro ⟨j, l⟩ split
    obtain ⟨_, _, sum⟩ := mem_splits.mp split
    exact distancesAt_ok source (by omega) (by omega)

section
variable (positive : 0 < k)
include positive

theorem unary_ok (op : UnaryOp) : unary f k op = .ok (f.unary k op) := by
  rw [unary, bind_ok (sub_ok positive), bind_ok (layer_ok (by omega) _)]
  rfl

theorem binary_ok (op : BinaryOp) : binary f k op = .ok (f.binary k op) := by
  rw [binary, bind_ok (sub_ok positive), bind_ok (splits_ok _), bind_ok (mapM_eq_ok ?_)]
  · rfl
  · rintro ⟨i, j⟩ split
    obtain ⟨_, _, sum⟩ := mem_splits.mp split
    exact binaryAt_ok op (by omega) (by omega)

theorem projections_ok : projections f k = .ok (f.projections k) := by
  rw [projections, bind_ok (sub_ok positive), bind_ok (layer_ok (by omega) _)]
  rfl

theorem distances_ok : distances f k = .ok (f.distances k) := by
  rw [distances, bind_ok (sub_ok positive), bind_ok (splits_ok _), bind_ok (mapM_eq_ok ?_)]
  · rfl
  · rintro ⟨i, rest⟩ split
    obtain ⟨_, _, sum⟩ := mem_splits.mp split
    exact distancesFrom_ok (by omega) (by omega)

theorem composites_ok (rule : Rule) : composites f rule k = .ok (f.composites rule k) := by
  unfold composites
  split
  next => exact projections_ok positive
  next => exact distances_ok positive
  next projection distance =>
    have operators : f.composites rule k
        = (UnaryOp.plain.filter fun op => op.rule = rule).flatMap (f.unary k)
          ++ (BinaryOp.all.filter fun op => op.rule = rule).flatMap (f.binary k) := by
      unfold Frontier.composites
      split
      next => exact (projection rfl).elim
      next => exact (distance rfl).elim
      next => rfl
    rw [bind_ok (mapM_eq_ok fun op _ => unary_ok positive op),
      bind_ok (mapM_eq_ok fun op _ => binary_ok positive op), operators]
    rfl

end

/-- When the layers below `k` are closed, the candidates of complexity `k` can be listed. -/
theorem candidates_ok (positive : 0 < k) (closed : k ≤ f.layers.size + 1) (v : Vocabulary)
    (rule : Rule) :
    candidates f v rule k = .ok (f.candidates v rule k) := by
  unfold candidates Frontier.candidates
  split
  next => rfl
  next composite =>
    have within : slice f k = .ok () := if_pos closed
    have last : k - 1 < k := by omega
    rw [bind_ok within, bind_ok (sub_ok positive), bind_ok (discard_ok (layer_ok last _)),
      bind_ok (discard_ok (layer_ok last _)), composites_ok positive]

/-! ## Unordered pairs -/

/-- The list without its first elements, of which there have to be so many. -/
def beyond (as : List Nat) (n : Nat) : Except Fault (List Nat) := do
  discard (sub as.length n)
  return as.drop n

/-- The operands that come after the one at a position: all of a higher layer, and the later
ones of the layer half-way. -/
def partners (left right : List Nat) (total i position : Nat) : Except Fault (List Nat) :=
  if 2 * i < total then .ok right else beyond left (position + 1)

def symmetricAt (f : Frontier) (k : Nat) (op : BinaryOp) (total i j : Nat) :
    Except Fault (List Node) := do
  let left ← layer f k op.left i
  let right ← layer f k op.right j
  let pieces ← left.zipIdx.mapM fun (a, position) => do
    return (← partners left right total i position).map fun b => .binary op a b
  return pieces.flatten

/-- The applications of an operator to operands in the one order, counted up to half of the
sum only. -/
def symmetric (f : Frontier) (k : Nat) (op : BinaryOp) : Except Fault (List Node) := do
  let total ← sub k 1
  let pieces ← ((← splits total).takeWhile fun (i, j) => i ≤ j).mapM fun (i, j) =>
    symmetricAt f k op total i j
  return pieces.flatten

theorem flatMap_takeWhile {α β : Type} {p : α → Bool} {g : α → List β} {as : List α}
    (closed : as.Pairwise fun a b => p b = true → p a = true)
    (nothing : ∀ a ∈ as, p a = false → g a = []) :
    (as.takeWhile p).flatMap g = as.flatMap g := by
  induction as with
  | nil => rfl
  | cons a rest ih =>
    obtain ⟨first, later⟩ := pairwise_cons.mp closed
    have more := ih later fun b member => nothing b (mem_cons_of_mem _ member)
    cases keep : p a with
    | true => rw [takeWhile_cons_of_pos keep, flatMap_cons, flatMap_cons, more]
    | false =>
      -- What follows is not taken either.
      rw [takeWhile_cons_of_neg (by simp [keep]), flatMap_nil, Eq.comm, flatMap_eq_nil_iff]
      intro b member
      refine nothing b member ?_
      rcases mem_cons.mp member with rfl | member
      · exact keep
      · cases again : p b with
        | true => rw [first b member again] at keep; cases keep
        | false => rfl

/-- Each element with the ones after it, found by its position. -/
theorem flatMap_zipIdx_drop (as before : List Nat) :
    (as.zipIdx before.length).flatMap
        (fun p => ((before ++ as).drop (p.2 + 1)).map fun b => (p.1, b)) = laterPairs as := by
  induction as generalizing before with
  | nil => rfl
  | cons a rest ih =>
    have tail := ih (before ++ [a])
    rw [length_append, length_singleton, append_assoc, singleton_append] at tail
    rw [zipIdx_cons, flatMap_cons, tail, laterPairs]
    simp

theorem symmetricAt_eq {op : BinaryOp} {total i j : Nat} (left : i < k) (right : j < k)
    (after : Nat → List Nat)
    (found : ∀ position < (f.layer op.left i).length,
      partners (f.layer op.left i) (f.layer op.right j) total i position = .ok (after position)) :
    symmetricAt f k op total i j
      = .ok (((f.layer op.left i).zipIdx.flatMap fun p => (after p.2).map fun b => (p.1, b)).map
          fun (a, b) => .binary op a b) := by
  rw [symmetricAt, bind_ok (layer_ok left _), bind_ok (layer_ok right _),
    bind_ok (mapM_eq_ok (g := fun p => (after p.2).map fun b => .binary op p.1 b) ?_)]
  · rw [map_flatMap, flatMap_def]
    simp only [map_map]
    rfl
  · rintro ⟨a, position⟩ member
    have inside := (mem_zipIdx' member).1
    exact bind_ok (found position inside) _

theorem symmetricAt_ok {op : BinaryOp} (commutative : op.rule.isCommutative = true)
    {total i j : Nat} (left : i < k) (right : j < k) (sum : i + j = total) (lower : i ≤ j) :
    symmetricAt f k op total i j
      = .ok ((f.operandPairs op i j).map fun (a, b) => .binary op a b) := by
  simp only [Frontier.operandPairs, commutative, if_true]
  rcases Nat.lt_or_eq_of_le lower with less | rfl
  · have half : 2 * i < total := by omega
    rw [symmetricAt_eq left right _ fun position _ => if_pos half, if_pos less]
    have pairs : pairsOf ((f.layer op.left i).zipIdx.map Prod.fst) (f.layer op.right j)
        = (f.layer op.left i).zipIdx.flatMap
            fun p => (f.layer op.right j).map fun b => (p.1, b) := flatMap_map ..
    rw [← pairs, zipIdx_map_fst]
  · have half : ¬ 2 * i < total := by omega
    rw [symmetricAt_eq left right (fun position => (f.layer op.left i).drop (position + 1))
      fun position inside => ?_]
    · simp only [Nat.lt_irrefl, if_false, if_true]
      rw [← flatMap_zipIdx_drop (f.layer op.left i) []]
      rfl
    · rw [partners, if_neg half, beyond, bind_ok (discard_ok (sub_ok inside))]
      rfl

theorem symmetric_ok (positive : 0 < k) {op : BinaryOp}
    (commutative : op.rule.isCommutative = true) : symmetric f k op = .ok (f.binary k op) := by
  rw [symmetric, bind_ok (sub_ok positive), bind_ok (splits_ok _), bind_ok (mapM_eq_ok
    (g := fun p => (f.operandPairs op p.1 p.2).map fun (a, b) => .binary op a b) ?_)]
  · rw [← flatMap_def, flatMap_takeWhile]
    · rfl
    · refine pairwise_map.mpr ((pairwise_lt_range' 1).imp fun less kept => ?_)
      simp only [decide_eq_true_eq] at kept ⊢
      omega
    · rintro ⟨i, j⟩ _ above
      have greater : j < i := by simpa using above
      simp only [Frontier.operandPairs, commutative, if_true]
      rw [if_neg (by omega), if_neg (by omega)]
      rfl
  · rintro ⟨i, j⟩ member
    have lower : i ≤ j := by simpa using all_eq_true.mp all_takeWhile _ member
    obtain ⟨_, _, sum⟩ := mem_splits.mp ((takeWhile_sublist _).subset member)
    exact symmetricAt_ok commutative (by omega) (by omega) sum lower

end PlanFeatures.Strict
