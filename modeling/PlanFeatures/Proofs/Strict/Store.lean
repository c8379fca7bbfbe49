import PlanFeatures.Proofs.Store.Building
import PlanFeatures.Proofs.Strict.Fault

/-!
# Strict stores

In a well-formed store the chain of a bucket visits entries only and ends, indices are put
into more buckets without going astray, and the structural order finds all the nodes that it
goes through.  A node over expressions of the store is added without a fault, as long as the
number of its rule applications fits into a word.
-/

namespace PlanFeatures.Strict

open List

/-! ## Tables -/

/-- Makes an index the one after another, which has to exist. -/
def setNext (c : Chains) (i next : Nat) : Except Fault Chains :=
  if c.next? i = none then .error (.noSuchEntry i) else .ok (c.setNext i next)

/-- Puts an index behind the last one of a bucket. -/
def link (c : Chains) (slot last i : Nat) : Except Fault Chains :=
  if last = 0 then .ok (c.link slot 0 i) else setNext c last i

/-- Puts an index into a bucket out of which it has not been taken yet. -/
def move (slot i : Nat) (state : Chains × Std.TreeMap Nat Nat) :
    Except Fault (Chains × Std.TreeMap Nat Nat) := do
  let c ← setNext state.1 i 0
  return (← link c slot (state.2.getD slot 0) i, state.2.insert slot i)

theorem setNext_ok {c : Chains} {i next : Nat} (low : 1 ≤ i) (high : i ≤ c.nexts.size) :
    setNext c i next = .ok (c.setNext i next) :=
  if_neg (Chains.next?_ne_none_iff.mpr ⟨low, high⟩)

theorem link_ok {c : Chains} {slot last i : Nat} (high : last ≤ c.nexts.size) :
    link c slot last i = .ok (c.link slot last i) := by
  rw [link]
  split
  next first => rw [first]
  next behind => rw [setNext_ok (Nat.pos_of_ne_zero behind) high, Chains.link, if_neg behind]

/-- The last indices of the buckets are among those that have been put into buckets. -/
theorem move_ok {slots : Nat → Option Nat} {size k slot : Nat}
    {state : Chains × Std.TreeMap Nat Nat} (moving : Chains.Moving slots size k state)
    (inside : k < size) : move slot (k + 1) state = .ok (Chains.move slot (k + 1) state) := by
  have last : state.2.getD slot 0 ≤ (state.1.setNext (k + 1) 0).nexts.size := by
    rw [moving.lasts, Chains.size_nexts_setNext, moving.size]
    exact Nat.le_trans (Chains.getLastD_bucket_le slots k slot) (Nat.le_of_lt inside)
  rw [move, bind_ok (setNext_ok (Nat.succ_pos k) (moving.size ▸ inside)), bind_ok (link_ok last)]
  rfl

section
variable {α : Type}

def entry (t : UniqueTable α) (i : Nat) : Except Fault α := found (.noSuchEntry i) (t.get? i)

/-- The index after another one, which has to exist. -/
def next (t : UniqueTable α) (i : Nat) : Except Fault Nat := found (.noSuchEntry i) (t.next? i)

variable [Hashable α]

/-- Number of the bucket, out of `n`, that a value belongs to. -/
def slot (n : Nat) (a : α) : Except Fault Nat :=
  if UniqueTable.slot n a < n then .ok (UniqueTable.slot n a)
  else .error (.noSuchBucket (UniqueTable.slot n a))

/-- Puts the value at a place into one of `n` buckets. -/
def moveValue (n : Nat) (state : Chains × Std.TreeMap Nat Nat) (entry : α × Nat) :
    Except Fault (Chains × Std.TreeMap Nat Nat) := do
  move (← slot n entry.1) (entry.2 + 1) state

/-- Chains all values when there are `n` buckets. -/
def rechain (n : Nat) (values : Array α) (nexts : Array Nat) : Except Fault Chains := do
  return (← values.toList.zipIdx.foldlM (moveValue n) (⟨nexts, ∅⟩, ∅)).1

/-- Doubles the buckets when there are more than two values to each. -/
def grow (t : UniqueTable α) : Except Fault (UniqueTable α) :=
  if t.size ≤ 2 * t.bucketCount ∨ 1 <<< UniqueTable.maxBits ≤ t.bucketCount then return t
  else return ⟨t.values, 2 * t.bucketCount,
    ← rechain (2 * t.bucketCount) t.values t.chains.nexts⟩

/-- Adds a value behind the last index of its bucket. -/
def append (t : UniqueTable α) (a : α) (last : Nat) : Except Fault (UniqueTable α) := do
  let slot ← slot t.bucketCount a
  return ⟨t.values.push a, t.bucketCount, ← link t.chains.extend slot last (t.size + 1)⟩

variable [DecidableEq α]

/-- Looks for a value along a bucket, which has to end. -/
def along (t : UniqueTable α) (a : α) : (fuel last i : Nat) → Except Fault UniqueTable.Place
  | 0, last, i => if i = 0 then return .missing last else .error .endless
  | fuel + 1, last, i => do
    if i = 0 then return .missing last
    else if (← entry t i) = a then return .stored i
    else along t a fuel i (← next t i)

def put (t : UniqueTable α) (a : α) : Except Fault (Nat × UniqueTable α) := do
  let slot ← slot t.bucketCount a
  match ← along t a t.size 0 (t.chains.head slot) with
  | .stored i => return (i, t)
  | .missing last => return (t.size + 1, ← grow (← append t a last))

section
omit [DecidableEq α]

theorem slot_ok {n : Nat} (positive : 0 < n) (a : α) : slot n a = .ok (UniqueTable.slot n a) :=
  if_pos (UniqueTable.slot_lt positive a)

theorem moveValues_ok {n : Nat} (positive : 0 < n) {all : Array α} {k : Nat} {rest : List α}
    {state : Chains × Std.TreeMap Nat Nat}
    (moving : Chains.Moving (UniqueTable.slots n all) all.size k state)
    (remaining : all.toList.drop k = rest) : (rest.zipIdx k).foldlM (moveValue n) state
      = .ok ((rest.zipIdx k).foldl (UniqueTable.moveValue n) state) := by
  induction rest generalizing k state with
  | nil => rfl
  | cons a rest ih =>
    obtain ⟨inside, next, remaining⟩ := UniqueTable.moving_next moving remaining
    have moved : moveValue n state (a, k) = .ok (UniqueTable.moveValue n state (a, k)) := by
      rw [moveValue, bind_ok (slot_ok positive a)]
      exact move_ok moving inside
    rw [zipIdx_cons, foldlM_cons, bind_ok moved, foldl_cons]
    exact ih next remaining

theorem rechain_ok {n : Nat} (positive : 0 < n) {values : Array α} {nexts : Array Nat}
    (length : nexts.size = values.size) :
    rechain n values nexts = .ok (UniqueTable.rechain n values nexts) := by
  have start := Chains.moving_start (UniqueTable.slots n values) nexts
  rw [length] at start
  have moved := moveValues_ok positive start (drop_zero (l := values.toList))
  rw [rechain, bind_ok moved]
  rfl

theorem grow_ok {t : UniqueTable α} (chained : t.Chained) : grow t = .ok t.grow := by
  have positive := chained.bucketCount_pos
  unfold grow UniqueTable.grow
  split
  next => rfl
  next =>
    rw [bind_ok (rechain_ok (by omega) chained.length)]
    rfl

theorem append_ok {t : UniqueTable α} (chained : t.Chained) (a : α) :
    append t a ((t.bucket a).getLastD 0) = .ok (t.append a ((t.bucket a).getLastD 0)) := by
  have last : (t.bucket a).getLastD 0 ≤ t.chains.extend.nexts.size := by
    have within := Chains.getLastD_bucket_le (UniqueTable.slots t.bucketCount t.values) t.size
      (UniqueTable.slot t.bucketCount a)
    rw [Chains.size_nexts_extend, chained.length]
    exact Nat.le_succ_of_le within
  rw [append, bind_ok (slot_ok chained.bucketCount_pos a), bind_ok (link_ok last)]
  rfl

omit [Hashable α] in
theorem entry_ok {t : UniqueTable α} {i : Nat} {a : α} (stored : t.get? i = some a) :
    entry t i = .ok a :=
  found_some stored

end

omit [Hashable α] in
/-- Along a chain that ends, all the entries are there and the fuel is enough. -/
theorem along_ok {t : UniqueTable α} {a : α} {fuel last i : Nat} {l : List Nat}
    (follows : t.chains.Follows i l) (enough : l.length ≤ fuel)
    (stored : ∀ j ∈ l, ∃ b, t.get? j = some b) :
    along t a fuel last i = .ok (t.along a fuel last i) := by
  induction fuel generalizing last i l with
  | zero =>
    obtain rfl := eq_nil_of_length_eq_zero (Nat.le_zero.mp enough)
    cases follows
    rfl
  | succ fuel ih =>
    cases follows with
    | done => rfl
    | @step _ j rest joined more =>
      have index := Chains.ne_zero_of_next? joined
      obtain ⟨b, here⟩ := stored i mem_cons_self
      have following : next t i = .ok j := found_some joined
      rw [along, if_neg index, bind_ok (entry_ok here), UniqueTable.along, if_neg index, here]
      by_cases same : b = a
      · rw [if_pos same, if_pos (congrArg some same)]
        rfl
      · rw [if_neg same, if_neg fun equal => same (Option.some.inj equal), bind_ok following,
          UniqueTable.next?, joined]
        exact ih more (Nat.le_of_succ_le_succ enough) fun k member =>
          stored k (mem_cons_of_mem _ member)

/-- The chains visit entries only and end, so a value is put into a table without a fault. -/
theorem put_ok {t : UniqueTable α} (wf : t.WellFormed) (a : α) : put t a = .ok (t.put a) := by
  have stored : ∀ i ∈ t.bucket a, ∃ b, t.get? i = some b := fun i member => by
    obtain ⟨b, there, _⟩ := UniqueTable.mem_bucket.mp member
    exact ⟨b, there⟩
  have searched : along t a t.size 0 (t.chains.head (UniqueTable.slot t.bucketCount a))
      = .ok (t.place a) :=
    along_ok (wf.hold _) (Chains.length_bucket_le _ _ _) stored
  rw [put, bind_ok (slot_ok wf.bucketCount_pos a), bind_ok searched, UniqueTable.put]
  rcases UniqueTable.place_cases wf a with ⟨i, _, there⟩ | ⟨absent, there⟩
  · rw [there]
    rfl
  · have chained := wf.append (UniqueTable.not_mem_values absent)
    rw [there]
    dsimp only
    rw [bind_ok (append_ok wf.toChained a), bind_ok (grow_ok chained)]
    rfl

end

/-! ## Structural order -/

/-- Compares kinds and expressions of operands, up to the first difference. -/
def compareOperands (order : Handle → Handle → Except Fault Ordering) :
    List Handle → List Handle → Except Fault Ordering
  | [], [] => return .eq
  | [], _ :: _ => return .lt
  | _ :: _, [] => return .gt
  | a :: as, b :: bs => do
    match compare a.kind b.kind with
    | .eq =>
      match ← order a b with
      | .eq => compareOperands order as bs
      | different => return different
    | different => return different

/-- The structural order of expressions whose indices are below the fuel. -/
def orderBelow (s : Store) : (fuel : Nat) → Handle → Handle → Except Fault Ordering
  | 0, _, _ => .error .endless
  | fuel + 1, a, b =>
    if a = b then return .eq
    else do
      let x ← entry s.table a.index
      let y ← entry s.table b.index
      match (compare x.rule y.rule).then (Store.compareSymbols x.symbols y.symbols) with
      | .eq => compareOperands (orderBelow s fuel) x.operands y.operands
      | different => return different

def order (s : Store) (a b : Handle) : Except Fault Ordering := orderBelow s (a.index + 1) a b

/-- Puts two operands whose order does not matter in structural order. -/
def canonical (s : Store) : Node → Except Fault Node
  | .binary op a b =>
    if op.rule.isCommutative then do
      let compared ← order s ⟨op.left, a⟩ ⟨op.right, b⟩
      return if compared = .gt then .binary op b a else .binary op a b
    else return .binary op a b
  | node => return node

section
variable {s : Store}

theorem compareOperands_ok {order : Handle → Handle → Except Fault Ordering}
    {plain : Handle → Handle → Ordering} {as bs : List Handle}
    (orders : ∀ a ∈ as, ∀ b ∈ bs, order a b = .ok (plain a b)) :
    compareOperands order as bs = .ok (Store.compareOperands plain as bs) := by
  induction as generalizing bs with
  | nil => cases bs <;> rfl
  | cons a as ih =>
    cases bs with
    | nil => rfl
    | cons b bs =>
      have here := orders a mem_cons_self b mem_cons_self
      have more := @ih bs fun a memberA b memberB =>
        orders a (mem_cons_of_mem _ memberA) b (mem_cons_of_mem _ memberB)
      rw [compareOperands, Store.compareOperands, bind_ok here]
      cases compare a.kind b.kind with
      | lt | gt => rfl
      | eq =>
        cases plain a b with
        | lt | gt => rfl
        | eq => exact more

theorem orderBelow_ok (grounded : s.Grounded) {fuel : Nat} {a b : Handle}
    (fueled : a.index < fuel) (hasA : s.Has a) (hasB : s.Has b) :
    orderBelow s fuel a b = .ok (s.orderBelow fuel a b) := by
  -- Operands have smaller indices, so the fuel that is left is enough for them.
  induction fuel generalizing a b with
  | zero => omega
  | succ fuel ih =>
    unfold orderBelow Store.orderBelow
    split
    next => rfl
    next =>
      obtain ⟨x, storedA⟩ := hasA.node
      obtain ⟨y, storedB⟩ := hasB.node
      have below : ∀ g ∈ x.operands, g.index < fuel := fun g member => by
        have earlier := grounded.earlier storedA g member
        omega
      have operands : compareOperands (orderBelow s fuel) x.operands y.operands
          = .ok (Store.compareOperands (s.orderBelow fuel) x.operands y.operands) :=
        compareOperands_ok fun g memberA h memberB =>
          ih (below g memberA) (grounded.has storedA g memberA) (grounded.has storedB h memberB)
      rw [bind_ok (entry_ok storedA), bind_ok (entry_ok storedB), storedA, storedB]
      dsimp only
      cases (compare x.rule y.rule).then (Store.compareSymbols x.symbols y.symbols) with
      | lt | gt => rfl
      | eq => exact operands

theorem canonical_ok (grounded : s.Grounded) {node : Node} (has : ∀ h ∈ node.operands, s.Has h) :
    canonical s node = .ok (s.canonical node) := by
  cases node with
  | binary op a b =>
    have ordered := orderBelow_ok grounded (Nat.lt_succ_self _) (has _ (Node.left_mem op a b))
      (has _ (Node.right_mem op a b))
    simp only [canonical, Store.canonical]
    by_cases commutative : op.rule.isCommutative = true
    · rw [if_pos commutative, order, bind_ok ordered]
      simp only [commutative, true_and]
      rfl
    · rw [if_neg commutative, if_neg fun swapped => commutative swapped.1]
      rfl
  | leaf _ | unary _ _ | distance _ _ _ => rfl

end

/-! ## Adding expressions -/

def complexity (s : Store) (h : Handle) : Except Fault Nat :=
  found (.noSuchEntry h.index) (s.complexity? h)

/-- The number of rule applications in a node; it has to fit into 32 bits. -/
def applications (s : Store) (node : Node) : Except Fault Nat := do
  let counts ← node.operands.mapM (complexity s)
  let total := counts.foldr (· + ·) 1
  if total < UInt32.size then return total else throw (.overflow total)

/-- Adds a node, whose operands have to be in the store.  The rule applications are counted
when the node is new. -/
def insert (s : Store) (node : Node) : Except Fault (Handle × Store) :=
  match node.operands.find? fun h => !s.contains h with
  | some h => throw (.foreignOperand h)
  | none => do
    let node ← canonical s node
    let (index, table) ← put s.table node
    if s.table.size < index then
      let complexity ← applications s node
      return (⟨node.kind, index⟩, ⟨s.vocabulary, table, s.complexities.push complexity⟩)
    else return (⟨node.kind, index⟩, ⟨s.vocabulary, table, s.complexities⟩)

section
variable {s : Store} (wf : s.WellFormed)
include wf

theorem complexity_ok {h : Handle} (has : s.Has h) : complexity s h = .ok (s.complexity h) := by
  obtain ⟨t, stands⟩ := wf.represents has
  rw [Store.complexity_of_complexity? stands.complexity]
  exact found_some stands.complexity

theorem applications_ok {node : Node} (operands : ∀ h ∈ node.operands, s.Has h)
    (fits : Store.applications s.complexity node < UInt32.size) :
    applications s node = .ok (Store.applications s.complexity node) := by
  have counts := mapM_eq_ok fun h member => complexity_ok wf (operands h member)
  have total : (node.operands.map s.complexity).foldr (· + ·) 1
      = Store.applications s.complexity node := foldr_map
  rw [applications, bind_ok counts]
  dsimp only
  rw [total, if_pos fits]
  rfl

omit wf in
/-- The operands may change places, which does not change their number of rule
applications. -/
theorem applications_canonical (count : Handle → Nat) (node : Node) :
    Store.applications count (s.canonical node) = Store.applications count node := by
  cases node with
  | binary op a b =>
    simp only [Store.canonical]
    split
    next swapped =>
      have same := BinaryOp.left_eq_right swapped.1
      simp only [Store.applications, Node.operands, same, foldr_cons, foldr_nil]
      omega
    next => rfl
  | leaf _ | unary _ _ | distance _ _ _ => rfl

theorem insert_ok {node : Node} (operands : ∀ h ∈ node.operands, s.Has h)
    (fits : Store.applications s.complexity node < UInt32.size) :
    insert s node = .ok (s.insert node) := by
  have inside : ∀ h ∈ (s.canonical node).operands, s.Has h := fun h member =>
    operands h ((Store.mem_operands_canonical s).mp member)
  rw [← applications_canonical (s := s)] at fits
  rw [insert, Store.own_operands operands]
  dsimp only
  rw [bind_ok (canonical_ok wf.toGrounded operands), bind_ok (put_ok wf.table _)]
  unfold Store.insert
  by_cases new : s.table.size < (s.table.put (s.canonical node)).1
  · simp only [if_pos new]
    rw [bind_ok (applications_ok wf inside fits)]
    rfl
  · simp only [if_neg new]
    rfl

end

end PlanFeatures.Strict
