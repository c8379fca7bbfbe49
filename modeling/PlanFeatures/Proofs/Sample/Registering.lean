import Mathlib.Data.Finset.Card
import Mathlib.Data.Finset.Dedup
import PlanFeatures.Proofs.Sample.Caching

/-!
# Registering expressions

What becomes of an expression depends on what was registered before it: nothing, if that was
the expression itself; otherwise the first expression of its kind with its vector represents
it, and where there is none it is kept.  What was evaluated on the way, the operands among
it, makes no difference.
-/

namespace PlanFeatures

namespace Store

/-- What the expression denotes in the states of a sample, by plain evaluation. -/
def vector (store : Store) (states : List State) (h : Handle) : Except EvalError ExtensionVector :=
  states.mapM fun state => return ⟨_, ← store.evaluate h state⟩

/-- The first expression of a kind that has a vector. -/
def first? (store : Store) (states : List State) (registered : List Handle) (kind : Kind)
    (vector : ExtensionVector) : Option Handle :=
  registered.find? fun g => g.kind = kind ∧ store.vector states g = .ok vector

/-- What is to become of an expression when others have been registered. -/
def registration (store : Store) (states : List State) (registered : List Handle) (h : Handle) :
    Registration :=
  if h ∈ registered then .known
  else
    match registered.find? fun g =>
      g.kind = h.kind ∧ store.vector states g = store.vector states h with
    | some g => .duplicate g
    | none => .kept

/-- The vectors of the expressions that are of a kind. -/
def vectors (store : Store) (states : List State) (registered : List Handle) (kind : Kind) :
    Finset (Except EvalError ExtensionVector) :=
  ((registered.filter fun g => g.kind = kind).map (store.vector states)).toFinset

variable {store s : Store} {states : List State} {registered : List Handle} {g h : Handle}
  {kind : Kind} {v w : ExtensionVector}

theorem Denotes.plain (denotes : store.Denotes states h v) (wf : store.WellFormed)
    (sample : ∀ state ∈ states, state.Over store.vocabulary) :
    store.vector states h = .ok v := by
  obtain ⟨t, stands, value⟩ := denotes.tree
  rw [← value, vector, Expr.vector]
  refine mapM_congr fun state member => ?_
  rw [wf.evaluate_eq (sample state member) denotes.has stands]

/-! ## One more expression -/

theorem first?_append : store.first? states (registered ++ [h]) kind w
    = (store.first? states registered kind w).or
        (if h.kind = kind ∧ store.vector states h = .ok w then some h else none) := by
  rw [first?, List.find?_append, ← first?]
  congr 1
  by_cases here : h.kind = kind ∧ store.vector states h = .ok w <;> simp [here]

theorem first?_eq_none : store.first? states registered kind w = none
    ↔ ∀ g ∈ registered, g.kind = kind → store.vector states g ≠ .ok w := by
  simp [first?, List.find?_eq_none]

theorem first?_isSome_of_mem (member : g ∈ registered) (value : store.vector states g = .ok w) :
    ∃ first, store.first? states registered g.kind w = some first := by
  refine Option.ne_none_iff_exists'.mp fun none => ?_
  exact first?_eq_none.mp none g member rfl value

/-- An expression changes nothing when one of its kind and vector is there. -/
theorem first?_append_of_isSome (value : store.vector states h = .ok v)
    (there : ∃ first, store.first? states registered h.kind v = some first) :
    store.first? states (registered ++ [h]) kind w = store.first? states registered kind w := by
  rw [first?_append]
  split
  next here =>
    obtain ⟨rfl, value'⟩ := here
    obtain ⟨first, found⟩ := there
    cases value.symm.trans value'
    rw [found, Option.some_or]
  next => rw [Option.or_none]

theorem mem_vectors {x : Except EvalError ExtensionVector} :
    x ∈ store.vectors states registered kind
      ↔ ∃ g ∈ registered, g.kind = kind ∧ store.vector states g = x := by
  simp [vectors, and_assoc]

theorem vectors_append : store.vectors states (registered ++ [h]) kind
    = if h.kind = kind then Insert.insert (store.vector states h) (store.vectors states registered kind)
      else store.vectors states registered kind := by
  ext x
  split
  next same => simp only [Finset.mem_insert, mem_vectors]; grind
  next other => simp only [mem_vectors]; grind

end Store

namespace Representatives
variable {store s : Store} {states : List State} {registered : List Handle} {r : Representatives}
  {h : Handle} {v : ExtensionVector}

/-- Representatives after some expressions have been registered, each in the store as it was
then. -/
def after (r : Representatives) (calls : List (Store × Handle)) : Representatives :=
  calls.foldl (fun r c => (r.register c.1 c.2).2) r

/-! ## What one registration does -/

/-- An expression has been considered and evaluated. -/
def marked (r : Representatives) (h : Handle) (e : Evaluator) : Representatives :=
  { r with evaluator := e, seen := r.seen.insert h.index }

theorem register_seen (seen : r.seen.contains h.index = true) :
    r.register store h = (.ok .known, { r with seen := r.seen.insert h.index }) := by
  simp [register, markSeen, seen]

theorem register_new {e : Evaluator} (new : r.seen.contains h.index = false)
    (run : (Sampling.vector store h).run r.evaluator = (.ok v, e)) :
    r.register store h = (.ok ((r.marked h e).insert h v).1, ((r.marked h e).insert h v).2) := by
  simp only [register, markSeen, new, Bool.not_false, run, marked]

theorem find?_keep (r : Representatives) (h : Handle) (v : ExtensionVector) (kind : Kind)
    (w : ExtensionVector) :
    (r.keep h v).find? kind w = if h.kind = kind ∧ v = w then some h else r.find? kind w := by
  unfold find? keep
  rw [List.find?_cons]
  split <;> simp_all

theorem keptCount_keep (r : Representatives) (h : Handle) (v : ExtensionVector) (kind : Kind) :
    (r.keep h v).keptCount kind = r.keptCount kind + if h.kind = kind then 1 else 0 := by
  simp [keptCount, keep, List.countP_cons]

theorem insert_of_some {g : Handle} (found : r.find? h.kind v = some g) :
    r.insert h v = (.duplicate g, r) := by
  simp only [insert, found]

theorem insert_of_none (absent : r.find? h.kind v = none) :
    r.insert h v = (.kept, r.keep h v) := by
  simp only [insert, absent, keep]

/-- A representative is never replaced. -/
theorem find?_register {kind : Kind} {w : ExtensionVector} {g : Handle}
    (found : r.find? kind w = some g) (store : Store) (h : Handle) :
    (r.register store h).2.find? kind w = some g := by
  cases seen : r.seen.contains h.index with
  | true =>
    rw [register_seen seen]
    exact found
  | false =>
    rcases run : (Sampling.vector store h).run r.evaluator with ⟨result, e⟩
    cases result with
    | error fault =>
      simp only [register, markSeen, seen, Bool.not_false, run]
      exact found
    | ok v =>
      rw [register_new seen run]
      have found' : (r.marked h e).find? kind w = some g := found
      cases other : (r.marked h e).find? h.kind v with
      | some first => rwa [insert_of_some other]
      | none =>
        rw [insert_of_none other, find?_keep, if_neg, found']
        rintro ⟨rfl, rfl⟩
        cases found'.symm.trans other

theorem find?_after {kind : Kind} {w : ExtensionVector} {g : Handle}
    (found : r.find? kind w = some g) (calls : List (Store × Handle)) :
    (r.after calls).find? kind w = some g := by
  induction calls generalizing r with
  | nil => exact found
  | cons c rest ih => exact ih (find?_register found c.1 c.2)

/-! ## What all registrations lead to -/

/-- The representatives are those of the expressions that were registered. -/
structure Reflects (store : Store) (states : List State) (registered : List Handle)
    (r : Representatives) : Prop where
  fits : r.evaluator.Fits store states
  has : ∀ g ∈ registered, store.Has g
  seen : ∀ i, r.seen.contains i = true ↔ ∃ g ∈ registered, g.index = i
  found : ∀ kind w, r.find? kind w = store.first? states registered kind w
  valued : ∀ g ∈ registered, ∃ w, store.vector states g = .ok w
  count : ∀ kind, r.keptCount kind = (store.vectors states registered kind).card

theorem reflects_new (store : Store) (states : List State) :
    (new states).Reflects store states [] where
  fits := Evaluator.fits_new store states
  has g member := absurd member List.not_mem_nil
  seen i := by simp [new]
  found kind w := rfl
  valued g member := absurd member List.not_mem_nil
  count kind := rfl

theorem Reflects.seen_iff (reflects : r.Reflects store states registered) (has : store.Has h) :
    r.seen.contains h.index = true ↔ h ∈ registered := by
  rw [reflects.seen]
  constructor
  · rintro ⟨g, member, same⟩
    rwa [← (reflects.has g member).eq_of_index has same]
  · exact fun member => ⟨h, member, rfl⟩

/-- What is asked of the state after one more expression, apart from what is kept. -/
theorem Reflects.append {r' : Representatives} (reflects : r.Reflects store states registered)
    (has : store.Has h) (value : store.vector states h = .ok v)
    (fits : r'.evaluator.Fits store states) (seen : r'.seen = r.seen.insert h.index)
    (found : ∀ kind w, r'.find? kind w = store.first? states (registered ++ [h]) kind w)
    (count : ∀ kind, r'.keptCount kind = (store.vectors states (registered ++ [h]) kind).card) :
    r'.Reflects store states (registered ++ [h]) where
  fits := fits
  has g member := by
    rcases List.mem_append.mp member with old | new
    · exact reflects.has g old
    · rwa [List.mem_singleton.mp new]
  seen i := by
    rw [seen, Std.TreeSet.contains_insert, Bool.or_eq_true, reflects.seen]
    simp only [beq_iff_eq, Nat.compare_eq_eq, List.mem_append, List.mem_singleton]
    grind
  found := found
  valued g member := by
    rcases List.mem_append.mp member with old | new
    · exact reflects.valued g old
    · exact ⟨v, by rwa [List.mem_singleton.mp new]⟩
  count := count

/-- An expression of a kind and vector that is there already leaves what is kept. -/
theorem Reflects.duplicate {r' : Representatives} (reflects : r.Reflects store states registered)
    (has : store.Has h) (value : store.vector states h = .ok v)
    (there : ∃ first, store.first? states registered h.kind v = some first)
    (fits : r'.evaluator.Fits store states) (seen : r'.seen = r.seen.insert h.index)
    (kept : r'.kept = r.kept) : r'.Reflects store states (registered ++ [h]) := by
  refine reflects.append has value fits seen (fun kind w => ?_) fun kind => ?_
  · rw [Store.first?_append_of_isSome value there, ← reflects.found]
    simp only [find?, kept]
  · have same : store.vectors states (registered ++ [h]) kind
        = store.vectors states registered kind := by
      rw [Store.vectors_append]
      split
      next same =>
        obtain ⟨first, found⟩ := there
        have fits := List.find?_some found
        obtain ⟨kind', value'⟩ := of_decide_eq_true fits
        refine Finset.insert_eq_of_mem (Store.mem_vectors.mpr ⟨first, ?_, ?_, ?_⟩)
        · exact List.mem_of_find?_eq_some found
        · exact kind'.trans same
        · exact value'.trans value.symm
      next => rfl
    rw [same, ← reflects.count]
    simp only [keptCount, kept]

theorem Reflects.keep {r' : Representatives} (reflects : r.Reflects store states registered)
    (has : store.Has h) (value : store.vector states h = .ok v)
    (absent : store.first? states registered h.kind v = none)
    (fits : (r'.keep h v).evaluator.Fits store states) (seen : r'.seen = r.seen.insert h.index)
    (kept : r'.kept = r.kept) : (r'.keep h v).Reflects store states (registered ++ [h]) := by
  refine reflects.append has value fits seen (fun kind w => ?_) fun kind => ?_
  · have before : r'.find? kind w = r.find? kind w := by simp only [find?, kept]
    rw [find?_keep, before, reflects.found, Store.first?_append]
    simp only [value, Except.ok.injEq]
    split
    next here =>
      obtain ⟨rfl, rfl⟩ := here
      rw [absent, Option.none_or]
    next => rw [Option.or_none]
  · have before : r'.keptCount kind = r.keptCount kind := by simp only [keptCount, kept]
    rw [keptCount_keep, before, reflects.count, Store.vectors_append]
    split
    next same =>
      subst same
      refine (Finset.card_insert_of_notMem fun member => ?_).symm
      obtain ⟨g, old, kind, value'⟩ := Store.mem_vectors.mp member
      exact Store.first?_eq_none.mp absent g old kind (value'.trans value)
    next => rfl

/-- An expression is answered as it is to be, and is among the registered ones then. -/
theorem Reflects.register (reflects : r.Reflects store states registered) (wf : store.WellFormed)
    (sample : ∀ state ∈ states, state.Over store.vocabulary) (has : store.Has h) :
    (r.register store h).1 = .ok (store.registration states registered h) ∧
      (r.register store h).2.Reflects store states (registered ++ [h]) := by
  cases seen : r.seen.contains h.index with
  | true =>
    have member := (reflects.seen_iff has).mp seen
    obtain ⟨v, value⟩ := reflects.valued h member
    rw [register_seen seen]
    refine ⟨by simp [Store.registration, member], ?_⟩
    exact reflects.duplicate has value (Store.first?_isSome_of_mem member value) reflects.fits rfl rfl
  | false =>
    have fresh : h ∉ registered := fun member => by
      rw [(reflects.seen_iff has).mpr member] at seen
      cases seen
    obtain ⟨v, e, run, evaluated⟩ := (Sampling.vector_outcome wf sample has reflects.fits).exists_ok
    have value := evaluated.denotes.plain wf sample
    have answer : store.registration states registered h
        = match store.first? states registered h.kind v with
          | some g => .duplicate g
          | none => .kept := by
      rw [Store.registration, if_neg fresh, value]
      rfl
    rw [register_new seen run, answer]
    cases found : store.first? states registered h.kind v with
    | some g =>
      have there : (r.marked h e).find? h.kind v = some g := (reflects.found h.kind v).trans found
      rw [insert_of_some there]
      exact ⟨rfl, reflects.duplicate has value ⟨g, found⟩ evaluated.fits rfl rfl⟩
    | none =>
      have absent : (r.marked h e).find? h.kind v = none := (reflects.found h.kind v).trans found
      rw [insert_of_none absent]
      have fits := (evaluated.fits.remember evaluated.denotes).1
      exact ⟨rfl, reflects.keep has value found fits rfl rfl⟩

theorem Reflects.after (reflects : r.Reflects store states registered) (wf : store.WellFormed)
    (sample : ∀ state ∈ states, state.Over store.vocabulary) {handles : List Handle}
    (has : ∀ h ∈ handles, store.Has h) :
    (r.after (handles.map fun h => (store, h))).Reflects store states (registered ++ handles) := by
  induction handles generalizing r registered with
  | nil => rwa [List.append_nil]
  | cons h rest ih =>
    have next := (reflects.register wf sample (has h List.mem_cons_self)).2
    have whole := ih next fun g member => has g (List.mem_cons_of_mem _ member)
    rwa [List.append_assoc] at whole

/-! ## Stores that grow -/

theorem register_eq {c : Store × Handle} (requested : s.Requested c) (r : Representatives) :
    r.register s c.2 = r.register c.1 c.2 := by
  simp only [register, Sampling.vector_eq requested]

/-- All requests may as well be made at the end. -/
theorem after_eq {calls : List (Store × Handle)} (requested : ∀ c ∈ calls, s.Requested c)
    (r : Representatives) : r.after calls = r.after ((calls.map Prod.snd).map fun h => (s, h)) := by
  induction calls generalizing r with
  | nil => rfl
  | cons c rest ih =>
    have here : (r.register c.1 c.2).2 = (r.register s c.2).2 := by
      rw [register_eq (requested c List.mem_cons_self)]
    show (after (r.register c.1 c.2).2 rest) = after (r.register s c.2).2 _
    rw [here, ih fun c member => requested c (List.mem_cons_of_mem _ member)]

end Representatives

/-! ## Histories of registrations -/

/-- What the registration of some expressions leads to, and how one more is answered. -/
structure Store.Registered (s : Store) (issued : List Handle) (states : List State)
    (calls : List (Store × Handle)) (r : Representatives) : Prop where
  valued : ∀ h ∈ issued, ∃ w, s.vector states h = .ok w
  answered : ∀ h ∈ issued,
    (r.register s h).1 = .ok (s.registration states (calls.map Prod.snd) h)
  /-- A representative was kept itself, when it was registered first. -/
  kept : ∀ h ∈ issued, ∀ g, s.registration states (calls.map Prod.snd) h = .duplicate g →
    ∃ earlier c later, calls = earlier ++ c :: later ∧ c.2 = g ∧
      (((Representatives.new states).after earlier).register c.1 g).1 = .ok .kept
  found : ∀ kind w, r.find? kind w = s.first? states (calls.map Prod.snd) kind w
  permanent : ∀ kind w g, r.find? kind w = some g →
    ∀ later, (r.after later).find? kind w = some g
  count : ∀ kind, r.keptCount kind = (s.vectors states (calls.map Prod.snd) kind).card

/-- The first expression of a list is kept if it is registered after the ones before it. -/
theorem Store.registration_first {s : Store} {states : List State} {earlier : List Handle}
    {g h : Handle} (same : g.kind = h.kind ∧ s.vector states g = s.vector states h)
    (before : ∀ x ∈ earlier, ¬ (x.kind = h.kind ∧ s.vector states x = s.vector states h)) :
    s.registration states earlier g = .kept := by
  have fresh : g ∉ earlier := fun member => before g member same
  have none : (earlier.find? fun x =>
      x.kind = g.kind ∧ s.vector states x = s.vector states g) = .none := by
    refine List.find?_eq_none.mpr fun x member => ?_
    rw [same.1, same.2]
    simpa using before x member
  rw [registration, if_neg fresh, none]

/-- What others duplicate was kept itself, when it was registered first. -/
theorem Store.of_registration_duplicate {s : Store} {states : List State}
    {registered : List Handle} {g h : Handle}
    (duplicate : s.registration states registered h = .duplicate g) :
    ∃ earlier later, registered = earlier ++ g :: later ∧
      s.registration states earlier g = .kept := by
  unfold registration at duplicate
  split at duplicate
  next => cases duplicate
  next =>
    split at duplicate
    next first found =>
      cases duplicate
      obtain ⟨same, earlier, later, split, before⟩ := List.find?_eq_some_iff_append.mp found
      refine ⟨earlier, later, split, registration_first (by simpa using same) fun x member => ?_⟩
      simpa only [Bool.not_eq_true', decide_eq_false_iff_not] using before x member
    next => cases duplicate

theorem Store.WellFormed.exists_vector {s : Store} (wf : s.WellFormed) {states : List State}
    (sample : ∀ state ∈ states, state.Over s.vocabulary) {h : Handle} (has : s.Has h) :
    ∃ w, s.vector states h = .ok w := by
  obtain ⟨t, stands⟩ := wf.represents has
  obtain ⟨v, value⟩ := Expr.vector_ok sample stands.formed
  have denotes : s.Denotes states h v := ⟨has, t, stands, value⟩
  exact ⟨v, denotes.plain wf sample⟩

/-- Some of the requests lead to the same as if they were made at the end. -/
theorem Store.Requests.reflects {s : Store} {issued : List Handle}
    {calls : List (Store × Handle)} (requests : s.Requests issued calls) {states : List State}
    (sample : ∀ state ∈ states, state.Over s.vocabulary) {part : List (Store × Handle)}
    (inside : ∀ c ∈ part, c ∈ calls) :
    ((Representatives.new states).after part).Reflects s states (part.map Prod.snd) := by
  have requested := fun c member => requests.requested c (inside c member)
  have has : ∀ h ∈ part.map Prod.snd, s.Has h := by
    intro h member
    obtain ⟨c, there, rfl⟩ := List.mem_map.mp member
    exact (requested c there).grown.has (requested c there).has
  rw [Representatives.after_eq requested]
  exact (Representatives.reflects_new s states).after requests.reachable.wellFormed sample has

/-- Whatever expressions of a store are registered, the first ones of their kind and vector are
kept and found, and the others are duplicates of them. -/
theorem Store.Requests.registered {s : Store} {issued : List Handle}
    {calls : List (Store × Handle)} (requests : s.Requests issued calls) {states : List State}
    (sample : ∀ state ∈ states, state.Over s.vocabulary) :
    s.Registered issued states calls ((Representatives.new states).after calls) := by
  have wf := requests.reachable.wellFormed
  have owned := requests.reachable.sound.2
  have whole := requests.reflects sample fun c (member : c ∈ calls) => member
  exact {
    valued := fun h member => wf.exists_vector sample (owned h member)
    answered := fun h member => (whole.register wf sample (owned h member)).1
    kept := by
      intro h member g duplicate
      obtain ⟨earlier, later, split, first⟩ := of_registration_duplicate duplicate
      obtain ⟨front, tail, rfl, rfl, shape⟩ := List.map_eq_append_iff.mp split
      obtain ⟨c, back, rfl, rfl, rfl⟩ := List.map_eq_cons_iff.mp shape
      have known := requests.reflects sample fun c (member : c ∈ front) =>
        List.mem_append_left _ member
      have requested := requests.requested c (List.mem_append_right _ List.mem_cons_self)
      refine ⟨front, c, back, rfl, rfl, ?_⟩
      rw [← Representatives.register_eq requested,
        (known.register wf sample (requested.grown.has requested.has)).1, first]
    found := whole.found
    permanent := fun kind w g found later => Representatives.find?_after found later
    count := whole.count }

namespace Lamps

/-- Nothing is lit and unlit. -/
def bottomed : Store := (Call.run both (.leaf .conceptBot)).2

theorem requests_bottomed :
    bottomed.Requests [⟨.concept, 4⟩, ⟨.concept, 3⟩, ⟨.concept, 2⟩, ⟨.concept, 1⟩] requests := by
  have last := requests_made.call (.leaf .conceptBot) (by decide) trivial
  have given : (Call.run both (.leaf .conceptBot)).1 = [⟨.concept, 4⟩] := by decide +kernel
  rwa [given] at last

end Lamps

theorem Store.Requests.registered_lamps :
    Lamps.bottomed.Registered [⟨.concept, 4⟩, ⟨.concept, 3⟩, ⟨.concept, 2⟩, ⟨.concept, 1⟩] Lamps.states
        Lamps.requests ((Representatives.new Lamps.states).after Lamps.requests) ∧
      (((Representatives.new Lamps.states).after Lamps.requests).register Lamps.bottomed
        ⟨.concept, 4⟩).1 = .ok (.duplicate ⟨.concept, 3⟩) :=
  ⟨Lamps.requests_bottomed.registered (Lamps.states_over (by decide +kernel)),
    by decide +kernel⟩

end PlanFeatures
