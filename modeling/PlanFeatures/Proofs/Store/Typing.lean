import PlanFeatures.Proofs.Store.History

/-!
# Typed terms are built

A term that is typed over the vocabulary is built in every store over it, and the handle is
of the expression that the term spells.  Each of its rules is applied to handles that earlier
calls gave, as when a caller builds the expression step by step.
-/

namespace PlanFeatures

namespace Build
variable {s : Store} {text : String}

/-- The computation does not fail and gives a handle of the expression. -/
abbrev Makes (s : Store) (m : Build Handle) (e : Expr) : Prop :=
  Outcome m s (fun h s' => s.Later s' ∧ s'.StandsFor h e) fun _ _ => False

theorem makes_of_run {m : Build Handle} {e : Expr}
    (run : ∃ h s', Call.built s m = ([h], s') ∧ s.Later s' ∧ s'.StandsFor h e) :
    Makes s m e := by
  obtain ⟨h, s', run, later, stands⟩ := run
  unfold Call.built at run
  unfold Makes Outcome
  split at run
  next g s₁ result =>
    cases run
    rw [result]
    exact ⟨later, stands⟩
  next => cases run

/-- What comes before only lets the store grow. -/
theorem Makes.after {s₁ : Store} {m : Build Handle} {e : Expr} (later : s.Later s₁)
    (makes : Makes s₁ m e) :
    Outcome m s₁ (fun h s' => s.Later s' ∧ s'.StandsFor h e) fun _ _ => False :=
  makes.imp_done fun _ _ made => ⟨later.trans made.1, made.2⟩

/-- In every store over the vocabulary the term is built. -/
def Accepts (text : String) (v : Vocabulary) (t : Term) (e : Expr) : Prop :=
  ∀ s : Store, s.WellFormed → s.vocabulary = v → Makes s (ofTerm text t) e

variable {v : Vocabulary}

theorem ofTerms_accept {ts : List Term} {es : List Expr}
    (accepts : List.Forall₂ (Accepts text v) ts es) (wf : s.WellFormed)
    (vocabulary : s.vocabulary = v) :
    Outcome (ofTerms text ts) s
      (fun hs s' => s.Later s' ∧ List.Forall₂ s'.StandsFor hs es) fun _ _ => False := by
  induction accepts generalizing s with
  | nil =>
    unfold ofTerms
    exact ⟨wf.later, .nil⟩
  | @cons t e ts es first _ ih =>
    rw [ofTerms, Outcome.bind_iff]
    refine (first s wf vocabulary).imp_done ?_
    rintro h s₁ ⟨later, stands⟩
    rw [Outcome.bind_iff]
    refine (ih later.wellFormed (later.grown.vocabulary.trans vocabulary)).imp_done ?_
    rintro hs s₂ ⟨later', stand⟩
    exact ⟨later.trans later', .cons (stands.extends later'.grown) stand⟩

theorem accepts_leaf {l : Leaf} {names : List String} (spelled : l.Spelled v names)
    (declared : l.Declared v) :
    Accepts text v (.node l.rule.name (names.map Term.ofSymbol)) (.leaf l) := by
  rintro s wf rfl
  apply (ofTerm_leaf wf spelled declared).imp_done
  exact fun h s' given => ⟨given.later, given.has, _, given.stands, .refl _⟩

/-- The rule is applied to the handles of its operands. -/
theorem accepts_composite {rule : Rule} (operandsOnly : rule.takesSymbols = false)
    {ts : List Term} {es : List Expr} {e : Expr} (accepts : List.Forall₂ (Accepts text v) ts es)
    (root : ∀ s hs, s.WellFormed → s.vocabulary = v → List.Forall₂ s.StandsFor hs es →
      Makes s (composite rule hs) e) :
    Accepts text v (.node rule.name ts) e := by
  intro s wf vocabulary
  rw [ofTerm_composite operandsOnly, Makes, Outcome.bind_iff]
  refine (ofTerms_accept accepts wf vocabulary).imp_done ?_
  rintro hs s₁ ⟨later, stand⟩
  exact (root s₁ hs later.wellFormed (later.grown.vocabulary.trans vocabulary) stand).after later

theorem accepts_of_typed {t : Term} {e : Expr} (typed : t.Typed v e) : Accepts text v t e := by
  have formed := typed.formed
  induction typed with
  | leaf spelled declared => exact accepts_leaf spelled declared
  | @projection t a first i typed kind numeral low ih =>
    intro s wf vocabulary
    unfold Makes ofTerm
    rw [Rule.ofName?_name]
    dsimp only
    rw [Outcome.bind_iff]
    refine (ih typed.formed s wf vocabulary).imp_done ?_
    rintro role s₁ ⟨later, stands⟩
    have isRole : role.kind = .role := stands.kind.trans kind
    simp only [isRole, ne_eq, not_true_eq_false, if_false]
    rw [readPosition_bind numeral]
    have formed' : (Expr.unary (.conceptProjection i) a).Over s₁.vocabulary := by
      rw [later.grown.vocabulary, vocabulary]
      exact formed
    have built : ∀ h e, (h, e) ∈ [(role, a)] → s₁.StandsFor h e := by simpa using stands
    exact (makes_of_run (later.wellFormed.exists_run built (.projection i (.head _)) formed')).after
      later
  | @unary op t a other typed kind ih =>
    have operandsOnly : op.rule.takesSymbols = false := by
      cases op <;> first | rfl | exact absurd rfl other
    apply accepts_composite operandsOnly (.cons (ih typed.formed) .nil)
    rintro s hs wf rfl stand
    have built : ∀ h e, (h, e) ∈ hs.zip [a] → s.StandsFor h e := fun _ _ => List.forall₂_zip stand
    rcases stand with _ | ⟨_, _ | _⟩
    exact makes_of_run (wf.exists_run built (.unary other (.head _)) formed)
  | @binary op t u a b left right kindA kindB iha ihb =>
    have operandsOnly : op.rule.takesSymbols = false := by cases op <;> rfl
    apply accepts_composite operandsOnly (.cons (iha left.formed) (.cons (ihb right.formed) .nil))
    rintro s hs wf rfl stand
    have built : ∀ h e, (h, e) ∈ hs.zip [a, b] → s.StandsFor h e := fun _ _ =>
      List.forall₂_zip stand
    rcases stand with _ | ⟨_, _ | ⟨_, _ | _⟩⟩
    exact makes_of_run (wf.exists_run built (.binary op (.head _) (.tail _ (.head _))) formed)
  | @distance t u w a r b source role target kindA kindR kindB iha ihr ihb =>
    apply accepts_composite rfl
      (.cons (iha source.formed) (.cons (ihr role.formed) (.cons (ihb target.formed) .nil)))
    rintro s hs wf rfl stand
    have built : ∀ h e, (h, e) ∈ hs.zip [a, r, b] → s.StandsFor h e := fun _ _ =>
      List.forall₂_zip stand
    rcases stand with _ | ⟨_, _ | ⟨_, _ | ⟨_, _ | _⟩⟩⟩
    exact makes_of_run (wf.exists_run built
      (.distance (.head _) (.tail _ (.head _)) (.tail _ (.tail _ (.head _)))) formed)

end Build
end PlanFeatures
