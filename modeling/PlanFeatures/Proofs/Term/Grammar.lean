import Mathlib.Data.List.TakeWhile
import PlanFeatures.Proofs.Term.Text

/-!
# The grammar of terms

A term is a name, with blanks before it, alone or with arguments in parentheses.  The
reader tries to read arguments after every name and gives them up when they are not
well formed.  Nothing is lost by that inside a term: after a term the grammar allows
only a comma or a closing parenthesis, and neither of them opens arguments that would
have to be given up.  So the reader accepts the grammar and nothing else, and for a
refused text only the first term decides where the fault lies.
-/

namespace PlanFeatures

theorem IsName.length_pos {name : String} (named : IsName name) : 0 < name.toList.length :=
  List.length_pos_iff.mpr (mt String.toList_eq_nil_iff.mp named.1)

namespace Term

/-! ## The grammar -/

def Blank (w : List Char) : Prop := ∀ c ∈ w, isTermBlank c = true

mutual

/-- The characters of a term. -/
inductive Derives : Term → List Char → Prop
  | bare {w : List Char} {name : String} : Blank w → IsName name →
      Derives (node name []) (w ++ name.toList)
  | applied {w cs : List Char} {name : String} {args : List Term} : Blank w → IsName name →
      Bracketed args cs → Derives (node name args) (w ++ (name.toList ++ cs))

/-- The characters of arguments with their parentheses. -/
inductive Bracketed : List Term → List Char → Prop
  | nil {v w : List Char} : Blank v → Blank w → Bracketed [] (v ++ '(' :: (w ++ [')']))
  | cons {v w cs ds : List Char} {t : Term} {ts : List Term} : Blank v → Derives t cs →
      Further ts ds → Blank w → Bracketed (t :: ts) (v ++ '(' :: (cs ++ (ds ++ (w ++ [')']))))

/-- The characters of further arguments, each after a comma. -/
inductive Further : List Term → List Char → Prop
  | nil : Further [] []
  | cons {w cs ds : List Char} {t : Term} {ts : List Term} : Blank w → Derives t cs →
      Further ts ds → Further (t :: ts) (w ++ ',' :: (cs ++ ds))

end

/-- The whole text is a term with blanks after it. -/
def Spelled (t : Term) (s : List Char) : Prop :=
  ∃ cs w, Derives t cs ∧ Blank w ∧ s = cs ++ w

/-! ## The next character -/

/-- The next character, if there is one, is no blank. -/
def Visible (rest : List Char) : Prop := ∀ c, rest.head? = some c → isTermBlank c = false

/-- The next character, if there is one, is no part of a name. -/
def Apart (rest : List Char) : Prop := ∀ c, rest.head? = some c → isNamePart c = false

/-- After blanks stands nothing, a comma or a closing parenthesis. -/
def Closes (rest : List Char) : Prop := Ends (skipBlanks rest)

theorem Blank.skipBlanks_append {w : List Char} (blank : Blank w) (rest : List Char) :
    skipBlanks (w ++ rest) = skipBlanks rest :=
  List.dropWhile_append_of_pos blank

theorem Visible.skipBlanks_eq {rest : List Char} (visible : Visible rest) :
    skipBlanks rest = rest := by
  cases rest with
  | nil => rfl
  | cons c rest => simp [skipBlanks, visible c rfl]

theorem Blank.skipBlanks_eq {w rest : List Char} (blank : Blank w) (visible : Visible rest) :
    skipBlanks (w ++ rest) = rest := by
  rw [blank.skipBlanks_append, visible.skipBlanks_eq]

theorem visible_cons {c : Char} (visible : isTermBlank c = false) (rest : List Char) :
    Visible (c :: rest) := by
  intro d head
  cases head
  exact visible

theorem visible_skipBlanks (s : List Char) : Visible (skipBlanks s) := by
  intro c head
  have first := List.head?_dropWhile_not isTermBlank s
  rw [show s.dropWhile isTermBlank = skipBlanks s from rfl, head] at first
  simpa using first

theorem exists_blank (s : List Char) : ∃ w, Blank w ∧ s = w ++ skipBlanks s := by
  refine ⟨s.takeWhile isTermBlank, ?_, List.takeWhile_append_dropWhile.symm⟩
  intro c member
  exact List.mem_takeWhile_imp member

theorem Blank.apart {w rest : List Char} (blank : Blank w) (apart : Apart rest) :
    Apart (w ++ rest) := by
  cases w with
  | nil => exact apart
  | cons b w =>
    intro c head
    cases head
    exact not_isNamePart_of_isTermBlank (blank b List.mem_cons_self)

theorem apart_cons {c : Char} (apart : isNamePart c = false) (rest : List Char) :
    Apart (c :: rest) := by
  intro d head
  cases head
  exact apart

theorem Blank.closes {w rest : List Char} (blank : Blank w) (visible : Visible rest)
    (ends : Ends rest) : Closes (w ++ rest) := by
  rw [Closes, blank.skipBlanks_eq visible]
  exact ends

theorem Closes.apart {rest : List Char} (closes : Closes rest) : Apart rest := by
  obtain ⟨w, blank, split⟩ := exists_blank rest
  rw [split]
  refine blank.apart fun c head => ?_
  rcases closes c head with rfl | rfl <;> rfl

/-! ## Marks and names -/

theorem readMark?_skipBlanks (mark : Char) (s : List Char) :
    readMark? mark (skipBlanks s) = readMark? mark s := by
  rw [readMark?, (visible_skipBlanks s).skipBlanks_eq, readMark?]

theorem readMark?_append {mark : Char} (visible : isTermBlank mark = false) {w : List Char}
    (blank : Blank w) (rest : List Char) : readMark? mark (w ++ mark :: rest) = some rest := by
  rw [← readMark?_skipBlanks, blank.skipBlanks_append, readMark?_skipBlanks,
    readMark?_cons visible]

theorem of_readMark? {mark : Char} {s rest : List Char} (read : readMark? mark s = some rest) :
    ∃ w, Blank w ∧ s = w ++ mark :: rest := by
  obtain ⟨w, blank, split⟩ := exists_blank s
  unfold readMark? at read
  cases visible : skipBlanks s with
  | nil => simp [visible] at read
  | cons c cs =>
    simp only [visible, Option.ite_none_right_eq_some, Option.some.injEq] at read
    obtain ⟨rfl, rfl⟩ := read
    exact ⟨w, blank, visible ▸ split⟩

theorem Closes.readMark?_eq_none {rest : List Char} (closes : Closes rest) :
    readMark? '(' rest = none := by
  rw [← readMark?_skipBlanks]
  exact Ends.readMark?_eq_none closes

theorem readName?_skipBlanks (s : List Char) : readName? (skipBlanks s) = readName? s := by
  rw [readName?, (visible_skipBlanks s).skipBlanks_eq, readName?]

/-- A name is read up to its last character. -/
theorem readName?_blank {w : List Char} (blank : Blank w) {name : String} (named : IsName name)
    {rest : List Char} (apart : Apart rest) :
    readName? (w ++ (name.toList ++ rest)) = some (name, rest) := by
  rw [← readName?_skipBlanks, blank.skipBlanks_append, readName?_skipBlanks]
  cases rest with
  | nil => exact readName?_append named rfl rfl
  | cons c rest =>
    have stop := apart c rfl
    exact readName?_append named (by simp [stop]) (by simp [stop])

theorem readName?_eq_none {s : List Char} (apart : Apart (skipBlanks s)) :
    readName? s = none := by
  rw [readName?]
  cases visible : skipBlanks s with
  | nil => rfl
  | cons c cs =>
    have stop : isNamePart c = false := apart c (by rw [visible]; rfl)
    simp [stop]

theorem of_readName?_eq_none {s : List Char} (missing : readName? s = none) :
    Apart (skipBlanks s) := by
  intro c head
  unfold readName? at missing
  cases visible : skipBlanks s with
  | nil => rw [visible] at head; cases head
  | cons d cs =>
    rw [visible] at head
    cases head
    cases part : isNamePart c with
    | false => rfl
    | true => simp [visible, part] at missing

theorem of_readName? {s rest : List Char} {name : String}
    (read : readName? s = some (name, rest)) :
    ∃ w, Blank w ∧ IsName name ∧ Apart rest ∧ s = w ++ (name.toList ++ rest) := by
  obtain ⟨w, blank, split⟩ := exists_blank s
  unfold readName? at read
  simp only at read
  cases taken : (skipBlanks s).takeWhile isNamePart with
  | nil => simp [taken] at read
  | cons c cs =>
    simp only [taken, Option.some.injEq, Prod.mk.injEq] at read
    obtain ⟨rfl, rfl⟩ := read
    refine ⟨w, blank, ⟨by simp, ?_⟩, ?_, ?_⟩
    · intro d member
      rw [String.toList_ofList, ← taken] at member
      exact List.mem_takeWhile_imp member
    · intro d head
      have first := List.head?_dropWhile_not isNamePart (skipBlanks s)
      rw [head] at first
      simpa using first
    · rw [String.toList_ofList, ← taken, List.takeWhile_append_dropWhile]
      exact split

/-! ## What is read is derived -/

mutual

theorem derives_of_read? : ∀ {fuel : Nat} {s rest : List Char} {t : Term},
    read? fuel s = some (t, rest) → ∃ cs, Derives t cs ∧ s = cs ++ rest
  | 0, _, _, _, read => by cases read
  | fuel + 1, s, rest, t, read => by
    rw [read?] at read
    obtain ⟨⟨name, after⟩, found, read⟩ := Option.bind_eq_some_iff.mp read
    obtain ⟨w, blank, named, -, split⟩ := of_readName? found
    cases args : readArgs? fuel after with
    | none =>
      simp only [args] at read
      cases read
      exact ⟨_, .bare blank named, by rw [split, List.append_assoc]⟩
    | some result =>
      obtain ⟨ts, left⟩ := result
      simp only [args] at read
      cases read
      obtain ⟨cs, bracketed, cut⟩ := bracketed_of_readArgs? args
      exact ⟨_, .applied blank named bracketed, by rw [split, cut]; simp⟩

theorem bracketed_of_readArgs? : ∀ {fuel : Nat} {s rest : List Char} {args : List Term},
    readArgs? fuel s = some (args, rest) → ∃ cs, Bracketed args cs ∧ s = cs ++ rest
  | 0, _, _, _, read => by cases read
  | fuel + 1, s, rest, args, read => by
    rw [readArgs?] at read
    obtain ⟨inner, opened, read⟩ := Option.bind_eq_some_iff.mp read
    obtain ⟨v, blank, split⟩ := of_readMark? opened
    cases first : read? fuel inner with
    | none =>
      simp only [first] at read
      obtain ⟨left, closed, same⟩ := Option.bind_eq_some_iff.mp read
      cases same
      obtain ⟨w, blank', cut⟩ := of_readMark? closed
      exact ⟨_, .nil blank blank', by rw [split, cut]; simp⟩
    | some result =>
      obtain ⟨t, after⟩ := result
      simp only [first] at read
      obtain ⟨left, closed, same⟩ := Option.bind_eq_some_iff.mp read
      cases same
      obtain ⟨cs, derives, cut⟩ := derives_of_read? first
      obtain ⟨ds, further, cut'⟩ := further_of_readMore fuel after
      obtain ⟨w, blank', cut''⟩ := of_readMark? closed
      exact ⟨_, .cons blank derives further blank', by rw [split, cut, cut', cut'']; simp⟩

theorem further_of_readMore : ∀ (fuel : Nat) (s : List Char),
    ∃ cs, Further (readMore fuel s).1 cs ∧ s = cs ++ (readMore fuel s).2
  | 0, s => ⟨[], .nil, rfl⟩
  | fuel + 1, s => by
    rw [readMore]
    cases next : (readMark? ',' s).bind (read? fuel) with
    | none => exact ⟨[], .nil, rfl⟩
    | some result =>
      obtain ⟨t, after⟩ := result
      obtain ⟨inner, comma, read⟩ := Option.bind_eq_some_iff.mp next
      obtain ⟨w, blank, split⟩ := of_readMark? comma
      obtain ⟨cs, derives, cut⟩ := derives_of_read? read
      obtain ⟨ds, further, cut'⟩ := further_of_readMore fuel after
      refine ⟨_, .cons blank derives further, ?_⟩
      rw [split, cut, List.append_assoc, List.cons_append, List.append_assoc, ← cut']

end

/-! ## What is derived is read -/

theorem Bracketed.apart {args : List Term} {cs : List Char} (bracketed : Bracketed args cs)
    (rest : List Char) : Apart (cs ++ rest) := by
  cases bracketed with
  | nil blank _ => rw [List.append_assoc]; exact blank.apart (apart_cons rfl _)
  | cons blank _ _ _ => rw [List.append_assoc]; exact blank.apart (apart_cons rfl _)

/-- Nothing that may follow an argument opens arguments of its own. -/
theorem Closes.ne_bracketed {rest : List Char} (closes : Closes rest) {args : List Term}
    {cs : List Char} (bracketed : Bracketed args cs) (left : List Char) : rest ≠ cs ++ left := by
  rintro rfl
  have missing := closes.readMark?_eq_none
  cases bracketed with
  | nil blank _ =>
    rw [List.append_assoc, List.cons_append, readMark?_append rfl blank] at missing
    cases missing
  | cons blank _ _ _ =>
    rw [List.append_assoc, List.cons_append, readMark?_append rfl blank] at missing
    cases missing

theorem Further.closes {ts : List Term} {cs : List Char} (further : Further ts cs)
    {w : List Char} (blank : Blank w) (rest : List Char) :
    Closes (cs ++ (w ++ ')' :: rest)) := by
  cases further with
  | nil => exact blank.closes (visible_cons rfl rest) (ends_close rest)
  | cons before _ _ =>
    rw [List.append_assoc]
    exact before.closes (visible_cons rfl _) fun c head => Or.inl (Option.some.inj head).symm

theorem read?_eq_none {s : List Char} (apart : Apart (skipBlanks s)) (fuel : Nat) :
    read? fuel s = none := by
  cases fuel with
  | zero => rfl
  | succ fuel => rw [read?, readName?_eq_none apart]; rfl

/-- A name goes on with the arguments that are read after it. -/
theorem read?_applied {v : List Char} (blank : Blank v) {name : String} (named : IsName name)
    {after left : List Char} (apart : Apart after) {fuel : Nat} {args : List Term}
    (read : readArgs? fuel after = some (args, left)) :
    read? (fuel + 1) (v ++ (name.toList ++ after)) = some (node name args, left) := by
  rw [read?, readName?_blank blank named apart]
  simp only [Option.bind_eq_bind, Option.bind_some, read]
  rfl

/-- A name alone is a term where no arguments follow. -/
theorem read?_bare {v : List Char} (blank : Blank v) {name : String} (named : IsName name)
    {rest : List Char} (apart : Apart rest)
    (alone : ∀ args cs left, Bracketed args cs → rest ≠ cs ++ left) (fuel : Nat) :
    read? (fuel + 1) (v ++ (name.toList ++ rest)) = some (node name [], rest) := by
  rw [read?, readName?_blank blank named apart]
  simp only [Option.bind_eq_bind, Option.bind_some]
  cases args : readArgs? fuel rest with
  | none => rfl
  | some result =>
    obtain ⟨cs, bracketed, split⟩ := bracketed_of_readArgs? args
    exact absurd split (alone _ _ _ bracketed)

mutual

theorem read?_of_derives : ∀ (t : Term) {cs rest : List Char} {fuel : Nat}, Derives t cs →
    Closes rest → (cs ++ rest).length < fuel → read? fuel (cs ++ rest) = some (t, rest)
  | node name args, cs, rest, fuel, derives, closes, enough => by
    obtain ⟨fuel, rfl⟩ : ∃ k, fuel = k + 1 := ⟨fuel - 1, by omega⟩
    cases derives with
    | bare blank named =>
      rw [List.append_assoc]
      exact read?_bare blank named closes.apart
        (fun _ _ left bracketed => closes.ne_bracketed bracketed left) fuel
    | @applied w inner _ _ blank named bracketed =>
      have shorter : (inner ++ rest).length < fuel := by
        have := named.length_pos
        simp only [List.length_append] at enough ⊢
        omega
      rw [List.append_assoc, List.append_assoc]
      exact read?_applied blank named (bracketed.apart rest)
        (readArgs?_of_bracketed args bracketed shorter)

theorem readArgs?_of_bracketed : ∀ (args : List Term) {cs rest : List Char} {fuel : Nat},
    Bracketed args cs → (cs ++ rest).length < fuel →
    readArgs? fuel (cs ++ rest) = some (args, rest)
  | [], cs, rest, fuel, bracketed, enough => by
    obtain ⟨fuel, rfl⟩ : ∃ k, fuel = k + 1 := ⟨fuel - 1, by omega⟩
    cases bracketed with
    | @nil v w blank blank' =>
      have apart : Apart (skipBlanks (w ++ ')' :: rest)) := by
        rw [blank'.skipBlanks_append]
        exact apart_cons rfl rest
      rw [List.append_assoc, List.cons_append, List.append_assoc, readArgs?,
        readMark?_append rfl blank]
      simp only [Option.bind_eq_bind, Option.bind_some, List.singleton_append,
        read?_eq_none apart]
      rw [readMark?_append rfl blank']
      rfl
  | t :: ts, cs, rest, fuel, bracketed, enough => by
    obtain ⟨fuel, rfl⟩ : ∃ k, fuel = k + 1 := ⟨fuel - 1, by omega⟩
    cases bracketed with
    | @cons v w cs ds _ _ blank derives further blank' =>
      simp only [List.append_assoc, List.cons_append, List.nil_append,
        List.length_append, List.length_cons] at enough ⊢
      have first : read? fuel (cs ++ (ds ++ (w ++ ')' :: rest)))
          = some (t, ds ++ (w ++ ')' :: rest)) :=
        read?_of_derives t derives (further.closes blank' rest)
          (by simp only [List.length_append, List.length_cons]; omega)
      have more : readMore fuel (ds ++ (w ++ ')' :: rest)) = (ts, w ++ ')' :: rest) :=
        readMore_of_further ts further blank'
          (by simp only [List.length_append, List.length_cons]; omega)
      rw [readArgs?, readMark?_append rfl blank]
      simp only [Option.bind_eq_bind, Option.bind_some, first, more]
      rw [readMark?_append rfl blank']
      rfl

theorem readMore_of_further : ∀ (ts : List Term) {cs w rest : List Char} {fuel : Nat},
    Further ts cs → Blank w → (cs ++ (w ++ ')' :: rest)).length < fuel →
    readMore fuel (cs ++ (w ++ ')' :: rest)) = (ts, w ++ ')' :: rest)
  | [], cs, w, rest, fuel, further, blank, enough => by
    obtain ⟨fuel, rfl⟩ : ∃ k, fuel = k + 1 := ⟨fuel - 1, by omega⟩
    cases further with
    | nil =>
      have missing : readMark? ',' (w ++ ')' :: rest) = none := by
        rw [← readMark?_skipBlanks, blank.skipBlanks_append]
        rfl
      rw [List.nil_append, readMore, missing]
      rfl
  | t :: ts, cs, w, rest, fuel, further, blank, enough => by
    obtain ⟨fuel, rfl⟩ : ∃ k, fuel = k + 1 := ⟨fuel - 1, by omega⟩
    cases further with
    | @cons v cs ds _ _ before derives further =>
      simp only [List.append_assoc, List.cons_append, List.length_append,
        List.length_cons] at enough ⊢
      have first : read? fuel (cs ++ (ds ++ (w ++ ')' :: rest)))
          = some (t, ds ++ (w ++ ')' :: rest)) :=
        read?_of_derives t derives (further.closes blank rest)
          (by simp only [List.length_append, List.length_cons]; omega)
      have more : readMore fuel (ds ++ (w ++ ')' :: rest)) = (ts, w ++ ')' :: rest) :=
        readMore_of_further ts further blank
          (by simp only [List.length_append, List.length_cons]; omega)
      rw [readMore, readMark?_append rfl before]
      simp only [Option.bind_some, first, more]

end

/-! ## Whole texts -/

/-- Where the fault of a text lies: at the start, where no name stands there, or else at
what follows the first term and the blanks after it.  The first term ends with its
arguments, or with its name where no arguments are well formed. -/
inductive Fault.At : List Char → Fault → Prop
  | start {w rest : List Char} : Blank w → Visible rest → Apart rest →
      Fault.At (w ++ rest) (.noName rest)
  | afterName {v w rest : List Char} {name : String} : Blank v → IsName name →
      Apart (w ++ rest) → (∀ args cs left, Bracketed args cs → w ++ rest ≠ cs ++ left) →
      Blank w → Visible rest → rest ≠ [] →
      Fault.At (v ++ (name.toList ++ (w ++ rest))) (.trailing rest)
  | afterArguments {v cs w rest : List Char} {name : String} {args : List Term} : Blank v →
      IsName name → Bracketed args cs → Blank w → Visible rest → rest ≠ [] →
      Fault.At (v ++ (name.toList ++ (cs ++ (w ++ rest)))) (.trailing rest)

theorem Spelled.parse {t : Term} {text : String} (spelled : Spelled t text.toList) :
    parse text = .ok t := by
  obtain ⟨cs, w, derives, blank, split⟩ := spelled
  have closes : Closes w := by
    have ends : Closes (w ++ []) := blank.closes (fun c head => by cases head) ends_nil
    rwa [List.append_nil] at ends
  have read := read?_of_derives t derives closes (Nat.lt_succ_self (cs ++ w).length)
  have nothing : skipBlanks w = [] := by
    rw [← List.append_nil w, blank.skipBlanks_append]
    rfl
  simp only [Term.parse, split, read, nothing]

theorem Fault.At.parse {fault : Fault} {text : String} (located : Fault.At text.toList fault) :
    parse text = .error fault := by
  generalize chars : text.toList = s at located
  cases located with
  | @start w rest blank visible apart =>
    have rest_eq := blank.skipBlanks_eq visible
    simp only [Term.parse, chars, read?_eq_none (rest_eq.symm ▸ apart), rest_eq]
  | @afterName v w rest name blank named apart alone blank' visible more =>
    simp only [Term.parse, chars, read?_bare blank named apart alone,
      blank'.skipBlanks_eq visible]
  | @afterArguments v cs w rest name args blank named bracketed blank' visible more =>
    have shorter : (cs ++ (w ++ rest)).length
        < (v ++ (name.toList ++ (cs ++ (w ++ rest)))).length := by
      have := named.length_pos
      simp only [List.length_append]
      omega
    have read := read?_applied blank named (bracketed.apart (w ++ rest))
      (readArgs?_of_bracketed args bracketed shorter)
    simp only [Term.parse, chars, read, blank'.skipBlanks_eq visible]

/-- Every text is a term or has a fault. -/
theorem spelled_or_fault (s : List Char) :
    (∃ t, Spelled t s) ∨ ∃ fault, Fault.At s fault := by
  obtain ⟨w, blank, split⟩ := exists_blank s
  cases start : readName? s with
  | none =>
    rw [split]
    exact .inr ⟨_, .start blank (visible_skipBlanks s) (of_readName?_eq_none start)⟩
  | some result =>
    obtain ⟨name, after⟩ := result
    obtain ⟨v, before, named, apart, rfl⟩ := of_readName? start
    -- the end of the first term
    by_cases opened : ∃ args cs left, Bracketed args cs ∧ after = cs ++ left
    · obtain ⟨args, cs, left, bracketed, rfl⟩ := opened
      obtain ⟨u, blank', cut⟩ := exists_blank left
      cases more : skipBlanks left with
      | nil =>
        refine .inl ⟨_, _, u, .applied before named bracketed, blank', ?_⟩
        rw [cut, more]
        simp
      | cons c rest =>
        rw [cut]
        exact .inr ⟨_, .afterArguments before named bracketed blank' (visible_skipBlanks left)
          (by simp [more])⟩
    · have alone : ∀ args cs left, Bracketed args cs → after ≠ cs ++ left :=
        fun args cs left bracketed same => opened ⟨args, cs, left, bracketed, same⟩
      obtain ⟨u, blank', cut⟩ := exists_blank after
      cases more : skipBlanks after with
      | nil =>
        refine .inl ⟨_, _, u, .bare before named, blank', ?_⟩
        rw [cut, more]
        simp
      | cons c rest =>
        rw [cut] at apart alone ⊢
        exact .inr ⟨_, .afterName before named apart alone blank' (visible_skipBlanks after)
          (by simp [more])⟩

/-- The reader accepts the texts of the grammar and gives their terms, of which there is
one for each text, and refuses any other text for the fault at its place. -/
theorem parse_exact (text : String) :
    (∀ t, parse text = .ok t ↔ Spelled t text.toList) ∧
    (∀ t u, Spelled t text.toList → Spelled u text.toList → t = u) ∧
    ∀ fault, parse text = .error fault ↔ Fault.At text.toList fault := by
  refine ⟨fun t => ⟨fun read => ?_, Spelled.parse⟩, fun t u first second => ?_,
    fun fault => ⟨fun refused => ?_, Fault.At.parse⟩⟩
  · rcases spelled_or_fault text.toList with ⟨u, spelled⟩ | ⟨fault, located⟩
    · obtain rfl : t = u := Except.ok.inj (read.symm.trans spelled.parse)
      exact spelled
    · cases read.symm.trans located.parse
  · exact Except.ok.inj (first.parse.symm.trans second.parse)
  · rcases spelled_or_fault text.toList with ⟨t, spelled⟩ | ⟨other, located⟩
    · cases refused.symm.trans spelled.parse
    · obtain rfl : fault = other := Except.error.inj (refused.symm.trans located.parse)
      exact located

end Term
end PlanFeatures
