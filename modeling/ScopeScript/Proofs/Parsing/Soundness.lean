import ScopeScript.Proofs.Parsing.Reading
import ScopeScript.Proofs.Parsing.Rule

/-!
# Rules that note nothing read what they accept

A rule that gives a result and notes no error on the way has taken tokens from the front of the
rest, and they are read into that result. Noted errors are never taken back, so a run in which the
number of errors is the same at the end has noted nothing anywhere inside.
-/

namespace ScopeScript

/-- Whenever a rule gives a tree and notes nothing, the tokens it took are read into that tree. -/
def Part.SoundFor (part : Part) (rule : Rule part.Tree) : Prop :=
  ∀ (c c' : Cursor) (tree : part.Tree), rule c = .ok tree c' →
    c'.errors.length ≤ c.errors.length →
    ∃ ts, c.rest = ts ++ c'.rest ∧ Reads part ts c.nextId tree c'.nextId

/-- The same for a rule that starts behind a token already taken. -/
def Part.SoundAfter (part : Part) (first : Token) (rule : Rule part.Tree) : Prop :=
  ∀ (c c' : Cursor) (tree : part.Tree), rule c = .ok tree c' →
    c'.errors.length ≤ c.errors.length →
    ∃ ts, c.rest = ts ++ c'.rest ∧ Reads part (first :: ts) c.nextId tree c'.nextId

/-- The same for a rule that goes on from a tree already read. -/
def Part.SoundFrom (part : Part) (left : part.Tree) (rule : Rule part.Tree) : Prop :=
  ∀ (c c' : Cursor) (tree : part.Tree), rule c = .ok tree c' →
    c'.errors.length ≤ c.errors.length →
    ∀ {first : List Token} {i : NodeId}, Reads part first i left c.nextId →
    ∃ ts, c.rest = ts ++ c'.rest ∧ Reads part (first ++ ts) i tree c'.nextId

namespace Rule

variable {c d : Cursor}

theorem acceptIf_ok {test : Token → Bool} {result : Option Token}
    (h : acceptIf test c = .ok result d) :
    (result = none ∧ c = d) ∨
      ∃ t, result = some t ∧ test t = true ∧ c.rest = t :: c.next.rest ∧ d = c.next := by
  cases hrest : c.rest with
  | nil =>
      rw [acceptIf_nil hrest] at h
      cases h
      exact .inl ⟨rfl, rfl⟩
  | cons t rest =>
      cases ht : test t with
      | true =>
          rw [acceptIf_true hrest ht] at h
          cases h
          exact .inr ⟨t, rfl, ht, by rw [Cursor.next_rest hrest], rfl⟩
      | false =>
          rw [acceptIf_false hrest ht] at h
          cases h
          exact .inl ⟨rfl, rfl⟩

theorem accept_ok {tag : Tag} {result : Option Token} (h : accept tag c = .ok result d) :
    (result = none ∧ c = d) ∨
      ∃ t, result = some t ∧ t.tag = tag ∧ c.rest = t :: c.next.rest ∧ d = c.next := by
  rcases acceptIf_ok h with hnone | ⟨t, hresult, ht, hrest, hd⟩
  · exact .inl hnone
  · exact .inr ⟨t, hresult, by simpa using ht, hrest, hd⟩

theorem fail_ok {α : Type} {cause : SyntaxCause} {a : α}
    (h : (fail cause : Rule α) c = .ok a d) : False := by
  obtain ⟨_, _, _, hthrow⟩ := bind_ok.mp h
  cases hthrow

theorem exhausted_ok {α : Type} {a : α} (h : (exhausted : Rule α) c = .ok a d) : False := by
  cases h

theorem expect_ok {tag : Tag} {cause : SyntaxCause} {t : Token}
    (h : expect tag cause c = .ok t d) :
    t.tag = tag ∧ c.rest = t :: c.next.rest ∧ d = c.next := by
  obtain ⟨result, e, haccept, hrest⟩ := bind_ok.mp h
  rcases accept_ok haccept with ⟨rfl, rfl⟩ | ⟨u, rfl, hu, hrest', rfl⟩
  · exact (fail_ok hrest).elim
  · obtain ⟨rfl, rfl⟩ := pure_ok.mp hrest
    exact ⟨hu, hrest', rfl⟩

theorem check_ok {tag : Tag} {b : Bool} (h : check tag c = .ok b d) : c = d := by
  cases h
  rfl

theorem ifAccept_ok {α : Type} {tag : Tag} {x y : Rule α} {a : α}
    (h : (accept tag >>= fun result => if result.isSome then x else y) c = .ok a d) :
    (∃ t, t.tag = tag ∧ c.rest = t :: c.next.rest ∧ x c.next = .ok a d) ∨ y c = .ok a d := by
  obtain ⟨result, e, haccept, h⟩ := bind_ok.mp h
  rcases accept_ok haccept with ⟨rfl, rfl⟩ | ⟨t, rfl, ht, hrest, rfl⟩
  · exact .inr h
  · exact .inl ⟨t, ht, hrest, h⟩

theorem unlessNext_ok {α : Type} {tag : Tag} {default a : α} {rule : Rule α}
    (h : unlessNext tag default rule c = .ok a d) : (a = default ∧ c = d) ∨ rule c = .ok a d := by
  obtain ⟨next, e, hcheck, hrest⟩ := bind_ok.mp h
  obtain rfl := check_ok hcheck
  cases next with
  | true =>
      obtain ⟨rfl, rfl⟩ := pure_ok.mp hrest
      exact .inl ⟨rfl, rfl⟩
  | false => exact .inr hrest

end Rule

open Rule

theorem noteBeyondLimit_ok {count : Nat} {cause : SyntaxCause} {c d : Cursor} {u : Unit}
    (h : noteBeyondLimit count cause c = .ok u d) (hquiet : d.errors.length ≤ c.errors.length) :
    count < maxArguments ∧ c = d := by
  unfold noteBeyondLimit at h
  split at h
  next =>
    exfalso
    obtain ⟨e, f, hget, hnote⟩ := bind_ok.mp h
    cases hget
    cases hnote
    simp only [Cursor.note, List.length_append, List.length_singleton] at hquiet
    omega
  next hcount =>
    obtain ⟨-, rfl⟩ := pure_ok.mp h
    exact ⟨Nat.lt_of_not_le hcount, rfl⟩

theorem atom_ok {t : Token} {c c' : Cursor} {e : Expr} (hatom : (atom? t).isSome = true)
    (hrest : c.rest = t :: c.next.rest)
    (h : (atom? t).getD (Rule.fail .expression) c.next = .ok e c') :
    c.rest = [t] ++ c'.rest ∧ Reads .primary [t] c.nextId e c'.nextId := by
  obtain ⟨kind, lexeme, line⟩ := t
  unfold atom? at h hatom
  dsimp only at h hatom
  split at h
  case h_6 =>
    cases h
    exact ⟨hrest, .thisExpr rfl⟩
  case h_7 =>
    cases h
    exact ⟨hrest, .variable rfl⟩
  case h_8 hother => simp at hatom
  all_goals
    cases h
    exact ⟨hrest, .literal rfl⟩

/-- The rules for expressions are sound under a given bound on their nesting. -/
structure ExpressionsSound (fuel : Nat) : Prop where
  expression : Part.expression.SoundFor (expression fuel)
  binary : ∀ levels, (Part.binary levels).SoundFor (binary fuel levels)
  binaryRest : ∀ level tighter left,
    (Part.binary (level :: tighter)).SoundFrom left (binaryRest fuel level tighter left)
  unary : Part.unary.SoundFor (unary fuel)
  call : Part.call.SoundFor (call fuel)
  callRest : ∀ callee, Part.call.SoundFrom callee (callRest fuel callee)
  arguments : ∀ (count : Nat) (c c' : Cursor) (list : List Expr),
    arguments fuel count c = .ok list c' → c'.errors.length ≤ c.errors.length →
    ∃ ts, c.rest = ts ++ c'.rest ∧ Reads .arguments ts c.nextId list c'.nextId
      ∧ count + list.length ≤ maxArguments
  primary : Part.primary.SoundFor (primary fuel)

theorem assignmentTo_ok {target value e : Expr} {equals : Token} {ts us : List Token}
    {i : NodeId} {c d d' : Cursor} (htarget : Reads (.binary Level.all) ts i target c.nextId)
    (hequals : equals.tag = .punct .equal)
    (hvalue : Reads .expression us c.nextId value d.nextId)
    (h : assignmentTo target equals value d = .ok e d')
    (hquiet : d'.errors.length ≤ d.errors.length) :
    d'.rest = d.rest ∧ Reads .expression (ts ++ equals :: us) i e d'.nextId := by
  unfold assignmentTo at h
  split at h
  · cases h
    exact ⟨rfl, .assign htarget hequals hvalue⟩
  · cases h
    exact ⟨rfl, .set htarget hequals hvalue⟩
  · cases h
    simp only [Cursor.note, List.length_append, List.length_singleton] at hquiet
    omega

section Step

variable {fuel : Nat}

theorem expression_sound_succ (ih : ExpressionsSound fuel) :
    Part.expression.SoundFor (expression (fuel + 1)) := by
  have hadv := expressionsAdvance fuel
  intro c c' tree h hquiet
  obtain ⟨left, d, hleft, result, e, haccept, h⟩ := by
    simpa only [expression, bind_ok] using h
  rcases accept_ok haccept with ⟨rfl, rfl⟩ | ⟨equals, rfl, hequals, hrest, rfl⟩
  · obtain ⟨rfl, rfl⟩ := pure_ok.mp h
    obtain ⟨ts, hts, hreads⟩ := ih.binary _ _ _ _ hleft hquiet
    exact ⟨ts, hts, .loosest hreads⟩
  · obtain ⟨value, f, hvalue, h⟩ := bind_ok.mp h
    -- Nothing is noted in any part of a run that notes nothing.
    have hd := (hadv.binary _).errors_le hleft
    have hf := hadv.expression.errors_le hvalue
    rw [Cursor.next_errors] at hf
    have hc' := (assignmentTo_advances _ _ _).errors_le h
    obtain ⟨ts, hts, hreads⟩ := ih.binary _ _ _ _ hleft (by omega)
    obtain ⟨us, hus, hvalue⟩ := ih.expression _ _ _ hvalue (show _ ≤ d.errors.length by omega)
    obtain ⟨hsame, hassign⟩ := assignmentTo_ok hreads hequals hvalue h (by omega)
    refine ⟨ts ++ equals :: us, ?_, hassign⟩
    rw [hts, hrest, hsame]
    simpa using hus

theorem binary_sound_succ (ih : ExpressionsSound fuel) :
    ∀ levels, (Part.binary levels).SoundFor (binary (fuel + 1) levels) := by
  have hadv := expressionsAdvance fuel
  intro levels c c' tree h hquiet
  cases levels with
  | nil =>
      obtain ⟨ts, hts, hreads⟩ := ih.unary _ _ _ h hquiet
      exact ⟨ts, hts, .operand hreads⟩
  | cons level tighter =>
      obtain ⟨left, d, hleft, h⟩ := bind_ok.mp h
      have hd := (hadv.binary _).errors_le hleft
      have hc' := (hadv.binaryRest _ _ _).errors_le h
      obtain ⟨ts, hts, hreads⟩ := ih.binary _ _ _ _ hleft (by omega)
      obtain ⟨us, hus, hrest⟩ :=
        ih.binaryRest _ _ _ _ _ _ h (by omega) (.tighter hreads)
      exact ⟨ts ++ us, by simp [hts, hus], hrest⟩

theorem binaryRest_sound_succ (ih : ExpressionsSound fuel) : ∀ level tighter left,
    (Part.binary (level :: tighter)).SoundFrom left (binaryRest (fuel + 1) level tighter left) := by
  have hadv := expressionsAdvance fuel
  intro level tighter left c c' tree h hquiet first i hfirst
  obtain ⟨result, d, haccept, h⟩ := bind_ok.mp h
  rcases acceptIf_ok haccept with ⟨rfl, rfl⟩ | ⟨operator, rfl, hop, hrest, rfl⟩
  · obtain ⟨rfl, rfl⟩ := pure_ok.mp h
    exact ⟨[], rfl, by simpa using hfirst⟩
  · obtain ⟨right, d, hright, h⟩ := bind_ok.mp h
    have hd := (hadv.binary _).errors_le hright
    rw [Cursor.next_errors] at hd
    have hc' := (hadv.binaryRest _ _ _).errors_le h
    obtain ⟨ts, hts, hreads⟩ :=
      ih.binary _ _ _ _ hright (show _ ≤ c.errors.length by omega)
    obtain ⟨us, hus, hall⟩ := ih.binaryRest _ _ _ _ _ _ h (by omega)
      (.operation hfirst (by simpa using hop) hreads)
    refine ⟨operator :: (ts ++ us), ?_, by simpa using hall⟩
    rw [hrest]
    simpa [hus] using hts

theorem unary_sound_succ (ih : ExpressionsSound fuel) : Part.unary.SoundFor (unary (fuel + 1)) := by
  intro c c' tree h hquiet
  obtain ⟨result, d, haccept, h⟩ := bind_ok.mp h
  rcases acceptIf_ok haccept with ⟨rfl, rfl⟩ | ⟨operator, rfl, hop, hrest, rfl⟩
  · obtain ⟨ts, hts, hreads⟩ := ih.call _ _ _ h hquiet
    exact ⟨ts, hts, .noUnary hreads⟩
  · obtain ⟨right, d, hright, h⟩ := bind_ok.mp h
    obtain ⟨rfl, rfl⟩ := pure_ok.mp h
    obtain ⟨ts, hts, hreads⟩ := ih.unary _ _ _ hright hquiet
    refine ⟨operator :: ts, ?_, .unary (by simpa using hop) hreads⟩
    rw [hrest]
    simpa using hts

theorem call_sound_succ (ih : ExpressionsSound fuel) : Part.call.SoundFor (call (fuel + 1)) := by
  have hadv := expressionsAdvance fuel
  intro c c' tree h hquiet
  obtain ⟨callee, d, hcallee, h⟩ := bind_ok.mp h
  have hd := hadv.primary.errors_le hcallee
  have hc' := (hadv.callRest _).errors_le h
  obtain ⟨ts, hts, hreads⟩ := ih.primary _ _ _ hcallee (by omega)
  obtain ⟨us, hus, hrest⟩ := ih.callRest _ _ _ _ h (by omega) (.callee hreads)
  exact ⟨ts ++ us, by simp [hts, hus], hrest⟩

theorem callRest_sound_succ (ih : ExpressionsSound fuel) :
    ∀ callee, Part.call.SoundFrom callee (callRest (fuel + 1) callee) := by
  have hadv := expressionsAdvance fuel
  intro callee c c' tree h hquiet first i hfirst
  obtain ⟨result, d, haccept, h⟩ := bind_ok.mp h
  rcases accept_ok haccept with ⟨rfl, rfl⟩ | ⟨opening, rfl, hopening, hrest, rfl⟩
  · obtain ⟨result, d, haccept, h⟩ := bind_ok.mp h
    rcases accept_ok haccept with ⟨rfl, rfl⟩ | ⟨dot, rfl, hdot, hrest, rfl⟩
    · obtain ⟨rfl, rfl⟩ := pure_ok.mp h
      exact ⟨[], rfl, by simpa using hfirst⟩
    · obtain ⟨name, d, hexpect, h⟩ := bind_ok.mp h
      obtain ⟨hname, hrest', rfl⟩ := expect_ok hexpect
      obtain ⟨ts, hts, hall⟩ :=
        ih.callRest _ _ _ _ h hquiet (.get hfirst hdot hname)
      refine ⟨dot :: name :: ts, ?_, by simpa using hall⟩
      rw [hrest, hrest', hts]
      rfl
  · obtain ⟨list, d, hlist, h⟩ := bind_ok.mp h
    obtain ⟨closing, f, hexpect, h⟩ := bind_ok.mp h
    obtain ⟨hclosing, hrest', rfl⟩ := expect_ok hexpect
    have hc' := (hadv.callRest _).errors_le h
    rw [Cursor.next_errors] at hc'
    have hd := (Rule.Advances.unlessNext _ _ (hadv.arguments 0)).errors_le hlist
    rw [Cursor.next_errors] at hd
    -- Too many arguments are noted and do not stop the rule, so the count comes from the quiet run.
    have hinside : ∃ us, c.next.rest = us ++ d.rest ∧
        Reads .argumentList us c.nextId list d.nextId := by
      rcases unlessNext_ok hlist with ⟨rfl, rfl⟩ | hlist
      · exact ⟨[], rfl, .noArguments⟩
      · obtain ⟨us, hus, hreads, hcount⟩ :=
          ih.arguments _ _ _ _ hlist (show _ ≤ c.errors.length by omega)
        exact ⟨us, hus, .someArguments hreads (by omega)⟩
    obtain ⟨us, hus, hreads⟩ := hinside
    obtain ⟨ts, hts, hall⟩ := ih.callRest _ _ _ _ h
      (show _ ≤ d.errors.length by omega) (.call hfirst hopening hreads hclosing)
    refine ⟨opening :: (us ++ closing :: ts), ?_, by simpa using hall⟩
    rw [hrest, hus, hrest', hts]
    simp

theorem arguments_sound_succ (ih : ExpressionsSound fuel) : ∀ (count : Nat) (c c' : Cursor)
    (list : List Expr), arguments (fuel + 1) count c = .ok list c' →
    c'.errors.length ≤ c.errors.length →
    ∃ ts, c.rest = ts ++ c'.rest ∧ Reads .arguments ts c.nextId list c'.nextId
      ∧ count + list.length ≤ maxArguments := by
  have hadv := expressionsAdvance fuel
  intro count c c' list h hquiet
  obtain ⟨u, d, hnote, h⟩ := bind_ok.mp h
  obtain ⟨e, f, hexpr, h⟩ := bind_ok.mp h
  obtain ⟨result, g, haccept, h⟩ := bind_ok.mp h
  have hd := (noteBeyondLimit_advances _ _).errors_le hnote
  have hf := hadv.expression.errors_le hexpr
  rcases accept_ok haccept with ⟨rfl, rfl⟩ | ⟨comma, rfl, hcomma, hrest, rfl⟩
  · obtain ⟨rfl, rfl⟩ := pure_ok.mp h
    obtain ⟨hcount, rfl⟩ := noteBeyondLimit_ok hnote (by omega)
    obtain ⟨ts, hts, hreads⟩ := ih.expression _ _ _ hexpr (by omega)
    exact ⟨ts, hts, .lastArgument hreads, hcount⟩
  · obtain ⟨others, g, hothers, h⟩ := bind_ok.mp h
    obtain ⟨rfl, rfl⟩ := pure_ok.mp h
    have hg := (hadv.arguments _).errors_le hothers
    rw [Cursor.next_errors] at hg
    obtain ⟨hcount, rfl⟩ := noteBeyondLimit_ok hnote (by omega)
    obtain ⟨ts, hts, hreads⟩ := ih.expression _ _ _ hexpr (by omega)
    obtain ⟨us, hus, hrest', hlength⟩ :=
      ih.arguments _ _ _ _ hothers (show _ ≤ f.errors.length by omega)
    refine ⟨ts ++ comma :: us, ?_, .moreArguments hreads hcomma hrest', ?_⟩
    · rw [hts, hrest]
      simpa using hus
    · simp only [List.length_cons]
      omega

theorem primary_sound_succ (ih : ExpressionsSound fuel) :
    Part.primary.SoundFor (primary (fuel + 1)) := by
  intro c c' tree h hquiet
  obtain ⟨result, d, haccept, h⟩ := bind_ok.mp h
  rcases acceptIf_ok haccept with ⟨rfl, rfl⟩ | ⟨t, rfl, ht, hrest, rfl⟩
  · obtain ⟨result, d, haccept, h⟩ := bind_ok.mp h
    rcases accept_ok haccept with ⟨rfl, rfl⟩ | ⟨keyword, rfl, hkeyword, hrest, rfl⟩
    · obtain ⟨result, d, haccept, h⟩ := bind_ok.mp h
      rcases accept_ok haccept with ⟨rfl, rfl⟩ | ⟨opening, rfl, hopening, hrest, rfl⟩
      · exact (fail_ok h).elim
      · obtain ⟨inner, d, hinner, h⟩ := bind_ok.mp h
        obtain ⟨closing, f, hexpect, h⟩ := bind_ok.mp h
        obtain ⟨hclosing, hrest', rfl⟩ := expect_ok hexpect
        obtain ⟨rfl, rfl⟩ := pure_ok.mp h
        obtain ⟨ts, hts, hreads⟩ := ih.expression _ _ _ hinner hquiet
        refine ⟨opening :: (ts ++ [closing]), ?_, .grouping hopening hreads hclosing⟩
        rw [hrest]
        simpa [hrest'] using hts
    · obtain ⟨dot, d, hexpectDot, h⟩ := bind_ok.mp h
      obtain ⟨method, f, hexpectMethod, h⟩ := bind_ok.mp h
      obtain ⟨hdot, hrest', rfl⟩ := expect_ok hexpectDot
      obtain ⟨hmethod, hrest'', rfl⟩ := expect_ok hexpectMethod
      cases h
      refine ⟨[keyword, dot, method], ?_, .superExpr hkeyword hdot hmethod⟩
      rw [hrest, hrest', hrest'']
      rfl
  · exact ⟨[t], atom_ok ht hrest h⟩

end Step

theorem expressionsSound (fuel : Nat) : ExpressionsSound fuel := by
  induction fuel with
  | zero =>
      constructor
      case binaryRest => exact fun _ _ _ _ _ _ h => (exhausted_ok h).elim
      case callRest => exact fun _ _ _ _ h => (exhausted_ok h).elim
      case binary => exact fun _ _ _ _ h => (exhausted_ok h).elim
      case arguments => exact fun _ _ _ _ h => (exhausted_ok h).elim
      all_goals exact fun _ _ _ h => (exhausted_ok h).elim
  | succ fuel ih =>
      constructor
      case expression => exact expression_sound_succ ih
      case binary => exact binary_sound_succ ih
      case binaryRest => exact binaryRest_sound_succ ih
      case unary => exact unary_sound_succ ih
      case call => exact call_sound_succ ih
      case callRest => exact callRest_sound_succ ih
      case arguments => exact arguments_sound_succ ih
      case primary => exact primary_sound_succ ih

theorem expression_sound (fuel : Nat) : Part.expression.SoundFor (expression fuel) :=
  (expressionsSound fuel).expression

theorem optionalExpression_sound (fuel : Nat) (tag : Tag) :
    Part.optionalExpression.SoundFor (unlessNext tag none (some <$> expression fuel)) := by
  intro c c' tree h hquiet
  rcases unlessNext_ok h with ⟨rfl, rfl⟩ | h
  · exact ⟨[], rfl, .noExpression⟩
  · obtain ⟨e, hexpr, rfl⟩ := map_ok.mp h
    obtain ⟨ts, hts, hreads⟩ := expression_sound fuel _ _ _ hexpr hquiet
    exact ⟨ts, hts, .someExpression hreads⟩

theorem parameters_sound (fuel count : Nat) (c c' : Cursor) (list : List Token)
    (h : parameters fuel count c = .ok list c') (hquiet : c'.errors.length ≤ c.errors.length) :
    ∃ ts, c.rest = ts ++ c'.rest ∧ Reads .parameters ts c.nextId list c'.nextId
      ∧ count + list.length ≤ maxArguments := by
  induction fuel generalizing count c c' list with
  | zero => exact (exhausted_ok h).elim
  | succ fuel ih =>
      obtain ⟨u, d, hnote, h⟩ := bind_ok.mp h
      obtain ⟨name, e, hexpect, h⟩ := bind_ok.mp h
      obtain ⟨result, f, haccept, h⟩ := bind_ok.mp h
      obtain ⟨hname, hrest, rfl⟩ := expect_ok hexpect
      rcases accept_ok haccept with ⟨rfl, rfl⟩ | ⟨comma, rfl, hcomma, hrest', rfl⟩
      · obtain ⟨rfl, rfl⟩ := pure_ok.mp h
        obtain ⟨hcount, rfl⟩ := noteBeyondLimit_ok hnote hquiet
        exact ⟨[name], hrest, .lastParameter hname, hcount⟩
      · obtain ⟨others, g, hothers, h⟩ := bind_ok.mp h
        obtain ⟨rfl, rfl⟩ := pure_ok.mp h
        have hg := (parameters_advances _ _).errors_le hothers
        simp only [Cursor.next_errors] at hg
        obtain ⟨hcount, rfl⟩ := noteBeyondLimit_ok hnote (by omega)
        obtain ⟨ts, hts, hreads, hlength⟩ := ih _ _ _ _ hothers hquiet
        refine ⟨name :: comma :: ts, ?_, .moreParameters hname hcomma hreads, ?_⟩
        · simpa [hrest, hrest'] using hts
        · simp only [List.length_cons]
          omega

theorem initializer_sound (fuel : Nat) : Part.initializer.SoundFor (initializer fuel) := by
  intro c c' tree h hquiet
  rcases ifAccept_ok h with ⟨equals, hequals, hrest, h⟩ | h
  · obtain ⟨e, hexpr, rfl⟩ := map_ok.mp h
    obtain ⟨ts, hts, hreads⟩ := expression_sound fuel _ _ _ hexpr hquiet
    exact ⟨equals :: ts, by simpa [hrest] using hts, .initialized hequals hreads⟩
  · obtain ⟨rfl, rfl⟩ := pure_ok.mp h
    exact ⟨[], rfl, .uninitialized⟩

theorem varRest_sound (fuel : Nat) : Part.varRest.SoundFor (varRest fuel) := by
  intro c c' tree h hquiet
  obtain ⟨name, d, hexpect, h⟩ := bind_ok.mp h
  obtain ⟨e, f, hinit, h⟩ := bind_ok.mp h
  obtain ⟨semicolon, g, hend, h⟩ := bind_ok.mp h
  obtain ⟨hname, hrest, rfl⟩ := expect_ok hexpect
  obtain ⟨hsemicolon, hrest', rfl⟩ := expect_ok hend
  obtain ⟨rfl, rfl⟩ := pure_ok.mp h
  obtain ⟨ts, hts, hreads⟩ := initializer_sound fuel _ _ _ hinit hquiet
  refine ⟨name :: (ts ++ [semicolon]), ?_, .varRest hname hreads hsemicolon⟩
  simpa [hrest, hrest'] using hts

theorem letRest_sound (fuel : Nat) : Part.letRest.SoundFor (letRest fuel) := by
  intro c c' tree h hquiet
  obtain ⟨name, d, hexpect, h⟩ := bind_ok.mp h
  obtain ⟨equals, f, hexpect', h⟩ := bind_ok.mp h
  obtain ⟨e, g, hexpr, h⟩ := bind_ok.mp h
  obtain ⟨semicolon, k, hend, h⟩ := bind_ok.mp h
  obtain ⟨hname, hrest, rfl⟩ := expect_ok hexpect
  obtain ⟨hequals, hrest', rfl⟩ := expect_ok hexpect'
  obtain ⟨hsemicolon, hrest'', rfl⟩ := expect_ok hend
  obtain ⟨rfl, rfl⟩ := pure_ok.mp h
  obtain ⟨ts, hts, hreads⟩ := expression_sound fuel _ _ _ hexpr hquiet
  refine ⟨name :: equals :: (ts ++ [semicolon]), ?_, .letRest hname hequals hreads hsemicolon⟩
  simpa [hrest, hrest', hrest''] using hts

/-- An expression and the token after it, as the rules that end with a mark read them. -/
theorem closedExpression_sound {fuel : Nat} {tag : Tag} {cause : SyntaxCause} {c d c' : Cursor}
    {e : Expr} {t : Token} (hexpr : expression fuel c = .ok e d)
    (hexpect : expect tag cause d = .ok t c') (hquiet : c'.errors.length ≤ c.errors.length) :
    t.tag = tag ∧
      ∃ ts, c.rest = ts ++ t :: c'.rest ∧ Reads .expression ts c.nextId e c'.nextId := by
  obtain ⟨ht, hrest, rfl⟩ := expect_ok hexpect
  obtain ⟨ts, hts, hreads⟩ := expression_sound fuel _ _ _ hexpr hquiet
  exact ⟨ht, ts, by rw [hts, hrest], hreads⟩

theorem expressionStatement_sound (fuel : Nat) :
    Part.expressionStatement.SoundFor (expressionStatement fuel) := by
  intro c c' tree h hquiet
  obtain ⟨e, d, hexpr, h⟩ := bind_ok.mp h
  obtain ⟨semicolon, f, hexpect, h⟩ := bind_ok.mp h
  obtain ⟨rfl, rfl⟩ := pure_ok.mp h
  obtain ⟨hsemicolon, ts, hts, hreads⟩ := closedExpression_sound hexpr hexpect hquiet
  exact ⟨ts ++ [semicolon], by simpa using hts, .expressionStatement hreads hsemicolon⟩

theorem condition_ok {fuel : Nat} {cause : SyntaxCause} {c c' : Cursor} {e : Expr}
    (h : condition fuel cause c = .ok e c') (hquiet : c'.errors.length ≤ c.errors.length) :
    ∃ opening closing ts, opening.tag = .punct .leftParen ∧ closing.tag = .punct .rightParen
      ∧ c.rest = opening :: (ts ++ closing :: c'.rest)
      ∧ Reads .expression ts c.nextId e c'.nextId := by
  obtain ⟨opening, d, hexpect, h⟩ := bind_ok.mp h
  obtain ⟨value, f, hexpr, h⟩ := bind_ok.mp h
  obtain ⟨closing, g, hclose, h⟩ := bind_ok.mp h
  obtain ⟨rfl, rfl⟩ := pure_ok.mp h
  obtain ⟨hopening, hrest, rfl⟩ := expect_ok hexpect
  obtain ⟨hclosing, ts, hts, hreads⟩ := closedExpression_sound hexpr hclose hquiet
  exact ⟨opening, closing, ts, hopening, hclosing, by simpa [hrest] using hts, hreads⟩

theorem forInitializer_sound (fuel : Nat) :
    Part.forInitializer.SoundFor (forInitializer fuel) := by
  intro c c' tree h hquiet
  rcases ifAccept_ok h with ⟨semicolon, hsemicolon, hrest, h⟩ | h
  · obtain ⟨rfl, rfl⟩ := pure_ok.mp h
    exact ⟨[semicolon], hrest, .noInitializer hsemicolon⟩
  rcases ifAccept_ok h with ⟨keyword, hkeyword, hrest, h⟩ | h
  · obtain ⟨s, hstmt, rfl⟩ := map_ok.mp h
    obtain ⟨ts, hts, hreads⟩ := varRest_sound fuel _ _ _ hstmt hquiet
    exact ⟨keyword :: ts, by simpa [hrest] using hts, .varInitializer hkeyword hreads⟩
  rcases ifAccept_ok h with ⟨keyword, hkeyword, hrest, h⟩ | h
  · obtain ⟨s, hstmt, rfl⟩ := map_ok.mp h
    obtain ⟨ts, hts, hreads⟩ := letRest_sound fuel _ _ _ hstmt hquiet
    exact ⟨keyword :: ts, by simpa [hrest] using hts, .letInitializer hkeyword hreads⟩
  · obtain ⟨s, hstmt, rfl⟩ := map_ok.mp h
    obtain ⟨ts, hts, hreads⟩ := expressionStatement_sound fuel _ _ _ hstmt hquiet
    exact ⟨ts, hts, .expressionInitializer hreads⟩

theorem superclassClause_sound : Part.superclass.SoundFor superclassClause := by
  intro c c' tree h hquiet
  rcases ifAccept_ok h with ⟨less, hless, hrest, h⟩ | h
  · obtain ⟨name, d, hexpect, h⟩ := bind_ok.mp h
    obtain ⟨hname, hrest', rfl⟩ := expect_ok hexpect
    cases h
    exact ⟨[less, name], by rw [hrest, hrest']; rfl, .superclass hless hname⟩
  · obtain ⟨rfl, rfl⟩ := pure_ok.mp h
    exact ⟨[], rfl, .noSuperclass⟩

/-- A rule that is recovered from either fails and notes it, or gives its own result. -/
theorem recover_ok {α : Type} {rule : Rule α} {c c' : Cursor} {result : Option α}
    (hadv : rule.Advances) (h : recover rule c = .ok result c')
    (hquiet : c'.errors.length ≤ c.errors.length) :
    ∃ a, result = some a ∧ rule c = .ok a c' := by
  unfold recover at h
  rcases hrun : rule c with ⟨a, d⟩ | ⟨error | _, d⟩
  · rw [hrun] at h
    cases h
    exact ⟨a, rfl, rfl⟩
  · -- The error that was noted is one more than there were before.
    exfalso
    rw [hrun] at h
    cases h
    have hle := (hadv.leads_error hrun).errors.length_le
    have hmore := ((d.note error).leads_resume).errors.length_le
    simp only [Cursor.note, List.length_append, List.length_singleton] at hmore hquiet
    omega
  · rw [hrun] at h
    cases h

theorem returnRest_sound {fuel : Nat} {keyword : Token}
    (hkeyword : keyword.tag = .keyword .returnKw) :
    Part.statement.SoundAfter keyword (returnRest fuel keyword) := by
  intro c c' tree h hquiet
  obtain ⟨value, d, hvalue, h⟩ := bind_ok.mp h
  obtain ⟨semicolon, f, hexpect, h⟩ := bind_ok.mp h
  obtain ⟨rfl, rfl⟩ := pure_ok.mp h
  obtain ⟨hsemicolon, hrest, rfl⟩ := expect_ok hexpect
  obtain ⟨ts, hts, hreads⟩ := optionalExpression_sound fuel _ _ _ _ hvalue hquiet
  exact ⟨ts ++ [semicolon], by simpa [hrest] using hts, .returnStmt hkeyword hreads hsemicolon⟩

theorem printRest_sound {fuel : Nat} {keyword : Token}
    (hkeyword : keyword.tag = .keyword .printKw) :
    Part.statement.SoundAfter keyword (printRest fuel) := by
  intro c c' tree h hquiet
  obtain ⟨e, d, hexpr, h⟩ := bind_ok.mp h
  obtain ⟨semicolon, f, hexpect, h⟩ := bind_ok.mp h
  obtain ⟨rfl, rfl⟩ := pure_ok.mp h
  obtain ⟨hsemicolon, ts, hts, hreads⟩ := closedExpression_sound hexpr hexpect hquiet
  exact ⟨ts ++ [semicolon], by simpa using hts, .print hkeyword hreads hsemicolon⟩

/-- The clauses of a loop, and its body read after them, are read into the loop. -/
theorem forClauses_sound {fuel : Nat} {keyword : Token} {c d : Cursor} {clauses : ForClauses}
    (hkeyword : keyword.tag = .keyword .forKw) (h : forClauses fuel c = .ok clauses d)
    (hquiet : d.errors.length ≤ c.errors.length) :
    ∃ ts, c.rest = ts ++ d.rest ∧ ∀ {body : List Token} {s : Stmt} {j : NodeId},
      Reads .statement body d.nextId s j →
      Reads .statement (keyword :: (ts ++ body)) c.nextId (clauses.loop s) j := by
  obtain ⟨opening, c₁, hopen, h⟩ := bind_ok.mp h
  obtain ⟨first, c₂, hfirst, h⟩ := bind_ok.mp h
  obtain ⟨second, c₃, hsecond, h⟩ := bind_ok.mp h
  obtain ⟨semicolon, c₄, hmiddle, h⟩ := bind_ok.mp h
  obtain ⟨third, c₅, hthird, h⟩ := bind_ok.mp h
  obtain ⟨closing, c₆, hclose, h⟩ := bind_ok.mp h
  obtain ⟨rfl, rfl⟩ := pure_ok.mp h
  have h₂ := (forInitializer_advances _).errors_le hfirst
  have h₃ := (optionalExpression_advances _ _).errors_le hsecond
  have h₄ := (Advances.expect _ _).errors_le hmiddle
  have h₅ := (optionalExpression_advances _ _).errors_le hthird
  have h₆ := (Advances.expect _ _).errors_le hclose
  have h₁ := (Advances.expect _ _).errors_le hopen
  obtain ⟨us, hus, hreads₁⟩ := forInitializer_sound _ _ _ _ hfirst (by omega)
  obtain ⟨vs, hvs, hreads₂⟩ := optionalExpression_sound _ _ _ _ _ hsecond (by omega)
  obtain ⟨ws, hws, hreads₃⟩ := optionalExpression_sound _ _ _ _ _ hthird (by omega)
  obtain ⟨hopening, hrest₁, rfl⟩ := expect_ok hopen
  obtain ⟨hsemicolon, hrest₂, rfl⟩ := expect_ok hmiddle
  obtain ⟨hclosing, hrest₃, rfl⟩ := expect_ok hclose
  -- The clauses alone are no statement: the reading waits for the body behind them.
  refine ⟨opening :: (us ++ (vs ++ semicolon :: (ws ++ [closing]))), ?_, ?_⟩
  · rw [hrest₁, hus, hvs, hrest₂, hws, hrest₃]
    simp
  · intro body s j hbody
    simpa using Reads.forLoop hkeyword hopening hreads₁ hreads₂ hsemicolon hreads₃ hclosing hbody

/-- Where a list ends, or goes on with one more element. -/
theorem ifClosing_ok {α : Type} {tag : Tag} {x y : Rule α} {a : α} {c d : Cursor}
    (h : (check tag >>= fun closes => atEnd >>= fun ends => if closes || ends then x else y) c =
      .ok a d) : x c = .ok a d ∨ y c = .ok a d := by
  obtain ⟨closes, e, hcheck, h⟩ := bind_ok.mp h
  obtain rfl := check_ok hcheck
  obtain ⟨ends, e, hends, h⟩ := bind_ok.mp h
  cases hends
  split at h
  · exact .inl h
  · exact .inr h

/-- The rules for statements are sound under a given bound on their nesting. -/
structure StatementsSound (fuel : Nat) : Prop where
  declaration : Part.declaration.SoundFor (declaration fuel)
  classRest : ∀ keyword : Token, keyword.tag = .keyword .classKw →
    Part.declaration.SoundAfter keyword (classRest fuel)
  methodList : Part.methods.SoundFor (methodList fuel)
  function : ∀ callee, Part.function.SoundFor (function fuel callee)
  statement : Part.statement.SoundFor (statement fuel)
  blockRest : Part.blockRest.SoundFor (blockRest fuel)
  declarationList : Part.declarations.SoundFor (declarationList fuel)

section Step

variable {fuel : Nat}

theorem declaration_sound_succ (ih : StatementsSound fuel) :
    Part.declaration.SoundFor (declaration (fuel + 1)) := by
  intro c c' tree h hquiet
  rcases ifAccept_ok h with ⟨keyword, hkeyword, hrest, h⟩ | h
  · obtain ⟨ts, hts, hreads⟩ := ih.classRest _ hkeyword _ _ _ h hquiet
    exact ⟨keyword :: ts, by simpa [hrest] using hts, hreads⟩
  rcases ifAccept_ok h with ⟨keyword, hkeyword, hrest, h⟩ | h
  · obtain ⟨declaration, hfunction, rfl⟩ := map_ok.mp h
    obtain ⟨ts, hts, hreads⟩ := ih.function _ _ _ _ hfunction hquiet
    exact ⟨keyword :: ts, by simpa [hrest] using hts, .functionDecl hkeyword hreads⟩
  rcases ifAccept_ok h with ⟨keyword, hkeyword, hrest, h⟩ | h
  · obtain ⟨ts, hts, hreads⟩ := varRest_sound _ _ _ _ h hquiet
    exact ⟨keyword :: ts, by simpa [hrest] using hts, .varDecl hkeyword hreads⟩
  rcases ifAccept_ok h with ⟨keyword, hkeyword, hrest, h⟩ | h
  · obtain ⟨ts, hts, hreads⟩ := letRest_sound _ _ _ _ h hquiet
    exact ⟨keyword :: ts, by simpa [hrest] using hts, .letDecl hkeyword hreads⟩
  · obtain ⟨ts, hts, hreads⟩ := ih.statement _ _ _ h hquiet
    exact ⟨ts, hts, .statement hreads⟩

theorem classRest_sound_succ (ih : StatementsSound fuel) :
    ∀ keyword : Token, keyword.tag = .keyword .classKw →
    Part.declaration.SoundAfter keyword (classRest (fuel + 1)) := by
  have hadv := statementsAdvance fuel
  intro keyword hkeyword c c' s h hquiet
  obtain ⟨name, c₁, hexpect, h⟩ := bind_ok.mp h
  obtain ⟨superclass, c₂, hsuper, h⟩ := bind_ok.mp h
  obtain ⟨opening, c₃, hopen, h⟩ := bind_ok.mp h
  obtain ⟨methods, c₄, hmethods, h⟩ := bind_ok.mp h
  obtain ⟨closing, c₅, hclose, h⟩ := bind_ok.mp h
  obtain ⟨rfl, rfl⟩ := pure_ok.mp h
  have h₁ := (Advances.expect _ _).errors_le hexpect
  have h₂ := superclassClause_advances.errors_le hsuper
  have h₃ := (Advances.expect _ _).errors_le hopen
  have h₄ := hadv.methodList.errors_le hmethods
  have h₅ := (Advances.expect _ _).errors_le hclose
  obtain ⟨us, hus, hreads₁⟩ := superclassClause_sound _ _ _ hsuper (by omega)
  obtain ⟨vs, hvs, hreads₂⟩ := ih.methodList _ _ _ hmethods (by omega)
  obtain ⟨hname, hrest₁, rfl⟩ := expect_ok hexpect
  obtain ⟨hopening, hrest₂, rfl⟩ := expect_ok hopen
  obtain ⟨hclosing, hrest₃, rfl⟩ := expect_ok hclose
  refine ⟨name :: (us ++ opening :: (vs ++ [closing])), ?_,
    .classDecl hkeyword hname hreads₁ hopening hreads₂ hclosing⟩
  rw [hrest₁, hus, hrest₂, hvs, hrest₃]
  simp

theorem methodList_sound_succ (ih : StatementsSound fuel) :
    Part.methods.SoundFor (methodList (fuel + 1)) := by
  have hadv := statementsAdvance fuel
  intro c c' list h hquiet
  rcases ifClosing_ok h with h | h
  · obtain ⟨rfl, rfl⟩ := pure_ok.mp h
    exact ⟨[], rfl, .noMethods⟩
  · obtain ⟨method, d, hmethod, h⟩ := bind_ok.mp h
    obtain ⟨others, e, hothers, h⟩ := bind_ok.mp h
    obtain ⟨rfl, rfl⟩ := pure_ok.mp h
    have hd := (hadv.function _).errors_le hmethod
    have he := hadv.methodList.errors_le hothers
    obtain ⟨ts, hts, hreads⟩ := ih.function _ _ _ _ hmethod (by omega)
    obtain ⟨us, hus, hreads'⟩ := ih.methodList _ _ _ hothers (by omega)
    exact ⟨ts ++ us, by rw [hts, hus, List.append_assoc], .methods hreads hreads'⟩

theorem function_sound_succ (ih : StatementsSound fuel) :
    ∀ callee, Part.function.SoundFor (function (fuel + 1) callee) := by
  have hadv := statementsAdvance fuel
  intro callee c c' tree h hquiet
  obtain ⟨name, c₁, hexpect, h⟩ := bind_ok.mp h
  obtain ⟨opening, c₂, hopen, h⟩ := bind_ok.mp h
  obtain ⟨params, c₃, hparams, h⟩ := bind_ok.mp h
  obtain ⟨closing, c₄, hclose, h⟩ := bind_ok.mp h
  obtain ⟨brace, c₅, hblock, h⟩ := bind_ok.mp h
  obtain ⟨body, c₆, hbody, h⟩ := bind_ok.mp h
  obtain ⟨rfl, rfl⟩ := pure_ok.mp h
  have h₁ := (Advances.expect _ _).errors_le hexpect
  have h₂ := (Advances.expect _ _).errors_le hopen
  have h₃ := (Advances.unlessNext _ _ (parameters_advances _ _)).errors_le hparams
  have h₄ := (Advances.expect _ _).errors_le hclose
  have h₅ := (Advances.expect _ _).errors_le hblock
  have h₆ := hadv.blockRest.errors_le hbody
  have hinside : ∃ us, c₂.rest = us ++ c₃.rest
      ∧ Reads .parameterList us c₂.nextId params c₃.nextId := by
    rcases unlessNext_ok hparams with ⟨rfl, rfl⟩ | hparams
    · exact ⟨[], rfl, .noParameters⟩
    · obtain ⟨us, hus, hreads, hcount⟩ := parameters_sound _ _ _ _ _ hparams (by omega)
      exact ⟨us, hus, .someParameters hreads (by omega)⟩
  obtain ⟨us, hus, hreads⟩ := hinside
  obtain ⟨vs, hvs, hbody⟩ := ih.blockRest _ _ _ hbody (by omega)
  obtain ⟨hname, hrest₁, rfl⟩ := expect_ok hexpect
  obtain ⟨hopening, hrest₂, rfl⟩ := expect_ok hopen
  obtain ⟨hclosing, hrest₃, rfl⟩ := expect_ok hclose
  obtain ⟨hbrace, hrest₄, rfl⟩ := expect_ok hblock
  refine ⟨name :: opening :: (us ++ closing :: brace :: vs), ?_,
    .function hname hopening hreads hclosing hbrace hbody⟩
  rw [hrest₁, hrest₂, hus, hrest₃, hrest₄, hvs]
  simp

/-- A condition in parentheses and the statement that it guards. -/
theorem guarded_sound (ih : StatementsSound fuel) {cause : SyntaxCause} {c d e : Cursor}
    {test : Expr} {body : Stmt} (htest : condition fuel cause c = .ok test d)
    (hbody : statement fuel d = .ok body e) (hquiet : e.errors.length ≤ c.errors.length) :
    ∃ opening closing ts us, opening.tag = .punct .leftParen ∧ closing.tag = .punct .rightParen
      ∧ c.rest = opening :: (ts ++ closing :: (us ++ e.rest))
      ∧ Reads .expression ts c.nextId test d.nextId
      ∧ Reads .statement us d.nextId body e.nextId := by
  have hd := (condition_advances _ _).errors_le htest
  have he := (statementsAdvance fuel).statement.errors_le hbody
  obtain ⟨opening, closing, ts, hopening, hclosing, hts, hreads⟩ := condition_ok htest (by omega)
  obtain ⟨us, hus, hreads'⟩ := ih.statement _ _ _ hbody (by omega)
  exact ⟨opening, closing, ts, us, hopening, hclosing, by rw [hts, hus], hreads, hreads'⟩

theorem statement_sound_succ (ih : StatementsSound fuel) :
    Part.statement.SoundFor (statement (fuel + 1)) := by
  have hadv := statementsAdvance fuel
  intro c c' tree h hquiet
  rcases ifAccept_ok h with ⟨keyword, hkeyword, hrest, h⟩ | h
  · obtain ⟨clauses, d, hclauses, h⟩ := bind_ok.mp h
    obtain ⟨body, e, hbody, h⟩ := bind_ok.mp h
    obtain ⟨rfl, rfl⟩ := pure_ok.mp h
    have hd := (forClauses_advances _).errors_le hclauses
    have he := hadv.statement.errors_le hbody
    rw [Cursor.next_errors] at hd
    obtain ⟨ts, hts, hloop⟩ :=
      forClauses_sound hkeyword hclauses (show _ ≤ c.errors.length by omega)
    obtain ⟨us, hus, hreads⟩ := ih.statement _ _ _ hbody (by omega)
    exact ⟨keyword :: (ts ++ us), by simpa [hrest, hus] using hts, hloop hreads⟩
  rcases ifAccept_ok h with ⟨keyword, hkeyword, hrest, h⟩ | h
  · obtain ⟨test, d, htest, h⟩ := bind_ok.mp h
    obtain ⟨yes, e, hyes, h⟩ := bind_ok.mp h
    rcases ifAccept_ok h with ⟨otherwise, hotherwise, hrest', h⟩ | h
    · obtain ⟨no, f, hno, h⟩ := bind_ok.mp h
      obtain ⟨rfl, rfl⟩ := pure_ok.mp h
      have he := hadv.statement.errors_le hyes
      have hd := (condition_advances _ _).errors_le htest
      have hf := hadv.statement.errors_le hno
      rw [Cursor.next_errors] at hd hf
      obtain ⟨opening, closing, ts, us, hopening, hclosing, htaken, hreads, hreads'⟩ :=
        guarded_sound ih htest hyes (show _ ≤ c.errors.length by omega)
      obtain ⟨vs, hvs, hreads''⟩ := ih.statement _ _ _ hno (show _ ≤ e.errors.length by omega)
      refine ⟨keyword :: opening :: (ts ++ closing :: (us ++ otherwise :: vs)), ?_,
        .ifElse hkeyword hopening hreads hclosing hreads' hotherwise hreads''⟩
      rw [hrest, htaken, hrest', hvs]
      simp
    · obtain ⟨rfl, rfl⟩ := pure_ok.mp h
      obtain ⟨opening, closing, ts, us, hopening, hclosing, htaken, hreads, hreads'⟩ :=
        guarded_sound ih htest hyes hquiet
      exact ⟨keyword :: opening :: (ts ++ closing :: us), by simpa [hrest] using htaken,
        .ifThen hkeyword hopening hreads hclosing hreads'⟩
  rcases ifAccept_ok h with ⟨keyword, hkeyword, hrest, h⟩ | h
  · obtain ⟨test, d, htest, h⟩ := bind_ok.mp h
    obtain ⟨body, e, hbody, h⟩ := bind_ok.mp h
    obtain ⟨rfl, rfl⟩ := pure_ok.mp h
    obtain ⟨opening, closing, ts, us, hopening, hclosing, htaken, hreads, hreads'⟩ :=
      guarded_sound ih htest hbody hquiet
    exact ⟨keyword :: opening :: (ts ++ closing :: us), by simpa [hrest] using htaken,
      .whileLoop hkeyword hopening hreads hclosing hreads'⟩
  obtain ⟨result, d, haccept, h⟩ := bind_ok.mp h
  rcases accept_ok haccept with ⟨rfl, rfl⟩ | ⟨keyword, rfl, hkeyword, hrest, rfl⟩
  swap
  · obtain ⟨ts, hts, hreads⟩ := returnRest_sound hkeyword _ _ _ h hquiet
    exact ⟨keyword :: ts, by simpa [hrest] using hts, hreads⟩
  obtain ⟨result, d, haccept, h⟩ := bind_ok.mp h
  rcases accept_ok haccept with ⟨rfl, rfl⟩ | ⟨keyword, rfl, hkeyword, hrest, rfl⟩
  swap
  · obtain ⟨semicolon, d, hexpect, h⟩ := bind_ok.mp h
    obtain ⟨rfl, rfl⟩ := pure_ok.mp h
    obtain ⟨hsemicolon, hrest', rfl⟩ := expect_ok hexpect
    exact ⟨[keyword, semicolon], by simpa [hrest] using hrest',
      .breakStmt hkeyword hsemicolon⟩
  rcases ifAccept_ok h with ⟨opening, hopening, hrest, h⟩ | h
  · obtain ⟨body, hbody, rfl⟩ := map_ok.mp h
    obtain ⟨ts, hts, hreads⟩ := ih.blockRest _ _ _ hbody hquiet
    exact ⟨opening :: ts, by simpa [hrest] using hts, .block hopening hreads⟩
  rcases ifAccept_ok h with ⟨keyword, hkeyword, hrest, h⟩ | h
  · obtain ⟨ts, hts, hreads⟩ := printRest_sound hkeyword _ _ _ h hquiet
    exact ⟨keyword :: ts, by simpa [hrest] using hts, hreads⟩
  · obtain ⟨ts, hts, hreads⟩ := expressionStatement_sound _ _ _ _ h hquiet
    exact ⟨ts, hts, .expression hreads⟩

theorem blockRest_sound_succ (ih : StatementsSound fuel) :
    Part.blockRest.SoundFor (blockRest (fuel + 1)) := by
  intro c c' tree h hquiet
  obtain ⟨body, d, hbody, h⟩ := bind_ok.mp h
  obtain ⟨closing, e, hclose, h⟩ := bind_ok.mp h
  obtain ⟨rfl, rfl⟩ := pure_ok.mp h
  obtain ⟨hclosing, hrest, rfl⟩ := expect_ok hclose
  obtain ⟨ts, hts, hreads⟩ := ih.declarationList _ _ _ hbody hquiet
  exact ⟨ts ++ [closing], by simpa [hrest] using hts, .blockRest hreads hclosing⟩

theorem declarationList_sound_succ (ih : StatementsSound fuel) :
    Part.declarations.SoundFor (declarationList (fuel + 1)) := by
  have hadv := statementsAdvance fuel
  intro c c' tree h hquiet
  rcases ifClosing_ok h with h | h
  · obtain ⟨rfl, rfl⟩ := pure_ok.mp h
    exact ⟨[], rfl, .noDeclarations⟩
  · obtain ⟨result, d, hrecover, h⟩ := bind_ok.mp h
    obtain ⟨others, e, hothers, h⟩ := bind_ok.mp h
    obtain ⟨rfl, rfl⟩ := pure_ok.mp h
    have hd := (recover_advances hadv.declaration).errors_le hrecover
    have he := hadv.declarationList.errors_le hothers
    obtain ⟨s, rfl, hfirst⟩ := recover_ok hadv.declaration hrecover (by omega)
    obtain ⟨ts, hts, hreads⟩ := ih.declaration _ _ _ hfirst (by omega)
    obtain ⟨us, hus, hreads'⟩ := ih.declarationList _ _ _ hothers (by omega)
    exact ⟨ts ++ us, by rw [hts, hus, List.append_assoc], .declarations hreads hreads'⟩

end Step

theorem statementsSound (fuel : Nat) : StatementsSound fuel := by
  induction fuel with
  | zero =>
      constructor
      case classRest => exact fun _ _ _ _ _ h => (exhausted_ok h).elim
      case function => exact fun _ _ _ _ h => (exhausted_ok h).elim
      all_goals exact fun _ _ _ h => (exhausted_ok h).elim
  | succ fuel ih =>
      constructor
      case declaration => exact declaration_sound_succ ih
      case classRest => exact classRest_sound_succ ih
      case methodList => exact methodList_sound_succ ih
      case function => exact function_sound_succ ih
      case statement => exact statement_sound_succ ih
      case blockRest => exact blockRest_sound_succ ih
      case declarationList => exact declarationList_sound_succ ih

theorem topLevel_sound {fuel : Nat} {c c' : Cursor} {program : Program}
    (h : topLevel fuel c = .ok program c') (hquiet : c'.errors.length ≤ c.errors.length) :
    c'.rest = [] ∧ Reads .declarations c.rest c.nextId program c'.nextId := by
  induction fuel generalizing c program with
  | zero => exact (exhausted_ok h).elim
  | succ fuel ih =>
      obtain ⟨ends, d, hends, h⟩ := bind_ok.mp h
      cases hends
      split at h
      next hend =>
        obtain ⟨rfl, rfl⟩ := pure_ok.mp h
        have hrest : c.rest = [] := Cursor.atEnd_iff.mp hend
        rw [hrest]
        exact ⟨rfl, .noDeclarations⟩
      next =>
        obtain ⟨result, d, hrecover, h⟩ := bind_ok.mp h
        obtain ⟨others, e, hothers, h⟩ := bind_ok.mp h
        obtain ⟨rfl, rfl⟩ := pure_ok.mp h
        have hadv := (statementsAdvance fuel).declaration
        have hd := (recover_advances hadv).errors_le hrecover
        have he := (topLevel_advances _).errors_le hothers
        obtain ⟨s, rfl, hfirst⟩ := recover_ok hadv hrecover (by omega)
        obtain ⟨ts, hts, hreads⟩ := (statementsSound fuel).declaration _ _ _ hfirst (by omega)
        obtain ⟨hend, hothers⟩ := ih hothers (by omega)
        rw [hts]
        exact ⟨hend, .declarations hreads hothers⟩

end ScopeScript
