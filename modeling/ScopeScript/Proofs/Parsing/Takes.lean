import ScopeScript.Proofs.Grammar.Starts
import ScopeScript.Proofs.Parsing.Rule

/-!
# Rules that take given tokens

A rule takes some tokens in front of others if it reads exactly those, notes nothing and gives a
result. Greedy rules take tokens only in front of tokens with which they would not go on, so the
first tag behind them is mentioned throughout.
-/

namespace ScopeScript

/-- The first token, if there is one, has none of the given tags. -/
def Avoids (tags : List Tag) (ts : List Token) : Prop :=
  ∀ t ∈ ts.head?, t.tag ∉ tags

@[simp] theorem avoids_nil (tags : List Tag) : Avoids tags [] := by
  simp [Avoids]

@[simp] theorem avoids_cons {tags : List Tag} {t : Token} {ts : List Token} :
    Avoids tags (t :: ts) ↔ t.tag ∉ tags := by
  simp [Avoids]

theorem Avoids.mono {tags tags' : List Tag} {ts : List Token} (h : Avoids tags' ts)
    (hsubset : tags ⊆ tags') : Avoids tags ts :=
  fun t ht hmem => h t ht (hsubset hmem)

/-- Tokens of a symbol avoid the tags that it does not start with. -/
theorem Grammar.Derives.avoids {allowed : Nat → Prop} {s : Grammar.Symbol} {ts rest : List Token}
    {tags : List Tag} (h : Derives allowed (.symbol s) ts)
    (hdisjoint : ∀ tag ∈ s.starts, tag ∉ tags) : Avoids tags (ts ++ rest) := by
  obtain ⟨t, us, rfl, ht⟩ := h.exists_cons
  exact avoids_cons.mpr (hdisjoint _ ht)

namespace Rule

variable {α β : Type} {ts us rest : List Token} {t : Token} {tag : Tag}

/-- A rule reads exactly `ts` in front of `rest`, notes nothing and gives a result with `P`. -/
def Takes (rule : Rule α) (ts rest : List Token) (P : α → Prop) : Prop :=
  ∀ c : Cursor, c.rest = ts ++ rest → ∃ a nextId, P a
    ∧ rule c = .ok a (c.past ts.length nextId)

namespace Takes

variable {P : α → Prop} {Q : β → Prop}

theorem pure {a : α} (h : P a) : Takes (pure a) [] rest P :=
  fun c _ => ⟨a, c.nextId, h, rfl⟩

theorem mono {P' : α → Prop} {rule : Rule α} (h : rule.Takes ts rest P) (hP : ∀ a, P a → P' a) :
    rule.Takes ts rest P' := by
  intro c hc
  obtain ⟨a, nextId, ha, hrun⟩ := h c hc
  exact ⟨a, nextId, hP a ha, hrun⟩

theorem bind {x : Rule α} {f : α → Rule β} (hx : x.Takes ts (us ++ rest) P)
    (hf : ∀ a, P a → (f a).Takes us rest Q) : (x >>= f).Takes (ts ++ us) rest Q := by
  intro c hc
  rw [List.append_assoc] at hc
  obtain ⟨a, nextId, ha, hrun⟩ := hx c hc
  obtain ⟨b, nextId', hb, hrun'⟩ := hf a ha _ (Cursor.past_rest hc nextId)
  rw [Cursor.past_past, ← List.length_append] at hrun'
  exact ⟨b, nextId', hb, bind_ok.mpr ⟨a, _, hrun, hrun'⟩⟩

/-- A rule in front of one that takes nothing. -/
theorem bind_last {x : Rule α} {f : α → Rule β} (hx : x.Takes ts rest P)
    (hf : ∀ a, P a → (f a).Takes [] rest Q) : (x >>= f).Takes ts rest Q := by
  have h := bind hx hf
  rwa [List.append_nil] at h

/-- A rule that takes nothing in front of one that does. -/
theorem skip {x : Rule α} {f : α → Rule β} (hx : x.Takes [] (ts ++ rest) P)
    (hf : ∀ a, P a → (f a).Takes ts rest Q) : (x >>= f).Takes ts rest Q :=
  bind hx hf

theorem map {f : α → β} {x : Rule α} (hx : x.Takes ts rest P) (hf : ∀ a, P a → Q (f a)) :
    (f <$> x).Takes ts rest Q := by
  intro c hc
  obtain ⟨a, nextId, ha, hrun⟩ := hx c hc
  exact ⟨f a, nextId, hf a ha, map_ok.mpr ⟨a, hrun, rfl⟩⟩

/-- A token is read, and another rule takes the tokens behind it. -/
theorem read {x : Rule β} {f : β → Rule α} {b : β}
    (hx : ∀ c : Cursor, c.rest = t :: (ts ++ rest) → x c = .ok b c.next)
    (h : (f b).Takes ts rest P) : (x >>= f).Takes (t :: ts) rest P := by
  intro c hc
  obtain ⟨a, nextId, ha, hrun⟩ := h c.next (Cursor.next_rest hc)
  rw [Cursor.next_past] at hrun
  exact ⟨a, nextId, ha, bind_ok.mpr ⟨b, _, hx c hc, hrun⟩⟩

/-- Nothing is read, and another rule takes the tokens. -/
theorem look {x : Rule β} {f : β → Rule α} {b : β}
    (hx : ∀ c : Cursor, c.rest = ts ++ rest → x c = .ok b c) (h : (f b).Takes ts rest P) :
    (x >>= f).Takes ts rest P := by
  intro c hc
  obtain ⟨a, nextId, ha, hrun⟩ := h c hc
  exact ⟨a, nextId, ha, bind_ok.mpr ⟨b, c, hx c hc, hrun⟩⟩

theorem acceptIf {test : Token → Bool} {f : Option Token → Rule α} (ht : test t = true)
    (h : (f (some t)).Takes ts rest P) : (Rule.acceptIf test >>= f).Takes (t :: ts) rest P :=
  read (fun _ hc => acceptIf_true hc ht) h

theorem acceptIf_none {test : Token → Bool} {f : Option Token → Rule α}
    (hnext : ∀ t ∈ (ts ++ rest).head?, test t = false) (h : (f none).Takes ts rest P) :
    (Rule.acceptIf test >>= f).Takes ts rest P := by
  refine look (fun c hc => ?_) h
  rw [← hc] at hnext
  cases hrest : c.rest with
  | nil => exact Rule.acceptIf_nil hrest test
  | cons t _ => exact acceptIf_false hrest (hnext t (by rw [hrest]; rfl))

theorem accept {f : Option Token → Rule α} (ht : t.tag = tag)
    (h : (f (some t)).Takes ts rest P) : (Rule.accept tag >>= f).Takes (t :: ts) rest P :=
  acceptIf (by simp [ht]) h

theorem accept_none {f : Option Token → Rule α} (hnext : Avoids [tag] (ts ++ rest))
    (h : (f none).Takes ts rest P) : (Rule.accept tag >>= f).Takes ts rest P :=
  acceptIf_none (fun t ht => by simpa using hnext t ht) h

theorem expect {cause : SyntaxCause} {f : Token → Rule α} (ht : t.tag = tag)
    (h : (f t).Takes ts rest P) : (Rule.expect tag cause >>= f).Takes (t :: ts) rest P :=
  read (fun _ hc => expect_of_tag hc cause ht) h

theorem unlessNext_default {default : α} {rule : Rule α} (ht : t.tag = tag) (h : P default) :
    (unlessNext tag default rule).Takes [] (t :: rest) P := by
  refine look (b := true) (fun c hc => ?_) (pure h)
  rw [check_cons hc, decide_eq_true ht]

theorem unlessNext {default : α} {rule : Rule α} (hnext : Avoids [tag] (ts ++ rest))
    (h : rule.Takes ts rest P) : (unlessNext tag default rule).Takes ts rest P := by
  refine look (b := false) (fun c hc => ?_) h
  rw [← hc] at hnext
  cases hrest : c.rest with
  | nil => exact check_nil hrest tag
  | cons t _ =>
      rw [hrest, avoids_cons, List.mem_singleton] at hnext
      rw [check_cons hrest, decide_eq_false hnext]

theorem freshId : Rule.freshId.Takes [] rest fun _ => True :=
  fun c _ => ⟨c.nextId, c.nextId + 1, trivial, rfl⟩

theorem noteBeyondLimit {count : Nat} {cause : SyntaxCause} (h : count < maxArguments) :
    (noteBeyondLimit count cause).Takes [] rest fun _ => True := by
  unfold ScopeScript.noteBeyondLimit
  rw [if_neg (Nat.not_le.mpr h)]
  exact .pure trivial

theorem recover {rule : Rule α} (h : rule.Takes ts rest P) :
    (recover rule).Takes ts rest fun _ => True := by
  intro c hc
  obtain ⟨a, nextId, -, hrun⟩ := h c hc
  refine ⟨some a, nextId, trivial, ?_⟩
  unfold ScopeScript.recover
  rw [hrun]

theorem notAtEnd {f : Bool → Rule α} (hmore : ts ++ rest ≠ []) (h : (f false).Takes ts rest P) :
    (Rule.atEnd >>= f).Takes ts rest P :=
  look (fun c hc => by
    obtain ⟨t, us, hcons⟩ := List.exists_cons_of_ne_nil hmore
    exact Rule.atEnd_cons (hc.trans hcons)) h

/-- A list that ends in front of its closing mark. -/
theorem listEnd {x y : Rule α} (ht : t.tag = tag) (h : x.Takes [] (t :: rest) P) :
    (check tag >>= fun closes => atEnd >>= fun ends => if closes || ends then x else y).Takes []
      (t :: rest) P := by
  refine look (b := true) (fun c hc => ?_) (notAtEnd (by simp) h)
  rw [check_cons hc, decide_eq_true ht]

/-- A list that goes on. -/
theorem listMore {x y : Rule α} (ht : t.tag ≠ tag) (h : y.Takes (t :: ts) rest P) :
    (check tag >>= fun closes => atEnd >>= fun ends => if closes || ends then x else y).Takes
      (t :: ts) rest P := by
  refine look (b := false) (fun c hc => ?_) (notAtEnd (by simp) h)
  rw [check_cons hc, decide_eq_false ht]

end Takes

end Rule

end ScopeScript
