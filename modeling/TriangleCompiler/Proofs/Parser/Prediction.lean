import TriangleCompiler.Proofs.Parser.Completeness

/-! Reading with one token of foresight. What is still to come is kept as a list of expected symbols. The kind
    of the token at hand decides how a phrase at the front of the list is replaced by its parts, and a token
    at the front is passed if it is the one at hand. So there is only one way on from a list of expected
    symbols, it depends on nothing but the tokens passed and the one at hand, and as every symbol stands for
    some tokens, what has been passed can always be completed. -/

namespace TriangleCompiler.Grammar
open TriangleCompiler.Parser (firstKind)

/-! ### Expectations -/

/-- A part of a program that may be expected. -/
inductive Phrase where
  | expr
  | operands
  | primary
  /-- What may stand behind a name in an expression. -/
  | application
  | argument
  | declaration
  | moreDeclarations
  | singleDeclaration
  | command
  | moreCommands
  | singleCommand
  /-- What stands behind a name at the start of a command. -/
  | action
  /-- What stands behind the first branch of an `if`. -/
  | alternative
deriving DecidableEq, Repr

/-- What may be expected: a token of some kind or a phrase. -/
inductive Symbol where
  | token (k : Token.Kind)
  | phrase (p : Phrase)
deriving DecidableEq, Repr

namespace Phrase
open TriangleCompiler.Grammar.Symbol (token phrase)

/-- The parts of a phrase, if a token of kind `k` is at hand. -/
def parts? (k : Token.Kind) : Phrase → Option (List Symbol)
  | expr => some [phrase primary, phrase operands]
  | operands =>
    match k with
    | .operator => some [token .operator, phrase primary, phrase operands]
    | _ => some []
  | primary =>
    match k with
    | .intLiteral => some [token .intLiteral]
    | .charLiteral => some [token .charLiteral]
    | .identifier => some [token .identifier, phrase application]
    | .operator => some [token .operator, phrase primary]
    | .leftBracket => some [token .leftBracket, phrase expr, token .rightBracket]
    | _ => none
  | application =>
    match k with
    | .leftBracket => some [token .leftBracket, phrase argument, token .rightBracket]
    | _ => some []
  | argument =>
    match k with
    | .rightBracket => some []
    | .keyword .var => some [token (.keyword .var), token .identifier]
    | _ => some [phrase expr]
  | declaration => some [phrase singleDeclaration, phrase moreDeclarations]
  | moreDeclarations =>
    match k with
    | .semicolon => some [token .semicolon, phrase singleDeclaration, phrase moreDeclarations]
    | _ => some []
  | singleDeclaration =>
    match k with
    | .keyword .const => some [token (.keyword .const), token .identifier, token .tilde, phrase expr]
    | .keyword .var => some [token (.keyword .var), token .identifier, token .colon, token .identifier]
    | _ => none
  | command => some [phrase singleCommand, phrase moreCommands]
  | moreCommands =>
    match k with
    | .semicolon => some [token .semicolon, phrase singleCommand, phrase moreCommands]
    | _ => some []
  | singleCommand =>
    match k with
    | .identifier => some [token .identifier, phrase action]
    | .keyword .if_ =>
      some [token (.keyword .if_), token .leftBracket, phrase expr, token .rightBracket,
        token (.keyword .then_), phrase singleCommand, phrase alternative]
    | .keyword .while_ =>
      some [token (.keyword .while_), token .leftBracket, phrase expr, token .rightBracket,
        token (.keyword .do_), phrase singleCommand]
    | .keyword .let_ =>
      some [token (.keyword .let_), phrase declaration, token (.keyword .in_), phrase singleCommand]
    | .keyword .for_ =>
      some [token (.keyword .for_), token .identifier, token .becomes, phrase expr,
        token (.keyword .to_), phrase expr, token (.keyword .do_), phrase singleCommand,
        token (.keyword .next)]
    | .keyword .begin_ => some [token (.keyword .begin_), phrase command, token (.keyword .end_)]
    | _ => some []
  | action =>
    match k with
    | .leftBracket => some [token .leftBracket, phrase argument, token .rightBracket]
    | _ => some [token .becomes, phrase expr]
  | alternative =>
    match k with
    | .keyword .else_ =>
      some [token (.keyword .else_), phrase singleCommand, token (.keyword .endif)]
    | _ => some [token (.keyword .endif)]

/-! The rows of the table for all other tokens. -/

variable {k : Token.Kind}

theorem parts?_operands (hk : k ≠ .operator) : operands.parts? k = some [] := by
  cases k with
  | operator => exact absurd rfl hk
  | _ => rfl

theorem parts?_primary (hk : Parser.startsOperand k = false) : primary.parts? k = none := by
  cases k with
  | intLiteral | charLiteral | identifier | operator | leftBracket => cases hk
  | _ => rfl

theorem parts?_application (hk : k ≠ .leftBracket) : application.parts? k = some [] := by
  cases k with
  | leftBracket => exact absurd rfl hk
  | _ => rfl

theorem parts?_argument (hclose : k ≠ .rightBracket) (hvar : k ≠ .keyword .var) :
    argument.parts? k = some [phrase expr] := by
  cases k with
  | rightBracket => exact absurd rfl hclose
  | keyword word =>
    cases word with
    | var => exact absurd rfl hvar
    | _ => rfl
  | _ => rfl

theorem parts?_moreDeclarations (hk : k ≠ .semicolon) : moreDeclarations.parts? k = some [] := by
  cases k with
  | semicolon => exact absurd rfl hk
  | _ => rfl

theorem parts?_singleDeclaration (hconst : k ≠ .keyword .const) (hvar : k ≠ .keyword .var) :
    singleDeclaration.parts? k = none := by
  cases k with
  | keyword word =>
    cases word with
    | const => exact absurd rfl hconst
    | var => exact absurd rfl hvar
    | _ => rfl
  | _ => rfl

theorem parts?_moreCommands (hk : k ≠ .semicolon) : moreCommands.parts? k = some [] := by
  cases k with
  | semicolon => exact absurd rfl hk
  | _ => rfl

theorem parts?_singleCommand (hk : Parser.startsCommand k = false) : singleCommand.parts? k = some [] := by
  cases k with
  | identifier => cases hk
  | keyword word =>
    cases word with
    | if_ | while_ | let_ | for_ | begin_ => cases hk
    | _ => rfl
  | _ => rfl

theorem parts?_action (hk : k ≠ .leftBracket) :
    action.parts? k = some [token .becomes, phrase expr] := by
  cases k with
  | leftBracket => exact absurd rfl hk
  | _ => rfl

theorem parts?_alternative (hk : k ≠ .keyword .else_) :
    alternative.parts? k = some [token (.keyword .endif)] := by
  cases k with
  | keyword word =>
    cases word with
    | else_ => exact absurd rfl hk
    | _ => rfl
  | _ => rfl

end Phrase

/-- From `σ` and the tokens `us` the one way on leads to `ρ`, with `rest` ahead. -/
inductive Leads : List Symbol → List Token → List Symbol → List Token → Prop where
  | refl {σ : List Symbol} {us : List Token} : Leads σ us σ us
  | token {k : Token.Kind} {σ ρ : List Symbol} {t : Token} {us rest : List Token} :
      t.kind = k → Leads σ us ρ rest → Leads (.token k :: σ) (t :: us) ρ rest
  | phrase {p : Phrase} {π σ ρ : List Symbol} {us rest : List Token} :
      p.parts? (firstKind us) = some π → Leads (π ++ σ) us ρ rest → Leads (.phrase p :: σ) us ρ rest

/-- A token of kind `k` is none that the symbol can start with. -/
def Symbol.Refuses (k : Token.Kind) : Symbol → Prop
  | token k' => k ≠ k'
  | phrase p => p.parts? k = none

/-- With the token of kind `k` at hand there is no way on, and the end is not reached either. -/
def Stuck (k : Token.Kind) : List Symbol → Prop
  | [] => k ≠ .endOfText
  | x :: _ => x.Refuses k

namespace Leads
variable {σ ρ τ : List Symbol} {us vs rest rest' : List Token}

theorem trans (h : Leads σ us ρ vs) (h' : Leads ρ vs τ rest) : Leads σ us τ rest := by
  induction h with
  | refl => exact h'
  | token ht _ ih => exact .token ht (ih h')
  | phrase hp _ ih => exact .phrase hp (ih h')

/-- What is expected behind `σ` does not matter. -/
theorem append (h : Leads σ us ρ rest) (τ : List Symbol) : Leads (σ ++ τ) us (ρ ++ τ) rest := by
  induction h with
  | refl => exact .refl
  | token ht _ ih => exact .token ht ih
  | phrase hp _ ih => exact .phrase hp (List.append_assoc .. ▸ ih)

/-- Where there is no way on, the end was not on the way. -/
theorem not_stuck (h : Leads σ us [] rest') (hend : firstKind rest' = .endOfText)
    (h' : Leads σ us ρ rest) : ¬ Stuck (firstKind rest) ρ := by
  intro hstuck
  induction h' with
  | refl =>
    cases h with
    | refl => exact hstuck hend
    | token ht _ => exact hstuck ht
    | phrase hp _ => exact absurd (hp.symm.trans hstuck) nofun
  | token _ _ ih =>
    cases h with
    | token _ h => exact ih h hstuck
  | phrase hp _ ih =>
    cases h with
    | phrase hp' h =>
      cases hp.symm.trans hp'
      exact ih h hstuck

theorem firstKind_append {ts : List Token} (hrest : firstKind rest' = firstKind rest) :
    firstKind (ts ++ rest') = firstKind (ts ++ rest) := by
  cases ts with
  | nil => exact hrest
  | cons => rfl

/-- Of the tokens ahead only the kind of the first matters. -/
theorem passes (h : Leads σ us ρ rest) : ∃ ts, us = ts ++ rest ∧
    ∀ {rest'}, firstKind rest' = firstKind rest → Leads σ (ts ++ rest') ρ rest' := by
  induction h with
  | refl => exact ⟨[], rfl, fun _ => .refl⟩
  | @token _ _ _ t _ _ ht _ ih =>
    obtain ⟨ts, rfl, hts⟩ := ih
    exact ⟨t :: ts, rfl, fun hrest => .token ht (hts hrest)⟩
  | phrase hp _ ih =>
    obtain ⟨ts, rfl, hts⟩ := ih
    exact ⟨ts, rfl, fun hrest => .phrase (firstKind_append hrest ▸ hp) (hts hrest)⟩

end Leads

/-! ### What expectations stand for -/

/-- The phrase stands for the tokens. -/
def Phrase.Derives : Phrase → List Token → Prop
  | expr, ts => ∃ x, DerivesExpr ts x
  | operands, ts => ∃ x, DerivesOperands ts x
  | primary, ts => ∃ x, DerivesPrimary ts x
  | application, ts => ∀ t : Token, t.kind = .identifier → ∃ x, DerivesPrimary (t :: ts) x
  | argument, ts => ∃ x, DerivesArgument ts x
  | declaration, ts => ∃ x, DerivesDeclaration ts x
  | moreDeclarations, ts => ∃ x, DerivesMoreDeclarations ts x
  | singleDeclaration, ts => ∃ x, DerivesSingleDeclaration ts x
  | command, ts => ∃ x, DerivesCommand ts x
  | moreCommands, ts => ∃ x, DerivesMoreCommands ts x
  | singleCommand, ts => ∃ x, DerivesSingleCommand ts x
  | action, ts => ∀ t : Token, t.kind = .identifier → ∃ x, DerivesSingleCommand (t :: ts) x
  | alternative, ts => ∀ (k l r k₁ : Token) (us vs : List Token), k.kind = .keyword .if_ →
      l.kind = .leftBracket → (∃ e, DerivesExpr us e) → r.kind = .rightBracket →
      k₁.kind = .keyword .then_ → (∃ c, DerivesSingleCommand vs c) →
      ∃ x, DerivesSingleCommand (k :: l :: (us ++ r :: k₁ :: (vs ++ ts))) x

/-- The symbols stand for the tokens, one behind the other. -/
def Spells : List Symbol → List Token → Prop
  | [], ts => ts = []
  | .token k :: σ, ts => ∃ t us, ts = t :: us ∧ t.kind = k ∧ Spells σ us
  | .phrase p :: σ, ts => ∃ us vs, ts = us ++ vs ∧ p.Derives us ∧ Spells σ vs

theorem Spells.append {σ τ : List Symbol} {us : List Token} (h : Spells (σ ++ τ) us) :
    ∃ ts vs, us = ts ++ vs ∧ Spells σ ts ∧ Spells τ vs := by
  induction σ generalizing us with
  | nil => exact ⟨[], us, rfl, rfl, h⟩
  | cons x σ ih =>
    cases x with
    | token k =>
      obtain ⟨t, us, rfl, ht, h⟩ := h
      obtain ⟨ts, vs, rfl, hts, hvs⟩ := ih h
      exact ⟨t :: ts, vs, rfl, ⟨t, ts, rfl, ht, hts⟩, hvs⟩
    | phrase p =>
      obtain ⟨ws, us, rfl, hp, h⟩ := h
      obtain ⟨ts, vs, rfl, hts, hvs⟩ := ih h
      exact ⟨ws ++ ts, vs, (List.append_assoc ..).symm, ⟨ws, ts, rfl, hp, hts⟩, hvs⟩

/-- The last phrase stands for all that is left. -/
theorem exists_append_nil {ts : List Token} {P : List Token → Prop} :
    (∃ us vs, ts = us ++ vs ∧ P us ∧ vs = []) ↔ P ts := by
  constructor
  · rintro ⟨us, _, rfl, hus, rfl⟩
    rwa [List.append_nil]
  · intro hts
    exact ⟨ts, [], (List.append_nil ts).symm, hts, rfl⟩

section
variable {k : Token.Kind} {π : List Symbol} {ts : List Token}

theorem Phrase.derives_primary (hp : primary.parts? k = some π) (h : Spells π ts) : primary.Derives ts := by
  simp only [parts?] at hp
  split at hp <;> cases hp <;> simp only [Spells, exists_append_nil] at h
  · obtain ⟨t, _, rfl, ht, rfl⟩ := h
    exact ⟨_, .int ht⟩
  · obtain ⟨t, _, rfl, ht, rfl⟩ := h
    exact ⟨_, .char ht⟩
  · obtain ⟨t, us, rfl, ht, h⟩ := h
    exact h t ht
  · obtain ⟨t, us, rfl, ht, x, hx⟩ := h
    exact ⟨_, .unary ht hx⟩
  · obtain ⟨l, _, rfl, hl, us, _, rfl, ⟨x, hx⟩, r, _, rfl, hr, rfl⟩ := h
    exact ⟨_, .bracketed hl hx hr⟩

theorem Phrase.derives_singleCommand (hp : singleCommand.parts? k = some π) (h : Spells π ts) :
    singleCommand.Derives ts := by
  simp only [parts?] at hp
  split at hp <;> cases hp <;> simp only [Spells, exists_append_nil] at h
  · obtain ⟨t, us, rfl, ht, h⟩ := h
    exact h t ht
  · obtain ⟨k, _, rfl, hk, l, _, rfl, hl, us, _, rfl, hx, r, _, rfl, hr, k₁, _, rfl, hk₁, vs, ws, rfl,
      hc, h⟩ := h
    exact h k l r k₁ us vs hk hl hx hr hk₁ hc
  · obtain ⟨k, _, rfl, hk, l, _, rfl, hl, us, _, rfl, ⟨x, hx⟩, r, _, rfl, hr, k₁, vs, rfl, hk₁, c,
      hc⟩ := h
    exact ⟨_, .while_ hk hl hx hr hk₁ hc⟩
  · obtain ⟨k, _, rfl, hk, us, _, rfl, ⟨d, hd⟩, k₁, vs, rfl, hk₁, c, hc⟩ := h
    exact ⟨_, .let_ hk hd hk₁ hc⟩
  · obtain ⟨k, _, rfl, hk, t, _, rfl, ht, b, _, rfl, hb, us, _, rfl, ⟨x, hx⟩, k₁, _, rfl, hk₁, vs, _, rfl,
      ⟨y, hy⟩, k₂, _, rfl, hk₂, ws, _, rfl, ⟨c, hc⟩, k₃, _, rfl, hk₃, rfl⟩ := h
    exact ⟨_, .for_ hk ht hb hx hk₁ hy hk₂ hc hk₃⟩
  · obtain ⟨k, _, rfl, hk, us, _, rfl, ⟨c, hc⟩, k₁, _, rfl, hk₁, rfl⟩ := h
    exact ⟨_, .begin_ hk hc hk₁⟩
  · subst h
    exact ⟨_, .blank⟩

/-- A phrase stands for what its parts stand for. -/
theorem Phrase.derives_of_parts? {p : Phrase} (hp : p.parts? k = some π) (h : Spells π ts) :
    p.Derives ts := by
  cases p with
  | expr =>
    cases hp
    simp only [Spells, exists_append_nil] at h
    obtain ⟨us, vs, rfl, ⟨x, hx⟩, y, hy⟩ := h
    exact ⟨_, .chain hx hy⟩
  | operands =>
    simp only [parts?] at hp
    split at hp <;> cases hp <;> simp only [Spells, exists_append_nil] at h
    · obtain ⟨t, _, rfl, ht, us, vs, rfl, ⟨x, hx⟩, y, hy⟩ := h
      exact ⟨_, .more ht hx hy⟩
    · subst h
      exact ⟨_, .none⟩
  | primary => exact derives_primary hp h
  | application =>
    intro t ht
    simp only [parts?] at hp
    split at hp <;> cases hp <;> simp only [Spells] at h
    · obtain ⟨l, _, rfl, hl, us, _, rfl, ⟨x, hx⟩, r, _, rfl, hr, rfl⟩ := h
      exact ⟨_, .call ht hl hx hr⟩
    · subst h
      exact ⟨_, .name ht⟩
  | argument =>
    simp only [parts?] at hp
    split at hp <;> cases hp <;> simp only [Spells, exists_append_nil] at h
    · subst h
      exact ⟨_, .blank⟩
    · obtain ⟨v, _, rfl, hv, t, _, rfl, ht, rfl⟩ := h
      exact ⟨_, .var hv ht⟩
    · obtain ⟨x, hx⟩ := h
      exact ⟨_, .value hx⟩
  | declaration =>
    cases hp
    simp only [Spells, exists_append_nil] at h
    obtain ⟨us, vs, rfl, ⟨x, hx⟩, y, hy⟩ := h
    exact ⟨_, .chain hx hy⟩
  | moreDeclarations =>
    simp only [parts?] at hp
    split at hp <;> cases hp <;> simp only [Spells, exists_append_nil] at h
    · obtain ⟨t, _, rfl, ht, us, vs, rfl, ⟨x, hx⟩, y, hy⟩ := h
      exact ⟨_, .more ht hx hy⟩
    · subst h
      exact ⟨_, .none⟩
  | singleDeclaration =>
    simp only [parts?] at hp
    split at hp <;> cases hp <;> simp only [Spells, exists_append_nil] at h
    · obtain ⟨k, _, rfl, hk, t, _, rfl, ht, c, us, rfl, hc, x, hx⟩ := h
      exact ⟨_, .const hk ht hc hx⟩
    · obtain ⟨k, _, rfl, hk, t, _, rfl, ht, c, _, rfl, hc, t', _, rfl, ht', rfl⟩ := h
      exact ⟨_, .var hk ht hc ht'⟩
  | command =>
    cases hp
    simp only [Spells, exists_append_nil] at h
    obtain ⟨us, vs, rfl, ⟨x, hx⟩, y, hy⟩ := h
    exact ⟨_, .chain hx hy⟩
  | moreCommands =>
    simp only [parts?] at hp
    split at hp <;> cases hp <;> simp only [Spells, exists_append_nil] at h
    · obtain ⟨t, _, rfl, ht, us, vs, rfl, ⟨x, hx⟩, y, hy⟩ := h
      exact ⟨_, .more ht hx hy⟩
    · subst h
      exact ⟨_, .none⟩
  | singleCommand => exact derives_singleCommand hp h
  | action =>
    intro t ht
    simp only [parts?] at hp
    split at hp <;> cases hp <;> simp only [Spells, exists_append_nil] at h
    · obtain ⟨l, _, rfl, hl, us, _, rfl, ⟨x, hx⟩, r, _, rfl, hr, rfl⟩ := h
      exact ⟨_, .call ht hl hx hr⟩
    · obtain ⟨b, us, rfl, hb, x, hx⟩ := h
      exact ⟨_, .assign ht hb hx⟩
  | alternative =>
    rintro k l r k₁ us vs hk hl ⟨x, hx⟩ hr hk₁ ⟨c, hc⟩
    simp only [parts?] at hp
    split at hp <;> cases hp <;> simp only [Spells] at h
    · obtain ⟨k₂, _, rfl, hk₂, ws, _, rfl, ⟨d, hd⟩, k₃, _, rfl, hk₃, rfl⟩ := h
      exact ⟨_, .ifElse hk hl hx hr hk₁ hc hk₂ hd hk₃⟩
    · obtain ⟨k₂, _, rfl, hk₂, rfl⟩ := h
      exact ⟨_, .ifThen hk hl hx hr hk₁ hc hk₂⟩

end

/-- What was passed on the way, and what is still expected, make up what was expected. -/
theorem Leads.spells {σ ρ : List Symbol} {us rest more : List Token} (h : Leads σ us ρ rest)
    (hmore : Spells ρ more) : ∃ ts, us = ts ++ rest ∧ Spells σ (ts ++ more) := by
  induction h with
  | refl => exact ⟨[], rfl, hmore⟩
  | @token _ _ _ t _ _ ht _ ih =>
    obtain ⟨ts, rfl, hts⟩ := ih hmore
    exact ⟨t :: ts, rfl, t, ts ++ more, rfl, ht, hts⟩
  | phrase hp _ ih =>
    obtain ⟨ts, rfl, hts⟩ := ih hmore
    obtain ⟨vs, ws, heq, hvs, hws⟩ := hts.append
    exact ⟨ts, rfl, vs, ws, heq, Phrase.derives_of_parts? hp hvs, hws⟩

/-! ### Every expectation can be met -/

/-- A phrase stands for some tokens. -/
theorem Phrase.exists_derives (p : Phrase) : ∃ ts, p.Derives ts ∧ ∀ t ∈ ts, t.kind ≠ .endOfText := by
  let token (k : Token.Kind) : Token := ⟨k, "", .start⟩
  have hprimary : DerivesPrimary [token .intLiteral] (.int "") := .int rfl
  have hvar : DerivesSingleDeclaration [token (.keyword .var), token .identifier, token .colon,
    token .identifier] (.var "" "") := .var rfl rfl rfl rfl
  cases p with
  | expr => exact ⟨_, ⟨_, .chain hprimary .none⟩, by simp [token]⟩
  | operands => exact ⟨_, ⟨_, .none⟩, by simp⟩
  | primary => exact ⟨_, ⟨_, hprimary⟩, by simp [token]⟩
  | application => exact ⟨[], fun t ht => ⟨_, .name ht⟩, by simp⟩
  | argument => exact ⟨_, ⟨_, .blank⟩, by simp⟩
  | declaration => exact ⟨_, ⟨_, .chain hvar .none⟩, by simp [token]⟩
  | moreDeclarations => exact ⟨_, ⟨_, .none⟩, by simp⟩
  | singleDeclaration => exact ⟨_, ⟨_, hvar⟩, by simp [token]⟩
  | command => exact ⟨_, ⟨_, .chain .blank .none⟩, by simp⟩
  | moreCommands => exact ⟨_, ⟨_, .none⟩, by simp⟩
  | singleCommand => exact ⟨_, ⟨_, .blank⟩, by simp⟩
  | action =>
    have hexpr : DerivesExpr [token .intLiteral] (.int "") := .chain hprimary .none
    exact ⟨[token .becomes, token .intLiteral], fun t ht => ⟨_, .assign ht rfl hexpr⟩, by simp [token]⟩
  | alternative =>
    refine ⟨[token (.keyword .endif)], ?_, by simp [token]⟩
    rintro k l r k₁ us vs hk hl ⟨x, hx⟩ hr hk₁ ⟨c, hc⟩
    exact ⟨_, .ifThen hk hl hx hr hk₁ hc rfl⟩

/-- No end of the text is expected before the end. -/
theorem Phrase.endOfText_notMem {p : Phrase} {k : Token.Kind} {π : List Symbol}
    (hp : p.parts? k = some π) : Symbol.token .endOfText ∉ π := by
  cases p <;> simp only [parts?] at hp <;> (try split at hp) <;> cases hp <;> simp

theorem Leads.endOfText_notMem {σ ρ : List Symbol} {us rest : List Token} (h : Leads σ us ρ rest)
    (hσ : Symbol.token .endOfText ∉ σ) : Symbol.token .endOfText ∉ ρ := by
  induction h with
  | refl => exact hσ
  | token _ _ ih => exact ih fun hmem => hσ (.tail _ hmem)
  | phrase hp _ ih =>
    refine ih fun hmem => ?_
    rcases List.mem_append.mp hmem with hmem | hmem
    · exact Phrase.endOfText_notMem hp hmem
    · exact hσ (.tail _ hmem)

theorem exists_spells {σ : List Symbol} (hσ : Symbol.token .endOfText ∉ σ) :
    ∃ ts, Spells σ ts ∧ ∀ t ∈ ts, t.kind ≠ .endOfText := by
  induction σ with
  | nil => exact ⟨[], rfl, nofun⟩
  | cons x σ ih =>
    obtain ⟨ts, hts, hne⟩ := ih fun hmem => hσ (.tail _ hmem)
    cases x with
    | token k =>
      refine ⟨⟨k, "", .start⟩ :: ts, ⟨_, _, rfl, rfl, hts⟩, List.forall_mem_cons.mpr ⟨?_, hne⟩⟩
      rintro rfl
      exact hσ (.head _)
    | phrase p =>
      obtain ⟨us, hus, hne'⟩ := p.exists_derives
      exact ⟨us ++ ts, ⟨_, _, rfl, hus, hts⟩, List.forall_mem_append.mpr ⟨hne', hne⟩⟩

end TriangleCompiler.Grammar
