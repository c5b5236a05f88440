import TriangleCompiler.Program.Parser
import TriangleCompiler.Proofs.Parser.Completeness

/-! Parsing against the grammar: the program that a list of tokens makes up is the one that the grammar
    derives from it, and an error is reported exactly if the grammar derives none. -/

namespace TriangleCompiler
open Grammar

namespace Shape

theorem Declaration.noShortSequence_sequence (d : SingleDeclaration) (ds : List SingleDeclaration) :
    (Declaration.sequence d ds).NoShortSequence := by
  cases ds <;> simp [Declaration.sequence, Declaration.NoShortSequence]

theorem Command.noShortSequence_sequence {c : Command} {cs : List Command} (hc : c.NoShortSequence)
    (hcs : NoShortSequenceIn cs) : (Command.sequence c cs).NoShortSequence := by
  cases cs with
  | nil => exact hc
  | cons d ds => exact ⟨by simp, hc, hcs⟩

end Shape

namespace Grammar

theorem DerivesDeclaration.noShortSequence {ts : List Token} {x : Shape.Declaration}
    (h : DerivesDeclaration ts x) : x.NoShortSequence := by
  cases h with
  | chain _ _ => exact Shape.Declaration.noShortSequence_sequence _ _

mutual

theorem DerivesCommand.noShortSequence {ts : List Token} {x : Shape.Command} :
    DerivesCommand ts x → x.NoShortSequence
  | .chain hc hcs => Shape.Command.noShortSequence_sequence hc.noShortSequence hcs.noShortSequence

theorem DerivesMoreCommands.noShortSequence {ts : List Token} {xs : List Shape.Command} :
    DerivesMoreCommands ts xs → Shape.NoShortSequenceIn xs
  | .none => trivial
  | .more _ hc hcs => ⟨hc.noShortSequence, hcs.noShortSequence⟩

theorem DerivesSingleCommand.noShortSequence {ts : List Token} {x : Shape.Command} :
    DerivesSingleCommand ts x → x.NoShortSequence
  | .assign _ _ _ | .call _ _ _ _ | .blank => trivial
  | .ifThen _ _ _ _ _ hc _ => hc.noShortSequence
  | .ifElse _ _ _ _ _ hc _ hd _ => ⟨hc.noShortSequence, hd.noShortSequence⟩
  | .while_ _ _ _ _ _ hc => hc.noShortSequence
  | .let_ _ hd _ hc => ⟨hd.noShortSequence, hc.noShortSequence⟩
  | .begin_ _ hc _ => hc.noShortSequence
  | .for_ _ _ _ _ _ _ _ hc _ => hc.noShortSequence

end

end Grammar

namespace Parser

/-- Nothing but the end of the text is ahead if its kind is at hand, as no other token is of that kind. -/
theorem State.ahead_eq_nil {s : State} (hne : ∀ t ∈ s.ahead, t.kind ≠ .endOfText)
    (hk : s.kind = .endOfText) : s.ahead = [] := by
  cases hahead : s.ahead with
  | nil => rfl
  | cons t ts =>
    rw [State.kind_eq_of_ahead hahead] at hk
    exact absurd hk (hne t (by simp [hahead]))

/-- A program is read without an error exactly if the command in it is and the end of the text follows. -/
theorem findings_program_eq_nil {s : State} :
    (program s).findings = [] ↔ (command s).1.2.findings = [] ∧ (command s).1.2.kind = .endOfText := by
  simp only [program, endOfText, List.reverse_eq_nil_iff]
  split
  · simp [*]
  · simp [State.reportMissing, State.report, *]

theorem derives_of_program {s : State} (hs : s.findings = []) (hne : ∀ t ∈ s.ahead, t.kind ≠ .endOfText)
    (h : (program s).findings = []) :
    ∃ x, (program s).program.command.shape? = some x ∧ DerivesCommand s.ahead x := by
  obtain ⟨hf, hk⟩ := findings_program_eq_nil.mp h
  obtain ⟨ts, x, hts, hx, hd⟩ := (readsCommand_command s).quiet.2 (by rw [hf, hs])
  have hnil : (command s).1.2.ahead = [] := by
    refine State.ahead_eq_nil (fun t ht => hne t ?_) hk
    rw [hts]
    exact List.mem_append_right _ ht
  rw [hnil, List.append_nil] at hts
  exact ⟨x, hx, hts ▸ hd⟩

/-- What is read from tokens is read from a state that has handed out no number and reported no error. -/
theorem exists_of_ofTokens {tokens : List Token} {r : Result} (h : Program.ofTokens tokens = .ok r) :
    ∃ s : State, s.nextId = 0 ∧ s.findings = [] ∧ program s = r := by
  unfold Program.ofTokens State.ofTokens at h
  split at h
  · split at h
    · cases h
      exact ⟨_, rfl, rfl, rfl⟩
    · cases h
  · cases h

/-- What is read without an error has no error node. -/
theorem shape?_ofTokens {tokens : List Token} {r : Result} (h : Program.ofTokens tokens = .ok r)
    (hf : r.findings = []) : ∃ x, r.program.command.shape? = some x := by
  obtain ⟨s, -, hs, rfl⟩ := exists_of_ofTokens h
  obtain ⟨hcommand, -⟩ := findings_program_eq_nil.mp hf
  obtain ⟨-, x, -, hx, -⟩ := (readsCommand_command s).quiet.2 (by rw [hcommand, hs])
  exact ⟨x, hx⟩

theorem program_of_derives {s : State} {x : Shape.Command} (hs : s.findings = [])
    (h : DerivesCommand s.ahead x) :
    (program s).findings = [] ∧ (program s).program.command.shape? = some x := by
  have hs₁ : s.ahead = s.ahead ++ [] := (List.append_nil _).symm
  obtain ⟨c, t, hc, hx, hahead, hf⟩ := finds_command h hs₁ (Or.inr rfl)
  have hread := readsCommand_iff.mp hc
  refine ⟨findings_program_eq_nil.mpr ?_, ?_⟩
  · rw [hread]
    exact ⟨hf.trans hs, by rw [State.kind_eq_firstKind, hahead]; rfl⟩
  · simp only [program, hread]
    exact hx

end Parser

/-- Where only the last token is of the kind that ends a text, a program is read from the tokens without
    an error, and is of shape `x`, exactly if the grammar derives `x` from the tokens before the last. So
    the readable lists of tokens are those of the grammar, which derives at most one tree from each of
    them, and none with a sequence of fewer than two parts. -/
theorem Program.ofTokens_reads_iff_derives {tokens : List Token} {last : Token}
    (hlast : last.kind = .endOfText) (hne : ∀ t ∈ tokens, t.kind ≠ .endOfText) :
    ∃ r, Program.ofTokens (tokens ++ [last]) = .ok r ∧
      (∀ x, (r.findings = [] ∧ r.program.command.shape? = some x) ↔ DerivesCommand tokens x) ∧
      (r.findings = [] ↔ ∃ x, DerivesCommand tokens x) ∧
      (∀ x y, DerivesCommand tokens x → DerivesCommand tokens y → x = y) ∧
      (r.findings = [] → ∃ x, r.program.command.shape? = some x ∧ x.NoShortSequence) := by
  let s : Parser.State := ⟨tokens, last.position, 0, 0, []⟩
  have hstart : Parser.State.ofTokens (tokens ++ [last]) = .ok s := by
    simp [Parser.State.ofTokens, Token.isEnd, hlast, s]
  have hsound : (Parser.program s).findings = [] → ∃ x, _ :=
    Parser.derives_of_program (s := s) rfl hne
  have hcomplete : ∀ x, DerivesCommand tokens x → _ := fun x =>
    Parser.program_of_derives (s := s) rfl
  refine ⟨Parser.program s, by rw [Program.ofTokens, hstart]; rfl, fun x => ⟨?_, hcomplete x⟩, ?_, ?_, ?_⟩
  · rintro ⟨hf, hx⟩
    obtain ⟨y, hy, hd⟩ := hsound hf
    rw [hx] at hy
    cases hy
    exact hd
  · exact ⟨fun hf => (hsound hf).imp fun _ h => h.2, fun ⟨x, hd⟩ => (hcomplete x hd).1⟩
  · intro x y hx hy
    have hx' := (hcomplete x hx).2
    rw [(hcomplete y hy).2] at hx'
    exact (Option.some.inj hx').symm
  · intro hf
    obtain ⟨x, hx, hd⟩ := hsound hf
    exact ⟨x, hx, hd.noShortSequence⟩

/-- The tokens of `begin ; x := a - (b) + c end`: operators group from the left, brackets leave no trace,
    and in front of the semicolon stands a blank command. -/
theorem Program.ofTokens_reads_sequence :
    let token (k : Token.Kind) (spelling : String) : Token := ⟨k, spelling, ⟨1, 1⟩⟩
    let tokens := [token (.keyword .begin_) "begin", token .semicolon ";", token .identifier "x",
      token .becomes ":=", token .identifier "a", token .operator "-", token .leftBracket "(",
      token .identifier "b", token .rightBracket ")", token .operator "+", token .identifier "c",
      token (.keyword .end_) "end"]
    (∀ t ∈ tokens, t.kind ≠ .endOfText) ∧
      ∃ r, Program.ofTokens (tokens ++ [token .endOfText ""]) = .ok r ∧ r.findings = [] ∧
        r.program.command.shape? = some (.sequential [.blank, .assign "x"
          (.binary "+" (.binary "-" (.name "a") (.name "b")) (.name "c"))]) := by
  intro token tokens
  have hne : ∀ t ∈ tokens, t.kind ≠ .endOfText := by simp [tokens, token]
  have hlast : (token .endOfText "").kind = .endOfText := rfl
  obtain ⟨r, hr, hiff, -⟩ := Program.ofTokens_reads_iff_derives hlast hne
  have hname (n : String) : DerivesPrimary [token .identifier n] (.name n) := .name rfl
  have hb : DerivesPrimary (token .leftBracket "(" :: ([token .identifier "b"] ++ [] ++
      [token .rightBracket ")"])) (.name "b") := .bracketed rfl (.chain (hname "b") .none) rfl
  have hplus : DerivesOperands (token .operator "+" :: ([token .identifier "c"] ++ [])) _ :=
    .more rfl (hname "c") .none
  have hminus : DerivesOperands (token .operator "-" :: _) _ := .more rfl hb hplus
  have hassign : DerivesSingleCommand (token .identifier "x" :: token .becomes ":=" :: _) _ :=
    .assign rfl rfl (.chain (hname "a") hminus)
  have hmore : DerivesMoreCommands (token .semicolon ";" :: _) _ := .more rfl hassign .none
  have hbegin : DerivesSingleCommand (token (.keyword .begin_) "begin" ::
      (_ ++ [token (.keyword .end_) "end"])) _ := .begin_ rfl (.chain .blank hmore) rfl
  exact ⟨hne, r, hr, (hiff _).mpr (.chain hbegin .none)⟩

end TriangleCompiler
