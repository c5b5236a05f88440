import TriangleCompiler.Program.Parser.State

/-! What the elementary steps of a reader do to its state: how many tokens they pass, which numbers they
    hand out and which errors they add. -/

namespace TriangleCompiler.Parser.State

variable {s t : State} {k : Token.Kind}

@[simp] theorem ahead_countNode (s : State) : s.countNode.ahead = s.ahead := rfl

@[simp] theorem findings_countNode (s : State) : s.countNode.findings = s.findings := rfl

@[simp] theorem nextId_countNode (s : State) : s.countNode.nextId = s.nextId + 1 := rfl

@[simp] theorem kind_countNode (s : State) : s.countNode.kind = s.kind := rfl

@[simp] theorem spelling_name (s : State) : s.name.spelling = s.spelling := rfl

@[simp] theorem id_name (s : State) : s.name.id = s.nextId := rfl

@[simp] theorem id_tag (s : State) : s.tag.id = s.nextId := rfl

@[simp] theorem nextId_report (s : State) (cause : SyntaxError) : (s.report cause).nextId = s.nextId := rfl

@[simp] theorem length_findings_report (s : State) (cause : SyntaxError) :
    (s.report cause).findings.length = s.findings.length + 1 := rfl

@[simp] theorem nextId_reportMissing (s : State) (k : Token.Kind) :
    (s.reportMissing k).nextId = s.nextId := rfl

@[simp] theorem length_findings_reportMissing (s : State) (k : Token.Kind) :
    (s.reportMissing k).findings.length = s.findings.length + 1 := rfl

@[simp] theorem findings_advance (s : State) : s.advance.findings = s.findings := by
  unfold advance
  split <;> rfl

@[simp] theorem nextId_advance (s : State) : s.advance.nextId = s.nextId := by
  unfold advance
  split <;> rfl

/-- A token other than the end of the text is one that can be passed. -/
theorem ahead_eq_cons (hk : s.kind = k) (hne : k ≠ .endOfText) :
    ∃ tok, s.ahead = tok :: s.advance.ahead ∧ tok.kind = k ∧ tok.spelling = s.spelling := by
  unfold kind at hk
  unfold advance spelling
  split at hk
  · exact absurd hk.symm hne
  · rename_i tok rest hahead
    rw [hahead]
    exact ⟨tok, rfl, hk, rfl⟩

theorem kind_eq_of_ahead {tok : Token} {rest : List Token} (h : s.ahead = tok :: rest) :
    s.kind = tok.kind := by
  unfold kind
  rw [h]

theorem spelling_eq_of_ahead {tok : Token} {rest : List Token} (h : s.ahead = tok :: rest) :
    s.spelling = tok.spelling := by
  unfold spelling
  rw [h]

theorem advance_ahead {tok : Token} {rest : List Token} (h : s.ahead = tok :: rest) :
    s.advance.ahead = rest := by
  unfold advance
  rw [h]

theorem of_accept? (h : s.accept? k = some t) :
    ∃ tok, s.ahead = tok :: t.ahead ∧ tok.kind = k ∧ t.findings = s.findings ∧ t.nextId = s.nextId := by
  unfold accept? at h
  split at h
  · cases h
  · rename_i tok rest hahead
    split at h
    · rename_i hk
      cases h
      exact ⟨tok, hahead, hk, rfl, rfl⟩
    · cases h

theorem of_acceptName? {name : Name} (h : s.acceptName? k = some (name, t)) :
    ∃ tok, s.ahead = tok :: t.ahead ∧ tok.kind = k ∧ name.spelling = tok.spelling ∧ name.id = s.nextId ∧
      t.findings = s.findings ∧ t.nextId = s.nextId + 1 := by
  obtain ⟨u, hu, heq⟩ := Option.map_eq_some_iff.mp h
  cases heq
  obtain ⟨tok, hahead, hk, hf, hid⟩ := of_accept? hu
  exact ⟨tok, hahead, hk, spelling_eq_of_ahead hahead, rfl, hf, by simp [hid]⟩

theorem exists_accept? {tok : Token} {rest : List Token} (h : s.ahead = tok :: rest) (hk : tok.kind = k) :
    ∃ t, s.accept? k = some t ∧ t.ahead = rest ∧ t.findings = s.findings := by
  unfold accept?
  rw [h]
  exact ⟨_, if_pos hk, rfl, rfl⟩

theorem exists_acceptName? {tok : Token} {rest : List Token} (h : s.ahead = tok :: rest)
    (hk : tok.kind = k) :
    ∃ name t, s.acceptName? k = some (name, t) ∧ name.spelling = tok.spelling ∧ t.ahead = rest ∧
      t.findings = s.findings := by
  obtain ⟨t, ht, ha, hf⟩ := exists_accept? h hk
  refine ⟨s.name, t.countNode, ?_, spelling_eq_of_ahead h, ha, hf⟩
  rw [acceptName?, ht]
  rfl

theorem accept?_eq_none (h : s.kind ≠ k) : s.accept? k = none := by
  unfold kind at h
  unfold accept?
  split
  · rfl
  · rename_i tok rest hahead
    rw [hahead] at h
    exact if_neg h

theorem acceptName?_eq_none (h : s.kind ≠ k) : s.acceptName? k = none := by
  rw [acceptName?, accept?_eq_none h]
  rfl

end TriangleCompiler.Parser.State
