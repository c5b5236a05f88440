import TriangleCompiler.Proofs.Compilation.Independence
import TriangleCompiler.Proofs.Token.Respelling

/-! Where errors are reported. Tokens that are all moved to the places where they are stay the same, and so
    do the errors; so no error is at a place that no token is at, but for the start of the text. -/

namespace TriangleCompiler

/-- What is at one of the places stays there, in the same words, and all else is moved to the start. -/
def Rewording.staying (places : List Position) : Rewording where
  place p := if p ∈ places then p else .start
  respell _ spelling := spelling
  place_start := ite_self _

theorem Rewording.keeps_staying (places : List Position) : (staying places).Keeps := fun _ _ => rfl

theorem Token.map_reword_staying (tokens : List Token) :
    tokens.map (·.reword (.staying (tokens.map position))) = tokens := by
  have hsame : ∀ t ∈ tokens, t.reword (.staying (tokens.map position)) = t := by
    intro t ht
    simp only [reword, Rewording.staying, if_pos (List.mem_map_of_mem ht), ite_self]
  rw [List.map_congr_left hsame, List.map_id']

theorem Token.position_ne_builtin {source : String} {t : Token} (ht : t ∈ ofString source) :
    t.position ≠ .builtin := by
  obtain ⟨pieces, gap, -, -, -, -, htiling, htokens⟩ := Lexical.exists_tiling source
  have hmem : t.position ∈ (ofString source).map position := List.mem_map_of_mem ht
  rw [htokens, List.map_append, List.map_map] at hmem
  obtain ⟨cs, hcs⟩ := htiling.nodup_positions.1 _ hmem
  intro hbuiltin
  have hline := congrArg Position.line (hcs.symm.trans hbuiltin)
  simp only [Lexical.placeAfter, Position.builtin] at hline
  omega

namespace Compilation
variable {source : String} {c : Compilation}

/-- Every error is at a token or at the start of the text. -/
theorem position_of_mem_errors (h : run source = .ok c) {e : Diagnostic} (he : e ∈ c.errors) :
    e.position ∈ (Token.ofString source).map Token.position ∨ e.position = .start := by
  have hkeeps := Rewording.keeps_staying ((Token.ofString source).map Token.position)
  have halike := alike_ofTokens hkeeps (Token.ofString source)
  rw [Token.map_reword_staying, ← run_eq_ofTokens, h] at halike
  cases halike with
  | ok hreworded =>
    have hplace := (List.forall₂_same.mp hreworded.errors e he).1
    by_cases hmem : e.position ∈ (Token.ofString source).map Token.position
    · exact .inl hmem
    · exact .inr (hplace.trans (if_neg hmem))

theorem position_ne_builtin (h : run source = .ok c) {e : Diagnostic} (he : e ∈ c.errors) :
    e.position ≠ .builtin := by
  rcases position_of_mem_errors h he with hmem | hstart
  · obtain ⟨t, ht, hposition⟩ := List.mem_map.mp hmem
    exact hposition ▸ Token.position_ne_builtin ht
  · rw [hstart]
    decide

end Compilation

end TriangleCompiler
