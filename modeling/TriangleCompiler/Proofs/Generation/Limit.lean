import TriangleCompiler.Proofs.Generation.DirectCode

/-! Code that is generated under a limit. What finds room is the beginning of the full code, except that
    no jump goes beyond the limit; the first instruction that finds no room is reported, and nothing else
    is, as words of storage are never more than the instructions that make room for them. -/

namespace TriangleCompiler

open Machine (Code Instruction Word)
open Typing Generation

theorem min_ofNat_word {a b : Nat} (ha : a ≤ Word.max) (hb : b ≤ Word.max) :
    min (Int16.ofNat a) (Int16.ofNat b) = Int16.ofNat (min a b) := by
  unfold Word.max at ha hb
  have hiff : Int16.ofNat a ≤ Int16.ofNat b ↔ a ≤ b := by
    rw [Int16.le_iff_toInt_le, Int16.toInt_ofNat_of_lt (by omega), Int16.toInt_ofNat_of_lt (by omega)]
    omega
  rw [Nat.min_def]
  show (if Int16.ofNat a ≤ Int16.ofNat b then _ else _) = _
  simp only [hiff]
  split <;> rfl

/-- Under a limit the jumps of the full code go no further than to the limit. -/
theorem Program.fullCode_limit {p : Program} {links : Resolution} {limit : Nat} (hlimit : limit ≤ Word.max)
    (hlength : (p.fullCode links Int16.ofNat).length ≤ Word.max) : p.fullCode links (cappedTarget limit) =
      (p.fullCode links Int16.ofNat).map (Instruction.redirect (min · (Int16.ofNat limit))) := by
  refine (Program.map_redirect_fullCode fun a ha => ?_).symm
  exact min_ofNat_word (Nat.le_trans ha hlength) hlimit

/-- What is generated for a well-typed program whose full code has an address for every instruction: as much
    of it as there is room for, and one error if this is not all of it. -/
theorem Program.generate_ends_within {p : Program} {cx : Context} {ds : Decoration} {room : Code}
    (hids : Parser.Counted p.command.ids 0 p.nodeCount) (h : WellTyped cx.links .empty p.command ds)
    (hrec : Records cx ds) (hroom : room.instructions = #[])
    (hlength : (p.fullCode cx.links Int16.ofNat).length ≤ Word.max) :
    ∃ u, (p.generate cx).finalState (.start p room) = .ok u ∧
      u.code.instructions.toList = ((p.fullCode cx.links Int16.ofNat).take room.limit).map
        (Instruction.redirect (min · (Int16.ofNat room.limit))) ∧
      ((p.fullCode cx.links Int16.ofNat).length ≤ room.limit → u.errors = #[]) ∧
      (room.limit < (p.fullCode cx.links Int16.ofNat).length →
        ∃ position, u.errors = #[⟨position, .size .programTooLarge⟩]) := by
  obtain ⟨u, hu, htracks⟩ := Program.generate_ends hids h hrec hroom
  have hsame := p.length_fullCode cx.links (cappedTarget room.limit) Int16.ofNat
  refine ⟨u, hu, ?_, fun hfits => htracks.clean (by rwa [hsame]), fun hfull => ?_⟩
  · rw [htracks.code, Program.fullCode_limit room.addressable hlength, List.map_take]
  · obtain ⟨position, scopes, herrors, -, hnone⟩ := htracks.tooLarge (by rwa [hsame])
    rw [hnone (by rwa [hsame])] at herrors
    exact ⟨position, Array.toList_inj.mp herrors⟩

/-- A program is read, resolved and checked without an error, and its full code has an address for every
    instruction. Then the full code is what is generated where there is room for all of it. Under every limit
    the generation ends without a fault. It gives the instructions of the full code that there is room for;
    only their jumps go no further than to the limit. Nothing is reported if this is the full code, and
    otherwise one error, that the program is too large. -/
theorem Program.generate_within_limit {tokens : List Token} {r : Parser.Result} {s : Resolution.State}
    {t : Typing.State} (hparse : Program.ofTokens tokens = .ok r) (hfindings : r.findings = [])
    (hresolve : r.program.resolve.finalState (.start r.program) = .ok s) (herrors : s.errors = #[])
    (hcheck : (r.program.check s.links).finalState (.start r.program) = .ok t) (htypes : t.errors = #[])
    (hlength : (r.program.fullCode s.links Int16.ofNat).length ≤ Word.max) :
    let full := r.program.fullCode s.links Int16.ofNat
    (∃ u, (r.program.generate ⟨s.links, t.types⟩).finalState (.start r.program .empty) = .ok u ∧
      u.errors = #[] ∧ u.code.instructions.toList = full) ∧
    ∀ limit ≤ Word.max, ∃ room u, Code.withLimit limit = .ok room ∧
      (r.program.generate ⟨s.links, t.types⟩).finalState (.start r.program room) = .ok u ∧
      u.code.size = min full.length limit ∧
      u.code.instructions.toList = (full.take limit).map (Instruction.redirect (min · (Int16.ofNat limit))) ∧
      (full.length ≤ limit → u.errors = #[]) ∧
      (limit < full.length → ∃ position, u.errors = #[⟨position, .size .programTooLarge⟩]) := by
  intro full
  have hids := Parser.counted_ofTokens hparse
  obtain ⟨ds, hds, hrecords⟩ := Program.wellTyped_of_check hparse hfindings hresolve herrors hcheck htypes
  refine ⟨?_, fun limit hlimit => ?_⟩
  · obtain ⟨u, hu, htracks⟩ := Program.generate_ends hids hds hrecords (rfl : Code.empty.instructions = #[])
    have hcapped := Program.fullCode_cappedTarget hlength
    refine ⟨u, hu, htracks.clean ?_, ?_⟩
    · exact Nat.le_trans (Nat.le_of_eq (r.program.length_fullCode s.links _ _)) hlength
    · rw [htracks.code]
      exact (congrArg (List.take Word.max) hcapped).trans (List.take_of_length_le hlength)
  · have hroom : Code.withLimit limit = .ok ⟨#[], limit, Nat.zero_le _, hlimit⟩ := dif_pos hlimit
    obtain ⟨u, hu, hcode, hclean, hfull⟩ := Program.generate_ends_within hids hds hrecords
      (rfl : (⟨#[], limit, Nat.zero_le _, hlimit⟩ : Code).instructions = #[]) hlength
    refine ⟨_, u, hroom, hu, ?_, hcode, hclean, hfull⟩
    rw [Code.size, ← Array.length_toList, hcode, List.length_map, List.length_take, Nat.min_comm]

/-- A loop of which only the first four instructions find room: its first jump, which leads to the test
    behind the body, leads to the limit instead. -/
theorem Program.generate_within_limit_loop :
    let source := "let var n : Integer in while (n < 3) do begin n := n + 1; putint(n) end"
    ∃ r s t room u position, Program.ofTokens (Token.ofString source) = .ok r ∧ r.findings = [] ∧
      r.program.resolve.finalState (.start r.program) = .ok s ∧ s.errors = #[] ∧
      (r.program.check s.links).finalState (.start r.program) = .ok t ∧ t.errors = #[] ∧
      (r.program.fullCode s.links Int16.ofNat).length = 14 ∧ Code.withLimit 4 = .ok room ∧
      (r.program.generate ⟨s.links, t.types⟩).finalState (.start r.program room) = .ok u ∧
      u.code.instructions.toList = [.push 1, .jump 4, loadSlot 0, .loadLiteral 1] ∧
      u.errors = #[⟨position, .size .programTooLarge⟩] := by
  intro source
  have hrun : ((Program.ofTokens (Token.ofString source)).toOption.any fun r => r.findings.isEmpty &&
      (r.program.resolve.finalState (.start r.program)).toOption.any fun s => s.errors.isEmpty &&
        ((r.program.check s.links).finalState (.start r.program)).toOption.any fun t => t.errors.isEmpty &&
          decide ((r.program.fullCode s.links Int16.ofNat).length = 14 ∧
            (r.program.fullCode s.links Int16.ofNat).take 4 =
              [.push 1, .jump 8, loadSlot 0, .loadLiteral 1])) = true := by
    decide +kernel
  simp only [Option.any_eq_true, Bool.and_eq_true, List.isEmpty_iff, Array.isEmpty_iff,
    decide_eq_true_eq] at hrun
  obtain ⟨r, hr, hf, s, hs, he, t, ht, hn, hlength, htake⟩ := hrun
  replace hr := eq_ok_of_toOption hr
  replace hs := eq_ok_of_toOption hs
  replace ht := eq_ok_of_toOption ht
  obtain ⟨-, hlimit⟩ := Program.generate_within_limit hr hf hs he ht hn (by rw [hlength]; decide)
  obtain ⟨room, u, hroom, hu, -, hcode, -, hfull⟩ := hlimit 4 (by decide)
  obtain ⟨position, herrors⟩ := hfull (by rw [hlength]; decide)
  refine ⟨r, s, t, room, u, position, hr, hf, hs, he, ht, hn, hlength, hroom, hu, ?_, herrors⟩
  rw [hcode, htake]
  decide

end TriangleCompiler
